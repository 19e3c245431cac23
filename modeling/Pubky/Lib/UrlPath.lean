import Mathlib.Data.List.DropRight
import Pubky.Lib.Percent

/-!
# Paths of URLs

The path state of the WHATWG URL parser for a special scheme such as `https`, and the segments
that an editor appends to the path of a URL with a scheme that is not special.

A path is the list of its segments. The parser removes tabs and newlines, splits at `/` and `\`,
escapes the characters of the path percent-encode set, and resolves dot segments, which may be
written with escapes; an editor escapes `/` and `%` as well, so that a segment stays one segment,
but not `\`. What comes out of the editor is not escaped again (`encode_keepPath_encodeSegment`),
and escaping neither makes nor hides a dot segment (`isSingleDot_encodeSegment`,
`isDoubleDot_encodeSegment`).
-/

namespace UrlPath

open Percent

/-- The characters that a parser removes from its input. -/
def isTabOrNewline (c : Char) : Bool := c = '\t' || c = '\n' || c = '\r'

def removeTabs (t : Text) : Text := t.filter (!isTabOrNewline ·)

/-- The C0 controls and the space, which a parser removes from the ends of its input. -/
def isC0OrSpace (c : Char) : Bool := c.toNat ≤ 0x20

/-- The characters outside the path percent-encode set. -/
def keepPath (c : Char) : Bool :=
  0x21 ≤ c.toNat && c.toNat ≤ 0x7e &&
    !(c = '"' || c = '#' || c = '<' || c = '>' || c = '?' || c = '^' || c.toNat = 0x60 ||
      c.toNat = 0x7b || c.toNat = 0x7d)

/-- The characters that an editor of segments leaves as they are. -/
def keepSegment (c : Char) : Bool := keepPath c && c ≠ '/' && c ≠ '%'

def encodeSegment (t : Text) : Text := encode keepSegment t

def isSingleDot (t : Text) : Bool :=
  [".", "%2e", "%2E"].any (·.toList = t)

def isDoubleDot (t : Text) : Bool :=
  ["..", "%2e%2e", "%2e%2E", "%2E%2e", "%2E%2E", "%2e.", "%2E.", ".%2e", ".%2E"].any (·.toList = t)

/-- The end of a segment: at a separator or, for the last one, at the end of the path. -/
def step (path : List Text) (last : Bool) (segment : Text) : List Text :=
  if isDoubleDot segment then if last then path.dropLast ++ [[]] else path.dropLast
  else if isSingleDot segment then if last then path ++ [[]] else path
  else path ++ [segment]

/-- The path that segments lead to. -/
def resolve (path : List Text) : List Text → List Text
  | [] => path
  | [segment] => step path true segment
  | segment :: segments => resolve (step path false segment) segments

/-- The text of a path. -/
def serialize (path : List Text) : Text := '/' :: Text.join '/' path

/-- The separators in a URL with a special scheme. -/
def isSeparator (c : Char) : Bool := c = '/' || c = '\\'

/-- The setter of the path of a URL with a special scheme, for a text that starts with `/`. -/
def setPath (input : Text) : List Text :=
  resolve [] (((removeTabs input).drop 1).splitOnP isSeparator |>.map (encode keepPath))

/-- The path of a URL with a special scheme, from what follows its host. -/
def parse (input : Text) : List Text :=
  setPath ((input.rdropWhile isC0OrSpace).takeWhile fun c => c ≠ '?' && c ≠ '#')

/-- Append a segment to the path of a URL without a special scheme. -/
def push (path : List Text) (segment : Text) : List Text :=
  if segment = ".".toList ∨ segment = "..".toList then path
  else step (if path = [[]] then [] else path) true (encodeSegment (removeTabs segment))

/-! ## Dot segments -/

theorem lawful_keepSegment : Lawful keepSegment where
  ascii c h := by
    simp only [keepSegment, keepPath, Bool.and_eq_true, decide_eq_true_eq] at h
    omega
  percent := rfl

variable {path segments : List Text} {segment t u : Text} {c : Char}

private theorem eq_of_encodeSegment_mem {names : List String} {dots : Text}
    (hnames : ∀ name ∈ names, decodeBytes (bytes name.toList) = bytes dots)
    (h : names.any (·.toList = encodeSegment t)) : t = dots := by
  obtain ⟨name, hname, heq⟩ := List.any_eq_true.1 h
  have hbytes : bytes t = bytes dots := by
    rw [← decodeBytes_encode lawful_keepSegment t, ← encodeSegment, ← of_decide_eq_true heq]
    exact hnames name hname
  exact bytes_injective hbytes

theorem isSingleDot_encodeSegment : isSingleDot (encodeSegment t) ↔ t = ".".toList := by
  refine ⟨eq_of_encodeSegment_mem (by decide), ?_⟩
  rintro rfl
  decide

theorem isDoubleDot_encodeSegment : isDoubleDot (encodeSegment t) ↔ t = "..".toList := by
  refine ⟨eq_of_encodeSegment_mem (by decide), ?_⟩
  rintro rfl
  decide

/-- A segment that is not resolved. -/
def Plain (segment : Text) : Prop := isSingleDot segment = false ∧ isDoubleDot segment = false

theorem plain_encodeSegment (hdot : t ≠ ".".toList) (hdots : t ≠ "..".toList) :
    Plain (encodeSegment t) := by
  constructor
  · rw [← Bool.not_eq_true, isSingleDot_encodeSegment]
    exact hdot
  · rw [← Bool.not_eq_true, isDoubleDot_encodeSegment]
    exact hdots

/-! ## Resolving -/

theorem step_plain {last : Bool} (h : Plain segment) :
    step path last segment = path ++ [segment] := by
  rw [step, h.2, if_neg Bool.false_ne_true, h.1, if_neg Bool.false_ne_true]

/-- Segments that are not resolved are appended. -/
theorem resolve_plain (h : ∀ segment ∈ segments, Plain segment) :
    resolve path segments = path ++ segments := by
  fun_induction resolve path segments with
  | case1 path => simp
  | case2 path segment => exact step_plain (h segment (by simp))
  | case3 path segment segments _ ih =>
    obtain ⟨hsegment, hsegments⟩ := List.forall_mem_cons.1 h
    rw [ih hsegments, step_plain hsegment, List.append_assoc, List.singleton_append]

theorem mem_step {last : Bool} (h : t ∈ step path last segment) :
    t ∈ path ∨ t = segment ∨ t = [] := by
  rw [step] at h
  split at h
  · split at h
    · rcases List.mem_append.1 h with h | h
      · exact .inl ((List.dropLast_sublist path).subset h)
      · exact .inr (.inr (List.mem_singleton.1 h))
    · exact .inl ((List.dropLast_sublist path).subset h)
  · split at h
    · split at h
      · rcases List.mem_append.1 h with h | h
        · exact .inl h
        · exact .inr (.inr (List.mem_singleton.1 h))
      · exact .inl h
    · rcases List.mem_append.1 h with h | h
      · exact .inl h
      · exact .inr (.inl (List.mem_singleton.1 h))

/-- Resolving makes no new segments but the empty one. -/
theorem mem_resolve (h : t ∈ resolve path segments) : t ∈ path ∨ t ∈ segments ∨ t = [] := by
  fun_induction resolve path segments with
  | case1 path => exact .inl h
  | case2 path segment =>
    rcases mem_step h with h | h | h
    · exact .inl h
    · exact .inr (.inl (by simp [h]))
    · exact .inr (.inr h)
  | case3 path segment segments _ ih =>
    rcases ih h with h | h | h
    · rcases mem_step h with h | h | h
      · exact .inl h
      · exact .inr (.inl (by simp [h]))
      · exact .inr (.inr h)
    · exact .inr (.inl (List.mem_cons_of_mem _ h))
    · exact .inr (.inr h)

theorem step_ne_nil : step path true segment ≠ [] := by
  rw [step]
  split
  · simp
  · split <;> simp

theorem resolve_ne_nil (h : segments ≠ []) : resolve path segments ≠ [] := by
  fun_induction resolve path segments with
  | case1 path => exact absurd rfl h
  | case2 path segment => exact step_ne_nil
  | case3 path segment segments hne ih => exact ih hne

theorem keepSegment_of_isUpperHex (h : isUpperHex c) : keepSegment c := by
  have hall : ∀ d ∈ "0123456789ABCDEF".toList, keepSegment d := Text.forall_mem_of_all (by decide)
  exact hall c (of_decide_eq_true h)

theorem keepPath_of_keepSegment (h : keepSegment c) : keepPath c := by
  simp only [keepSegment, Bool.and_eq_true] at h
  exact h.1.1

theorem mem_encodeSegment (h : c ∈ encodeSegment t) : c = '%' ∨ keepSegment c := by
  rcases mem_encode h with ⟨hkeep, -⟩ | hpercent | hhex
  · exact .inr hkeep
  · exact .inl hpercent
  · exact .inr (keepSegment_of_isUpperHex hhex)

theorem keepPath_of_mem_encodeSegment (h : c ∈ encodeSegment t) : keepPath c := by
  rcases mem_encodeSegment h with rfl | h
  · rfl
  · exact keepPath_of_keepSegment h

theorem slash_not_mem_encodeSegment (t : Text) : '/' ∉ encodeSegment t := by
  intro h
  rcases mem_encodeSegment h with h | h
  · exact absurd h (by decide)
  · exact absurd h (by decide)

theorem encodeSegment_injective : Function.Injective encodeSegment :=
  encode_injective lawful_keepSegment

theorem encodeSegment_ne_nil (h : t ≠ []) : encodeSegment t ≠ [] :=
  encode_ne_nil h

/-- The pieces of an escaped segment. -/
theorem splitOnP_encodeSegment (h : '/' ∉ t) :
    (encodeSegment t).splitOnP isSeparator = (t.splitOnP isSeparator).map encodeSegment := by
  refine splitOnP_encode (fun c hc hsep => ?_) fun c hc => ?_
  · simp only [isSeparator, Bool.or_eq_true, decide_eq_true_eq] at hsep
    rcases hsep with rfl | rfl
    · exact absurd hc h
    · rfl
  · have hall : ∀ d ∈ "0123456789ABCDEF".toList, isSeparator d = false :=
      Text.forall_mem_of_all (by decide)
    rcases hc with rfl | hc
    · rfl
    · exact hall c (of_decide_eq_true hc)

/-! ## Parsing what has been escaped -/

theorem not_tab_of_keepPath (h : keepPath c) : isTabOrNewline c = false := by
  simp only [keepPath, Bool.and_eq_true, decide_eq_true_eq] at h
  simp only [isTabOrNewline, Bool.or_eq_false_iff, decide_eq_false_iff_not]
  refine ⟨⟨?_, ?_⟩, ?_⟩ <;> (rintro rfl; exact absurd h.1.1 (by decide))

theorem removeTabs_eq_self (h : ∀ c ∈ t, isTabOrNewline c = false) : removeTabs t = t := by
  refine List.filter_eq_self.2 fun c hc => ?_
  rw [h c hc, Bool.not_false]

theorem setPath_of_keepPath (h : ∀ c ∈ t, keepPath c) :
    setPath ('/' :: t) = resolve [] (t.splitOnP isSeparator) := by
  have htabs : removeTabs ('/' :: t) = '/' :: t := by
    refine removeTabs_eq_self fun c hc => not_tab_of_keepPath ?_
    rcases List.mem_cons.1 hc with rfl | hc
    · rfl
    · exact h c hc
  have hmem : ∀ s ∈ t.splitOnP isSeparator, encode keepPath s = s := by
    intro s hs
    exact encode_eq_self fun c hc => h c (Text.mem_of_mem_splitOnP hs hc).1
  rw [setPath, htabs, List.drop_one, List.tail_cons, List.map_congr_left hmem, List.map_id']

/-- A text whose characters are all kept is only split and resolved. -/
theorem parse_of_keepPath (h : ∀ c ∈ t, keepPath c) :
    parse ('/' :: t) = resolve [] (t.splitOnP isSeparator) := by
  have hslash : ∀ c ∈ '/' :: t, keepPath c := by
    intro c hc
    rcases List.mem_cons.1 hc with rfl | hc
    · rfl
    · exact h c hc
  have hend : ('/' :: t).rdropWhile isC0OrSpace = '/' :: t := by
    refine List.rdropWhile_eq_self_iff.2 fun hne hspace => ?_
    have hkeep := hslash _ (List.getLast_mem hne)
    simp only [keepPath, Bool.and_eq_true, decide_eq_true_eq, isC0OrSpace] at hkeep hspace
    omega
  have hquery : ('/' :: t).takeWhile (fun c => c ≠ '?' && c ≠ '#') = '/' :: t := by
    refine List.takeWhile_eq_self_iff.2 fun c hc => ?_
    have hkeep := hslash c hc
    simp only [Bool.and_eq_true, decide_eq_true_eq]
    constructor <;> (rintro rfl; exact absurd hkeep (by decide))
  rw [parse, hend, hquery, setPath_of_keepPath h]

theorem splitOnP_join (h : segments ≠ []) :
    (Text.join '/' segments).splitOnP isSeparator =
      segments.flatMap (·.splitOnP isSeparator) := by
  induction segments with
  | nil => exact absurd rfl h
  | cons s ss ih =>
    cases ss with
    | nil => simp [Text.join]
    | cons u us =>
      rw [Text.join_cons_cons, List.splitOnP_append_cons _ _ rfl, ih (by simp), ← List.flatMap_cons]

theorem serialize_injective {path' : List Text} (hpath : ∀ s ∈ path, '/' ∉ s)
    (hpath' : ∀ s ∈ path', '/' ∉ s) (hne : path ≠ []) (hne' : path' ≠ [])
    (h : serialize path = serialize path') : path = path' := by
  have hjoin : Text.join '/' path = Text.join '/' path' := (List.cons.inj h).2
  rw [← Text.splitOn_join hpath hne, hjoin, Text.splitOn_join hpath' hne']

end UrlPath
