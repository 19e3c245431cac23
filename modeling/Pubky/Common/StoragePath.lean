import Pubky.Lib.Text

/-!
# Storage paths

`pubky-common/src/storage_path.rs`: canonical decoded paths. A `StoragePath` carries
the proof that its text passed `validateCanonical`, which both of its constructors
establish: `StoragePath.new` by checking, `StoragePath.normalize` because what it
computes is canonical (`normalizeText_canonical`).
-/

namespace Pubky

/-- Maximum decoded UTF-8 byte length of one path segment. -/
def maxStoragePathSegmentLength : ℕ := 255

/-- Maximum decoded UTF-8 byte length of a complete canonical path. -/
def maxStoragePathTotalLength : ℕ := 972

inductive StoragePathError where
  | notAbsolute
  | emptySegment
  | currentDirectorySegment
  | parentDirectorySegment
  | traversalAboveRoot
  | controlCharacter
  | backslash
  | trailingWhitespace
  | segmentTooLong (actual maximum : ℕ)
  | pathTooLong (actual maximum : ℕ)
  deriving DecidableEq, Repr

/-- The text of an error. -/
def StoragePathError.toText : StoragePathError → Text
  | notAbsolute => "path must be absolute".toList
  | emptySegment => "path contains an empty segment".toList
  | currentDirectorySegment => "path contains a `.` segment".toList
  | parentDirectorySegment => "path contains a `..` segment".toList
  | traversalAboveRoot => "path traverses above root".toList
  | controlCharacter => "path contains a control character".toList
  | backslash => "path must not contain a backslash".toList
  | trailingWhitespace => "path must not end in whitespace".toList
  | segmentTooLong actual maximum =>
    "path segment is ".toList ++ Nat.toDigits 10 actual ++ " bytes; maximum is ".toList ++
      Nat.toDigits 10 maximum
  | pathTooLong actual maximum =>
    "path is ".toList ++ Nat.toDigits 10 actual ++ " bytes; maximum is ".toList ++
      Nat.toDigits 10 maximum

def validateSegment (segment : Text) : Except StoragePathError Unit :=
  if maxStoragePathSegmentLength < segment.byteLen then
    .error (.segmentTooLong segment.byteLen maxStoragePathSegmentLength)
  else if segment.any Text.isControl then .error .controlCharacter
  else if '\\' ∈ segment then .error .backslash
  else .ok ()

def validateTotalLength (path : Text) : Except StoragePathError Unit :=
  if maxStoragePathTotalLength < path.byteLen then
    .error (.pathTooLong path.byteLen maxStoragePathTotalLength)
  else .ok ()

def validateTrailingWhitespace (path : Text) : Except StoragePathError Unit :=
  if path.getLast?.any Text.isWhitespace then .error .trailingWhitespace else .ok ()

/-- The loop of `validate_canonical` over the segments; only the last one may be empty. -/
def validateSegments : List Text → Except StoragePathError Unit
  | [] => .ok ()
  | segment :: rest =>
    if segment = [] then
      if rest = [] then .ok () else .error .emptySegment
    else if segment = ".".toList then .error .currentDirectorySegment
    else if segment = "..".toList then .error .parentDirectorySegment
    else do
      validateSegment segment
      validateSegments rest

def validateCanonical (path : Text) : Except StoragePathError Unit :=
  if path.head? ≠ some '/' then .error .notAbsolute
  else do
    validateTotalLength path
    if path = ['/'] then return
    validateSegments ((path.drop 1).splitOn '/')
    validateTrailingWhitespace path

/-- A canonical decoded Pubky storage path. -/
structure StoragePath where
  asStr : Text
  canonical : validateCanonical asStr = .ok ()

namespace StoragePath

instance : DecidableEq StoragePath := fun a b =>
  decidable_of_iff (a.asStr = b.asStr) ⟨fun h => by cases a; cases b; simpa using h, congrArg _⟩

@[ext] theorem ext {a b : StoragePath} (h : a.asStr = b.asStr) : a = b := by
  cases a
  cases b
  simpa using h

/-- Parse an already canonical decoded absolute path. -/
def new (path : Text) : Except StoragePathError StoragePath :=
  match h : validateCanonical path with
  | .ok () => .ok ⟨path, h⟩
  | .error e => .error e

/-- The canonical storage root. -/
def root : StoragePath := ⟨['/'], by decide⟩

def isRoot (p : StoragePath) : Bool := p.asStr = ['/']

def isDirectory (p : StoragePath) : Bool := Text.endsWith '/' p.asStr

def isFile (p : StoragePath) : Bool := !p.isDirectory

/-- Whether this path, used as a scope, covers the requested path. -/
def coversPath (self path : StoragePath) : Bool :=
  self = path || (self.isDirectory && self.asStr.isPrefixOf path.asStr)

end StoragePath

/-! ## Normalization -/

/-- The loop of `StoragePath::normalize`, with the stack of segments kept so far. -/
def normalizeSegments : List Text → List Text → Except StoragePathError (List Text)
  | segments, [] => .ok segments
  | segments, segment :: rest =>
    if segment = [] ∨ segment = ".".toList then normalizeSegments segments rest
    else if segment = "..".toList then
      if segments = [] then .error .traversalAboveRoot
      else normalizeSegments segments.dropLast rest
    else do
      validateSegment segment
      normalizeSegments (segments ++ [segment]) rest

/-- A path text that names a directory: it ends in `/`, `/.` or `/..`. -/
def directoryShaped (path : Text) : Bool :=
  Text.endsWith '/' path ||
    (path.splitOn '/').getLast?.any fun s => s = ".".toList || s = "..".toList

/-- The canonical text of a list of segments. -/
def canonicalText (segments : List Text) (directory : Bool) : Text :=
  let canonical := '/' :: Text.join '/' segments
  if directory && canonical ≠ ['/'] then canonical ++ ['/'] else canonical

/-- The text that `StoragePath::normalize` computes. -/
def normalizeText (path : Text) : Except StoragePathError Text :=
  if path.head? ≠ some '/' then .error .notAbsolute
  else do
    let segments ← normalizeSegments [] ((path.splitOn '/').drop 1)
    let canonical := canonicalText segments (directoryShaped path)
    validateTotalLength canonical
    validateTrailingWhitespace canonical
    return canonical

/-- A segment that a canonical path may contain. -/
structure GoodSegment (s : Text) : Prop where
  ne_nil : s ≠ []
  ne_dot : s ≠ ".".toList
  ne_dotdot : s ≠ "..".toList
  no_slash : '/' ∉ s
  valid : validateSegment s = .ok ()

theorem validateSegments_cons {s : Text} (hs : GoodSegment s) (ss : List Text) :
    validateSegments (s :: ss) = validateSegments ss := by
  rw [validateSegments, if_neg hs.ne_nil, if_neg hs.ne_dot, if_neg hs.ne_dotdot, hs.valid]
  rfl

/-- Good segments, with or without a trailing separator, pass the loop of
`validate_canonical`. -/
theorem validateSegments_append {ss tail : List Text} (h : ∀ s ∈ ss, GoodSegment s)
    (htail : validateSegments tail = .ok ()) : validateSegments (ss ++ tail) = .ok () := by
  induction ss with
  | nil => exact htail
  | cons s ss ih =>
    rw [List.cons_append, validateSegments_cons (h s (by simp))]
    exact ih fun t ht => h t (by simp [ht])

/-- The loop keeps only segments that a canonical path may contain. -/
theorem normalizeSegments_good {acc ss out : List Text} (hacc : ∀ s ∈ acc, GoodSegment s)
    (hss : ∀ s ∈ ss, '/' ∉ s) (h : normalizeSegments acc ss = .ok out) :
    ∀ s ∈ out, GoodSegment s := by
  induction ss generalizing acc with
  | nil =>
    cases h
    exact hacc
  | cons s ss ih =>
    have hss' : ∀ t ∈ ss, '/' ∉ t := fun t ht => hss t (by simp [ht])
    simp only [normalizeSegments] at h
    split at h
    · exact ih hacc hss' h
    · rename_i hdot
      split at h
      · split at h
        · cases h
        · exact ih (fun t ht => hacc t ((List.dropLast_sublist _).subset ht)) hss' h
      · rename_i hdotdot
        obtain ⟨_, hv, h⟩ := Except.bind_ok_iff.1 h
        refine ih (fun t ht => ?_) hss' h
        rcases List.mem_append.1 ht with ht | ht
        · exact hacc t ht
        · obtain rfl : t = s := by simpa using ht
          exact ⟨fun e => hdot (.inl e), fun e => hdot (.inr e), hdotdot, hss t (by simp), hv⟩

/-- Segments that a canonical path may contain, joined to a text that is not too long and
does not end in whitespace, make a canonical path. -/
theorem validateCanonical_canonicalText {ss : List Text} {d : Bool}
    (hss : ∀ s ∈ ss, GoodSegment s) (hlen : validateTotalLength (canonicalText ss d) = .ok ())
    (hws : validateTrailingWhitespace (canonicalText ss d) = .ok ()) :
    validateCanonical (canonicalText ss d) = .ok () := by
  have hsplit : ∀ ts : List Text, ts ≠ [] → (∀ s ∈ ts, '/' ∉ s) →
      ((('/' :: Text.join '/' ts).drop 1).splitOn '/') = ts := by
    intro ts hne hts
    exact Text.splitOn_join hts hne
  by_cases hroot : canonicalText ss d = ['/']
  · simp [validateCanonical, hroot, hroot ▸ hlen]
  · have hsegs : validateSegments ((canonicalText ss d).drop 1 |>.splitOn '/') = .ok () := by
      by_cases hne : ss = []
      · subst hne
        exact absurd (by simp [canonicalText, Text.join]) hroot
      · by_cases hd : (d && decide ('/' :: Text.join '/' ss ≠ ['/'])) = true
        · rw [canonicalText, if_pos hd, List.cons_append, ← Text.join_append_empty hne, hsplit]
          · exact validateSegments_append hss rfl
          · simp
          · intro s hs
            rcases List.mem_append.1 hs with hs | hs
            · exact (hss s hs).no_slash
            · obtain rfl : s = [] := by simpa using hs
              simp
        · rw [canonicalText, if_neg hd, hsplit ss hne fun s hs => (hss s hs).no_slash]
          rw [← List.append_nil ss]
          exact validateSegments_append hss rfl
    have hhead : (canonicalText ss d).head? = some '/' := by
      simp only [canonicalText]
      split <;> simp
    simp only [validateCanonical, hhead, ne_eq, not_true_eq_false, if_false, hlen, hroot, hsegs,
      hws]
    rfl

/-- What `normalize` computes is canonical. -/
theorem normalizeText_canonical {path p : Text} (h : normalizeText path = .ok p) :
    validateCanonical p = .ok () := by
  simp only [normalizeText] at h
  split at h
  · cases h
  · obtain ⟨ss, hss, h⟩ := Except.bind_ok_iff.1 h
    obtain ⟨_, hlen, h⟩ := Except.bind_ok_iff.1 h
    obtain ⟨_, hws, h⟩ := Except.bind_ok_iff.1 h
    cases h
    refine validateCanonical_canonicalText (normalizeSegments_good (by simp) ?_ hss) hlen hws
    exact fun s hs => Text.not_mem_of_mem_splitOn (List.mem_of_mem_drop hs)

/-- Normalize a decoded absolute HTTP/WebDAV path and validate the result. -/
def StoragePath.normalize (path : Text) : Except StoragePathError StoragePath :=
  match h : normalizeText path with
  | .ok p => .ok ⟨p, normalizeText_canonical h⟩
  | .error e => .error e

/-! ## Canonical paths -/

theorem StoragePath.eq_cons (p : StoragePath) : ∃ rest, p.asStr = '/' :: rest := by
  have h := p.canonical
  rw [validateCanonical] at h
  split at h
  · cases h
  · rename_i hhead
    exact List.head?_eq_some_iff.1 (not_not.1 hhead)

theorem StoragePath.ne_nil (p : StoragePath) : p.asStr ≠ [] := by
  obtain ⟨rest, hrest⟩ := p.eq_cons
  rw [hrest]
  exact List.cons_ne_nil _ _

theorem StoragePath.new_asStr (p : StoragePath) : StoragePath.new p.asStr = .ok p := by
  rw [StoragePath.new]
  split
  · rfl
  · rename_i h
    rw [p.canonical] at h
    cases h

theorem StoragePath.asStr_of_new {path : Text} {p : StoragePath}
    (h : StoragePath.new path = .ok p) : p.asStr = path := by
  rw [StoragePath.new] at h
  split at h
  · cases h
    rfl
  · cases h

/-- Only the last segment of a canonical path may be empty. -/
theorem ne_nil_of_validateSegments {ss : List Text} (h : validateSegments ss = .ok ()) :
    ∀ s ∈ ss.dropLast, s ≠ [] := by
  induction ss with
  | nil => simp
  | cons s ss ih =>
    simp only [validateSegments] at h
    split at h
    · split at h
      · rename_i hrest
        simp [hrest]
      · cases h
    · rename_i hs
      have htail : validateSegments ss = .ok () := by
        split at h
        · cases h
        · split at h
          · cases h
          · obtain ⟨_, -, h⟩ := Except.bind_ok_iff.1 h
            exact h
      cases ss with
      | nil => simp
      | cons t ts =>
        intro x hx
        rcases List.mem_cons.1 hx with rfl | hx
        · exact hs
        · exact ih htail x hx

/-- What `validate_canonical` has checked, except for the root. -/
theorem StoragePath.validated (p : StoragePath) (hroot : p.asStr ≠ ['/']) :
    validateSegments ((p.asStr.drop 1).splitOn '/') = .ok () ∧
      validateTrailingWhitespace p.asStr = .ok () := by
  have h := p.canonical
  rw [validateCanonical] at h
  split at h
  · cases h
  · obtain ⟨_, -, h⟩ := Except.bind_ok_iff.1 h
    obtain ⟨⟨⟩, hs, h⟩ := Except.bind_ok_iff.1 h
    exact ⟨hs, h⟩

theorem StoragePath.ne_root_of_isFile {p : StoragePath} (hfile : p.isFile) : p.asStr ≠ ['/'] := by
  intro h
  simp [StoragePath.isFile, StoragePath.isDirectory, h, Text.endsWith] at hfile

theorem StoragePath.getLast_not_whitespace (p : StoragePath) (hfile : p.isFile) {c : Char}
    (hc : p.asStr.getLast? = some c) : Text.isWhitespace c = false := by
  have h := (p.validated (ne_root_of_isFile hfile)).2
  rw [validateTrailingWhitespace, hc] at h
  cases hw : Text.isWhitespace c with
  | false => rfl
  | true => simp [hw] at h

/-- No segment of a file path is empty. -/
theorem StoragePath.segment_ne_nil (p : StoragePath) (hfile : p.isFile) {rest s : Text}
    (hrest : p.asStr = '/' :: rest) (hs : s ∈ rest.splitOn '/') : s ≠ [] := by
  have h := (p.validated (ne_root_of_isFile hfile)).1
  rw [hrest, List.drop_one, List.tail_cons] at h
  -- the last segment is empty only if the path ends in a slash
  have hlast : (rest.splitOn '/').getLast (List.splitOn_ne_nil _ _) ≠ [] := by
    intro hnil
    have hsplit := List.dropLast_append_getLast (List.splitOn_ne_nil '/' rest)
    rw [hnil] at hsplit
    have hends : Text.endsWith '/' ('/' :: rest) = true := by
      rw [← Text.join_splitOn (c := '/') (t := rest), ← hsplit]
      by_cases hinit : (rest.splitOn '/').dropLast = []
      · simp [hinit, Text.join, Text.endsWith]
      · rw [Text.join_append_empty hinit, ← List.cons_append]
        simp only [Text.endsWith, List.getLast?_concat, beq_self_eq_true]
    simp [StoragePath.isFile, StoragePath.isDirectory, hrest, hends] at hfile
  rw [← List.dropLast_append_getLast (List.splitOn_ne_nil '/' rest)] at hs
  rcases List.mem_append.1 hs with hs | hs
  · exact ne_nil_of_validateSegments h s hs
  · obtain rfl := List.mem_singleton.1 hs
    exact hlast

/-! ## Segments of canonical paths -/

theorem validateTotalLength_asStr (p : StoragePath) : validateTotalLength p.asStr = .ok () := by
  have h := p.canonical
  rw [validateCanonical] at h
  split at h
  · cases h
  · obtain ⟨_, hlength, -⟩ := Except.bind_ok_iff.1 h
    exact hlength

/-- The segments that the loop of `validate_canonical` accepts are good, up to an empty last one. -/
theorem exists_good_of_validateSegments {ss : List Text} (hss : ∀ s ∈ ss, '/' ∉ s)
    (h : validateSegments ss = .ok ()) :
    ∃ good : List Text, (∀ s ∈ good, GoodSegment s) ∧ (ss = good ∨ ss = good ++ [[]]) := by
  induction ss with
  | nil => exact ⟨[], by simp, .inl rfl⟩
  | cons s ss ih =>
    obtain ⟨hs, hss⟩ := List.forall_mem_cons.1 hss
    rw [validateSegments] at h
    split at h
    · rename_i hnil
      split at h
      · rename_i hrest
        exact ⟨[], by simp, .inr (by simp [hnil, hrest])⟩
      · cases h
    · rename_i hnil
      split at h
      · cases h
      · rename_i hdot
        split at h
        · cases h
        · rename_i hdots
          obtain ⟨⟨⟩, hvalid, h⟩ := Except.bind_ok_iff.1 h
          obtain ⟨good, hgood, heq⟩ := ih hss h
          refine ⟨s :: good, List.forall_mem_cons.2 ⟨⟨hnil, hdot, hdots, hs, hvalid⟩, hgood⟩, ?_⟩
          rcases heq with rfl | rfl
          · exact .inl rfl
          · exact .inr rfl

theorem canonicalText_of_ne_nil {ss : List Text} {d : Bool} (hne : ss ≠ [])
    (hss : ∀ s ∈ ss, GoodSegment s) :
    canonicalText ss d = '/' :: Text.join '/' (if d then ss ++ [[]] else ss) := by
  have hroot : '/' :: Text.join '/' ss ≠ ['/'] := by
    obtain ⟨s, rest, rfl⟩ := List.exists_cons_of_ne_nil hne
    have hs := (hss s (by simp)).ne_nil
    cases rest with
    | nil => simpa [Text.join] using hs
    | cons t ts =>
      rw [Text.join_cons_cons]
      simp
  cases d with
  | false => rw [canonicalText, Bool.false_and, if_neg Bool.false_ne_true, if_neg Bool.false_ne_true]
  | true =>
    rw [canonicalText, if_pos (by simpa using hroot), if_pos rfl, Text.join_append_empty hne,
      List.cons_append]

/-- A canonical path is the text of good segments. -/
theorem StoragePath.exists_canonicalText (p : StoragePath) (hroot : p.asStr ≠ ['/']) :
    ∃ (ss : List Text) (d : Bool), ss ≠ [] ∧ (∀ s ∈ ss, GoodSegment s) ∧
      p.asStr = canonicalText ss d := by
  obtain ⟨rest, hrest⟩ := p.eq_cons
  have hsegments := (p.validated hroot).1
  rw [hrest, List.drop_one, List.tail_cons] at hsegments
  obtain ⟨good, hgood, heq⟩ := exists_good_of_validateSegments
    (fun s hs => Text.not_mem_of_mem_splitOn hs) hsegments
  have hjoin := Text.join_splitOn (c := '/') (t := rest)
  have hne : good ≠ [] := by
    rintro rfl
    rcases heq with heq | heq
    · exact List.splitOn_ne_nil _ _ heq
    · rw [heq] at hjoin
      exact hroot (by rw [hrest, ← hjoin]; rfl)
  rcases heq with heq | heq
  · refine ⟨good, false, hne, hgood, ?_⟩
    rw [canonicalText_of_ne_nil hne hgood, if_neg Bool.false_ne_true, hrest, ← hjoin, heq]
  · refine ⟨good, true, hne, hgood, ?_⟩
    rw [canonicalText_of_ne_nil hne hgood, if_pos rfl, hrest, ← hjoin, heq]

/-- A canonical path that is cut after a slash is canonical. -/
theorem validateCanonical_directory {a b : Text} (h : validateCanonical (a ++ '/' :: b) = .ok ()) :
    validateCanonical (a ++ ['/']) = .ok () := by
  cases a with
  | nil => decide
  | cons x a =>
    have hx : x = '/' := by
      obtain ⟨rest, hrest⟩ := (⟨_, h⟩ : StoragePath).eq_cons
      exact (List.cons.inj hrest).1
    subst hx
    have hlength := validateTotalLength_asStr ⟨_, h⟩
    obtain ⟨hsegments, -⟩ := StoragePath.validated ⟨_, h⟩ (by simp)
    simp only [List.cons_append, List.drop_one, List.tail_cons,
      List.splitOn_append_cons_self] at hsegments
    obtain ⟨good, hgood, heq⟩ := exists_good_of_validateSegments
      (fun s hs => Text.not_mem_of_mem_splitOn (List.splitOn_append_cons_self a b ▸ hs)) hsegments
    -- the segments before the slash are not the last one
    have hinit : ∀ s ∈ a.splitOn '/', GoodSegment s := by
      intro s hs
      have hmem : s ∈ (a.splitOn '/' ++ b.splitOn '/').dropLast := by
        rw [List.dropLast_append_of_ne_nil (List.splitOn_ne_nil _ _)]
        exact List.mem_append_left _ hs
      rcases heq with heq | heq
      · exact hgood s (heq ▸ List.dropLast_subset _ hmem)
      · rw [heq, List.dropLast_concat] at hmem
        exact hgood s hmem
    have hall : validateSegments (a.splitOn '/' ++ [[]]) = .ok () :=
      validateSegments_append hinit rfl
    have hshort : validateTotalLength ('/' :: a ++ ['/']) = .ok () := by
      rw [validateTotalLength] at hlength ⊢
      split at hlength
      · cases hlength
      · refine if_neg fun hlt => ?_
        simp only [List.cons_append, Text.byteLen, List.map_cons, List.map_append, List.map_nil,
          List.sum_cons, List.sum_append, List.sum_nil] at *
        omega
    have hwhite : validateTrailingWhitespace ('/' :: a ++ ['/']) = .ok () := by
      rw [validateTrailingWhitespace, List.getLast?_concat]
      decide
    rw [validateCanonical, if_neg (by simp), hshort]
    simpa [hall, bind, Except.bind, List.splitOn_append_cons_self] using hwhite

theorem GoodSegment.char {s : Text} (h : GoodSegment s) {c : Char} (hc : c ∈ s) :
    Text.isControl c = false ∧ c ≠ '\\' := by
  have hvalid := h.valid
  rw [validateSegment] at hvalid
  split at hvalid
  · cases hvalid
  · split at hvalid
    · cases hvalid
    · rename_i hcontrol
      split at hvalid
      · cases hvalid
      · rename_i hbackslash
        refine ⟨?_, fun h => hbackslash (h ▸ hc)⟩
        by_contra hnot
        exact hcontrol (List.any_eq_true.2 ⟨c, hc, by simpa using hnot⟩)

/-- A canonical path has no control characters and no `\`. -/
theorem StoragePath.char (p : StoragePath) {c : Char} (hc : c ∈ p.asStr) :
    Text.isControl c = false ∧ c ≠ '\\' := by
  have hslash : Text.isControl '/' = false ∧ '/' ≠ '\\' := by decide
  by_cases hroot : p.asStr = ['/']
  · rw [hroot, List.mem_singleton] at hc
    exact hc ▸ hslash
  · obtain ⟨ss, d, hne, hss, htext⟩ := p.exists_canonicalText hroot
    rw [htext, canonicalText_of_ne_nil hne hss, List.mem_cons] at hc
    rcases hc with rfl | hc
    · exact hslash
    · rcases Text.mem_join hc with rfl | ⟨t, ht, hct⟩
      · exact hslash
      · have hmem : t ∈ ss ∨ t = [] := by
          cases d with
          | false => exact .inl ht
          | true => simpa using ht
        rcases hmem with hmem | rfl
        · exact (hss t hmem).char hct
        · exact absurd hct List.not_mem_nil

theorem normalizeSegments_good_append {acc ss tail : List Text} (h : ∀ s ∈ ss, GoodSegment s) :
    normalizeSegments acc (ss ++ tail) = normalizeSegments (acc ++ ss) tail := by
  induction ss generalizing acc with
  | nil => simp
  | cons s ss ih =>
    obtain ⟨hs, hss⟩ := List.forall_mem_cons.1 h
    rw [List.cons_append, normalizeSegments, if_neg (not_or.2 ⟨hs.ne_nil, hs.ne_dot⟩),
      if_neg hs.ne_dotdot, hs.valid]
    show normalizeSegments (acc ++ [s]) (ss ++ tail) = _
    rw [ih hss, List.append_assoc, List.singleton_append]

section

variable {ss : List Text} {d : Bool} (hne : ss ≠ []) (hss : ∀ s ∈ ss, GoodSegment s)

include hne hss

theorem splitOn_canonicalText :
    (canonicalText ss d).splitOn '/' = [] :: (if d then ss ++ [[]] else ss) := by
  have hcons : ∀ t : Text, ('/' :: t).splitOn '/' = [] :: t.splitOn '/' := fun t =>
    Text.splitOn_append (t := []) (by simp)
  rw [canonicalText_of_ne_nil hne hss, hcons, Text.splitOn_join]
  · intro s hs
    cases d with
    | false => exact (hss s hs).no_slash
    | true =>
      rcases List.mem_append.1 hs with hs | hs
      · exact (hss s hs).no_slash
      · obtain rfl := List.mem_singleton.1 hs
        simp
  · cases d <;> simp [hne]

theorem getLast?_splitOn_canonicalText :
    ((canonicalText ss d).splitOn '/').getLast? = if d then some [] else ss.getLast? := by
  rw [splitOn_canonicalText hne hss]
  cases d with
  | true => simp [List.getLast?_cons]
  | false =>
    obtain ⟨init, last, rfl⟩ := (List.eq_nil_or_concat' ss).resolve_left hne
    simp [List.getLast?_cons]

/-- The text of segments ends in a slash exactly if it was made for a directory. -/
theorem endsWith_canonicalText : Text.endsWith '/' (canonicalText ss d) = d := by
  have hcons : canonicalText ss d ≠ [] := by simp [canonicalText_of_ne_nil hne hss]
  have hends := Text.endsWith_iff_getLast?_splitOn (c := '/') hcons
  rw [getLast?_splitOn_canonicalText hne hss] at hends
  cases d with
  | true => exact hends.2 rfl
  | false =>
    rw [← Bool.not_eq_true, hends]
    exact fun hlast => (hss [] (List.mem_of_getLast? hlast)).ne_nil rfl

theorem directoryShaped_canonicalText : directoryShaped (canonicalText ss d) = d := by
  rw [directoryShaped, endsWith_canonicalText hne hss, getLast?_splitOn_canonicalText hne hss]
  cases d with
  | true => rfl
  | false =>
    cases hlast : ss.getLast? with
    | none => simp
    | some last =>
      have hgood := hss last (List.mem_of_getLast? hlast)
      have hdot := hgood.ne_dot
      have hdots := hgood.ne_dotdot
      simp only [if_neg Bool.false_ne_true, Option.any_some, hdot, hdots,
        decide_false, Bool.or_self]

theorem normalizeSegments_canonicalText :
    normalizeSegments [] (((canonicalText ss d).splitOn '/').drop 1) = .ok ss := by
  have happend : (if d then ss ++ [[]] else ss) = ss ++ if d then [[]] else [] := by
    cases d <;> simp
  rw [splitOn_canonicalText hne hss, List.drop_one, List.tail_cons, happend,
    normalizeSegments_good_append hss]
  cases d <;> rfl

end

/-- A canonical path has no dot segments. -/
theorem StoragePath.segment_ne_dots (p : StoragePath) {s : Text} (hs : s ∈ p.asStr.splitOn '/') :
    s ≠ ".".toList ∧ s ≠ "..".toList := by
  by_cases hroot : p.asStr = ['/']
  · rw [hroot] at hs
    have hempty : ∀ s ∈ (['/'] : Text).splitOn '/', s ≠ ".".toList ∧ s ≠ "..".toList := by decide
    exact hempty s hs
  · obtain ⟨ss, d, hne, hss, htext⟩ := p.exists_canonicalText hroot
    rw [htext, splitOn_canonicalText hne hss] at hs
    have hgood : s = [] ∨ GoodSegment s := by
      cases d <;> simp at hs <;> grind
    rcases hgood with rfl | hgood
    · decide
    · exact ⟨hgood.ne_dot, hgood.ne_dotdot⟩

/-- A canonical path is its own normal form. -/
theorem StoragePath.normalize_asStr (p : StoragePath) : StoragePath.normalize p.asStr = .ok p := by
  have htext : normalizeText p.asStr = .ok p.asStr := by
    by_cases hroot : p.asStr = ['/']
    · rw [hroot]
      decide
    obtain ⟨ss, d, hne, hgood, htext⟩ := p.exists_canonicalText hroot
    have hhead : ¬ p.asStr.head? ≠ some '/' := by
      obtain ⟨rest, hrest⟩ := p.eq_cons
      simp [hrest]
    have hnormal := normalizeSegments_canonicalText (d := d) hne hgood
    have hshaped := directoryShaped_canonicalText (d := d) hne hgood
    rw [← htext] at hnormal hshaped
    rw [normalizeText, if_neg hhead, hnormal]
    simp only [hshaped, ← htext, bind, Except.bind, validateTotalLength_asStr,
      (p.validated hroot).2]
    rfl
  rw [StoragePath.normalize]
  split
  · rename_i q hq
    exact congrArg _ (StoragePath.ext (Except.ok.inj (hq.symm.trans htext)))
  · rename_i e he
    cases he.symm.trans htext

/-! ## Coverage -/

namespace StoragePath

theorem root_coversPath (p : StoragePath) : root.coversPath p := by
  have hhead : p.asStr.head? = some '/' := by
    have hcanonical := p.canonical
    rw [validateCanonical] at hcanonical
    split at hcanonical
    · cases hcanonical
    · exact Decidable.of_not_not ‹_›
  have hpre : root.asStr.isPrefixOf p.asStr := by
    cases htext : p.asStr with
    | nil => simp [htext] at hhead
    | cons x xs => simp_all [root]
  have hdir : root.isDirectory = true := by decide
  rw [coversPath, hdir, hpre, Bool.and_self, Bool.or_true]

/-- What a covered path adds to its scope. -/
theorem coversPath_append {a b : StoragePath} (h : a.coversPath b) :
    b.asStr = a.asStr ++ b.asStr.drop a.asStr.length := by
  simp only [coversPath, Bool.or_eq_true, decide_eq_true_eq, Bool.and_eq_true] at h
  rcases h with rfl | ⟨-, hpre⟩
  · simp
  · exact (List.prefix_iff_eq_append.1 (List.isPrefixOf_iff_prefix.1 hpre)).symm

theorem coversPath_refl (p : StoragePath) : p.coversPath p := by
  rw [coversPath, decide_eq_true rfl, Bool.true_or]

theorem coversPath_antisymm {a b : StoragePath} (hab : a.coversPath b) (hba : b.coversPath a) :
    a = b := by
  have ha : a.asStr <+: b.asStr := ⟨_, (coversPath_append hab).symm⟩
  have hb : b.asStr <+: a.asStr := ⟨_, (coversPath_append hba).symm⟩
  exact StoragePath.ext (ha.eq_of_length_le hb.length_le)

theorem isDirectory_of_coversPath {a b : StoragePath} (h : a.coversPath b) (hne : a ≠ b) :
    a.isDirectory := by
  simp only [coversPath, Bool.or_eq_true, decide_eq_true_eq, Bool.and_eq_true] at h
  rcases h with heq | ⟨hdir, -⟩
  · exact absurd heq hne
  · exact hdir

theorem coversPath_trans {a b c : StoragePath} (hab : a.coversPath b) (hbc : b.coversPath c) :
    a.coversPath c := by
  by_cases heq : a = b
  · rwa [heq]
  · have hdir := isDirectory_of_coversPath hab heq
    have happ : a.asStr <+: c.asStr := by
      rw [coversPath_append hbc, coversPath_append hab, List.append_assoc]
      exact List.prefix_append _ _
    simp [coversPath, hdir, happ]

/-- Of two scopes that cover a path one covers the other. -/
theorem coversPath_total {a b p : StoragePath} (ha : a.coversPath p)
    (hb : b.coversPath p) : a.coversPath b ∨ b.coversPath a := by
  by_cases hap : a = p
  · exact .inr (hap ▸ hb)
  by_cases hbp : b = p
  · exact .inl (hbp ▸ ha)
  have hadir := isDirectory_of_coversPath ha hap
  have hbdir := isDirectory_of_coversPath hb hbp
  have hapre : a.asStr <+: p.asStr := ⟨_, (coversPath_append ha).symm⟩
  have hbpre : b.asStr <+: p.asStr := ⟨_, (coversPath_append hb).symm⟩
  rcases List.prefix_or_prefix_of_prefix hapre hbpre with h | h
  · exact .inl (by simp [coversPath, hadir, h])
  · exact .inr (by simp [coversPath, hbdir, h])

end StoragePath

end Pubky
