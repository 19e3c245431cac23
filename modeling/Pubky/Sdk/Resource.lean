import Pubky.Common.Encodings
import Pubky.Common.Utf8

/-!
# Addresses of files

`pubky-sdk/src/actors/storage/resource.rs`: the paths and resources of the SDK, and the transport
URLs they are sent to.

A `ResourcePath` keeps its text escaped: `parse` pushes the decoded segments of its input on the
path of a URL with a scheme that is not special, and `to_transport_url` parses the outcome once
more inside an `https` URL. The two parsers differ: the first one drops tabs and newlines, keeps
`\`, and resolves what becomes a dot segment by this; the second one splits at `\` as well.
`ResourcePath.exists_segments` says what the first one leaves, and `toTransportUrl_eq` what the
second one makes of it.
-/

namespace Pubky.Sdk

open UrlPath

/-! ## The model -/

/-- A parsed `https` URL; queries are added later. -/
structure Url where
  host : Text
  path : Text
  deriving DecidableEq

/-- The functions of the crates `url` and `percent_encoding` that addresses go through. -/
structure UrlCrate where
  /-- The path of `dummy:///` after `path_segments_mut`, `clear` and a `push` of each segment. -/
  pushSegments : List Text → Text
  /-- `Url::parse` -/
  parse : Text → Option Url
  /-- `Url::set_path` -/
  setPath : Url → Text → Url
  /-- `percent_encoding::percent_decode_str` followed by `decode_utf8` -/
  percentDecode : Text → Option Text

/-- The crates follow the URL standard, and a public key is read back from its text. -/
structure UrlCrate.Lawful (C : Crates) (W : UrlCrate) : Prop where
  pushSegments_eq : ∀ segments, W.pushSegments segments = serialize (segments.foldl push [[]])
  parse_eq : ∀ key rest, W.parse ("https://_pubky.".toList ++ C.z32 key ++ '/' :: rest) =
    some ⟨"_pubky.".toList ++ C.z32 key, serialize (UrlPath.parse ('/' :: rest))⟩
  setPath_eq : ∀ url rest, W.setPath url ('/' :: rest) =
    { url with path := serialize (UrlPath.setPath ('/' :: rest)) }
  percentDecode_eq : W.percentDecode = percentDecodeUtf8
  fromZ32_z32 : ∀ key, C.fromZ32 (C.z32 key) = some key
  z32_length : ∀ key, (C.z32 key).length = 52
  z32_chars : ∀ key, ∀ c ∈ C.z32 key, c ∈ zBase32.chars

inductive Error where
  /-- `RequestError::Validation` -/
  | validation (message : Text)
  /-- An error of `Url::parse`. -/
  | parse
  deriving DecidableEq, Repr

def invalid (message : String) : Error := .validation message.toList

/-- The loop of `ResourcePath::parse`: the segments that it pushes. -/
def checkParts (wantsTrailing : Bool) : List Text → Except Error (List Text)
  | [] => .ok []
  | segment :: rest =>
    if segment = [] then
      if rest = [] ∧ wantsTrailing then .ok []
      else .error (invalid "path contains empty segment ('//')")
    else if segment = ".".toList ∨ segment = "..".toList then
      .error (invalid "path cannot contain '.' or '..'")
    else return segment :: (← checkParts wantsTrailing rest)

/-- Relative paths become absolute. -/
def absolute (raw : Text) : Text := if raw.head? = some '/' then raw else '/' :: raw

/-- The text that `ResourcePath::parse` computes. -/
def ResourcePath.parseText (W : UrlCrate) (raw : Text) : Except Error Text :=
  if raw = [] then .error (invalid "path cannot be empty")
  else
    let input := absolute raw
    if input = ['/'] then .ok ['/']
    else do
      let wantsTrailing := Text.endsWith '/' input
      let segments ← checkParts wantsTrailing ((input.dropWhile (· = '/')).splitOn '/')
      return W.pushSegments (if wantsTrailing then segments ++ [[]] else segments)

/-- An absolute, URL-safe homeserver path, with percent-encoding where needed. -/
structure ResourcePath (W : UrlCrate) where
  asStr : Text
  parsed : ∃ raw, ResourcePath.parseText W raw = .ok asStr

namespace ResourcePath

variable {W : UrlCrate}

@[ext] theorem ext {p q : ResourcePath W} (h : p.asStr = q.asStr) : p = q := by
  cases p
  cases q
  simpa using h

instance : DecidableEq (ResourcePath W) := fun p q =>
  decidable_of_iff (p.asStr = q.asStr) ⟨ext, congrArg asStr⟩

/-- Parse, validate, and normalize to an absolute HTTP-safe path. -/
def parse (W : UrlCrate) (raw : Text) : Except Error (ResourcePath W) :=
  match h : parseText W raw with
  | .ok text => .ok ⟨text, raw, h⟩
  | .error e => .error e

def asRootRelativeStr (p : ResourcePath W) : Text := p.asStr.dropWhile (· = '/')

theorem parse_eq_ok {raw : Text} {p : ResourcePath W} :
    parse W raw = .ok p ↔ parseText W raw = .ok p.asStr := by
  rw [parse]
  split
  · rename_i text h
    constructor
    · intro hp
      cases hp
      exact h
    · intro hp
      exact congrArg Except.ok (ext (Except.ok.inj (h.symm.trans hp)))
  · rename_i e h
    constructor
    · intro hp
      cases hp
    · intro hp
      cases h.symm.trans hp

end ResourcePath

/-- An addressed resource. -/
structure PubkyResource (W : UrlCrate) where
  owner : PublicKey
  path : ResourcePath W
  deriving DecidableEq

section

variable (C : Crates) {W : UrlCrate}

def parseTransportOwner (owner : Text) : Except Error PublicKey :=
  if PublicKey.isPubkyPrefixed owner then
    .error (invalid "transport URL owner must use raw z32 without `pubky` prefix")
  else (C.fromZ32 owner).okOr (invalid "transport URL contains an invalid owner")

/-- The owner that the host of a transport URL names. -/
def hostOwner (url : Url) : Option Text := Text.stripStart "_pubky.".toList url.host

namespace PubkyResource

def new (W : UrlCrate) (owner : PublicKey) (path : Text) : Except Error (PubkyResource W) := do
  let path ← ResourcePath.parse W path
  return ⟨owner, path⟩

/-- Render as the canonical path-addressed transport URL. -/
def toTransportUrl (r : PubkyResource W) : Except Error Url :=
  let owner := C.z32 r.owner
  (W.parse ("https://_pubky.".toList ++ owner ++ "/storage/".toList ++ owner ++
    '/' :: r.path.asRootRelativeStr)).okOr .parse

/-- The owner and the path of a transport URL, before the path is decoded. -/
def transportParts (url : Url) : Except Error (PublicKey × Text) :=
  match Text.stripStart "/storage/".toList url.path with
  | some rest => do
    let (owner, path) ← (Text.splitOnce '/' rest).okOr
      (invalid "storage transport URL is missing a resource path")
    let owner ← parseTransportOwner C owner
    match hostOwner url with
    | none => return (owner, path)
    | some host =>
      if (← parseTransportOwner C host) ≠ owner then
        .error (invalid "storage transport URL owner does not match its `_pubky` host")
      else return (owner, path)
  | none => do
    let owner ← (hostOwner url).okOr (invalid "legacy transport URL is missing a `_pubky` host")
    return (← parseTransportOwner C owner, url.path)

/-- Parse canonical `/storage/<owner>/...` and legacy `_pubky.<owner>/...` URLs. -/
def fromTransportUrl (W : UrlCrate) (url : Url) : Except Error (PubkyResource W) := do
  let (owner, path) ← transportParts C url
  let decodedPath ← (W.percentDecode (if path = [] then ['/'] else path)).okOr
    (invalid "transport URL path is not valid UTF-8")
  new W owner decodedPath

/-- Parse `pubky://<user>/<path>` and `pubky<user>/<path>`. -/
def fromStr (W : UrlCrate) (s : Text) : Except Error (PubkyResource W) :=
  match Text.stripStart "pubky://".toList s with
  | some rest => do
    let (userStr, path) ← (Text.splitOnce '/' rest).okOr (invalid "missing `<user>/<path>`")
    if PublicKey.isPubkyPrefixed userStr then
      .error (invalid "unexpected `pubky` prefix in user id; use raw z32 after `pubky://`")
    else do
      let user ← (C.fromZ32 userStr).okOr
        (.validation ("invalid user public key: ".toList ++ userStr))
      new W user path
  | none =>
    match (Text.stripStart "pubky".toList s).bind (Text.splitOnce '/') with
    | some (userId, path) =>
      if PublicKey.isPubkyPrefixed userId then
        .error (invalid "unexpected `pubky` prefix in user id; use raw z32 after `pubky`")
      else do
        let user ← (C.fromZ32 userId).okOr
          (invalid "expected `pubky<user>/<path>` or `pubky://<user>/<path>`")
        new W user path
    | none => .error (invalid "expected `pubky<user>/<path>` or `pubky://<user>/<path>`")

end PubkyResource

end

/-! ## Parsed paths -/

/-- A decoded segment that a parsed path may have. -/
structure Tidy (segment : Text) : Prop where
  no_tab : ∀ c ∈ segment, isTabOrNewline c = false
  no_slash : '/' ∉ segment
  ne_dot : segment ≠ ".".toList
  ne_dots : segment ≠ "..".toList

/-- The decoded segments of a parsed path. Only a path of one segment starts with an empty one. -/
structure Segments (segments : List Text) : Prop where
  ne_nil : segments ≠ []
  tidy : ∀ s ∈ segments, Tidy s
  head : segments = [[]] ∨ segments.head? ≠ some []

variable {C : Crates} {W : UrlCrate} {segments : List Text} {segment raw : Text}

theorem tidy_nil : Tidy [] := ⟨by simp, by simp, by decide, by decide⟩

theorem Tidy.plain (h : Tidy segment) : Plain (encodeSegment segment) :=
  plain_encodeSegment h.ne_dot h.ne_dots

theorem Segments.concat (htidy : ∀ s ∈ segments, Tidy s) (hhead : segments.head? ≠ some [])
    (hs : Tidy segment) : Segments (segments ++ [segment]) where
  ne_nil := by simp
  tidy := by
    intro s hmem
    rcases List.mem_append.1 hmem with hmem | hmem
    · exact htidy s hmem
    · obtain rfl := List.mem_singleton.1 hmem
      exact hs
  head := by
    cases segments with
    | nil =>
      by_cases hnil : segment = []
      · exact .inl (by simp [hnil])
      · exact .inr (by simpa using hnil)
    | cons t ts => exact .inr hhead

/-- The root has no segments to append to. -/
theorem Segments.exists_base (hs : Segments segments) : ∃ base : List Text,
    (if segments.map encodeSegment = [[]] then [] else segments.map encodeSegment) =
      base.map encodeSegment ∧ (∀ s ∈ base, Tidy s) ∧ base.head? ≠ some [] := by
  rcases hs.head with rfl | hhead
  · exact ⟨[], rfl, by simp, by simp⟩
  · refine ⟨segments, if_neg ?_, hs.tidy, hhead⟩
    intro h
    obtain ⟨s, rfl, hnil⟩ := List.map_eq_singleton_iff.1 h
    exact hhead (congrArg some (encodeSegment_injective (hnil.trans rfl)))

theorem mem_removeTabs {c : Char} (h : c ∈ removeTabs segment) :
    c ∈ segment ∧ isTabOrNewline c = false := by
  simpa [removeTabs] using h

/-- A pushed segment is appended without its tabs and newlines, unless it becomes a dot segment by
this, which is resolved. -/
theorem Segments.exists_push (hs : Segments segments) (hslash : '/' ∉ segment) :
    ∃ segments', Segments segments' ∧
      push (segments.map encodeSegment) segment = segments'.map encodeSegment := by
  rw [push]
  split
  · exact ⟨segments, hs, rfl⟩
  · obtain ⟨base, hbase, htidy, hhead⟩ := hs.exists_base
    rw [hbase, step]
    by_cases hdouble : isDoubleDot (encodeSegment (removeTabs segment))
    · have htidy' : ∀ s ∈ base.dropLast, Tidy s := fun s hs =>
        htidy s ((List.dropLast_sublist _).subset hs)
      have hhead' : base.dropLast.head? ≠ some [] := by
        rcases base with _ | ⟨t, _ | ⟨_, _⟩⟩
        · simp
        · simp
        · exact hhead
      refine ⟨base.dropLast ++ [[]], .concat htidy' hhead' tidy_nil, ?_⟩
      rw [if_pos hdouble, if_pos rfl, List.map_append, List.map_dropLast]
      rfl
    by_cases hsingle : isSingleDot (encodeSegment (removeTabs segment))
    · refine ⟨base ++ [[]], .concat htidy hhead tidy_nil, ?_⟩
      rw [if_neg hdouble, if_pos hsingle, if_pos rfl, List.map_append]
      rfl
    · have hremoved : Tidy (removeTabs segment) :=
        ⟨fun c hc => (mem_removeTabs hc).2, fun h => hslash (mem_removeTabs h).1,
          fun h => hsingle (isSingleDot_encodeSegment.2 h),
          fun h => hdouble (isDoubleDot_encodeSegment.2 h)⟩
      refine ⟨base ++ [removeTabs segment], .concat htidy hhead hremoved, ?_⟩
      rw [if_neg hdouble, if_neg hsingle, List.map_append]
      rfl

theorem Segments.exists_foldl_push {parts : List Text} (hs : Segments segments)
    (hslash : ∀ s ∈ parts, '/' ∉ s) :
    ∃ segments', Segments segments' ∧
      parts.foldl push (segments.map encodeSegment) = segments'.map encodeSegment := by
  induction parts generalizing segments with
  | nil => exact ⟨segments, hs, rfl⟩
  | cons part parts ih =>
    obtain ⟨hpart, hparts⟩ := List.forall_mem_cons.1 hslash
    obtain ⟨segments', hs', heq⟩ := hs.exists_push hpart
    rw [List.foldl_cons, heq]
    exact ih hs' hparts

theorem segments_root : Segments [[]] :=
  ⟨by simp, by simpa using tidy_nil, .inl rfl⟩

/-! ## What is accepted -/

/-- The segments of a path text. -/
def parts (raw : Text) : List Text := (raw.dropWhile (· = '/')).splitOn '/'

/-- The segments of a text that `parse` accepts; only the last one may be empty. -/
structure AcceptedParts (segments : List Text) : Prop where
  ne_nil : ∀ s ∈ segments.dropLast, s ≠ []
  ne_dot : ∀ s ∈ segments, s ≠ ".".toList
  ne_dots : ∀ s ∈ segments, s ≠ "..".toList

theorem parts_absolute (raw : Text) : parts (absolute raw) = parts raw := by
  rw [absolute]
  split
  · rfl
  · rw [parts, List.dropWhile_cons_of_pos (by simp)]
    rfl

theorem parts_ne_nil (raw : Text) : parts raw ≠ [] := List.splitOn_ne_nil _ _

theorem absolute_eq_cons (raw : Text) : ∃ rest, absolute raw = '/' :: rest := by
  rw [absolute]
  split
  · exact List.head?_eq_some_iff.1 ‹_›
  · exact ⟨raw, rfl⟩

/-- An absolute text has an empty last segment if it ends with a slash. -/
theorem endsWith_iff_parts (rest : Text) :
    Text.endsWith '/' ('/' :: rest) ↔ (parts ('/' :: rest)).getLast? = some [] := by
  have hsplit := List.takeWhile_append_dropWhile (p := (· = '/')) (l := '/' :: rest)
  by_cases hnil : ('/' :: rest).dropWhile (· = '/') = []
  · have hall : ∀ c ∈ '/' :: rest, c = '/' := by simpa using List.dropWhile_eq_nil_iff.1 hnil
    have hlast : ('/' :: rest).getLast? = some '/' := by
      rw [List.getLast?_eq_some_getLast (by simp), hall _ (List.getLast_mem _)]
    simp [parts, hnil, Text.endsWith, hlast]
  · rw [parts, ← Text.endsWith_iff_getLast?_splitOn hnil, Text.endsWith, Text.endsWith, ← hsplit,
      List.getLast?_append_of_ne_nil _ hnil, hsplit]

theorem accepted_cons {rest : List Text} (hne : rest ≠ []) :
    AcceptedParts (segment :: rest) ↔
      segment ≠ [] ∧ segment ≠ ".".toList ∧ segment ≠ "..".toList ∧ AcceptedParts rest := by
  have hdrop : (segment :: rest).dropLast = segment :: rest.dropLast :=
    List.dropLast_cons_of_ne_nil hne
  constructor
  · rintro ⟨hnil, hdot, hdots⟩
    rw [hdrop] at hnil
    rw [List.forall_mem_cons] at hnil hdot hdots
    exact ⟨hnil.1, hdot.1, hdots.1, hnil.2, hdot.2, hdots.2⟩
  · rintro ⟨hnil, hdot, hdots, hrest⟩
    refine ⟨?_, List.forall_mem_cons.2 ⟨hdot, hrest.ne_dot⟩,
      List.forall_mem_cons.2 ⟨hdots, hrest.ne_dots⟩⟩
    rw [hdrop]
    exact List.forall_mem_cons.2 ⟨hnil, hrest.ne_nil⟩

theorem accepted_singleton :
    AcceptedParts [segment] ↔ segment ≠ ".".toList ∧ segment ≠ "..".toList := by
  constructor
  · intro h
    exact ⟨h.ne_dot segment (by simp), h.ne_dots segment (by simp)⟩
  · rintro ⟨hdot, hdots⟩
    exact ⟨by simp, by simpa using hdot, by simpa using hdots⟩

/-- The loop pushes all segments but an empty last one. -/
theorem checkParts_eq_ok {trailing : Bool} {parts pushed : List Text} (hne : parts ≠ [])
    (htrailing : trailing ↔ parts.getLast? = some []) :
    checkParts trailing parts = .ok pushed ↔
      AcceptedParts parts ∧ (if trailing then parts.dropLast else parts) = pushed := by
  induction parts generalizing pushed with
  | nil => exact absurd rfl hne
  | cons part rest ih =>
    rw [checkParts]
    by_cases hpart : part = []
    · subst hpart
      by_cases hrest : rest = []
      · subst hrest
        obtain rfl : trailing = true := htrailing.2 rfl
        have haccepted : AcceptedParts [[]] := accepted_singleton.2 (by decide)
        simp [haccepted]
      · simp [accepted_cons hrest, hrest]
    rw [if_neg hpart]
    by_cases hdots : part = ".".toList ∨ part = "..".toList
    · rw [if_pos hdots]
      constructor
      · intro h
        cases h
      · rintro ⟨haccepted, -⟩
        exact absurd hdots
          (not_or.2 ⟨haccepted.ne_dot part (by simp), haccepted.ne_dots part (by simp)⟩)
    rw [if_neg hdots]
    by_cases hrest : rest = []
    · subst hrest
      have hfalse : trailing = false := by
        rw [← Bool.not_eq_true, htrailing]
        simpa using hpart
      have haccepted : AcceptedParts [part] := accepted_singleton.2 (not_or.1 hdots)
      simp [hfalse, haccepted, checkParts, bind, Except.bind, pure, Except.pure]
    · rw [List.getLast?_cons_of_ne_nil hrest] at htrailing
      rw [Except.bind_ok_iff, accepted_cons hrest, List.dropLast_cons_of_ne_nil hrest]
      constructor
      · rintro ⟨pushed', hpushed, h⟩
        cases h
        obtain ⟨haccepted, rfl⟩ := (ih hrest htrailing).1 hpushed
        refine ⟨⟨hpart, (not_or.1 hdots).1, (not_or.1 hdots).2, haccepted⟩, ?_⟩
        split <;> rfl
      · rintro ⟨⟨-, -, -, haccepted⟩, rfl⟩
        refine ⟨_, (ih hrest htrailing).2 ⟨haccepted, rfl⟩, ?_⟩
        split <;> rfl

/-- What `parse` accepts, and what it computes. -/
theorem parseText_eq_ok (hW : W.Lawful C) {text : Text} :
    ResourcePath.parseText W raw = .ok text ↔
      raw ≠ [] ∧ AcceptedParts (parts raw) ∧ text = serialize ((parts raw).foldl push [[]]) := by
  rw [ResourcePath.parseText]
  by_cases hraw : raw = []
  · simp [hraw]
  obtain ⟨rest, hrest⟩ := absolute_eq_cons raw
  have hparts := parts_absolute raw
  rw [if_neg hraw, ← hparts]
  simp only [hrest, ne_eq, hraw, not_false_eq_true, true_and]
  by_cases hroot : rest = []
  · subst hroot
    have hone : parts ['/'] = [[]] := by decide
    have haccepted : AcceptedParts [[]] := accepted_singleton.2 (by decide)
    rw [if_pos rfl, hone, Except.ok.injEq]
    exact ⟨fun h => ⟨haccepted, h.symm⟩, fun h => h.2.symm⟩
  · -- the trailing slash is pushed as the empty segment that the loop has left out
    have hpushed : ∀ pushed, (if Text.endsWith '/' ('/' :: rest) then
        (parts ('/' :: rest)).dropLast else parts ('/' :: rest)) = pushed →
        (if Text.endsWith '/' ('/' :: rest) then pushed ++ [[]] else pushed) =
          parts ('/' :: rest) := by
      rintro pushed rfl
      split
      · rename_i hends
        exact List.dropLast_append_getLast? _ ((endsWith_iff_parts rest).1 hends)
      · rfl
    have hcheck : ∀ pushed, checkParts (Text.endsWith '/' ('/' :: rest)) (parts ('/' :: rest)) =
        .ok pushed ↔ _ := fun pushed =>
      checkParts_eq_ok (parts_ne_nil ('/' :: rest)) (endsWith_iff_parts rest)
    rw [if_neg (by simp [hroot]), Except.bind_ok_iff]
    constructor
    · rintro ⟨pushed, hok, h⟩
      cases h
      obtain ⟨haccepted, heq⟩ := (hcheck pushed).1 hok
      rw [hpushed pushed heq, hW.pushSegments_eq]
      exact ⟨haccepted, rfl⟩
    · rintro ⟨haccepted, rfl⟩
      refine ⟨_, (hcheck _).2 ⟨haccepted, rfl⟩, ?_⟩
      rw [hpushed _ rfl, hW.pushSegments_eq]
      rfl

theorem slash_not_mem_parts {s : Text} (h : s ∈ parts raw) : '/' ∉ s :=
  Text.not_mem_of_mem_splitOn h

/-- What `parse` leaves of any text that it accepts. -/
theorem ResourcePath.exists_segments (hW : W.Lawful C) (p : ResourcePath W) :
    ∃ segments, Segments segments ∧ p.asStr = serialize (segments.map encodeSegment) := by
  obtain ⟨raw, hraw⟩ := p.parsed
  obtain ⟨-, -, htext⟩ := (parseText_eq_ok hW).1 hraw
  obtain ⟨segments, hs, heq⟩ := segments_root.exists_foldl_push fun s hs => slash_not_mem_parts hs
  exact ⟨segments, hs, htext.trans (congrArg serialize heq)⟩

theorem push_tidy {path : List Text} (h : Tidy segment) :
    push path segment = (if path = [[]] then [] else path) ++ [encodeSegment segment] := by
  rw [push, if_neg (not_or.2 ⟨h.ne_dot, h.ne_dots⟩), removeTabs_eq_self h.no_tab,
    step_plain h.plain]

theorem foldl_push_tidy {path : List Text} (hpath : path ≠ [[]]) (hne : path ≠ [])
    (htidy : ∀ s ∈ segments, Tidy s) :
    segments.foldl push path = path ++ segments.map encodeSegment := by
  induction segments generalizing path with
  | nil => simp
  | cons s ss ih =>
    obtain ⟨hs, hss⟩ := List.forall_mem_cons.1 htidy
    have hlong : path ++ [encodeSegment s] ≠ [[]] := by
      intro h
      have hlen := congrArg List.length h
      simp only [List.length_append, List.length_cons, List.length_nil] at hlen
      exact hne (List.eq_nil_of_length_eq_zero (by omega))
    rw [List.foldl_cons, push_tidy hs, if_neg hpath, ih hlong (by simp) hss, List.map_cons,
      List.append_assoc, List.singleton_append]

/-- Segments that need no resolving are pushed as they are. -/
theorem Segments.foldl_push (hs : Segments segments) :
    segments.foldl push [[]] = segments.map encodeSegment := by
  rcases hs.head with rfl | hhead
  · rfl
  · cases segments with
    | nil => exact absurd rfl hs.ne_nil
    | cons s ss =>
      obtain ⟨hs', hss⟩ := List.forall_mem_cons.1 hs.tidy
      have hne : [encodeSegment s] ≠ [[]] := by
        intro h
        have hnil : encodeSegment s = [] := List.singleton_inj.1 h
        refine encodeSegment_ne_nil (fun h => hhead ?_) hnil
        simp [h]
      rw [List.foldl_cons, push_tidy hs', if_pos rfl, List.nil_append,
        foldl_push_tidy hne (by simp) hss]
      rfl

/-! ## Transport URLs -/

/-- Joined segments start with no slash, unless the first one of several is empty. -/
theorem dropWhile_join (hslash : ∀ s ∈ segments, '/' ∉ s)
    (hhead : segments = [[]] ∨ segments.head? ≠ some []) :
    (Text.join '/' segments).dropWhile (· = '/') = Text.join '/' segments := by
  rcases hhead with rfl | hhead
  · rfl
  · cases segments with
    | nil => rfl
    | cons s ss =>
      obtain ⟨c, cs, rfl⟩ := List.exists_cons_of_ne_nil fun h : s = [] => hhead (by simp [h])
      have hc : c ≠ '/' := by
        rintro rfl
        exact hslash _ List.mem_cons_self List.mem_cons_self
      have hjoin : ∃ rest, Text.join '/' ((c :: cs) :: ss) = c :: rest := by
        cases ss with
        | nil => exact ⟨cs, by simp [Text.join]⟩
        | cons u us => exact ⟨_, by rw [Text.join_cons_cons, List.cons_append]⟩
      obtain ⟨rest, hrest⟩ := hjoin
      rw [hrest, List.dropWhile_cons_of_neg (by simpa using hc)]

theorem Segments.encode_head (hs : Segments segments) :
    segments.map encodeSegment = [[]] ∨ (segments.map encodeSegment).head? ≠ some [] := by
  rcases hs.head with rfl | hhead
  · exact .inl rfl
  · refine .inr fun h => hhead ?_
    rw [List.head?_map, Option.map_eq_some_iff] at h
    obtain ⟨s, hsome, hnil⟩ := h
    have hempty : encodeSegment s = encodeSegment [] := hnil
    rw [hsome, encodeSegment_injective hempty]

/-- A parsed path, without its leading slash. -/
theorem ResourcePath.asRootRelativeStr_eq {p : ResourcePath W} (hs : Segments segments)
    (hp : p.asStr = serialize (segments.map encodeSegment)) :
    p.asRootRelativeStr = Text.join '/' (segments.map encodeSegment) := by
  rw [ResourcePath.asRootRelativeStr, hp, serialize, List.dropWhile_cons_of_pos (by simp)]
  refine dropWhile_join (fun t ht => ?_) hs.encode_head
  obtain ⟨s, -, rfl⟩ := List.mem_map.1 ht
  exact slash_not_mem_encodeSegment s

theorem UrlCrate.Lawful.z32_keepSegment (hW : W.Lawful C) (key : PublicKey) :
    ∀ c ∈ C.z32 key, keepSegment c := by
  have hall : ∀ c ∈ zBase32.chars, keepSegment c := Text.forall_mem_of_all (by decide)
  exact fun c hc => hall c (hW.z32_chars key c hc)

theorem UrlCrate.Lawful.encodeSegment_z32 (hW : W.Lawful C) (key : PublicKey) :
    encodeSegment (C.z32 key) = C.z32 key :=
  Percent.encode_eq_self (hW.z32_keepSegment key)

theorem UrlCrate.Lawful.z32_not_separator (hW : W.Lawful C) (key : PublicKey) :
    ∀ c ∈ C.z32 key, isSeparator c = false := by
  have hall : ∀ c ∈ zBase32.chars, isSeparator c = false := Text.forall_mem_of_all (by decide)
  exact fun c hc => hall c (hW.z32_chars key c hc)

/-- The decoded segments that the path of a transport URL is resolved from: those of a parsed path
are split once more. -/
def transportSegments (C : Crates) (owner : PublicKey) (segments : List Text) : List Text :=
  "storage".toList :: C.z32 owner :: segments.flatMap (·.splitOnP isSeparator)

theorem splitOnP_transport (hW : W.Lawful C) (owner : PublicKey) (hs : Segments segments) :
    (Text.join '/' ("storage".toList :: C.z32 owner :: segments.map encodeSegment)).splitOnP
      isSeparator = (transportSegments C owner segments).map encodeSegment := by
  have hstorage : "storage".toList.splitOnP isSeparator = ["storage".toList] := by decide
  have howner : (C.z32 owner).splitOnP isSeparator = [C.z32 owner] :=
    List.splitOnP_eq_singleton (hW.z32_not_separator owner)
  have hpieces : (segments.map encodeSegment).flatMap (·.splitOnP isSeparator) =
      (segments.flatMap (·.splitOnP isSeparator)).map encodeSegment := by
    rw [List.flatMap_map, List.map_flatMap]
    exact List.flatMap_congr fun s hmem => splitOnP_encodeSegment (hs.tidy s hmem).no_slash
  rw [splitOnP_join (by simp), List.flatMap_cons, List.flatMap_cons, hstorage, howner, hpieces,
    transportSegments, List.map_cons, List.map_cons, hW.encodeSegment_z32]
  rfl

/-- The transport URL of a resource. -/
theorem toTransportUrl_eq (hW : W.Lawful C) {r : PubkyResource W} (hs : Segments segments)
    (hp : r.path.asStr = serialize (segments.map encodeSegment)) :
    r.toTransportUrl C = .ok ⟨"_pubky.".toList ++ C.z32 r.owner,
      serialize (resolve [] ((transportSegments C r.owner segments).map encodeSegment))⟩ := by
  have hrest : "https://_pubky.".toList ++ C.z32 r.owner ++ "/storage/".toList ++ C.z32 r.owner ++
      '/' :: r.path.asRootRelativeStr = "https://_pubky.".toList ++ C.z32 r.owner ++
        '/' :: Text.join '/' ("storage".toList :: C.z32 r.owner :: segments.map encodeSegment) := by
    have hne : segments.map encodeSegment ≠ [] := by simpa using hs.ne_nil
    obtain ⟨t, ts, ht⟩ := List.exists_cons_of_ne_nil hne
    rw [ResourcePath.asRootRelativeStr_eq hs hp, ht, Text.join_cons_cons, Text.join_cons_cons]
    simp
  have hkeep : ∀ c ∈ Text.join '/' ("storage".toList :: C.z32 r.owner ::
      segments.map encodeSegment), keepPath c := by
    intro c hc
    rcases Text.mem_join hc with rfl | ⟨t, ht, hc⟩
    · rfl
    · rcases List.mem_cons.1 ht with rfl | ht
      · have hall : ∀ c ∈ "storage".toList, keepPath c := Text.forall_mem_of_all (by decide)
        exact hall c hc
      · rcases List.mem_cons.1 ht with rfl | ht
        · exact keepPath_of_keepSegment (hW.z32_keepSegment r.owner c hc)
        · obtain ⟨s, -, rfl⟩ := List.mem_map.1 ht
          exact keepPath_of_mem_encodeSegment hc
  simp only [PubkyResource.toTransportUrl]
  rw [hrest, hW.parse_eq, parse_of_keepPath hkeep, splitOnP_transport hW _ hs]
  rfl

/-! ## The standard -/

/-- An `https` URL whose host needs no work. -/
def parseHttps (t : Text) : Option Url :=
  (Text.stripStart "https://".toList t).map fun rest =>
    match Text.splitOnce '/' rest with
    | none => ⟨rest, ['/']⟩
    | some (host, rest) => ⟨host, serialize (UrlPath.parse ('/' :: rest))⟩

/-- The crates as the URL standard has them. -/
def UrlCrate.standard : UrlCrate where
  pushSegments segments := serialize (segments.foldl push [[]])
  parse := parseHttps
  setPath url path := { url with path := serialize (UrlPath.setPath path) }
  percentDecode := percentDecodeUtf8

/-- The crates with which public keys are written in z-base-32. -/
theorem UrlCrate.lawful_standard {grants : List GrantClaims} {pops : List PopProofClaims}
    {tokens : List SignedToken} {digests : List (Bytes × Bytes)} :
    UrlCrate.standard.Lawful (Crates.ofTokens grants pops tokens digests) where
  pushSegments_eq _ := rfl
  parse_eq key rest := by
    have hslash : '/' ∉ "_pubky.".toList ++ key.z32 := by
      intro h
      rcases List.mem_append.1 h with h | h
      · exact absurd h (by decide)
      · exact absurd (BitCodec.Alphabet.mem_of_mem_encode (by decide) h) (by decide)
    have hsplit := Text.splitOnce_append (u := rest) hslash
    have hstrip : Text.stripStart "https://".toList ("https://_pubky.".toList ++ key.z32 ++
        '/' :: rest) = some ("_pubky.".toList ++ key.z32 ++ '/' :: rest) := rfl
    show parseHttps ("https://_pubky.".toList ++ key.z32 ++ '/' :: rest) = _
    rw [parseHttps, hstrip, Option.map_some, hsplit]
    rfl
  setPath_eq _ _ := rfl
  percentDecode_eq := rfl
  fromZ32_z32 := PublicKey.ofZ32_z32
  z32_length := PublicKey.length_z32
  z32_chars _ _ h := BitCodec.Alphabet.mem_of_mem_encode (by decide) h

end Pubky.Sdk
