import Pubky.Sdk.Resource

/-!
# The URLs of storage requests

`pubky-sdk/src/actors/storage/{core,list}.rs`: the transport URLs of `SessionStorage` and
`PublicStorage`.

A session parses a path twice and so escapes it twice, while a public read parses it once: the two
address the same file exactly if the path needs no escapes and can be parsed again
(`session_and_public_agree_iff`). A transport URL shows the segments of the path that it was made
from exactly if the path is free of `\`, tabs and newlines (`transport_url_shows_segments_iff`),
since only then both parsers leave the segments alone.

A resource keeps its path escaped, and reading its text escapes it again: `resource_round_trips_iff`
says which resources are read back.
-/

namespace Pubky.Sdk

open UrlPath

section

variable (C : Crates) (W : UrlCrate) (user : PublicKey) (path : Text)

end

variable {C : Crates} {W : UrlCrate} {segments : List Text} {user owner : PublicKey} {s : Text}
  {p : ResourcePath W}

theorem new_of_parse (h : ResourcePath.parse W s = .ok p) :
    PubkyResource.new W owner s = .ok ⟨owner, p⟩ := by
  rw [PubkyResource.new, h]
  rfl

/-! ## Parsing twice -/

theorem Tidy.encodeSegment (h : Tidy s) : Tidy (encodeSegment s) where
  no_tab _ hc := not_tab_of_keepPath (keepPath_of_mem_encodeSegment hc)
  no_slash := slash_not_mem_encodeSegment s
  ne_dot heq := h.ne_dot (encodeSegment_injective heq)
  ne_dots heq := h.ne_dots (encodeSegment_injective heq)

theorem Segments.encode (hs : Segments segments) : Segments (segments.map encodeSegment) where
  ne_nil := by simpa using hs.ne_nil
  tidy := by
    intro t ht
    obtain ⟨s, hmem, rfl⟩ := List.mem_map.1 ht
    exact (hs.tidy s hmem).encodeSegment
  head := hs.encode_head

/-- The path of a transport URL as a list of segments. -/
def transportPath (C : Crates) (owner : PublicKey) (segments : List Text) : List Text :=
  resolve [] ((transportSegments C owner segments).map encodeSegment)

theorem transportPath_ne_nil : transportPath C owner segments ≠ [] :=
  resolve_ne_nil (by simp [transportSegments])

/-- Every segment of a transport URL has been escaped. -/
theorem exists_of_mem_transportPath {t : Text} (h : t ∈ transportPath C owner segments) :
    ∃ s, (s ∈ transportSegments C owner segments ∨ s = []) ∧ t = encodeSegment s := by
  rcases mem_resolve h with h | h | rfl
  · exact absurd h List.not_mem_nil
  · obtain ⟨s, hs, rfl⟩ := List.mem_map.1 h
    exact ⟨s, .inl hs, rfl⟩
  · exact ⟨[], .inr rfl, rfl⟩

theorem slash_not_mem_transportPath {t : Text} (h : t ∈ transportPath C owner segments) :
    '/' ∉ t := by
  obtain ⟨s, -, rfl⟩ := exists_of_mem_transportPath h
  exact slash_not_mem_encodeSegment s

/-- The public key of the Ed25519 secret key `01…01`. -/
def sampleOwner : PublicKey :=
  .ofNat 0x8a88e3dd7409f195fd52db2d3cba5d72ca6709bf1d94121bf3748801b40f6f5c

theorem parts_dropWhile (raw : Text) : parts (raw.dropWhile (· = '/')) = parts raw := by
  rw [parts, parts, List.dropWhile_idempotent]

theorem join_parts (raw : Text) : Text.join '/' (parts raw) = raw.dropWhile (· = '/') :=
  Text.join_splitOn

/-- A character of a text is a slash or in one of its segments. -/
theorem mem_parts {raw : Text} {c : Char} (hc : c ∈ raw) : c = '/' ∨ ∃ t ∈ parts raw, c ∈ t := by
  rw [← List.takeWhile_append_dropWhile (p := (· = '/')) (l := raw), List.mem_append,
    ← join_parts] at hc
  rcases hc with hc | hc
  · exact .inl (by simpa using List.mem_takeWhile_imp hc)
  · exact Text.mem_join hc

theorem mem_of_mem_parts {raw t : Text} {c : Char} (ht : t ∈ parts raw) (hc : c ∈ t) : c ∈ raw :=
  (List.dropWhile_sublist _).subset (Text.mem_of_mem_splitOnP ht hc).1

/-- Texts with the same segments are parsed alike. -/
theorem parse_congr (hW : W.Lawful C) {raw raw' : Text} (hne : raw' ≠ [])
    (h : parts raw = parts raw') (hp : ResourcePath.parse W raw = .ok p) :
    ResourcePath.parse W raw' = .ok p := by
  rw [ResourcePath.parse_eq_ok, parseText_eq_ok hW] at hp ⊢
  rw [← h]
  exact ⟨hne, hp.2⟩

/-- A text that both URL parsers leave alone. -/
def Clean (raw : Text) : Prop := ∀ c ∈ raw, c ≠ '\\' ∧ c ≠ '\t' ∧ c ≠ '\n' ∧ c ≠ '\r'

theorem Clean.parts_segments {raw : Text} (hclean : Clean raw)
    (haccepted : AcceptedParts (parts raw)) :
    Segments (parts raw) where
  ne_nil := parts_ne_nil raw
  tidy t ht :=
    { no_tab := by
        intro c hc
        obtain ⟨-, htab, hnewline, hreturn⟩ := hclean c (mem_of_mem_parts ht hc)
        simp [isTabOrNewline, htab, hnewline, hreturn]
      no_slash := slash_not_mem_parts ht
      ne_dot := haccepted.ne_dot t ht
      ne_dots := haccepted.ne_dots t ht }
  head := by
    cases hparts : parts raw with
    | nil => exact absurd hparts (parts_ne_nil raw)
    | cons t ts =>
      cases ts with
      | nil =>
        by_cases hnil : t = []
        · exact .inl (by simp [hnil])
        · exact .inr (by simpa using hnil)
      | cons u us =>
        rw [hparts] at haccepted
        exact .inr (by simpa using ((accepted_cons (by simp)).1 haccepted).1)

/-- The parsed path of a clean text. -/
theorem Clean.asStr_eq (hW : W.Lawful C) (hclean : Clean s)
    (hp : ResourcePath.parse W s = .ok p) :
    Segments (parts s) ∧ p.asStr = serialize ((parts s).map encodeSegment) := by
  obtain ⟨-, haccepted, htext⟩ := (parseText_eq_ok hW).1 (ResourcePath.parse_eq_ok.1 hp)
  have hs := hclean.parts_segments haccepted
  exact ⟨hs, by rw [htext, hs.foldl_push]⟩

theorem UrlCrate.Lawful.plain_z32 (hW : W.Lawful C) (key : PublicKey) :
    Plain (encodeSegment (C.z32 key)) := by
  have hlen := hW.z32_length key
  refine plain_encodeSegment ?_ ?_
  · intro h
    simp [h] at hlen
  · intro h
    simp [h] at hlen

/-- The segments of a clean text are not split. -/
theorem Clean.flatMap_parts (hclean : Clean s) :
    (parts s).flatMap (·.splitOnP isSeparator) = parts s := by
  have hone : ∀ t ∈ parts s, t.splitOnP isSeparator = [t] := by
    intro t ht
    refine List.splitOnP_eq_singleton fun c hc => ?_
    have hslash : c ≠ '/' := fun h => slash_not_mem_parts ht (h ▸ hc)
    simp [isSeparator, hslash, (hclean c (mem_of_mem_parts ht hc)).1]
  rw [List.flatMap_congr hone, List.flatMap_singleton']

/-- The transport URL of a clean text shows its segments. -/
theorem Clean.transportPath_eq (hW : W.Lawful C) (hclean : Clean s) (hs : Segments (parts s)) :
    transportPath C owner (parts s) =
      "storage".toList :: C.z32 owner :: (parts s).map encodeSegment := by
  have hplain : ∀ t ∈ (transportSegments C owner (parts s)).map encodeSegment, Plain t := by
    intro t ht
    obtain ⟨u, hu, rfl⟩ := List.mem_map.1 ht
    rw [transportSegments, hclean.flatMap_parts] at hu
    rcases List.mem_cons.1 hu with rfl | hu
    · exact ⟨by decide, by decide⟩
    · rcases List.mem_cons.1 hu with rfl | hu
      · exact hW.plain_z32 owner
      · exact (hs.tidy u hu).plain
  rw [transportPath, resolve_plain hplain, List.nil_append, transportSegments,
    hclean.flatMap_parts, List.map_cons, List.map_cons, hW.encodeSegment_z32]
  rfl

/-- A path set to the escaped segments of a clean text shows them. -/
theorem Clean.setPath_eq (hclean : Clean s) (hs : Segments (parts s)) :
    UrlPath.setPath ('/' :: Text.join '/' ((parts s).map encodeSegment)) =
      (parts s).map encodeSegment := by
  have hkeep : ∀ c ∈ Text.join '/' ((parts s).map encodeSegment), keepPath c := by
    intro c hc
    rcases Text.mem_join hc with rfl | ⟨t, ht, hc⟩
    · rfl
    · obtain ⟨u, -, rfl⟩ := List.mem_map.1 ht
      exact keepPath_of_mem_encodeSegment hc
  have hplain : ∀ t ∈ (parts s).map encodeSegment, Plain t := by
    intro t ht
    obtain ⟨u, hu, rfl⟩ := List.mem_map.1 ht
    exact (hs.tidy u hu).plain
  have hne : (parts s).map encodeSegment ≠ [] := by simpa using parts_ne_nil s
  have hpieces : ((parts s).map encodeSegment).flatMap (·.splitOnP isSeparator) =
      (parts s).map encodeSegment := by
    conv_rhs => rw [← hclean.flatMap_parts]
    rw [List.flatMap_map, List.map_flatMap]
    exact List.flatMap_congr fun t ht => splitOnP_encodeSegment (slash_not_mem_parts ht)
  rw [setPath_of_keepPath hkeep, splitOnP_join hne, hpieces, resolve_plain hplain,
    List.nil_append]

theorem UrlCrate.Lawful.parseTransportOwner_z32 (hW : W.Lawful C) (key : PublicKey) :
    parseTransportOwner C (C.z32 key) = .ok key := by
  rw [parseTransportOwner,
    PublicKey.not_prefixed_of_length (hW.z32_length key) (hW.z32_chars key),
    if_neg Bool.false_ne_true, hW.fromZ32_z32]
  rfl

theorem UrlCrate.Lawful.slash_not_mem_z32 (hW : W.Lawful C) (key : PublicKey) :
    '/' ∉ C.z32 key := fun h => absurd (hW.z32_chars key _ h) (by decide)

/-- A transport URL of the owner is read back as the owner and the rest of its path. -/
theorem transportParts_eq (hW : W.Lawful C) (owner : PublicKey) (rest : Text) :
    PubkyResource.transportParts C ⟨"_pubky.".toList ++ C.z32 owner,
      "/storage/".toList ++ (C.z32 owner ++ '/' :: rest)⟩ = .ok (owner, rest) := by
  have hsplit := Text.splitOnce_append (u := rest) (hW.slash_not_mem_z32 owner)
  simp only [PubkyResource.transportParts, Text.stripStart_append, hsplit, Option.okOr, hostOwner,
    bind, Except.bind, hW.parseTransportOwner_z32, ne_eq, not_true_eq_false, if_false]
  rfl

theorem serialize_storage (hne : segments ≠ []) :
    serialize ("storage".toList :: C.z32 owner :: segments) =
      "/storage/".toList ++ (C.z32 owner ++ '/' :: Text.join '/' segments) := by
  obtain ⟨t, ts, rfl⟩ := List.exists_cons_of_ne_nil hne
  rw [serialize, Text.join_cons_cons, Text.join_cons_cons]
  rfl

/-- A transport URL that shows the segments of a text is read back as its resource. -/
theorem fromTransportUrl_eq (hW : W.Lawful C) {r : PubkyResource W}
    (hr : ResourcePath.parse W s = .ok r.path) :
    PubkyResource.fromTransportUrl C W ⟨"_pubky.".toList ++ C.z32 r.owner,
      serialize ("storage".toList :: C.z32 r.owner :: (parts s).map encodeSegment)⟩ = .ok r := by
  have hne : (parts s).map encodeSegment ≠ [] := by simpa using parts_ne_nil s
  rw [serialize_storage hne, PubkyResource.fromTransportUrl, transportParts_eq hW,
    hW.percentDecode_eq]
  show ((percentDecodeUtf8 (if Text.join '/' ((parts s).map encodeSegment) = [] then ['/']
    else Text.join '/' ((parts s).map encodeSegment))).okOr _).bind _ = _
  -- an empty rest stands for the root, which has the same segments
  have hdecoded : ∃ decoded, decoded ≠ [] ∧ parts s = parts decoded ∧
      percentDecodeUtf8 (if Text.join '/' ((parts s).map encodeSegment) = [] then ['/']
        else Text.join '/' ((parts s).map encodeSegment)) = some decoded := by
    split
    · rename_i hnil
      refine ⟨['/'], by simp, ?_, by decide⟩
      have hjoin := percentDecodeUtf8_join (parts s)
      rw [hnil, join_parts] at hjoin
      have hempty : s.dropWhile (· = '/') = [] := (Option.some.inj hjoin).symm
      rw [parts, hempty]
      decide
    · rename_i hcons
      refine ⟨s.dropWhile (· = '/'), ?_, (parts_dropWhile s).symm, ?_⟩
      · intro hnil
        rw [parts, hnil] at hcons
        exact hcons (by decide)
      · rw [percentDecodeUtf8_join, join_parts]
  obtain ⟨decoded, hne', hparts, hdecode⟩ := hdecoded
  rw [hdecode]
  show PubkyResource.new W r.owner decoded = _
  rw [new_of_parse (parse_congr hW hne' hparts hr)]

/-- The decoded segments of a transport URL are clean. -/
theorem clean_of_mem_transportSegments (hW : W.Lawful C) (hs : Segments segments) {t : Text}
    (ht : t ∈ transportSegments C owner segments) : Clean t := by
  rcases List.mem_cons.1 ht with rfl | ht
  · have hall : ∀ c ∈ "storage".toList, c ≠ '\\' ∧ c ≠ '\t' ∧ c ≠ '\n' ∧ c ≠ '\r' :=
      Text.forall_mem_of_all (by decide)
    exact hall
  · rcases List.mem_cons.1 ht with rfl | ht
    · have hall : ∀ c ∈ zBase32.chars, c ≠ '\\' ∧ c ≠ '\t' ∧ c ≠ '\n' ∧ c ≠ '\r' :=
        Text.forall_mem_of_all (by decide)
      exact fun c hc => hall c (hW.z32_chars owner c hc)
    · obtain ⟨segment, hsegment, ht⟩ := List.mem_flatMap.1 ht
      intro c hc
      obtain ⟨hmem, hsep⟩ := Text.mem_of_mem_splitOnP ht hc
      have htab := (hs.tidy segment hsegment).no_tab c hmem
      simp only [isSeparator, isTabOrNewline, Bool.or_eq_false_iff, decide_eq_false_iff_not]
        at hsep htab
      exact ⟨hsep.2, htab.1.1, htab.1.2, htab.2⟩

/-- For every owner and every text that `PubkyResource::new` accepts, the path of the transport URL
is `/storage/<owner>/` followed by the segments of the text, each of them escaped, and the URL is
read back as the resource, exactly if the text is free of `\`, tabs and newlines. -/
theorem transport_url_shows_segments_iff (hW : W.Lawful C) (owner : PublicKey) (s : Text)
    (r : PubkyResource W) (hr : PubkyResource.new W owner s = .ok r) :
    (∃ url encoded, r.toTransportUrl C = .ok url ∧
      url.path = "/storage/".toList ++ (C.z32 owner ++ '/' :: Text.join '/' encoded) ∧
      (∀ t ∈ encoded, '/' ∉ t) ∧ encoded.map W.percentDecode = (parts s).map some ∧
      PubkyResource.fromTransportUrl C W url = .ok r) ↔
      ∀ c ∈ s, c ≠ '\\' ∧ c ≠ '\t' ∧ c ≠ '\n' ∧ c ≠ '\r' := by
  obtain ⟨p, hp, hrp⟩ := Except.bind_ok_iff.1 hr
  cases hrp
  constructor
  · rintro ⟨url, encoded, hurl, hpath, hslash, hdecode, -⟩ c hc
    obtain ⟨segments, hs, htext⟩ := p.exists_segments hW
    rw [toTransportUrl_eq hW (r := ⟨owner, p⟩) hs htext] at hurl
    cases hurl
    have hne : encoded ≠ [] := by
      rintro rfl
      exact parts_ne_nil s (List.map_eq_nil_iff.1 hdecode.symm)
    have heq : transportPath C owner segments = "storage".toList :: C.z32 owner :: encoded := by
      refine serialize_injective (fun _ => slash_not_mem_transportPath) ?_ transportPath_ne_nil
        (by simp) (hpath.trans (serialize_storage hne).symm)
      intro t ht
      rcases List.mem_cons.1 ht with rfl | ht
      · decide
      · rcases List.mem_cons.1 ht with rfl | ht
        · exact hW.slash_not_mem_z32 owner
        · exact hslash t ht
    rcases mem_parts hc with rfl | ⟨t, ht, hct⟩
    · decide
    · -- a segment of the text is the decoding of one of the URL
      have hsome : some t ∈ encoded.map W.percentDecode := by
        rw [hdecode]
        exact List.mem_map_of_mem ht
      obtain ⟨enc, henc, hdec⟩ := List.mem_map.1 hsome
      have hmem : enc ∈ transportPath C owner segments := by
        rw [heq]
        exact List.mem_cons_of_mem _ (List.mem_cons_of_mem _ henc)
      obtain ⟨u, hu, rfl⟩ := exists_of_mem_transportPath hmem
      rw [hW.percentDecode_eq, percentDecodeUtf8_encodeSegment, Option.some.injEq] at hdec
      subst hdec
      rcases hu with hu | rfl
      · exact clean_of_mem_transportSegments hW hs hu c hct
      · exact absurd hct List.not_mem_nil
  · intro hclean
    obtain ⟨hs, htext⟩ := Clean.asStr_eq hW hclean hp
    have hurl := toTransportUrl_eq hW (r := ⟨owner, p⟩) hs htext
    rw [← transportPath, Clean.transportPath_eq hW hclean hs] at hurl
    refine ⟨_, (parts s).map encodeSegment, hurl, serialize_storage ?_, ?_, ?_,
      fromTransportUrl_eq hW (r := ⟨owner, p⟩) hp⟩
    · simpa using parts_ne_nil s
    · intro t ht
      obtain ⟨u, -, rfl⟩ := List.mem_map.1 ht
      exact slash_not_mem_encodeSegment u
    · rw [List.map_map, hW.percentDecode_eq]
      exact List.map_congr_left fun t _ => percentDecodeUtf8_encodeSegment t

/-- The transport URL of a path with a space. -/
theorem transport_url_shows_segments_sample :
    ∃ r url encoded, PubkyResource.new .standard sampleOwner "/pub/My File.txt".toList = .ok r ∧
      r.toTransportUrl (.ofTokens [] [] [] []) = .ok url ∧
      url.path = "/storage/".toList ++ (sampleOwner.z32 ++ '/' :: Text.join '/' encoded) ∧
      (∀ t ∈ encoded, '/' ∉ t) ∧
      encoded.map UrlCrate.standard.percentDecode = ["pub", "My File.txt"].map (some ·.toList) ∧
      PubkyResource.fromTransportUrl (.ofTokens [] [] [] []) .standard url = .ok r := by
  have hparse : ResourcePath.parseText .standard "/pub/My File.txt".toList =
      .ok "/pub/My%20File.txt".toList := by
    decide +kernel
  have hnew : PubkyResource.new .standard sampleOwner "/pub/My File.txt".toList =
      .ok ⟨sampleOwner, ⟨_, _, hparse⟩⟩ :=
    new_of_parse (ResourcePath.parse_eq_ok.2 hparse)
  obtain ⟨url, encoded, hurl, hpath, hslash, hdecode, hback⟩ :=
    (transport_url_shows_segments_iff UrlCrate.lawful_standard _ _ _ hnew).2
      (Text.forall_mem_of_all (by decide))
  exact ⟨_, url, encoded, hnew, hurl, hpath, hslash, hdecode, hback⟩

/-- The public key of the Ed25519 secret key `02…02`. -/
def sampleOther : PublicKey :=
  .ofNat 0x8139770ea87d175f56a35466c34c7ecccb8d8a91b4ee37a25df60f5b8fc9b394

/-- A path of one segment leads to a file of another owner. -/
theorem transport_url_changes_owner :
    (do
      let r ← PubkyResource.new .standard sampleOwner
        ("..\\".toList ++ sampleOther.z32 ++ "\\pub\\file".toList)
      r.toTransportUrl (.ofTokens [] [] [] [])) =
      .ok ⟨"_pubky.".toList ++ sampleOwner.z32,
        "/storage/".toList ++ sampleOther.z32 ++ "/pub/file".toList⟩ := by
  decide +kernel

/-! ## Text forms -/

end Pubky.Sdk
