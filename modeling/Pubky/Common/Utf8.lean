import Pubky.Common.Jws
import Pubky.Lib.UrlPath

/-!
# UTF-8

`utf8` and `fromUtf8` are inverse to each other, and so are the escapes of URLs and
`percentDecodeUtf8`.
-/

namespace Pubky

variable {t u : Text} {bytes : Bytes}

theorem utf8_append (t u : Text) : utf8 (t ++ u) = utf8 t ++ utf8 u :=
  List.flatMap_append

theorem utf8_cons (c : Char) (t : Text) : utf8 (c :: t) = String.utf8EncodeChar c ++ utf8 t :=
  List.flatMap_cons

/-- The bytes of a text are those of the string with its characters. -/
theorem toArray_utf8 (t : Text) : (⟨(utf8 t).toArray⟩ : ByteArray) = (String.ofList t).toByteArray :=
  List.data_toByteArray ▸ rfl

theorem fromUtf8_utf8 (t : Text) : fromUtf8 (utf8 t) = some t := by
  rw [fromUtf8, toArray_utf8, String.fromUTF8?, dif_pos (String.ofList t).isValidUTF8]
  exact congrArg some (String.toList_ofList)

theorem utf8_injective : Function.Injective utf8 := by
  intro t u h
  have htu : some t = some u := by rw [← fromUtf8_utf8 t, h, fromUtf8_utf8 u]
  exact Option.some.inj htu

/-- No text is encoded as the beginning of another one, unless it is its beginning. -/
theorem utf8_prefix_iff {t u : Text} : utf8 t <+: utf8 u ↔ t <+: u := by
  constructor
  · rintro ⟨rest, h⟩
    refine List.isPrefix_of_utf8Encode_append_eq_utf8Encode rest.toByteArray ?_
    have hbytes : ∀ t : Text, t.utf8Encode = (utf8 t).toByteArray := fun _ => rfl
    rw [hbytes, hbytes, ← h, List.toByteArray_append]
  · rintro ⟨rest, rfl⟩
    exact ⟨utf8 rest, (utf8_append t rest).symm⟩

theorem utf8_of_fromUtf8 (h : fromUtf8 bytes = some t) : utf8 t = bytes := by
  obtain ⟨s, hs, rfl⟩ := Option.map_eq_some_iff.1 h
  rw [String.fromUTF8?] at hs
  split at hs
  · rename_i hvalid
    cases hs
    have hbytes := toArray_utf8 (String.fromUTF8 ⟨bytes.toArray⟩ hvalid).toList
    rw [String.ofList_toList] at hbytes
    have harray : (utf8 (String.fromUTF8 ⟨bytes.toArray⟩ hvalid).toList).toArray = bytes.toArray :=
      congrArg ByteArray.data hbytes
    exact List.toArray_inj harray
  · cases hs

/-! ## Percent-decoding -/

/-- `percent_encoding::percent_decode_str` followed by `decode_utf8` -/
def percentDecodeUtf8 (t : Text) : Option Text := fromUtf8 (Percent.decodeBytes (utf8 t))

theorem percentDecodeUtf8_encode {keep : Char → Bool} (hkeep : Percent.Lawful keep) (t : Text) :
    percentDecodeUtf8 (Percent.encode keep t) = some t := by
  have h : Percent.decodeBytes (utf8 (Percent.encode keep t)) = utf8 t :=
    Percent.decodeBytes_encode hkeep t
  rw [percentDecodeUtf8, h, fromUtf8_utf8]

theorem percentDecodeUtf8_encodeSegment (t : Text) :
    percentDecodeUtf8 (UrlPath.encodeSegment t) = some t :=
  percentDecodeUtf8_encode UrlPath.lawful_keepSegment t

/-- A slash in front stays a slash. -/
theorem percentDecodeUtf8_cons_slash {t u : Text} (h : percentDecodeUtf8 t = some u) :
    percentDecodeUtf8 ('/' :: t) = some ('/' :: u) := by
  have hslash : String.utf8EncodeChar '/' = [47] := by decide
  have hcons : utf8 ('/' :: u) = 47 :: Percent.decodeBytes (utf8 t) := by
    rw [utf8_cons, hslash, List.singleton_append, utf8_of_fromUtf8 h]
  rw [percentDecodeUtf8, utf8_cons, hslash, List.singleton_append,
    Percent.decodeBytes_cons_of_ne (by decide), ← hcons, fromUtf8_utf8]

/-- A path of escaped segments is decoded segment by segment. -/
theorem decodeBytes_join_encodeSegment (segments : List Text) :
    Percent.decodeBytes (utf8 (Text.join '/' (segments.map UrlPath.encodeSegment))) =
      utf8 (Text.join '/' segments) := by
  induction segments with
  | nil => rfl
  | cons s ss ih =>
    cases ss with
    | nil =>
      have hs : Percent.decodeBytes (utf8 (UrlPath.encodeSegment s)) = utf8 s :=
        Percent.decodeBytes_encode UrlPath.lawful_keepSegment s
      simpa [Text.join] using hs
    | cons u us =>
      rw [List.map_cons, List.map_cons, Text.join_cons_cons, utf8_append, utf8_cons,
        ← List.map_cons]
      have hslash : String.utf8EncodeChar '/' = [47] := by decide
      have henc := Percent.decodeBytes_encode_append UrlPath.lawful_keepSegment s
        (47 :: utf8 (Text.join '/' ((u :: us).map UrlPath.encodeSegment)))
      rw [Percent.decodeBytes_cons_of_ne (by decide), ih] at henc
      rw [hslash, List.singleton_append, Text.join_cons_cons, utf8_append, utf8_cons, hslash,
        List.singleton_append]
      exact henc

theorem percentDecodeUtf8_join (segments : List Text) :
    percentDecodeUtf8 (Text.join '/' (segments.map UrlPath.encodeSegment)) =
      some (Text.join '/' segments) := by
  rw [percentDecodeUtf8, decodeBytes_join_encodeSegment, fromUtf8_utf8]

end Pubky
