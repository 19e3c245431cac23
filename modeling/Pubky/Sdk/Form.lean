import Pubky.Common.Utf8

/-!
# Query strings

The crate `form_urlencoded`, with which the SDK writes a query and the homeserver reads it. The
requests rest on one property: the homeserver reads the pairs that the SDK wrote
(`FormCrate.Lawful`). `FormCrate.standard` is an implementation that has it.
-/

namespace Pubky.Sdk

/-- `url::form_urlencoded` in the SDK, and the extractor `Query` of the homeserver. -/
structure FormCrate where
  /-- `query_pairs_mut`, with `append_key_only` for a key without a value -/
  serialize : List (Text × Option Text) → Text
  parse : Text → List (Text × Text)

/-- A form is read back; a key without a value has the empty one. -/
structure FormCrate.Lawful (F : FormCrate) : Prop where
  parse_serialize : ∀ pairs, (∀ pair ∈ pairs, pair.1 ≠ []) →
    F.parse (F.serialize pairs) = pairs.map fun pair => (pair.1, pair.2.getD [])

/-- The characters that a form keeps. -/
def keepForm (c : Char) : Bool := c.toNat < 128 && (c.isAlphanum || c ∈ ['*', '-', '.', '_'])

theorem lawful_keepForm : Percent.Lawful keepForm where
  ascii c h := by
    rw [keepForm, Bool.and_eq_true] at h
    exact of_decide_eq_true h.1
  percent := by decide

theorem not_mem_encode_keepForm {c : Char} (hc : c ∈ ['&', '=']) (t : Text) :
    c ∉ Percent.encode keepForm t := by
  have hall : ∀ c ∈ ['&', '='], keepForm c = false ∧ c ≠ '%' ∧ Percent.isUpperHex c = false :=
    Text.forall_mem_of_all (by decide)
  obtain ⟨hkeep, hpercent, hhex⟩ := hall c hc
  intro h
  rcases Percent.mem_encode h with ⟨h, -⟩ | h | h
  · exact absurd h (by simp [hkeep])
  · exact hpercent h
  · exact absurd h (by simp [hhex])

def formPiece (pair : Text × Option Text) : Text :=
  Percent.encode keepForm pair.1 ++
    (pair.2.map fun value => '=' :: Percent.encode keepForm value).getD []

def parsePiece (piece : Text) : Text × Text :=
  let (key, value) := (Text.splitOnce '=' piece).getD (piece, [])
  ((percentDecodeUtf8 key).getD [], (percentDecodeUtf8 value).getD [])

theorem parsePiece_formPiece (pair : Text × Option Text) :
    parsePiece (formPiece pair) = (pair.1, pair.2.getD []) := by
  obtain ⟨key, value⟩ := pair
  have hkey := not_mem_encode_keepForm (c := '=') (by decide) key
  cases value with
  | none =>
    have hdecode : percentDecodeUtf8 [] = some [] := by decide
    simp [parsePiece, formPiece, Text.splitOnce_eq_none hkey, hdecode,
      percentDecodeUtf8_encode lawful_keepForm]
  | some value =>
    simp [parsePiece, formPiece, Text.splitOnce_append hkey,
      percentDecodeUtf8_encode lawful_keepForm]

/-- Forms with `%20` for a space. -/
def FormCrate.standard : FormCrate where
  serialize pairs := Text.join '&' (pairs.map formPiece)
  parse query := if query = [] then [] else (query.splitOn '&').map parsePiece

theorem FormCrate.lawful_standard : FormCrate.standard.Lawful where
  parse_serialize pairs hkeys := by
    show (if Text.join '&' (pairs.map formPiece) = [] then []
      else ((Text.join '&' (pairs.map formPiece)).splitOn '&').map parsePiece) = _
    cases pairs with
    | nil => rfl
    | cons pair pairs =>
      have hne : Text.join '&' ((pair :: pairs).map formPiece) ≠ [] := by
        obtain ⟨c, hc⟩ := List.exists_mem_of_ne_nil _
          (Percent.encode_ne_nil (hkeys pair (by simp)) : Percent.encode keepForm pair.1 ≠ [])
        have hmem : c ∈ formPiece pair := List.mem_append_left _ hc
        exact List.ne_nil_of_mem (Text.mem_join_of_mem (by simp) hmem)
      have hpieces : ∀ piece ∈ (pair :: pairs).map formPiece, '&' ∉ piece := by
        intro piece hpiece
        obtain ⟨⟨key, value⟩, -, rfl⟩ := List.mem_map.1 hpiece
        have hnot := not_mem_encode_keepForm (c := '&') (by decide)
        cases value <;> simp [formPiece, hnot]
      rw [if_neg hne, Text.splitOn_join hpieces (by simp), List.map_map]
      exact List.map_congr_left fun pair _ => parsePiece_formPiece pair

end Pubky.Sdk
