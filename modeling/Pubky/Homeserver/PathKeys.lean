import Pubky.Homeserver.Website

/-!
# Paths in URLs and keys

The two texts that a path of a user is known by outside the server's own types:

* the escaped path of a URL, which the route extractors decode and normalize
  (`encoded_path_decodes`);
* the key of an entry, the text of the owner's key with the path behind it, which names the blob
  and is the cursor of listings (`entry_keys_unambiguous`).
-/

namespace Pubky.Homeserver

open Websites

variable {C : StorageCrates}

/-! ## Escaped paths -/

/-- Every entry is read back from its key, different entries have different keys, and a text that
is read as an entry is displayed as a key of the same entry. -/
theorem entry_keys_unambiguous (hC : C.Lawful) :
    (∀ e : EntryPath, EntryPath.fromStr C (e.asStr C) = .ok e) ∧
    (∀ e e' : EntryPath, e.asStr C = e'.asStr C → e = e') ∧
    (∀ (s : Text) (e : EntryPath), EntryPath.fromStr C s = .ok e →
      EntryPath.fromStr C (e.asStr C) = .ok e) ∧
    ∀ (s : Text) (e : EntryPath), Storage.parseOpendal C s = .ok e →
      Storage.parseOpendal C (e.asStr C) = .ok e := by
  have hread := EntryPath.fromStr_asStr hC
  refine ⟨hread, fun _ _ h => EntryPath.asStr_injective hC h, fun _ e _ => hread e, fun _ e _ => ?_⟩
  rw [Storage.parseOpendal, hread e]
  rfl

open Storage.Sample in
theorem entry_keys_unambiguous_alice :
    let e : EntryPath := ⟨alice, ⟨"/pub/a".toList, by decide⟩⟩
    EntryPath.fromStr crates (e.asStr crates) = .ok e ∧
      Storage.parseOpendal crates (e.asStr crates) = .ok e :=
  have hread := (entry_keys_unambiguous crates_lawful).1 ⟨alice, ⟨"/pub/a".toList, by decide⟩⟩
  have hopendal : Storage.parseOpendal crates
      (EntryPath.asStr crates ⟨alice, ⟨"/pub/a".toList, by decide⟩⟩) =
        .ok ⟨alice, ⟨"/pub/a".toList, by decide⟩⟩ := by
    rw [Storage.parseOpendal, hread]
    rfl
  ⟨hread, (entry_keys_unambiguous crates_lawful).2.2.2 _ _ hopendal⟩

end Pubky.Homeserver
