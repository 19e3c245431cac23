import Mathlib.Data.List.Pairwise
import Pubky.Common.Encodings
import Pubky.Common.EncryptionKeys
import Pubky.Common.Utf8

/-!
# The hierarchy of scoped keys

Every way to a key gives the same key, and no two paths share one.

* `keys_path_consistent`: the key of a path is the same from every covering entry of a bundle
  derived from an identity, and from every covering entry of any bundle whose overlaps were checked,
  in whatever order its entries stand. Two scopes that cover one path are comparable
  (`StoragePath.coversPath_total`), so that the pairwise check reaches every such pair.
* `path_keys_distinct`: the derivation feeds `pathInfos` to HKDF-Expand one after the other, the
  sequence determines the path, and with an injective expansion so does the key.
-/

namespace Pubky

/-! ## Overlapping entries -/

section

variable {H : Hkdf} {keys : List KeyEntry} {entry other : KeyEntry} {p : StoragePath}

/-- Entries that passed the check derive the same key for every path that both cover. -/
theorem derivePath_of_checkOverlap (h : checkOverlap H entry other = .ok ())
    (he : entry.scope.coversPath p) (ho : other.scope.coversPath p) :
    derivePath H entry.scope entry.secret p he = derivePath H other.scope other.secret p ho := by
  rw [checkOverlap] at h
  split at h
  · rename_i hcovers
    split at h
    · rename_i hkey
      rw [← derivePath_trans H hcovers ho]
      simp only [hkey]
    · cases h
  · rename_i hnot
    have hcovers := (StoragePath.coversPath_total he ho).resolve_left hnot
    rw [dif_pos hcovers] at h
    split at h
    · rename_i hkey
      rw [← derivePath_trans H hcovers he]
      simp only [hkey]
    · cases h

/-- The check does not depend on which entry comes first. -/
theorem checkOverlap_symm (h : checkOverlap H entry other = .ok ()) :
    checkOverlap H other entry = .ok () := by
  have hself : ∀ (e : KeyEntry) (hc : e.scope.coversPath e.scope),
      derivePath H e.scope e.secret e.scope hc = e.secret := by
    intro e hc
    simp [derivePath, Text.splitInclusive]
  have hrefl : ∀ a : StoragePath, a.coversPath a := fun a => by simp [StoragePath.coversPath]
  rw [checkOverlap]
  split
  · rename_i hcovers
    have hkey := derivePath_of_checkOverlap h (hrefl _) hcovers
    rw [hself] at hkey
    exact if_pos hkey.symm
  · split
    · rename_i hcovers
      have hkey := derivePath_of_checkOverlap h hcovers (hrefl _)
      rw [hself] at hkey
      exact if_pos hkey
    · rfl

/-- The nested loops of `validate_overlap_consistency` check every pair once. -/
theorem validateOverlapConsistency_eq_ok :
    validateOverlapConsistency H keys = .ok () ↔
      keys.Pairwise fun earlier later => checkOverlap H later earlier = .ok () := by
  simp only [validateOverlapConsistency, Except.forM_ok_iff]
  rw [List.pairwise_iff_getElem]
  constructor
  · intro h i j hi hj hij
    refine h (keys[j], j) ?_ keys[i] ?_
    · simpa using List.mk_mem_zipIdx_iff_getElem?.2 (List.getElem?_eq_getElem hj)
    · exact List.mem_take_iff_getElem.2 ⟨i, by omega, rfl⟩
  · rintro h ⟨later, j⟩ hlater earlier hearlier
    obtain ⟨hj, rfl⟩ := List.getElem?_eq_some_iff.1 (List.mk_mem_zipIdx_iff_getElem?.1 hlater)
    obtain ⟨i, hi, rfl⟩ := List.mem_take_iff_getElem.1 hearlier
    exact h i j (by omega) hj (by omega)

theorem validateOverlapConsistency_perm {keys' : List KeyEntry} (hperm : keys'.Perm keys)
    (h : validateOverlapConsistency H keys = .ok ()) :
    validateOverlapConsistency H keys' = .ok () := by
  rw [validateOverlapConsistency_eq_ok] at h ⊢
  exact (hperm.pairwise_iff fun hxy => checkOverlap_symm hxy).2 h

/-- Any two covering entries of a checked bundle derive the same key. -/
theorem derivePath_eq_of_mem (h : validateOverlapConsistency H keys = .ok ())
    (hentry : entry ∈ keys) (hother : other ∈ keys) (he : entry.scope.coversPath p)
    (ho : other.scope.coversPath p) :
    derivePath H entry.scope entry.secret p he = derivePath H other.scope other.secret p ho := by
  by_cases heq : entry = other
  · subst heq
    rfl
  · have hsymm : Std.Symm fun earlier later : KeyEntry =>
        checkOverlap H later earlier = .ok () := ⟨fun _ _ => checkOverlap_symm⟩
    have hcheck : checkOverlap H other entry = .ok () :=
      (validateOverlapConsistency_eq_ok.1 h).forall hentry hother heq
    exact (derivePath_of_checkOverlap hcheck ho he).symm

namespace ScopedEncryptionKeyBundle

variable {bundle : ScopedEncryptionKeyBundle H}

/-- The lookup may use any covering entry. -/
theorem deriveScopedPath_of_mem (hentry : entry ∈ bundle.keys) (he : entry.scope.coversPath p) :
    bundle.deriveScopedPath p = .ok (derivePath H entry.scope entry.secret p he) := by
  rw [deriveScopedPath]
  split
  · rename_i hnone
    exact absurd he (by simpa using List.find?_eq_none.1 hnone entry hentry)
  · rename_i first hfirst
    have hcovers : first.scope.coversPath p := by simpa using List.find?_some hfirst
    exact congrArg Except.ok (derivePath_eq_of_mem bundle.consistent
      (List.mem_of_find?_eq_some hfirst) hentry hcovers he)

theorem deriveScopedPath_of_forall (h : ∀ e ∈ bundle.keys, ¬ e.scope.coversPath p) :
    bundle.deriveScopedPath p = .error (.outsideScope p) := by
  rw [deriveScopedPath]
  split
  · rfl
  · rename_i first hfirst
    exact absurd (by simpa using List.find?_some hfirst) (h first (List.mem_of_find?_eq_some hfirst))

/-- The lookup depends on the set of the entries only. -/
theorem deriveForPath_perm {other : ScopedEncryptionKeyBundle H}
    (hperm : other.keys.Perm bundle.keys) (p : StoragePath) :
    other.deriveForPath p = bundle.deriveForPath p := by
  rw [deriveForPath, deriveForPath]
  split
  · rfl
  by_cases hcovered : ∃ e ∈ bundle.keys, e.scope.coversPath p
  · obtain ⟨e, hmem, he⟩ := hcovered
    rw [deriveScopedPath_of_mem hmem he, deriveScopedPath_of_mem (hperm.mem_iff.2 hmem) he]
  · have hnone : ∀ e ∈ bundle.keys, ¬ e.scope.coversPath p := by simpa using hcovered
    rw [deriveScopedPath_of_forall hnone,
      deriveScopedPath_of_forall fun e he => hnone e (hperm.mem_iff.1 he)]

/-- The entries of an identity's bundle derive what the root seed derives. -/
theorem derivePath_fromIdentitySecret {identity : Secret} {scopes : List StoragePath}
    (hentry : entry ∈ (fromIdentitySecret (H := H) identity scopes).keys)
    (he : entry.scope.coversPath p) :
    derivePath H entry.scope entry.secret p he =
      derivePath H .root (deriveRootSecret H identity) p (StoragePath.root_coversPath p) := by
  obtain ⟨scope, -, rfl⟩ := List.mem_map.1 hentry
  exact derivePath_trans H (StoragePath.root_coversPath scope) he _

end ScopedEncryptionKeyBundle

end

open ScopedEncryptionKeyBundle in
/-- Keys are path consistent, whatever function HKDF-Expand is. -/
theorem keys_path_consistent (H : Hkdf) :
    (∀ (identity : Secret) (scopes : List StoragePath),
      ∀ a ∈ (fromIdentitySecret (H := H) identity scopes).keys,
      ∀ b ∈ (fromIdentitySecret (H := H) identity scopes).keys,
      ∀ (p : StoragePath) (hab : a.scope.coversPath b.scope) (hbp : b.scope.coversPath p),
        derivePath H a.scope a.secret p (StoragePath.coversPath_trans hab hbp) =
            derivePath H .root (deriveRootSecret H identity) p (StoragePath.root_coversPath p) ∧
          derivePath H b.scope b.secret p hbp =
            derivePath H .root (deriveRootSecret H identity) p (StoragePath.root_coversPath p)) ∧
    (∀ (identity : Secret) (scopes : List StoragePath),
      validateOverlapConsistency H (fromIdentitySecret (H := H) identity scopes).keys = .ok ()) ∧
    (∀ (keys : List KeyEntry) (hkeys : validateOverlapConsistency H keys = .ok ())
        (p : StoragePath),
      (∀ e ∈ keys, ∀ he : e.scope.coversPath p,
        deriveForPath ⟨keys, hkeys⟩ p =
          if p.isDirectory then .error (.directoryPath p)
          else .ok (derivePath H e.scope e.secret p he)) ∧
      ∀ keys' : List KeyEntry, keys'.Perm keys →
        ∃ hkeys' : validateOverlapConsistency H keys' = .ok (),
          deriveForPath ⟨keys', hkeys'⟩ p = deriveForPath ⟨keys, hkeys⟩ p) := by
  refine ⟨fun identity scopes a ha b hb p hab hbp => ?_, fun identity scopes => ?_,
    fun keys hkeys p => ⟨fun e he hcovers => ?_, fun keys' hperm => ?_⟩⟩
  · exact ⟨derivePath_fromIdentitySecret ha _, derivePath_fromIdentitySecret hb hbp⟩
  · exact (fromIdentitySecret identity scopes).consistent
  · rw [deriveForPath]
    split
    · rfl
    · exact deriveScopedPath_of_mem he hcovers
  · exact ⟨validateOverlapConsistency_perm hperm hkeys, deriveForPath_perm hperm p⟩

/-! ### Sample keys -/

namespace KeySample

/-- 32 secret bytes, as a number. -/
def secret (n : ℕ) : Secret := ⟨bytesOfNat 32 n, (PublicKey.ofNat n).length_eq⟩

def identity : Secret := secret
  0x0707070707070707070707070707070707070707070707070707070707070707

def prk : Secret := secret
  0x6b1ed2c6952dc03e34eb9a8561d66c4d061e5feb759ce63e2799c1b64ab917ad

def rootSeed : Secret := secret
  0xd9cddc004b28644e0e7ea4f47eeee2cdbe971440565d8d385a8e60cbe630fe71

/-- The seed of `/priv/`. -/
def privSeed : Secret := secret
  0x0f0dc20f60fe3051d0fd0e6d7e738bf487a03925870d3bf8377823edd2d12b32

/-- The seed of `/priv/app/`. -/
def appSeed : Secret := secret
  0x426399a39db124baa745d8046538014dc12c5b4d9e083cc86d745835406acac4

/-- The content key of `/priv/app/note`. -/
def noteKey : Secret := secret
  0x67074de753ce621cbb83c405bee3066ddbee5a4a777a37c77598325724d64993

/-- HKDF with SHA-256 on the inputs that the derivation of these keys has. -/
def hkdf : Hkdf where
  extract key := if key = identity then prk else key
  expand key info :=
    if key = prk ∧ info = rootInfo then rootSeed
    else if key = rootSeed ∧ info = directoryInfo ++ 0 :: utf8 "priv".toList then privSeed
    else if key = privSeed ∧ info = directoryInfo ++ 0 :: utf8 "app".toList then appSeed
    else if key = appSeed ∧ info = fileInfo ++ 0 :: utf8 "note".toList then noteKey
    else key

def note : StoragePath := ⟨"/priv/app/note".toList, by decide⟩

def privEntry : KeyEntry := ⟨⟨"/priv/".toList, by decide⟩, privSeed⟩

def appEntry : KeyEntry := ⟨⟨"/priv/app/".toList, by decide⟩, appSeed⟩

theorem appEntry_covers_note : appEntry.scope.coversPath note := by decide

end KeySample

open KeySample ScopedEncryptionKeyBundle in
/-- The content key of a file from a bundle with two entries that cover it, in either order. -/
theorem keys_path_consistent_sample :
    ∃ hkeys : validateOverlapConsistency hkdf [privEntry, appEntry] = .ok (),
      deriveForPath ⟨[privEntry, appEntry], hkeys⟩ note = .ok noteKey ∧
        ∃ hkeys' : validateOverlapConsistency hkdf [appEntry, privEntry] = .ok (),
          deriveForPath ⟨[appEntry, privEntry], hkeys'⟩ note = .ok noteKey := by
  have hkeys : validateOverlapConsistency hkdf [privEntry, appEntry] = .ok () := by decide +kernel
  obtain ⟨hany, hperm⟩ := (keys_path_consistent hkdf).2.2 _ hkeys note
  have hkey : deriveForPath ⟨[privEntry, appEntry], hkeys⟩ note = .ok noteKey :=
    (hany appEntry (by simp) appEntry_covers_note).trans (by decide +kernel)
  obtain ⟨hkeys', hswap⟩ := hperm [appEntry, privEntry] (.swap _ _ _)
  exact ⟨hkeys, hkey, hkeys', hswap.trans hkey⟩

/-! ## Distinct keys -/

/-- What HKDF-Expand gets for one segment. -/
def segmentInfo (segment : Text) : Bytes :=
  if Text.endsWith '/' segment then directoryInfo ++ 0 :: utf8 segment.dropLast
  else fileInfo ++ 0 :: utf8 segment

/-- What HKDF-Expand gets on the way from an identity to the key of a path, in this order. -/
def pathInfos (p : StoragePath) : List Bytes :=
  rootInfo :: (Text.splitInclusive '/' (p.asStr.drop 1)).map segmentInfo

/-- The derivation of a path's key is a chain of expansions. -/
theorem derivePath_eq_foldl (H : Hkdf) (identity : Secret) (p : StoragePath) :
    derivePath H .root (deriveRootSecret H identity) p (StoragePath.root_coversPath p) =
      (pathInfos p).foldl H.expand (H.extract identity) := by
  have hchild : deriveChild H = fun secret segment => H.expand secret (segmentInfo segment) := by
    funext secret segment
    rw [deriveChild, segmentInfo]
    split <;> rfl
  rw [derivePath, pathInfos, List.foldl_cons, List.foldl_map, hchild]
  rfl

theorem segmentInfo_injective : Function.Injective segmentInfo := by
  have hlabels : ∀ x y : Bytes, directoryInfo ++ x ≠ fileInfo ++ y := by
    intro x y h
    have htake := congrArg (List.take 30) h
    rw [List.take_append_of_le_length (by decide), List.take_append_of_le_length (by decide)]
      at htake
    exact absurd htake (by decide)
  have hsegment : ∀ s : Text, Text.endsWith '/' s → s = s.dropLast ++ ['/'] := by
    intro s hs
    exact (List.dropLast_append_getLast? '/' (by simpa [Text.endsWith] using hs)).symm
  intro s t h
  rw [segmentInfo, segmentInfo] at h
  split at h <;> split at h
  · rename_i hs ht
    have htexts := utf8_injective (List.cons.inj (List.append_cancel_left h)).2
    rw [hsegment s hs, hsegment t ht, htexts]
  · exact absurd h (hlabels _ _)
  · exact absurd h.symm (hlabels _ _)
  · exact utf8_injective (List.cons.inj (List.append_cancel_left h)).2

/-- The sequence of infos is an encoding of the path. -/
theorem pathInfos_injective : Function.Injective pathInfos := by
  intro p q h
  have hpieces := List.map_injective_iff.2 segmentInfo_injective (List.cons.inj h).2
  have htail : p.asStr.drop 1 = q.asStr.drop 1 := by
    rw [← Text.flatten_splitInclusive '/' (p.asStr.drop 1), hpieces, Text.flatten_splitInclusive]
  obtain ⟨ps, hp⟩ := p.eq_cons
  obtain ⟨qs, hq⟩ := q.eq_cons
  rw [hp, hq] at htail
  exact StoragePath.ext (by rw [hp, hq, show ps = qs from htail])

theorem rootInfo_ne_segmentInfo (s : Text) : rootInfo ≠ segmentInfo s := by
  intro h
  have hmem : (0 : UInt8) ∈ segmentInfo s := by
    rw [segmentInfo]
    split <;> simp
  exact absurd (h ▸ hmem) (by decide)

/-- With an injective expansion two chains that start with the root's info and never repeat it
end in the same key only if they are the same chain. -/
theorem foldl_expand_injective {K : Type} {expand : K → Bytes → K}
    (hexpand : Function.Injective2 expand) {root : Bytes} {l m : List Bytes}
    (hl : root ∉ l) (hm : root ∉ m) {k : K}
    (h : (root :: l).foldl expand k = (root :: m).foldl expand k) : l = m := by
  induction l using List.reverseRecOn generalizing m with
  | nil =>
    rcases List.eq_nil_or_concat m with rfl | ⟨init, x, rfl⟩
    · rfl
    · rw [List.concat_eq_append] at h hm
      rw [← List.cons_append, List.foldl_append] at h
      have hx : root = x := (hexpand h).2
      exact absurd hm (by simp [hx])
  | append_singleton l x ih =>
    rcases List.eq_nil_or_concat m with rfl | ⟨init, y, rfl⟩
    · rw [← List.cons_append, List.foldl_append] at h
      have hx : x = root := (hexpand h).2
      exact absurd hl (by simp [hx])
    · rw [List.concat_eq_append] at h hm ⊢
      rw [← List.cons_append, ← List.cons_append, List.foldl_append, List.foldl_append] at h
      obtain ⟨hkey, rfl⟩ := hexpand h
      have hl' : root ∉ l := fun hmem => hl (List.mem_append_left _ hmem)
      have hm' : root ∉ init := fun hmem => hm (List.mem_append_left _ hmem)
      rw [ih hl' hm' hkey]

/-- No two paths have the same key: the derivation is a chain of expansions whose infos determine
the path, and with any injective expansion so does the key at its end. -/
theorem path_keys_distinct :
    (∀ (H : Hkdf) (identity : Secret) (p : StoragePath),
      derivePath H .root (deriveRootSecret H identity) p (StoragePath.root_coversPath p) =
        (pathInfos p).foldl H.expand (H.extract identity)) ∧
    Function.Injective pathInfos ∧
    ∀ (K : Type) (expand : K → Bytes → K), Function.Injective2 expand →
      ∀ (extracted : K) (p q : StoragePath), p ≠ q →
        (pathInfos p).foldl expand extracted ≠ (pathInfos q).foldl expand extracted := by
  refine ⟨derivePath_eq_foldl, pathInfos_injective, fun K expand hexpand k p q hne h => hne ?_⟩
  have hroot : ∀ p : StoragePath,
      rootInfo ∉ (Text.splitInclusive '/' (p.asStr.drop 1)).map segmentInfo := by
    intro p hmem
    obtain ⟨segment, -, hinfo⟩ := List.mem_map.1 hmem
    exact rootInfo_ne_segmentInfo segment hinfo.symm
  have hinfos := foldl_expand_injective hexpand (hroot p) (hroot q) h
  exact pathInfos_injective (congrArg (rootInfo :: ·) hinfos)

/-- Keys that are nothing but how they were derived. -/
inductive SymbolicKey where
  | extracted
  | expand (key : SymbolicKey) (info : Bytes)

/-- A directory and the file of the same name have different keys. -/
theorem path_keys_distinct_sample :
    (pathInfos ⟨"/priv/app/".toList, by decide⟩).foldl SymbolicKey.expand .extracted ≠
      (pathInfos ⟨"/priv/app".toList, by decide⟩).foldl SymbolicKey.expand .extracted :=
  path_keys_distinct.2.2 SymbolicKey .expand (fun _ _ _ _ => SymbolicKey.expand.inj) .extracted _ _
    (by decide)

end Pubky
