import Mathlib.Data.List.Dedup
import Pubky.Common.Capabilities

/-!
# Normalized capabilities

`Capabilities.normalize` merges the capabilities of one scope and drops the covered ones.

* `exists_normalize`: it keeps what the list as a whole permits, and `permits_normalize` says so
  for every path and action.
* `Capabilities.normalize_canonical`: the result is a canonical form. Which capabilities the first
  loop gives (`Capability.mem_merged`) and which of them the second one keeps
  (`Capability.mem_normalize`) depends on the set of the capabilities only.
* `Capability.WellFormed` is what parsing establishes: known actions, at least one, in order. A
  well-formed capability is read back from its own text (`fromStr_toText`), and normalizing keeps
  the entries well formed (`WellFormed.normalize`), so that a normalized list can be stored as
  text.
-/

namespace Pubky

/-! ## Sets of actions -/

namespace Action

theorem rank_injective : Function.Injective rank := by
  intro a b h
  cases a <;> cases b <;> simp only [rank] at h <;> first | rfl | omega | skip
  rename_i c d
  rw [unknown.injEq]
  exact Char.toNat_inj.1 (by omega)

@[simp] theorem mem_set {a : Action} {actions : List Action} : a ∈ set actions ↔ a ∈ actions := by
  rw [set, List.mem_insertionSort, List.mem_dedup]

/-- A list of actions in the order of a `BTreeSet`. -/
def Ordered (actions : List Action) : Prop :=
  actions.Pairwise fun a b => a.rank < b.rank

theorem ordered_set (actions : List Action) : Ordered (set actions) := by
  have hle : (set actions).Pairwise fun a b => a.rank ≤ b.rank := by
    have htotal : Std.Total fun a b : Action => a.rank ≤ b.rank :=
      ⟨fun a b => Nat.le_total a.rank b.rank⟩
    have htrans : IsTrans Action fun a b => a.rank ≤ b.rank := ⟨fun _ _ _ => Nat.le_trans⟩
    exact List.pairwise_insertionSort _ _
  have hne : (set actions).Pairwise (· ≠ ·) :=
    (List.perm_insertionSort _ _).nodup_iff.2 (List.nodup_dedup actions)
  exact hle.imp₂ (fun _ _ hle hne => Nat.lt_of_le_of_ne hle fun h => hne (rank_injective h)) hne

end Action

/-! ## What a list permits -/

namespace Capability

variable {P : Capability → Prop} {caps merged : List Capability} {cap : Capability}

/-- The capability allows an action on a path. -/
def Allows (path : StoragePath) (action : Action) (c : Capability) : Prop :=
  c.scope.coversPath path ∧ action ∈ c.actions

variable {path : StoragePath} {action : Action}

theorem allows_of_covers {c other : Capability} (h : c.covers other)
    (ho : other.Allows path action) : c.Allows path action := by
  simp only [covers, scopeCoversPath, Bool.and_eq_true, List.all_eq_true,
    List.contains_iff_mem] at h
  exact ⟨StoragePath.coversPath_trans h.1 ho.1, h.2 action ho.2⟩

/-- What capabilities of one scope have together is what the merged one has. -/
structure Additive (P : Capability → Prop) : Prop where
  set : ∀ c, P (c.withActionSet c.actions) ↔ P c
  join : ∀ c d, c.scope = d.scope → (P (c.withActionSet (c.actions ++ d.actions)) ↔ P c ∨ P d)

theorem additive_allows : Additive (Allows path action) where
  set c := by simp [Allows, withActionSet]
  join c d h := by simp [Allows, withActionSet, h, and_or_left]

theorem exists_foldl_mergeScope (hP : Additive P) :
    (∃ c ∈ caps.foldl mergeScope merged, P c) ↔ (∃ c ∈ merged, P c) ∨ ∃ c ∈ caps, P c := by
  induction caps generalizing merged with
  | nil => simp
  | cons c caps ih =>
    have hmerge : (∃ d ∈ mergeScope merged c, P d) ↔ (∃ d ∈ merged, P d) ∨ P c := by
      rw [mergeScope, List.exists_upsert, hP.set]
      intro existing hsame
      rw [hP.set]
      exact hP.join existing c (by simpa using hsame)
    rw [List.foldl_cons, ih, hmerge, List.exists_mem_cons_iff, or_assoc]

/-- Normalization keeps what the list allows. -/
theorem exists_normalize :
    (∃ c ∈ normalize caps, c.Allows path action) ↔ ∃ c ∈ caps, c.Allows path action := by
  rw [normalize, List.exists_maximal fun c other h => allows_of_covers h,
    exists_foldl_mergeScope additive_allows]
  simp

end Capability

namespace Capabilities

theorem permits_iff {cs : Capabilities} {path : StoragePath} {action : Action} :
    cs.permits path action ↔ ∃ c ∈ cs.toVec, c.Allows path action := by
  simp [permits, Capability.Allows, Capability.scopeCoversPath]

theorem permits_normalize (cs : Capabilities) (path : StoragePath) (action : Action) :
    cs.normalize.permits path action = cs.permits path action := by
  rw [Bool.eq_iff_iff, permits_iff, permits_iff]
  exact Capability.exists_normalize

end Capabilities

/-! ## Canonical form -/

theorem Action.Ordered.eq_of_mem_iff {as bs : List Action} (ha : Ordered as) (hb : Ordered bs)
    (h : ∀ a, a ∈ as ↔ a ∈ bs) : as = bs := by
  have hnodup : ∀ {l : List Action}, Ordered l → l.Nodup := fun hl =>
    hl.imp fun hlt heq => absurd (congrArg rank heq) hlt.ne
  refine List.Perm.eq_of_pairwise (fun a b _ _ hab hba => absurd hab hba.asymm) ha hb ?_
  exact (List.perm_ext_iff_of_nodup (hnodup ha) (hnodup hb)).2 h

namespace Capability

open Action

variable {caps merged : List Capability} {c d : Capability}

theorem covers_iff : c.covers d ↔ c.scope.coversPath d.scope ∧ ∀ a ∈ d.actions, a ∈ c.actions := by
  simp [covers, scopeCoversPath]

theorem covers_refl (c : Capability) : c.covers c :=
  covers_iff.2 ⟨c.scope.coversPath_refl, fun _ => id⟩

theorem covers_trans {e : Capability} (hcd : c.covers d) (hde : d.covers e) : c.covers e := by
  obtain ⟨hscope, hactions⟩ := covers_iff.1 hcd
  obtain ⟨hscope', hactions'⟩ := covers_iff.1 hde
  exact covers_iff.2
    ⟨StoragePath.coversPath_trans hscope hscope', fun a ha => hactions a (hactions' a ha)⟩

theorem eq_of_scope_of_mem_iff (hscope : c.scope = d.scope) (hc : Ordered c.actions)
    (hd : Ordered d.actions) (h : ∀ a, a ∈ c.actions ↔ a ∈ d.actions) : c = d := by
  obtain ⟨scope, actions, _⟩ := c
  obtain ⟨scope', actions', _⟩ := d
  obtain rfl : scope = scope' := hscope
  obtain rfl : actions = actions' := hc.eq_of_mem_iff hd h
  rfl

/-- The first loop keeps one capability of each scope, with its actions as a set. -/
structure Distinct (merged : List Capability) : Prop where
  scopes : (merged.map scope).Nodup
  ordered : ∀ c ∈ merged, Ordered c.actions

theorem Distinct.mergeScope (h : Distinct merged) (cap : Capability) :
    Distinct (mergeScope merged cap) where
  scopes := List.nodup_map_upsert h.scopes (fun c => by simp [withActionSet]) fun c => rfl
  ordered := List.forall_upsert h.ordered (fun c _ _ => ordered_set _) (ordered_set _)

theorem Distinct.foldl (h : Distinct merged) : Distinct (caps.foldl Capability.mergeScope merged) :=
  List.foldlRecOn caps Capability.mergeScope h fun _ hm c _ => hm.mergeScope c

theorem distinct_merged (caps : List Capability) : Distinct (caps.foldl mergeScope []) :=
  Distinct.foldl ⟨List.nodup_nil, by simp⟩

/-- Merging changes nothing where there is nothing to merge. -/
theorem Distinct.foldl_mergeScope (h : Distinct (merged ++ caps)) :
    caps.foldl Capability.mergeScope merged = merged ++ caps := by
  induction caps generalizing merged with
  | nil => exact (List.append_nil merged).symm
  | cons c caps ih =>
    have hset : c.withActionSet c.actions = c :=
      eq_of_scope_of_mem_iff rfl (ordered_set _) (h.ordered c (by simp)) fun _ => mem_set
    have hnew : ∀ d ∈ merged, d.scope ≠ c.scope := by
      intro d hd
      have hscopes := h.scopes
      rw [List.map_append, List.nodup_append] at hscopes
      exact hscopes.2.2 d.scope (List.mem_map_of_mem hd) c.scope (by simp)
    have hmerge : Capability.mergeScope merged c = merged ++ [c] := by
      rw [Capability.mergeScope, List.upsert_eq_append (by simpa using hnew), hset]
    have happend : merged ++ c :: caps = merged ++ [c] ++ caps := by simp
    rw [happend] at h ⊢
    rw [List.foldl_cons, hmerge, ih h]

theorem Distinct.eq_of_scope (h : Distinct merged) (hc : c ∈ merged) (hd : d ∈ merged)
    (hscope : c.scope = d.scope) : c = d :=
  List.inj_on_of_nodup_map h.scopes hc hd hscope

/-- The capability of its scope that merging all of `caps` gives. -/
structure IsMerged (caps : List Capability) (c : Capability) : Prop where
  ordered : Ordered c.actions
  scope : ∃ d ∈ caps, d.scope = c.scope
  actions : ∀ a, a ∈ c.actions ↔ ∃ d ∈ caps, d.scope = c.scope ∧ a ∈ d.actions

/-- What the first loop gives depends on the set of the capabilities only. -/
theorem mem_merged : c ∈ caps.foldl mergeScope [] ↔ IsMerged caps c := by
  have hdistinct := distinct_merged caps
  have hscope : ∀ p, (∃ d ∈ caps.foldl mergeScope [], d.scope = p) ↔ ∃ d ∈ caps, d.scope = p := by
    intro p
    have hadd : Additive fun d => d.scope = p := ⟨fun c => Iff.rfl, fun c d h => by
      simp [withActionSet, h]⟩
    rw [exists_foldl_mergeScope hadd]
    simp
  have haction : ∀ p a, (∃ d ∈ caps.foldl mergeScope [], d.scope = p ∧ a ∈ d.actions) ↔
      ∃ d ∈ caps, d.scope = p ∧ a ∈ d.actions := by
    intro p a
    have hadd : Additive fun d => d.scope = p ∧ a ∈ d.actions :=
      ⟨fun c => by simp [withActionSet], fun c d h => by simp [withActionSet, h, and_or_left]⟩
    rw [exists_foldl_mergeScope hadd]
    simp
  have hmerged : ∀ d ∈ caps.foldl mergeScope [], IsMerged caps d := by
    intro d hd
    refine ⟨hdistinct.ordered d hd, (hscope d.scope).1 ⟨d, hd, rfl⟩, fun a => ?_⟩
    rw [← haction]
    constructor
    · exact fun ha => ⟨d, hd, rfl, ha⟩
    · rintro ⟨e, he, hed, ha⟩
      rwa [← hdistinct.eq_of_scope he hd hed]
  refine ⟨hmerged c, fun hc => ?_⟩
  obtain ⟨d, hd, hdc⟩ := (hscope c.scope).2 hc.scope
  have hdm := hmerged d hd
  have heq : d = c := eq_of_scope_of_mem_iff hdc hdm.ordered hc.ordered fun a => by
    rw [hdm.actions, hc.actions, hdc]
  exact heq ▸ hd

theorem mem_normalize : c ∈ normalize caps ↔
    IsMerged caps c ∧ ∀ d, IsMerged caps d → d.covers c → d = c := by
  have hantisymm : ∀ c ∈ caps.foldl mergeScope [], ∀ d ∈ caps.foldl mergeScope [],
      c.covers d → d.covers c → c = d := by
    intro c hc d hd hcd hdc
    have hscope := StoragePath.coversPath_antisymm (covers_iff.1 hcd).1 (covers_iff.1 hdc).1
    exact (distinct_merged caps).eq_of_scope hc hd hscope
  rw [normalize, List.mem_maximal covers_refl (fun _ _ _ => covers_trans) hantisymm]
  simp only [mem_merged]

theorem IsMerged.congr {caps' : List Capability} (h : ∀ d, d ∈ caps ↔ d ∈ caps') :
    IsMerged caps c ↔ IsMerged caps' c := by
  constructor
  · rintro ⟨hord, hscope, hactions⟩
    exact ⟨hord, by simpa only [← h] using hscope, by simpa only [← h] using hactions⟩
  · rintro ⟨hord, hscope, hactions⟩
    exact ⟨hord, by simpa only [h] using hscope, by simpa only [h] using hactions⟩

theorem distinct_normalize (caps : List Capability) : Distinct (normalize caps) where
  scopes := by
    rw [List.Nodup, List.pairwise_map]
    refine List.pairwise_maximal.imp_of_mem fun {c d} hc hd h hscope => h.1 ?_
    rw [(distinct_merged caps).eq_of_scope (List.mem_of_mem_maximal hc)
      (List.mem_of_mem_maximal hd) hscope]
    exact covers_refl d
  ordered c hc := (distinct_merged caps).ordered c (List.mem_of_mem_maximal hc)

theorem normalize_normalize (caps : List Capability) :
    normalize (normalize caps) = normalize caps := by
  have hmerge : (normalize caps).foldl mergeScope [] = normalize caps :=
    Distinct.foldl_mergeScope (distinct_normalize caps)
  have hpairwise : (normalize caps).Pairwise (List.Incomparable covers) := List.pairwise_maximal
  rw [normalize, hmerge, List.maximal_eq_self hpairwise]

end Capability

namespace Capabilities

open Capability

/-- A normalized list is canonical: different scopes, no entry that another one covers, sets of
actions, nothing left to normalize, and for lists of the same capabilities, in whatever order and
however often they stand there, the same entries. -/
theorem normalize_canonical (cs : Capabilities) :
    (cs.normalize.toVec.map scope).Nodup ∧
    (cs.normalize.toVec.Pairwise fun c d => ¬c.covers d ∧ ¬d.covers c) ∧
    (∀ c ∈ cs.normalize.toVec, Action.Ordered c.actions) ∧
    cs.normalize.normalize = cs.normalize ∧
    ∀ cs' : Capabilities, (∀ c, c ∈ cs'.toVec ↔ c ∈ cs.toVec) →
      ∀ c, c ∈ cs'.normalize.toVec ↔ c ∈ cs.normalize.toVec := by
  have hdistinct := distinct_normalize cs.toVec
  refine ⟨hdistinct.scopes, List.pairwise_maximal, hdistinct.ordered,
    congrArg mk (normalize_normalize cs.toVec), fun cs' h c => ?_⟩
  rw [normalize, normalize, mem_normalize, mem_normalize]
  simp only [IsMerged.congr h]

/-- A directory that may be written, a file in it that may be read, and the directory again. -/
def sampleCapabilities : Capabilities :=
  ⟨[⟨⟨"/pub/".toList, by decide⟩, [.write], by decide⟩,
    ⟨⟨"/pub/a".toList, by decide⟩, [.read], by decide⟩,
    ⟨⟨"/pub/".toList, by decide⟩, [.read], by decide⟩]⟩

/-- The directory and the file in it become one entry, in each order of the list. -/
theorem normalize_canonical_reverse :
    sampleCapabilities.normalize.toText = "/pub/:rw".toList ∧
    (∀ c, c ∈ sampleCapabilities.toVec.reverse ↔ c ∈ sampleCapabilities.toVec) ∧
    ∀ c, c ∈ (normalize ⟨sampleCapabilities.toVec.reverse⟩).toVec ↔
      c ∈ sampleCapabilities.normalize.toVec :=
  ⟨by decide +kernel, fun _ => List.mem_reverse,
    (normalize_canonical sampleCapabilities).2.2.2.2 _ fun _ => List.mem_reverse⟩

end Capabilities

/-! ## Text -/

namespace Action

/-- The actions that have a letter of their own. -/
def Known (a : Action) : Prop := tryFrom a.toChar = .ok a

theorem known_of_tryFrom {c : Char} {a : Action} (h : tryFrom c = .ok a) :
    a.toChar = c ∧ a.Known := by
  rw [tryFrom] at h
  split at h
  · cases h
    exact ⟨‹c = 'r'›.symm, rfl⟩
  · split at h
    · cases h
      exact ⟨‹c = 'w'›.symm, rfl⟩
    · split at h
      · cases h
        exact ⟨‹c = 'e'›.symm, rfl⟩
      · cases h

theorem Known.toChar_mem {a : Action} (h : a.Known) : a.toChar ∈ ['r', 'w', 'e'] := by
  cases a with
  | unknown c =>
    rw [Known, toChar, tryFrom] at h
    grind
  | _ => decide

/-- A set of actions is sorted for the search of any action. -/
theorem Ordered.sortedFor {actions : List Action} (h : Ordered actions) (a : Action) :
    Sorted.SortedFor (fun b => compare b.rank a.rank) actions := by
  refine h.imp fun {b c} hbc => ?_
  simp only [compare_lt_iff_lt, compare_gt_iff_gt]
  omega

end Action

namespace Capability

open Action

/-- What parsing establishes about the actions. -/
structure WellFormed (c : Capability) : Prop where
  ne_nil : c.actions ≠ []
  known : ∀ a ∈ c.actions, a.Known
  ordered : Ordered c.actions

/-- The loop over the letters keeps a set of known actions and never loses one. -/
theorem parseActions_ok {cs : Text} {acc actions : List Action}
    (h : parseActions acc cs = .ok actions) (hknown : ∀ a ∈ acc, a.Known) (hord : Ordered acc) :
    (∀ a ∈ actions, a.Known) ∧ Ordered actions ∧ (acc ≠ [] ∨ cs ≠ [] → actions ≠ []) := by
  induction cs generalizing acc with
  | nil =>
    cases h
    exact ⟨hknown, hord, by simp⟩
  | cons c cs ih =>
    obtain ⟨a, ha, h⟩ := Except.bind_ok_iff.1 h
    split at h
    · rename_i i hfound
      obtain ⟨b, hb, -⟩ := Sorted.binarySearchBy_ok hfound
      obtain ⟨hk, ho, hne⟩ := ih h hknown hord
      exact ⟨hk, ho, fun _ => hne (.inl (List.ne_nil_of_mem hb))⟩
    · rename_i i hmissing
      obtain ⟨hlow, hhigh⟩ := Sorted.binarySearchBy_error (hord.sortedFor a) hmissing
      have hknown' : ∀ b ∈ Sorted.insertAt acc i a, b.Known := by
        intro b hb
        rcases Sorted.mem_insertAt.1 hb with rfl | hb
        · exact (known_of_tryFrom ha).2
        · exact hknown b hb
      have hord' : Ordered (Sorted.insertAt acc i a) :=
        Sorted.pairwise_insertAt hord (fun b hb => compare_lt_iff_lt.1 (hlow b hb))
          fun b hb => compare_gt_iff_gt.1 (hhigh b hb)
      obtain ⟨hk, ho, hne⟩ := ih h hknown' hord'
      exact ⟨hk, ho, fun _ => hne (.inl (by simp [Sorted.insertAt]))⟩

/-- Letters in order are appended one by one. -/
theorem parseActions_toChar {acc actions : List Action} (hknown : ∀ a ∈ actions, a.Known)
    (hord : Ordered (acc ++ actions)) :
    parseActions acc (actions.map toChar) = .ok (acc ++ actions) := by
  induction actions generalizing acc with
  | nil => simp [parseActions]
  | cons a actions ih =>
    obtain ⟨ha, hknown⟩ := List.forall_mem_cons.1 hknown
    obtain ⟨hacc, -, hlow⟩ := List.pairwise_append.1 hord
    have hlt : ∀ b ∈ acc, b.rank < a.rank := fun b hb => hlow b hb a List.mem_cons_self
    rw [List.map_cons, parseActions, show tryFrom a.toChar = .ok a from ha]
    simp only [bind, Except.bind]
    split
    · rename_i i hfound
      obtain ⟨b, hb, heq⟩ := Sorted.binarySearchBy_ok hfound
      exact absurd (compare_eq_iff_eq.1 heq) (hlt b hb).ne
    · rename_i i hmissing
      -- nothing of the accumulator is greater, so the place of the action is its end
      have hdrop : acc.drop i = [] := by
        refine List.eq_nil_iff_forall_not_mem.2 fun b hb => ?_
        have hgt := (Sorted.binarySearchBy_error (Ordered.sortedFor hacc a) hmissing).2 b hb
        exact absurd (compare_gt_iff_gt.1 hgt) (hlt b (List.mem_of_mem_drop hb)).asymm
      have hinsert : Sorted.insertAt acc i a = acc ++ [a] := by
        rw [Sorted.insertAt, hdrop, List.take_of_length_le (List.drop_eq_nil_iff.1 hdrop)]
      rw [hinsert, ih hknown (by rwa [List.append_assoc]), List.append_assoc]
      rfl

theorem parseScope_eq_ok {scope : Text} {p : { p : StoragePath // NoDelimiter p.asStr }} :
    parseScope scope = .ok p ↔ p.1.asStr = scope := by
  obtain ⟨⟨text, hcanonical⟩, hcolon, hcomma⟩ := p
  constructor
  · intro h
    rw [parseScope] at h
    split at h
    · cases h
    · split at h
      · cases h
      · split at h
        · exact (congrArg (·.1.asStr) (Except.ok.inj h)).symm
        · cases h
  · rintro rfl
    rw [parseScope, dif_neg hcolon, dif_neg hcomma]
    split
    · rfl
    · rename_i e he
      rw [hcanonical] at he
      cases he

theorem wellFormed_of_fromStr {value : Text} {c : Capability} (h : fromStr value = .ok c) :
    c.WellFormed := by
  rw [fromStr] at h
  split at h
  · cases h
  · split at h
    · cases h
    · split at h
      · cases h
      · rename_i hne
        obtain ⟨actions, hactions, h⟩ := Except.bind_ok_iff.1 h
        obtain ⟨p, -, h⟩ := Except.bind_ok_iff.1 h
        cases h
        obtain ⟨hknown, hord, hnil⟩ := parseActions_ok hactions (by simp) List.Pairwise.nil
        exact ⟨hnil (.inr hne), hknown, hord⟩

/-- The other constructors give well-formed capabilities as well. -/
theorem wellFormed_of_withActions {scope : Text} {actions : List Action} {c : Capability}
    (hactions : actions ∈ [[.read], [.write], [.read, .write], [.encryptionKeys]])
    (h : withActions scope actions = .ok c) : c.WellFormed := by
  obtain ⟨p, -, h⟩ := Except.bind_ok_iff.1 h
  cases h
  simp only [List.mem_cons, List.not_mem_nil, or_false] at hactions
  rcases hactions with rfl | rfl | rfl | rfl <;>
    exact ⟨by simp, by simp [Known, tryFrom, toChar], by simp [Ordered, rank]⟩

/-- The letters of known actions contain no delimiter. -/
theorem WellFormed.noDelimiter_actions {c : Capability} (h : c.WellFormed) :
    NoDelimiter (c.actions.map toChar) := by
  have hletters : ∀ x ∈ c.actions.map toChar, x ∈ ['r', 'w', 'e'] := by
    intro x hx
    obtain ⟨a, ha, rfl⟩ := List.mem_map.1 hx
    exact (h.known a ha).toChar_mem
  exact ⟨fun hx => absurd (hletters _ hx) (by decide),
    fun hx => absurd (hletters _ hx) (by decide)⟩

/-- A well-formed capability is read back from its text. -/
theorem fromStr_toText {c : Capability} (h : c.WellFormed) : fromStr c.toText = .ok c := by
  have hactions : parseActions [] (c.actions.map toChar) = .ok c.actions :=
    parseActions_toChar h.known h.ordered
  have hscope : parseScope c.scope.asStr = .ok ⟨c.scope, c.noDelimiter⟩ := parseScope_eq_ok.2 rfl
  have hsplit : Text.splitOnce ':' c.toText = some (c.scope.asStr, c.actions.map toChar) :=
    Text.splitOnce_append c.noDelimiter.1
  rw [fromStr, hsplit]
  change (if ':' ∈ c.actions.map toChar then _ else _) = _
  rw [if_neg h.noDelimiter_actions.1, if_neg (by simpa using h.ne_nil), hactions]
  change (parseScope c.scope.asStr >>= _) = _
  rw [hscope]
  rfl

theorem WellFormed.withActionSet {c : Capability} (h : c.WellFormed) {actions : List Action}
    (hknown : ∀ a ∈ actions, a.Known) :
    (c.withActionSet (c.actions ++ actions)).WellFormed where
  ne_nil := by
    obtain ⟨a, ha⟩ := List.exists_mem_of_ne_nil _ h.ne_nil
    exact List.ne_nil_of_mem (mem_set.2 (List.mem_append_left actions ha))
  known a ha := (List.mem_append.1 (mem_set.1 ha)).elim (h.known a) (hknown a)
  ordered := ordered_set _

theorem WellFormed.mergeScope {merged : List Capability} {cap : Capability}
    (hmerged : ∀ c ∈ merged, c.WellFormed) (hcap : cap.WellFormed) :
    ∀ c ∈ mergeScope merged cap, c.WellFormed := by
  have hset : (cap.withActionSet (cap.actions ++ [])).WellFormed := hcap.withActionSet (by simp)
  rw [List.append_nil] at hset
  exact List.forall_upsert hmerged (fun c _ hc => hc.withActionSet hcap.known) hset

/-- Normalizing keeps the capabilities well formed. -/
theorem WellFormed.normalize {caps : List Capability} (h : ∀ c ∈ caps, c.WellFormed) :
    ∀ c ∈ normalize caps, c.WellFormed := by
  suffices ∀ merged : List Capability, (∀ c ∈ merged, c.WellFormed) →
      ∀ c ∈ caps.foldl Capability.mergeScope merged, c.WellFormed from
    fun c hc => this [] (by simp) c (List.mem_of_mem_maximal hc)
  induction caps with
  | nil => exact fun merged hmerged => hmerged
  | cons cap caps ih =>
    obtain ⟨hcap, hcaps⟩ := List.forall_mem_cons.1 h
    exact fun merged hmerged => ih hcaps _ (WellFormed.mergeScope hmerged hcap)

end Capability

namespace Capabilities

theorem wellFormed_of_parseEntries {entries : List Text} {i : ℕ} {caps : List Capability}
    (h : parseEntries i entries = .ok caps) : ∀ c ∈ caps, c.WellFormed := by
  induction entries generalizing i caps with
  | nil =>
    cases h
    simp
  | cons entry entries ih =>
    rw [parseEntries] at h
    split at h
    · cases h
    · rename_i cap hcap
      obtain ⟨rest, hrest, h⟩ := Except.bind_ok_iff.1 h
      cases h
      exact List.forall_mem_cons.2 ⟨Capability.wellFormed_of_fromStr hcap, ih hrest⟩

/-- Every entry of a parsed list is well formed. -/
theorem wellFormed_of_fromStr {value : Text} {cs : Capabilities} (h : fromStr value = .ok cs) :
    ∀ c ∈ cs.toVec, c.WellFormed := by
  rw [fromStr] at h
  split at h
  · cases h
    simp
  · obtain ⟨caps, hcaps, h⟩ := Except.bind_ok_iff.1 h
    cases h
    exact wellFormed_of_parseEntries hcaps

theorem parseEntries_toText {caps : List Capability} (h : ∀ c ∈ caps, c.WellFormed) (i : ℕ) :
    parseEntries i (caps.map Capability.toText) = .ok caps := by
  induction caps generalizing i with
  | nil => rfl
  | cons c caps ih =>
    obtain ⟨hc, hcaps⟩ := List.forall_mem_cons.1 h
    rw [List.map_cons, parseEntries, Capability.fromStr_toText hc]
    change (parseEntries (i + 1) (caps.map Capability.toText) >>= _) = _
    rw [ih hcaps]
    rfl

/-- A list of well-formed capabilities is read back from its text. -/
theorem fromStr_toText {cs : Capabilities} (h : ∀ c ∈ cs.toVec, c.WellFormed) :
    fromStr cs.toText = .ok cs := by
  obtain ⟨caps⟩ := cs
  cases caps with
  | nil => rfl
  | cons c caps =>
    have hcomma : ∀ entry ∈ (c :: caps).map Capability.toText, ',' ∉ entry := by
      intro entry hentry
      obtain ⟨d, hd, rfl⟩ := List.mem_map.1 hentry
      simp only [Capability.toText, List.mem_append, List.mem_cons, not_or]
      exact ⟨d.noDelimiter.2, by decide, (h d hd).noDelimiter_actions.2⟩
    have hsplit : (toText ⟨c :: caps⟩).splitOn ',' = (c :: caps).map Capability.toText :=
      Text.splitOn_join hcomma (by simp)
    have hne : toText ⟨c :: caps⟩ ≠ [] := by
      intro hnil
      rw [hnil] at hsplit
      have hentry := (List.cons.inj hsplit).1
      simp [Capability.toText] at hentry
    rw [fromStr, if_neg hne, hsplit, parseEntries_toText h]
    rfl

end Capabilities

/-! ## What the interface can build -/

mutual

/-- A capability that the public constructors, the parser or the entries of a list give. -/
inductive Capability.Built : Capability → Prop
  | root : Capability.Built .root
  | read {scope : Text} {c : Capability} :
      Capability.read scope = .ok c → Capability.Built c
  | write {scope : Text} {c : Capability} :
      Capability.write scope = .ok c → Capability.Built c
  | readWrite {scope : Text} {c : Capability} :
      Capability.readWrite scope = .ok c → Capability.Built c
  | encryptionKeys {scope : Text} {c : Capability} :
      Capability.encryptionKeys scope = .ok c → Capability.Built c
  | parsed {value : Text} {c : Capability} :
      Capability.fromStr value = .ok c → Capability.Built c
  | entry {cs : Capabilities} {c : Capability} :
      Capabilities.Built cs → c ∈ cs.toVec → Capability.Built c

/-- A state of the fluent builder. -/
inductive CapsBuilder.Built : CapsBuilder → Prop
  | new : CapsBuilder.Built {}
  | cap {b : CapsBuilder} {c : Capability} :
      CapsBuilder.Built b → Capability.Built c → CapsBuilder.Built (b.cap c)
  | read {b b' : CapsBuilder} {scope : Text} :
      CapsBuilder.Built b → b.read scope = .ok b' → CapsBuilder.Built b'
  | write {b b' : CapsBuilder} {scope : Text} :
      CapsBuilder.Built b → b.write scope = .ok b' → CapsBuilder.Built b'
  | readWrite {b b' : CapsBuilder} {scope : Text} :
      CapsBuilder.Built b → b.readWrite scope = .ok b' → CapsBuilder.Built b'
  | encryptionKeys {b b' : CapsBuilder} {scope : Text} :
      CapsBuilder.Built b → b.encryptionKeys scope = .ok b' → CapsBuilder.Built b'
  | extend {b : CapsBuilder} {caps : List Capability} :
      CapsBuilder.Built b → (∀ c ∈ caps, Capability.Built c) → CapsBuilder.Built (b.extend caps)

/-- A list of capabilities from a vector, the parser, the builder or normalization. -/
inductive Capabilities.Built : Capabilities → Prop
  | fromVec {caps : List Capability} :
      (∀ c ∈ caps, Capability.Built c) → Capabilities.Built ⟨caps⟩
  | parsed {value : Text} {cs : Capabilities} :
      Capabilities.fromStr value = .ok cs → Capabilities.Built cs
  | finish {b : CapsBuilder} : CapsBuilder.Built b → Capabilities.Built b.finish
  | normalize {cs : Capabilities} : Capabilities.Built cs → Capabilities.Built cs.normalize

end

/-- The builder's shortcuts push what the constructors of a capability give. -/
theorem CapsBuilder.wellFormed_of_map {b b' : CapsBuilder} {scope : Text} {actions : List Action}
    (hactions : actions ∈ [[.read], [.write], [.read, .write], [.encryptionKeys]])
    (hb : ∀ c ∈ b.caps, c.WellFormed)
    (h : b.cap <$> Capability.withActions scope actions = .ok b') :
    ∀ c ∈ b'.caps, c.WellFormed := by
  cases hcap : Capability.withActions scope actions with
  | error e =>
    rw [hcap] at h
    cases h
  | ok cap =>
    rw [hcap] at h
    cases h
    refine List.forall_mem_append.2 ⟨hb, List.forall_mem_singleton.2 ?_⟩
    exact Capability.wellFormed_of_withActions hactions hcap

mutual

theorem Capability.Built.wellFormed {c : Capability} : c.Built → c.WellFormed
  | .root => Capability.wellFormed_of_withActions (by simp)
      (show Capability.readWrite ['/'] = .ok .root by decide)
  | .read h => Capability.wellFormed_of_withActions (by simp) h
  | .write h => Capability.wellFormed_of_withActions (by simp) h
  | .readWrite h => Capability.wellFormed_of_withActions (by simp) h
  | .encryptionKeys h => Capability.wellFormed_of_withActions (by simp) h
  | .parsed h => Capability.wellFormed_of_fromStr h
  | .entry hcs hc => hcs.wellFormed _ hc

theorem CapsBuilder.Built.wellFormed {b : CapsBuilder} : b.Built → ∀ c ∈ b.caps, c.WellFormed
  | .new => by simp
  | .cap hb hc =>
    List.forall_mem_append.2 ⟨hb.wellFormed, List.forall_mem_singleton.2 hc.wellFormed⟩
  | .read hb h => CapsBuilder.wellFormed_of_map (by simp) hb.wellFormed h
  | .write hb h => CapsBuilder.wellFormed_of_map (by simp) hb.wellFormed h
  | .readWrite hb h => CapsBuilder.wellFormed_of_map (by simp) hb.wellFormed h
  | .encryptionKeys hb h => CapsBuilder.wellFormed_of_map (by simp) hb.wellFormed h
  | .extend hb hcs => List.forall_mem_append.2 ⟨hb.wellFormed, fun c hc => (hcs c hc).wellFormed⟩

theorem Capabilities.Built.wellFormed {cs : Capabilities} :
    cs.Built → ∀ c ∈ cs.toVec, c.WellFormed
  | .fromVec hcaps => fun c hc => (hcaps c hc).wellFormed
  | .parsed h => Capabilities.wellFormed_of_fromStr h
  | .finish hb => Capability.WellFormed.normalize hb.wellFormed
  | .normalize hcs => Capability.WellFormed.normalize hcs.wellFormed

end

namespace Capabilities

/-- Every list that the interface can build is read back from its text, and so is every list
that was parsed from some text. -/
theorem text_round_trip :
    (∀ cs : Capabilities, cs.Built → fromStr cs.toText = .ok cs) ∧
    ∀ (value : Text) (cs : Capabilities), fromStr value = .ok cs → fromStr cs.toText = .ok cs :=
  ⟨fun _ h => fromStr_toText h.wellFormed, fun _ _ h => fromStr_toText (wellFormed_of_fromStr h)⟩

/-- A list with a scope outside ASCII, in which the parser orders the actions. -/
theorem text_round_trip_unicode :
    (fromStr "/pub/ü €/:wr,/pub/a:e".toList).map toText = .ok "/pub/ü €/:rw,/pub/a:e".toList ∧
    ∀ cs, fromStr "/pub/ü €/:wr,/pub/a:e".toList = .ok cs →
      cs.Built ∧ fromStr cs.toText = .ok cs ∧
        fromStr cs.normalize.toText = .ok cs.normalize :=
  ⟨by decide +kernel, fun cs h => ⟨.parsed h, text_round_trip.2 _ cs h,
    text_round_trip.1 _ (.normalize (.parsed h))⟩⟩

end Capabilities

end Pubky
