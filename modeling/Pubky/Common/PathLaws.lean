import Mathlib.Data.List.Infix
import Pubky.Common.StoragePath

/-!
# Laws of storage paths

`StoragePath::normalize` and `StoragePath::covers_path` against what they are for.

* `Resolution.resolve` is the usual resolution of a path text with a stack of open segments. It
  knows nothing of lengths and characters: where `normalize` succeeds it computes the same text
  (`resolve_of_normalizeText`), and `normalize_retraction` adds that it changes no canonical path.
* A canonical path is its segments and whether it is a directory
  (`StoragePath.asStr_eq_canonicalText`), so that the test of a text prefix in `covers_path` is
  containment of the segments: `coversPath_tree_order`.
-/

namespace Pubky

/-! ## The reference resolution -/

namespace Resolution

/-- One piece of a path text, on the stack of open segments with the innermost first. The stack
of the root is empty: there is nothing above it. -/
def visit (stack : List Text) (piece : Text) : Option (List Text) :=
  if piece = [] ∨ piece = ".".toList then some stack
  else if piece = "..".toList then stack.tail?
  else some (piece :: stack)

/-- The forms of a path text that name a directory. -/
def directoryForm (path : Text) : Bool :=
  (path.splitOn '/').getLast?.any fun piece => piece ∈ [[], ".".toList, "..".toList]

/-- Each open segment behind a slash, and one more slash for a directory below the root. -/
def resolve (path : Text) : Option Text := do
  let stack ← (path.splitOn '/').foldlM visit []
  if stack = [] then return ['/']
  let text := stack.reverse.flatMap fun segment => '/' :: segment
  return if directoryForm path then text ++ ['/'] else text

/-- The loop of `normalize` runs the reference, with the stack the other way round. -/
theorem foldlM_visit {acc pieces segments : List Text}
    (h : normalizeSegments acc pieces = .ok segments) :
    pieces.foldlM visit acc.reverse = some segments.reverse := by
  induction pieces generalizing acc with
  | nil =>
    cases h
    rfl
  | cons piece pieces ih =>
    simp only [normalizeSegments] at h
    rw [List.foldlM_cons, visit]
    split at h
    · rename_i hskip
      rw [if_pos hskip]
      exact ih h
    · rename_i hskip
      rw [if_neg hskip]
      split at h
      · rename_i hdots
        rw [if_pos hdots]
        split at h
        · cases h
        · rename_i hne
          obtain ⟨outer, last, rfl⟩ := (List.eq_nil_or_concat' acc).resolve_left hne
          rw [List.dropLast_concat] at h
          rw [List.reverse_concat]
          exact ih h
      · rename_i hdots
        rw [if_neg hdots]
        obtain ⟨_, -, h⟩ := Except.bind_ok_iff.1 h
        have hstack := ih h
        rwa [List.reverse_concat] at hstack

theorem directoryForm_eq {path : Text} (hne : path ≠ []) :
    directoryForm path = directoryShaped path := by
  have hends := Text.endsWith_iff_getLast?_splitOn (c := '/') hne
  rw [directoryForm, directoryShaped, Bool.eq_iff_iff, Bool.or_eq_true, hends]
  cases (path.splitOn '/').getLast? with
  | none => simp
  | some piece => simp

/-- The canonical text of segments has each of them behind a slash. -/
theorem canonicalText_eq_flatMap {ss : List Text} {d : Bool} (hne : ss ≠ [])
    (hss : ∀ s ∈ ss, GoodSegment s) :
    canonicalText ss d = (ss.flatMap fun s => '/' :: s) ++ if d then ['/'] else [] := by
  have hjoin : ∀ ss : List Text, ss ≠ [] →
      '/' :: Text.join '/' ss = ss.flatMap fun s => '/' :: s := by
    intro ss
    induction ss with
    | nil => exact fun hne => absurd rfl hne
    | cons s ss ih =>
      intro _
      cases ss with
      | nil => simp [Text.join]
      | cons t ss =>
        rw [Text.join_cons_cons, ih (by simp)]
        rfl
  rw [canonicalText_of_ne_nil hne hss, hjoin _ (by split <;> simp [hne])]
  cases d <;> simp

theorem resolve_of_normalizeText {path p : Text} (h : normalizeText path = .ok p) :
    resolve path = some p := by
  simp only [normalizeText] at h
  split at h
  · cases h
  rename_i hhead
  obtain ⟨ss, hss, h⟩ := Except.bind_ok_iff.1 h
  obtain ⟨_, -, h⟩ := Except.bind_ok_iff.1 h
  obtain ⟨_, -, h⟩ := Except.bind_ok_iff.1 h
  cases h
  have hne : path ≠ [] := by
    rintro rfl
    simp at hhead
  have hgood := normalizeSegments_good (by simp)
    (fun s hs => Text.not_mem_of_mem_splitOn (List.mem_of_mem_drop hs)) hss
  -- the piece before the first slash is empty
  have hpieces : (path.splitOn '/').foldlM visit [] = some ss.reverse := by
    obtain ⟨rest, rfl⟩ : ∃ rest, path = '/' :: rest := by
      obtain ⟨c, rest, rfl⟩ := List.exists_cons_of_ne_nil hne
      simp only [List.head?_cons, Option.some.injEq, not_not] at hhead
      exact ⟨rest, hhead ▸ rfl⟩
    have hsplit : ('/' :: rest).splitOn '/' = [] :: rest.splitOn '/' :=
      Text.splitOn_append (t := []) (by simp)
    rw [hsplit] at hss ⊢
    exact foldlM_visit hss
  rw [resolve, hpieces]
  simp only [Option.bind_eq_bind, Option.bind_some, List.reverse_eq_nil_iff, List.reverse_reverse,
    directoryForm_eq hne]
  split
  · rename_i hnil
    simp [hnil, canonicalText, Text.join]
  · rename_i hsegments
    rw [canonicalText_eq_flatMap hsegments hgood]
    cases directoryShaped path <;> simp

end Resolution

/-- Normalization is a retraction onto the canonical paths, and resolves a path as the reference
does. -/
theorem normalize_retraction (s : Text) :
    (∀ p, StoragePath.normalize s = .ok p →
      StoragePath.new p.asStr = .ok p ∧ StoragePath.normalize p.asStr = .ok p ∧
        Resolution.resolve s = some p.asStr) ∧
    ∀ p, StoragePath.new s = .ok p → p.asStr = s ∧ StoragePath.normalize s = .ok p := by
  constructor
  · intro p h
    refine ⟨p.new_asStr, p.normalize_asStr, Resolution.resolve_of_normalizeText ?_⟩
    rw [StoragePath.normalize] at h
    split at h
    · rename_i t ht
      cases h
      exact ht
    · cases h
  · intro p h
    obtain rfl := StoragePath.asStr_of_new h
    exact ⟨rfl, p.normalize_asStr⟩

/-- `/a//./b/../c/..` is the directory `/a/`. -/
theorem normalize_retraction_dots :
    (StoragePath.normalize "/a//./b/../c/..".toList).map StoragePath.asStr = .ok "/a/".toList ∧
    (∀ p, StoragePath.normalize "/a//./b/../c/..".toList = .ok p →
      Resolution.resolve "/a//./b/../c/..".toList = some p.asStr) ∧
    ∀ p, StoragePath.new "/a/".toList = .ok p → StoragePath.normalize "/a/".toList = .ok p :=
  ⟨by decide +kernel, fun p h => ((normalize_retraction _).1 p h).2.2,
    fun p h => ((normalize_retraction _).2 p h).2⟩

/-! ## Segments -/

namespace StoragePath

variable {a b : StoragePath}

/-- The segments of a path: what stands between its slashes. -/
def segments (p : StoragePath) : List Text := (p.asStr.splitOn '/').filter (· ≠ [])

/-- A canonical path is the text of its segments. -/
theorem asStr_eq_canonicalText (p : StoragePath) :
    (∀ s ∈ p.segments, GoodSegment s) ∧ p.asStr = canonicalText p.segments p.isDirectory := by
  by_cases hroot : p.asStr = ['/']
  · have hsegments : p.segments = [] := by
      rw [segments, hroot]
      decide
    simp [hsegments, hroot, canonicalText, Text.join]
  · obtain ⟨ss, d, hne, hss, htext⟩ := p.exists_canonicalText hroot
    have hkeep : ss.filter (· ≠ []) = ss :=
      List.filter_eq_self.2 fun s hs => by simpa using (hss s hs).ne_nil
    have hsegments : p.segments = ss := by
      rw [segments, htext, splitOn_canonicalText hne hss]
      cases d <;> simpa using hkeep
    have hdirectory : p.isDirectory = d := by
      rw [isDirectory, htext, endsWith_canonicalText hne hss]
    rw [hsegments, hdirectory]
    exact ⟨hss, htext⟩

theorem segments_append {t u : Text} {p q : StoragePath} (hp : p.asStr = t ++ ['/'])
    (hq : q.asStr = t ++ '/' :: u) :
    q.segments = p.segments ++ (u.splitOn '/').filter (· ≠ []) := by
  rw [segments, segments, hp, hq, Text.splitOn_append_cons, Text.splitOn_append_cons]
  simp

/-- A directory and a file of the same segments differ by the slash at the end. -/
theorem length_le_of_segments (hsegments : a.segments = b.segments) (hdir : a.isDirectory) :
    b.asStr.length ≤ a.asStr.length := by
  rw [a.asStr_eq_canonicalText.2, b.asStr_eq_canonicalText.2, hsegments, hdir]
  cases b.isDirectory with
  | true => exact Nat.le_refl _
  | false =>
    rw [canonicalText, canonicalText, Bool.false_and, if_neg Bool.false_ne_true]
    split <;> simp

/-- The test of a text prefix is containment of the segments. -/
theorem coversPath_iff :
    a.coversPath b ↔ a = b ∨
      (a.isDirectory ∧ a.segments <+: b.segments ∧ a.segments ≠ b.segments) := by
  rw [coversPath, Bool.or_eq_true, decide_eq_true_iff, Bool.and_eq_true, List.isPrefixOf_iff_prefix]
  constructor
  · rintro (rfl | ⟨hdir, hpre⟩)
    · exact .inl rfl
    · by_cases hsegments : a.segments = b.segments
      · exact .inl (StoragePath.ext (hpre.eq_of_length_le (length_le_of_segments hsegments hdir)))
      · obtain ⟨t, ht⟩ := Text.endsWith_iff.1 hdir
        obtain ⟨u, hu⟩ := hpre
        rw [ht, List.append_assoc, List.singleton_append] at hu
        exact .inr ⟨hdir, ⟨_, (segments_append ht hu.symm).symm⟩, hsegments⟩
  · rintro (rfl | ⟨hdir, ⟨inner, hinner⟩, hne⟩)
    · exact .inl rfl
    · refine .inr ⟨hdir, ?_⟩
      obtain ⟨hgood, htext⟩ := b.asStr_eq_canonicalText
      obtain ⟨s, inner, rfl⟩ : ∃ s rest, inner = s :: rest :=
        List.exists_cons_of_ne_nil fun hnil => hne (by rw [← hinner, hnil, List.append_nil])
      by_cases hroot : a.segments = []
      · have ha : a.asStr = ['/'] := by
          rw [a.asStr_eq_canonicalText.2, hroot]
          simp [canonicalText, Text.join]
        obtain ⟨rest, hrest⟩ := b.eq_cons
        rw [ha, hrest]
        exact ⟨rest, rfl⟩
      · rw [htext, a.asStr_eq_canonicalText.2, hdir, ← hinner,
          Resolution.canonicalText_eq_flatMap hroot a.asStr_eq_canonicalText.1,
          Resolution.canonicalText_eq_flatMap (by simp) (hinner ▸ hgood), List.flatMap_append,
          List.append_assoc]
        exact List.prefix_append_right_inj _ |>.2 ⟨_, rfl⟩

/-- Coverage is the order of a tree, in which a directory contains what has its segments and
more. -/
theorem coversPath_tree_order :
    (∀ a : StoragePath, a.coversPath a) ∧
    (∀ a b c : StoragePath, a.coversPath b → b.coversPath c → a.coversPath c) ∧
    (∀ a b : StoragePath, a.coversPath b → b.coversPath a → a = b) ∧
    (∀ a b : StoragePath, a.coversPath b ↔
      a = b ∨ (a.isDirectory ∧ a.segments <+: b.segments ∧ a.segments ≠ b.segments)) ∧
    ∀ a b p : StoragePath, a.isDirectory → b.isDirectory → a.coversPath p → b.coversPath p →
      a.coversPath b ∨ b.coversPath a :=
  ⟨coversPath_refl, fun _ _ _ => coversPath_trans, fun _ _ => coversPath_antisymm,
    fun _ _ => coversPath_iff, fun _ _ _ _ _ => coversPath_total⟩

/-- Two directories around a file. -/
theorem coversPath_tree_order_app :
    let pub : StoragePath := ⟨"/pub/".toList, by decide⟩
    let app : StoragePath := ⟨"/pub/app/".toList, by decide⟩
    let file : StoragePath := ⟨"/pub/app/a".toList, by decide⟩
    (pub.coversPath app ∧ app.coversPath file) ∧ pub.coversPath file ∧
      (pub.coversPath app ∨ app.coversPath pub) :=
  have hpub : StoragePath.coversPath ⟨"/pub/".toList, by decide⟩ ⟨"/pub/app/".toList, by decide⟩ :=
    by decide
  have happ : StoragePath.coversPath ⟨"/pub/app/".toList, by decide⟩
      ⟨"/pub/app/a".toList, by decide⟩ := by decide
  have hfile := coversPath_tree_order.2.1 _ _ _ hpub happ
  ⟨⟨hpub, happ⟩, hfile, coversPath_tree_order.2.2.2.2 _ _ _ (by decide) (by decide) hfile happ⟩

end StoragePath

end Pubky
