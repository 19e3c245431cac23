import Pubky.Common.Normalization

/-!
# The migration that sanitizes stored capabilities

`pubky-homeserver/src/persistence/sql/migrations/m20260723_sanitize_capabilities.rs`: batch by
batch, in the order of their ids, sessions whose capabilities do not parse are deleted and the
capabilities of the others are normalized.

* `normalization_keeps_permissions`: neither normalizing a list, finishing a builder nor
  normalizing a stored text changes what is permitted.
* `sanitizeSessions_eq`: the loop ends and has then treated every session.
* `batches_eq`: the batches of a run together are the sessions in the order of their ids.
* `migration_treats_each_once`: every session is read once and deleted or normalized.
-/

namespace Pubky.Homeserver.Migrations

def normalizeCapabilities (value : Text) : Option Text :=
  match Capabilities.fromStr value with
  | .ok capabilities => some capabilities.normalize.toText
  | .error _ => none

/-- The normalized text of a list that parses is the text of the normalized list. -/
theorem fromStr_normalizeCapabilities {value : Text} {cs : Capabilities}
    (h : Capabilities.fromStr value = .ok cs) :
    ∃ text, normalizeCapabilities value = some text ∧
      Capabilities.fromStr text = .ok cs.normalize := by
  refine ⟨cs.normalize.toText, by rw [normalizeCapabilities, h], ?_⟩
  exact Capabilities.fromStr_toText
    (Capability.WellFormed.normalize (Capabilities.wellFormed_of_fromStr h))

/-- Normalization permits an action on a path if and only if the original does: of a list, of
what a builder has collected, and of every stored text that parses. -/
theorem normalization_keeps_permissions :
    (∀ (cs : Capabilities) (path : StoragePath) (action : Action),
      cs.normalize.permits path action ↔ cs.permits path action) ∧
    (∀ (b : CapsBuilder) (path : StoragePath) (action : Action),
      b.finish.permits path action ↔ (Capabilities.mk b.caps).permits path action) ∧
    (∀ (value : Text) (cs : Capabilities), Capabilities.fromStr value = .ok cs →
      ∃ text normalized, normalizeCapabilities value = some text ∧
        Capabilities.fromStr text = .ok normalized ∧
        ∀ (path : StoragePath) (action : Action),
          normalized.permits path action ↔ cs.permits path action) := by
  refine ⟨fun cs path action => ?_, fun b path action => ?_, fun value cs h => ?_⟩
  · rw [Capabilities.permits_normalize]
  · rw [CapsBuilder.finish, Capabilities.permits_normalize]
  · obtain ⟨text, htext, hparse⟩ := fromStr_normalizeCapabilities h
    refine ⟨text, cs.normalize, htext, hparse, fun path action => ?_⟩
    rw [Capabilities.permits_normalize]

/-- A stored text whose entries are merged and partly covered. -/
theorem normalization_keeps_permissions_sample :
    ∃ text normalized,
      normalizeCapabilities "/pub/a:w,/pub/a:r,/pub/:rw".toList = some text ∧
        Capabilities.fromStr text = .ok normalized ∧
        ∀ (path : StoragePath) (action : Action), normalized.permits path action ↔
          (Capabilities.mk
            [⟨⟨"/pub/a".toList, by decide⟩, [.write], by decide⟩,
              ⟨⟨"/pub/a".toList, by decide⟩, [.read], by decide⟩,
              ⟨⟨"/pub/".toList, by decide⟩, [.read, .write], by decide⟩]).permits path action :=
  normalization_keeps_permissions.2.2 _ _ (by decide +kernel)

/-! ## The loop over the sessions -/

def batchSize : ℕ := 1000

/-- A row of `sessions`. -/
structure SessionRow where
  id : ℤ
  secret : Text
  user : ℤ
  capabilities : Text
  createdAt : ℤ
  deriving DecidableEq

/-- `SELECT … WHERE id > $1 ORDER BY id LIMIT $2` -/
def selectAfter (sessions : List SessionRow) (lastId : ℤ) (limit : ℕ) : List SessionRow :=
  ((sessions.filter fun r => lastId < r.id).insertionSort fun r s => r.id ≤ s.id).take limit

/-- What the loop over one batch collects. -/
structure Batch where
  lastId : ℤ
  updates : List (ℤ × Text) := []
  invalidIds : List ℤ := []

def Batch.add (b : Batch) (row : SessionRow) : Batch :=
  match normalizeCapabilities row.capabilities with
  | some normalized =>
    if normalized ≠ row.capabilities then
      { b with lastId := row.id, updates := b.updates ++ [(row.id, normalized)] }
    else { b with lastId := row.id }
  | none => { b with lastId := row.id, invalidIds := b.invalidIds ++ [row.id] }

/-- The `UPDATE` of the changed texts, then the `DELETE` of the invalid sessions. -/
def Batch.apply (b : Batch) (sessions : List SessionRow) : List SessionRow :=
  let updated := sessions.map fun r =>
    match b.updates.lookup r.id with
    | some value => { r with capabilities := value }
    | none => r
  updated.filter fun r => r.id ∉ b.invalidIds

/-- The loop, with a bound on the number of batches. -/
def sanitizeFrom (limit : ℕ) : ℕ → ℤ → List SessionRow → Option (List SessionRow)
  | 0, _, _ => none
  | fuel + 1, lastId, sessions =>
    match selectAfter sessions lastId limit with
    | [] => some sessions
    | row :: rows =>
      let b := (row :: rows).foldl Batch.add { lastId := lastId }
      sanitizeFrom limit fuel b.lastId (b.apply sessions)

def sanitizeSessions (limit fuel : ℕ) (sessions : List SessionRow) : Option (List SessionRow) :=
  sanitizeFrom limit fuel 0 sessions

/-- `MigrationTrait::up` -/
def up (fuel : ℕ) (sessions : List SessionRow) : Option (List SessionRow) :=
  sanitizeSessions batchSize fuel sessions

/-- The batches that the loop reads. -/
def batchesFrom (limit : ℕ) : ℕ → ℤ → List SessionRow → List (List SessionRow)
  | 0, _, _ => []
  | fuel + 1, lastId, sessions =>
    match selectAfter sessions lastId limit with
    | [] => []
    | row :: rows =>
      let b := (row :: rows).foldl Batch.add { lastId := lastId }
      (row :: rows) :: batchesFrom limit fuel b.lastId (b.apply sessions)

/-- What the migration does with one session. -/
def sanitizeRow (r : SessionRow) : Option SessionRow :=
  (normalizeCapabilities r.capabilities).map fun value => { r with capabilities := value }

/-! ### One batch -/

namespace Batch

variable {b : Batch} {row r : SessionRow} {rows : List SessionRow}

/-- What the statements of a batch make of one row. -/
def treat (b : Batch) (r : SessionRow) : Option SessionRow :=
  if r.id ∈ b.invalidIds then none
  else some { r with capabilities := (b.updates.lookup r.id).getD r.capabilities }

/-- No statement of the batch is about the id. -/
def Fresh (b : Batch) (id : ℤ) : Prop := b.updates.lookup id = none ∧ id ∉ b.invalidIds

theorem apply_eq (b : Batch) (sessions : List SessionRow) :
    b.apply sessions = sessions.filterMap b.treat := by
  rw [apply, ← List.filterMap_eq_filter, List.filterMap_map]
  refine List.filterMap_congr fun r _ => ?_
  cases hl : b.updates.lookup r.id <;> by_cases hi : r.id ∈ b.invalidIds <;>
    simp [treat, Option.guard, hl, hi]

theorem lastId_add : (b.add row).lastId = row.id := by
  rw [add]
  split
  · split <;> rfl
  · rfl

theorem add_of_ne (h : row.id ≠ r.id) :
    (b.add row).updates.lookup r.id = b.updates.lookup r.id ∧
      (r.id ∈ (b.add row).invalidIds ↔ r.id ∈ b.invalidIds) := by
  have hbeq : (r.id == row.id) = false := by simpa using h.symm
  rw [add]
  split
  · split
    · simp [List.lookup_append, List.lookup_cons, hbeq]
    · exact ⟨rfl, Iff.rfl⟩
  · simp [h.symm]

theorem treat_add_of_ne (h : row.id ≠ r.id) : (b.add row).treat r = b.treat r := by
  rw [treat, treat, (add_of_ne h).1]
  simp only [(add_of_ne h).2]

theorem Fresh.add (hfresh : b.Fresh r.id) (h : row.id ≠ r.id) : (b.add row).Fresh r.id :=
  ⟨(add_of_ne h).1.trans hfresh.1, mt (add_of_ne h).2.1 hfresh.2⟩

theorem treat_add_self (hfresh : b.Fresh r.id) : (b.add r).treat r = sanitizeRow r := by
  rw [Batch.add, sanitizeRow]
  split
  · rename_i normalized hnorm
    split
    · simp [treat, hnorm, hfresh.2, List.lookup_append, hfresh.1]
    · -- an unchanged text needs no statement
      rename_i heq
      simp [treat, hnorm, hfresh.1, hfresh.2, not_not.1 heq]
  · rename_i hnorm
    simp [treat, hnorm]

theorem treat_foldl_of_not_mem (h : ∀ row ∈ rows, row.id ≠ r.id) :
    (rows.foldl Batch.add b).treat r = b.treat r := by
  induction rows generalizing b with
  | nil => rfl
  | cons row rows ih =>
    obtain ⟨hrow, hrows⟩ := List.forall_mem_cons.1 h
    rw [List.foldl_cons, ih hrows, treat_add_of_ne hrow]

theorem treat_foldl_of_mem (hrows : rows.Pairwise fun r s => r.id < s.id) (hr : r ∈ rows)
    (hfresh : b.Fresh r.id) : (rows.foldl Batch.add b).treat r = sanitizeRow r := by
  induction rows generalizing b with
  | nil => exact absurd hr List.not_mem_nil
  | cons row rows ih =>
    obtain ⟨hlow, hrows⟩ := List.pairwise_cons.1 hrows
    rw [List.foldl_cons]
    rcases List.mem_cons.1 hr with rfl | hr
    · rw [treat_foldl_of_not_mem fun s hs => (hlow s hs).ne', treat_add_self hfresh]
    · exact ih hrows hr (hfresh.add (hlow r hr).ne)

/-- The cursor after a batch is the id of its last row, the greatest one. -/
theorem lastId_foldl (hrows : rows.Pairwise fun r s => r.id < s.id) (hne : rows ≠ []) :
    (∃ r ∈ rows, r.id = (rows.foldl Batch.add b).lastId) ∧
      ∀ r ∈ rows, r.id ≤ (rows.foldl Batch.add b).lastId := by
  obtain ⟨init, last, rfl⟩ := (List.eq_nil_or_concat rows).resolve_left hne
  rw [List.concat_eq_append] at hrows ⊢
  rw [List.foldl_append, List.foldl_cons, List.foldl_nil, lastId_add]
  refine ⟨⟨last, by simp, rfl⟩, fun r hr => ?_⟩
  rcases List.mem_append.1 hr with hr | hr
  · exact ((List.pairwise_append.1 hrows).2.2 r hr last (by simp)).le
  · rw [List.mem_singleton.1 hr]

end Batch

/-! ### The whole run -/

section

variable {sessions : List SessionRow} {lastId : ℤ} {limit : ℕ}

/-- The sessions after the cursor in the order of their ids. -/
def pendingAfter (sessions : List SessionRow) (lastId : ℤ) : List SessionRow :=
  (sessions.filter fun r => lastId < r.id).insertionSort fun r s => r.id ≤ s.id

theorem mem_pendingAfter {r : SessionRow} :
    r ∈ pendingAfter sessions lastId ↔ r ∈ sessions ∧ lastId < r.id := by
  rw [pendingAfter, List.mem_insertionSort, List.mem_filter, decide_eq_true_iff]

theorem pairwise_pendingAfter (hids : (sessions.map SessionRow.id).Nodup) :
    (pendingAfter sessions lastId).Pairwise fun r s => r.id < s.id := by
  have hle : (pendingAfter sessions lastId).Pairwise fun r s => r.id ≤ s.id := by
    have htotal : Std.Total fun r s : SessionRow => r.id ≤ s.id :=
      ⟨fun r s => le_total r.id s.id⟩
    have htrans : IsTrans SessionRow fun r s => r.id ≤ s.id := ⟨fun _ _ _ => le_trans⟩
    exact List.pairwise_insertionSort _ _
  have hsub : ((sessions.filter fun r => lastId < r.id).map SessionRow.id).Nodup :=
    hids.sublist (List.filter_sublist.map _)
  have hne : (pendingAfter sessions lastId).Pairwise fun r s => r.id ≠ s.id :=
    List.pairwise_map.1 (((List.perm_insertionSort _ _).map _).nodup_iff.2 hsub)
  exact hle.imp₂ (fun _ _ => lt_of_le_of_ne) hne

/-- What a batch that moves the cursor from `lo` to `hi` does with one session. -/
def sanitizeWindow (lo hi : ℤ) (r : SessionRow) : Option SessionRow :=
  if lo < r.id ∧ r.id ≤ hi then sanitizeRow r else some r

/-- A batch ends at the id of its last row: the sessions up to there are in the batch, those behind
it are left. -/
theorem mem_batch (hids : (sessions.map SessionRow.id).Nodup) {b : Batch}
    (hb : b = (selectAfter sessions lastId limit).foldl Batch.add { lastId := lastId })
    (hne : selectAfter sessions lastId limit ≠ []) :
    (∃ r ∈ sessions, lastId < r.id ∧ r.id = b.lastId) ∧
      (∀ r ∈ selectAfter sessions lastId limit, r.id ≤ b.lastId) ∧
      ∀ r ∈ (pendingAfter sessions lastId).drop limit, b.lastId < r.id := by
  have hsorted : (pendingAfter sessions lastId).Pairwise fun r s => r.id < s.id :=
    pairwise_pendingAfter hids
  rw [← List.take_append_drop limit (pendingAfter sessions lastId), List.pairwise_append]
    at hsorted
  obtain ⟨htake, -, hcross⟩ := hsorted
  obtain ⟨⟨last, hlast, hid⟩, hmax⟩ := Batch.lastId_foldl htake hne
  rw [show (pendingAfter sessions lastId).take limit = selectAfter sessions lastId limit
    from rfl, ← hb] at hid hmax
  obtain ⟨hmem, hlt⟩ := mem_pendingAfter.1 (List.mem_of_mem_take hlast)
  exact ⟨⟨last, hmem, hlt, hid⟩, hmax, fun r hr => hid ▸ hcross last hlast r hr⟩

theorem apply_batch (hids : (sessions.map SessionRow.id).Nodup) {b : Batch}
    (hb : b = (selectAfter sessions lastId limit).foldl Batch.add { lastId := lastId })
    (hne : selectAfter sessions lastId limit ≠ []) :
    b.apply sessions = sessions.filterMap (sanitizeWindow lastId b.lastId) := by
  obtain ⟨-, hmax, hleft⟩ := mem_batch hids hb hne
  have htake : (selectAfter sessions lastId limit).Pairwise fun r s => r.id < s.id :=
    (pairwise_pendingAfter hids).sublist (List.take_sublist _ _)
  rw [Batch.apply_eq]
  refine List.filterMap_congr fun r hr => ?_
  rw [sanitizeWindow]
  split
  · rename_i hin
    -- a session up to the cursor cannot be among those that the limit cut off
    have hsel : r ∈ selectAfter sessions lastId limit := by
      have hr' : r ∈ pendingAfter sessions lastId := mem_pendingAfter.2 ⟨hr, hin.1⟩
      rw [← List.take_append_drop limit (pendingAfter sessions lastId)] at hr'
      refine (List.mem_append.1 hr').resolve_right fun hdrop => ?_
      have := hleft r hdrop
      omega
    rw [hb]
    exact Batch.treat_foldl_of_mem htake hsel ⟨rfl, List.not_mem_nil⟩
  · rename_i hout
    rw [hb, Batch.treat_foldl_of_not_mem]
    · simp [Batch.treat]
    · intro s hs heq
      have hs' := mem_pendingAfter.1 (List.mem_of_mem_take hs)
      exact hout ⟨heq ▸ hs'.2, heq ▸ hmax s hs⟩

theorem id_of_sanitizeRow {r r' : SessionRow} (h : sanitizeRow r = some r') : r'.id = r.id := by
  obtain ⟨value, -, rfl⟩ := Option.map_eq_some_iff.1 h
  rfl

theorem id_of_sanitizeWindow {lo hi : ℤ} {r r' : SessionRow}
    (h : sanitizeWindow lo hi r = some r') : r'.id = r.id := by
  rw [sanitizeWindow] at h
  split at h
  · exact id_of_sanitizeRow h
  · rw [Option.some.inj h]

theorem ids_filterMap_sublist {f : SessionRow → Option SessionRow}
    (hf : ∀ r r', f r = some r' → r'.id = r.id) (sessions : List SessionRow) :
    ((sessions.filterMap f).map SessionRow.id).Sublist (sessions.map SessionRow.id) := by
  induction sessions with
  | nil => exact .slnil
  | cons r sessions ih =>
    rw [List.filterMap_cons]
    split
    · exact ih.cons _
    · rename_i r' hr'
      rw [List.map_cons, List.map_cons, hf r r' hr']
      exact ih.cons_cons _

/-- A batch leaves the sessions behind its end alone. -/
theorem filter_filterMap_sanitizeWindow (lo hi : ℤ) :
    ((sessions.filterMap (sanitizeWindow lo hi)).filter fun r => hi < r.id) =
      sessions.filter fun r => hi < r.id := by
  rw [List.filter_filterMap, ← List.filterMap_eq_filter]
  refine List.filterMap_congr fun r _ => ?_
  by_cases hr : hi < r.id
  · have hout : ¬ (lo < r.id ∧ r.id ≤ hi) := by omega
    simp [sanitizeWindow, hout, hr, Option.guard]
  · cases hw : sanitizeWindow lo hi r with
    | none => simp [Option.guard, hr]
    | some r' =>
      have hr' : ¬ hi < r'.id := by rwa [id_of_sanitizeWindow hw]
      rw [Option.filter_some, if_neg (by simpa using hr'), Option.guard_eq_none_iff.2]
      simpa using hr

/-- Treating a window and then everything behind it treats everything from its start on. -/
theorem sanitizeWindow_bind {lo hi : ℤ} (h : lo ≤ hi) (r : SessionRow) :
    ((sanitizeWindow lo hi r).bind fun r => if hi < r.id then sanitizeRow r else some r) =
      if lo < r.id then sanitizeRow r else some r := by
  by_cases hr : lo < r.id ∧ r.id ≤ hi
  · cases hw : sanitizeRow r with
    | none => simp [sanitizeWindow, hr, hw]
    | some r' =>
      have hwin : sanitizeWindow lo hi r = some r' := by rw [sanitizeWindow, if_pos hr, hw]
      have hid := id_of_sanitizeWindow hwin
      rw [hwin, Option.bind_some, if_neg (by omega), if_pos hr.1]
  · have hiff : hi < r.id ↔ lo < r.id := by omega
    simp [sanitizeWindow, hr, hiff]

/-- What a batch leaves to the batches after it. -/
theorem rest_of_batch (hids : (sessions.map SessionRow.id).Nodup) {b : Batch}
    (hb : b = (selectAfter sessions lastId limit).foldl Batch.add { lastId := lastId })
    (hne : selectAfter sessions lastId limit ≠ []) :
    ((b.apply sessions).map SessionRow.id).Nodup ∧
      ((b.apply sessions).filter fun r => b.lastId < r.id).length <
        (sessions.filter fun r => lastId < r.id).length ∧
      pendingAfter (b.apply sessions) b.lastId = (pendingAfter sessions lastId).drop limit := by
  obtain ⟨⟨last, hlast, hlt, hid⟩, hmax, hleft⟩ := mem_batch hids hb hne
  have happly := apply_batch hids hb hne
  have hfilter : ((b.apply sessions).filter fun r => b.lastId < r.id) =
      (sessions.filter fun r => lastId < r.id).filter fun r => b.lastId < r.id := by
    rw [happly, filter_filterMap_sanitizeWindow, List.filter_filter]
    refine List.filter_congr fun r _ => ?_
    rw [← Bool.decide_and]
    exact decide_eq_decide.2 (by omega)
  have hnodup : ((b.apply sessions).map SessionRow.id).Nodup :=
    happly ▸ hids.sublist (ids_filterMap_sublist (fun _ _ => id_of_sanitizeWindow) sessions)
  refine ⟨hnodup, ?_, ?_⟩
  · rw [hfilter, List.length_filter_lt_length_iff_exists]
    exact ⟨last, List.mem_filter.2 ⟨hlast, by simpa using hlt⟩, by simp [hid]⟩
  · have hasymm : ∀ r s : SessionRow, r.id < s.id → s.id < r.id → r = s := fun r s h h' =>
      absurd h' (lt_asymm h)
    have hdrop : ((pendingAfter sessions lastId).drop limit).Pairwise fun r s => r.id < s.id :=
      (pairwise_pendingAfter hids).sublist (List.drop_sublist _ _)
    have hpending : (pendingAfter (b.apply sessions) b.lastId).Pairwise fun r s => r.id < s.id :=
      pairwise_pendingAfter hnodup
    refine List.Perm.eq_of_pairwise (fun r s _ _ => hasymm r s) hpending hdrop ?_
    have hne' : ∀ {r s : SessionRow}, r.id < s.id → r ≠ s := fun h heq => h.ne (heq ▸ rfl)
    refine (List.perm_ext_iff_of_nodup (hpending.imp hne') (hdrop.imp hne')).2 fun r => ?_
    have hmem : r ∈ pendingAfter (b.apply sessions) b.lastId ↔
        r ∈ pendingAfter sessions lastId ∧ b.lastId < r.id := by
      have h := congrArg (r ∈ ·) hfilter
      simp only [List.mem_filter, decide_eq_true_eq, eq_iff_iff] at h
      rw [mem_pendingAfter, mem_pendingAfter, h]
    rw [hmem]
    constructor
    · rintro ⟨hr, hgt⟩
      rw [← List.take_append_drop limit (pendingAfter sessions lastId)] at hr
      refine (List.mem_append.1 hr).resolve_left fun htake => ?_
      have := hmax r htake
      omega
    · exact fun hr => ⟨List.mem_of_mem_drop hr, hleft r hr⟩

/-- From any cursor the loop treats the sessions after it. -/
theorem sanitizeFrom_eq (hlimit : 0 < limit) (hids : (sessions.map SessionRow.id).Nodup)
    {fuel : ℕ} (hfuel : (sessions.filter fun r => lastId < r.id).length < fuel) :
    sanitizeFrom limit fuel lastId sessions =
      some (sessions.filterMap fun r => if lastId < r.id then sanitizeRow r else some r) := by
  induction fuel generalizing lastId sessions with
  | zero => omega
  | succ fuel ih =>
    rw [sanitizeFrom]
    split
    · rename_i hnil
      have hnone : ∀ r ∈ sessions, ¬ lastId < r.id := by
        intro r hr hlt
        have hpos : pendingAfter sessions lastId ≠ [] :=
          List.ne_nil_of_mem (mem_pendingAfter.2 ⟨hr, hlt⟩)
        exact hpos ((List.take_eq_nil_iff.1 hnil).resolve_left hlimit.ne')
      rw [List.filterMap_congr (g := some) fun r hr => if_neg (hnone r hr), List.filterMap_some]
    · rename_i row rows hsel
      have hne : selectAfter sessions lastId limit ≠ [] := by simp [hsel]
      rw [← hsel]
      generalize hb : (selectAfter sessions lastId limit).foldl Batch.add
        { lastId := lastId } = b
      obtain ⟨hids', hless, -⟩ := rest_of_batch hids hb.symm hne
      obtain ⟨⟨last, -, hlt, hid⟩, -⟩ := mem_batch hids hb.symm hne
      change sanitizeFrom limit fuel b.lastId (b.apply sessions) = _
      rw [ih hids' (by omega), apply_batch hids hb.symm hne, List.filterMap_filterMap]
      refine congrArg some (List.filterMap_congr fun r _ => ?_)
      exact sanitizeWindow_bind (by omega) r

/-- The batches of a run read the sessions after the cursor once and in order. -/
theorem batches_eq (hlimit : 0 < limit) (hids : (sessions.map SessionRow.id).Nodup)
    {fuel : ℕ} (hfuel : (sessions.filter fun r => lastId < r.id).length < fuel) :
    (batchesFrom limit fuel lastId sessions).flatten = pendingAfter sessions lastId := by
  induction fuel generalizing lastId sessions with
  | zero => omega
  | succ fuel ih =>
    rw [batchesFrom]
    split
    · rename_i hnil
      exact ((List.take_eq_nil_iff.1 hnil).resolve_left hlimit.ne').symm
    · rename_i row rows hsel
      have hne : selectAfter sessions lastId limit ≠ [] := by simp [hsel]
      rw [← hsel]
      generalize hb : (selectAfter sessions lastId limit).foldl Batch.add
        { lastId := lastId } = b
      obtain ⟨hids', hless, hrest⟩ := rest_of_batch hids hb.symm hne
      change (selectAfter sessions lastId limit ::
        batchesFrom limit fuel b.lastId (b.apply sessions)).flatten = _
      rw [List.flatten_cons, ih hids' (by omega), hrest]
      exact List.take_append_drop limit (pendingAfter sessions lastId)

/-- The migration ends and treats every session once: with positive ids, as the database assigns
them, exactly the sessions remain whose capabilities parse, and theirs are normalized. -/
theorem sanitizeSessions_eq (hlimit : 0 < limit) (hids : (sessions.map SessionRow.id).Nodup)
    (hpos : ∀ r ∈ sessions, 0 < r.id) {fuel : ℕ} (hfuel : sessions.length < fuel) :
    sanitizeSessions limit fuel sessions = some (sessions.filterMap sanitizeRow) := by
  have hle := List.length_filter_le (fun r : SessionRow => decide (0 < r.id)) sessions
  rw [sanitizeSessions, sanitizeFrom_eq hlimit hids (by omega)]
  exact congrArg some (List.filterMap_congr fun r hr => if_pos (hpos r hr))

/-- The migration reads every session in one batch, whatever the statements of the batches before
have changed; afterwards exactly the sessions are left whose capabilities parse, with these
normalized and nothing else changed. -/
theorem migration_treats_each_once {sessions : List SessionRow} {limit : ℕ} (hlimit : 0 < limit)
    (hids : (sessions.map SessionRow.id).Nodup) (hpos : ∀ r ∈ sessions, 0 < r.id) {fuel : ℕ}
    (hfuel : sessions.length < fuel) :
    ∃ after, sanitizeSessions limit fuel sessions = some after ∧
      (batchesFrom limit fuel 0 sessions).flatten.Perm sessions ∧
      (after.map SessionRow.id).Nodup ∧
      ∀ row, row ∈ after ↔ ∃ r ∈ sessions, ∃ cs, Capabilities.fromStr r.capabilities = .ok cs ∧
        row = { r with capabilities := cs.normalize.toText } := by
  have hall : (sessions.filter fun r => 0 < r.id) = sessions :=
    List.filter_eq_self.2 fun r hr => decide_eq_true (hpos r hr)
  refine ⟨_, sanitizeSessions_eq hlimit hids hpos hfuel, ?_, ?_, fun row => ?_⟩
  · rw [batches_eq hlimit hids (by rwa [hall]), pendingAfter, hall]
    exact List.perm_insertionSort _ _
  · exact hids.sublist (ids_filterMap_sublist (fun _ _ => id_of_sanitizeRow) sessions)
  · rw [List.mem_filterMap]
    refine exists_congr fun r => and_congr_right fun _ => ?_
    rw [sanitizeRow, normalizeCapabilities]
    cases Capabilities.fromStr r.capabilities <;> simp [eq_comm]

end

def sampleSessions : List SessionRow :=
  [⟨1, "s".toList, 1, "/foo:".toList, 0⟩, ⟨2, "t".toList, 1, "/foo:r,/foo:w".toList, 0⟩]

/-- In batches of one, the first session is deleted and the second normalized. -/
theorem migration_treats_each_once_sample :
    ∃ after, sanitizeSessions 1 3 sampleSessions = some after ∧
      (batchesFrom 1 3 0 sampleSessions).flatten.Perm sampleSessions ∧
      (after.map SessionRow.id).Nodup ∧
      ∀ row, row ∈ after ↔ ∃ r ∈ sampleSessions, ∃ cs,
        Capabilities.fromStr r.capabilities = .ok cs ∧
          row = { r with capabilities := cs.normalize.toText } :=
  migration_treats_each_once (by decide) (by decide) (by decide) (by decide)

/-- The loop starts behind the id zero, and no batch of size zero holds a session. -/
theorem migration_skips :
    normalizeCapabilities "/foo:".toList = none ∧
      up 5 [⟨0, "s".toList, 1, "/foo:".toList, 0⟩] = some [⟨0, "s".toList, 1, "/foo:".toList, 0⟩] ∧
      sanitizeSessions 0 5 [⟨1, "s".toList, 1, "/foo:".toList, 0⟩] =
        some [⟨1, "s".toList, 1, "/foo:".toList, 0⟩] := by
  decide +kernel

end Pubky.Homeserver.Migrations
