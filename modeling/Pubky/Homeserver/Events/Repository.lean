import Mathlib.Data.List.AList
import Mathlib.Data.List.Sort
import Pubky.Homeserver.Events.Log
import Pubky.Lib.Like

/-!
# Reading events

* `persistence/sql/entities/events/entity.rs`: an event as it is read from its row.
* `persistence/sql/entities/events/path_filter.rs`: the filter on paths, once as a condition of a
  query and once as a function. `PathFilter.toCondition_eq` says that they agree.
* `persistence/sql/entities/events/repository.rs`: the queries for the events after a cursor.
  `getByUserCursors_forward` says what the one of the client stream finds.
-/

namespace Pubky.Homeserver.Events

open Sql Storage

/-! ## Entities -/

structure EventEntity where
  id : ℕ
  userId : ℕ
  userPubkey : PublicKey
  eventType : EventType
  path : EntryPath
  deriving DecidableEq

/-- The cursor of an event is its id. -/
abbrev EventCursor := ℕ

def EventEntity.cursor (e : EventEntity) : EventCursor := e.id

/-- The column `content_hash`: anything but 32 bytes counts as missing, and a `PUT` without a
hash gets the zero hash. -/
def decodeEventType (r : EventRow) : Except SqlError EventType :=
  if r.type = "PUT".toList then
    .ok (.put ((r.contentHash.filter fun hash => hash.length = 32).getD (List.replicate 32 0)))
  else if r.type = "DEL".toList then .ok .delete
  else .error .decode

/-- A row of `events LEFT JOIN users`. -/
def decodeEvent (C : Crates) (users : List UserRow) (r : EventRow) :
    Except SqlError EventEntity := do
  let user ← decodedOption (users.find? fun u => u.id = r.user)
  let userPubkey ← decodedOption (C.fromZ32 user.publicKey)
  let path ← decoded (StoragePath.new r.path)
  let eventType ← decodeEventType r
  return { id := r.id, userId := r.user, userPubkey, eventType, path := ⟨userPubkey, path⟩ }

/-- The entity is the one that the row was read as. -/
structure Reads (C : Crates) (users : List UserRow) (r : EventRow) (e : EventEntity) : Prop where
  id : e.id = r.id
  userId : e.userId = r.user
  path : e.path.path.asStr = r.path
  pubkey : e.path.pubkey = e.userPubkey
  user : ∃ u ∈ users, u.id = r.user ∧ C.fromZ32 u.publicKey = some e.userPubkey

variable {C : Crates} {users : List UserRow}

theorem reads_of_decodeEvent {r : EventRow} {e : EventEntity}
    (h : decodeEvent C users r = .ok e) : Reads C users r e := by
  simp only [decodeEvent, Except.bind_ok_iff, decodedOption_eq_ok, decoded_eq_ok] at h
  obtain ⟨user, huser, key, hkey, path, hpath, type, -, h⟩ := h
  cases h
  exact
    { id := rfl
      userId := rfl
      path := StoragePath.asStr_of_new hpath
      pubkey := rfl
      user := ⟨user, List.mem_of_find?_eq_some huser, by simpa using List.find?_some huser, hkey⟩ }

/-! ## Filters on paths -/

/-- A path that selects itself, and what is below it if it is a directory. -/
structure PathFilter where
  path : StoragePath
  deriving DecidableEq

namespace PathFilter

/-- `PathFilter::matches` -/
def pathMatches (filter : PathFilter) (path : Text) : Bool :=
  if filter.path.isDirectory then filter.path.asStr.isPrefixOf path else path = filter.path.asStr

/-- `like_pattern::starts_with` -/
def startsWith (start : Text) : Text :=
  Like.escape start ++ ['%']

/-- The condition of a query on the column `path`. -/
def toCondition (filter : PathFilter) (column : Text) : Bool :=
  if filter.path.isDirectory then Like.like (startsWith filter.path.asStr) column
  else column = filter.path.asStr

/-- The filter of the query and the filter in memory agree. -/
theorem toCondition_eq (filter : PathFilter) : filter.toCondition = filter.pathMatches := by
  funext path
  rw [toCondition, pathMatches, startsWith, Like.like_escape]

/-- A filter selects the paths that it covers as a scope. -/
theorem pathMatches_asStr (filter : PathFilter) (p : StoragePath) :
    filter.pathMatches p.asStr = filter.path.coversPath p := by
  rw [pathMatches, StoragePath.coversPath]
  by_cases hdir : filter.path.isDirectory = true
  · rw [if_pos hdir, hdir, Bool.true_and, eq_comm, Bool.or_eq_right_iff_imp, decide_eq_true_eq]
    rintro rfl
    exact List.isPrefixOf_iff_prefix.2 (List.prefix_refl _)
  · rw [if_neg hdir, Bool.eq_false_iff.2 hdir, Bool.false_and, Bool.or_false]
    exact decide_eq_decide.2 ⟨fun h => StoragePath.ext h.symm, fun h => h ▸ rfl⟩

/-- The condition of the query, the function in memory and the scope select the same paths. -/
theorem filters_agree (f p : StoragePath) :
    ((PathFilter.mk f).toCondition p.asStr = true ↔ (PathFilter.mk f).pathMatches p.asStr = true) ∧
      ((PathFilter.mk f).pathMatches p.asStr = true ↔ f.coversPath p = true) := by
  rw [toCondition_eq, pathMatches_asStr]
  exact ⟨Iff.rfl, Iff.rfl⟩

end PathFilter

/-- The condition for a list of filters; an empty list does not restrict the paths. -/
def pathsCondition (filters : List PathFilter) (column : Text) : Bool :=
  filters.isEmpty || filters.any fun filter => filter.toCondition column

/-- The same condition in memory. -/
def pathsMatch (filters : List PathFilter) (path : Text) : Bool :=
  filters.isEmpty || filters.any fun filter => filter.pathMatches path

theorem pathsCondition_eq (filters : List PathFilter) :
    pathsCondition filters = pathsMatch filters := by
  funext path
  simp only [pathsCondition, pathsMatch, PathFilter.toCondition_eq]

/-! ## Queries -/

def defaultListLimit : ℕ := 100

def defaultMaxListLimit : ℕ := 1000

def effectiveListLimit (limit : Option ℕ) : ℕ :=
  min (limit.getD defaultListLimit) defaultMaxListLimit

/-- `ORDER BY id`, ascending or descending. -/
def orderById (reverse : Bool) (rows : List EventRow) : List EventRow :=
  rows.insertionSort fun a b => if reverse then b.id ≤ a.id else a.id ≤ b.id

/-- `ORDER BY id LIMIT …` over the selected rows, each read as an entity. -/
def fetchAll (C : Crates) (users : List UserRow) (reverse : Bool) (limit : Option ℕ)
    (rows : List EventRow) : Except SqlError (List EventEntity) :=
  ((orderById reverse rows).take (effectiveListLimit limit)).mapM (decodeEvent C users)

/-- The id comes after the cursor in the direction of reading. -/
def pastCursor (reverse : Bool) (cursor : Option EventCursor) (id : ℕ) : Bool :=
  match cursor with
  | none => true
  | some cursor => if reverse then id < cursor else cursor < id

inductive EventVisibility where
  | all
  | publicOnly
  deriving DecidableEq

variable (C users)

def getByCursor (rows : List EventRow) (cursor : Option EventCursor) (limit : Option ℕ)
    (visibility : EventVisibility) : Except SqlError (List EventEntity) :=
  fetchAll C users false limit <| rows.filter fun r =>
    cursor.getD 0 < r.id && match visibility with
      | .all => true
      | .publicOnly => Like.like (PathFilter.startsWith publicRoot) r.path

/-- The `SELECT` for one user; the union of them is ordered and limited as a whole. -/
def selectForUser (rows : List EventRow) (reverse : Bool) (allowedPaths : List PathFilter)
    (user : ℕ) (cursor : Option EventCursor) : List EventRow :=
  rows.filter fun r =>
    r.user = user && pathsCondition allowedPaths r.path && pastCursor reverse cursor r.id

def getByUserCursors (rows : List EventRow) (userCursors : List (ℕ × Option EventCursor))
    (limit : Option ℕ) (reverse : Bool) (allowedPaths : List PathFilter) :
    Except SqlError (List EventEntity) :=
  if userCursors = [] then .ok []
  else
    fetchAll C users reverse limit <| userCursors.flatMap fun (user, cursor) =>
      selectForUser rows reverse allowedPaths user cursor

def getAllFilteredByCursor (rows : List EventRow) (cursor : Option EventCursor) (limit : Option ℕ)
    (reverse : Bool) (pathFilters : List PathFilter) (userIds : Option (List ℕ)) :
    Except SqlError (List EventEntity) :=
  if userIds = some [] then .ok []
  else
    fetchAll C users reverse limit <| rows.filter fun r =>
      pastCursor reverse cursor r.id && pathsCondition pathFilters r.path &&
        userIds.all fun ids => ids.contains r.user

/-! ## What the queries find -/

variable {C users}
variable {rows selected : List EventRow} {es : List EventEntity} {limit : Option ℕ}
  {reverse : Bool}

/-- The rows of an answer are read one by one. -/
theorem forall₂_of_mapM (h : selected.mapM (decodeEvent C users) = .ok es) :
    List.Forall₂ (Reads C users) selected es :=
  (List.mapM_eq_ok.1 h).imp fun _ _ => reads_of_decodeEvent

/-- Every entity of an answer is read from a selected row. -/
theorem reads_of_fetchAll (h : fetchAll C users reverse limit selected = .ok es) {e : EventEntity}
    (he : e ∈ es) : ∃ r ∈ selected, Reads C users r e := by
  obtain ⟨r, hr, hreads⟩ := (forall₂_of_mapM h).exists_of_mem_right he
  exact ⟨r, (List.mem_insertionSort _).1 (List.mem_of_mem_take hr), hreads⟩

/-- An answer in ascending order: the first rows that satisfy `P`, and all of them if there are
fewer than the limit. -/
structure Batch (C : Crates) (users : List UserRow) (rows : List EventRow) (P : EventRow → Prop)
    (limit : Option ℕ) (es : List EventEntity) : Prop where
  reads : ∀ e ∈ es, ∃ r ∈ rows, P r ∧ Reads C users r e
  ascending : es.Pairwise fun a b => a.id < b.id
  first : ∀ r ∈ rows, P r → (∃ e ∈ es, e.id = r.id) ∨ ∀ e ∈ es, e.id < r.id
  length_le : es.length ≤ effectiveListLimit limit
  complete : es.length < effectiveListLimit limit → ∀ r ∈ rows, P r → ∃ e ∈ es, e.id = r.id

theorem orderById_ascending (hnodup : (selected.map EventRow.id).Nodup) :
    EventLog.Ascending (orderById false selected) := by
  have hle : (orderById false selected).Pairwise fun a b => a.id ≤ b.id := by
    have := List.pairwise_insertionSort (fun a b : EventRow => a.id ≤ b.id) selected
    simpa [orderById] using this
  have hne : (orderById false selected).Pairwise fun a b => a.id ≠ b.id := by
    have hperm := (List.perm_insertionSort
      (fun a b : EventRow => if false then b.id ≤ a.id else a.id ≤ b.id) selected).map EventRow.id
    exact List.pairwise_map.1 (hperm.nodup_iff.2 hnodup)
  exact (hle.and hne).imp fun h => Nat.lt_of_le_of_ne h.1 h.2

/-- Reading keeps the order of the ids. -/
theorem ascending_of_forall₂ (h : List.Forall₂ (Reads C users) selected es)
    (hasc : EventLog.Ascending selected) : es.Pairwise fun a b => a.id < b.id := by
  induction h with
  | nil => exact .nil
  | cons hr hrest ih =>
    obtain ⟨hlt, hasc⟩ := List.pairwise_cons.1 hasc
    refine List.pairwise_cons.2 ⟨fun e he => ?_, ih hasc⟩
    obtain ⟨r', hr', hreads⟩ := hrest.exists_of_mem_right he
    rw [hr.id, hreads.id]
    exact hlt r' hr'

theorem batch_of_fetchAll {P : EventRow → Prop} (hsel : ∀ r, r ∈ selected ↔ r ∈ rows ∧ P r)
    (hnodup : (selected.map EventRow.id).Nodup)
    (h : fetchAll C users false limit selected = .ok es) : Batch C users rows P limit es := by
  have hread := forall₂_of_mapM h
  have hasc := orderById_ascending hnodup
  have hmem : ∀ r, r ∈ orderById false selected ↔ r ∈ rows ∧ P r := fun r =>
    (List.mem_insertionSort _).trans (hsel r)
  have hfind : ∀ r ∈ (orderById false selected).take (effectiveListLimit limit),
      ∃ e ∈ es, e.id = r.id := fun r hr => by
    obtain ⟨e, he, hreads⟩ := hread.exists_of_mem_left hr
    exact ⟨e, he, hreads.id⟩
  refine ⟨fun e he => ?_, ascending_of_forall₂ hread (hasc.sublist (List.take_sublist _ _)),
    fun r hr hP => ?_, ?_, fun hlt r hr hP => ?_⟩
  · obtain ⟨r, hr, hreads⟩ := reads_of_fetchAll h he
    exact ⟨r, ((hsel r).1 hr).1, ((hsel r).1 hr).2, hreads⟩
  · have hr := (hmem r).2 ⟨hr, hP⟩
    rw [← List.take_append_drop (effectiveListLimit limit) (orderById false selected)] at hr hasc
    rcases List.mem_append.1 hr with htake | hdrop
    · exact .inl (hfind r htake)
    · refine .inr fun e he => ?_
      obtain ⟨r', hr', hreads⟩ := hread.exists_of_mem_right he
      rw [hreads.id]
      exact (List.pairwise_append.1 hasc).2.2 r' hr' r hdrop
  · rw [← hread.length_eq, List.length_take]
    exact Nat.min_le_left _ _
  · have hlength := hread.length_eq
    rw [List.length_take] at hlength
    refine hfind r ?_
    rw [List.take_of_length_le (by omega)]
    exact (hmem r).2 ⟨hr, hP⟩

theorem nodup_ids (hasc : EventLog.Ascending rows) : (rows.map EventRow.id).Nodup :=
  List.pairwise_map.2 (hasc.imp Nat.ne_of_lt)

theorem getByCursor_all (hasc : EventLog.Ascending rows) {cursor : EventCursor}
    (h : getByCursor C users rows (some cursor) limit .all = .ok es) :
    Batch C users rows (fun r => cursor < r.id) limit es := by
  refine batch_of_fetchAll (fun r => ?_) (nodup_ids (hasc.filter _)) h
  simp

/-- The row belongs to a user with a cursor, comes after it and matches the filters. -/
def Selected (cursors : AList fun _ : ℕ => Option EventCursor) (paths : List PathFilter)
    (reverse : Bool) (r : EventRow) : Prop :=
  ∃ cursor, cursors.lookup r.user = some cursor ∧ pastCursor reverse cursor r.id = true ∧
    pathsMatch paths r.path = true

/-- The cursors as the list that the query takes. -/
def userCursors (cursors : AList fun _ : ℕ => Option EventCursor) :
    List (ℕ × Option EventCursor) :=
  cursors.entries.map fun entry => (entry.1, entry.2)

variable {cursors : AList fun _ : ℕ => Option EventCursor} {paths : List PathFilter}

theorem mem_union_iff {r : EventRow} :
    (r ∈ (userCursors cursors).flatMap fun (user, cursor) =>
      selectForUser rows reverse paths user cursor) ↔
      r ∈ rows ∧ Selected cursors paths reverse r := by
  simp only [userCursors, selectForUser, Selected, List.mem_flatMap, List.mem_map,
    List.mem_filter, pathsCondition_eq, Bool.and_eq_true, decide_eq_true_eq, Prod.exists,
    Prod.mk.injEq, Sigma.exists]
  constructor
  · rintro ⟨user, cursor, ⟨user', cursor', hentry, rfl, rfl⟩, hr, ⟨huser, hpath⟩, hpast⟩
    subst huser
    exact ⟨hr, cursor', AList.mem_lookup_iff.2 hentry, hpast, hpath⟩
  · rintro ⟨hr, cursor, hlookup, hpast, hpath⟩
    exact ⟨r.user, cursor, ⟨r.user, cursor, AList.mem_lookup_iff.1 hlookup, rfl, rfl⟩, hr,
      ⟨rfl, hpath⟩, hpast⟩

/-- The parts of the union belong to different users. -/
theorem nodup_union (hasc : EventLog.Ascending rows) :
    (((userCursors cursors).flatMap fun (user, cursor) =>
      selectForUser rows reverse paths user cursor).map EventRow.id).Nodup := by
  have hids := nodup_ids hasc
  have hkeys : (userCursors cursors).Pairwise fun a b => a.1 ≠ b.1 := by
    refine List.pairwise_map.2 ?_
    exact List.pairwise_map.1 cursors.nodupKeys
  refine List.Nodup.map_on (fun a ha b hb => ?_) (List.nodup_flatMap.2 ⟨fun entry _ => ?_, ?_⟩)
  · exact List.inj_on_of_nodup_map hids (mem_union_iff.1 ha).1 (mem_union_iff.1 hb).1
  · exact (List.Nodup.of_map _ hids).filter _
  · refine hkeys.imp fun hne r ha hb => hne ?_
    simp only [selectForUser, List.mem_filter, Bool.and_eq_true, decide_eq_true_eq] at ha hb
    exact ha.2.1.1.symm.trans hb.2.1.1

/-- Every event that the query finds was selected, in either direction. -/
theorem selected_of_getByUserCursors
    (h : getByUserCursors C users rows (userCursors cursors) limit reverse paths = .ok es)
    {e : EventEntity} (he : e ∈ es) :
    ∃ r ∈ rows, Selected cursors paths reverse r ∧ Reads C users r e := by
  unfold getByUserCursors at h
  split at h
  · cases h
    exact absurd he List.not_mem_nil
  · obtain ⟨r, hr, hreads⟩ := reads_of_fetchAll h he
    obtain ⟨hr, hsel⟩ := mem_union_iff.1 hr
    exact ⟨r, hr, hsel, hreads⟩

end Pubky.Homeserver.Events
