import Pubky.Homeserver.Storage.Ledger
import Mathlib.Algebra.Order.BigOperators.Group.List
import Mathlib.Algebra.Order.Group.Nat
import Mathlib.Data.Char
import Pubky.Lib.Lists

/-!
# What the ledger keeps true

Invariants of the ledger, each shown to be kept by every `Change`:

* `Ledger.Ok`: keys, ids and paths are unique, entries are files, events are in the order of
  their ids,
* `Ledger.Accounted`: the used bytes of a user are those of the user's files. The counter is a
  64-bit number and the changes of it are computed in 64 bits with a sign, so this needs that
  what is written fits (`Ledger.Fits`),
* `Ledger.Logged`: the events of a user, replayed, yield the user's files,
* `Ledger.Apart`: no file of a user is also a folder, as long as only the operator of the client
  server writes. `collides_iff` says what its check finds.
-/

namespace Pubky.Homeserver.Storage

open Sql

variable {strict : Prop} {l l' : Ledger} {u : UserRow} {path : Text} {metadata : FileMetadata}
  {existing : Option EntryRow} {newId user : ℕ}

/-! ## Rows -/

/-- Keys, ids and paths are unique, entries are files, and events are in order. -/
structure Ledger.Ok (l : Ledger) : Prop where
  userKeys : UniqueKeys l.users
  userIds : ∀ u ∈ l.users, ∀ v ∈ l.users, u.id = v.id → u = v
  entryKeys : UniqueKeys l.entries
  entryPaths : ∀ r ∈ l.entries, ∀ r' ∈ l.entries, r.user = r'.user → r.path = r'.path → r = r'
  files : ∀ r ∈ l.entries, ∃ path : StoragePath, path.isFile = true ∧ r.path = path.asStr
  events : l.events.Pairwise fun a b => a.id < b.id

/-- Where a write puts its entry: over the one at the path, or under a new id. -/
structure Places (l : Ledger) (u : UserRow) (path : Text) (existing : Option EntryRow)
    (newId : ℕ) : Prop where
  old : ∀ r, existing = some r → r ∈ l.entries ∧ r.user = u.id ∧ r.path = path
  free : existing = none → ∀ r ∈ l.entries, r.user = u.id → r.path ≠ path
  fresh : existing = none → ∀ r ∈ l.entries, r.id ≠ newId

section

variable (h : Places l u path existing newId)
include h

theorem Places.user_eq : (entryAfterWrite existing newId u.id path metadata).user = u.id := by
  cases existing with
  | none => rfl
  | some r => exact (h.old r rfl).2.1

theorem Places.path_eq : (entryAfterWrite existing newId u.id path metadata).path = path := by
  cases existing with
  | none => rfl
  | some r => exact (h.old r rfl).2.2

/-- The write replaces what is at the path, and nothing else. -/
theorem Places.id_ne_iff (hl : l.Ok) {r : EntryRow} (hr : r ∈ l.entries) :
    r.id ≠ (entryAfterWrite existing newId u.id path metadata).id ↔
      ¬ (r.user = u.id ∧ r.path = path) := by
  cases existing with
  | none => exact ⟨fun _ hup => h.free rfl r hr hup.1 hup.2, fun _ => h.fresh rfl r hr⟩
  | some old =>
    obtain ⟨hold, huser, hpath⟩ := h.old old rfl
    refine not_congr ⟨fun hid => ?_, fun hup => ?_⟩
    · obtain rfl := hl.entryKeys.eq_of_key_eq hr hold hid
      exact ⟨huser, hpath⟩
    · rw [hl.entryPaths r hr old hold (hup.1.trans huser.symm) (hup.2.trans hpath.symm)]
      rfl

theorem Places.mem (hl : l.Ok) {r : EntryRow} :
    r ∈ Write.apply l.entries (.put (entryAfterWrite existing newId u.id path metadata)) ↔
      (r ∈ l.entries ∧ ¬ (r.user = u.id ∧ r.path = path)) ∨
        r = entryAfterWrite existing newId u.id path metadata := by
  rw [Write.mem_apply_put]
  exact or_congr_left (and_congr_right fun hr => h.id_ne_iff hl hr)

end

/-- A user row that is written again keeps its place. -/
theorem userIds_put (hids : ∀ u ∈ l.users, ∀ v ∈ l.users, u.id = v.id → u = v) (hu : u ∈ l.users)
    {u' : UserRow} (hkey : u'.publicKey = u.publicKey) (hid : u'.id = u.id) :
    ∀ a ∈ Write.apply l.users (.put u'), ∀ b ∈ Write.apply l.users (.put u'),
      a.id = b.id → a = b := by
  -- a row with the id of `u` is `u`, which is replaced
  have hne : ∀ a ∈ l.users, key a ≠ key u' → a.id ≠ u'.id := by
    intro a ha hka hida
    rw [hids a ha u hu (hida.trans hid)] at hka
    exact hka hkey.symm
  intro a ha b hb hab
  rcases Write.mem_apply_put.1 ha with ⟨ha, hka⟩ | ha <;>
    rcases Write.mem_apply_put.1 hb with ⟨hb, hkb⟩ | hb
  · exact hids a ha b hb hab
  · exact absurd (hb ▸ hab) (hne a ha hka)
  · exact absurd (ha ▸ hab).symm (hne b hb hkb)
  · rw [ha, hb]

/-- A new event comes last. -/
theorem apply_put_event {events : List EventRow} {ev : EventRow}
    (h : ∀ old ∈ events, old.id < ev.id) : Write.apply events (.put ev) = events ++ [ev] := by
  rw [Write.apply, List.filter_eq_self.2]
  intro old hold
  simpa using Nat.ne_of_lt (h old hold)

theorem events_put {events : List EventRow} {ev : EventRow}
    (hevents : events.Pairwise fun a b => a.id < b.id) (h : ∀ old ∈ events, old.id < ev.id) :
    (Write.apply events (.put ev)).Pairwise fun a b => a.id < b.id := by
  rw [apply_put_event h, List.pairwise_append]
  refine ⟨hevents, List.pairwise_singleton _ _, fun a ha b hb => ?_⟩
  rw [List.mem_singleton.1 hb]
  exact h a ha

theorem Ledger.Ok.change (hl : l.Ok) (h : Change strict l l') : l'.Ok := by
  cases h with
  | same => exact hl
  | write u hu path hfile metadata hfits existing hsome hnone newId hid eventId hevent hapart =>
    have hp : Places l u path.asStr existing newId := ⟨hsome, hnone, hid⟩
    exact
      { userKeys := hl.userKeys.apply (.put _)
        userIds := userIds_put hl.userIds hu rfl rfl
        entryKeys := hl.entryKeys.apply (.put _)
        entryPaths := by
          intro r hr r' hr' huser hpath
          rcases (hp.mem hl).1 hr with ⟨hr, hne⟩ | rfl <;>
            rcases (hp.mem hl).1 hr' with ⟨hr', hne'⟩ | rfl
          · exact hl.entryPaths r hr r' hr' huser hpath
          · exact absurd ⟨huser.trans hp.user_eq, hpath.trans hp.path_eq⟩ hne
          · exact absurd ⟨huser.symm.trans hp.user_eq, hpath.symm.trans hp.path_eq⟩ hne'
          · rfl
        files := by
          intro r hr
          rcases (hp.mem hl).1 hr with ⟨hr, -⟩ | rfl
          · exact hl.files r hr
          · exact ⟨path, hfile, hp.path_eq⟩
        events := events_put hl.events hevent }
  | delete u hu deleted hdeleted huser eventId hevent =>
    exact
      { userKeys := hl.userKeys.apply (.put _)
        userIds := userIds_put hl.userIds hu rfl rfl
        entryKeys := hl.entryKeys.apply (.del _)
        entryPaths := fun r hr r' hr' => hl.entryPaths r (Write.mem_apply_del.1 hr).1 r'
          (Write.mem_apply_del.1 hr').1
        files := fun r hr => hl.files r (Write.mem_apply_del.1 hr).1
        events := events_put hl.events hevent }
  | administer u hu disabled quota =>
    exact { hl with
      userKeys := hl.userKeys.apply (.put _)
      userIds := userIds_put hl.userIds hu rfl rfl }
  | signUp u hused hkey hid hentries hevents =>
    exact { hl with
      userKeys := hl.userKeys.concat hkey
      userIds := by
        intro a ha b hb hab
        rcases List.mem_append.1 ha with ha | ha <;> rcases List.mem_append.1 hb with hb | hb
        · exact hl.userIds a ha b hb hab
        · exact absurd (hab.trans (congrArg UserRow.id (List.mem_singleton.1 hb))) (hid a ha)
        · exact absurd (hab.symm.trans (congrArg UserRow.id (List.mem_singleton.1 ha))) (hid b hb)
        · rw [List.mem_singleton.1 ha, List.mem_singleton.1 hb] }

/-! ## Accounting -/

/-- What a file counts. -/
def EntryRow.bytes (r : EntryRow) : ℕ :=
  r.contentLength.toNat + fileMetadataSize.toNat

/-- What the files of a user count. -/
def usage (entries : List EntryRow) (user : ℕ) : ℕ :=
  ((entries.filter fun r => r.user = user).map EntryRow.bytes).sum

/-- The used bytes of the user are those of the user's files. -/
def Ledger.Accounted (user : ℕ) (l : Ledger) : Prop :=
  ∀ u ∈ l.users, u.id = user → u.usedBytes.toNat = usage l.entries user

/-- What is written for the user stays below the range of signed 64-bit numbers. -/
def Ledger.Fits (user : ℕ) (l l' : Ledger) : Prop :=
  ∀ r ∈ l'.entries, r ∉ l.entries → r.user = user → ∀ u ∈ l.users, u.id = user →
    u.usedBytes.toNat + r.bytes < 2 ^ 63

section

variable {n : ℕ}

theorem saturate_toNat (h : n < 2 ^ 64) : (saturate n).toNat = n := by
  rw [saturate, Nat.min_eq_left (by omega), UInt64.toNat_ofNat', Nat.mod_eq_of_lt h]

theorem toInt_toInt64 (len : UInt64) (h : len.toNat < 2 ^ 63) :
    len.toInt64.toInt = len.toNat := by
  rw [← Int64.toInt_toBitVec, UInt64.toBitVec_toInt64, BitVec.toInt_eq_toNat_cond, if_pos]
  · rfl
  · rw [UInt64.toNat_toBitVec]
    omega

/-- Differences of such numbers do not overflow. -/
theorem toInt_sub (a b : UInt64) (ha : a.toNat < 2 ^ 63) (hb : b.toNat < 2 ^ 63) :
    (a.toInt64 - b.toInt64).toInt = a.toNat - b.toNat := by
  rw [Int64.toInt_sub, toInt_toInt64 a ha, toInt_toInt64 b hb, Int.bmod_eq_of_le] <;> omega

/-- The change of the counter by a new file. -/
theorem writeDelta_none (len : UInt64) (h : len.toNat + 256 < 2 ^ 63) :
    (writeDelta none len).toInt = len.toNat + 256 := by
  have hsub := toInt_sub len 0 (by omega) (by decide)
  have hmeta : fileMetadataSize.toInt64.toInt = 256 := by decide
  simp only [writeDelta, Option.isNone_none, if_true, Option.getD_none, Int64.toInt_add, hsub,
    hmeta]
  rw [Int.bmod_eq_of_le] <;> simp <;> omega

/-- The change of the counter by a file that is written again. -/
theorem writeDelta_some (old len : UInt64) (hold : old.toNat < 2 ^ 63)
    (hlen : len.toNat < 2 ^ 63) :
    (writeDelta (some old) len).toInt = len.toNat - old.toNat := by
  have hsub := toInt_sub len old hlen hold
  simp only [writeDelta, Option.isNone_some, Bool.false_eq_true, if_false, Option.getD_some,
    Int64.toInt_add, hsub, Int64.toInt_zero]
  rw [Int.bmod_eq_of_le] <;> omega

theorem saturatingAddSigned_toNat (used : UInt64) (delta : Int64)
    (h₀ : 0 ≤ used.toNat + delta.toInt) (h₁ : used.toNat + delta.toInt < 2 ^ 64) :
    ((saturatingAddSigned used delta).toNat : ℤ) = used.toNat + delta.toInt := by
  rw [saturatingAddSigned, saturate_toNat (by omega)]
  omega

theorem wouldExceedLimit_eq_true {used : UInt64} {delta : Int64} {max : Option UInt64} :
    wouldExceedLimit used delta max = true ↔
      ∃ m, max = some m ∧ (m.toNat : ℤ) < used.toNat + delta.toInt := by
  cases max with
  | none => simp [wouldExceedLimit]
  | some m =>
    simp only [wouldExceedLimit, Bool.and_eq_true, decide_eq_true_eq, Option.some.injEq,
      exists_eq_left']
    omega

end

/-- The used bytes after a write that fits: the old content goes, the new one comes. -/
theorem usedAfterWrite_toNat (metadata : FileMetadata) (hl : l.Ok)
    (hp : Places l u path existing newId)
    (hused : ∀ r, existing = some r → r.bytes ≤ u.usedBytes.toNat)
    (hfits : entryAfterWrite existing newId u.id path metadata ∉ l.entries →
      u.usedBytes.toNat + (entryAfterWrite existing newId u.id path metadata).bytes < 2 ^ 63) :
    (usedAfterWrite u.usedBytes existing metadata).toNat +
        (existing.map EntryRow.bytes).getD 0 =
      u.usedBytes.toNat + (entryAfterWrite existing newId u.id path metadata).bytes := by
  have hmeta : fileMetadataSize.toNat = 256 := by decide
  have hlt := u.usedBytes.toNat_lt
  cases existing with
  | none =>
    have hnew : entryAfterWrite none newId u.id path metadata ∉ l.entries := fun hmem =>
      hp.fresh rfl _ hmem rfl
    have hfits := hfits hnew
    simp only [entryAfterWrite, EntryRow.bytes, hmeta] at hfits ⊢
    have hdelta := writeDelta_none metadata.length
      (Nat.lt_of_le_of_lt (Nat.le_add_left _ u.usedBytes.toNat) hfits)
    have hsum := saturatingAddSigned_toNat u.usedBytes (writeDelta none metadata.length)
      (by omega) (by omega)
    simp only [usedAfterWrite, Option.map_none, Option.getD_none]
    omega
  | some r =>
    have hle := hused r rfl
    simp only [usedAfterWrite, Option.map_some, Option.getD_some]
    by_cases hsame : metadata.length = r.contentLength
    · have hzero : writeDelta (some r.contentLength) metadata.length = 0 := by
        simp [writeDelta, hsame]
      have hsum := saturatingAddSigned_toNat u.usedBytes 0 (by rw [Int64.toInt_zero]; omega)
        (by rw [Int64.toInt_zero]; omega)
      rw [Int64.toInt_zero] at hsum
      rw [hzero]
      simp only [entryAfterWrite, EntryRow.bytes, hsame]
      omega
    · have hnew : entryAfterWrite (some r) newId u.id path metadata ∉ l.entries := fun hmem =>
        hsame (congrArg EntryRow.contentLength
          (hl.entryKeys.eq_of_key_eq hmem (hp.old r rfl).1 rfl))
      have hfits := hfits hnew
      simp only [entryAfterWrite, EntryRow.bytes, hmeta] at hfits hle ⊢
      have hdelta := writeDelta_some r.contentLength metadata.length (by omega) (by omega)
      have hsum := saturatingAddSigned_toNat u.usedBytes
        (writeDelta (some r.contentLength) metadata.length) (by omega) (by omega)
      omega

/-- The used bytes after the deletion of a file that was counted. -/
theorem usedAfterDelete_toNat {used : UInt64} {deleted : EntryRow}
    (h : deleted.bytes ≤ used.toNat) :
    (usedAfterDelete used deleted).toNat = used.toNat - deleted.bytes := by
  have hlt := used.toNat_lt
  rw [EntryRow.bytes] at h ⊢
  rw [usedAfterDelete, saturate_toNat (n := deleted.contentLength.toNat + _) (by omega),
    saturate_toNat (by omega)]

theorem usage_eq (entries : List EntryRow) (user : ℕ) :
    usage entries user = (entries.map fun r => if r.user = user then r.bytes else 0).sum := by
  induction entries with
  | nil => rfl
  | cons r entries ih =>
    rw [usage] at ih ⊢
    by_cases hr : r.user = user
    · rw [List.filter_cons_of_pos (by simpa using hr), List.map_cons, List.map_cons, List.sum_cons,
        List.sum_cons, if_pos hr, ih]
    · rw [List.filter_cons_of_neg (by simpa using hr), List.map_cons, List.sum_cons, if_neg hr, ih,
        Nat.zero_add]

/-- The usage of a user after an entry is deleted. -/
theorem usage_del {entries : List EntryRow} (h : UniqueKeys entries) {r : EntryRow}
    (hr : r ∈ entries) (user : ℕ) :
    usage (Write.apply entries (.del r.id)) user + (if r.user = user then r.bytes else 0) =
      usage entries user := by
  have hsum := h.sum_filter (fun r => if r.user = user then r.bytes else 0) r.id
  rw [show lookup entries r.id = some r from h.lookup hr] at hsum
  rw [usage_eq, usage_eq]
  exact hsum

/-- The usage of a user after an entry is written. -/
theorem Places.usage (hl : l.Ok) (h : Places l u path existing newId) (metadata : FileMetadata)
    (user : ℕ) :
    usage (Write.apply l.entries (.put (entryAfterWrite existing newId u.id path metadata))) user +
        (if u.id = user then (existing.map EntryRow.bytes).getD 0 else 0) =
      usage l.entries user + if u.id = user then
        (entryAfterWrite existing newId u.id path metadata).bytes else 0 := by
  have hsum := hl.entryKeys.sum_filter (fun r => if r.user = user then r.bytes else 0)
    (entryAfterWrite existing newId u.id path metadata).id
  have hold : ((lookup l.entries (entryAfterWrite existing newId u.id path metadata).id).map
      fun r => if r.user = user then r.bytes else 0).getD 0 =
      if u.id = user then (existing.map EntryRow.bytes).getD 0 else 0 := by
    cases existing with
    | none =>
      have hnone : lookup l.entries (entryAfterWrite none newId u.id path metadata).id = none :=
        lookup_eq_none.2 fun v hv => h.fresh rfl v hv
      rw [hnone]
      simp
    | some r =>
      obtain ⟨hmem, huser, -⟩ := h.old r rfl
      rw [show lookup l.entries (entryAfterWrite (some r) newId u.id path metadata).id = some r from
        hl.entryKeys.lookup hmem]
      simp [huser]
  rw [hold] at hsum
  rw [usage_eq, usage_eq, Write.apply, List.map_append, List.sum_append, List.map_singleton,
    List.sum_singleton, h.user_eq, ← hsum]
  simp only [key_entryRow]
  omega

/-- An entry of the user is part of the usage. -/
theorem bytes_le_usage {entries : List EntryRow} {r : EntryRow} (hr : r ∈ entries)
    (hu : r.user = user) : r.bytes ≤ usage entries user :=
  List.single_le_sum (fun _ _ => Nat.zero_le _) _
    (List.mem_map.2 ⟨r, List.mem_filter.2 ⟨hr, by simpa using hu⟩, rfl⟩)

/-- The row of a user after another row, or a new version of it, is written. -/
theorem mem_put_user (hl : l.Ok) (hu : u ∈ l.users) {u' v : UserRow}
    (hv : v ∈ Write.apply l.users (.put u')) (hkey : u'.publicKey = u.publicKey)
    (hid : u'.id = u.id) :
    v = u' ∧ v.id = u.id ∨ v ∈ l.users ∧ v.id ≠ u.id := by
  rcases Write.mem_apply_put.1 hv with ⟨hv, hne⟩ | rfl
  · refine .inr ⟨hv, fun hidv => hne ?_⟩
    rw [hl.userIds v hv u hu hidv]
    exact hkey.symm
  · exact .inl ⟨rfl, hid⟩

theorem Ledger.Accounted.change (hl : l.Ok) (h : Change strict l l') (hfits : l.Fits user l')
    (hacc : l.Accounted user) : l'.Accounted user := by
  cases h with
  | same => exact hacc
  | write u hu path hfile metadata hfits' existing hsome hnone newId hid eventId hevent hapart =>
    have hp : Places l u path.asStr existing newId := ⟨hsome, hnone, hid⟩
    intro v hv hvid
    have husage := hp.usage hl metadata user
    rcases mem_put_user hl hu hv rfl rfl with ⟨rfl, huid⟩ | ⟨hv, hne⟩
    · have huser : u.id = user := hvid
      have hused := hacc u hu huser
      have hnew := usedAfterWrite_toNat metadata hl hp (fun r hr => ?_)
        fun hmem => hfits _ ((hp.mem hl).2 (.inr rfl)) hmem (hp.user_eq.trans huser) u hu huser
      · rw [if_pos huser, if_pos huser] at husage
        dsimp only
        omega
      · rw [hused]
        exact bytes_le_usage (hsome r hr).1 ((hsome r hr).2.1.trans huser)
    · rw [if_neg fun h => hne (hvid.trans h.symm), if_neg fun h => hne (hvid.trans h.symm)] at husage
      exact (hacc v hv hvid).trans husage.symm
  | delete u hu deleted hdeleted huser eventId hevent =>
    intro v hv hvid
    have husage := usage_del hl.entryKeys hdeleted user
    rw [huser] at husage
    rcases mem_put_user hl hu hv rfl rfl with ⟨rfl, -⟩ | ⟨hv, hne⟩
    · have hid : u.id = user := hvid
      have hused := hacc u hu hid
      have hlt := u.usedBytes.toNat_lt
      rw [if_pos hid] at husage
      have hdel : (usedAfterDelete u.usedBytes deleted).toNat = _ :=
        usedAfterDelete_toNat (by omega)
      dsimp only
      omega
    · rw [if_neg fun h => hne (hvid.trans h.symm)] at husage
      exact (hacc v hv hvid).trans husage.symm
  | administer u hu disabled quota =>
    intro v hv hvid
    rcases mem_put_user hl hu hv rfl rfl with ⟨rfl, -⟩ | ⟨hv, -⟩
    · exact hacc u hu hvid
    · exact hacc v hv hvid
  | signUp u hused hkey hid hentries hevents =>
    intro v hv hvid
    rcases List.mem_append.1 hv with hv | hv
    · exact hacc v hv hvid
    · obtain rfl := List.mem_singleton.1 hv
      have hnone : l.entries.filter (fun r => r.user = user) = [] := by
        refine List.filter_eq_nil_iff.2 fun r hr => ?_
        simpa [← hvid] using hentries r hr
      rw [hused, usage, hnone]
      rfl

/-! ## The event log -/

/-- What an event makes of the files, given by the hashes of their contents. Only a file that is
there can be deleted. -/
def replayEvent (files : Text → Option Bytes) (ev : EventRow) : Option (Text → Option Bytes) :=
  if ev.type = "PUT".toList then
    ev.contentHash.map fun hash => Function.update files ev.path (some hash)
  else if ev.type = "DEL".toList then
    (files ev.path).map fun _ => Function.update files ev.path none
  else none

/-- The files that the events leave, from none. -/
def replay (events : List EventRow) : Option (Text → Option Bytes) :=
  events.foldlM replayEvent fun _ => none

/-- The events of a user in the order of their ids. -/
def Ledger.log (l : Ledger) (user : ℕ) : List EventRow :=
  (l.events.filter fun ev => ev.user = user).mergeSort fun a b => a.id ≤ b.id

/-- The hash of the user's file at the path. -/
def Ledger.files (l : Ledger) (user : ℕ) (path : Text) : Option Bytes :=
  (l.entries.find? fun r => r.user = user ∧ r.path = path).map EntryRow.contentHash

/-- The events of the user, replayed, yield the user's files. -/
def Ledger.Logged (user : ℕ) (l : Ledger) : Prop :=
  replay (l.log user) = some (l.files user)

/-- Nothing is logged of no files. -/
theorem Ledger.Logged.of_nil (hentries : l.entries = []) (hevents : l.events = []) :
    l.Logged user := by
  have hlog : l.log user = [] := by simp [Ledger.log, hevents]
  have hfiles : l.files user = fun _ => none := by
    funext path
    simp [Ledger.files, hentries]
  rw [Ledger.Logged, hlog, hfiles]
  rfl

theorem replay_concat (events : List EventRow) (ev : EventRow) :
    replay (events ++ [ev]) = (replay events).bind fun files => replayEvent files ev := by
  simp [replay, List.foldlM_append]

theorem replayEvent_put (files : Text → Option Bytes) (hash : Bytes) (id user : ℕ) (path : Text) :
    replayEvent files ((EventType.put hash).toRow id user path) =
      some (Function.update files path (some hash)) := rfl

theorem replayEvent_delete {files : Text → Option Bytes} {path : Text} (h : files path ≠ none)
    (id user : ℕ) :
    replayEvent files (EventType.delete.toRow id user path) =
      some (Function.update files path none) := by
  obtain ⟨hash, hhash⟩ := Option.ne_none_iff_exists'.1 h
  show (files path).map _ = _
  rw [hhash]
  rfl

/-- The list of events is in order already. -/
theorem Ledger.Ok.log_eq (hl : l.Ok) (user : ℕ) :
    l.log user = l.events.filter fun ev => ev.user = user := by
  refine List.mergeSort_of_pairwise (List.Pairwise.filter _ (hl.events.imp fun h => ?_))
  simpa using Nat.le_of_lt h

section

variable (hl : l.Ok) (hl' : l'.Ok) {ev : EventRow} (hlast : ∀ old ∈ l.events, old.id < ev.id)
  (hevents : l'.events = Write.apply l.events (.put ev))
include hl hl' hlast hevents

/-- A new event is the last one of its user. -/
theorem Ledger.Ok.log_put (huser : ev.user = user) : l'.log user = l.log user ++ [ev] := by
  rw [hl.log_eq, hl'.log_eq, hevents, apply_put_event hlast, List.filter_append]
  simp [huser]

/-- The logs of other users stay. -/
theorem Ledger.Ok.log_put_of_ne (huser : ev.user ≠ user) : l'.log user = l.log user := by
  rw [hl.log_eq, hl'.log_eq, hevents, apply_put_event hlast, List.filter_append]
  simp [huser]

end

theorem Ledger.Ok.files_eq_some (hl : l.Ok) {hash : Bytes} :
    l.files user path = some hash ↔
      ∃ r ∈ l.entries, r.user = user ∧ r.path = path ∧ r.contentHash = hash := by
  rw [Ledger.files, Option.map_eq_some_iff]
  constructor
  · rintro ⟨r, hr, hhash⟩
    have hfound : r.user = user ∧ r.path = path := by simpa using List.find?_some hr
    obtain ⟨huser, hpath⟩ := hfound
    exact ⟨r, List.mem_of_find?_eq_some hr, huser, hpath, hhash⟩
  · rintro ⟨r, hr, huser, hpath, hhash⟩
    cases hfind : l.entries.find? fun r => r.user = user ∧ r.path = path with
    | none => exact absurd (List.find?_eq_none.1 hfind r hr) (by simp [huser, hpath])
    | some r' =>
      have hfound : r'.user = user ∧ r'.path = path := by simpa using List.find?_some hfind
      have heq := hl.entryPaths r' (List.mem_of_find?_eq_some hfind) r hr
        (hfound.1.trans huser.symm) (hfound.2.trans hpath.symm)
      exact ⟨r', rfl, by rw [heq, hhash]⟩

/-- Ledgers with the same files of a user. -/
theorem Ledger.Ok.files_congr (hl : l.Ok) (hl' : l'.Ok)
    (h : ∀ r : EntryRow, r.user = user → (r ∈ l'.entries ↔ r ∈ l.entries)) :
    l'.files user = l.files user := by
  funext path
  refine Option.ext fun hash => ?_
  rw [hl'.files_eq_some, hl.files_eq_some]
  constructor
  · rintro ⟨r, hr, huser, hrest⟩
    exact ⟨r, (h r huser).1 hr, huser, hrest⟩
  · rintro ⟨r, hr, huser, hrest⟩
    exact ⟨r, (h r huser).2 hr, huser, hrest⟩

/-- The files of the user after a write. -/
theorem Places.files (hl : l.Ok) (hl' : l'.Ok) (h : Places l u path existing newId)
    (hentries : l'.entries =
      Write.apply l.entries (.put (entryAfterWrite existing newId u.id path metadata))) :
    l'.files u.id = Function.update (l.files u.id) path (some metadata.hash) := by
  funext path'
  refine Option.ext fun hash => ?_
  rw [hl'.files_eq_some, hentries]
  have hhash : (entryAfterWrite existing newId u.id path metadata).contentHash = metadata.hash := by
    cases existing <;> rfl
  by_cases hpath : path' = path
  · subst hpath
    rw [Function.update_self]
    constructor
    · rintro ⟨r, hr, huser, hpath, rfl⟩
      rcases (h.mem hl).1 hr with ⟨-, hne⟩ | rfl
      · exact absurd ⟨huser, hpath⟩ hne
      · rw [hhash]
    · intro heq
      exact ⟨_, (h.mem hl).2 (.inr rfl), h.user_eq, h.path_eq, hhash.trans (Option.some.inj heq)⟩
  · rw [Function.update_of_ne hpath, hl.files_eq_some]
    constructor
    · rintro ⟨r, hr, huser, hr', hrest⟩
      rcases (h.mem hl).1 hr with ⟨hr, -⟩ | rfl
      · exact ⟨r, hr, huser, hr', hrest⟩
      · exact absurd (hr'.symm.trans h.path_eq) hpath
    · rintro ⟨r, hr, huser, hr', hrest⟩
      exact ⟨r, (h.mem hl).2 (.inl ⟨hr, fun hup => hpath (hr'.symm.trans hup.2)⟩), huser, hr', hrest⟩

/-- The files of the user after a deletion. -/
theorem Ledger.Ok.files_del (hl : l.Ok) (hl' : l'.Ok) {deleted : EntryRow}
    (hdeleted : deleted ∈ l.entries)
    (hentries : l'.entries = Write.apply l.entries (.del deleted.id)) :
    l'.files deleted.user = Function.update (l.files deleted.user) deleted.path none := by
  funext path
  refine Option.ext fun hash => ?_
  rw [hl'.files_eq_some, hentries]
  by_cases hpath : path = deleted.path
  · subst hpath
    rw [Function.update_self]
    refine ⟨fun ⟨r, hr, huser, hpath, _⟩ => ?_, nofun⟩
    obtain ⟨hr, hne⟩ := Write.mem_apply_del.1 hr
    exact absurd (congrArg EntryRow.id (hl.entryPaths r hr deleted hdeleted huser hpath)) hne
  · rw [Function.update_of_ne hpath, hl.files_eq_some]
    refine exists_congr fun r => ⟨fun ⟨hr, h⟩ => ⟨(Write.mem_apply_del.1 hr).1, h⟩, fun ⟨hr, h⟩ => ?_⟩
    refine ⟨Write.mem_apply_del.2 ⟨hr, fun hid => hpath ?_⟩, h⟩
    rw [← h.2.1, hl.entryKeys.eq_of_key_eq hr hdeleted hid]

/-- What a change does to the log and the files of a user. -/
inductive UserChange (user : ℕ) (l l' : Ledger) : Prop where
  | same (hlog : l'.log user = l.log user) (hfiles : l'.files user = l.files user)
  | put (path : Text) (hash : Bytes) (id : ℕ)
      (hlog : l'.log user = l.log user ++ [(EventType.put hash).toRow id user path])
      (hfiles : l'.files user = Function.update (l.files user) path (some hash))
  | delete (path : Text) (id : ℕ) (hthere : l.files user path ≠ none)
      (hlog : l'.log user = l.log user ++ [EventType.delete.toRow id user path])
      (hfiles : l'.files user = Function.update (l.files user) path none)

theorem Change.userChange (hl : l.Ok) (h : Change strict l l') (user : ℕ) : UserChange user l l' := by
  have hl' := hl.change h
  cases h with
  | same => exact .same rfl rfl
  | write u hu path hfile metadata hfits existing hsome hnone newId hid eventId hevent hapart =>
    have hp : Places l u path.asStr existing newId := ⟨hsome, hnone, hid⟩
    by_cases huser : u.id = user
    · subst huser
      exact .put _ _ _ (hl.log_put hl' hevent rfl rfl) (hp.files hl hl' rfl)
    · refine .same (hl.log_put_of_ne hl' hevent rfl huser) (hl.files_congr hl' fun r hr => ?_)
      rw [hp.mem hl]
      refine ⟨?_, fun hmem => .inl ⟨hmem, fun hup => huser (hup.1.symm.trans hr)⟩⟩
      rintro (⟨hmem, -⟩ | rfl)
      · exact hmem
      · exact absurd (hp.user_eq.symm.trans hr) huser
  | delete u hu deleted hdeleted hduser eventId hevent =>
    by_cases huser : u.id = user
    · obtain rfl := hduser.trans huser
      have hthere : l.files deleted.user deleted.path = some deleted.contentHash :=
        hl.files_eq_some.2 ⟨deleted, hdeleted, rfl, rfl, rfl⟩
      refine .delete deleted.path eventId (by simp [hthere]) ?_ (hl.files_del hl' hdeleted rfl)
      rw [hl.log_put hl' hevent rfl huser, huser]
    · refine .same (hl.log_put_of_ne hl' hevent rfl huser) (hl.files_congr hl' fun r hr => ?_)
      rw [Write.mem_apply_del]
      refine ⟨fun hmem => hmem.1, fun hmem => ⟨hmem, fun hid => huser ?_⟩⟩
      rw [← hduser, ← hr, hl.entryKeys.eq_of_key_eq hmem hdeleted hid]
  | administer u hu disabled quota => exact .same rfl rfl
  | signUp u hused hkey hid hentries hevents => exact .same rfl rfl

theorem Ledger.Logged.change (hl : l.Ok) (h : Change strict l l') (hlog : l.Logged user) :
    l'.Logged user := by
  unfold Ledger.Logged at hlog ⊢
  cases h.userChange hl user with
  | same hlog' hfiles => rw [hlog', hfiles, hlog]
  | put path hash id hlog' hfiles =>
    rw [hlog', hfiles, replay_concat, hlog, Option.bind_some, replayEvent_put]
  | delete path id hthere hlog' hfiles =>
    rw [hlog', hfiles, replay_concat, hlog, Option.bind_some, replayEvent_delete hthere]

/-! ## Deletions -/

/-- The event logs that the file was deleted. -/
def isDeletion (path : Text) (ev : EventRow) : Bool :=
  ev.type = "DEL".toList && ev.path = path

theorem isDeletion_put (path path' : Text) (hash : Bytes) (id user : ℕ) :
    isDeletion path ((EventType.put hash).toRow id user path') = false := rfl

theorem isDeletion_delete (path path' : Text) (id user : ℕ) :
    isDeletion path (EventType.delete.toRow id user path') = decide (path' = path) := rfl

/-- The events of deletions of a file. -/
def Ledger.deleteEvents (l : Ledger) (user : ℕ) (path : Text) : ℕ :=
  (l.log user).countP (isDeletion path)

/-- The file is there in the first ledger and gone in the second. -/
def gone (user : ℕ) (path : Text) (l l' : Ledger) : Bool :=
  (l.files user path).isSome && (l'.files user path).isNone

/-- A change logs the deletion of a file exactly if the file goes. -/
theorem Change.deleteEvents (hl : l.Ok) (h : Change strict l l') (user : ℕ) (path : Text) :
    l'.deleteEvents user path = l.deleteEvents user path + (gone user path l l').toNat := by
  unfold Ledger.deleteEvents gone
  cases h.userChange hl user with
  | same hlog hfiles =>
    rw [hlog, hfiles]
    cases l.files user path <;> rfl
  | put path' hash id hlog hfiles =>
    rw [hlog, hfiles, List.countP_append, List.countP_singleton, isDeletion_put]
    by_cases hpath : path = path'
    · simp [hpath]
    · rw [Function.update_of_ne hpath]
      cases l.files user path <;> rfl
  | delete path' id hthere hlog hfiles =>
    rw [hlog, hfiles, List.countP_append, List.countP_singleton, isDeletion_delete]
    by_cases hpath : path = path'
    · subst hpath
      simp [Option.isSome_iff_ne_none.2 hthere]
    · rw [Function.update_of_ne hpath, decide_eq_false (Ne.symm hpath)]
      cases l.files user path <;> rfl

/-! ## Files and folders -/

/-- No file of the user is also a folder. -/
def Ledger.Apart (user : ℕ) (l : Ledger) : Prop :=
  ∀ r ∈ l.entries, ∀ r' ∈ l.entries, r.user = user → r'.user = user → ¬ r.path ++ ['/'] <+: r'.path

/-- No character is between `/` and `0`. -/
theorem slash_covBy_zero : '/' ⋖ '0' := by
  refine ⟨by decide, fun y h₁ h₂ => ?_⟩
  have h₁ : 47 < y.val.toNat := h₁
  have h₂ : y.val.toNat < 48 := h₂
  omega

/-- The bounds of `descendantPathBounds` enclose what is below the folder. -/
theorem between_iff (folder t : Text) :
    folder ++ ['/'] < t ∧ t < folder ++ ['0'] ↔ folder ++ ['/'] <+: t ∧ t ≠ folder ++ ['/'] :=
  List.between_concat_iff slash_covBy_zero folder t

theorem mem_parents {fuel : ℕ} {path parent : Text} (hfuel : path.length ≤ fuel) :
    parent ∈ parents fuel path ↔ parent ≠ [] ∧ parent ++ ['/'] <+: path := by
  induction fuel generalizing path with
  | zero =>
    obtain rfl := List.length_eq_zero_iff.1 (Nat.le_zero.1 hfuel)
    simp [parents]
  | succ fuel ih =>
    by_cases hslash : '/' ∈ path
    · obtain ⟨p, s, rfl, hs⟩ := Text.exists_last hslash
      rw [parents, Text.rsplitOnce_append hs, Text.concat_isPrefix_append hs]
      dsimp only
      have hp : p.length ≤ fuel := by
        simp at hfuel
        omega
      by_cases hnil : p = []
      · subst hnil
        simp
      · rw [if_neg hnil, List.mem_cons, ih hp]
        constructor
        · rintro (rfl | ⟨hne, hpre⟩)
          · exact ⟨hnil, .inl rfl⟩
          · exact ⟨hne, .inr hpre⟩
        · rintro ⟨hne, rfl | hpre⟩
          · exact .inl rfl
          · exact .inr ⟨hne, hpre⟩
    · rw [parents, Text.rsplitOnce_eq_none hslash]
      refine ⟨nofun, fun h => absurd ?_ hslash⟩
      exact h.2.subset (by simp)

theorem mem_ancestorFilePaths {path parent : Text} (hfile : Text.endsWith '/' path = false) :
    parent ∈ ancestorFilePaths path ↔ parent ≠ [] ∧ parent ++ ['/'] <+: path := by
  have hself : (path.reverse.dropWhile (· = '/')).reverse = path := by
    rcases List.eq_nil_or_concat' path with rfl | ⟨front, last, rfl⟩
    · rfl
    · have hlast : last ≠ '/' := by simpa [Text.endsWith] using hfile
      simp [hlast]
  rw [ancestorFilePaths, hself]
  exact mem_parents (Nat.le_refl _)

theorem collides_eq_true {path existing : Text} :
    collides path existing = true ↔
      (withoutSlash path ++ ['/'] <+: existing ∧ existing ≠ withoutSlash path ++ ['/']) ∨
        existing ∈ ancestorFilePaths path ∨
        (Text.endsWith '/' path = true ∧ path.dropLast ≠ []) ∧ existing = path.dropLast := by
  simp only [collides, Bool.or_eq_true, Bool.and_eq_true, decide_eq_true_iff,
    List.contains_iff_mem, List.mem_append, List.mem_ite_nil_right, List.mem_singleton]
  rw [descendantPathBounds, between_iff]

/-- What the check for a file finds: files in the folder of that name, and files where the path
needs a folder. -/
theorem collides_iff {path : Text} (hfile : Text.endsWith '/' path = false) (existing : Text) :
    collides path existing = true ↔
      (path ++ ['/'] <+: existing ∧ existing ≠ path ++ ['/']) ∨
        (existing ≠ [] ∧ existing ++ ['/'] <+: path) := by
  simp only [collides_eq_true, withoutSlash, hfile, Bool.false_eq_true, if_false, false_and,
    or_false, mem_ancestorFilePaths hfile]

theorem Ledger.Apart.change (hl : l.Ok) (h : Change True l l') (hapart : l.Apart user) :
    l'.Apart user := by
  cases h with
  | same => exact hapart
  | write u hu path hfile metadata hfits existing hsome hnone newId hid eventId hevent hfree =>
    have hp : Places l u path.asStr existing newId := ⟨hsome, hnone, hid⟩
    have hends : Text.endsWith '/' path.asStr = false := (Bool.not_eq_eq_eq_not).1 hfile
    -- an entry that is there already passed the check
    have hnot : ∀ r ∈ l.entries, r.user = u.id →
        ¬ path.asStr ++ ['/'] <+: r.path ∧ ¬ r.path ++ ['/'] <+: path.asStr := by
      intro r hr huser
      have hno := mt (collides_iff hends r.path).2
        (Bool.eq_false_iff.1 (hfree trivial r hr huser))
      obtain ⟨path', hfile', hpath'⟩ := hl.files r hr
      refine ⟨fun hpre => hno (.inl ⟨hpre, fun heq => ?_⟩), fun hpre => hno (.inr ⟨?_, hpre⟩)⟩
      · rw [StoragePath.isFile, StoragePath.isDirectory, ← hpath', heq] at hfile'
        simp [Text.endsWith] at hfile'
      · obtain ⟨rest, hrest⟩ := path'.eq_cons
        rw [hpath', hrest]
        exact List.cons_ne_nil _ _
    intro r hr r' hr' huser huser' hpre
    rcases (hp.mem hl).1 hr with ⟨hr, -⟩ | rfl <;> rcases (hp.mem hl).1 hr' with ⟨hr', -⟩ | rfl
    · exact hapart r hr r' hr' huser huser' hpre
    · rw [hp.path_eq] at hpre
      exact (hnot r hr (huser.trans (huser'.symm.trans hp.user_eq))).2 hpre
    · rw [hp.path_eq] at hpre
      exact (hnot r' hr' (huser'.trans (huser.symm.trans hp.user_eq))).1 hpre
    · have := hpre.length_le
      simp at this
  | delete u hu deleted hdeleted hduser eventId hevent =>
    exact fun r hr r' hr' => hapart r (Write.mem_apply_del.1 hr).1 r' (Write.mem_apply_del.1 hr').1
  | administer u hu disabled quota => exact hapart
  | signUp u hused hkey hid hentries hevents => exact hapart

end Pubky.Homeserver.Storage
