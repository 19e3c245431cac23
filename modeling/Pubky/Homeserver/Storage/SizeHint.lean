import Mathlib.Data.UInt
import Pubky.Homeserver.Storage.Sample

/-!
# The early check of the quota

Before a body is read, `fail_if_size_hint_exceeds_quota` compares the length that the request
announces with what the user may store. The announced length is any 64-bit number without a sign,
and the change of the user's storage is computed in 64 bits with a sign: the check decides as exact
arithmetic does exactly for announcements below `2 ^ 63`, less the size of the metadata for a new
file (`size_hint_exact_iff`). The finalization computes the same change, so it refuses the same
lengths.
-/

namespace Pubky.Homeserver.Storage

open Conc Conc.Proc

variable {cfg : Config} {user : UserEntity} {existing : Option UInt64} {hint : UInt64}

/-- A 64-bit number without a sign, read as one with a sign. -/
def signed (x : UInt64) : ℤ := x.toInt64.toInt

/-- What a new file counts on top of its content. -/
def metadataBytes (existing : Option UInt64) : ℤ := if existing.isNone then 256 else 0

/-- The check refuses a body of this length over a stored entry of that length. -/
def exceedsQuota (cfg : Config) (user : UserEntity) (existing : Option UInt64) (hint : UInt64) :
    Bool :=
  wouldExceedLimit user.usedBytes (writeDelta existing hint)
    (resolveStorageMaxBytes user cfg.defaultStorageMb)

/-- The difference and the sum that the change is computed by are 64-bit numbers with a sign. -/
structure DeltaFits (existing : Option UInt64) (hint : UInt64) : Prop where
  ge : -2 ^ 63 ≤ signed hint - signed (existing.getD 0)
  lt : signed hint - signed (existing.getD 0) < 2 ^ 63
  add : signed hint - signed (existing.getD 0) + metadataBytes existing < 2 ^ 63

/-- The user's storage would exceed its limit, in exact arithmetic. -/
def ExceedsExactly (cfg : Config) (user : UserEntity) (existing : Option UInt64) (hint : UInt64) :
    Prop :=
  ∃ max, resolveStorageMaxBytes user cfg.defaultStorageMb = some max ∧
    (max.toNat : ℤ) <
      user.usedBytes.toNat + hint.toNat - (existing.getD 0).toNat + metadataBytes existing

/-! ## The programs -/

/-- The early check, given the answers of the database. -/
theorem failIfSizeHintExceedsQuota_runWith (path : EntryPath) (answers : (o : Op) → o.Res) :
    (failIfSizeHintExceedsQuota cfg (some hint) user path).run.runWith answers =
      if exceedsQuota cfg user
        ((answers (.getEntry path)).toOption.map EntryEntity.contentLength) hint then
        .error .insufficientStorage
      else .ok () := by
  have hid : ∀ {ε α : Type} (x : Except ε α), x.mapError id = x := by
    intro ε α x
    cases x <;> rfl
  have hanswer : ∀ found : Except SqlError EntryEntity,
      Except.mapError id (if !exceedsQuota cfg user
        ((found.mapError id).toOption.map EntryEntity.contentLength) hint then .ok ()
        else .error .insufficientStorage) =
      if exceedsQuota cfg user (found.toOption.map EntryEntity.contentLength) hint then
        .error HttpError.insufficientStorage
      else .ok () := by
    intro found
    rw [hid, hid]
    cases exceedsQuota cfg user (found.toOption.map EntryEntity.contentLength) hint <;> rfl
  exact hanswer (answers (.getEntry path))

/-- The check of the finalization. -/
theorem new_eq_error_iff {entry : Option EntryEntity} {metadata : FileMetadata}
    {e : OpendalError} :
    PreparedWrite.new cfg user entry metadata = .error e ↔
      e = .quotaExceeded ∧
        exceedsQuota cfg user (entry.map EntryEntity.contentLength) metadata.length = true := by
  rw [PreparedWrite.new, ← exceedsQuota]
  cases exceedsQuota cfg user (entry.map EntryEntity.contentLength) metadata.length with
  | false => simp
  | true =>
    rw [if_pos rfl, Except.error.injEq, eq_comm]
    simp

/-! ## The arithmetic -/

theorem signed_eq (x : UInt64) :
    signed x = if x.toNat < 2 ^ 63 then (x.toNat : ℤ) else x.toNat - 2 ^ 64 := by
  rw [signed, ← Int64.toInt_toBitVec, UInt64.toBitVec_toInt64, BitVec.toInt_eq_toNat_cond,
    UInt64.toNat_toBitVec]
  split <;> split <;> omega

theorem writeDelta_toInt (h : DeltaFits existing hint) :
    (writeDelta existing hint).toInt =
      signed hint - signed (existing.getD 0) + metadataBytes existing := by
  obtain ⟨hge, hlt, hadd⟩ := h
  have hmeta : (if existing.isNone then fileMetadataSize.toInt64 else 0).toInt =
      metadataBytes existing := by
    rw [metadataBytes]
    cases existing.isNone <;> decide
  have hsize : 0 ≤ metadataBytes existing := by
    rw [metadataBytes]
    split <;> omega
  simp only [writeDelta, Int64.toInt_add, Int64.toInt_sub, hmeta]
  rw [← signed, ← signed, Int.bmod_eq_of_le (n := signed hint - _), Int.bmod_eq_of_le] <;> omega

/-- Below `2 ^ 63` nothing overflows, and the check is exact. -/
theorem exceedsQuota_iff (cfg : Config) (user : UserEntity)
    (hstored : ∀ old, existing = some old → old.toNat < 2 ^ 63)
    (hhint : hint.toNat + metadataBytes existing < 2 ^ 63) :
    DeltaFits existing hint ∧
      (exceedsQuota cfg user existing hint = true ↔ ExceedsExactly cfg user existing hint) := by
  have hsize : 0 ≤ metadataBytes existing := by
    rw [metadataBytes]
    split <;> omega
  have hold : (existing.getD 0).toNat < 2 ^ 63 := by
    cases existing with
    | none => decide
    | some old => exact hstored old rfl
  have h₁ : signed hint = hint.toNat := by rw [signed_eq, if_pos (by omega)]
  have h₂ : signed (existing.getD 0) = (existing.getD 0).toNat := by rw [signed_eq, if_pos hold]
  have hfits : DeltaFits existing hint := ⟨by omega, by omega, by omega⟩
  refine ⟨hfits, ?_⟩
  rw [exceedsQuota, wouldExceedLimit_eq_true, ExceedsExactly, writeDelta_toInt hfits, h₁, h₂]
  refine exists_congr fun max => and_congr_right fun _ => ?_
  omega

/-- A user without files who may store a megabyte. -/
def megabyteUser (key : PublicKey) : UserEntity := ⟨0, key, false, 0, ⟨.value 1, none⟩⟩

/-- From `2 ^ 63` on an announcement overflows, or it passes although it exceeds a megabyte. -/
theorem not_exact_of_large (key : PublicKey)
    (hstored : ∀ old, existing = some old → old.toNat < 2 ^ 63)
    (hhint : ¬ hint.toNat + metadataBytes existing < 2 ^ 63) :
    ¬ (DeltaFits existing hint ∧ (exceedsQuota cfg (megabyteUser key) existing hint = true ↔
      ExceedsExactly cfg (megabyteUser key) existing hint)) := by
  rintro ⟨hfits, hiff⟩
  have hold : (existing.getD 0).toNat < 2 ^ 63 := by
    cases existing with
    | none => decide
    | some old => exact hstored old rfl
  have hlimit : resolveStorageMaxBytes (megabyteUser key) cfg.defaultStorageMb =
      some (saturate 1048576) := rfl
  have hmax : (saturate 1048576).toNat = 1048576 := saturate_toNat (by decide)
  have h₂ : signed (existing.getD 0) = (existing.getD 0).toNat := by rw [signed_eq, if_pos hold]
  have hzero : existing.isNone → (existing.getD 0).toNat = 0 := by
    cases existing with
    | none => simp
    | some old => simp
  rw [exceedsQuota, wouldExceedLimit_eq_true, writeDelta_toInt hfits, ExceedsExactly, hlimit]
    at hiff
  simp only [Option.some.injEq, exists_eq_left', hmax, h₂] at hiff
  have hused : (megabyteUser key).usedBytes.toNat = 0 := rfl
  rw [hused] at hiff
  obtain ⟨hge, hlt, hadd⟩ := hfits
  rw [h₂] at hge hlt hadd
  rw [metadataBytes] at hhint hiff hadd
  have hs := signed_eq hint
  have hbound := hint.toNat_lt
  by_cases hnone : existing.isNone = true
  · simp only [hnone, if_true, hzero hnone] at hhint hiff hadd
    split at hs <;> omega
  · simp only [hnone, Bool.false_eq_true, if_false] at hhint hiff hadd
    split at hs <;> omega

/-! ## Exactness -/

/-- Every operation has some answer. -/
theorem nonempty_res (o : Op) : Nonempty o.Res := by
  cases o <;>
    first
    | exact ⟨.error .rowNotFound⟩
    | exact ⟨.error .unexpected⟩
    | exact ⟨(0 : ℤ)⟩
    | exact ⟨([] : Text)⟩
    | exact ⟨(none : Option (Option UserQuota))⟩
    | exact ⟨()⟩

/-- Some database has an entry of that length at the path, or none. -/
theorem exists_answers (path : EntryPath) (existing : Option UInt64) :
    ∃ answers : (o : Op) → o.Res,
      (answers (.getEntry path)).toOption.map EntryEntity.contentLength = existing := by
  classical
  let found : Except SqlError EntryEntity :=
    existing.elim (.error .rowNotFound) fun old => .ok ⟨0, 0, path, [], old, []⟩
  have hfound : found.toOption.map EntryEntity.contentLength = existing := by
    cases existing <;> rfl
  let answers : (o : Op) → o.Res :=
    Function.update (fun o => (nonempty_res o).some) (.getEntry path) found
  have hanswers : answers (.getEntry path) = found := Function.update_self ..
  refine ⟨answers, ?_⟩
  rw [hanswers]
  exact hfound

/-- For every announced length and every stored length: the check never overflows and refuses
exactly what exceeds the limit in exact arithmetic, and what the finalization refuses for a body of
that length, if and only if the announced length and the metadata of a new file are below `2 ^ 63`
together. -/
theorem size_hint_exact_iff (cfg : Config) (path : EntryPath) (hint : UInt64)
    (existing : Option UInt64) (hstored : ∀ old, existing = some old → old.toNat < 2 ^ 63) :
    (∀ (user : UserEntity) (answers : (o : Op) → o.Res),
      (answers (.getEntry path)).toOption.map EntryEntity.contentLength = existing →
      DeltaFits existing hint ∧
      ((failIfSizeHintExceedsQuota cfg (some hint) user path).run.runWith answers =
        .error .insufficientStorage ↔ ExceedsExactly cfg user existing hint) ∧
      ∀ entry metadata, entry.map EntryEntity.contentLength = existing → metadata.length = hint →
        ((failIfSizeHintExceedsQuota cfg (some hint) user path).run.runWith answers =
          .error .insufficientStorage ↔
          PreparedWrite.new cfg user entry metadata = .error .quotaExceeded)) ↔
    hint.toNat + metadataBytes existing < 2 ^ 63 := by
  have hrefused : ∀ (user : UserEntity) (answers : (o : Op) → o.Res),
      (answers (.getEntry path)).toOption.map EntryEntity.contentLength = existing →
      ((failIfSizeHintExceedsQuota cfg (some hint) user path).run.runWith answers =
        .error .insufficientStorage ↔ exceedsQuota cfg user existing hint = true) := by
    intro user answers hanswers
    rw [failIfSizeHintExceedsQuota_runWith, hanswers]
    cases exceedsQuota cfg user existing hint <;> simp
  constructor
  · intro h
    by_contra hlarge
    obtain ⟨answers, hanswers⟩ := exists_answers path existing
    obtain ⟨hfits, hiff, -⟩ := h (megabyteUser path.pubkey) answers hanswers
    rw [hrefused _ _ hanswers] at hiff
    exact not_exact_of_large path.pubkey hstored hlarge ⟨hfits, hiff⟩
  · intro hhint user answers hanswers
    obtain ⟨hfits, hiff⟩ := exceedsQuota_iff cfg user hstored hhint
    rw [hrefused _ _ hanswers]
    refine ⟨hfits, hiff, fun entry metadata hentry hlength => ?_⟩
    rw [new_eq_error_iff, hentry, hlength, eq_self, true_and]

/-- A first file of a megabyte exceeds a limit of a megabyte by its metadata: it is refused early,
as it would be refused after its body was read. -/
theorem size_hint_exact_megabyte :
    ExceedsExactly Sample.onFileSystem (megabyteUser Sample.alice) none 1048576 ∧
    ∀ (user : UserEntity) (answers : (o : Op) → o.Res),
      (answers (.getEntry Sample.aliceFile)).toOption.map EntryEntity.contentLength = none →
      ((failIfSizeHintExceedsQuota Sample.onFileSystem (some 1048576) user Sample.aliceFile).run.runWith
        answers = .error .insufficientStorage ↔
        ExceedsExactly Sample.onFileSystem user none 1048576) := by
  refine ⟨⟨_, rfl, by decide +kernel⟩, fun user answers hanswers => ?_⟩
  exact ((size_hint_exact_iff Sample.onFileSystem Sample.aliceFile 1048576 none nofun).2
    (by decide +kernel) user answers hanswers).2.1

/-- An announcement of `2 ^ 63` bytes passes the check of a user who may store a megabyte. -/
theorem huge_size_hint_passes :
    ExceedsExactly Sample.onFileSystem (megabyteUser Sample.alice) none (2 ^ 63) ∧
    ∃ answers : (o : Op) → o.Res,
      (answers (.getEntry Sample.aliceFile)).toOption.map EntryEntity.contentLength = none ∧
      (failIfSizeHintExceedsQuota Sample.onFileSystem (some (2 ^ 63)) (megabyteUser Sample.alice)
        Sample.aliceFile).run.runWith answers = .ok () := by
  obtain ⟨answers, hanswers⟩ := exists_answers Sample.aliceFile none
  refine ⟨⟨_, rfl, by decide +kernel⟩, answers, hanswers, ?_⟩
  rw [failIfSizeHintExceedsQuota_runWith, hanswers]
  decide +kernel

end Pubky.Homeserver.Storage
