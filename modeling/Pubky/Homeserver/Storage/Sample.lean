import Pubky.Common.Utf8
import Pubky.Homeserver.Storage.Refinement

/-!
# A sample storage

A concrete instance of `StorageCrates` with its laws, and a storage of two users without files,
for runs of the machine. The digests are those of BLAKE3 on the contents that occur.
-/

namespace Pubky.Homeserver.Storage.Sample

open Sql Conc

/-! ## Crates -/

/-- `opendal::raw::normalize_path` -/
def normalizePath (path : Text) : Text :=
  let path := (Text.trim path).dropWhile (· = '/')
  if path = [] then ['/']
  else
    let joined := Text.join '/' ((path.splitOn '/').filter (· ≠ []))
    if Text.endsWith '/' path then joined ++ ['/'] else joined

/-- The digests of the contents `a` and `b`; of other contents only their length is right. -/
def blake3 (content : Bytes) : Bytes :=
  if content = utf8 "a".toList then
    bytesOfNat 32 0x17762fddd969a453925d65717ac3eea21320b66b54342fde15128d6caf21215f
  else if content = utf8 "b".toList then
    bytesOfNat 32 0x10e5cf3d3c8a4f9f3468c8cc58eea84892a22fdadbc1acb22410190044c1d553
  else List.replicate 32 0

/-- Texts without escapes are their own decoding, contents have no magic bytes, and paths have no
extension. -/
def crates : StorageCrates where
  toCrates := .ofTokens [] [] [] []
  percentDecode t := if '%' ∈ t then none else some t
  normalizePath := normalizePath
  hash := blake3
  infer _ := none
  mimeFromPath _ := "application/octet-stream".toList

/-- The same crates with the decoding of escapes. -/
def decodingCrates : StorageCrates :=
  { crates with percentDecode := percentDecodeUtf8 }

theorem normalizePath_eq {path : Text}
    (hhead : ∀ c, path.head? = some c → Text.isWhitespace c = false)
    (hlast : ∀ c, path.getLast? = some c → Text.isWhitespace c = false)
    (hsegments : ∀ segment ∈ path.splitOn '/', segment ≠ []) : normalizePath path = path := by
  have hslash : path.dropWhile (· = '/') = path := by
    cases path with
    | nil => rfl
    | cons x xs =>
      have hx : x ≠ '/' := by
        rintro rfl
        exact hsegments [] (by simp [List.splitOn_cons_eq_if_modifyHead]) rfl
      rw [List.dropWhile_cons_of_neg (by simpa using hx)]
  have hne : path ≠ [] := by
    rintro rfl
    exact hsegments [] (by simp) rfl
  have hends : Text.endsWith '/' path = false := by
    rw [Bool.eq_false_iff]
    intro hends
    obtain ⟨front, rfl⟩ : ∃ front, path = front ++ ['/'] := by
      obtain ⟨front, last, rfl⟩ := (List.eq_nil_or_concat' path).resolve_left hne
      have hslash : last = '/' := by simpa [Text.endsWith] using hends
      exact ⟨front, by rw [hslash]⟩
    refine hsegments [] ?_ rfl
    have hjoin := Text.join_splitOn (c := '/') (t := front)
    rw [← hjoin, ← Text.join_append_empty (List.splitOn_ne_nil '/' front), Text.splitOn_join]
    · simp
    · intro segment hsegment
      rcases List.mem_append.1 hsegment with hsegment | hsegment
      · exact Text.not_mem_of_mem_splitOn hsegment
      · simp [List.mem_singleton.1 hsegment]
    · simp
  have hfilter : (path.splitOn '/').filter (· ≠ []) = path.splitOn '/' :=
    List.filter_eq_self.2 fun segment hs => by simpa using hsegments segment hs
  rw [normalizePath, Text.trim_eq hhead hlast, hslash]
  simp only [hne, hends, hfilter, Text.join_splitOn, if_false, Bool.false_eq_true]

theorem crates_lawful : crates.Lawful where
  fromZ32_z32 := PublicKey.ofZ32_z32
  z32_length := PublicKey.length_z32
  z32_chars := fun _ _ hc => BitCodec.Alphabet.mem_of_mem_encode (by decide) hc
  normalizePath_eq := fun _ => normalizePath_eq

/-! ## Users -/

def alice : PublicKey :=
  .ofNat 0x8a88e3dd7409f195fd52db2d3cba5d72ca6709bf1d94121bf3748801b40f6f5c

def bob : PublicKey :=
  .ofNat 0x8139770ea87d175f56a35466c34c7ecccb8d8a91b4ee37a25df60f5b8fc9b394

def unlimited : UserQuota := ⟨.unlimited, none⟩

/-- A storage of two users without files. -/
def start : Pl where
  world :=
    { state :=
        { clock := 1700000000
          users := ⟨[⟨0, alice.z32, false, 0, unlimited⟩, ⟨1, bob.z32, false, 0, unlimited⟩], [], []⟩
          entries := ⟨[], [], []⟩
          events := ⟨[], [], []⟩
          entryLocks := ⟨[], [], []⟩
          nextEventId := 1
          eventLock := none
          txs := []
          nextTx := 0
          blobs := []
          nextGeneration := 0
          inFlight := []
          quotaCache := []
          keepAlives := []
          userIds := [alice.z32, bob.z32]
          entryIds := []
          journal := []
          published := []
          held := []
          unlocked := [] }
      hist := [] }
  threads := fun _ => none

theorem start_initial : Initial crates start where
  threads := fun _ => rfl
  hist := rfl
  still := by constructor <;> simp [start]
  consistent :=
    { userKeys := by
        rw [UniqueKeys]
        decide +kernel
      userRows := by simp [start]
      userIds := by
        refine ⟨by decide +kernel, fun k hk => ?_⟩
        rcases List.mem_pair.1 hk with rfl | rfl
        · exact ⟨⟨alice, rfl⟩, by simp [start]⟩
        · exact ⟨⟨bob, rfl⟩, by simp [start]⟩
      entryKeys := List.nodup_nil
      entryRows := by simp [start]
      entryIds := by simp [start]
      entryPaths := by simp [start]
      files := by simp [start]
      eventOrder := List.Pairwise.nil
      events := by simp [start]
      lockKeys := List.nodup_nil
      blobKeys := List.nodup_nil
      blobs := by simp [start] }

theorem start_complete : start.world.state.Complete := by
  simp [State.Complete, start]

/-! ## Schedules -/

section

variable {C : StorageCrates} {strict steady : Prop} [Decidable strict] [Decidable steady]

/-- Decide a property of a result, if there is one. -/
def decidableForallOk {ε α : Type} {P : α → Prop} [DecidablePred P] (x : Except ε α) :
    Decidable (∀ a, x = .ok a → P a) :=
  match x with
  | .error _ => .isTrue nofun
  | .ok a => decidable_of_iff (P a) ⟨fun h _ heq => Except.ok.inj heq ▸ h, fun h => h a rfl⟩

instance decidableWritesOrDeletes (operation : Operation) :
    Decidable (match operation with | .write _ _ | .delete _ _ => True | _ => False) := by
  cases operation <;> infer_instance

instance (w : Wld) (l : Lbl) : Decidable (Admits C strict steady w l) :=
  match l with
  | .call _ (.keepAlive parent path token) =>
    inferInstanceAs (Decidable (⟨parent, path, token⟩ ∈ w.state.keepAlives))
  | .call _ (.operate access operation) =>
    have := fun key => decidableForallOk
      (P := fun e : EntryPath => ∃ r ∈ w.state.users.rows, r.publicKey = C.z32 e.pubkey)
      (parseOpendal C (C.normalizePath key))
    inferInstanceAs (Decidable ((strict → access = .app) ∧ (steady →
      (match operation with | .write _ _ | .delete _ _ => True | _ => False) ∧
        ∀ key ∈ operation.keys, ∀ e, parseOpendal C (C.normalizePath key) = .ok e →
          ∃ r ∈ w.state.users.rows, r.publicKey = C.z32 e.pubkey)))
  | .call _ (.request _) | .call _ (.patchQuota _ _) | .call _ (.setDisabled _ _) => .isTrue trivial
  | .op _ _ (.late _) => inferInstanceAs (Decidable (¬ steady))
  | .op _ _ .done | .op _ _ (.failed _) | .op _ _ (.lost _) | .op _ _ (.token _) => .isTrue trivial
  | .ret _ _ => .isTrue trivial
  | .drop i => inferInstanceAs (Decidable (steady → w.state.alive i = false))
  | .env (.lose _) => inferInstanceAs (Decidable (¬ steady))
  | .env (.tick _) | .env (.addUser _ _) | .env (.land _) | .env (.disconnect _)
  | .env (.expireQuota _) => .isTrue trivial

end

/-- The next `n` operations of a call are carried out. -/
def proceed (i n : ℕ) : List (Conc.Action Choice Env Call) :=
  List.replicate n (.run i .done)

/-- The key of a file. -/
def keyOf (user : PublicKey) (path : String) : Text :=
  user.z32 ++ path.toList

/-- A file of alice. -/
theorem aliceFile_canonical : validateCanonical "/pub/a".toList = .ok () := by decide

def aliceFile : EntryPath := ⟨alice, ⟨"/pub/a".toList, aliceFile_canonical⟩⟩

/-- Files are stored in a file system, and nobody's storage is limited. -/
def onFileSystem : Config := ⟨.fileSystem, none⟩

/-- Files are stored in an object store. -/
def onBucket : Config := ⟨.googleBucket, none⟩

/-- An operator writes a file of alice. -/
def write (path : String) (content : Bytes) : Call :=
  .operate .app (.write (keyOf alice path) [some content])

/-- An operator deletes a file of alice. -/
def remove (path : String) : Call :=
  .operate .app (.delete [keyOf alice path] 0)

/-- Alice may do anything with their files. -/
def aliceSession : AuthSession :=
  .cookie ⟨0, "0TEST0SESSION0SECRET0ALICE".toList, 0, alice, ⟨[.root]⟩⟩

/-- Alice writes a file of theirs. -/
def putRequest (path : String) (headers : HeaderMap) (content : Bytes) : Request where
  method := .put
  head := ⟨"/storage/".toList ++ keyOf alice path, none, headers⟩
  session := some aliceSession
  body := [some content]

/-- Alice asks for a write lock. -/
def lockRequest (path : String) : Request :=
  { putRequest path ⟨[]⟩ [] with method := .lock, body := [] }

/-- The headers of a request that presents a lock token. -/
def presenting (token : String) : HeaderMap :=
  ⟨[("if".toList, some ("(<opaquelocktoken:".toList ++ token.toList ++ ">)".toList))]⟩

/-- Alice gets `/pub/a` and `/pub/b`, one after the other; then `/pub/a` is deleted. Only the first
call has to look up what alice may write. -/
def twoFilesAndOneGone : List (Conc.Action Choice Env Call) :=
  .call 0 (write "/pub/a" (utf8 "a".toList)) :: proceed 0 19 ++
    .call 1 (write "/pub/b" (utf8 "b".toList)) :: proceed 1 16 ++
    .call 2 (remove "/pub/a") :: proceed 2 17

end Pubky.Homeserver.Storage.Sample
