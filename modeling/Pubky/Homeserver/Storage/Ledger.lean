import Pubky.Homeserver.Storage.Effects

/-!
# The ledger of a homeserver

The abstract model of the file storage: the committed users, entries and events, and the
changes that leave them consistent. `Change` says what one transaction may do to the ledger as
a whole; it knows nothing of statements, locks or interleavings. That every step of the machine
is such a change is shown in `Pubky.Homeserver.Storage.Refinement`.

What every change of a ledger keeps true is the subject of
`Pubky.Homeserver.Storage.Bookkeeping`.
-/

namespace Pubky.Homeserver.Storage

open Sql

/-- The committed rows. -/
structure Ledger where
  users : List UserRow
  entries : List EntryRow
  events : List EventRow

/-- The row of a file after a write: the entry there was, or a new one. -/
def entryAfterWrite (existing : Option EntryRow) (newId user : ℕ) (path : Text)
    (metadata : FileMetadata) : EntryRow :=
  match existing with
  | some r => { r with contentHash := metadata.hash, contentLength := metadata.length
                       contentType := metadata.contentType }
  | none => { id := newId, user := user, path := path, contentHash := metadata.hash
              contentLength := metadata.length, contentType := metadata.contentType }

/-- The row of an event. -/
def EventType.toRow (type : EventType) (id user : ℕ) (path : Text) : EventRow where
  id := id
  user := user
  type := type.toText
  path := path
  contentHash := type.contentHash

/-- The used bytes of a user after a write. -/
def usedAfterWrite (used : UInt64) (existing : Option EntryRow) (metadata : FileMetadata) :
    UInt64 :=
  saturatingAddSigned used (writeDelta (existing.map EntryRow.contentLength) metadata.length)

/-- The used bytes of a user after a deletion. -/
def usedAfterDelete (used : UInt64) (deleted : EntryRow) : UInt64 :=
  saturate (used.toNat - (saturate (deleted.contentLength.toNat + fileMetadataSize.toNat)).toNat)

/-- What one transaction may do to the ledger. A `strict` ledger is written by the operator of
the client server only. -/
inductive Change (strict : Prop) (l : Ledger) : Ledger → Prop where
  | same : Change strict l l
  | write (u : UserRow) (hu : u ∈ l.users) (path : StoragePath) (hfile : path.isFile = true)
      (metadata : FileMetadata) (hfits : metadata.length.toNat < 2 ^ 63)
      (existing : Option EntryRow)
      (hsome : ∀ r, existing = some r → r ∈ l.entries ∧ r.user = u.id ∧ r.path = path.asStr)
      (hnone : existing = none → ∀ r ∈ l.entries, r.user = u.id → r.path ≠ path.asStr)
      (newId : ℕ) (hid : existing = none → ∀ r ∈ l.entries, r.id ≠ newId)
      (eventId : ℕ) (hevent : ∀ e ∈ l.events, e.id < eventId)
      (hapart : strict → ∀ r ∈ l.entries, r.user = u.id → collides path.asStr r.path = false) :
      Change strict l
        ⟨Write.apply l.users (.put
            { u with usedBytes := usedAfterWrite u.usedBytes existing metadata }),
          Write.apply l.entries (.put (entryAfterWrite existing newId u.id path.asStr metadata)),
          Write.apply l.events (.put ((EventType.put metadata.hash).toRow eventId u.id path.asStr))⟩
  | delete (u : UserRow) (hu : u ∈ l.users) (deleted : EntryRow) (hdeleted : deleted ∈ l.entries)
      (huser : deleted.user = u.id) (eventId : ℕ) (hevent : ∀ e ∈ l.events, e.id < eventId) :
      Change strict l
        ⟨Write.apply l.users (.put { u with usedBytes := usedAfterDelete u.usedBytes deleted }),
          Write.apply l.entries (.del deleted.id),
          Write.apply l.events (.put (EventType.delete.toRow eventId u.id deleted.path))⟩
  | administer (u : UserRow) (hu : u ∈ l.users) (disabled : Bool) (quota : UserQuota) :
      Change strict l
        { l with users := Write.apply l.users (.put { u with disabled := disabled, quota := quota }) }
  | signUp (u : UserRow) (hused : u.usedBytes = 0) (hkey : ∀ v ∈ l.users, v.publicKey ≠ u.publicKey)
      (hid : ∀ v ∈ l.users, v.id ≠ u.id) (hentries : ∀ r ∈ l.entries, r.user ≠ u.id)
      (hevents : ∀ e ∈ l.events, e.user ≠ u.id) :
      Change strict l { l with users := l.users ++ [u] }

/-- The committed rows of a state. -/
def State.ledger (s : State) : Ledger :=
  ⟨s.users.rows, s.entries.rows, s.events.rows⟩

/-- The rows that the transaction of call `i` sees, and that it would commit. -/
def State.ledgerOf (s : State) (i : ℕ) : Ledger :=
  ⟨s.users.view i, s.entries.view i, s.events.view i⟩

end Pubky.Homeserver.Storage
