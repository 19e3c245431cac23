import Pubky.Homeserver.Events.Repository
import Pubky.Lib.Broadcast

/-!
# Event streams

`services/events_service/stream.rs`: a stream replays history from the database in batches and
then, in live mode, tails the broadcast channel. The stream is a state machine that stands
still wherever the source waits: for its guard, for the channel, for the database. What it is
waiting for comes from outside, so the same stream is driven by the event feed, where the guard
may answer anything, and by the credential checks, where events may be anything.
-/

namespace Pubky.Homeserver.Events

open Broadcast

/-! ## Cursors -/

inductive Mode where
  | forward
  | forwardLive
  | reverse
  deriving DecidableEq

def Mode.isLive (mode : Mode) : Bool := mode = .forwardLive

def Mode.isReverse (mode : Mode) : Bool := mode = .reverse

/-- Where a stream has got to. -/
inductive StreamCursor where
  /-- client stream: these users, each from its own cursor -/
  | perUser (cursors : AList fun _ : ℕ => Option EventCursor)
  /-- admin stream: one cursor over the whole feed -/
  | global (last : Option EventCursor) (userIds : Option (List ℕ))

namespace StreamCursor

/-- The next batch of history after the cursor. -/
def fetch (C : Crates) (users : List Storage.UserRow) (rows : List Storage.EventRow)
    (limit : Option ℕ) (reverse : Bool) (paths : List PathFilter) :
    StreamCursor → Except SqlError (List EventEntity)
  | .perUser cursors => getByUserCursors C users rows (userCursors cursors) limit reverse paths
  | .global last userIds => getAllFilteredByCursor C users rows last limit reverse paths userIds

/-- Record an event as sent. -/
def advance (event : EventEntity) : StreamCursor → StreamCursor
  | .perUser cursors => .perUser (cursors.insert event.userId (some event.cursor))
  | .global _ userIds => .global (some event.cursor) userIds

/-- Whether a live event belongs in the stream. -/
def acceptsLive (event : EventEntity) (paths : List PathFilter) : StreamCursor → Bool
  | .perUser cursors =>
    match cursors.lookup event.userId with
    | none => false
    | some last => pastCursor false last event.cursor && pathsMatch paths event.path.path.asStr
  | .global last userIds =>
    (userIds.all fun ids => ids.contains event.userId) && pastCursor false last event.cursor &&
      pathsMatch paths event.path.path.asStr

end StreamCursor

/-- What a stream sends. A limit of zero is refused when the query is parsed. -/
structure StreamOptions where
  paths : List PathFilter
  mode : Mode
  limit : Option ℕ
  limit_ne_zero : limit ≠ some 0

/-! ## The stream -/

/-- What the stream is doing. -/
inductive StreamPhase where
  /-- before a batch -/
  | checking
  /-- emptying the receiver before the query -/
  | draining
  | fetching
  /-- with the rest of a batch -/
  | sending (event : EventEntity) (rest : List EventEntity)
  | tailing
  | ended
  deriving DecidableEq

structure EventStream where
  cursor : StreamCursor
  options : StreamOptions
  phase : StreamPhase
  /-- The position of the receiver. -/
  position : ℕ
  totalSent : ℕ
  /-- The cursor it was opened with. -/
  since : StreamCursor
  /-- What the client got, oldest first. -/
  delivered : List EventEntity

namespace EventStream

/-- A stream subscribes before its first query. -/
def start (cursor : StreamCursor) (options : StreamOptions) (position : ℕ) : EventStream :=
  ⟨cursor, options, .checking, position, 0, cursor, []⟩

variable (s : EventStream)

/-- The stream after it has yielded an event: it ends at its limit, or goes on with `phase`. -/
def deliver (event : EventEntity) (phase : StreamPhase) : EventStream :=
  { s with
    cursor := s.cursor.advance event
    delivered := s.delivered ++ [event]
    totalSent := s.totalSent + 1
    phase := if s.options.limit.any (· ≤ s.totalSent + 1) then .ended else phase }

/-- How the replay is left when it is caught up or a query fails. -/
def leaveReplay : EventStream :=
  { s with phase := if s.options.mode.isLive then .tailing else .ended }

/-- The guard has been asked whether the stream may go on; asked in the replay before each batch
and each event, and in the tail whenever it has something to say. -/
def guarded (valid : Bool) : Option EventStream :=
  match s.phase with
  | .checking => some { s with phase := if valid then .draining else .ended }
  | .sending event rest =>
    if valid then
      some (s.deliver event (match rest with
        | [] => .checking
        | event :: rest => .sending event rest))
    else some { s with phase := .ended }
  | .tailing => some (if valid then s else { s with phase := .ended })
  | .draining | .fetching | .ended => none

/-- `while rx.try_recv().is_ok() {}`, one iteration. -/
def drained (r : Received EventEntity × ℕ) : Option EventStream :=
  match s.phase with
  | .draining =>
    some { s with
      position := r.2
      phase := match r.1 with
        | .value _ => .draining
        | .empty | .lagged | .closed => .fetching }
  | _ => none

/-- The events still owed under the limit. -/
def batchLimit : Option ℕ :=
  s.options.limit.map (· - s.totalSent)

/-- The query of the replay has been answered. -/
def fetched (r : Except SqlError (List EventEntity)) : Option EventStream :=
  match s.phase with
  | .fetching =>
    some (match r with
      | .error _ => s.leaveReplay
      | .ok [] => s.leaveReplay
      | .ok (event :: rest) => { s with phase := .sending event rest })
  | _ => none

/-- `rx.recv()` in the tail; it waits while there is nothing to receive. -/
def received (r : Received EventEntity × ℕ) : Option EventStream :=
  match s.phase with
  | .tailing =>
    let s := { s with position := r.2 }
    match r.1 with
    | .value event =>
      some (if s.cursor.acceptsLive event s.options.paths then s.deliver event .tailing else s)
    | .lagged => some { s with phase := .ended }
    | .closed => some { s with phase := .ended }
    | .empty => none
  | _ => none

end EventStream

/-! ## The stream as a machine -/

/-- What a waiting stream gets: an answer of its guard, of the channel before a query, of the
database, of the channel in the tail. -/
inductive Arrival where
  | guard (valid : Bool)
  | drain (r : Received EventEntity × ℕ)
  | batch (answer : Except SqlError (List EventEntity))
  | live (r : Received EventEntity × ℕ)

def EventStream.next (s : EventStream) : Arrival → Option EventStream
  | .guard valid => s.guarded valid
  | .drain r => s.drained r
  | .batch answer => s.fetched answer
  | .live r => s.received r

/-- A stream that has not ended goes on in another phase, with or without an event delivered. -/
theorem EventStream.next_cases {s s' : EventStream} {x : Arrival} (h : s.next x = some s') :
    s.phase ≠ .ended ∧ ∃ position phase,
      s' = { s with position := position, phase := phase } ∨
      ∃ e, s' = { s with position := position }.deliver e phase := by
  have hne : s.phase ≠ .ended := fun hended => by
    cases x <;> simp [next, guarded, drained, fetched, received, hended] at h
  refine ⟨hne, ?_⟩
  cases x with
  | guard valid =>
    simp only [next, guarded] at h
    split at h
    · cases h
      exact ⟨s.position, _, .inl rfl⟩
    · split at h <;> cases h
      · exact ⟨s.position, _, .inr ⟨_, rfl⟩⟩
      · exact ⟨s.position, _, .inl rfl⟩
    · cases h
      split
      · exact ⟨s.position, s.phase, .inl rfl⟩
      · exact ⟨s.position, _, .inl rfl⟩
    all_goals cases h
  | drain r =>
    simp only [next, drained] at h
    split at h <;> cases h
    exact ⟨r.2, _, .inl rfl⟩
  | batch answer =>
    simp only [next, fetched] at h
    split at h
    · cases h
      split <;> exact ⟨s.position, _, .inl rfl⟩
    · cases h
  | live r =>
    simp only [next, received] at h
    split at h
    · split at h
      · cases h
        split
        · exact ⟨r.2, _, .inr ⟨_, rfl⟩⟩
        · exact ⟨r.2, s.phase, .inl rfl⟩
      all_goals cases h
      all_goals exact ⟨r.2, _, .inl rfl⟩
    · cases h

/-- A stream keeps the cursor it was opened with and its options. -/
theorem EventStream.next_same {s s' : EventStream} {x : Arrival} (h : s.next x = some s') :
    s'.since = s.since ∧ s'.options = s.options := by
  obtain ⟨-, position, phase, rfl | ⟨e, rfl⟩⟩ := next_cases h <;> exact ⟨rfl, rfl⟩

end Pubky.Homeserver.Events
