import Pubky.Homeserver.Events.Stream

/-!
# The event feed of one homeserver

`persistence/sql/pg_event_listener.rs` and the streams it serves, as one transition system: the
transactions of any instance insert events, the listener of this instance polls the table and
broadcasts what is new, and streams read the table and the broadcasts. Every wait of the source
is a point where the others may act, and a query may fail wherever there is one. A wake-up comes
from a notification or from the fallback timer, so it may come at any time.
-/

namespace Pubky.Homeserver.Events

open Broadcast Storage

/-! ## The listener -/

/-- How `broadcast_new_events` returned. -/
inductive PollOutcome where
  /-- `Ok`, after a batch that was not full -/
  | caughtUp
  /-- `Ok`, after `maxBatchesPerWake` full batches; it has woken itself -/
  | capReached
  /-- `Err`, from a query -/
  | failed
  deriving DecidableEq

inductive PollPhase where
  | waiting
  /-- before the query of a batch, with the number of batches done -/
  | querying (batches : ℕ)
  /-- with the events of a batch that are still to be broadcast -/
  | broadcasting (batches : ℕ) (rest : List EventEntity) (isFullBatch : Bool)
  | returned (outcome : PollOutcome)
  deriving DecidableEq

structure Listener where
  lastBroadcastId : ℕ
  phase : PollPhase
  /-- The id that it started with. -/
  startId : ℕ
  /-- The rows that its last query could see. -/
  asked : List EventRow
  deriving DecidableEq

def maxBatchesPerWake : ℕ := 10

def batchSize : ℕ := 100

/-- `EventRepository::get_max_id` -/
def getMaxId (rows : List EventRow) : ℕ :=
  (rows.map EventRow.id).foldr max 0

/-- `PgEventListener::start` -/
def Listener.start (rows : List EventRow) : Listener :=
  ⟨getMaxId rows, .waiting, getMaxId rows, rows⟩

/-! ## The system -/

structure Feed where
  users : List UserRow
  log : EventLog
  listener : Listener
  channel : Channel EventEntity
  streams : ℕ → Option EventStream

inductive Action where
  /-- a new user -/
  | signUp (row : UserRow)
  /-- a statement of some transaction -/
  | statement (st : Statement)
  /-- the listener: `wake` or the timer, the query of a batch, one broadcast, the end of a batch,
  and back to waiting -/
  | wake
  | query (fails : Bool)
  | broadcast
  | endBatch
  | rest
  /-- stream `i`: its start, an answer of its guard, one `try_recv`, a query, one `recv` -/
  | subscribe (i : ℕ) (cursor : StreamCursor) (options : StreamOptions)
  | guard (i : ℕ) (valid : Bool)
  | drain (i : ℕ)
  | fetch (i : ℕ) (fails : Bool)
  | receive (i : ℕ)

/-- A query fails, or it is answered. -/
def query {α : Type} (fails : Bool) (answer : Except SqlError α) : Except SqlError α :=
  if fails then .error .database else answer

namespace Feed

variable (C : Crates) (f : Feed)

/-- The rows a reader sees. -/
def rows : List EventRow := f.log.rows

def withListener (listener : Listener) : Feed := { f with listener := listener }

/-- The listener in another phase of its poll. -/
def poll (phase : PollPhase) : Feed := f.withListener { f.listener with phase := phase }

/-- The query of a batch, `get_by_cursor` from the last broadcast id. -/
def pollQuery (batches : ℕ) (fails : Bool) : Feed :=
  match query fails (getByCursor C f.users f.rows (some f.listener.lastBroadcastId)
      (some batchSize) .all) with
  | .error _ => f.poll (.returned .failed)
  | .ok events =>
    f.withListener { f.listener with
      asked := f.rows
      phase := if events = [] then .returned .caughtUp
        else .broadcasting batches events (events.length = batchSize) }

/-- What follows a batch. -/
def afterBatch (batches : ℕ) (isFullBatch : Bool) : PollPhase :=
  if !isFullBatch then .returned .caughtUp
  else if batches + 1 < maxBatchesPerWake then .querying (batches + 1)
  else .returned .capReached

/-- Broadcast one event. -/
def pollBroadcast (batches : ℕ) (event : EventEntity) (rest : List EventEntity)
    (isFullBatch : Bool) : Feed :=
  { f with
    channel := f.channel.send event
    listener := { f.listener with
      lastBroadcastId := event.id
      phase := .broadcasting batches rest isFullBatch } }

/-- The query of a stream's replay. -/
def replayQuery (s : EventStream) (fails : Bool) : Except SqlError (List EventEntity) :=
  query fails
    (s.cursor.fetch C f.users f.rows s.batchLimit s.options.mode.isReverse s.options.paths)

/-- Stream `i` makes a step. -/
def onStream (i : ℕ) (step : EventStream → Option EventStream) : Option Feed := do
  let s ← f.streams i
  let s' ← step s
  return { f with streams := Function.update f.streams i (some s') }

def next : Action → Option Feed
  | .signUp row =>
    if f.users.any fun u => u.id = row.id ∨ u.publicKey = row.publicKey then none
    else some { f with users := f.users ++ [row] }
  | .statement st => (f.log.next st).map fun log => { f with log := log }
  | .wake =>
    match f.listener.phase with
    | .waiting => some (f.poll (.querying 0))
    | _ => none
  | .query fails =>
    match f.listener.phase with
    | .querying batches => some (f.pollQuery C batches fails)
    | _ => none
  | .broadcast =>
    match f.listener.phase with
    | .broadcasting batches (event :: rest) full => some (f.pollBroadcast batches event rest full)
    | _ => none
  | .endBatch =>
    match f.listener.phase with
    | .broadcasting batches [] full => some (f.poll (afterBatch batches full))
    | _ => none
  | .rest =>
    match f.listener.phase with
    | .returned _ => some (f.poll .waiting)
    | _ => none
  | .subscribe i cursor options =>
    match f.streams i with
    | some _ => none
    | none =>
      some { f with
        streams := Function.update f.streams i
          (some (.start cursor options f.channel.subscribe)) }
  | .guard i valid => f.onStream i fun s => s.guarded valid
  | .drain i => f.onStream i fun s => s.drained (f.channel.tryRecv s.position)
  | .fetch i fails => f.onStream i fun s => s.fetched (f.replayQuery C s fails)
  | .receive i => f.onStream i fun s => s.received (f.channel.tryRecv s.position)

end Feed

/-- A homeserver that has started its listener and has no stream yet. -/
structure Feed.Initial (f : Feed) : Prop where
  log : f.log.Ok
  listener : f.listener = .start f.rows
  nothingSent : f.channel.sent = []
  noStreams : ∀ i, f.streams i = none
  userIds : f.users.Pairwise fun a b => a.id ≠ b.id

/-- Runs with any interleaving. -/
def Runs (C : Crates) : Feed → Feed → Prop :=
  Transitions.Reaches (Feed.next C) fun _ _ => True

/-! ## What a step changes -/

/-- A step of stream `i`. -/
inductive Feed.Moves (C : Crates) (f : Feed) (i : ℕ) (s : EventStream) :
    Action → EventStream → Prop where
  | guard (valid : Bool) (s' : EventStream) (h : s.guarded valid = some s') :
      Moves C f i s (.guard i valid) s'
  | drain (s' : EventStream) (h : s.drained (f.channel.tryRecv s.position) = some s') :
      Moves C f i s (.drain i) s'
  | fetch (fails : Bool) (s' : EventStream) (h : s.fetched (f.replayQuery C s fails) = some s') :
      Moves C f i s (.fetch i fails) s'
  | receive (s' : EventStream) (h : s.received (f.channel.tryRecv s.position) = some s') :
      Moves C f i s (.receive i) s'

/-- A step of a transaction, of the listener or of a stream. -/
inductive Feed.Change (C : Crates) (f : Feed) : Action → Feed → Prop where
  | signUp (row : UserRow) (hnew : ∀ u ∈ f.users, u.id ≠ row.id) :
      Change C f (.signUp row) { f with users := f.users ++ [row] }
  | statement (st : Statement) (log : EventLog) (h : f.log.next st = some log) :
      Change C f (.statement st) { f with log := log }
  | wake : Change C f .wake (f.poll (.querying 0))
  | query (batches : ℕ) (fails : Bool) : Change C f (.query fails) (f.pollQuery C batches fails)
  | broadcast (batches : ℕ) (event : EventEntity) (rest : List EventEntity) (full : Bool)
      (h : f.listener.phase = .broadcasting batches (event :: rest) full) :
      Change C f .broadcast (f.pollBroadcast batches event rest full)
  | endBatch (batches : ℕ) (full : Bool) (h : f.listener.phase = .broadcasting batches [] full) :
      Change C f .endBatch (f.poll (afterBatch batches full))
  | rest : Change C f .rest (f.poll .waiting)
  | subscribe (i : ℕ) (cursor : StreamCursor) (options : StreamOptions)
      (h : f.streams i = none) :
      Change C f (.subscribe i cursor options)
        { f with
          streams := Function.update f.streams i
            (some (.start cursor options f.channel.subscribe)) }
  | stream (a : Action) (i : ℕ) (s s' : EventStream) (hs : f.streams i = some s)
      (h : f.Moves C i s a s') :
      Change C f a { f with streams := Function.update f.streams i (some s') }

variable {C : Crates} {f f' : Feed} {a : Action}

theorem Feed.onStream_eq_some {i : ℕ} {step : EventStream → Option EventStream}
    (h : f.onStream i step = some f') :
    ∃ s s', f.streams i = some s ∧ step s = some s' ∧
      f' = { f with streams := Function.update f.streams i (some s') } := by
  simp only [Feed.onStream, Option.bind_eq_bind, Option.bind_eq_some_iff] at h
  obtain ⟨s, hs, s', hs', h⟩ := h
  exact ⟨s, s', hs, hs', (Option.some.inj h).symm⟩

theorem Feed.next_cases (h : f.next C a = some f') : f.Change C a f' := by
  cases a with
  | signUp row =>
    simp only [Feed.next] at h
    split at h
    · cases h
    · rename_i hnew
      cases h
      refine .signUp row fun u hu heq => hnew ?_
      exact List.any_eq_true.2 ⟨u, hu, decide_eq_true (.inl heq)⟩
  | statement st =>
    obtain ⟨log, hlog, rfl⟩ := Option.map_eq_some_iff.1 h
    exact .statement st log hlog
  | wake =>
    simp only [Feed.next] at h
    split at h
    · cases h
      exact .wake
    · cases h
  | query fails =>
    simp only [Feed.next] at h
    split at h
    · cases h
      exact .query _ fails
    · cases h
  | broadcast =>
    simp only [Feed.next] at h
    split at h
    · rename_i batches event rest full hphase
      cases h
      exact .broadcast batches event rest full hphase
    · cases h
  | endBatch =>
    simp only [Feed.next] at h
    split at h
    · rename_i batches full hphase
      cases h
      exact .endBatch batches full hphase
    · cases h
  | rest =>
    simp only [Feed.next] at h
    split at h
    · cases h
      exact .rest
    · cases h
  | subscribe i cursor options =>
    simp only [Feed.next] at h
    split at h
    · cases h
    · rename_i hnone
      cases h
      exact .subscribe i cursor options hnone
  | guard i valid =>
    obtain ⟨s, s', hs, hs', rfl⟩ := Feed.onStream_eq_some h
    exact .stream _ i s s' hs (.guard valid s' hs')
  | drain i =>
    obtain ⟨s, s', hs, hs', rfl⟩ := Feed.onStream_eq_some h
    exact .stream _ i s s' hs (.drain s' hs')
  | fetch i fails =>
    obtain ⟨s, s', hs, hs', rfl⟩ := Feed.onStream_eq_some h
    exact .stream _ i s s' hs (.fetch fails s' hs')
  | receive i =>
    obtain ⟨s, s', hs, hs', rfl⟩ := Feed.onStream_eq_some h
    exact .stream _ i s s' hs (.receive s' hs')

theorem Feed.Moves.exists_next {i : ℕ} {s s' : EventStream} (h : f.Moves C i s a s') :
    ∃ x, s.next x = some s' := by
  cases h with
  | guard valid _ h => exact ⟨.guard valid, h⟩
  | drain _ h => exact ⟨.drain _, h⟩
  | fetch fails _ h => exact ⟨.batch _, h⟩
  | receive _ h => exact ⟨.live _, h⟩

theorem Feed.Moves.same {i : ℕ} {s s' : EventStream} (h : f.Moves C i s a s') :
    s'.since = s.since ∧ s'.options = s.options := by
  obtain ⟨x, hx⟩ := h.exists_next
  exact EventStream.next_same hx

end Pubky.Homeserver.Events
