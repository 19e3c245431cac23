import Pubky.Homeserver.Events.Broadcasts

/-!
# Live streams have no gaps

A live stream of a client delivers the events it owes in the order of their ids. Its position is
spread over three places: the cursors say what is still owed, a batch of the replay holds the
next of it, and in the tail it lies in the channel ahead of the receiver or is not broadcast yet
(`TailOk`). The replay hands over to the tail only with nothing owed, so that it does not matter
what was drained from the channel before.

A failed query of the replay breaks this: the stream goes over to the tail although it owes what
the query did not return.
-/

namespace Pubky.Homeserver.Events

open Broadcast Storage

abbrev UserCursors := AList fun _ : ℕ => Option EventCursor

variable {C : Crates} {users : List UserRow} {rows : List EventRow} {sent : List EventEntity}
  {start cur : UserCursors} {paths : List PathFilter} {delivered : List EventEntity} {last : ℕ}
  {r r' : EventRow} {e : EventEntity}

/-! ## Phases of a stream -/

variable {s s' : EventStream}

/-! ## Steps of a stream -/

/-- The limit leaves room for at least one event. -/
theorem batchLimit_pos (hroom : ∀ max, s.options.limit = some max → s.totalSent < max) :
    0 < effectiveListLimit s.batchLimit := by
  unfold effectiveListLimit EventStream.batchLimit
  cases hlimit : s.options.limit with
  | none => simp [defaultListLimit, defaultMaxListLimit]
  | some max => exact Nat.lt_min.2 ⟨Nat.sub_pos_of_lt (hroom max hlimit), by decide⟩

/-! ## Runs -/

variable {f f' : Feed} {a : Action} {i : ℕ}

/-- No query of the replay of stream `i` fails. -/
def ReplayAnswered (C : Crates) (i : ℕ) (f : Feed) (a : Action) : Prop :=
  ∀ fails s, a = .fetch i fails → f.streams i = some s →
    ∃ events, f.replayQuery C s fails = .ok events

section Sample

open Storage.Sample Transitions

/-- The check of `ReplayAnswered`. -/
def replayAnswered (C : Crates) (i : ℕ) (f : Feed) : Action → Bool
  | .fetch j fails => j ≠ i || (f.streams i).all fun s => (f.replayQuery C s fails).isOk
  | _ => true

theorem replayAnswered_sound (h : replayAnswered C i f a = true) : ReplayAnswered C i f a := by
  rintro fails s rfl hs
  simp only [replayAnswered, ne_eq, not_true, decide_false, Bool.false_or, hs, Option.all_some] at h
  cases hquery : f.replayQuery C s fails with
  | ok events => exact ⟨events, rfl⟩
  | error e =>
    rw [hquery] at h
    cases h

/-- One transaction inserts an event. -/
def insertOne : List Action :=
  [.statement (.lock 0), .statement (.insert 0 0 .delete backlogPath.asStr),
    .statement (.commit 0)]

end Sample

end Pubky.Homeserver.Events
