import Pubky.Homeserver.Events.Leaks
import Pubky.Homeserver.Events.Replay
import Pubky.Homeserver.Events.Sse
import Pubky.Homeserver.Listing

/-!
# Polling the public event feed

`client_server/routes/events.rs`: `GET /events/` answers with a page of public events, one on each
line, and with a last line for the cursor of the next page. A client that asks again and again with
the last cursor it was given is put beside the event feed, whose transactions commit in between.

What the client has received is at any moment a prefix of the committed public events
(`PollerOk.pages`): the filter for public paths is part of the query, so that a page is the first
events behind the cursor, and a commit only appends.
-/

namespace Pubky.Homeserver.Events

open Listing Storage Transitions

/-! ## The route -/

/-- One line for each event, and the cursor of the last one. -/
def formatEventsFeed (C : Crates) (events : List EventEntity) : Text :=
  let result := events.map fun event => event.eventType.toText ++ ' ' :: event.pubkyUri C
  Text.join '\n' <| match events.getLast? with
    | some event => result ++ ["cursor: ".toList ++ Nat.toDigits 10 event.id]
    | none => result

/-- `feed` -/
def feed (C : Crates) (users : List UserRow) (rows : List EventRow) (fails : Bool)
    (params : ListQueryParams) : Except HttpError Response := do
  let cursor := params.cursor.getD "0".toList
  let cursor ← (Text.parseUnsigned 64 cursor).okOr
    (HttpError.badRequest ("Invalid cursor: ".toList ++ cursor))
  let events ← (query fails
    (getByCursor C users rows (some cursor) params.limit .publicOnly)).mapError HttpError.ofSql
  return ⟨200, [("content-type".toList, "text/plain".toList)], formatEventsFeed C events⟩

/-! ## The client -/

/-- The cursor in the last line that holds one. -/
def lastCursor (bodies : List Text) : Option Text :=
  ((bodies.flatMap fun body => body.splitOn '\n').filterMap
    (Text.stripStart "cursor: ".toList)).getLast?

/-- The pairs of a query with this cursor and this limit. -/
def pollPairs (cursor limit : Option Text) : List (Text × Text) :=
  (cursor.map fun value => ("cursor".toList, value)).toList ++
    (limit.map fun value => ("limit".toList, value)).toList

/-- A feed and what one client has received from it. -/
structure Poller where
  feed : Feed
  bodies : List Text

inductive PollerAction where
  | server (a : Action)
  | get (limit : Option Text) (fails : Bool)

namespace Poller

variable (C : Crates) (p : Poller)

/-- The answer to the next request of the client. -/
def request (limit : Option Text) (fails : Bool) : Except HttpError Response := do
  let params ← ListQueryParams.fromPairs (pollPairs (lastCursor p.bodies) limit)
  Events.feed C p.feed.users p.feed.rows fails params

def next : PollerAction → Option Poller
  | .server a => (p.feed.next C a).map fun f => { p with feed := f }
  | .get limit fails =>
    match p.request C limit fails with
    | .ok response => some { p with bodies := p.bodies ++ [response.body] }
    | .error _ => some p

end Poller

/-- The limit is at least one, or none that the server understands. -/
def LimitOk (limit : Option Text) : Prop :=
  limit.bind (Text.parseUnsigned 16) ≠ some 0

/-- The client does not ask for nothing, and the ids fit into a column of type `bigint`. -/
structure Polls (C : Crates) (p : Poller) (x : PollerAction) : Prop where
  limit : ∀ limit fails, x = .get limit fails → LimitOk limit
  bigint : ∀ p', p.next C x = some p' → p'.feed.log.nextId ≤ 2 ^ 63

variable {C : Crates} {users : List UserRow} {rows news : List EventRow} {p p' : Poller}
  {x : PollerAction} {es : List EventEntity} {limit : Option ℕ}

/-! ## Pages -/

/-- The committed events that everyone may see. -/
def publicRows (rows : List EventRow) : List EventRow :=
  rows.filter fun r => publicRoot.isPrefixOf r.path

theorem mem_publicRows {r : EventRow} :
    r ∈ publicRows rows ↔ r ∈ rows ∧ publicRoot <+: r.path := by
  rw [publicRows, List.mem_filter, List.isPrefixOf_iff_prefix]

theorem publicRows_append : publicRows (rows ++ news) = publicRows rows ++ publicRows news :=
  List.filter_append ..

theorem ascending_publicRows (hasc : EventLog.Ascending rows) :
    EventLog.Ascending (publicRows rows) :=
  List.Pairwise.filter _ hasc

/-- A page is read from the first public events behind the cursor. -/
theorem reads_of_getByCursor (hasc : EventLog.Ascending rows) {cursor : EventCursor}
    (h : getByCursor C users rows (some cursor) limit .publicOnly = .ok es) :
    List.Forall₂ (Reads C users)
      (((publicRows rows).filter fun r => cursor < r.id).take (effectiveListLimit limit)) es := by
  have hsame : orderById false (rows.filter fun r => cursor < r.id &&
      Like.like (PathFilter.startsWith publicRoot) r.path) =
      (publicRows rows).filter fun r => cursor < r.id := by
    have hfilter : (rows.filter fun r => cursor < r.id &&
        Like.like (PathFilter.startsWith publicRoot) r.path) =
        (publicRows rows).filter fun r => cursor < r.id := by
      rw [publicRows, List.filter_filter]
      refine List.filter_congr fun r _ => ?_
      rw [PathFilter.startsWith, Like.like_escape]
    rw [hfilter]
    have hpage : EventLog.Ascending ((publicRows rows).filter fun r => cursor < r.id) :=
      (ascending_publicRows hasc).filter _
    refine Ordered.eq_of_perm (ordered_orderById (nodup_ids hpage)) ?_ perm_orderById
    exact hpage.imp fun h => pastCursor_forward.2 h
  rw [← hsame]
  exact forall₂_of_mapM h

/-! ## Cursors -/

/-- A page with events ends in a line for the cursor. -/
theorem formatEventsFeed_concat (C : Crates) (es : List EventEntity) (e : EventEntity) :
    ∃ front, formatEventsFeed C (es ++ [e]) =
      front ++ '\n' :: ("cursor: ".toList ++ Nat.toDigits 10 e.id) := by
  simp only [formatEventsFeed, List.getLast?_append, List.getLast?_singleton,
    Option.some_or]
  refine ⟨_, Text.join_concat ?_⟩
  simp

theorem eq_nil_of_formatEventsFeed {C : Crates} {es : List EventEntity}
    (h : formatEventsFeed C es = []) : es = [] := by
  rcases List.eq_nil_or_concat es with rfl | ⟨front, e, rfl⟩
  · rfl
  · obtain ⟨text, htext⟩ := formatEventsFeed_concat C front e
    rw [List.concat_eq_append, htext] at h
    exact absurd h (List.append_ne_nil_of_right_ne_nil _ (List.cons_ne_nil _ _))

theorem newline_not_mem_cursor (n : ℕ) : '\n' ∉ "cursor: ".toList ++ Nat.toDigits 10 n := by
  intro hmem
  rcases List.mem_append.1 hmem with hmem | hmem
  · exact absurd hmem (by decide)
  · exact absurd (Nat.isDigit_of_mem_toDigits (by decide) (by decide) hmem) (by decide)

theorem lastCursor_append (bodies : List Text) (body : Text) :
    lastCursor (bodies ++ [body]) = (lastCursor [body]).or (lastCursor bodies) := by
  simp only [lastCursor, List.flatMap_append, List.filterMap_append, List.getLast?_append]

theorem lastCursor_page (C : Crates) (es : List EventEntity) :
    lastCursor [formatEventsFeed C es] = es.getLast?.map fun e => Nat.toDigits 10 e.id := by
  rcases List.eq_nil_or_concat es with rfl | ⟨es, e, rfl⟩
  · rfl
  · obtain ⟨front, hfront⟩ := formatEventsFeed_concat C es e
    rw [List.concat_eq_append, lastCursor, List.flatMap_singleton, hfront, Text.splitOn_append_cons,
      Text.splitOn_of_not_mem (newline_not_mem_cursor e.id), List.filterMap_append]
    have hline : [("cursor: ".toList ++ Nat.toDigits 10 e.id)].filterMap
        (Text.stripStart "cursor: ".toList) = [Nat.toDigits 10 e.id] := by
      rw [List.filterMap_cons_some (Text.stripStart_append _ _), List.filterMap_nil]
    rw [hline, List.getLast?_concat, List.getLast?_concat, Option.map_some]

/-- The client continues from the last event that it has received. -/
theorem lastCursor_pages (C : Crates) (pages : List (List EventEntity)) :
    lastCursor (pages.map (formatEventsFeed C)) =
      pages.flatten.getLast?.map fun e => Nat.toDigits 10 e.id := by
  induction pages using List.reverseRecOn with
  | nil => rfl
  | append_singleton pages es ih =>
    rw [List.map_append, List.map_singleton, lastCursor_append, lastCursor_page, ih,
      List.flatten_append, List.flatten_singleton, List.getLast?_append]
    cases es.getLast? <;> rfl

theorem getParam_pollPairs (cursor limit : Option Text) :
    getParam (pollPairs cursor limit) "cursor" = cursor ∧
    getParam (pollPairs cursor limit) "limit" = limit ∧
    getParam (pollPairs cursor limit) "reverse" = none ∧
    getParam (pollPairs cursor limit) "shallow" = none := by
  cases cursor <;> cases limit <;> exact ⟨rfl, rfl, rfl, rfl⟩

theorem stripStart_toDigits (n : ℕ) :
    Text.stripStart "pubky://".toList (Nat.toDigits 10 n) = none := by
  cases h : Text.stripStart "pubky://".toList (Nat.toDigits 10 n) with
  | none => rfl
  | some rest =>
    have hp : 'p' ∈ Nat.toDigits 10 n := by
      rw [Text.stripStart_eq_some.1 h]
      exact List.mem_append_left _ (by decide)
    exact absurd (Nat.isDigit_of_mem_toDigits (by decide) (by decide) hp) (by decide)

/-- The server reads the pairs of the client as it means them. -/
theorem fromPairs_pollPairs (last : Option ℕ) (limit : Option Text) :
    ListQueryParams.fromPairs (pollPairs (last.map (Nat.toDigits 10)) limit) =
      .ok ⟨(limit.filter (· ≠ [])).bind (Text.parseUnsigned 16), last.map (Nat.toDigits 10),
        false, false⟩ := by
  obtain ⟨hcursor, hlimit, hreverse, hshallow⟩ :=
    getParam_pollPairs (last.map (Nat.toDigits 10)) limit
  simp only [ListQueryParams.fromPairs, ListQueryParams.flag, ListQueryParams.extractCursor,
    hcursor, hlimit, hreverse, hshallow]
  cases last with
  | none => rfl
  | some n =>
    simp only [Option.map_some, stripStart_toDigits, Option.getD_none, if_neg Nat.toDigits_ne_nil]
    rfl

/-- A limit that is not zero leaves room for an event. -/
theorem effectiveListLimit_pos {limit : Option Text} (h : LimitOk limit) :
    0 < effectiveListLimit ((limit.filter (· ≠ [])).bind (Text.parseUnsigned 16)) := by
  refine Nat.lt_min.2 ⟨?_, by decide⟩
  cases hparsed : (limit.filter (· ≠ [])).bind (Text.parseUnsigned 16) with
  | none => decide
  | some n =>
    refine Nat.pos_of_ne_zero fun hzero => h ?_
    obtain ⟨value, hvalue, hn⟩ := Option.bind_eq_some_iff.1 hparsed
    obtain ⟨hlimit, -⟩ := Option.filter_eq_some_iff.1 hvalue
    rw [hlimit, Option.bind_some, hn]
    exact congrArg some hzero

/-! ## Runs -/

/-- What the client has received was read from the first committed public events. -/
def PagesOk (C : Crates) (p : Poller) (pages : List (List EventEntity)) : Prop :=
  p.bodies = pages.map (formatEventsFeed C) ∧
    List.Forall₂ (Reads C p.feed.users) ((publicRows p.feed.rows).take pages.flatten.length)
      pages.flatten

structure PollerOk (C : Crates) (p : Poller) : Prop where
  ok : p.feed.Ok C
  bigint : p.feed.log.nextId ≤ 2 ^ 63
  pages : ∃ pages, PagesOk C p pages

theorem ids_of_forall₂ (h : List.Forall₂ (Reads C users) rows es) :
    es.map EventEntity.id = rows.map EventRow.id := by
  induction h with
  | nil => rfl
  | cons hread _ ih => rw [List.map_cons, List.map_cons, hread.id, ih]

theorem PagesOk.ascending {pages : List (List EventEntity)} (h : PagesOk C p pages)
    (hlog : p.feed.log.Ok) : pages.flatten.Pairwise fun a b => a.id < b.id :=
  ascending_of_forall₂ h.2
    ((ascending_publicRows hlog.ascending).sublist (List.take_sublist _ _))

/-- Behind the last event that the client has received are the public events that it lacks. -/
theorem PagesOk.filter_behind {pages : List (List EventEntity)} (h : PagesOk C p pages)
    (hlog : p.feed.log.Ok) :
    ((publicRows p.feed.rows).filter fun r =>
      (pages.flatten.getLast?.map EventEntity.id).getD 0 < r.id) =
      (publicRows p.feed.rows).drop pages.flatten.length := by
  have hsplit := List.take_append_drop pages.flatten.length (publicRows p.feed.rows)
  have hbounds : (∀ r ∈ (publicRows p.feed.rows).take pages.flatten.length,
      r.id ≤ (pages.flatten.getLast?.map EventEntity.id).getD 0) ∧
      ∀ r ∈ (publicRows p.feed.rows).drop pages.flatten.length,
      (pages.flatten.getLast?.map EventEntity.id).getD 0 < r.id := by
    rcases List.eq_nil_or_concat pages.flatten with hnil | ⟨front, e, hconcat⟩
    · rw [hnil]
      refine ⟨fun r hr => ?_, fun r hr => ?_⟩
      · rw [List.length_nil, List.take_zero] at hr
        cases hr
      · exact (hlog.range r (mem_publicRows.1 (List.mem_of_mem_drop hr)).1).1
    · rw [List.concat_eq_append] at hconcat
      have hlast : (pages.flatten.getLast?.map EventEntity.id).getD 0 = e.id := by
        rw [hconcat, List.getLast?_concat]
        rfl
      rw [hlast]
      refine ⟨fun r hr => ?_, fun r hr => ?_⟩
      · -- the events received are in ascending order
        obtain ⟨e', he', hread⟩ := h.2.exists_of_mem_left hr
        have hasc := h.ascending hlog
        rw [hconcat] at he' hasc
        rw [← hread.id]
        rcases List.mem_append.1 he' with he' | he'
        · exact ((List.pairwise_append.1 hasc).2.2 e' he' e (List.mem_singleton_self e)).le
        · exact (List.mem_singleton.1 he') ▸ le_rfl
      · have he : e ∈ pages.flatten := hconcat ▸ List.mem_append_right _ (List.mem_singleton_self e)
        obtain ⟨r', hr', hread⟩ := h.2.exists_of_mem_right he
        have hasc : EventLog.Ascending (publicRows p.feed.rows) :=
          ascending_publicRows hlog.ascending
        rw [← hsplit] at hasc
        rw [hread.id]
        exact (List.pairwise_append.1 hasc).2.2 r' hr' r hr
  conv_lhs => rw [← hsplit]
  rw [List.filter_append, List.filter_eq_nil_iff.2, List.nil_append, List.filter_eq_self]
  · exact fun r hr => decide_eq_true (hbounds.2 r hr)
  · exact fun r hr => by simpa using hbounds.1 r hr

/-- The answer to a request is the next page. -/
theorem PagesOk.request {pages : List (List EventEntity)} (h : PagesOk C p pages)
    (hlog : p.feed.log.Ok) (hbigint : p.feed.log.nextId ≤ 2 ^ 63) {limit : Option Text}
    {fails : Bool} {response : Response} (hresponse : p.request C limit fails = .ok response) :
    ∃ es, response.body = formatEventsFeed C es ∧
      List.Forall₂ (Reads C p.feed.users)
        (((publicRows p.feed.rows).drop pages.flatten.length).take
          (effectiveListLimit ((limit.filter (· ≠ [])).bind (Text.parseUnsigned 16)))) es := by
  -- the cursor that the server parses
  have hcursor : lastCursor p.bodies =
      (pages.flatten.getLast?.map EventEntity.id).map (Nat.toDigits 10) := by
    rw [h.1, lastCursor_pages, Option.map_map]
    rfl
  have hparse : Text.parseUnsigned 64
      (((pages.flatten.getLast?.map EventEntity.id).map (Nat.toDigits 10)).getD "0".toList) =
      some ((pages.flatten.getLast?.map EventEntity.id).getD 0) := by
    cases hlast : pages.flatten.getLast? with
    | none => rfl
    | some e =>
      refine Text.parseUnsigned_toDigits ?_
      obtain ⟨r, hr, hread⟩ := h.2.exists_of_mem_right (List.mem_of_getLast? hlast)
      have hrange := (hlog.range r (mem_publicRows.1 (List.mem_of_mem_take hr)).1).2
      rw [hread.id]
      omega
  rw [Poller.request, hcursor, fromPairs_pollPairs] at hresponse
  obtain ⟨params, hparams, hresponse⟩ := Except.bind_ok_iff.1 hresponse
  cases hparams
  obtain ⟨cursor, hokay, hresponse⟩ := Except.bind_ok_iff.1 hresponse
  obtain rfl := Option.some.inj (hparse.symm.trans (Option.okOr_eq_ok.1 hokay))
  obtain ⟨es, hes, hresponse⟩ := Except.bind_ok_iff.1 hresponse
  cases hresponse
  refine ⟨es, rfl, ?_⟩
  rw [← h.filter_behind hlog]
  refine reads_of_getByCursor hlog.ascending ?_
  have hes := mapError_eq_ok.1 hes
  cases fails with
  | true => cases hes
  | false => exact hes

theorem PagesOk.server {pages : List (List EventEntity)} (h : PagesOk C p pages) {f' : Feed}
    (husers : ∀ u ∈ p.feed.users, u ∈ f'.users) (hrows : f'.rows = p.feed.rows ++ news) :
    PagesOk C { p with feed := f' } pages := by
  have hlength : pages.flatten.length ≤ (publicRows p.feed.rows).length := by
    have := h.2.length_eq
    rw [List.length_take] at this
    omega
  refine ⟨h.1, ?_⟩
  simp only [hrows]
  rw [publicRows_append, List.take_append_of_le_length hlength]
  exact h.2.imp fun _ _ hread => hread.mono husers

theorem PagesOk.append {pages : List (List EventEntity)} (h : PagesOk C p pages) {n : ℕ}
    (hes : List.Forall₂ (Reads C p.feed.users)
      (((publicRows p.feed.rows).drop pages.flatten.length).take n) es) :
    PagesOk C { p with bodies := p.bodies ++ [formatEventsFeed C es] } (pages ++ [es]) := by
  have htake : ((publicRows p.feed.rows).drop pages.flatten.length).take n =
      ((publicRows p.feed.rows).drop pages.flatten.length).take es.length := by
    rw [List.take_eq_take_iff, ← hes.length_eq, List.length_take]
    omega
  refine ⟨?_, ?_⟩
  · rw [List.map_append, List.map_singleton, ← h.1]
  · simp only [List.flatten_append, List.flatten_singleton, List.length_append, List.take_add]
    rw [← htake]
    exact List.rel_append h.2 hes

theorem PollerOk.next (h : PollerOk C p) (hx : Polls C p x) (hp : p.next C x = some p') :
    PollerOk C p' := by
  obtain ⟨pages, hpages⟩ := h.pages
  refine ⟨?_, hx.bigint p' hp, ?_⟩
  · cases x with
    | server a =>
      obtain ⟨f', hf', rfl⟩ := Option.map_eq_some_iff.1 hp
      exact h.ok.change (Feed.next_cases hf')
    | get limit fails =>
      simp only [Poller.next] at hp
      split at hp <;> cases hp <;> exact h.ok
  · cases x with
    | server a =>
      obtain ⟨f', hf', rfl⟩ := Option.map_eq_some_iff.1 hp
      have hc := Feed.next_cases hf'
      obtain ⟨news, hrows, -⟩ := hc.rows_append h.ok
      exact ⟨pages, hpages.server (hc.grows h.ok).users hrows⟩
    | get limit fails =>
      simp only [Poller.next] at hp
      split at hp
      · rename_i response hresponse
        cases hp
        obtain ⟨es, hbody, hes⟩ := hpages.request h.ok.log h.bigint hresponse
        exact ⟨pages ++ [es], hbody ▸ hpages.append hes⟩
      · cases hp
        exact ⟨pages, hpages⟩

/-- A client that polls the public feed has at any moment received a prefix of the committed public
events, in the order of their ids, and nothing else; and it gets an empty page only if there is no
public event that it lacks. -/
theorem polling_has_no_gap {f₀ : Feed} (h₀ : f₀.Initial) (hbigint : f₀.log.nextId ≤ 2 ^ 63)
    (h : Reaches (Poller.next C) (Polls C) ⟨f₀, []⟩ p) :
    ∃ pages : List (List EventEntity), p.bodies = pages.map (formatEventsFeed C) ∧
      (∀ e ∈ pages.flatten, ∃ r ∈ p.feed.rows, Reads C p.feed.users r e) ∧
      (pages.flatten.map EventEntity.id).Pairwise (· < ·) ∧
      pages.flatten.map EventEntity.id <+: (publicRows p.feed.rows).map EventRow.id ∧
      (∀ e ∈ pages.flatten, publicRoot <+: e.path.path.asStr) ∧
      ∀ limit fails response, LimitOk limit → p.request C limit fails = .ok response →
        response.body = [] →
        ∀ r ∈ publicRows p.feed.rows, r.id ∈ pages.flatten.map EventEntity.id := by
  have hok : PollerOk C p := h.invariant ⟨h₀.ok, hbigint, [], rfl, .nil⟩
    fun _ _ _ ht hx hnext => ht.next hx hnext
  obtain ⟨pages, hpages⟩ := hok.pages
  have hread : ∀ e ∈ pages.flatten, ∃ r ∈ publicRows p.feed.rows, Reads C p.feed.users r e := by
    intro e he
    obtain ⟨r, hr, hread⟩ := hpages.2.exists_of_mem_right he
    exact ⟨r, List.mem_of_mem_take hr, hread⟩
  refine ⟨pages, hpages.1, fun e he => ?_, List.pairwise_map.2 (hpages.ascending hok.ok.log), ?_,
    fun e he => ?_, fun limit fails response hlimit hresponse hempty r hr => ?_⟩
  · obtain ⟨r, hr, hread⟩ := hread e he
    exact ⟨r, (mem_publicRows.1 hr).1, hread⟩
  · have hids := ids_of_forall₂ hpages.2
    rw [hids]
    exact (List.take_prefix _ _).map _
  · obtain ⟨r, hr, hread⟩ := hread e he
    rw [hread.path]
    exact (mem_publicRows.1 hr).2
  · obtain ⟨es, hbody, hes⟩ := hpages.request hok.ok.log hok.bigint hresponse
    obtain rfl := eq_nil_of_formatEventsFeed (hbody.symm.trans hempty)
    have hnil := (List.take_eq_nil_iff.1 (List.forall₂_nil_right_iff.1 hes)).resolve_left
      (effectiveListLimit_pos hlimit).ne'
    have htake := List.take_append_drop pages.flatten.length (publicRows p.feed.rows)
    rw [hnil, List.append_nil] at htake
    obtain ⟨e, he, hread⟩ := hpages.2.exists_of_mem_left (htake.symm ▸ hr)
    exact List.mem_map.2 ⟨e, he, hread.id⟩

section Sample

open Storage.Sample

/-- The check of `Polls`. -/
def polls (C : Crates) (p : Poller) (x : PollerAction) : Bool :=
  (match x with
    | .get limit _ => limit.bind (Text.parseUnsigned 16) ≠ some 0
    | .server _ => true) && (p.next C x).all fun p' => p'.feed.log.nextId ≤ 2 ^ 63

theorem polls_sound (h : polls C p x = true) : Polls C p x := by
  obtain ⟨hlimit, hbigint⟩ := Bool.and_eq_true_iff.1 h
  refine ⟨?_, fun p' hp' => ?_⟩
  · rintro limit fails rfl
    rw [LimitOk]
    exact of_decide_eq_true hlimit
  · rw [hp'] at hbigint
    exact of_decide_eq_true hbigint

/-- A private file is deleted. -/
def insertPrivate : List Action :=
  [.statement (.lock 0), .statement (.insert 0 0 .delete "/priv/a".toList),
    .statement (.commit 0)]

/-- The second page skips a private event. -/
theorem polling_has_no_gap_two : ∃ p : Poller,
    Reaches (Poller.next crates.toCrates) (Polls crates.toCrates) ⟨backlogStart, []⟩ p ∧
    p.feed.rows.map EventRow.id = [1, 2, 3] ∧ p.bodies.length = 2 ∧
    lastCursor p.bodies = some "3".toList ∧
    ∃ pages : List (List EventEntity),
      p.bodies = pages.map (formatEventsFeed crates.toCrates) ∧
      pages.flatten.map EventEntity.id <+: (publicRows p.feed.rows).map EventRow.id := by
  have hrun : (exec (Poller.next crates.toCrates) (polls crates.toCrates) ⟨backlogStart, []⟩
      (insertOne.map .server ++ [.get (some "1".toList) false] ++ insertPrivate.map .server ++
        insertOne.map .server ++ [.get none true, .get none false])).any fun p =>
      p.feed.rows.map EventRow.id = [1, 2, 3] && p.bodies.length = 2 &&
        lastCursor p.bodies = some "3".toList := by
    decide +kernel
  obtain ⟨p, hp, h⟩ := (Option.any_eq_true _ _).1 hrun
  simp only [Bool.and_eq_true, decide_eq_true_eq] at h
  have hreach : Reaches (Poller.next crates.toCrates) (Polls crates.toCrates) ⟨backlogStart, []⟩ p :=
    .of_exec hp fun _ _ => polls_sound
  obtain ⟨pages, hbodies, -, -, hpages, -⟩ :=
    polling_has_no_gap backlogStart_initial (by decide) hreach
  exact ⟨p, hreach, h.1.1, h.1.2, h.2, pages, hbodies, hpages⟩

end Sample

end Pubky.Homeserver.Events
