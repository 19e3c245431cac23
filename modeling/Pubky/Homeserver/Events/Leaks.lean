import Pubky.Homeserver.Events.Route

/-!
# Event streams leak nothing

Whatever its mode and whatever fails, a stream delivers only events of its users that match its
filters: the query of the replay selects them, and the tail checks them again. With the
authorization of the filters (`Pubky.Homeserver.Events.Route`) every delivered event may be read
by the session that opened the stream.
-/

namespace Pubky.Homeserver.Events

open Broadcast Storage

variable {C : Crates} {users users' : List UserRow} {rows rows' : List EventRow}
  {start cur : AList fun _ : ℕ => Option EventCursor} {paths : List PathFilter} {e : EventEntity}
  {s s' : EventStream} {f f' : Feed} {a : Action} {i : ℕ}

/-- An event of one of the users that matches one of the filters. -/
def Allowed (C : Crates) (users : List UserRow) (rows : List EventRow)
    (start : AList fun _ : ℕ => Option EventCursor) (paths : List PathFilter)
    (e : EventEntity) : Prop :=
  ∃ r ∈ rows, Reads C users r e ∧ start.lookup r.user ≠ none ∧ pathsMatch paths r.path = true

theorem Allowed.mono (h : Allowed C users rows start paths e) (husers : ∀ u ∈ users, u ∈ users')
    (hrows : ∀ r ∈ rows, r ∈ rows') : Allowed C users' rows' start paths e := by
  obtain ⟨r, hr, hread, hrest⟩ := h
  exact ⟨r, hrows r hr, hread.mono husers, hrest⟩

/-- The events that a stream is about to send. -/
def StreamPhase.events : StreamPhase → List EventEntity
  | .sending event rest => event :: rest
  | .checking | .draining | .fetching | .tailing | .ended => []

/-- What the stream has delivered or is about to deliver is allowed, and its cursors are those of
its users. -/
structure Confined (C : Crates) (users : List UserRow) (rows : List EventRow)
    (start : AList fun _ : ℕ => Option EventCursor) (s : EventStream) : Prop where
  cursor : ∃ cur, s.cursor = .perUser cur ∧
    ∀ user, cur.lookup user ≠ none → start.lookup user ≠ none
  delivered : ∀ e ∈ s.delivered, Allowed C users rows start s.options.paths e
  batch : ∀ e ∈ s.phase.events, Allowed C users rows start s.options.paths e

theorem Confined.mono (h : Confined C users rows start s) (husers : ∀ u ∈ users, u ∈ users')
    (hrows : ∀ r ∈ rows, r ∈ rows') : Confined C users' rows' start s :=
  ⟨h.cursor, fun e he => (h.delivered e he).mono husers hrows,
    fun e he => (h.batch e he).mono husers hrows⟩

/-! ## Steps of a stream -/

/-- A step without a delivery. -/
theorem Confined.withPhase (h : Confined C users rows start s) {position : ℕ}
    {phase : StreamPhase}
    (hphase : ∀ e ∈ phase.events, Allowed C users rows start s.options.paths e) :
    Confined C users rows start { s with position := position, phase := phase } :=
  ⟨h.cursor, h.delivered, hphase⟩

theorem Confined.deliver (h : Confined C users rows start s)
    (he : Allowed C users rows start s.options.paths e) {position : ℕ} {next : StreamPhase}
    (hnext : ∀ e ∈ next.events, Allowed C users rows start s.options.paths e) :
    Confined C users rows start ({ s with position := position }.deliver e next) := by
  obtain ⟨cur, hcur, hkeys⟩ := h.cursor
  refine ⟨⟨cur.insert e.userId (some e.cursor), ?_, fun user huser => ?_⟩, fun e' he' => ?_, ?_⟩
  · simp [EventStream.deliver, hcur, StreamCursor.advance]
  · by_cases heq : user = e.userId
    · obtain ⟨r, -, hread, hlookup, -⟩ := he
      rwa [heq, hread.userId]
    · rw [AList.lookup_insert_ne heq] at huser
      exact hkeys user huser
  · rcases List.mem_append.1 he' with he' | he'
    · exact h.delivered e' he'
    · rw [List.mem_singleton.1 he']
      exact he
  · simp only [EventStream.deliver]
    split
    · exact fun e' he' => absurd he' List.not_mem_nil
    · exact hnext

theorem Confined.guarded (h : Confined C users rows start s) {valid : Bool}
    (hs : s.guarded valid = some s') : Confined C users rows start s' := by
  have hnone : ∀ e ∈ ([] : List EventEntity), Allowed C users rows start s.options.paths e :=
    fun e he => absurd he List.not_mem_nil
  unfold EventStream.guarded at hs
  split at hs
  · cases hs
    refine h.withPhase ?_
    split <;> exact hnone
  · rename_i event rest hphase
    have hbatch : ∀ e ∈ event :: rest, Allowed C users rows start s.options.paths e := fun e he =>
      h.batch e (by rw [hphase]; exact he)
    split at hs
    · cases hs
      refine h.deliver (hbatch event (List.mem_cons_self ..)) fun e he => ?_
      refine hbatch e (List.mem_cons_of_mem _ ?_)
      cases rest with
      | nil => exact absurd he List.not_mem_nil
      | cons => exact he
    · cases hs
      exact h.withPhase hnone
  · cases hs
    split
    · exact h
    · exact h.withPhase hnone
  all_goals cases hs

theorem Confined.drained (h : Confined C users rows start s) {r : Received EventEntity × ℕ}
    (hs : s.drained r = some s') : Confined C users rows start s' := by
  unfold EventStream.drained at hs
  split at hs
  · cases hs
    refine h.withPhase ?_
    split <;> exact fun e he => absurd he List.not_mem_nil
  · cases hs

/-- The query selects events of the users that match the filters. -/
theorem Confined.fetched (h : Confined C users rows start s) {limit : Option ℕ} {reverse : Bool}
    {fails : Bool}
    (hs : s.fetched (query fails (s.cursor.fetch C users rows limit reverse s.options.paths)) =
      some s') : Confined C users rows start s' := by
  have hleave : Confined C users rows start s.leaveReplay := by
    refine h.withPhase ?_
    split <;> exact fun e he => absurd he List.not_mem_nil
  unfold EventStream.fetched at hs
  split at hs
  case h_2 => cases hs
  cases hs
  split
  · exact hleave
  · exact hleave
  · rename_i event rest hquery
    refine h.withPhase fun e he => ?_
    obtain ⟨cur, hcur, hkeys⟩ := h.cursor
    rw [hcur] at hquery
    have hfetch : getByUserCursors C users rows (userCursors cur) limit reverse s.options.paths =
        .ok (event :: rest) := by
      cases fails with
      | true => cases hquery
      | false => exact hquery
    obtain ⟨r, hr, ⟨cursor, hlookup, -, hpath⟩, hread⟩ := selected_of_getByUserCursors hfetch he
    exact ⟨r, hr, hread, hkeys _ (by rw [hlookup]; exact Option.some_ne_none _), hpath⟩

/-- The tail checks the user and the path of every event. -/
theorem Confined.received (h : Confined C users rows start s) {channel : Channel EventEntity}
    (hsent : ∀ e ∈ channel.sent, ∃ r ∈ rows, Reads C users r e)
    (hs : s.received (channel.tryRecv s.position) = some s') :
    Confined C users rows start s' := by
  have hnone : ∀ e ∈ ([] : List EventEntity), Allowed C users rows start s.options.paths e :=
    fun e he => absurd he List.not_mem_nil
  unfold EventStream.received at hs
  split at hs
  case h_2 => cases hs
  rename_i hphase
  have hkeep : ∀ position, Confined C users rows start { s with position := position } :=
    fun position => h.withPhase (by rw [hphase]; exact hnone)
  split at hs
  · rename_i event hvalue
    cases hs
    split
    · rename_i haccept
      refine h.deliver ?_ hnone
      obtain ⟨hget, -⟩ := Channel.tryRecv_value (Prod.ext hvalue rfl)
      obtain ⟨r, hr, hread⟩ := hsent event (List.mem_of_getElem? hget)
      obtain ⟨cur, hcur, hkeys⟩ := h.cursor
      simp only [hcur, StreamCursor.acceptsLive, hread.path] at haccept
      cases hlookup : cur.lookup event.userId with
      | none =>
        rw [hlookup] at haccept
        cases haccept
      | some cursor =>
        rw [hlookup] at haccept
        rw [hread.userId] at hlookup
        refine ⟨r, hr, hread, hkeys _ (by rw [hlookup]; exact Option.some_ne_none _), ?_⟩
        exact (Bool.and_eq_true_iff.1 haccept).2
    · exact hkeep _
  · cases hs
    exact h.withPhase hnone
  · cases hs
    exact h.withPhase hnone
  · cases hs

/-! ## Runs -/

theorem Confined.moves (hok : f.Ok C) (h : Confined C f.users f.rows start s)
    (hmove : f.Moves C i s a s') : Confined C f.users f.rows start s' := by
  cases hmove with
  | guard valid _ hstep => exact h.guarded hstep
  | drain _ hstep => exact h.drained hstep
  | fetch fails _ hstep => exact h.fetched hstep
  | receive _ hstep => exact h.received (fun e he => (hok.listener.reads e he).2) hstep

/-- The users of different rows are different, and the streams are confined to their users. -/
structure Feed.Confined (C : Crates) (f : Feed) : Prop where
  userIds : f.users.Pairwise fun a b => a.id ≠ b.id
  streams : ∀ i s start, f.streams i = some s → s.since = .perUser start →
    Events.Confined C f.users f.rows start s

/-- Tables only grow. -/
structure Feed.Grows (f f' : Feed) : Prop where
  users : ∀ u ∈ f.users, u ∈ f'.users
  rows : ∀ r ∈ f.rows, r ∈ f'.rows
  streams : ∀ i s, f.streams i = some s → ∃ s', f'.streams i = some s' ∧ s'.since = s.since ∧
    s'.options = s.options

theorem Feed.Grows.refl (f : Feed) : f.Grows f :=
  ⟨fun _ h => h, fun _ h => h, fun _ s h => ⟨s, h, rfl, rfl⟩⟩

theorem Feed.Grows.trans {f₁ f₂ f₃ : Feed} (h : f₁.Grows f₂) (h' : f₂.Grows f₃) :
    f₁.Grows f₃ where
  users := fun u hu => h'.users u (h.users u hu)
  rows := fun r hr => h'.rows r (h.rows r hr)
  streams := fun i s hs => by
    obtain ⟨s₂, hs₂, hsince, hoptions⟩ := h.streams i s hs
    obtain ⟨s₃, hs₃, hsince', hoptions'⟩ := h'.streams i s₂ hs₂
    exact ⟨s₃, hs₃, hsince'.trans hsince, hoptions'.trans hoptions⟩

theorem Feed.Change.grows (hok : f.Ok C) (hc : f.Change C a f') : f.Grows f' := by
  have hsame : ∀ i s, f.streams i = some s → ∃ s', f.streams i = some s' ∧ s'.since = s.since ∧
      s'.options = s.options := fun _ s h => ⟨s, h, rfl, rfl⟩
  cases hc with
  | signUp row hnew => exact ⟨fun u hu => List.mem_append_left _ hu, fun _ h => h, hsame⟩
  | statement st log hlog =>
    obtain ⟨-, news, hnews⟩ := hok.log.next hlog
    refine ⟨fun _ h => h, fun r hr => ?_, hsame⟩
    change r ∈ log.rows
    rw [hnews]
    exact List.mem_append_left _ hr
  | wake => exact ⟨fun _ h => h, fun _ h => h, hsame⟩
  | query batches fails =>
    unfold Feed.pollQuery
    split <;> exact ⟨fun _ h => h, fun _ h => h, hsame⟩
  | broadcast => exact ⟨fun _ h => h, fun _ h => h, hsame⟩
  | endBatch => exact ⟨fun _ h => h, fun _ h => h, hsame⟩
  | rest => exact ⟨fun _ h => h, fun _ h => h, hsame⟩
  | subscribe j cursor options hnone =>
    refine ⟨fun _ h => h, fun _ h => h, fun i s hs => ?_⟩
    have hne : i ≠ j := by
      rintro rfl
      rw [hnone] at hs
      cases hs
    exact ⟨s, by simpa only [Function.update_of_ne hne] using hs, rfl, rfl⟩
  | stream _ j t t' ht hmove =>
    refine ⟨fun _ h => h, fun _ h => h, fun i s hs => ?_⟩
    by_cases hij : i = j
    · subst hij
      cases ht.symm.trans hs
      exact ⟨t', Function.update_self .., hmove.same⟩
    · exact ⟨s, by simpa only [Function.update_of_ne hij] using hs, rfl, rfl⟩

theorem Feed.Confined.change (h : f.Confined C) (hok : f.Ok C) (hc : f.Change C a f') :
    f'.Confined C := by
  have hgrows := hc.grows hok
  have hmono : ∀ i s start, f.streams i = some s → s.since = .perUser start →
      Events.Confined C f'.users f'.rows start s := fun i s start hs hsince =>
    (h.streams i s start hs hsince).mono hgrows.users hgrows.rows
  cases hc with
  | signUp row hnew =>
    refine ⟨List.pairwise_append.2 ⟨h.userIds, List.pairwise_singleton _ _, fun u hu v hv => ?_⟩,
      hmono⟩
    rw [List.mem_singleton.1 hv]
    exact hnew u hu
  | statement => exact ⟨h.userIds, hmono⟩
  | wake => exact ⟨h.userIds, hmono⟩
  | query batches fails =>
    have hsame : (f.pollQuery C batches fails).users = f.users ∧
        (f.pollQuery C batches fails).streams = f.streams := by
      unfold Feed.pollQuery
      split <;> exact ⟨rfl, rfl⟩
    exact ⟨hsame.1 ▸ h.userIds, fun i s start hs => hmono i s start (hsame.2 ▸ hs)⟩
  | broadcast => exact ⟨h.userIds, hmono⟩
  | endBatch => exact ⟨h.userIds, hmono⟩
  | rest => exact ⟨h.userIds, hmono⟩
  | subscribe j cursor options hnone =>
    refine ⟨h.userIds, fun i s start hs hsince => ?_⟩
    by_cases hij : i = j
    · subst hij
      simp only [Function.update_self, Option.some.injEq] at hs
      subst hs
      exact ⟨⟨start, hsince, fun _ h => h⟩, fun e he => absurd he List.not_mem_nil,
        fun e he => absurd he List.not_mem_nil⟩
    · simp only [Function.update_of_ne hij] at hs
      exact hmono i s start hs hsince
  | stream _ j t t' ht hmove =>
    refine ⟨h.userIds, fun i s start hs hsince => ?_⟩
    by_cases hij : i = j
    · subst hij
      simp only [Function.update_self, Option.some.injEq] at hs
      subst hs
      rw [hmove.same.1] at hsince
      have hmoved := Confined.moves hok (h.streams i t start ht hsince) hmove
      exact hmoved
    · simp only [Function.update_of_ne hij] at hs
      exact hmono i s start hs hsince

theorem Feed.Initial.confined (h : f.Initial) : f.Confined C := by
  refine ⟨h.userIds, fun i s start hs => ?_⟩
  rw [h.noStreams i] at hs
  cases hs

theorem Runs.confined {f₀ : Feed} (h : Runs C f₀ f) (h₀ : f₀.Initial) : f.Confined C := by
  have hinv : f.Ok C ∧ f.Confined C :=
    Transitions.Reaches.invariant (I := fun t => t.Ok C ∧ t.Confined C) h ⟨h₀.ok, h₀.confined⟩
      fun _ _ _ ht _ hnext =>
        have hc := Feed.next_cases hnext
        ⟨ht.1.change hc, ht.2.change ht.1 hc⟩
  exact hinv.2

theorem Runs.grows {f₁ : Feed} (h : Runs C f₁ f) (hok : f₁.Ok C) : f₁.Grows f := by
  have hinv : f.Ok C ∧ f₁.Grows f :=
    Transitions.Reaches.invariant (I := fun t => t.Ok C ∧ f₁.Grows t) h ⟨hok, .refl f₁⟩
      fun _ _ _ ht _ hnext =>
        have hc := Feed.next_cases hnext
        ⟨ht.1.change hc, ht.2.trans (hc.grows ht.1)⟩
  exact hinv.2

/-! ## Reading permission -/

section Client

variable {C : StreamCrates} {f₀ f₁ f₂ f₃ : Feed} {request : StreamRequest}
  {answers : StreamAnswers} {opened : OpenedStream}

/-- The owner of a delivered event is a user of the query. -/
theorem owner_of_allowed (hz : ∀ key, C.fromZ32 (C.z32 key) = some key)
    (hids : f.users.Pairwise fun a b => a.id ≠ b.id) (hopens : Opens C users opened)
    (husers : ∀ u ∈ users, u ∈ f.users)
    (he : Allowed C.toCrates f.users f.rows opened.cursor opened.options.paths e) :
    ∃ cursor, (e.userPubkey, cursor) ∈ opened.query.userCursors := by
  obtain ⟨r, -, hread, hlookup, -⟩ := he
  obtain ⟨key, cursor, hmem, u, hu, huid, hukey⟩ := hopens.users r.user hlookup
  obtain ⟨u', hu', huid', hkey⟩ := hread.user
  -- a user id stands for one key
  have hsame : u = u' := List.inj_on_of_nodup_map (List.pairwise_map.2 hids) (husers u hu) hu'
    (huid.trans huid'.symm)
  subst hsame
  rw [hukey, hz key] at hkey
  exact ⟨cursor, Option.some.inj hkey ▸ hmem⟩

/-- The session may read a delivered event. -/
theorem read_of_allowed (hz : ∀ key, C.fromZ32 (C.z32 key) = some key)
    (hids : f.users.Pairwise fun a b => a.id ≠ b.id) (hopens : Opens C users opened)
    (husers : ∀ u ∈ users, u ∈ f.users)
    (he : Allowed C.toCrates f.users f.rows opened.cursor opened.options.paths e) :
    publicRoot <+: e.path.path.asStr ∨ privateRoot <+: e.path.path.asStr ∧
      ∃ cursor session, opened.query.userCursors = [(e.userPubkey, cursor)] ∧
        opened.session = some session ∧ Entitled session e.userPubkey e.path.path .read := by
  obtain ⟨owner, howner⟩ := owner_of_allowed hz hids hopens husers he
  obtain ⟨r, -, hread, -, hmatch⟩ := he
  rw [← hread.path, pathsMatch, Bool.or_eq_true] at hmatch
  obtain ⟨filter, hfilter, hmatches⟩ := List.any_eq_true.1
    (hmatch.resolve_left fun h => hopens.nonempty (List.isEmpty_iff.1 h))
  have hcovers := authorized_covers (hopens.paths filter hfilter) hmatches
  refine (hasReadPermission_eq_ok.1 hcovers).imp_right ?_
  rintro ⟨hroot, session, key, hsession, hkey, hentitled⟩
  obtain ⟨cursor, hcursors⟩ := userCursors_of_tenant hkey
  rw [hcursors, List.mem_singleton, Prod.mk.injEq] at howner
  rw [howner.1]
  exact ⟨hroot, cursor, session, hcursors, hsession, hentitled⟩

/-- A stream of the client is opened for a request at `f₁` and subscribes at `f₂`. Every event that
it delivers afterwards may be read by the session that opened it; outside of the public root it
belongs to the only user of the stream, and with several users it is public. -/
theorem events_stream_leaks_nothing (hz : ∀ key, C.fromZ32 (C.z32 key) = some key)
    (h₀ : f₀.Initial) (h₁ : Runs C.toCrates f₀ f₁)
    (hopen : feedStream C request answers = .ok opened) (husers : answers.users = f₁.users)
    (h₂ : Runs C.toCrates f₁ f₂)
    (hsub : f₂.next C.toCrates (.subscribe i (.perUser opened.cursor) opened.options) = some f₃)
    (h₃ : Runs C.toCrates f₃ f) (hs : f.streams i = some s) (he : e ∈ s.delivered) :
    hasReadPermission opened.session (some e.userPubkey) e.path.path = .ok () ∧
    (¬ publicRoot <+: e.path.path.asStr → ∃ cursor session,
      opened.query.userCursors = [(e.userPubkey, cursor)] ∧ opened.session = some session ∧
        Entitled session e.userPubkey e.path.path .read) ∧
    (1 < opened.query.userCursors.length → publicRoot <+: e.path.path.asStr) := by
  have hrun₂ : Runs C.toCrates f₀ f₂ := Relation.ReflTransGen.trans h₁ h₂
  have hrun₃ : Runs C.toCrates f₀ f₃ := hrun₂.tail _ hsub
  have hrun : Runs C.toCrates f₀ f := Relation.ReflTransGen.trans hrun₃ h₃
  have hgrows : f₁.Grows f := (h₂.grows (h₁.ok h₀)).trans
    (((Feed.next_cases hsub).grows (hrun₂.ok h₀)).trans (h₃.grows (hrun₃.ok h₀)))
  -- the stream is the one that subscribed
  have hstream : s.since = .perUser opened.cursor ∧ s.options = opened.options := by
    have hnew : f₃.streams i = some (.start (.perUser opened.cursor) opened.options
        f₂.channel.subscribe) := by
      simp only [Feed.next] at hsub
      split at hsub
      · cases hsub
      · cases hsub
        exact Function.update_self ..
    obtain ⟨s', hs', hsince, hoptions⟩ := (h₃.grows (hrun₃.ok h₀)).streams i _ hnew
    cases hs.symm.trans hs'
    exact ⟨hsince, hoptions⟩
  have hconfined := hrun.confined h₀
  have hallowed := (hconfined.streams i s opened.cursor hs hstream.1).delivered e he
  rw [hstream.2] at hallowed
  have hread := read_of_allowed hz hconfined.userIds (opens_of_feedStream hopen)
    (fun u hu => hgrows.users u (husers ▸ hu)) hallowed
  refine ⟨hasReadPermission_eq_ok.2 (hread.imp_right ?_), fun hprivate => ?_, fun hseveral => ?_⟩
  · rintro ⟨hroot, -, session, -, hsession, hentitled⟩
    exact ⟨hroot, session, e.userPubkey, hsession, rfl, hentitled⟩
  · exact (hread.resolve_left hprivate).2
  · refine hread.resolve_right ?_
    rintro ⟨-, cursor, -, hone, -⟩
    rw [hone] at hseveral
    exact absurd hseveral (Nat.lt_irrefl 1)

end Client

section Sample

open Storage.Sample Transitions

/-- `form_urlencoded::parse` on a query without escapes. -/
def samplePairs (query : Text) : List (Text × Text) :=
  ((query.splitOn '&').filter (· ≠ [])).map fun piece =>
    (Text.splitOnce '=' piece).getD (piece, [])

def streamCrates : StreamCrates where
  toCrates := crates.toCrates
  formUrlencoded := samplePairs

/-- Alice asks for the events of their private storage. -/
def privateRequest : StreamRequest where
  session := some aliceSession
  authorization := none
  cookies _ := none
  rawQuery := some ("user=".toList ++ streamCrates.z32 alice ++ "&path=/priv/".toList)

def privateAnswers : StreamAnswers where
  users := backlogStart.users
  sessions := []
  sessionsFail := false
  subscribed := true
  authorized := .ok ()
  usersFail := false

/-- A private file is deleted, and the stream replays this. -/
def privateRun : List Action :=
  [.statement (.lock 0), .statement (.insert 0 0 .delete "/priv/a".toList),
    .statement (.commit 0), .guard 0 true, .drain 0, .fetch 0 false, .guard 0 true]

theorem events_stream_leaks_nothing_sample : ∃ (opened : OpenedStream) (f : Feed)
    (s : EventStream) (e : EventEntity),
    feedStream streamCrates privateRequest privateAnswers = .ok opened ∧
    f.streams 0 = some s ∧ e ∈ s.delivered ∧ privateRoot <+: e.path.path.asStr ∧
    hasReadPermission opened.session (some e.userPubkey) e.path.path = .ok () := by
  have hrun : (feedStream streamCrates privateRequest privateAnswers).toOption.any fun opened =>
      (backlogStart.next crates.toCrates
        (.subscribe 0 (.perUser opened.cursor) opened.options)).any fun f₃ =>
      (exec (Feed.next crates.toCrates) (fun _ _ => true) f₃ privateRun).any fun f =>
      (f.streams 0).any fun s =>
        s.delivered.any fun e => privateRoot.isPrefixOf e.path.path.asStr := by
    decide +kernel
  obtain ⟨opened, hopen, h⟩ := (Option.any_eq_true _ _).1 hrun
  obtain ⟨f₃, hsub, h⟩ := (Option.any_eq_true _ _).1 h
  obtain ⟨f, hf, h⟩ := (Option.any_eq_true _ _).1 h
  obtain ⟨s, hs, h⟩ := (Option.any_eq_true _ _).1 h
  obtain ⟨e, he, hroot⟩ := List.any_eq_true.1 h
  have hopened : feedStream streamCrates privateRequest privateAnswers = .ok opened := by
    cases hfeed : feedStream streamCrates privateRequest privateAnswers with
    | error e =>
      rw [hfeed] at hopen
      cases hopen
    | ok opened' =>
      rw [hfeed] at hopen
      cases hopen
      rfl
  have hleak := events_stream_leaks_nothing (C := streamCrates) PublicKey.ofZ32_z32
    backlogStart_initial .refl hopened rfl .refl hsub (.of_exec hf fun _ _ _ => trivial) hs he
  exact ⟨opened, f, s, e, hopened, hs, he, List.isPrefixOf_iff_prefix.1 hroot, hleak.1⟩

end Sample

end Pubky.Homeserver.Events
