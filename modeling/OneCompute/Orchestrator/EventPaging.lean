import OneCompute.Lib.Lists
import OneCompute.Lib.Paging
import OneCompute.Orchestrator.Calls

/-!
Clients that follow the event log page by page while others append to it.
-/

namespace OneCompute
open Interleaving (Prog)
open Interleaving.Prog (perform Sat sat_mono sat_bind sat_perform_bind sat_pure sat_trivial)

/-! ## The endpoint -/

/-- An event as it is replied. -/
structure EventItem where
  id : Nat
  ts : SqlValue
  type : SqlValue
  workerId : SqlValue
  jobId : SqlValue
  detail : SqlValue
  deriving DecidableEq

def EventRow.item (row : EventRow) : EventItem :=
  ⟨row.id, row.ts, row.type, row.workerId, row.jobId, row.detail⟩

def EventItem.decodable (item : EventItem) : Bool :=
  [item.ts, item.type, item.workerId, item.jobId, item.detail].all SqlValue.decodable

structure EventsReply where
  events : List EventItem
  lastId : Int

/-- The query of the endpoint; a row that cannot be decoded leaves no rows at all. -/
def eventsAfter (since : Int) (rows : List EventRow) : List EventItem :=
  let selected := (((rows.filter fun row => decide (since < (row.id : Int))).insertionSort
    fun r s => r.id ≤ s.id).take 200).map EventRow.item
  if selected.all EventItem.decodable then selected else []

def eventsReply (since : Int) (rows : List EventRow) : EventsReply :=
  let items := eventsAfter since rows
  ⟨items, (items.getLast?).elim since fun item => (item.id : Int)⟩

def events (cfg : Config) (since : Int) (authorization : Option String) :
    Handler EventsReply := do
  requireOperatorReadToken cfg authorization
  let db ← perform Cmd.query
  return eventsReply since db.events.rows

/-! ## Clients -/

/-- Poll a number of times, from the last identifier of each reply. -/
def pollEvents (cfg : Config) (authorization : Option String) :
    Nat → Int → Handler (List EventsReply)
  | 0, _ => return []
  | n + 1, since => do
      let reply ← events cfg since authorization
      let rest ← pollEvents cfg authorization n reply.lastId
      return reply :: rest

/-- A request to the orchestrator, or a client that follows its events. -/
inductive ClientCall where
  | request (call : Call)
  | follow (polls : Nat) (authorization : Option String)

def startClient (cfg : Config) : ClientCall → Handler (Reply ⊕ List EventsReply)
  | .request call => do
      let reply ← handle cfg call
      return .inl reply
  | .follow polls authorization => do
      let replies ← pollEvents cfg authorization polls 0
      return .inr replies

/-- The machine with such clients in it. -/
def pollMachine (cfg : Config) : Interleaving.Semantics Cmd Ret Failure
    (Reply ⊕ List EventsReply) World Nat ClientCall Time where
  exec := exec
  start := startClient cfg
  disturb clock w := { w with clock := clock }

abbrev PollMove := Interleaving.Move ClientCall Nat Time

abbrev PollSys := Interleaving.Sys Cmd Ret Failure (Reply ⊕ List EventsReply) World ClientCall

def pollRun (cfg : Config) (clock : Time) (ms : List PollMove) : PollSys :=
  Interleaving.runs (pollMachine cfg) ⟨.fresh clock, []⟩ ms

def pollTrace (cfg : Config) (clock : Time) (ms : List PollMove) :
    List (Interleaving.Performed Cmd Ret ClientCall Nat World) :=
  Interleaving.trace (pollMachine cfg) ⟨.fresh clock, []⟩ ms

def Cmd.isQuery : Cmd → Bool
  | .query => true
  | _ => false

/-- The polls of a thread that were served along a run. -/
def servedPolls (cfg : Config) (clock : Time) (ms : List PollMove) (thread : Nat) :
    List (Interleaving.Performed Cmd Ret ClientCall Nat World) :=
  (pollTrace cfg clock ms).filter fun p => p.cmd.isQuery && decide (p.thread = thread)

/-! ## What a client is answered -/

/-- The replies of a client whose queries find these databases. -/
def repliesFrom (since : Int) : List Db → List EventsReply
  | [] => []
  | db :: dbs =>
      let reply := eventsReply since db.events.rows
      reply :: repliesFrom reply.lastId dbs

/-- What a query of a thread answered. -/
def queryAnswer : Interleaving.Answered Cmd Ret → Option Db
  | ⟨.query, db⟩ => some db
  | _ => none

/-- The databases that the queries of a past found, oldest first. -/
def snapshots (past : Past) : List Db := past.reverse.filterMap queryAnswer

section Answers
variable {cfg : Config} {past : Past}

/-- Any command may be performed, and answered in any way. -/
abbrev Runs (past : Past) {A : Type} (p : Handler A) (Φ : Past → A → Prop) : Prop :=
  Sat (fun _ _ => True) (fun _ _ => True) past p Φ

/-- The gate lets the request through before it performs any command. -/
theorem runs_requireOperatorReadToken {auth : Option String} :
    Runs past (requireOperatorReadToken cfg auth) (fun later _ => later = past) := by
  have hrefuse : ∀ {r : Refusal}, Runs past (refuse none r : Handler Unit)
      (fun later _ => later = past) := by
    intro r
    unfold refuse
    cases r.audit with
    | none => trivial
    | some detail => exact ⟨trivial, fun _ _ => trivial⟩
  unfold requireOperatorReadToken requireAdminToken requireBearer
  split
  · exact sat_pure rfl
  · split
    · exact sat_pure rfl
    · split
      · exact sat_pure rfl
      · exact hrefuse

theorem snapshots_query (db : Db) : snapshots (⟨.query, db⟩ :: past) = snapshots past ++ [db] := by
  unfold snapshots
  rw [List.reverse_cons, List.filterMap_append]
  rfl

theorem runs_pollEvents {auth : Option String} (n : Nat) (since : Int) :
    Runs past (pollEvents cfg auth n since) (fun later replies =>
      ∃ dbs, snapshots later = snapshots past ++ dbs ∧ replies = repliesFrom since dbs) := by
  induction n generalizing past since with
  | zero => exact sat_pure ⟨[], (List.append_nil _).symm, rfl⟩
  | succ n ih =>
      unfold pollEvents events
      apply sat_bind (Φ := fun later reply => ∃ db, snapshots later = snapshots past ++ [db] ∧
        reply = eventsReply since db.events.rows)
      · apply sat_bind runs_requireOperatorReadToken
        rintro _ _ - rfl
        apply sat_perform_bind trivial
        intro db _
        exact sat_pure ⟨db, snapshots_query db, rfl⟩
      · rintro later reply - ⟨db, hlater, rfl⟩
        apply sat_bind (ih _)
        rintro final rest - ⟨dbs, hfinal, rfl⟩
        refine sat_pure ⟨db :: dbs, ?_, rfl⟩
        rw [hfinal, hlater, List.append_assoc]
        rfl

/-- A client that has ended replies for the databases its queries found. -/
def FollowEnded : ClientCall → Past → Reply ⊕ List EventsReply → Prop
  | .request _, _, _ => True
  | .follow _ _, past, result => result = .inr (repliesFrom 0 (snapshots past))

theorem runs_startClient (call : ClientCall) :
    Runs [] (startClient cfg call) (FollowEnded call) := by
  cases call with
  | request call => exact sat_mono (sat_trivial _ _) (fun _ _ _ _ => trivial)
  | follow polls auth =>
      apply sat_bind (runs_pollEvents polls 0)
      rintro later replies - ⟨dbs, hlater, rfl⟩
      apply sat_pure
      change _ = Sum.inr (repliesFrom 0 (snapshots later))
      rw [hlater]
      rfl

end Answers

theorem queryAnswer_answered (cfg : Config)
    (p : Interleaving.Performed Cmd Ret ClientCall Nat World) :
    queryAnswer (p.answered (pollMachine cfg)) = if p.cmd.isQuery then some p.pre.db else none := by
  obtain ⟨thread, call, past, cmd, input, pre⟩ := p
  cases cmd <;> rfl

/-- A client that has ended was replied from the states its polls found. -/
theorem follow_replies {cfg : Config} {clock : Time} {ms : List PollMove} {thread polls : Nat}
    {auth : Option String} {past : Past} {result : Reply ⊕ List EventsReply}
    (h : (pollRun cfg clock ms).threads[thread]? =
      some ⟨.follow polls auth, past, .ret result⟩) :
    result = .inr (repliesFrom 0 ((servedPolls cfg clock ms thread).map (·.pre.db))) := by
  have hdiscipline : Interleaving.Discipline (pollMachine cfg) (fun _ => True)
      (fun _ _ _ => True) (fun _ _ => True) FollowEnded :=
    ⟨runs_startClient, fun _ _ _ _ => trivial⟩
  have hinvariant : Interleaving.Invariant (pollMachine cfg) (fun _ => True) :=
    ⟨fun _ _ _ _ => trivial, fun _ _ _ => trivial⟩
  have hended := (hdiscipline.returned hinvariant trivial h).1
  have hpast := Interleaving.past_eq_trace (M := pollMachine cfg) _ ms h
  have hsnapshots : snapshots past = (servedPolls cfg clock ms thread).map (·.pre.db) := by
    unfold snapshots servedPolls pollTrace
    rw [← hpast, List.filterMap_map, ← List.filter_filter, ← Lists.filterMap_if]
    congr 1
    funext p
    exact queryAnswer_answered cfg p
  rw [← hsnapshots]
  exact hended

/-! ## The log while it is read -/

/-- The events in the table can be paged through. -/
def Pageable (w : World) : Prop :=
  ∀ row ∈ w.db.events.rows, 0 < row.id ∧ row.item.decodable = true

theorem ofOption_decodable (x : Option String) : (SqlValue.ofOption x).decodable = true := by
  cases x <;> rfl

theorem make_pageable (prevHash : String) (now : Time) (e : Emission) (n : Nat) :
    0 < (EventRow.make prevHash now e (n + 1)).id ∧
      (EventRow.make prevHash now e (n + 1)).item.decodable = true := by
  refine ⟨Nat.succ_pos n, ?_⟩
  change [SqlValue.text _, .text e.type, .ofOption e.workerId, .ofOption e.jobId,
    .ofOption e.detail].all SqlValue.decodable = true
  simp only [List.all_cons, List.all_nil, ofOption_decodable]
  rfl

theorem emitAll_grows (now : Time) (db : Db) (es : List Emission) :
    db.events.rows <+: (emitAll now db es).events.rows := by
  induction es generalizing db with
  | nil => exact List.prefix_refl _
  | cons e es ih => exact List.IsPrefix.trans (List.prefix_append _ _) (ih (emit now db e))

theorem emitAll_pageable {now clock : Time} {db : Db} (h : Pageable ⟨clock, db⟩)
    (es : List Emission) : Pageable ⟨clock, emitAll now db es⟩ := by
  induction es generalizing db with
  | nil => exact h
  | cons e es ih =>
      have hnext : Pageable ⟨clock, emit now db e⟩ := by
        intro row hrow
        rw [emit_rows] at hrow
        rcases List.mem_append.mp hrow with hold | hnew
        · exact h row hold
        · cases List.mem_singleton.mp hnew
          exact make_pageable _ now e _
      exact ih hnext

theorem exec_grows (c : Cmd) (input : Nat) (w : World) :
    w.db.events.rows <+: (exec c input w).1.db.events.rows := by
  have hgrows := emitAll_grows w.clock (runCommand input w c).db (runCommand input w c).emits
  rw [(runCommand_frame input w c).1] at hgrows
  exact hgrows

theorem exec_pageable (c : Cmd) (input : Nat) (w : World) (h : Pageable w) :
    Pageable (exec c input w).1 := by
  apply emitAll_pageable
  intro row hrow
  rw [(runCommand_frame input w c).1] at hrow
  exact h row hrow

theorem run_pageable (cfg : Config) (clock : Time) (ms : List PollMove) :
    Pageable (pollRun cfg clock ms).state :=
  Interleaving.Invariant.runs (M := pollMachine cfg) (s := ⟨World.fresh clock, []⟩)
    ⟨exec_pageable, fun _ _ h => h⟩ (fun _ hrow => absurd hrow List.not_mem_nil) ms

/-- The identifier of an event, as it is compared with a cursor. -/
def eventId (row : EventRow) : Int := row.id

theorem events_sorted (db : Db) : (db.events.rows.map eventId).Pairwise (· < ·) := by
  have hsorted := db.events.sorted
  rw [List.pairwise_map] at hsorted ⊢
  exact hsorted.imp fun h => Int.ofNat_lt.mpr h

/-- The endpoint replies with a page of the log. -/
theorem eventsReply_page {w : World} (h : Pageable w) (since : Int) :
    (eventsReply since w.db.events.rows).events =
      (Paging.page eventId 200 since w.db.events.rows).map EventRow.item ∧
    (eventsReply since w.db.events.rows).lastId =
      Paging.cursor eventId since (Paging.page eventId 200 since w.db.events.rows) := by
  have hsorted : (w.db.events.rows.filter fun row => decide (since < (row.id : Int))).insertionSort
      (fun r s => r.id ≤ s.id) =
      w.db.events.rows.filter fun row => decide (since < (row.id : Int)) := by
    apply List.Pairwise.insertionSort_eq
    have hrows := List.pairwise_map.mp w.db.events.sorted
    exact (hrows.imp fun hlt => hlt.le).filter _
  have hitems : eventsAfter since w.db.events.rows =
      (Paging.page eventId 200 since w.db.events.rows).map EventRow.item := by
    unfold eventsAfter
    dsimp only
    rw [hsorted]
    apply if_pos
    rw [List.all_eq_true, List.forall_mem_map]
    intro row hrow
    exact (h row (List.mem_filter.mp (List.mem_of_mem_take hrow)).1).2
  refine ⟨hitems, ?_⟩
  unfold eventsReply Paging.cursor
  dsimp only
  rw [hitems, List.getLast?_map]
  cases (Paging.page eventId 200 since w.db.events.rows).getLast? <;> rfl

/-- Along a run the log only grows. -/
theorem pollTrace_ordered (cfg : Config) (s : PollSys) (ms : List PollMove) :
    (Interleaving.trace (pollMachine cfg) s ms).Pairwise
        (fun p q => p.pre.db.events.rows <+: q.pre.db.events.rows) ∧
      ∀ p ∈ Interleaving.trace (pollMachine cfg) s ms,
        s.state.db.events.rows <+: p.pre.db.events.rows ∧
          p.pre.db.events.rows <+:
            (Interleaving.runs (pollMachine cfg) s ms).state.db.events.rows :=
  Interleaving.trace_ordered (M := pollMachine cfg)
    (G := fun w v : World => w.db.events.rows <+: v.db.events.rows) (fun _ => List.prefix_refl _)
    (fun _ _ _ => List.IsPrefix.trans) exec_grows (fun _ _ => List.prefix_refl _) s ms

theorem served_pageable {cfg : Config} {clock : Time} {ms : List PollMove}
    {p : Interleaving.Performed Cmd Ret ClientCall Nat World} (h : p ∈ pollTrace cfg clock ms) :
    Pageable p.pre := by
  obtain ⟨before, m, after, -, hperformed⟩ := Interleaving.mem_trace h
  rw [Interleaving.performed_pre hperformed]
  exact run_pageable cfg clock before

/-- The replies of a client are the pages of the logs that its polls found. -/
theorem repliesFrom_pages {ps : List (Interleaving.Performed Cmd Ret ClientCall Nat World)}
    (h : ∀ p ∈ ps, Pageable p.pre) (since : Int) :
    (repliesFrom since (ps.map (·.pre.db))).map (·.events) =
      (Paging.pages eventId 200 since (ps.map (·.pre.db.events.rows))).map
        (·.map EventRow.item) := by
  induction ps generalizing since with
  | nil => rfl
  | cons p ps ih =>
      rw [List.forall_mem_cons] at h
      obtain ⟨hevents, hlast⟩ := eventsReply_page h.1 since
      simp only [List.map_cons, repliesFrom, Paging.pages, hevents, hlast]
      rw [ih h.2]

theorem served_grows (cfg : Config) (clock : Time) (ms : List PollMove) (thread : Nat) :
    Paging.Grows eventId 0 [] ((servedPolls cfg clock ms thread).map (·.pre.db.events.rows)) := by
  constructor
  · intro log hlog
    obtain ⟨p, hp, rfl⟩ := List.mem_map.mp hlog
    refine ⟨List.nil_prefix, events_sorted p.pre.db, ?_⟩
    intro row hrow
    have hpos := (served_pageable (List.mem_filter.mp hp).1 row hrow).1
    exact Int.ofNat_lt.mpr hpos
  · rw [List.pairwise_map]
    exact (pollTrace_ordered cfg _ ms).1.filter _

/-- What a client that has ended was replied: the beginning of the log, in the order of
identifiers and every event once, and with each poll an event that was there when it was
made and not yet read, if there was one. -/
structure Followed (cfg : Config) (clock : Time) (ms : List PollMove) (thread : Nat)
    (replies : List EventsReply) : Prop where
  read : replies.flatMap (·.events) <+:
    (pollRun cfg clock ms).state.db.events.rows.map EventRow.item
  ordered : ((replies.flatMap (·.events)).map (·.id)).Pairwise (· < ·)
  progress : ∀ before after, ms = before ++ after → ∀ k reply,
    (servedPolls cfg clock before thread).length ≤ k → replies[k]? = some reply →
    (∃ row ∈ (pollRun cfg clock before).state.db.events.rows,
      row.item ∉ (replies.take k).flatMap (·.events)) →
    ∃ row ∈ (pollRun cfg clock before).state.db.events.rows,
      row.item ∉ (replies.take k).flatMap (·.events) ∧ row.item ∈ reply.events

/-- Where a poll stands that is served in the later part of a run. -/
theorem served_later {cfg : Config} {clock : Time} {before after : List PollMove} {thread k : Nat}
    {p : Interleaving.Performed Cmd Ret ClientCall Nat World}
    (hk : (servedPolls cfg clock before thread).length ≤ k)
    (hp : (servedPolls cfg clock (before ++ after) thread)[k]? = some p) :
    (pollRun cfg clock before).state.db.events.rows <+: p.pre.db.events.rows := by
  unfold servedPolls pollTrace at hp hk
  rw [Interleaving.trace_append, List.filter_append, List.getElem?_append_right hk] at hp
  have hmem := (List.mem_filter.mp (List.mem_of_getElem? hp)).1
  exact ((pollTrace_ordered cfg _ after).2 p hmem).1

theorem flatMap_events {replies : List EventsReply} {pages : List (List EventRow)}
    (h : replies.map (·.events) = pages.map (·.map EventRow.item)) :
    replies.flatMap (·.events) = pages.flatten.map EventRow.item := by
  rw [List.flatMap_def, h, List.map_flatten]

theorem map_id_item (rows : List EventRow) : (rows.map EventRow.item).map (·.id) = rows.map (·.id) := by
  rw [List.map_map]
  rfl

theorem item_inj {rows : List EventRow} {r s : EventRow} (hnodup : (rows.map (·.id)).Nodup)
    (hr : r ∈ rows) (hs : s ∈ rows) (h : r.item = s.item) : r = s :=
  List.inj_on_of_nodup_map hnodup hr hs (congrArg EventItem.id h)

theorem follow_progress {cfg : Config} {clock : Time} {before after : List PollMove}
    {thread k : Nat} {rows : List EventRow}
    (hk : (servedPolls cfg clock before thread).length ≤ k)
    (hrows : (Paging.pages eventId 200 0
      ((servedPolls cfg clock (before ++ after) thread).map (·.pre.db.events.rows)))[k]? = some rows)
    (hunseen : ∃ row ∈ (pollRun cfg clock before).state.db.events.rows,
      row.item ∉ ((Paging.pages eventId 200 0
        ((servedPolls cfg clock (before ++ after) thread).map
          (·.pre.db.events.rows))).take k).flatten.map EventRow.item) :
    ∃ row ∈ (pollRun cfg clock before).state.db.events.rows,
      row.item ∉ ((Paging.pages eventId 200 0
        ((servedPolls cfg clock (before ++ after) thread).map
          (·.pre.db.events.rows))).take k).flatten.map EventRow.item ∧ row ∈ rows := by
  have hgrows := served_grows cfg clock (before ++ after) thread
  obtain ⟨log, hlog, hread, hend⟩ := Paging.pages_spec hgrows (by decide : 0 < 200) hrows
  rw [List.getElem?_map] at hlog
  obtain ⟨p, hp, rfl⟩ := Option.map_eq_some_iff.mp hlog
  have hearlier := served_later hk hp
  have hids : (p.pre.db.events.rows.map (·.id)).Nodup := p.pre.db.events.sorted.nodup
  have htake := List.take_add_one (l := Paging.pages eventId 200 0
    ((servedPolls cfg clock (before ++ after) thread).map (·.pre.db.events.rows))) (i := k)
  rw [List.nil_append, show Paging.cursor eventId 0 ([] : List EventRow) = 0 from rfl, htake, hrows,
    Option.toList_some, List.flatten_append, List.flatten_singleton] at hread
  obtain ⟨row, hrow, hnew⟩ := hunseen
  obtain ⟨first, hfirst, hmem, hout⟩ := Paging.exists_unseen hread hend hearlier
    (List.Nodup.of_map _ hids) ⟨row, hrow, fun hin => hnew (List.mem_map_of_mem hin)⟩
  refine ⟨first, hmem, ?_, hfirst⟩
  intro hin
  obtain ⟨other, hother, heq⟩ := List.mem_map.mp hin
  have hlater : other ∈ p.pre.db.events.rows := hread.subset (List.mem_append_left _ hother)
  rw [item_inj hids hlater (hearlier.subset hmem) heq] at hother
  exact hout hother

theorem event_paging (cfg : Config) (clock : Time) (ms : List PollMove) {thread polls : Nat}
    {auth : Option String} {past : Past} {replies : List EventsReply}
    (h : (pollRun cfg clock ms).threads[thread]? =
      some ⟨.follow polls auth, past, .ret (.inr replies)⟩) :
    Followed cfg clock ms thread replies := by
  have hreplies := Sum.inr.inj (follow_replies h)
  have hserved : ∀ p ∈ servedPolls cfg clock ms thread, Pageable p.pre :=
    fun p hp => served_pageable (List.mem_filter.mp hp).1
  have hpages : replies.map (·.events) = (Paging.pages eventId 200 0
      ((servedPolls cfg clock ms thread).map (·.pre.db.events.rows))).map (·.map EventRow.item) := by
    rw [hreplies]
    exact repliesFrom_pages hserved 0
  have hread : (Paging.pages eventId 200 0
      ((servedPolls cfg clock ms thread).map (·.pre.db.events.rows))).flatten <+:
        (pollRun cfg clock ms).state.db.events.rows := by
    apply Paging.pages_flatten (served_grows cfg clock ms thread) (by decide) List.nil_prefix
    intro log hlog
    obtain ⟨p, hp, rfl⟩ := List.mem_map.mp hlog
    exact ((pollTrace_ordered cfg _ ms).2 p (List.mem_filter.mp hp).1).2
  constructor
  · rw [flatMap_events hpages]
    exact hread.map _
  · rw [flatMap_events hpages, map_id_item]
    exact (pollRun cfg clock ms).state.db.events.sorted.sublist (hread.map _).sublist
  · rintro before after rfl k reply hk hreply hunseen
    have htake : (replies.take k).flatMap (·.events) = ((Paging.pages eventId 200 0
        ((servedPolls cfg clock (before ++ after) thread).map
          (·.pre.db.events.rows))).take k).flatten.map EventRow.item := by
      apply flatMap_events
      rw [List.map_take, hpages, ← List.map_take]
    have hreply' := congrArg (·[k]?) hpages
    simp only [List.getElem?_map, hreply, Option.map_some] at hreply'
    obtain ⟨rows, hrows, hevents⟩ := Option.map_eq_some_iff.mp hreply'.symm
    rw [htake] at hunseen ⊢
    obtain ⟨row, hrow, hnew, hmem⟩ := follow_progress hk hrows hunseen
    exact ⟨row, hrow, hnew, hevents ▸ List.mem_map_of_mem hmem⟩

/-- A refused request is recorded, and a client reads of it. -/
def refusalMoves : List PollMove :=
  [.spawn (.request (.approve "w" none)), .run 0 0, .spawn (.follow 2 (some "Bearer s")),
    .run 1 0, .run 1 0]

theorem event_paging_refusal : ∃ past replies,
    (pollRun { adminToken := some "s" } 0 refusalMoves).threads[1]? =
      some ⟨.follow 2 (some "Bearer s"), past, .ret (.inr replies)⟩ ∧
    Followed { adminToken := some "s" } 0 refusalMoves 1 replies :=
  ⟨_, _, rfl, event_paging { adminToken := some "s" } 0 refusalMoves rfl⟩

end OneCompute
