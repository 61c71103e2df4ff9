import OneCompute.Lib.Lockstep
import OneCompute.Orchestrator.JobRows
import OneCompute.Orchestrator.Tiers

/-!
Measurement-only devices. A worker that only ever registers as one is never given a job or
credits, and of its registrations and heartbeats nothing is kept but that they were made:
two runs that differ in what else they say have the same databases and the same replies.
-/

namespace OneCompute
open Interleaving (Prog Lockstep LockstepMoves InStep)
open Interleaving.Prog (perform sat_perform_bind)

/-- Every registration of `v` in the run has the measurement-only flag. -/
def OnlyMeasures (ms : List Move) (v : String) : Prop :=
  ∀ body cert, .spawn (.register body cert) ∈ ms → body.workerId = v → body.measurementOnly = true

/-- The rows of these workers say that they only measure. -/
def Measuring (observer : String → Prop) (w : World) : Prop :=
  ∀ v, observer v → ∀ row, w.db.workers.find? v = some row → row.capabilityJson.measurementOnly = true

theorem OnlyMeasures.before {ms ns : List Move} {v : String} (h : OnlyMeasures (ms ++ ns) v) :
    OnlyMeasures ms v :=
  fun body cert hmem => h body cert (List.mem_append_left ns hmem)

theorem admitted_measurementOnly (body : Capability) :
    body.admitted.measurementOnly = body.measurementOnly := by
  unfold Capability.admitted
  split
  next h => exact h.symm
  next => rfl

/-! ## No leases, no credits -/

theorem run_measuring (cfg : Config) (clock : Time) (ms : List Move) :
    Measuring (OnlyMeasures ms) (run cfg clock ms).state := by
  intro v
  refine run_induction cfg clock (I := fun ms w => OnlyMeasures ms v →
    ∀ row, w.db.workers.find? v = some row → row.capabilityJson.measurementOnly = true)
    ?_ ?_ ?_ ?_ ms
  · intro _ row hrow
    exact absurd (Table.find?_eq_some.mp hrow).1 (Table.not_mem_empty row)
  · intro ms m p hp ih honly row' hrow'
    have hstep := rowAfter_step p.pre v (p.pre.db.workers.find? v) p.cmd
    rw [← find?_exec p.cmd p.input p.pre v,
      show (exec p.cmd p.input p.pre).1.db.workers.find? v = some row' from hrow'] at hstep
    generalize hnew : some row' = new at hstep
    cases hstep with
    | same => exact ih honly.before row' hnew.symm
    | enrolled bind e hcmd hv _ =>
        have hissued := (run_issued hp).1
        rw [hcmd] at hissued
        obtain ⟨body, cert, hcall, hcap, -⟩ := hissued
        have hspawned := Interleaving.performed_spawned hp
        rw [hcall] at hspawned
        have hworker : body.workerId = v := by rw [← hv, hcap, admitted_workerId]
        have hmeasures := honly body cert (List.mem_append_left [m] hspawned) hworker
        have hcapability : row'.capabilityJson = e.capability := by
          cases hnew
          cases p.pre.db.workers.find? v <;> rfl
        rw [hcapability, hcap, admitted_measurementOnly, hmeasures]
    | removed now _ => cases hnew
    | updated old f hold hf =>
        cases hnew
        rw [hf]
        exact ih honly.before old hold
  · intro ms t w ih honly
    exact ih honly.before
  · intro ms m w _ ih honly
    exact ih honly.before

/-- What a query of a worker's row answers is the row that was there. -/
theorem read_row {cfg : Config} {q : Performed} {v : String} {row : WorkerRow}
    (h : q.answered (machine cfg) = ⟨.workerRow v, some row⟩) :
    q.pre.db.workers.find? v = some row := by
  obtain ⟨thread, call, past, cmd, input, pre⟩ := q
  obtain rfl : cmd = .workerRow v := congrArg Interleaving.Answered.cmd h
  exact eq_of_heq (Interleaving.Answered.mk.inj h).2

/-- A poll of a measurement-only device does not get to the queue. -/
theorem run_neverAsks {cfg : Config} {clock : Time} {ms : List Move} {m : Move} {p : Performed}
    (hp : performedAt cfg clock ms m = some p) {v : String} (honly : OnlyMeasures ms v)
    (cap : Capability) (free : Option PyFloat) : p.cmd ≠ .assignNext v cap free := by
  intro hcmd
  obtain ⟨hissued, hsaw⟩ := run_issued hp
  rw [hcmd] at hissued
  obtain ⟨auth, cert, row, -, hpolls, -⟩ := hissued
  obtain ⟨q, hq, -, -, hanswered⟩ := hsaw _ _ hpolls.admitted.read
  obtain ⟨before, m', after, rfl, hperf⟩ := Interleaving.mem_trace hq
  have hrow := read_row hanswered
  rw [Interleaving.performed_pre hperf] at hrow
  have hmeasures := run_measuring cfg clock before v honly.before row hrow
  rw [← Capability.reload?_measurementOnly hpolls.capability, hpolls.working] at hmeasures
  cases hmeasures

theorem run_neverLeased (cfg : Config) (clock : Time) (ms : List Move) {v : String}
    (honly : OnlyMeasures ms v) : ∀ j ∈ (run cfg clock ms).state.db.jobs, j.leasedTo v = false := by
  revert honly
  refine run_induction cfg clock (I := fun ms w => OnlyMeasures ms v →
    ∀ j ∈ w.db.jobs, j.leasedTo v = false) ?_ ?_ ?_ ?_ ms
  · exact fun _ j hj => absurd hj (Table.not_mem_empty j)
  · intro ms m p hp ih honly j' hj'
    by_contra hl
    rw [Bool.not_eq_false] at hl
    cases leased_exec hj' hl with
    | inl hold =>
        obtain ⟨j, hj, -, hleased⟩ := hold
        rw [ih honly.before j hj] at hleased
        cases hleased
    | inr hpoll =>
        obtain ⟨cap, free, hcmd, -⟩ := hpoll
        exact run_neverAsks hp honly.before cap free hcmd
  · intro ms t w ih honly
    exact ih honly.before
  · intro ms m w _ ih honly
    exact ih honly.before

theorem run_neverPaid (cfg : Config) (clock : Time) (ms : List Move) {v : String}
    (honly : OnlyMeasures ms v) :
    ∀ l ∈ (run cfg clock ms).state.db.ledger.rows, l.workerId ≠ v := by
  intro l hl hv
  obtain ⟨p, hp, jobId, req, now, job, -, -, held, -⟩ := run_paid cfg clock ms l hl
  obtain ⟨before, m, after, rfl, hperf⟩ := Interleaving.mem_trace hp
  have hstored := (Table.find?_eq_some.mp held.found).1
  rw [Interleaving.performed_pre hperf] at hstored
  have hfree := run_neverLeased cfg clock before honly.before job hstored
  rw [← hv, held.leased] at hfree
  cases hfree

/-! ## Nothing is kept -/

/-- Calls that differ at most in what a measurement-only device says of itself. -/
inductive Varied (observer : String → Prop) : Call → Call → Prop where
  | same (call : Call) : Varied observer call call
  | register {body body' : Capability} (cert : Option String) : observer body.workerId →
      body'.workerId = body.workerId → body.measurementOnly = true → body'.measurementOnly = true →
      Varied observer (.register body cert) (.register body' cert)
  | heartbeat {req req' : HeartbeatRequest} (auth cert : Option String) : observer req.workerId →
      req'.workerId = req.workerId →
      Varied observer (.heartbeat req auth cert) (.heartbeat req' auth cert)

inductive VariedMoves (observer : String → Prop) : Move → Move → Prop where
  | spawn {call call' : Call} : Varied observer call call' →
      VariedMoves observer (.spawn call) (.spawn call')
  | run (i input : Nat) : VariedMoves observer (.run i input) (.run i input)
  | disturb (t : Time) : VariedMoves observer (.disturb t) (.disturb t)

section Programs
variable {cfg : Config} {observer : String → Prop}

theorem register_varied {body body' : Capability} (cert : Option String)
    (hid : body'.workerId = body.workerId) (hm : body.measurementOnly = true)
    (hm' : body'.measurementOnly = true) : register cfg body' cert = register cfg body cert := by
  have hadmitted : body'.admitted = body.admitted := by
    unfold Capability.admitted
    rw [if_pos hm, if_pos hm', hid]
  unfold register
  rw [hadmitted]

/-- Of a measurement-only device only the time of its heartbeat is stored. -/
theorem recordHeartbeat_measuring {req req' : HeartbeatRequest} (hid : req'.workerId = req.workerId)
    (now clock : Time) (db : Db) :
    recordHeartbeat true req' now clock db = recordHeartbeat true req now clock db := by
  have hbeat (r : HeartbeatRequest) : recordHeartbeat true r now clock db =
      db.updateWorker r.workerId (WorkerRow.beat true r now) (beat_workerId true r now) := by
    unfold recordHeartbeat
    split <;> rfl
  rw [hbeat, hbeat]
  unfold Db.updateWorker
  simp only [hid]
  rfl

/-- The rows of measurement-only devices that queries answer. -/
def Disclosed (observer : String → Prop) : (c : Cmd) → Ret c → Prop
  | .workerRow v, some row => observer v → row.capabilityJson.measurementOnly = true
  | _, _ => True

theorem disclosed_exec (c : Cmd) (input : Nat) (w : World) (hw : Measuring observer w) :
    Disclosed observer c (exec c input w).2 := by
  cases c with
  | workerRow v =>
      change Disclosed observer (.workerRow v) (w.db.workers.find? v)
      cases hrow : w.db.workers.find? v with
      | none => trivial
      | some row => exact fun hobserver => hw v hobserver row hrow
  | _ => trivial

theorem disclosed_requireWorkerToken {past : Past} {v : String} {auth cert : Option String} :
    (requireWorkerToken cfg v auth cert).Sat (fun _ _ => True) (Disclosed observer) past
      (fun _ row => observer v → row.capabilityJson.measurementOnly = true) := by
  unfold requireWorkerToken
  apply sat_perform_bind trivial
  intro worker hdisclosed
  split
  next row hrow =>
    have hworker : worker = some row := checkWorkerToken_row hrow
    subst hworker
    exact hdisclosed
  next =>
    unfold refuse
    split
    · trivial
    · exact ⟨trivial, fun _ _ => trivial⟩

/-- Whatever row the heartbeat reads before it takes the lock says that the device only
measures. -/
theorem lockstep_heartbeat {req req' : HeartbeatRequest} (auth cert : Option String)
    (hobserver : observer req.workerId) (hid : req'.workerId = req.workerId) :
    Lockstep (machine cfg) (Measuring observer) (heartbeat cfg req auth cert)
      (heartbeat cfg req' auth cert) := by
  unfold heartbeat
  rw [hid]
  have hgate : (requireWorkerToken cfg req.workerId auth cert).Sat (fun _ _ => True)
      (Disclosed observer) [] _ := disclosed_requireWorkerToken
  refine Lockstep.bind hgate disclosed_exec ?_
  intro _ row hrow
  cases hcap : row.capabilityJson.reload? with
  | none => exact .same _
  | some cap =>
      have hmeasures : cap.measurementOnly = true :=
        (Capability.reload?_measurementOnly hcap).trans (hrow hobserver)
      dsimp only
      rw [hmeasures]
      refine .call (fun _ _ _ => rfl) ?_
      intro input w _
      refine .call ?_ (fun _ _ _ => .same _)
      intro input' w' _
      refine congrArg (fun db => (⟨w'.clock, db⟩ : World)) ?_
      exact (recordHeartbeat_measuring hid w.clock w'.clock w'.db).symm

theorem lockstep_handle {call call' : Call} (h : Varied observer call call') :
    Lockstep (machine cfg) (Measuring observer) (handle cfg call) (handle cfg call') := by
  cases h with
  | same => exact .same _
  | register cert _ hid hm hm' =>
      simp only [handle]
      rw [register_varied cert hid hm hm']
      exact .same _
  | heartbeat auth cert hobserver hid => exact lockstep_heartbeat auth cert hobserver hid

end Programs

/-- Two runs that differ in nothing but what measurement-only devices say of themselves
are the same to everybody. -/
theorem run_unaffected (cfg : Config) (clock : Time) {ms ms' : List Move}
    (h : List.Forall₂ (VariedMoves (OnlyMeasures ms)) ms ms') :
    (run cfg clock ms).state = (run cfg clock ms').state ∧
      (run cfg clock ms).outcomes = (run cfg clock ms').outcomes := by
  have hstart : InStep (machine cfg) (Measuring (OnlyMeasures ms)) ⟨.fresh clock, []⟩
      ⟨.fresh clock, []⟩ := ⟨rfl, .nil⟩
  have hmoves : List.Forall₂ (LockstepMoves (machine cfg) (Measuring (OnlyMeasures ms))) ms ms' := by
    refine h.imp ?_
    intro m m' hm
    cases hm with
    | spawn hcall => exact .spawn (lockstep_handle hcall)
    | run i input => exact .run i input
    | disturb t => exact .disturb t
  have hruns := Interleaving.runs_inStep hstart ?_ hmoves
  · exact ⟨hruns.state, hruns.outcomes⟩
  · rintro before after hsplit v honly
    rw [hsplit] at honly
    exact run_measuring cfg clock before v honly.before

/-- A device that only measures gets nothing and gives nothing away. -/
theorem observers_inert (cfg : Config) (clock : Time) (ms : List Move) :
    (∀ v, OnlyMeasures ms v →
      (∀ p ∈ runTrace cfg clock ms, ∀ cap free, p.cmd ≠ .assignNext v cap free) ∧
      (∀ j ∈ (run cfg clock ms).state.db.jobs, j.leasedTo v = false) ∧
      ∀ l ∈ (run cfg clock ms).state.db.ledger.rows, l.workerId ≠ v) ∧
    ∀ ms', List.Forall₂ (VariedMoves (OnlyMeasures ms)) ms ms' →
      (run cfg clock ms).state = (run cfg clock ms').state ∧
        (run cfg clock ms).outcomes = (run cfg clock ms').outcomes := by
  refine ⟨?_, fun ms' => run_unaffected cfg clock⟩
  intro v honly
  refine ⟨?_, run_neverLeased cfg clock ms honly, run_neverPaid cfg clock ms honly⟩
  intro p hp cap free
  obtain ⟨before, m, after, rfl, hperf⟩ := Interleaving.mem_trace hp
  exact run_neverAsks hperf honly.before cap free

end OneCompute
