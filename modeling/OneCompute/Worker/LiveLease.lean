import OneCompute.Orchestrator.Leases
import OneCompute.Worker.Agent

/-!
An agent at work against the orchestrator and its other clients: how long the job
it was assigned stays leased to it.
-/

namespace OneCompute.Worker
open Interleaving (Prog)
open Interleaving.Prog (Sat sat_added sat_bind sat_imp sat_perform_bind)

/-- Where the agent stands in its loop. -/
inductive Phase where
  | idle
  | polling (thread : Nat)
  | working (assignment : JobAssignment)
  | reporting (thread : Nat)

/-- The agent, and what the orchestrator it works for has been through. The job that
was granted to the agent and not yet reported is remembered with the time of the
grant. -/
structure Fleet where
  served : List Move := []
  phase : Phase := .idle
  lease : Option (String × Time) := none

inductive Act where
  /-- A request of another client arrives, a request is served, or time passes. -/
  | orchestrator (m : Move)
  | poll (authorization certificate : Option String)
  | receive
  | finish (x : Execution) (now : Time) (duration : PyFloat)
      (authorization certificate : Option String)
  | answered
  | beat (usage : Usage) (authorization certificate : Option String)

/-- The call is made in the name of `w`, or disconnects it. -/
def Concerns (w : String) : Call → Bool
  | .jobsNext v _ _ => v = w
  | .heartbeat req _ _ => req.workerId = w
  | .results _ req _ _ => req.workerId = w
  | .disconnectWorker v _ => v = w
  | _ => false

def foreign (w : String) : Move → Bool
  | .spawn call => !Concerns w call
  | _ => true

/-- A grant to `w` begins a lease, and its result ends it. -/
def leaseAfter (w : String) (lease : Option (String × Time)) (p : Performed) :
    Option (String × Time) :=
  match p.cmd with
  | .assignNext v cap free =>
      if v = w then
        match (assignNext v cap free p.pre.clock p.pre.db).answer with
        | .granted job => some (job.jobId, p.pre.clock)
        | _ => lease
      else lease
  | .settle _ req _ => if req.workerId = w then none else lease
  | _ => lease

/-- How the call that thread `i` serves has ended, if it has. -/
def endedAt (s : Sys) (i : Nat) : Option (Except Failure Reply) :=
  (s.threads[i]?).bind fun thread =>
    match thread.prog with
    | .ret reply => some (.ok reply)
    | .raise failure => some (.error failure)
    | .call _ _ => none

section Fleet
variable (cfg : Config) (clock : Time) (agent : WorkerAgent)

def Fleet.orchestrator (f : Fleet) : Sys := run cfg clock f.served

/-- The thread that serves the request of the agent, and the call it serves. -/
def Fleet.request (f : Fleet) (call : Call) (phase : Nat → Phase) : Fleet :=
  { f with
    served := f.served ++ [.spawn call]
    phase := phase (f.orchestrator cfg clock).threads.length }

def Fleet.step (f : Fleet) : Act → Fleet
  | .orchestrator m =>
      if foreign agent.workerId m then
        { f with
          served := f.served ++ [m]
          lease := (performedAt cfg clock f.served m).elim f.lease (leaseAfter agent.workerId f.lease) }
      else f
  | .beat usage auth cert =>
      { f with served := f.served ++ [.spawn (.heartbeat (usageHeartbeat agent usage) auth cert)] }
  | .poll auth cert =>
      match f.phase with
      | .idle => f.request cfg clock (.jobsNext agent.workerId auth cert) .polling
      | _ => f
  | .receive =>
      match f.phase with
      | .polling i =>
          match endedAt (f.orchestrator cfg clock) i with
          | none => f
          | some (.ok (.assignment assignment)) => { f with phase := .working assignment }
          | some _ => { f with phase := .idle, lease := none }
      | _ => f
  | .finish x now duration auth cert =>
      match f.phase with
      | .working assignment =>
          match (runJob cfg.ed25519 cfg.manifestBytes agent x now duration assignment).result with
          | .ok rr => f.request cfg clock (.results rr.jobId rr auth cert) .reporting
          -- the exception ends the agent's loop
          | .error _ => f
      | _ => f
  | .answered =>
      match f.phase with
      | .reporting i =>
          match endedAt (f.orchestrator cfg clock) i with
          | none => f
          | some _ => { f with phase := .idle, lease := none }
      | _ => f

def fleet (acts : List Act) : Fleet := acts.foldl (Fleet.step cfg clock agent) {}

/-- While the agent has a job to report, nothing reaps after the 20 seconds of its
lease and its result is judged by a clock that reads less. -/
def Fleet.punctual (f : Fleet) : Act → Bool
  | .orchestrator m =>
      match f.lease, performedAt cfg clock f.served m with
      | some (_, t), some p =>
          match p.cmd with
          | .reapExpired => p.pre.clock ≤ leaseDeadline t
          | .settle _ req now => req.workerId ≠ agent.workerId || now < leaseDeadline t
          | _ => true
      | _, _ => true
  | _ => true

def Fleet.allPunctual (f : Fleet) : List Act → Bool
  | [] => true
  | act :: acts => f.punctual cfg clock agent act && (f.step cfg clock agent act).allPunctual acts

end Fleet

/-! ## A result is judged once -/

/-- The thread has had a result judged. -/
def Settled (past : Past) : Prop := ∃ a ∈ past, ∃ id req now, a.cmd = .settle id req now

/-- A call has at most one result judged. -/
def SettlesOnce (past : Past) (c : Cmd) : Prop :=
  (∃ id req now, c = .settle id req now) → ¬ Settled past

theorem settlesOnce_of_ne {past : Past} {c : Cmd} (hc : ∀ id req now, c ≠ .settle id req now) :
    SettlesOnce past c := by
  rintro ⟨id, req, now, h⟩
  exact absurd h (hc id req now)

/-- A gate has no result judged. -/
theorem gate_unsettled (cfg : Config) {past : Past} {A : Type} {p : Handler A}
    {post : Past → A → Prop} (hp : Keeps cfg (.operatorRead 0 none) past p post)
    (h : ¬ Settled past) :
    p.Sat SettlesOnce Truthful past (fun past' _ => ¬ Settled past') := by
  have hissued : ∀ past c, Issued cfg (.operatorRead 0 none) past c →
      ∀ id req now, c ≠ .settle id req now := by
    rintro past c hc id req now rfl
    obtain ⟨auth, cert, row, hcall, -⟩ := hc
    cases hcall
  refine sat_imp (sat_added hp hissued) (fun past c hc => settlesOnce_of_ne (hissued past c hc)) ?_
  rintro past' a ⟨-, hadded⟩ ⟨b, hb, id, req, now, hcmd⟩
  cases hadded b hb with
  | inl hbefore => exact h ⟨b, hbefore, id, req, now, hcmd⟩
  | inr hgate => exact hgate id req now hcmd

theorem results_settlesOnce (cfg : Config) (id : String) (req : ResultRequest)
    (auth cert : Option String) :
    (results cfg id req auth cert).Sat SettlesOnce Truthful [] (fun _ _ => True) := by
  have hstart : ¬ Settled [] := by simp [Settled]
  apply sat_bind (gate_unsettled cfg keeps_requireParsed hstart)
  intro past _ _ hpast
  split
  · trivial
  · apply sat_bind (gate_unsettled cfg keeps_requireWorkerToken hpast)
    intro past row _ hpast
    split
    · trivial
    · apply sat_perform_bind (settlesOnce_of_ne (fun _ _ _ h => by cases h))
      intro now _
      apply sat_perform_bind
      · rintro - ⟨b, hb, id, req, t, hcmd⟩
        cases List.mem_cons.mp hb with
        | inl hnow =>
            rw [hnow] at hcmd
            cases hcmd
        | inr hbefore => exact hpast ⟨b, hbefore, id, req, t, hcmd⟩
      · intro settled _
        cases settled with
        | error failure => trivial
        | ok response => trivial

theorem settlesOnce (cfg : Config) :
    Interleaving.Discipline (machine cfg) (fun w => RowsNamed w.db) (fun _ past c => SettlesOnce past c)
      Truthful (fun _ _ _ => True) where
  start call := by
    have hother : (∀ id req auth cert, call ≠ .results id req auth cert) →
        (handle cfg call).Sat SettlesOnce Truthful [] (fun _ _ => True) := by
      intro hcall
      refine sat_imp (keeps_handle call) ?_ (fun _ _ _ => trivial)
      rintro past c hissued ⟨id, req, now, rfl⟩
      obtain ⟨auth, cert, row, hresults, -⟩ := hissued
      exact absurd hresults (hcall _ _ _ _)
    cases call with
    | results id req auth cert => exact results_settlesOnce cfg id req auth cert
    | _ => exact hother (fun _ _ _ _ h => by cases h)
  answer c input w h := truthful_exec c input w h

/-! ## What the agent and the orchestrator keep -/

section Invariant
variable (cfg : Config) (clock : Time) (agent : WorkerAgent)

/-- The call still has commands to perform. -/
def Running (t : Interleaving.Thread Cmd Ret Failure Reply Call) : Prop :=
  ∃ c k, t.prog = .call c k

/-- The answer to a result says that its job was not, or no longer, leased. -/
def LostLease (response : ResultResponse) : Prop :=
  response.reason = some "not_leased" ∨ response.reason = some "lease_expired"

/-- A call in the agent's name is the one its loop waits for, or a heartbeat that
names no job; and it was never told that its lease is lost. -/
def CallOk (w : String) (phase : Phase) (i : Nat)
    (t : Interleaving.Thread Cmd Ret Failure Reply Call) : Prop :=
  match t.call with
  | .jobsNext v _ _ => v = w → Running t → phase = .polling i
  | .heartbeat req _ _ => req.workerId = w → req.currentJobId = none
  | .results _ req _ _ => req.workerId = w → (Running t → phase = .reporting i) ∧
      ∀ id req' now response, Saw t.past (.settle id req' now) (.ok response) → ¬ LostLease response
  | .disconnectWorker v _ => v ≠ w
  | _ => True

/-- The lease belongs to the job the agent is busy with. -/
def PhaseOk (f : Fleet) : Prop :=
  match f.phase with
  | .idle => f.lease = none
  | .polling i => ∃ auth cert past prog,
      (f.orchestrator cfg clock).threads[i]? = some ⟨.jobsNext agent.workerId auth cert, past, prog⟩ ∧
      ∀ cap free job, Saw past (.assignNext agent.workerId cap free) (.granted job) →
        ∃ t, f.lease = some (job.manifestJson.jobId, t)
  | .working assignment => ∃ t, f.lease = some (assignment.signedManifest.manifest.jobId, t)
  | .reporting i => ∃ req auth cert past prog,
      (f.orchestrator cfg clock).threads[i]? = some ⟨.results req.jobId req auth cert, past, prog⟩ ∧
      req.workerId = agent.workerId ∧ (Settled past ∨ ∃ t, f.lease = some (req.jobId, t))

structure FleetInv (f : Fleet) : Prop where
  held : ∀ id t, f.lease = some (id, t) → ∃ row ∈ (f.orchestrator cfg clock).state.db.jobs,
    row.jobId = id ∧ row.leasedTo agent.workerId = true ∧ row.leaseExpires = some (leaseDeadline t)
  phase : PhaseOk cfg clock agent f
  calls : ∀ i t, (f.orchestrator cfg clock).threads[i]? = some t →
    CallOk agent.workerId f.phase i t

end Invariant

section Step
variable {cfg : Config} {clock : Time} {agent : WorkerAgent} {f : Fleet}

theorem orchestrator_snoc (cfg : Config) (clock : Time) (ms : List Move) (m : Move) :
    run cfg clock (ms ++ [m]) = Interleaving.step (machine cfg) (run cfg clock ms) m :=
  Interleaving.runs_snoc _ _ _ _

/-- What a command does to the agent's lease. -/
inductive LeaseChange (cfg : Config) (w : String) (lease : Option (String × Time)) (p : Performed) :
    Option (String × Time) → Prop where
  | kept : (∀ id req now, p.cmd = .settle id req now → req.workerId ≠ w) →
      (∀ cap free job, p.answered (machine cfg) ≠ ⟨.assignNext w cap free, .granted job⟩) →
      LeaseChange cfg w lease p lease
  | granted (cap : Capability) (free : Option PyFloat) (job : JobRow) :
      p.answered (machine cfg) = ⟨.assignNext w cap free, .granted job⟩ →
      LeaseChange cfg w lease p (some (job.jobId, p.pre.clock))
  | settled (id : String) (req : ResultRequest) (now : Time) : p.cmd = .settle id req now →
      req.workerId = w → LeaseChange cfg w lease p none

theorem leaseAfter_change (cfg : Config) (w : String) (lease : Option (String × Time)) (p : Performed) :
    LeaseChange cfg w lease p (leaseAfter w lease p) := by
  obtain ⟨thread, call, past, cmd, input, pre⟩ := p
  cases cmd with
  | assignNext v cap free =>
      simp only [leaseAfter]
      have hanswer : Interleaving.Performed.answered (machine cfg)
          ⟨thread, call, past, .assignNext v cap free, input, pre⟩ =
          ⟨.assignNext v cap free, (assignNext v cap free pre.clock pre.db).answer⟩ := rfl
      split
      next hv =>
        subst hv
        split
        next job hgranted =>
          refine .granted cap free job ?_
          rw [hanswer, hgranted]
        next hgranted =>
          refine .kept (fun _ _ _ h => by cases h) ?_
          intro cap' free' job h
          rw [hanswer] at h
          obtain ⟨hcmd, hjob⟩ := Interleaving.Answered.mk.inj h
          cases hcmd
          exact hgranted job (eq_of_heq hjob)
      next hv =>
        refine .kept (fun _ _ _ h => by cases h) ?_
        intro cap' free' job h
        rw [hanswer] at h
        cases (Interleaving.Answered.mk.inj h).1
        exact hv rfl
  | settle id req now =>
      simp only [leaseAfter]
      split
      next hw => exact .settled id req now rfl hw
      next hw =>
        refine .kept ?_ ?_
        · rintro _ _ _ ⟨⟩
          exact hw
        · intro cap free job h
          cases (Interleaving.Answered.mk.inj h).1
  | _ =>
      refine .kept (fun _ _ _ h => by cases h) ?_
      intro cap free job h
      cases (Interleaving.Answered.mk.inj h).1

variable {m : Move} {p : Performed}

/-- The thread of a command, and the one it leaves. -/
theorem command_thread (hp : performedAt cfg clock f.served m = some p) :
    ∃ k, (f.orchestrator cfg clock).threads[p.thread]? = some ⟨p.call, p.past, .call p.cmd k⟩ ∧
      (run cfg clock (f.served ++ [m])).threads[p.thread]? =
        some ⟨p.call, p.answered (machine cfg) :: p.past, k (p.answer (machine cfg))⟩ := by
  rw [orchestrator_snoc]
  exact Interleaving.performed_thread hp

theorem FleetInv.poll (h : FleetInv cfg clock agent f)
    (hp : performedAt cfg clock f.served m = some p) {auth cert : Option String}
    (hcall : p.call = .jobsNext agent.workerId auth cert) : f.phase = .polling p.thread := by
  obtain ⟨k, hthread, -⟩ := command_thread hp
  have hok := h.calls _ _ hthread
  rw [hcall] at hok
  exact hok rfl ⟨_, _, rfl⟩

theorem FleetInv.report (h : FleetInv cfg clock agent f)
    (hp : performedAt cfg clock f.served m = some p) {id : String} {req : ResultRequest}
    {auth cert : Option String} (hcall : p.call = .results id req auth cert)
    (hw : req.workerId = agent.workerId) : f.phase = .reporting p.thread := by
  obtain ⟨k, hthread, -⟩ := command_thread hp
  have hok := h.calls _ _ hthread
  rw [hcall] at hok
  exact (hok hw).1 ⟨_, _, rfl⟩

/-- A punctual command that is no result of the agent leaves its lease standing. -/
theorem FleetInv.stands (h : FleetInv cfg clock agent f)
    (hp : performedAt cfg clock f.served m = some p)
    (hpunctual : f.punctual cfg clock agent (.orchestrator m) = true) {id : String} {t : Time}
    (hlease : f.lease = some (id, t))
    (hsettle : ∀ id req now, p.cmd = .settle id req now → req.workerId ≠ agent.workerId) :
    ¬ EndsLease p.pre agent.workerId id (leaseDeadline t) p.cmd := by
  obtain ⟨k, hthread, -⟩ := command_thread hp
  have hok := h.calls _ _ hthread
  have hissued := (run_issued hp).1
  simp only [Fleet.punctual, hlease, hp] at hpunctual
  generalize hcmd : p.cmd = c at hissued hpunctual
  intro hends
  cases c with
  | reapExpired =>
      have hdeadline : p.pre.clock ≤ leaseDeadline t := by simpa using hpunctual
      exact absurd hends (Nat.not_lt.mpr hdeadline)
  | settle _ req now => exact hsettle _ req now hcmd hends.2
  | recordHeartbeat _ req now =>
      obtain ⟨auth, cert, row, cap, hcall, -⟩ := hissued
      rw [hcall] at hok
      have hnone : req.currentJobId = none := hok hends.1
      rw [hends.2] at hnone
      cases hnone
  | removeWorker u now =>
      obtain ⟨auth, hcall, -⟩ := hissued
      rw [hcall] at hok
      exact hok hends
  | _ => exact hends

/-- A grant to the agent, in terms of the database it found. -/
theorem answered_granted {p : Performed} {w : String} {cap : Capability} {free : Option PyFloat}
    {job : JobRow} (h : p.answered (machine cfg) = ⟨.assignNext w cap free, .granted job⟩) :
    (assignNext w cap free p.pre.clock p.pre.db).answer = .granted job ∧
      (p.post (machine cfg)).db.jobs = (assignNext w cap free p.pre.clock p.pre.db).db.jobs := by
  obtain ⟨thread, call, past, cmd, input, pre⟩ := p
  obtain ⟨hcmd, hanswer⟩ := Interleaving.Answered.mk.inj h
  cases hcmd
  exact ⟨eq_of_heq hanswer, emitAll_jobs _ _ _⟩

/-- The row of the agent's job after a command. -/
theorem FleetInv.held_after (h : FleetInv cfg clock agent f)
    (hp : performedAt cfg clock f.served m = some p)
    (hpunctual : f.punctual cfg clock agent (.orchestrator m) = true) (id : String) (t : Time)
    (hlease : leaseAfter agent.workerId f.lease p = some (id, t)) :
    ∃ row ∈ (p.post (machine cfg)).db.jobs, row.jobId = id ∧
      row.leasedTo agent.workerId = true ∧ row.leaseExpires = some (leaseDeadline t) := by
  have hchange := leaseAfter_change cfg agent.workerId f.lease p
  rw [hlease] at hchange
  generalize hafter : some (id, t) = lease at hchange
  cases hchange with
  | kept hsettle _ =>
      obtain ⟨row, hrow, hid, hleased, hexpires⟩ := h.held id t hafter.symm
      have hpre : p.pre = (f.orchestrator cfg clock).state := Interleaving.performed_pre hp
      have hends := h.stands hp hpunctual hafter.symm hsettle
      rw [← hid] at hends
      rw [← hpre] at hrow
      exact ⟨row, lease_exec hrow hleased hexpires hends, hid, hleased, hexpires⟩
  | granted cap free job hgranted =>
      cases hafter
      obtain ⟨hanswer, hjobs⟩ := answered_granted hgranted
      rw [hjobs]
      exact granted_leased hanswer
  | settled _ _ _ _ _ => cases hafter

/-- While its lease stands, a result of the agent is not refused for want of it. -/
theorem settle_keepsLease {id : String} {req : ResultRequest} {now : Time} {db : Db} {row : JobRow}
    {t : Time} (hrow : row ∈ db.jobs) (hid : row.jobId = id)
    (hleased : row.leasedTo req.workerId = true) (hexpires : row.leaseExpires = some t)
    (hnow : now < t) {response : ResultResponse}
    (h : (settle id req now db).answer = .ok response) : ¬ LostLease response := by
  have hfind : db.jobs.find? id = some row := Table.find?_eq_some.mpr ⟨hrow, hid⟩
  have hc := settle_cases id req now db
  generalize settle id req now db = out at hc h
  cases hc with
  | missing hnone => cases hfind.symm.trans hnone
  | notLeased job hjob hnot =>
      cases hfind.symm.trans hjob
      rw [hleased] at hnot
      cases hnot
  | lapsed job hjob _ hlapsed =>
      cases hfind.symm.trans hjob
      exact absurd (hlapsed t hexpires) (Nat.not_le.mpr hnow)
  | tooLarge _ _ _ | invalidProof _ _ _ _ | cheated _ _ _ _ | completed _ _ _ _ _ _ =>
      cases h
      simp [LostLease, refused]
  | raised _ _ _ _ _ => cases h
  | returned _ _ hstatus =>
      cases h
      cases hs : req.status with
      | completed => exact absurd hs hstatus
      | failed => simp [LostLease, refused, ResultStatus.text]
      | yielded => simp [LostLease, refused, ResultStatus.text]

/-- While the agent's result is not judged, its job has a lease. -/
theorem FleetInv.unsettled (h : FleetInv cfg clock agent f)
    (hp : performedAt cfg clock f.served m = some p) {id : String} {req : ResultRequest} {now : Time}
    (hcmd : p.cmd = .settle id req now) (hw : req.workerId = agent.workerId) :
    f.phase = .reporting p.thread ∧ ∃ t, f.lease = some (id, t) := by
  have hissued := (run_issued hp).1
  rw [hcmd] at hissued
  obtain ⟨auth, cert, row, hcall, hid, -⟩ := hissued
  have hphase := h.report hp hcall hw
  refine ⟨hphase, ?_⟩
  have hok := h.phase
  unfold PhaseOk at hok
  rw [hphase] at hok
  obtain ⟨req', auth', cert', past, prog, hthread, -, hlease⟩ := hok
  obtain ⟨k, hthread', -⟩ := command_thread hp
  rw [hthread] at hthread'
  obtain ⟨hcall', hpast, -⟩ := Interleaving.Thread.mk.inj (Option.some.inj hthread')
  rw [hcall] at hcall'
  obtain ⟨-, hreq, -⟩ := Call.results.inj hcall'
  have honce := ((settlesOnce cfg).performed (rowsNamed_invariant cfg) rowsNamed_empty hp).1
    ⟨id, req, now, hcmd⟩
  rw [hpast, hreq, hid] at hlease
  exact hlease.resolve_left honce

/-- A punctual result of the agent is not refused for want of its lease. -/
theorem FleetInv.judged (h : FleetInv cfg clock agent f)
    (hp : performedAt cfg clock f.served m = some p)
    (hpunctual : f.punctual cfg clock agent (.orchestrator m) = true) {id : String}
    {req : ResultRequest} {now : Time} {response : ResultResponse}
    (hanswered : p.answered (machine cfg) = ⟨.settle id req now, .ok response⟩)
    (hw : req.workerId = agent.workerId) : ¬ LostLease response := by
  have hcmd : p.cmd = .settle id req now := congrArg Interleaving.Answered.cmd hanswered
  obtain ⟨-, t, hlease⟩ := h.unsettled hp hcmd hw
  obtain ⟨row, hrow, hid, hleased, hexpires⟩ := h.held id t hlease
  have hpre : p.pre = (f.orchestrator cfg clock).state := Interleaving.performed_pre hp
  simp only [Fleet.punctual, hlease, hp, hcmd] at hpunctual
  have hnow : now < leaseDeadline t := by simpa [hw] using hpunctual
  obtain ⟨thread, call, past, cmd, input, pre⟩ := p
  cases hcmd
  have hanswer : (settle id req now pre.db).answer = .ok response :=
    eq_of_heq (Interleaving.Answered.mk.inj hanswered).2
  rw [← hpre] at hrow
  rw [← hw] at hleased
  exact settle_keepsLease hrow hid hleased hexpires hnow hanswer

theorem FleetInv.calls_after (h : FleetInv cfg clock agent f)
    (hp : performedAt cfg clock f.served m = some p)
    (hpunctual : f.punctual cfg clock agent (.orchestrator m) = true) (j : Nat)
    (t : Interleaving.Thread Cmd Ret Failure Reply Call)
    (ht : (run cfg clock (f.served ++ [m])).threads[j]? = some t) :
    CallOk agent.workerId f.phase j t := by
  have hstep := ht
  rw [orchestrator_snoc] at hstep
  obtain hold | ⟨call, rfl, -, -⟩ | ⟨q, hq, rfl⟩ := Interleaving.step_thread hstep
  · exact h.calls j t hold
  · cases hp
  · obtain rfl : p = q := Option.some.inj (hp.symm.trans hq)
    obtain ⟨k, hthread, hthread'⟩ := command_thread hp
    rw [hthread'] at ht
    cases ht
    have hok := h.calls _ _ hthread
    cases hcall : p.call with
    | jobsNext v auth cert =>
        simp only [CallOk, hcall] at hok ⊢
        exact fun hv _ => hok hv ⟨_, _, rfl⟩
    | heartbeat req auth cert =>
        simp only [CallOk, hcall] at hok ⊢
        exact hok
    | disconnectWorker v auth =>
        simp only [CallOk, hcall] at hok ⊢
        exact hok
    | results id req auth cert =>
        simp only [CallOk, hcall] at hok ⊢
        intro hw
        obtain ⟨hphase, hpast⟩ := hok hw
        refine ⟨fun _ => hphase ⟨_, _, rfl⟩, ?_⟩
        intro id' req' now response hsaw
        cases List.mem_cons.mp hsaw with
        | inl hnow =>
            have hissued := (run_issued hp).1
            rw [show p.cmd = .settle id' req' now from congrArg Interleaving.Answered.cmd hnow.symm]
              at hissued
            obtain ⟨auth', cert', row, hcall', -⟩ := hissued
            rw [hcall] at hcall'
            cases hcall'
            exact h.judged hp hpunctual hnow.symm hw
        | inr hbefore => exact hpast id' req' now response hbefore
    | _ => trivial

theorem FleetInv.grants (h : FleetInv cfg clock agent f)
    (hp : performedAt cfg clock f.served m = some p) {cap : Capability} {free : Option PyFloat}
    {job : JobRow}
    (hgranted : p.answered (machine cfg) = ⟨.assignNext agent.workerId cap free, .granted job⟩) :
    f.phase = .polling p.thread ∧ f.lease = none ∧ job.jobId = job.manifestJson.jobId := by
  have hpre : p.pre = (f.orchestrator cfg clock).state := Interleaving.performed_pre hp
  have hissued := (run_issued hp).1
  rw [show p.cmd = .assignNext agent.workerId cap free from
    congrArg Interleaving.Answered.cmd hgranted] at hissued
  obtain ⟨auth, cert, row, hcall, -⟩ := hissued
  have hanswer := (answered_granted hgranted).1
  rw [hpre] at hanswer
  refine ⟨h.poll hp hcall, ?_, (run_submitted f.served job (granted_stored hanswer)).1⟩
  cases hlease : f.lease with
  | none => rfl
  | some lease =>
      -- a worker with a lease is busy, and gets nothing
      obtain ⟨held, hheld, -, hleased, -⟩ := h.held lease.1 lease.2 hlease
      have hbusy : busy (f.orchestrator cfg clock).state.db agent.workerId = true :=
        List.any_eq_true.mpr ⟨held, hheld, hleased⟩
      unfold assignNext at hanswer
      rw [if_pos hbusy] at hanswer
      cases hanswer

theorem FleetInv.phase_after (h : FleetInv cfg clock agent f)
    (hp : performedAt cfg clock f.served m = some p) :
    PhaseOk cfg clock agent
      { f with served := f.served ++ [m], lease := leaseAfter agent.workerId f.lease p } := by
  have hchange := leaseAfter_change cfg agent.workerId f.lease p
  generalize leaseAfter agent.workerId f.lease p = lease at hchange ⊢
  have hok := h.phase
  obtain ⟨k, hthread, hthread'⟩ := command_thread hp
  have hother : ∀ (i : Nat) t, i ≠ p.thread → (f.orchestrator cfg clock).threads[i]? = some t →
      (run cfg clock (f.served ++ [m])).threads[i]? = some t := by
    intro i t hi ht
    rw [orchestrator_snoc]
    refine Interleaving.step_thread_of ht ?_
    rintro q hq rfl
    cases hp.symm.trans hq
    exact hi rfl
  unfold PhaseOk at hok ⊢
  simp only [Fleet.orchestrator]
  cases hphase : f.phase with
  | idle =>
      rw [hphase] at hok
      cases hchange with
      | kept _ _ => exact hok
      | granted _ _ _ hgranted => cases hphase.symm.trans (h.grants hp hgranted).1
      | settled _ _ _ _ _ => rfl
  | working assignment =>
      rw [hphase] at hok
      cases hchange with
      | kept _ _ => exact hok
      | granted _ _ _ hgranted => cases hphase.symm.trans (h.grants hp hgranted).1
      | settled _ _ _ hcmd hw => cases hphase.symm.trans (h.unsettled hp hcmd hw).1
  | polling i =>
      rw [hphase] at hok
      obtain ⟨auth, cert, past, prog, hi, hgrants⟩ := hok
      by_cases hmine : i = p.thread
      · subst hmine
        rw [hi] at hthread
        obtain ⟨hcall, rfl, -⟩ := Interleaving.Thread.mk.inj (Option.some.inj hthread)
        refine ⟨auth, cert, p.answered (machine cfg) :: p.past, _, hcall ▸ hthread', ?_⟩
        intro cap free job hsaw
        cases List.mem_cons.mp hsaw with
        | inl hnow =>
            cases hchange with
            | kept _ hnone => exact absurd hnow.symm (hnone cap free job)
            | granted cap' free' job' hgranted =>
                obtain ⟨hcmd, hjob⟩ := Interleaving.Answered.mk.inj (hnow.trans hgranted)
                cases hcmd
                cases Poll.granted.inj (eq_of_heq hjob)
                exact ⟨p.pre.clock, by rw [(h.grants hp hgranted).2.2]⟩
            | settled _ _ _ hcmd hw => cases hphase.symm.trans (h.unsettled hp hcmd hw).1
        | inr hbefore =>
            obtain ⟨t, hlease⟩ := hgrants cap free job hbefore
            cases hchange with
            | kept _ _ => exact ⟨t, hlease⟩
            | granted _ _ _ hgranted => cases hlease.symm.trans (h.grants hp hgranted).2.1
            | settled _ _ _ hcmd hw => cases hphase.symm.trans (h.unsettled hp hcmd hw).1
      · refine ⟨auth, cert, past, prog, hother i _ hmine hi, ?_⟩
        cases hchange with
        | kept _ _ => exact hgrants
        | granted _ _ _ hgranted =>
            exact absurd (Phase.polling.inj (hphase.symm.trans (h.grants hp hgranted).1)) hmine
        | settled _ _ _ hcmd hw => cases hphase.symm.trans (h.unsettled hp hcmd hw).1
  | reporting i =>
      rw [hphase] at hok
      obtain ⟨req, auth, cert, past, prog, hi, hw, hlease⟩ := hok
      by_cases hmine : i = p.thread
      · subst hmine
        rw [hi] at hthread
        obtain ⟨hcall, rfl, -⟩ := Interleaving.Thread.mk.inj (Option.some.inj hthread)
        refine ⟨req, auth, cert, p.answered (machine cfg) :: p.past, _, hcall ▸ hthread', hw, ?_⟩
        cases hchange with
        | kept _ _ =>
            refine hlease.imp_left ?_
            rintro ⟨a, ha, hsettle⟩
            exact ⟨a, List.mem_cons_of_mem _ ha, hsettle⟩
        | granted _ _ _ hgranted => cases hphase.symm.trans (h.grants hp hgranted).1
        | settled id req' now hcmd _ =>
            exact .inl ⟨p.answered (machine cfg), List.mem_cons_self, id, req', now, hcmd⟩
      · refine ⟨req, auth, cert, past, prog, hother i _ hmine hi, hw, ?_⟩
        cases hchange with
        | kept _ _ => exact hlease
        | granted _ _ _ hgranted => cases hphase.symm.trans (h.grants hp hgranted).1
        | settled _ _ _ hcmd hw' =>
            exact absurd (Phase.reporting.inj (hphase.symm.trans (h.unsettled hp hcmd hw').1)) hmine

/-- A call that the loop does not wait for stays in order whatever the loop does next. -/
theorem CallOk.moved {w : String} {phase phase' : Phase} {i : Nat}
    {t : Interleaving.Thread Cmd Ret Failure Reply Call} (h : CallOk w phase i t)
    (hphase : Running t → phase ≠ .polling i ∧ phase ≠ .reporting i) : CallOk w phase' i t := by
  cases hcall : t.call with
  | jobsNext v auth cert =>
      simp only [CallOk, hcall] at h ⊢
      exact fun hv hrunning => absurd (h hv hrunning) (hphase hrunning).1
  | results id req auth cert =>
      simp only [CallOk, hcall] at h ⊢
      exact fun hw => ⟨fun hrunning => absurd ((h hw).1 hrunning) (hphase hrunning).2, (h hw).2⟩
  | heartbeat req auth cert =>
      simp only [CallOk, hcall] at h ⊢
      exact h
  | disconnectWorker v auth =>
      simp only [CallOk, hcall] at h ⊢
      exact h
  | _ => simp only [CallOk, hcall]

theorem callOk_foreign {w : String} {phase : Phase} {i : Nat} {call : Call}
    (h : foreign w (.spawn call) = true) : CallOk w phase i ⟨call, [], handle cfg call⟩ := by
  cases call with
  | jobsNext v auth cert =>
      simp only [foreign, Concerns] at h
      exact fun hv => by simp [hv] at h
  | results id req auth cert =>
      simp only [foreign, Concerns] at h
      exact fun hw => by simp [hw] at h
  | heartbeat req auth cert =>
      simp only [foreign, Concerns] at h
      exact fun hw => by simp [hw] at h
  | disconnectWorker v auth =>
      simp only [foreign, Concerns] at h
      exact fun hv => by simp [hv] at h
  | _ => trivial

/-- Moves that perform no command leave the jobs as they are. -/
theorem jobs_quiet {ms : List Move} (hp : performedAt cfg clock ms m = none) :
    (run cfg clock (ms ++ [m])).state.db = (run cfg clock ms).state.db := by
  rw [orchestrator_snoc]
  obtain ⟨p, hperf, -⟩ | ⟨-, ⟨t, -, hstate⟩ | hstate⟩ :=
    Interleaving.step_state (M := machine cfg) (run cfg clock ms) m
  · cases hp.symm.trans hperf
  · rw [hstate]
    rfl
  · rw [hstate]

/-- A move that performs no command, and starts only calls that are in order. -/
theorem FleetInv.quiet (h : FleetInv cfg clock agent f)
    (hp : performedAt cfg clock f.served m = none)
    (hspawn : ∀ call i, m = .spawn call → CallOk agent.workerId f.phase i ⟨call, [], handle cfg call⟩) :
    FleetInv cfg clock agent { f with served := f.served ++ [m] } := by
  have hkept : ∀ (i : Nat) t, (f.orchestrator cfg clock).threads[i]? = some t →
      (run cfg clock (f.served ++ [m])).threads[i]? = some t := by
    intro i t ht
    rw [orchestrator_snoc]
    refine Interleaving.step_thread_of ht ?_
    intro q hq
    cases hp.symm.trans hq
  constructor
  · intro id t hlease
    simp only [Fleet.orchestrator, jobs_quiet hp]
    exact h.held id t hlease
  · have hok := h.phase
    unfold PhaseOk at hok ⊢
    simp only [Fleet.orchestrator]
    cases hphase : f.phase with
    | idle | working assignment =>
        rw [hphase] at hok
        exact hok
    | polling i =>
        rw [hphase] at hok
        obtain ⟨auth, cert, past, prog, hi, hgrants⟩ := hok
        exact ⟨auth, cert, past, prog, hkept i _ hi, hgrants⟩
    | reporting i =>
        rw [hphase] at hok
        obtain ⟨req, auth, cert, past, prog, hi, hrest⟩ := hok
        exact ⟨req, auth, cert, past, prog, hkept i _ hi, hrest⟩
  · intro i t ht
    simp only [Fleet.orchestrator, orchestrator_snoc] at ht
    obtain hold | ⟨call, hm, -, rfl⟩ | ⟨q, hq, -⟩ := Interleaving.step_thread ht
    · exact h.calls i t hold
    · exact hspawn call i hm
    · cases hp.symm.trans hq

/-- The agent makes a request, and waits for the thread that serves it. -/
theorem FleetInv.request (h : FleetInv cfg clock agent f) {call : Call} {phase : Nat → Phase}
    (hwaits : ∀ i, f.phase ≠ .polling i ∧ f.phase ≠ .reporting i)
    (hcall : ∀ i, CallOk agent.workerId (phase i) i ⟨call, [], handle cfg call⟩)
    (hphase : ∀ (f' : Fleet) (i : Nat), f'.lease = f.lease → f'.phase = phase i →
      (f'.orchestrator cfg clock).threads[i]? = some ⟨call, [], handle cfg call⟩ →
      PhaseOk cfg clock agent f') :
    FleetInv cfg clock agent (f.request cfg clock call phase) := by
  have hp : performedAt cfg clock f.served (.spawn call) = none := rfl
  constructor
  · intro id t hlease
    simp only [Fleet.request, Fleet.orchestrator, jobs_quiet hp]
    exact h.held id t hlease
  · refine hphase _ (f.orchestrator cfg clock).threads.length rfl rfl ?_
    simp only [Fleet.request, Fleet.orchestrator, orchestrator_snoc]
    exact List.getElem?_concat_length
  · intro i t ht
    simp only [Fleet.request, Fleet.orchestrator, orchestrator_snoc] at ht
    obtain hold | ⟨call', hm, hi, rfl⟩ | ⟨q, hq, -⟩ := Interleaving.step_thread ht
    · exact (h.calls i t hold).moved (fun _ => hwaits i)
    · cases hm
      subst hi
      exact hcall _
    · cases hp.symm.trans hq

theorem endedAt_eq_some {s : Sys} {i : Nat} {outcome : Except Failure Reply}
    (h : endedAt s i = some outcome) : ∃ t, s.threads[i]? = some t ∧ ¬ Running t ∧
      ∀ reply, outcome = .ok reply → t.prog = .ret reply := by
  unfold endedAt at h
  obtain ⟨t, ht, houtcome⟩ := Option.bind_eq_some_iff.mp h
  refine ⟨t, ht, ?_, ?_⟩
  · rintro ⟨c, k, hprog⟩
    rw [hprog] at houtcome
    cases houtcome
  · intro reply hreply
    subst hreply
    split at houtcome
    next reply' hprog =>
      cases houtcome
      exact hprog
    next => cases houtcome
    next => cases houtcome

/-- The call that the agent waited for has ended, and it moves on. -/
theorem FleetInv.moveOn (h : FleetInv cfg clock agent f) {i : Nat} {outcome : Except Failure Reply}
    (hended : endedAt (f.orchestrator cfg clock) i = some outcome)
    (hwaited : f.phase = .polling i ∨ f.phase = .reporting i) {phase : Phase}
    {lease : Option (String × Time)} (hlease : lease = none ∨ lease = f.lease)
    (hphase : PhaseOk cfg clock agent { f with phase := phase, lease := lease }) :
    FleetInv cfg clock agent { f with phase := phase, lease := lease } := by
  obtain ⟨t, ht, hdone, -⟩ := endedAt_eq_some hended
  refine ⟨?_, hphase, ?_⟩
  · intro id e he
    simp only at he
    obtain rfl | rfl := hlease
    · cases he
    · exact h.held id e he
  · intro j t' ht'
    refine (h.calls j t' ht').moved ?_
    intro hrunning
    have hne : i ≠ j := by
      rintro rfl
      cases ht.symm.trans ht'
      exact hdone hrunning
    constructor
    · intro hj
      obtain hi | hi := hwaited
      · exact hne (Phase.polling.inj (hi.symm.trans hj))
      · cases hi.symm.trans hj
    · intro hj
      obtain hi | hi := hwaited
      · cases hi.symm.trans hj
      · exact hne (Phase.reporting.inj (hi.symm.trans hj))

/-- The assignment that a poll of the agent ended in is the job of its lease. -/
theorem FleetInv.assigned (h : FleetInv cfg clock agent f) {i : Nat} {assignment : JobAssignment}
    (hphase : f.phase = .polling i)
    (hended : endedAt (f.orchestrator cfg clock) i = some (.ok (.assignment assignment))) :
    ∃ t, f.lease = some (assignment.signedManifest.manifest.jobId, t) := by
  have hok := h.phase
  unfold PhaseOk at hok
  rw [hphase] at hok
  obtain ⟨auth, cert, past, prog, hi, hgrants⟩ := hok
  obtain ⟨t, ht, -, hret⟩ := endedAt_eq_some hended
  cases hi.symm.trans ht
  obtain rfl : prog = .ret (.assignment assignment) := hret _ rfl
  obtain ⟨row, cap, job, -, hsaw, rfl⟩ := (run_ended hi).1
  exact hgrants cap row.freeRamGb job hsaw

theorem fleetInv_step (h : FleetInv cfg clock agent f) (act : Act)
    (hpunctual : f.punctual cfg clock agent act = true) :
    FleetInv cfg clock agent (f.step cfg clock agent act) := by
  cases act with
  | orchestrator m =>
      simp only [Fleet.step]
      split
      next hforeign =>
        cases hp : performedAt cfg clock f.served m with
        | none =>
            refine h.quiet hp ?_
            rintro call i rfl
            exact callOk_foreign hforeign
        | some p =>
            refine ⟨?_, h.phase_after hp, ?_⟩
            · intro id t hlease
              simp only [Fleet.orchestrator, run_post hp]
              exact h.held_after hp hpunctual id t hlease
            · exact h.calls_after hp hpunctual
      next => exact h
  | beat usage auth cert =>
      refine h.quiet rfl ?_
      rintro call i ⟨⟩
      intro _
      simp [usageHeartbeat, heartbeatRequest]
  | poll auth cert =>
      simp only [Fleet.step]
      cases hphase : f.phase with
      | idle =>
          refine h.request ?_ (fun i _ _ => rfl) ?_
          · intro i
            simp [hphase]
          · intro f' i _ hpolling hi
            unfold PhaseOk
            rw [hpolling]
            refine ⟨auth, cert, [], _, hi, ?_⟩
            intro cap free job hsaw
            cases hsaw
      | polling _ | working _ | reporting _ => exact h
  | receive =>
      simp only [Fleet.step]
      cases hphase : f.phase with
      | polling i =>
          simp only
          cases hended : endedAt (f.orchestrator cfg clock) i with
          | none => exact h
          | some outcome =>
              have hidle : FleetInv cfg clock agent { f with phase := .idle, lease := none } :=
                h.moveOn hended (.inl hphase) (.inl rfl) rfl
              cases outcome with
              | error failure => exact hidle
              | ok reply =>
                  cases reply with
                  | assignment assignment =>
                      exact h.moveOn hended (.inl hphase) (.inr rfl) (h.assigned hphase hended)
                  | _ => exact hidle
      | idle | working _ | reporting _ => exact h
  | finish x now duration auth cert =>
      simp only [Fleet.step]
      cases hphase : f.phase with
      | working assignment =>
          simp only
          split
          next rr hresult =>
            obtain ⟨hworker, hjob⟩ := runJob_names hresult
            have hlease := h.phase
            unfold PhaseOk at hlease
            rw [hphase] at hlease
            refine h.request ?_ (fun i _ => ⟨fun _ => rfl, ?_⟩) ?_
            · intro i
              simp [hphase]
            · intro id req now response hsaw
              cases hsaw
            · intro f' i hsame hreporting hi
              unfold PhaseOk
              rw [hreporting]
              refine ⟨rr, auth, cert, [], _, hi, hworker, .inr ?_⟩
              rw [hsame, hjob]
              exact hlease
          next => exact h
      | idle | polling _ | reporting _ => exact h
  | answered =>
      simp only [Fleet.step]
      cases hphase : f.phase with
      | reporting i =>
          simp only
          cases hended : endedAt (f.orchestrator cfg clock) i with
          | none => exact h
          | some outcome => exact h.moveOn hended (.inr hphase) (.inl rfl) rfl
      | idle | polling _ | working _ => exact h

theorem fleetInv_start : FleetInv cfg clock agent {} := by
  refine ⟨?_, rfl, ?_⟩
  · rintro id t ⟨⟩
  · rintro i t ht
    cases ht

theorem fleetInv_run (h : FleetInv cfg clock agent f) {acts : List Act}
    (hpunctual : f.allPunctual cfg clock agent acts = true) :
    FleetInv cfg clock agent (acts.foldl (Fleet.step cfg clock agent) f) := by
  induction acts generalizing f with
  | nil => exact h
  | cons act acts ih =>
      obtain ⟨hact, hrest⟩ := Bool.and_eq_true_iff.mp hpunctual
      exact ih (fleetInv_step h act hact) hrest

end Step

/-! ## The lease of a live agent -/

/-- The agent keeps its job: as long as it has not been reported it is leased to the
agent, and no result of the agent was refused for want of its lease. -/
structure KeepsLease (cfg : Config) (clock : Time) (agent : WorkerAgent) (f : Fleet) : Prop where
  held : ∀ id t, f.lease = some (id, t) → ∃ row ∈ (f.orchestrator cfg clock).state.db.jobs,
    row.jobId = id ∧ row.state = .leased ∧ row.assignedWorker = some agent.workerId
  working : ∀ assignment, f.phase = .working assignment →
    ∃ t, f.lease = some (assignment.signedManifest.manifest.jobId, t)
  reporting : ∀ (i : Nat) req auth cert past prog, f.phase = .reporting i →
    (f.orchestrator cfg clock).threads[i]? = some ⟨.results req.jobId req auth cert, past, prog⟩ →
    Settled past ∨ ∃ t, f.lease = some (req.jobId, t)
  answered : ∀ (i : Nat) id req auth cert past response,
    (f.orchestrator cfg clock).threads[i]? =
      some ⟨.results id req auth cert, past, .ret (.result response)⟩ →
    req.workerId = agent.workerId → ¬ LostLease response

theorem FleetInv.keepsLease {cfg : Config} {clock : Time} {agent : WorkerAgent} {f : Fleet}
    (h : FleetInv cfg clock agent f) : KeepsLease cfg clock agent f where
  held id t hlease := by
    obtain ⟨row, hrow, hid, hleased, -⟩ := h.held id t hlease
    exact ⟨row, hrow, hid, leasedTo_iff.mp hleased⟩
  working assignment hphase := by
    have hok := h.phase
    unfold PhaseOk at hok
    rw [hphase] at hok
    exact hok
  reporting i req auth cert past prog hphase hthread := by
    have hok := h.phase
    unfold PhaseOk at hok
    rw [hphase] at hok
    obtain ⟨req', auth', cert', past', prog', hi, -, hlease⟩ := hok
    obtain ⟨hcall, hpast, -⟩ := Interleaving.Thread.mk.inj
      (Option.some.inj (hthread.symm.trans hi))
    obtain ⟨-, hreq, -⟩ := Call.results.inj hcall
    rw [hreq, hpast]
    exact hlease
  answered i id req auth cert past response hthread hw := by
    obtain ⟨⟨row, -, -, rfl⟩ | ⟨now, hsettled⟩, -⟩ := run_ended hthread
    · simp [LostLease, refused]
    · exact ((h.calls i _ hthread) hw).2 id req now response hsettled

/-- An agent whose results are judged within the 20 seconds after the grant, with no
reap after them before, keeps its leases. -/
theorem live_lease (cfg : Config) (clock : Time) (agent : WorkerAgent) (acts : List Act)
    (hpunctual : ({} : Fleet).allPunctual cfg clock agent acts = true) :
    KeepsLease cfg clock agent (fleet cfg clock agent acts) :=
  (fleetInv_run fleetInv_start hpunctual).keepsLease

def served (thread commands : Nat) (call : Call) : List Act :=
  (serve thread commands call).map .orchestrator

def serves (thread commands : Nat) : List Act :=
  (List.range commands).map fun k => .orchestrator (.run thread (16 * thread + k))

def clockAt (s : Nat) : Act := .orchestrator (.disturb (PyTime.seconds s))

/-- The token that the registration served as this thread hands out. -/
def tokenOf (thread : Nat) : Option String := some ("Bearer " ++ PyText.uuidHex (16 * thread))

def quickly : Execution := ⟨fun _ _ _ _ _ => .ok [], fun _ _ => .ok []⟩

def agentW : WorkerAgent := { workerId := "w" }

/-- The agent and another worker register, and the agent is granted the only job. -/
def assignedRun : List Act :=
  served 0 5 (.register { workerId := "w" } none) ++
  served 1 5 (.register { workerId := "v" } none) ++
  served 2 6 (.submit { kind := .dataTransform, dataClassification := .public } none) ++
  .poll (tokenOf 0) none :: serves 3 4 ++ [.receive]

/-- The result is posted after five seconds. -/
def promptRun : List Act :=
  assignedRun ++ [clockAt 5, .finish quickly 0 (.fin 5) (tokenOf 0) none] ++ serves 4 3

set_option maxRecDepth 20000 in
theorem live_lease_prompt : KeepsLease {} 0 agentW (fleet {} 0 agentW promptRun) :=
  live_lease {} 0 agentW promptRun (by decide +kernel)

/-- The agent sends a heartbeat every ten seconds; after 21 the other worker polls. -/
def lateRun : List Act :=
  assignedRun ++ [clockAt 10, .beat {} (tokenOf 0) none] ++ serves 4 3 ++
    [clockAt 20, .beat {} (tokenOf 0) none] ++ serves 5 3 ++
    clockAt 21 :: served 6 4 (.jobsNext "v" (tokenOf 1) none)

/-- The agent finishes then, and posts its result. -/
def lateResult : List Act :=
  lateRun ++ .finish quickly 0 (.fin 21) (tokenOf 0) none :: serves 7 3

/-- When the heartbeats of a worker were recorded. -/
def beatTimes (w : String) (ps : List Performed) : List Time :=
  ps.filterMap fun p =>
    match p.cmd with
    | .recordHeartbeat _ req _ => if req.workerId = w then some p.pre.clock else none
    | _ => none

/-- The job the agent is working on, and who the jobs are leased to. -/
def workingOn (f : Fleet) : Option (String × List (Option String)) :=
  match f.phase, f.lease with
  | .working _, some (id, _) =>
      some (id, (f.orchestrator {} 0).state.db.jobs.rows.map (·.assignedWorker))
  | _, _ => none

/-- Who posted the result that thread `i` serves, and the answer. -/
def answerTo (f : Fleet) (i : Nat) : Option (String × ResultResponse) :=
  ((f.orchestrator {} 0).threads[i]?).bind fun t =>
    match t.call, t.prog with
    | .results _ req _ _, .ret (.result response) => some (req.workerId, response)
    | _, _ => none

set_option maxRecDepth 20000 in
theorem lateRun_holders :
    workingOn (fleet {} 0 agentW lateRun) = some (PyText.uuidHex 32, [some "v"]) := by
  decide +kernel

set_option maxRecDepth 20000 in
theorem lateResult_answer :
    answerTo (fleet {} 0 agentW lateResult) 7 = some ("w", refused "not_leased") := by
  decide +kernel

set_option maxRecDepth 20000 in
/-- The heartbeats come every ten seconds, and yet the job is leased to the other
worker and its result refused. -/
theorem lateResult_loses :
    beatTimes "w" (runTrace {} 0 (fleet {} 0 agentW lateResult).served) =
      [PyTime.seconds 10, PyTime.seconds 20] ∧
    ¬ KeepsLease {} 0 agentW (fleet {} 0 agentW lateRun) ∧
    ¬ KeepsLease {} 0 agentW (fleet {} 0 agentW lateResult) := by
  refine ⟨by decide +kernel, ?_, ?_⟩
  · intro h
    have hworking := lateRun_holders
    unfold workingOn at hworking
    split at hworking
    next assignment id t hphase hlease =>
      obtain ⟨rfl, hholders⟩ := Prod.mk.inj (Option.some.inj hworking)
      obtain ⟨row, hrow, -, -, hassigned⟩ := h.held _ _ hlease
      have hmem := List.mem_map_of_mem (f := fun j : JobRow => j.assignedWorker)
        (Table.mem_iff.mp hrow)
      rw [hholders, hassigned] at hmem
      simp [agentW] at hmem
    · cases hworking
  · intro h
    have hanswer := lateResult_answer
    unfold answerTo at hanswer
    obtain ⟨⟨call, past, prog⟩, ht, hanswer⟩ := Option.bind_eq_some_iff.mp hanswer
    simp only at hanswer
    split at hanswer
    next id req auth cert response =>
      obtain ⟨hw, rfl⟩ := Prod.mk.inj (Option.some.inj hanswer)
      exact h.answered 7 id req auth cert past _ ht hw (.inl rfl)
    next => cases hanswer

end OneCompute.Worker
