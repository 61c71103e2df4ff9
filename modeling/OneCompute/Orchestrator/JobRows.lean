import OneCompute.Orchestrator.StoreInvariant
import OneCompute.Orchestrator.WorkerRows

/-!
The life of a job's row. Seen from the rows there are after a command, each was
there before as the same submission, or was inserted by it; and a lease on it was
there before, or was given by it.
-/

namespace OneCompute

/-- What was submitted as this job. -/
def JobRow.submission (j : JobRow) : Submission :=
  ⟨j.manifestJson, j.inputJson, j.units, j.workloadId, j.createdAt⟩

/-- The locked section of a poll of `v` finds a job to hand out. -/
def FindsJob (w : World) (v : String) (cap : Capability) (free : Option PyFloat) : Prop :=
  busy w.db v = false ∧ ∃ job, pickJobFor w.db cap free = some job ∧
    deferToLessLoaded w.db v job.createdAt w.clock = false

theorem granted_iff {v : String} {cap : Capability} {free : Option PyFloat} {w : World} :
    (assignNext v cap free w.clock w.db).answer.isGrant = true ↔ FindsJob w v cap free := by
  have hc := assignNext_cases v cap free w.clock w.db
  generalize assignNext v cap free w.clock w.db = out at hc ⊢
  unfold FindsJob
  cases hc with
  | busy hbusy => simp [Poll.isGrant, hbusy]
  | noJob hfree hpick => simp [Poll.isGrant, hpick]
  | deferred job hfree hpick hdefer => simp [Poll.isGrant, hpick, hdefer]
  | granted job hfree hpick hdefer => simp [Poll.isGrant, hfree, hpick, hdefer]

/-- Every job there is now was there before, as the same submission, and so were
its leases. -/
def JobsDescend (db db' : Db) : Prop :=
  ∀ j' ∈ db'.jobs, ∃ j ∈ db.jobs, j.jobId = j'.jobId ∧ j.submission = j'.submission ∧
    ∀ v, j'.leasedTo v = true → j.leasedTo v = true

theorem JobsDescend.same {db db' : Db} (h : db'.jobs = db.jobs) : JobsDescend db db' := by
  intro j hj
  exact ⟨j, h ▸ hj, rfl, rfl, fun _ hl => hl⟩

theorem JobsDescend.trans {a b c : Db} (hab : JobsDescend a b) (hbc : JobsDescend b c) :
    JobsDescend a c := by
  intro j'' hj''
  obtain ⟨j', hj', hid', hs', hl'⟩ := hbc j'' hj''
  obtain ⟨j, hj, hid, hs, hl⟩ := hab j' hj'
  exact ⟨j, hj, hid.trans hid', hs.trans hs', fun v h => hl v (hl' v h)⟩

theorem JobsDescend.update {db : Db} {p : JobRow → Bool} {f : JobRow → JobRow}
    (hf : ∀ r, (f r).jobId = r.jobId) (hs : ∀ r, (f r).submission = r.submission)
    (hl : ∀ r v, (f r).leasedTo v = true → r.leasedTo v = true) :
    JobsDescend db (db.updateJobs p f hf) := by
  intro j' hj'
  obtain ⟨j, hj, rfl⟩ := (Table.mem_update hf).mp hj'
  by_cases hp : p j = true
  · simp only [hp, if_true]
    exact ⟨j, hj, (hf j).symm, (hs j).symm, hl j⟩
  · simp only [hp]
    exact ⟨j, hj, rfl, rfl, fun _ h => h⟩

theorem requeued_not_leased (now : Time) (j : JobRow) (v : String) :
    (j.requeued now).leasedTo v = false := by
  simp [JobRow.leasedTo, JobRow.requeued]

theorem JobsDescend.requeue (now : Time) (p : JobRow → Bool) (db : Db) :
    JobsDescend db (requeue now p db) := by
  refine JobsDescend.update (f := JobRow.requeued now) (fun _ => rfl) (fun _ => rfl) ?_
  intro j v hl
  rw [requeued_not_leased] at hl
  cases hl

theorem JobsDescend.extend (w jobId : String) (now clock : Time) (db : Db) :
    JobsDescend db (extendLease w jobId now clock db) :=
  JobsDescend.update (f := JobRow.extended now clock) (fun _ => rfl) (fun _ => rfl)
    (fun _ _ hl => hl)

theorem JobsDescend.complete (w jobId : String) (output : Dict) (credits : PyFloat) (now : Time)
    (db : Db) : JobsDescend db (completeJob w jobId output credits now db) := by
  intro j' hj'
  obtain ⟨j, hj, rfl⟩ := mem_completeJob.mp hj'
  refine ⟨j, hj, ?_, ?_, ?_⟩
  · split <;> rfl
  · split <;> rfl
  · intro v hl
    split at hl
    next => cases (leasedTo_iff.mp hl).1
    next => exact hl

theorem JobsDescend.heartbeat (m : Bool) (req : HeartbeatRequest) (now clock : Time) (db : Db) :
    JobsDescend db (recordHeartbeat m req now clock db) := by
  have hbeat : JobsDescend db (db.updateWorker req.workerId (WorkerRow.beat m req now)
      (beat_workerId m req now)) := .same rfl
  unfold recordHeartbeat
  dsimp only
  split
  · split
    · exact hbeat.trans ((JobsDescend.requeue now _ _).trans (.extend _ _ _ _ _))
    · exact hbeat
  · exact hbeat

theorem JobsDescend.settle (jobId : String) (req : ResultRequest) (now : Time) (db : Db) :
    JobsDescend db (settle jobId req now db).db := by
  have hc := settle_cases jobId req now db
  generalize OneCompute.settle jobId req now db = out at hc ⊢
  cases hc with
  | missing _ | notLeased _ _ _ | tooLarge _ _ _ | raised _ _ _ _ _ => exact .same rfl
  | lapsed _ _ _ _ | invalidProof _ _ _ _ | returned _ _ _ => exact .requeue now _ db
  | cheated _ _ _ _ =>
      have hb : JobsDescend db (blacklistWorker req.workerId db) := .same rfl
      exact hb.trans (.requeue now _ _)
  | completed _ _ _ _ _ _ => exact .complete _ _ _ _ _ db

/-- Where a job that a command leaves comes from, and the leases on it. -/
inductive JobSource (w : World) (c : Cmd) (j' : JobRow) : Prop where
  | kept (j : JobRow) : j ∈ w.db.jobs → j.jobId = j'.jobId → j.submission = j'.submission →
      (∀ v, j'.leasedTo v = true → j.leasedTo v = true ∨
        ∃ cap free, c = .assignNext v cap free ∧ FindsJob w v cap free) → JobSource w c j'
  | inserted (s : Submission) : c = .insertJob s → j' = .submitted s → JobSource w c j'

theorem JobsDescend.source {w : World} {db' : Db} (h : JobsDescend w.db db') {j' : JobRow}
    (hj' : j' ∈ db'.jobs) (c : Cmd) : JobSource w c j' := by
  obtain ⟨j, hj, hid, hs, hl⟩ := h j' hj'
  exact .kept j hj hid hs (fun v hv => .inl (hl v hv))

theorem grant_source {u : String} {cap : Capability} {free : Option PyFloat} {job : JobRow}
    {w : World} (hfinds : FindsJob w u cap free) {j' : JobRow}
    (hj' : j' ∈ (grant u job.jobId w.clock w.db).jobs) : JobSource w (.assignNext u cap free) j' := by
  obtain ⟨j, hj, rfl⟩ := mem_grant.mp hj'
  refine .kept j hj ?_ ?_ ?_
  · split <;> rfl
  · split <;> rfl
  · intro v hl
    split at hl
    next =>
      obtain rfl : u = v := Option.some.inj (leasedTo_iff.mp hl).2
      exact .inr ⟨cap, free, rfl, hfinds⟩
    next => exact .inl hl

theorem job_exec {c : Cmd} {input : Nat} {w : World} {j' : JobRow}
    (hj' : j' ∈ (exec c input w).1.db.jobs) : JobSource w c j' := by
  have hjobs : (exec c input w).1.db.jobs = (runCommand input w c).db.jobs := emitAll_jobs _ _ _
  rw [hjobs] at hj'
  have hold : JobsDescend w.db (runCommand input w c).db → JobSource w c j' :=
    fun h => h.source hj' c
  cases c with
  | now | uuid4 | workerRow _ | activeWorkers | emit _ | query => exact hold (.same rfl)
  | approveWorker _ | assignTier _ _ | storeProfile _ _ _ => exact hold (.same rfl)
  | reapExpired | removeWorker _ _ => exact hold (.requeue _ _ _)
  | enroll bind e =>
      refine hold (.same ?_)
      rcases enroll_cases bind e w.db with ⟨failure, -, heq⟩ | ⟨-, heq⟩ <;>
        simp only [runCommand, heq, enrolled]
  | applyDerivedTier u tier =>
      refine hold (.same ?_)
      rcases applyDerivedTier_cases u tier w.db with ⟨heq, -⟩ | ⟨row, -, -, heq⟩ <;>
        simp only [runCommand, heq, Db.updateWorker]
  | insertJob s =>
      rcases insertJob_cases s w.db with ⟨failure, heq⟩ | ⟨jobs, hins, -, -, heq⟩
      · refine hold (.same ?_)
        simp only [runCommand, heq]
      · simp only [runCommand, heq] at hj'
        cases (Table.mem_insert? hins).mp hj' with
        | inl hj => exact .kept j' hj rfl rfl (fun _ hl => .inl hl)
        | inr hj => exact .inserted s rfl hj
  | assignNext u cap free =>
      have hc := assignNext_cases u cap free w.clock w.db
      simp only [runCommand] at hj'
      generalize assignNext u cap free w.clock w.db = out at hc hj'
      cases hc with
      | busy _ | noJob _ _ | deferred _ _ _ _ => exact .kept j' hj' rfl rfl (fun _ hl => .inl hl)
      | granted job hfree hpick hdefer => exact grant_source ⟨hfree, job, hpick, hdefer⟩ hj'
  | recordHeartbeat m req now => exact hold (.heartbeat m req now _ _)
  | settle jobId req now => exact hold (.settle jobId req now _)

/-- A lease that a command leaves was there before, or the command is the poll
that gave it. -/
theorem leased_exec {c : Cmd} {input : Nat} {w : World} {j' : JobRow} {v : String}
    (hj' : j' ∈ (exec c input w).1.db.jobs) (hl : j'.leasedTo v = true) :
    (∃ j ∈ w.db.jobs, j.jobId = j'.jobId ∧ j.leasedTo v = true) ∨
    ∃ cap free, c = .assignNext v cap free ∧ FindsJob w v cap free := by
  cases job_exec hj' with
  | kept j hj hid _ hlease =>
      cases hlease v hl with
      | inl hold => exact .inl ⟨j, hj, hid, hold⟩
      | inr hgrant => exact .inr hgrant
  | inserted s _ hnew =>
      rw [hnew, leasedTo_iff] at hl
      cases hl.1

/-! ## Every job was submitted -/

/-- A stored job is what some command of the run inserted, under the identifier of
its manifest. -/
theorem run_submitted {cfg : Config} {clock : Time} (ms : List Move) :
    ∀ j ∈ (run cfg clock ms).state.db.jobs, j.jobId = j.manifestJson.jobId ∧
      ∃ p ∈ runTrace cfg clock ms, p.cmd = .insertJob j.submission := by
  refine run_induction cfg clock (I := fun ms w => ∀ j ∈ w.db.jobs,
    j.jobId = j.manifestJson.jobId ∧
      ∃ p ∈ runTrace cfg clock ms, p.cmd = .insertJob j.submission) ?_ ?_ ?_ ?_ ms
  · exact fun j hj => absurd hj (Table.not_mem_empty j)
  · intro ms m p hp ih j' hj'
    rw [runTrace_snoc, hp]
    cases job_exec hj' with
    | kept j hj hid hs _ =>
        obtain ⟨hj', q, hq, hcmd⟩ := ih j hj
        have hmanifest : j.manifestJson = j'.manifestJson := congrArg Submission.manifest hs
        refine ⟨by rw [← hid, hj', hmanifest], q, List.mem_append_left _ hq, ?_⟩
        rw [hcmd, hs]
    | inserted s hcmd hnew =>
        subst hnew
        exact ⟨rfl, p, List.mem_append_right _ (List.mem_singleton_self p), hcmd⟩
  · intro ms t w ih j hj
    obtain ⟨hid, p, hp, hcmd⟩ := ih j hj
    exact ⟨hid, p, runTrace_mono hp _, hcmd⟩
  · intro ms m w _ ih j hj
    obtain ⟨hid, p, hp, hcmd⟩ := ih j hj
    exact ⟨hid, p, runTrace_mono hp _, hcmd⟩

/-- A job that a poll hands out is one that is stored. -/
theorem granted_stored {v : String} {cap : Capability} {free : Option PyFloat} {clock : Time}
    {db : Db} {job : JobRow} (h : (assignNext v cap free clock db).answer = .granted job) :
    job ∈ db.jobs := by
  have hc := assignNext_cases v cap free clock db
  generalize assignNext v cap free clock db = out at hc h
  cases hc with
  | busy _ | noJob _ _ | deferred _ _ _ _ => cases h
  | granted job' _ hpick _ =>
      cases h
      exact (pickJobFor_eq_some hpick).1

/-- A job that a poll hands out was inserted in the run, sealed. -/
theorem run_granted {cfg : Config} {clock : Time} {ms : List Move} {v : String} {cap : Capability}
    {free : Option PyFloat} {job : JobRow} {q : Performed} (hq : q ∈ runTrace cfg clock ms)
    (h : q.answered (machine cfg) = ⟨.assignNext v cap free, .granted job⟩) :
    Sealed job.submission ∧ ∃ p ∈ runTrace cfg clock ms, p.cmd = .insertJob job.submission := by
  obtain ⟨before, m, after, rfl, hperf⟩ := Interleaving.mem_trace hq
  obtain ⟨thread, call, past, cmd, input, pre⟩ := q
  obtain rfl : cmd = .assignNext v cap free := congrArg Interleaving.Answered.cmd h
  have hanswer : (assignNext v cap free pre.clock pre.db).answer = .granted job :=
    eq_of_heq (Interleaving.Answered.mk.inj h).2
  have hpre : pre = (run cfg clock before).state := Interleaving.performed_pre hperf
  have hstored := granted_stored hanswer
  rw [hpre] at hstored
  obtain ⟨-, p, hp, hcmd⟩ := run_submitted before job hstored
  obtain ⟨earlier, m', later, -, hperf'⟩ := Interleaving.mem_trace hp
  have hissued := (run_issued hperf').1
  rw [hcmd] at hissued
  exact ⟨hissued.2.1, p, runTrace_mono hp _, hcmd⟩

end OneCompute
