import OneCompute.Orchestrator.JobRows
import OneCompute.Orchestrator.Tiers

/-!
Routing in every run: the tier that decides is the one stored when the lease
commits, the capability is the one the poll read, and the job is the first of
those that are eligible. That job alone is leased, and it is what the worker is sent.
-/

namespace OneCompute

/-- The tier of the worker as stored; without a row it is not trusted. -/
def storedTier (w : World) (v : String) : String := ((tierOf w v).getD .fresh).tier

theorem deriveTier_valid (att : DeviceAttestation) : isValidTier (deriveTier att) = true := by
  unfold deriveTier
  split
  · decide
  · split
    · decide
    · split <;> decide

theorem run_tier_valid {cfg : Config} {clock : Time} {ms : List Move} {v : String} {row : WorkerRow}
    (hrow : (run cfg clock ms).state.db.workers.find? v = some row) :
    isValidTier row.trustTier = true := by
  by_cases hdefault : row.trustTier = defaultTrustTier
  · rw [hdefault]
    decide
  · obtain ⟨before, p, after, htrace, hset | hatt⟩ := run_provenance hrow hdefault
    · obtain ⟨_, m, _, -, hp, -⟩ := Interleaving.trace_split htrace
      have hissued := (run_issued hp).1
      rw [hset.cmd] at hissued
      obtain ⟨_, _, _, hvalid⟩ := hissued
      exact hvalid
    · obtain ⟨_, _, att, _, _, _, _, _, htier, _⟩ := hatt.attested
      rw [htier]
      exact deriveTier_valid att

/-- The tier that the scheduler reads is the stored one. -/
theorem run_trustTierOf (cfg : Config) (clock : Time) (ms : List Move) (v : String) :
    trustTierOf (run cfg clock ms).state.db v = storedTier (run cfg clock ms).state v := by
  unfold trustTierOf storedTier tierOf
  cases hrow : (run cfg clock ms).state.db.workers.find? v with
  | none => rfl
  | some row =>
      have hvalid := run_tier_valid hrow
      have hne : row.trustTier ≠ "" := by
        intro hempty
        rw [hempty] at hvalid
        exact absurd hvalid (by decide)
      exact if_neg hne

/-- The job may go to a worker of this tier that advertises this. -/
structure Eligible (cap : Capability) (free : Option PyFloat) (trustTier : String) (job : JobRow) :
    Prop where
  route : mayRoute job.manifestJson.dataClassification.text trustTier = true
  capable : capabilityMatch job.manifestJson.requires cap free = true

theorem eligible_iff {cap : Capability} {free : Option PyFloat} {trustTier : String} {job : JobRow} :
    eligible cap free trustTier job = true ↔ Eligible cap free trustTier job := by
  unfold eligible
  rw [Bool.and_eq_true]
  exact ⟨fun h => ⟨h.2, h.1⟩, fun h => ⟨h.capable, h.route⟩⟩

/-- The thread had read this row of the worker before. -/
def ReadRow (cfg : Config) (before : List Performed) (thread : Nat) (w : String) (row : WorkerRow) :
    Prop :=
  ∃ q ∈ before, q.thread = thread ∧ q.answered (machine cfg) = ⟨.workerRow w, some row⟩

/-- The first job in the queue that the worker may get. -/
structure FirstEligible (db : Db) (cap : Capability) (free : Option PyFloat) (trustTier : String)
    (job : JobRow) : Prop where
  stored : job ∈ db.jobs
  queued : job.state = .queued
  eligible : Eligible cap free trustTier job
  first : ∀ k ∈ db.jobs, k.state = .queued → Eligible cap free trustTier k → job.le k = true

theorem firstEligible_of_pick {db : Db} {cap : Capability} {free : Option PyFloat} {job : JobRow}
    (h : pickJobFor db cap free = some job) :
    FirstEligible db cap free (trustTierOf db cap.workerId) job := by
  obtain ⟨hmem, hqueued, heligible, hfirst⟩ := pickJobFor_eq_some h
  refine ⟨hmem, hqueued, eligible_iff.mp heligible, ?_⟩
  intro k hk hkq hke
  exact hfirst k hk hkq (eligible_iff.mpr hke)

/-- How the locked section of a poll answers, by what it finds. -/
def PollAnswer (db : Db) (w : String) (clock : Time) (cap : Capability) (free : Option PyFloat)
    (trustTier : String) : Poll → Prop
  | .busy => busy db w = true
  | .noJob => ∀ k ∈ db.jobs, k.state = .queued → ¬ Eligible cap free trustTier k
  | .deferred => ∃ job, FirstEligible db cap free trustTier job ∧
      deferToLessLoaded db w job.createdAt clock = true
  | .granted job => FirstEligible db cap free trustTier job

theorem assignNext_answer (w : String) (cap : Capability) (free : Option PyFloat) (clock : Time)
    (db : Db) :
    PollAnswer db w clock cap free (trustTierOf db cap.workerId)
      (assignNext w cap free clock db).answer := by
  have hc := assignNext_cases w cap free clock db
  generalize assignNext w cap free clock db = out at hc ⊢
  cases hc with
  | busy hbusy => exact hbusy
  | noJob _ hpick =>
      intro k hk hq he
      have hnot := pickJobFor_eq_none hpick k hk hq
      rw [eligible_iff.mpr he] at hnot
      cases hnot
  | deferred job _ hpick hdefer => exact ⟨job, firstEligible_of_pick hpick, hdefer⟩
  | granted job _ hpick _ => exact firstEligible_of_pick hpick

/-- What a poll leaves of the jobs: the one that it grants is leased to the worker, and
nothing else has changed. -/
def PollRows (pre post : Db) (w : String) (clock : Time) : Poll → Prop
  | .granted job => ∀ row, row ∈ post.jobs ↔
      row = job.lease w clock ∨ row ∈ pre.jobs ∧ row.jobId ≠ job.jobId
  | _ => post.jobs = pre.jobs

theorem grant_rows {w : String} {clock : Time} {db : Db} {job : JobRow} (hjob : job ∈ db.jobs)
    (hqueued : job.state = .queued) :
    PollRows db (grant w job.jobId clock db) w clock (.granted job) := by
  intro row
  rw [mem_grant]
  constructor
  · rintro ⟨j, hj, rfl⟩
    by_cases hid : j.jobId = job.jobId
    · left
      have hsame : j = job := Table.eq_of_key_eq hj hjob hid
      simp [hsame, hqueued]
    · right
      simp [hid, hj]
  · rintro (rfl | ⟨hrow, hid⟩)
    · exact ⟨job, hjob, by simp [hqueued]⟩
    · exact ⟨row, hrow, by simp [hid]⟩

theorem assignNext_rows (w : String) (cap : Capability) (free : Option PyFloat) (clock : Time)
    (db : Db) :
    PollRows db (assignNext w cap free clock db).db w clock
      (assignNext w cap free clock db).answer := by
  have hc := assignNext_cases w cap free clock db
  generalize assignNext w cap free clock db = out at hc ⊢
  cases hc with
  | busy _ | noJob _ _ | deferred _ _ _ _ => rfl
  | granted job _ hpick _ =>
      obtain ⟨hjob, hqueued, -⟩ := pickJobFor_eq_some hpick
      exact grant_rows hjob hqueued

/-- What decided a poll, the row its thread had read and the tier stored when the section
committed, and what it did. -/
structure PollDecided (cfg : Config) (before : List Performed) (p : Performed) (w : String)
    (cap : Capability) (free : Option PyFloat) (poll : Poll) : Prop where
  snapshot : ∃ row, ReadRow cfg before p.thread w row ∧ row.capabilityJson.reload? = some cap ∧
    free = row.freeRamGb
  tier : storedTier (p.post (machine cfg)) w = storedTier p.pre w
  answer : PollAnswer p.pre.db w p.pre.clock cap free (storedTier (p.post (machine cfg)) w) poll
  rows : PollRows p.pre.db (p.post (machine cfg)).db w p.pre.clock poll

theorem pollDecided_of_trace {cfg : Config} {clock : Time} {ms : List Move}
    {before after : List Performed} {p : Performed} {w : String} {cap : Capability}
    {free : Option PyFloat} {poll : Poll}
    (h : runTrace cfg clock ms = before ++ p :: after)
    (hpoll : p.answered (machine cfg) = ⟨.assignNext w cap free, poll⟩) :
    PollDecided cfg before p w cap free poll := by
  obtain ⟨prior, m, _, -, hp, hbefore⟩ := Interleaving.trace_split h
  obtain ⟨hissued, hsaw⟩ := run_issued hp
  have hpre : p.pre = (run cfg clock prior).state := Interleaving.performed_pre hp
  obtain ⟨thread, call, past, cmd, input, pre⟩ := p
  obtain rfl : cmd = .assignNext w cap free := congrArg Interleaving.Answered.cmd hpoll
  have hanswer : poll = (assignNext w cap free pre.clock pre.db).answer := by
    have heq := eq_of_heq (Interleaving.Answered.mk.inj hpoll).2
    exact heq.symm
  obtain ⟨auth, cert, row, hcall, hpolls, hfree⟩ := hissued
  obtain ⟨q, hq, hthread, -, hrow⟩ := hsaw _ _ hpolls.admitted.read
  have hq' : q ∈ before := hbefore ▸ hq
  have hcap : cap.workerId = w :=
    (Capability.reload?_workerId hpolls.capability).trans hpolls.admitted.worker.2
  have htier : tierOf (exec (.assignNext w cap free) input pre).1 w = tierOf pre w :=
    tierOf_exec _ _ _ _
  have hsame : storedTier (exec (.assignNext w cap free) input pre).1 w = storedTier pre w := by
    unfold storedTier
    rw [htier]
  have hrows : PollRows pre.db (exec (.assignNext w cap free) input pre).1.db w pre.clock poll := by
    have hrows := assignNext_rows w cap free pre.clock pre.db
    have hjobs : (exec (.assignNext w cap free) input pre).1.db.jobs =
        (assignNext w cap free pre.clock pre.db).db.jobs := emitAll_jobs _ _ _
    rw [← hanswer] at hrows
    unfold PollRows at hrows ⊢
    rw [hjobs]
    exact hrows
  refine ⟨⟨row, ⟨q, hq', hthread, hrow⟩, hpolls.capability, hfree⟩, hsame, ?_, hrows⟩
  have hread : trustTierOf pre.db cap.workerId = storedTier pre w := by
    have hpre' : pre = (run cfg clock prior).state := hpre
    rw [hcap, hpre']
    exact run_trustTierOf cfg clock prior w
  change PollAnswer pre.db w pre.clock cap free
    (storedTier (exec (.assignNext w cap free) input pre).1 w) poll
  rw [hsame, ← hread, hanswer]
  exact assignNext_answer w cap free pre.clock pre.db

/-- Why a poll came back without a job. -/
inductive WithoutJob (cfg : Config) (trace : List Performed) (i : Nat) (w : String)
    (row : WorkerRow) : Prop where
  | blacklisted : row.blacklisted = true → WithoutJob cfg trace i w row
  | pending : row.approved = false → WithoutJob cfg trace i w row
  | measuring (cap : Capability) : row.capabilityJson.reload? = some cap →
      cap.measurementOnly = true → WithoutJob cfg trace i w row
  | asked (before after : List Performed) (p : Performed) (cap : Capability) (poll : Poll) :
      trace = before ++ p :: after → p.thread = i → row.capabilityJson.reload? = some cap →
      p.answered (machine cfg) = ⟨.assignNext w cap row.freeRamGb, poll⟩ →
      PollDecided cfg before p w cap row.freeRamGb poll → (∀ job, poll ≠ .granted job) →
      WithoutJob cfg trace i w row

theorem withoutJob_of_ended {cfg : Config} {clock : Time} {ms : List Move} {i : Nat} {w : String}
    {auth cert : Option String} {past : Past}
    (h : (run cfg clock ms).threads[i]? = some ⟨.jobsNext w auth cert, past, .ret .noContent⟩) :
    ∃ row, ReadRow cfg (runTrace cfg clock ms) i w row ∧
      WithoutJob cfg (runTrace cfg clock ms) i w row := by
  obtain ⟨hended, hsaw⟩ := run_ended h
  obtain ⟨row, hadmitted, hwhy⟩ := hended
  obtain ⟨q, hq, hthread, -, hrow⟩ := hsaw _ _ hadmitted.read
  refine ⟨row, ⟨q, hq, hthread, hrow⟩, ?_⟩
  rcases hwhy with hblack | happroved | ⟨cap, hcap, hmeasure⟩ | ⟨cap, poll, hpolls, hasked, hnot⟩
  · exact .blacklisted hblack
  · exact .pending happroved
  · exact .measuring cap hcap hmeasure
  · obtain ⟨p, hp, hpi, -, hanswer⟩ := hsaw _ _ hasked
    obtain ⟨before, after, hsplit⟩ := List.append_of_mem hp
    exact .asked before after p cap poll hsplit hpi hpolls.capability hanswer
      (pollDecided_of_trace hsplit hanswer) hnot

/-- A poll that the thread has made was granted this job, which is what it answered with. -/
def SentJob (cfg : Config) (trace : List Performed) (i : Nat) (w : String)
    (response : JobAssignment) : Prop :=
  ∃ before p after cap free job, trace = before ++ p :: after ∧ p.thread = i ∧
    p.answered (machine cfg) = ⟨.assignNext w cap free, .granted job⟩ ∧
    PollDecided cfg before p w cap free (.granted job) ∧
    response = { signedManifest := signManifest cfg job.manifestJson, input := job.inputJson }

theorem sentJob_of_ended {cfg : Config} {clock : Time} {ms : List Move} {i : Nat} {w : String}
    {auth cert : Option String} {past : Past} {response : JobAssignment}
    (h : (run cfg clock ms).threads[i]? =
      some ⟨.jobsNext w auth cert, past, .ret (.assignment response)⟩) :
    SentJob cfg (runTrace cfg clock ms) i w response := by
  obtain ⟨⟨row, cap, job, -, hasked, hresponse⟩, hsaw⟩ := run_ended h
  obtain ⟨p, hp, hpi, -, hanswer⟩ := hsaw _ _ hasked
  obtain ⟨before, after, hsplit⟩ := List.append_of_mem hp
  exact ⟨before, p, after, cap, row.freeRamGb, job, hsplit, hpi, hanswer,
    pollDecided_of_trace hsplit hanswer, hresponse⟩

/-- A poll of the worker was granted the job. -/
def GrantedIn (cfg : Config) (trace : List Performed) (w jobId : String) : Prop :=
  ∃ before p after cap free job, trace = before ++ p :: after ∧
    p.answered (machine cfg) = ⟨.assignNext w cap free, .granted job⟩ ∧ job.jobId = jobId ∧
    PollDecided cfg before p w cap free (.granted job)

theorem GrantedIn.later {cfg : Config} {trace : List Performed} {w jobId : String}
    (h : GrantedIn cfg trace w jobId) (rest : List Performed) :
    GrantedIn cfg (trace ++ rest) w jobId := by
  obtain ⟨before, p, after, cap, free, job, rfl, hanswer, hid, hdecided⟩ := h
  exact ⟨before, p, after ++ rest, cap, free, job, by simp, hanswer, hid, hdecided⟩

/-- A lease that is new is the one that a poll was granted. -/
theorem leased_granted {c : Cmd} {input : Nat} {w : World} {row : JobRow} {v : String}
    (hrow : row ∈ (exec c input w).1.db.jobs) (hl : row.leasedTo v = true) :
    (∃ j ∈ w.db.jobs, j.jobId = row.jobId ∧ j.leasedTo v = true) ∨
    ∃ cap free job, c = .assignNext v cap free ∧
      (assignNext v cap free w.clock w.db).answer = .granted job ∧ job.jobId = row.jobId := by
  obtain hold | ⟨cap, free, rfl, -⟩ := leased_exec hrow hl
  · exact .inl hold
  · have hjobs : (exec (.assignNext v cap free) input w).1.db.jobs =
        (assignNext v cap free w.clock w.db).db.jobs := emitAll_jobs _ _ _
    rw [hjobs] at hrow
    have hrows := assignNext_rows v cap free w.clock w.db
    cases hanswer : (assignNext v cap free w.clock w.db).answer with
    | busy | noJob | deferred =>
        rw [hanswer] at hrows
        exact .inl ⟨row, hrows ▸ hrow, rfl, hl⟩
    | granted job =>
        rw [hanswer] at hrows
        obtain hnew | hkept := (hrows row).mp hrow
        · exact .inr ⟨cap, free, job, rfl, hanswer, by rw [hnew]; rfl⟩
        · exact .inl ⟨row, hkept.1, rfl, hl⟩

/-- Every lease was granted by a poll of the worker that holds it. -/
theorem run_leased {cfg : Config} {clock : Time} (ms : List Move) :
    ∀ row ∈ (run cfg clock ms).state.db.jobs, ∀ v, row.leasedTo v = true →
      GrantedIn cfg (runTrace cfg clock ms) v row.jobId := by
  refine run_induction cfg clock (I := fun ms w => ∀ row ∈ w.db.jobs, ∀ v, row.leasedTo v = true →
    GrantedIn cfg (runTrace cfg clock ms) v row.jobId) ?_ ?_ ?_ ?_ ms
  · exact fun row hrow => absurd hrow (Table.not_mem_empty row)
  · intro ms m p hp ih row hrow v hl
    rw [runTrace_snoc, hp]
    obtain ⟨j, hj, hid, hold⟩ | ⟨cap, free, job, hcmd, hanswer, hid⟩ := leased_granted hrow hl
    · rw [← hid]
      exact (ih j hj v hold).later _
    · have hanswered : p.answered (machine cfg) = ⟨.assignNext v cap free, .granted job⟩ := by
        obtain ⟨thread, call, past, cmd, input, pre⟩ := p
        subst hcmd
        exact congrArg (Interleaving.Answered.mk _) hanswer
      have hsplit : runTrace cfg clock (ms ++ [m]) = runTrace cfg clock ms ++ p :: [] := by
        rw [runTrace_snoc, hp]
        rfl
      exact ⟨_, p, [], cap, free, job, rfl, hanswered, hid, pollDecided_of_trace hsplit hanswered⟩
  · intro ms t w ih row hrow v hl
    rw [runTrace_snoc]
    exact (ih row hrow v hl).later _
  · intro ms m w _ ih row hrow v hl
    rw [runTrace_snoc]
    exact (ih row hrow v hl).later _

/-- Routing in every run: each poll that reaches the queue is decided by the tier stored when
it commits and the row it read, and leases the job that it is granted and no other; every
lease is from such a poll, and so is every job that is sent; and a poll without a job has a
reason. -/
theorem run_routing (cfg : Config) (clock : Time) (ms : List Move) :
    (∀ before p after w cap free poll, runTrace cfg clock ms = before ++ p :: after →
      p.answered (machine cfg) = ⟨.assignNext w cap free, poll⟩ →
      PollDecided cfg before p w cap free poll) ∧
    (∀ row ∈ (run cfg clock ms).state.db.jobs, ∀ w, row.leasedTo w = true →
      GrantedIn cfg (runTrace cfg clock ms) w row.jobId) ∧
    (∀ i w auth cert past response,
      (run cfg clock ms).threads[i]? =
        some ⟨.jobsNext w auth cert, past, .ret (.assignment response)⟩ →
      SentJob cfg (runTrace cfg clock ms) i w response) ∧
    ∀ i w auth cert past,
      (run cfg clock ms).threads[i]? = some ⟨.jobsNext w auth cert, past, .ret .noContent⟩ →
      ∃ row, ReadRow cfg (runTrace cfg clock ms) i w row ∧
        WithoutJob cfg (runTrace cfg clock ms) i w row :=
  ⟨fun _ _ _ _ _ _ _ => pollDecided_of_trace, run_leased ms,
    fun _ _ _ _ _ _ => sentJob_of_ended, fun _ _ _ _ _ => withoutJob_of_ended⟩

end OneCompute
