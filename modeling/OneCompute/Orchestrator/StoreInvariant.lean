import OneCompute.Lib.PyFloatExact
import OneCompute.Orchestrator.Transitions

/-!
The invariant of the job table and the ledger, kept by every locked section in
every order: what a job row can look like, one lease per worker, one ledger row
per completed job. Completed rows are final and no row is lost.
-/

namespace OneCompute

structure JobOk (j : JobRow) : Prop where
  state : j.state = .queued ∨ j.state = .leased ∨ j.state = .completed
  assigned : j.assignedWorker = none ↔ j.state = .queued
  lease : j.leaseExpires ≠ none ↔ j.state = .leased
  result : j.state = .completed → j.resultJson ≠ none

structure StoreInv (db : Db) : Prop where
  jobs : ∀ j ∈ db.jobs, JobOk j
  oneLease : ∀ j ∈ db.jobs, ∀ k ∈ db.jobs, ∀ w, j.leasedTo w = true → k.leasedTo w = true → j = k
  paid : ∀ j ∈ db.jobs, j.state = .completed → ∃ l ∈ db.ledger.rows, l.jobId = some j.jobId
  earned : ∀ l ∈ db.ledger.rows, ∃ j ∈ db.jobs, j.state = .completed ∧ l.jobId = some j.jobId ∧
    j.assignedWorker = some l.workerId ∧ l.credits = creditsFor j
  once : db.ledger.rows.Pairwise (fun a b => a.jobId ≠ b.jobId)

theorem leasedTo_iff {j : JobRow} {w : String} :
    j.leasedTo w = true ↔ j.state = .leased ∧ j.assignedWorker = some w := by
  simp [JobRow.leasedTo]

theorem storeInv_empty : StoreInv .empty := by
  constructor
  · exact fun j hj => absurd hj (Table.not_mem_empty j)
  · exact fun j hj => absurd hj (Table.not_mem_empty j)
  · exact fun j hj => absurd hj (Table.not_mem_empty j)
  · exact fun l hl => absurd hl List.not_mem_nil
  · exact List.Pairwise.nil

theorem StoreInv.congr {db db' : Db} (h : StoreInv db) (hj : db'.jobs = db.jobs)
    (hl : db'.ledger = db.ledger) : StoreInv db' := by
  constructor
  · rw [hj]; exact h.jobs
  · rw [hj]; exact h.oneLease
  · rw [hj, hl]; exact h.paid
  · rw [hj, hl]; exact h.earned
  · rw [hl]; exact h.once

/-! ## Kinds of update -/

/-- An update of unfinished jobs that hands out no lease. -/
structure Releases (db : Db) (p : JobRow → Bool) (f : JobRow → JobRow) : Prop where
  unfinished : ∀ j ∈ db.jobs, p j = true → j.state ≠ .completed
  ok : ∀ j ∈ db.jobs, p j = true → JobOk (f j)
  stays : ∀ j ∈ db.jobs, p j = true → (f j).state ≠ .completed
  lease : ∀ j ∈ db.jobs, p j = true → ∀ w, (f j).leasedTo w = true → j.leasedTo w = true

theorem StoreInv.releases {db : Db} (h : StoreInv db) {p : JobRow → Bool} {f : JobRow → JobRow}
    {hf : ∀ r, (f r).jobId = r.jobId} (hr : Releases db p f) : StoreInv (db.updateJobs p f hf) := by
  constructor
  · intro j' hj'
    obtain ⟨j, hj, rfl⟩ := (Table.mem_update hf).mp hj'
    by_cases hp : p j = true
    · simpa [hp] using hr.ok j hj hp
    · simpa [hp] using h.jobs j hj
  · intro j' hj' k' hk' w hjw hkw
    obtain ⟨j, hj, rfl⟩ := (Table.mem_update hf).mp hj'
    obtain ⟨k, hk, rfl⟩ := (Table.mem_update hf).mp hk'
    have hj0 : j.leasedTo w = true := by
      by_cases hp : p j = true
      · exact hr.lease j hj hp w (by simpa [hp] using hjw)
      · simpa [hp] using hjw
    have hk0 : k.leasedTo w = true := by
      by_cases hp : p k = true
      · exact hr.lease k hk hp w (by simpa [hp] using hkw)
      · simpa [hp] using hkw
    rw [h.oneLease j hj k hk w hj0 hk0]
  · intro j' hj' hc
    obtain ⟨j, hj, rfl⟩ := (Table.mem_update hf).mp hj'
    by_cases hp : p j = true
    · exact absurd (by simpa [hp] using hc) (hr.stays j hj hp)
    · simp only [hp] at hc ⊢
      exact h.paid j hj hc
  · intro l hl
    obtain ⟨j, hj, hc, hrest⟩ := h.earned l hl
    have hp : ¬ p j = true := fun hp => hr.unfinished j hj hp hc
    have hmem : j ∈ (db.updateJobs p f hf).jobs := Table.mem_update_of hf hj (by simp [hp])
    exact ⟨j, hmem, hc, hrest⟩
  · exact h.once

theorem requeued_ok (now : Time) (j : JobRow) : JobOk (j.requeued now) := by
  constructor <;> simp [JobRow.requeued]

theorem StoreInv.requeue {db : Db} (h : StoreInv db) {now : Time} {p : JobRow → Bool}
    (hp : ∀ j, p j = true → j.state = .leased) : StoreInv (requeue now p db) := by
  apply h.releases
  constructor
  · intro j _ hpj hc
    rw [hp j hpj] at hc
    cases hc
  · exact fun j _ _ => requeued_ok now j
  · simp [JobRow.requeued]
  · intro j _ _ w hw
    simp [JobRow.leasedTo, JobRow.requeued] at hw

theorem StoreInv.extendLease {db : Db} (h : StoreInv db) (w jobId : String) (now clock : Time) :
    StoreInv (extendLease w jobId now clock db) := by
  apply h.releases
  have hleased : ∀ (j : JobRow) (live : Bool),
      (decide (j.jobId = jobId) && j.leasedTo w && live) = true → j.leasedTo w = true := by
    intro j live hj
    simp only [Bool.and_eq_true] at hj
    exact hj.1.2
  constructor
  · intro j _ hj hc
    rw [(leasedTo_iff.mp (hleased j _ hj)).1] at hc
    cases hc
  · intro j hjm hj
    have hok := h.jobs j hjm
    have hl := leasedTo_iff.mp (hleased j _ hj)
    exact ⟨hok.state, hok.assigned, by simp [JobRow.extended, hl.1], hok.result⟩
  · intro j _ hj hc
    have hl := leasedTo_iff.mp (hleased j _ hj)
    simp [JobRow.extended, hl.1] at hc
  · intro j _ _ v hv
    exact hv

theorem submitted_ok (s : Submission) : JobOk (.submitted s) := by
  constructor <;> simp [JobRow.submitted]

theorem StoreInv.insert {db : Db} (h : StoreInv db) {s : Submission} {jobs : Table JobRow.jobId}
    (hins : db.jobs.insert? (.submitted s) = some jobs) : StoreInv { db with jobs := jobs } := by
  constructor
  · intro j hj
    cases (Table.mem_insert? hins).mp hj with
    | inl hj => exact h.jobs j hj
    | inr hj => exact hj ▸ submitted_ok s
  · intro j hj k hk w hjw hkw
    have hne : ∀ r : JobRow, r.leasedTo w = true → r ≠ .submitted s := by
      intro r hr heq
      rw [heq, leasedTo_iff] at hr
      cases hr.1
    have hj' := ((Table.mem_insert? hins).mp hj).resolve_right (hne j hjw)
    have hk' := ((Table.mem_insert? hins).mp hk).resolve_right (hne k hkw)
    exact h.oneLease j hj' k hk' w hjw hkw
  · intro j hj hc
    cases (Table.mem_insert? hins).mp hj with
    | inl hj => exact h.paid j hj hc
    | inr hj =>
        rw [hj] at hc
        cases hc
  · intro l hl
    obtain ⟨j, hj, hrest⟩ := h.earned l hl
    exact ⟨j, (Table.mem_insert? hins).mpr (.inl hj), hrest⟩
  · exact h.once

theorem not_busy {db : Db} {w : String} (h : busy db w = false) :
    ∀ j ∈ db.jobs, j.leasedTo w = false := by
  simpa [busy, Table.mem_iff] using h

/-- A worker without a lease is given one job of the queue. -/
theorem StoreInv.grant {db : Db} (h : StoreInv db) {w jobId : String} (clock : Time)
    (hfree : busy db w = false) : StoreInv (grant w jobId clock db) := by
  have hpj : ∀ j : JobRow, (decide (j.jobId = jobId) && decide (j.state = .queued)) = true →
      j.jobId = jobId ∧ j.state = .queued := by simp
  -- the rows after the update: the granted one, or a row as it was
  have hrow : ∀ j' ∈ (OneCompute.grant w jobId clock db).jobs, ∃ j ∈ db.jobs,
      (j.jobId = jobId ∧ j.state = .queued ∧ j' = j.lease w clock) ∨ j' = j := by
    intro j' hj'
    obtain ⟨j, hj, rfl⟩ := mem_grant.mp hj'
    refine ⟨j, hj, ?_⟩
    by_cases hp : (decide (j.jobId = jobId) && decide (j.state = .queued)) = true
    · exact .inl ⟨(hpj j hp).1, (hpj j hp).2, by simp only [hp, if_true]⟩
    · exact .inr (by simp only [hp]; rfl)
  constructor
  · intro j' hj'
    obtain ⟨j, hj, ⟨-, -, rfl⟩ | rfl⟩ := hrow j' hj'
    · constructor <;> simp [JobRow.lease]
    · exact h.jobs _ hj
  · intro j' hj' k' hk' v hjv hkv
    obtain ⟨j, hj, ⟨hji, -, rfl⟩ | rfl⟩ := hrow j' hj' <;>
      obtain ⟨k, hk, ⟨hki, -, rfl⟩ | rfl⟩ := hrow k' hk'
    · rw [Table.eq_of_key_eq hj hk (hji.trans hki.symm)]
    · obtain rfl : w = v := by simpa [JobRow.lease] using (leasedTo_iff.mp hjv).2
      rw [not_busy hfree _ hk] at hkv
      cases hkv
    · obtain rfl : w = v := by simpa [JobRow.lease] using (leasedTo_iff.mp hkv).2
      rw [not_busy hfree _ hj] at hjv
      cases hjv
    · exact h.oneLease _ hj _ hk v hjv hkv
  · intro j' hj' hc
    obtain ⟨j, hj, ⟨-, -, rfl⟩ | rfl⟩ := hrow j' hj'
    · cases hc
    · exact h.paid _ hj hc
  · intro l hl
    obtain ⟨j, hj, hc, hrest⟩ := h.earned l hl
    have hmem : j ∈ (OneCompute.grant w jobId clock db).jobs :=
      mem_grant.mpr ⟨j, hj, by simp [hc]⟩
    exact ⟨j, hmem, hc, hrest⟩
  · exact h.once

/-- The holder of a lease completes its job and is paid for it. -/
theorem StoreInv.complete {db : Db} (h : StoreInv db) {w jobId : String} {job : JobRow}
    (output : Dict) (now : Time) (hfind : db.jobs.find? jobId = some job)
    (hl : job.leasedTo w = true) :
    StoreInv (completeJob w jobId output (creditsFor job) now db) := by
  obtain ⟨hjob, rfl⟩ := Table.find?_eq_some.mp hfind
  have hl' := leasedTo_iff.mp hl
  have hrow : ∀ j' ∈ (completeJob w job.jobId output (creditsFor job) now db).jobs,
      j' = job.complete output now ∨ (j' ∈ db.jobs ∧ j'.jobId ≠ job.jobId) := by
    intro j' hj'
    obtain ⟨j, hj, rfl⟩ := mem_completeJob.mp hj'
    by_cases hid : j.jobId = job.jobId
    · obtain rfl := Table.eq_of_key_eq hj hjob hid
      simp [hl]
    · exact .inr ⟨by simpa [hid] using hj, by simp [hid]⟩
  have hdone : job.complete output now ∈
      (completeJob w job.jobId output (creditsFor job) now db).jobs :=
    mem_completeJob.mpr ⟨job, hjob, by simp [hl]⟩
  have hunpaid : ∀ l ∈ db.ledger.rows, l.jobId ≠ some job.jobId := by
    intro l hl hid
    obtain ⟨j, hj, hc, hlid, -⟩ := h.earned l hl
    have hsame : j.jobId = job.jobId := Option.some.inj (hlid.symm.trans hid)
    rw [Table.eq_of_key_eq hj hjob hsame, hl'.1] at hc
    cases hc
  constructor
  · intro j' hj'
    rcases hrow j' hj' with rfl | ⟨hj, -⟩
    · constructor <;> simp [JobRow.complete, hl'.2]
    · exact h.jobs _ hj
  · intro j' hj' k' hk' v hjv hkv
    rcases hrow j' hj' with rfl | ⟨hj, -⟩
    · cases (leasedTo_iff.mp hjv).1
    · rcases hrow k' hk' with rfl | ⟨hk, -⟩
      · cases (leasedTo_iff.mp hkv).1
      · exact h.oneLease _ hj _ hk v hjv hkv
  · intro j' hj' hc
    rcases hrow j' hj' with rfl | ⟨hj, -⟩
    · exact ⟨_, List.mem_append_right _ (List.mem_singleton_self _), rfl⟩
    · obtain ⟨l, hl, hlid⟩ := h.paid _ hj hc
      exact ⟨l, List.mem_append_left _ hl, hlid⟩
  · intro l hl
    cases List.mem_append.mp hl with
    | inl hl =>
        obtain ⟨j, hj, hc, hlid, hrest⟩ := h.earned l hl
        have hid : j.jobId ≠ job.jobId := by
          intro hid
          exact hunpaid l hl (hlid.trans (congrArg some hid))
        have hmem : j ∈ (completeJob w job.jobId output (creditsFor job) now db).jobs :=
          mem_completeJob.mpr ⟨j, hj, by simp [hid]⟩
        exact ⟨j, hmem, hc, hlid, hrest⟩
    | inr hl =>
        obtain rfl := List.mem_singleton.mp hl
        exact ⟨_, hdone, rfl, rfl, hl'.2, rfl⟩
  · change (db.ledger.rows ++ [_]).Pairwise _
    rw [List.pairwise_append]
    refine ⟨h.once, List.pairwise_singleton _ _, ?_⟩
    intro a ha b hb
    obtain rfl := List.mem_singleton.mp hb
    exact hunpaid a ha

/-! ## What a command does to the store -/

/-- The ways jobs and ledger change: leased jobs go back to the queue, a lease is
extended, a job is queued, an idle worker gets a lease, a lease holder is done. -/
inductive StoreStep : Db → Db → Prop where
  | same {db db' : Db} : db'.jobs = db.jobs → db'.ledger = db.ledger → StoreStep db db'
  | requeue {db : Db} (now : Time) (p : JobRow → Bool) : (∀ j, p j = true → j.state = .leased) →
      StoreStep db (requeue now p db)
  | extend {db : Db} (w jobId : String) (now clock : Time) :
      StoreStep db (extendLease w jobId now clock db)
  | insert {db : Db} (s : Submission) (jobs : Table JobRow.jobId) :
      db.jobs.insert? (.submitted s) = some jobs → StoreStep db { db with jobs := jobs }
  | grant {db : Db} (w jobId : String) (clock : Time) : busy db w = false →
      StoreStep db (grant w jobId clock db)
  | complete {db : Db} (w jobId : String) (output : Dict) (now : Time) (job : JobRow) :
      db.jobs.find? jobId = some job → job.leasedTo w = true →
      StoreStep db (completeJob w jobId output (creditsFor job) now db)
  | trans {a b c : Db} : StoreStep a b → StoreStep b c → StoreStep a c

theorem storeStep_requeueFor (db : Db) (w jobId : String) (now : Time) :
    StoreStep db (requeueFor w jobId now db) := by
  apply StoreStep.requeue
  intro j hj
  rw [Bool.and_eq_true, leasedTo_iff] at hj
  exact hj.2.1

theorem storeStep_settle (db : Db) (jobId : String) (req : ResultRequest) (now : Time) :
    StoreStep db (settle jobId req now db).db := by
  have hc := settle_cases jobId req now db
  generalize settle jobId req now db = out at hc ⊢
  cases hc with
  | missing _ | notLeased _ _ _ | tooLarge _ _ _ | raised _ _ _ _ _ => exact .same rfl rfl
  | lapsed _ _ _ _ | invalidProof _ _ _ _ | returned _ _ _ => exact storeStep_requeueFor _ _ _ _
  | cheated _ _ _ _ =>
      have hb : StoreStep db (blacklistWorker req.workerId db) := .same rfl rfl
      exact hb.trans (storeStep_requeueFor _ _ _ _)
  | completed job held _ _ _ _ => exact .complete _ _ _ _ job held.found held.leased

theorem storeStep_heartbeat (db : Db) (m : Bool) (req : HeartbeatRequest) (now clock : Time) :
    StoreStep db (recordHeartbeat m req now clock db) := by
  have hbeat : StoreStep db (db.updateWorker req.workerId (WorkerRow.beat m req now)
      (beat_workerId m req now)) := .same rfl rfl
  unfold recordHeartbeat
  dsimp only
  split
  · split
    · refine (hbeat.trans (.requeue now _ ?_)).trans (.extend _ _ _ _)
      intro j hj
      simp only [Bool.and_eq_true, leasedTo_iff] at hj
      exact hj.1.2.1
    · exact hbeat
  · exact hbeat

theorem storeStep_runCommand (input : Nat) (w : World) (c : Cmd) :
    StoreStep w.db (runCommand input w c).db := by
  cases c with
  | now | uuid4 | workerRow _ | activeWorkers | emit _ | query => exact .same rfl rfl
  | approveWorker _ | assignTier _ _ | storeProfile _ _ _ => exact .same rfl rfl
  | reapExpired =>
      apply StoreStep.requeue
      intro j hj
      simp only [Bool.and_eq_true, decide_eq_true_eq] at hj
      exact hj.1
  | enroll bind e =>
      rcases enroll_cases bind e w.db with ⟨failure, -, heq⟩ | ⟨-, heq⟩
      · simp only [runCommand, heq]
        exact .same rfl rfl
      · simp only [runCommand, heq]
        exact .same rfl rfl
  | applyDerivedTier v tier =>
      rcases applyDerivedTier_cases v tier w.db with ⟨heq, -⟩ | ⟨row, -, -, heq⟩
      · simp only [runCommand, heq]
        exact .same rfl rfl
      · simp only [runCommand, heq]
        exact .same rfl rfl
  | insertJob s =>
      rcases insertJob_cases s w.db with ⟨failure, heq⟩ | ⟨jobs, hins, -, -, heq⟩
      · simp only [runCommand, heq]
        exact .same rfl rfl
      · simp only [runCommand, heq]
        exact .insert s jobs hins
  | assignNext v cap free =>
      have hc := assignNext_cases v cap free w.clock w.db
      simp only [runCommand]
      generalize assignNext v cap free w.clock w.db = out at hc ⊢
      cases hc with
      | busy _ | noJob _ _ | deferred _ _ _ _ => exact .same rfl rfl
      | granted job hfree _ _ => exact .grant _ _ _ hfree
  | recordHeartbeat m req now => exact storeStep_heartbeat _ _ _ _ _
  | removeWorker v now =>
      have h1 : StoreStep w.db (requeue now (JobRow.leasedTo v) w.db) :=
        .requeue now _ (fun j hj => (leasedTo_iff.mp hj).1)
      exact h1.trans (.same rfl rfl)
  | settle jobId req now => exact storeStep_settle _ _ _ _

theorem storeStep_exec (c : Cmd) (input : Nat) (w : World) : StoreStep w.db (exec c input w).1.db :=
  (storeStep_runCommand input w c).trans (.same (emitAll_jobs _ _ _) (emitAll_ledger _ _ _))

theorem StoreInv.step {db db' : Db} (h : StoreInv db) (hs : StoreStep db db') : StoreInv db' := by
  induction hs with
  | same hj hl => exact h.congr hj hl
  | requeue now p hp => exact h.requeue hp
  | extend w jobId now clock => exact h.extendLease w jobId now clock
  | insert s jobs hins => exact h.insert hins
  | grant w jobId clock hfree => exact h.grant clock hfree
  | complete w jobId output now job hfind hl => exact h.complete output now hfind hl
  | trans _ _ ih1 ih2 => exact ih2 (ih1 h)

theorem storeInv_invariant (cfg : Config) :
    Interleaving.Invariant (machine cfg) (fun w => StoreInv w.db) where
  exec c input w h := h.step (storeStep_exec c input w)
  disturb _ _ h := h

theorem run_storeInv (cfg : Config) (clock : Time) (ms : List Move) :
    StoreInv (run cfg clock ms).state.db :=
  (storeInv_invariant cfg).runs storeInv_empty ms

/-! ## Rows are kept -/

/-- `k` is a later state of the job `j`. -/
structure JobRow.Continues (j k : JobRow) : Prop where
  jobId : k.jobId = j.jobId
  manifest : k.manifestJson = j.manifestJson
  input : k.inputJson = j.inputJson
  units : k.units = j.units
  completed : j.state = .completed → k = j

theorem JobRow.Continues.refl (j : JobRow) : j.Continues j :=
  ⟨rfl, rfl, rfl, rfl, fun _ => rfl⟩

theorem JobRow.Continues.trans {i j k : JobRow} (hij : i.Continues j) (hjk : j.Continues k) :
    i.Continues k where
  jobId := hjk.jobId.trans hij.jobId
  manifest := hjk.manifest.trans hij.manifest
  input := hjk.input.trans hij.input
  units := hjk.units.trans hij.units
  completed hi := by
    have hj := hij.completed hi
    exact (hjk.completed (hj ▸ hi)).trans hj

/-- No job is lost, and completed rows stay as they are. -/
def Kept (db db' : Db) : Prop := ∀ j ∈ db.jobs, ∃ k ∈ db'.jobs, j.Continues k

theorem Kept.refl (db : Db) : Kept db db := fun j hj => ⟨j, hj, .refl j⟩

theorem Kept.trans {a b c : Db} (hab : Kept a b) (hbc : Kept b c) : Kept a c := by
  intro i hi
  obtain ⟨j, hj, hij⟩ := hab i hi
  obtain ⟨k, hk, hjk⟩ := hbc j hj
  exact ⟨k, hk, hij.trans hjk⟩

theorem Kept.update {db : Db} {p : JobRow → Bool} {f : JobRow → JobRow}
    (hf : ∀ r, (f r).jobId = r.jobId) (h : ∀ j, p j = true → j.Continues (f j)) :
    Kept db (db.updateJobs p f hf) := by
  intro j hj
  refine ⟨_, Table.mem_update_of hf hj rfl, ?_⟩
  split
  next hp => exact h j hp
  next => exact .refl j

theorem Kept.step {db db' : Db} (hs : StoreStep db db') : Kept db db' := by
  induction hs with
  | same hj _ =>
      intro j hjm
      exact ⟨j, by rw [hj]; exact hjm, .refl j⟩
  | requeue now p hp =>
      refine Kept.update (f := JobRow.requeued now) (fun _ => rfl) ?_
      intro j hj
      exact ⟨rfl, rfl, rfl, rfl, fun hc => by simp [hp j hj] at hc⟩
  | extend w jobId now clock =>
      refine Kept.update (f := JobRow.extended now clock) (fun _ => rfl) ?_
      intro j hj
      simp only [Bool.and_eq_true, leasedTo_iff] at hj
      exact ⟨rfl, rfl, rfl, rfl, fun hc => by simp [hj.1.2.1] at hc⟩
  | insert s jobs hins => exact fun j hj => ⟨j, (Table.mem_insert? hins).mpr (.inl hj), .refl j⟩
  | grant w jobId clock hfree =>
      refine Kept.update (f := JobRow.lease w clock) (fun _ => rfl) ?_
      intro j hj
      simp only [Bool.and_eq_true, decide_eq_true_eq] at hj
      exact ⟨rfl, rfl, rfl, rfl, fun hc => by simp [hj.2] at hc⟩
  | complete w jobId output now job hfind hl =>
      refine Kept.update (f := JobRow.complete output now) (fun _ => rfl) ?_
      intro j hj
      simp only [Bool.and_eq_true, leasedTo_iff] at hj
      exact ⟨rfl, rfl, rfl, rfl, fun hc => by simp [hj.2.1] at hc⟩
  | trans _ _ ih1 ih2 => exact ih1.trans ih2

theorem run_kept (cfg : Config) (clock : Time) (ms ns : List Move) :
    Kept (run cfg clock ms).state.db (run cfg clock (ms ++ ns)).state.db := by
  have h := Interleaving.runs_relation (M := machine cfg) (G := fun v w => Kept v.db w.db)
    (fun _ => .refl _) (fun _ _ _ => .trans) (fun c input w => .step (storeStep_exec c input w))
    (fun _ _ => .refl _) (run cfg clock ms) ns
  rwa [run, ← Interleaving.runs_append] at h

/-! ## Where ledger rows come from -/

/-- The command posted the result for which `l` was recorded: its worker held the
lease on the job and passed its challenge, if it is one, and the credits are what
the stored job is worth. -/
def Pays (p : Performed) (l : LedgerRow) : Prop :=
  ∃ jobId req now job, p.cmd = .settle jobId req now ∧ req.workerId = l.workerId ∧
    HeldJob jobId l.workerId now p.pre.db job ∧ l.jobId = some jobId ∧ l.credits = creditsFor job ∧
    req.status = .completed ∧ passesChallenge job req.outputOrEmpty = .ok true

theorem ledger_post (cfg : Config) (p : Performed) :
    ∀ l ∈ (p.post (machine cfg)).db.ledger.rows, l ∈ p.pre.db.ledger.rows ∨ Pays p l := by
  intro l hl
  have hexec : (p.post (machine cfg)).db.ledger = (runCommand p.input p.pre p.cmd).db.ledger :=
    emitAll_ledger _ _ _
  rw [hexec] at hl
  rcases (runCommand_frame p.input p.pre p.cmd).2 with hsame | ⟨jobId, req, now, hcmd⟩
  · exact .inl (hsame ▸ hl)
  · rw [hcmd] at hl
    rcases settle_ledger jobId req now p.pre.db l hl with hold | ⟨job, held, hstatus, hpass, rfl⟩
    · exact .inl hold
    · exact .inr ⟨jobId, req, now, job, hcmd, rfl, held, rfl, rfl, hstatus, hpass⟩

theorem run_paid (cfg : Config) (clock : Time) (ms : List Move) :
    ∀ l ∈ (run cfg clock ms).state.db.ledger.rows, ∃ p ∈ runTrace cfg clock ms, Pays p l := by
  apply run_induction cfg clock
    (I := fun ms w => ∀ l ∈ w.db.ledger.rows, ∃ p ∈ runTrace cfg clock ms, Pays p l)
  · exact fun l hl => absurd hl List.not_mem_nil
  · intro ms m p hp ih l hl
    rw [runTrace_snoc, hp]
    rcases ledger_post cfg p l hl with hold | hpays
    · obtain ⟨q, hq, hpays⟩ := ih l hold
      exact ⟨q, List.mem_append_left _ hq, hpays⟩
    · exact ⟨p, List.mem_append_right _ (by simp), hpays⟩
  · intro ms t w ih l hl
    obtain ⟨q, hq, hpays⟩ := ih l hl
    exact ⟨q, by rw [runTrace_snoc]; exact List.mem_append_left _ hq, hpays⟩
  · intro ms m w _ ih l hl
    obtain ⟨q, hq, hpays⟩ := ih l hl
    exact ⟨q, by rw [runTrace_snoc]; exact List.mem_append_left _ hq, hpays⟩

/-- The weight of a job: five when its manifest requires a GPU. -/
def jobWeight (job : JobRow) : Int := if job.manifestJson.requires.needsGpu then 5 else 1

theorem creditsFor_eq (job : JobRow) :
    creditsFor job = PyFloat.mul (PyFloat.ofInt job.units) (.fin (jobWeight job)) := by
  unfold creditsFor jobWeight
  split <;> rfl

theorem creditsFor_exact {job : JobRow} (h : (job.units * jobWeight job).natAbs ≤ 2 ^ 53) :
    creditsFor job = .fin (job.units * jobWeight job : Int) := by
  rw [creditsFor_eq]
  have hunits : job.units.natAbs ≤ 2 ^ 53 := by
    rw [Int.natAbs_mul] at h
    have hw : 1 ≤ (jobWeight job).natAbs := by
      unfold jobWeight
      split <;> decide
    exact (Nat.le_mul_of_pos_right _ hw).trans h
  exact PyFloat.mul_ofInt_exact hunits h

/-- The store in every reachable state. -/
theorem run_store (cfg : Config) (clock : Time) (ms : List Move) :
    let db := (run cfg clock ms).state.db
    (∀ j ∈ db.jobs, (j.state = .queued ∨ j.state = .leased ∨ j.state = .completed) ∧
      (j.assignedWorker = none ↔ j.state = .queued) ∧ (j.leaseExpires ≠ none ↔ j.state = .leased) ∧
      (j.state = .completed → j.resultJson ≠ none)) ∧
    (∀ j ∈ db.jobs, ∀ k ∈ db.jobs, ∀ w, j.leasedTo w = true → k.leasedTo w = true → j = k) ∧
    (∀ ns, ∀ j ∈ db.jobs, ∃ k ∈ (run cfg clock (ms ++ ns)).state.db.jobs, j.Continues k) ∧
    (∀ j ∈ db.jobs, j.state = .completed → ∃! l, l ∈ db.ledger.rows ∧ l.jobId = some j.jobId) ∧
    ∀ l ∈ db.ledger.rows, ∃ j ∈ db.jobs, j.state = .completed ∧ l.jobId = some j.jobId ∧
      (∃ p ∈ runTrace cfg clock ms, Pays p l) ∧
      l.credits = PyFloat.mul (PyFloat.ofInt j.units) (.fin (jobWeight j)) ∧
      ((j.units * jobWeight j).natAbs ≤ 2 ^ 53 → l.credits = .fin (j.units * jobWeight j : Int)) := by
  have h := run_storeInv cfg clock ms
  refine ⟨?_, h.oneLease, run_kept cfg clock ms, ?_, ?_⟩
  · intro j hj
    have hok := h.jobs j hj
    exact ⟨hok.state, hok.assigned, hok.lease, hok.result⟩
  · intro j hj hc
    obtain ⟨l, hl, hlid⟩ := h.paid j hj hc
    refine ⟨l, ⟨hl, hlid⟩, ?_⟩
    rintro k ⟨hk, hkid⟩
    have hsymm : Std.Symm (fun a b : LedgerRow => a.jobId ≠ b.jobId) := ⟨fun _ _ => Ne.symm⟩
    by_contra hne
    exact h.once.forall hk hl hne (hkid.trans hlid.symm)
  · intro l hl
    obtain ⟨j, hj, hc, hlid, -, hcredits⟩ := h.earned l hl
    refine ⟨j, hj, hc, hlid, run_paid cfg clock ms l hl, hcredits.trans (creditsFor_eq j), ?_⟩
    intro hsmall
    rw [hcredits, creditsFor_exact hsmall]

/-- A job of 2 ^ 53 + 1 units is submitted, leased and completed. -/
def hugeJob : List Move :=
  let bearer := some ("Bearer " ++ PyText.uuidHex 0)
  let jobId := PyText.uuidHex 16
  serve 0 4 (.register { workerId := "w" } none) ++
  serve 1 5 (.submit { kind := .render, dataClassification := .public, units := 2 ^ 53 + 1 } none) ++
  serve 2 4 (.jobsNext "w" bearer none) ++
  serve 3 3 (.results jobId { workerId := "w", jobId := jobId, status := .completed } bearer none)

set_option maxRecDepth 20000 in
/-- Its credits are rounded to a float. -/
theorem hugeJob_rounded :
    ∃ l ∈ (run {} 0 hugeJob).state.db.ledger.rows, ∃ j ∈ (run {} 0 hugeJob).state.db.jobs.rows,
      l.jobId = some j.jobId ∧ j.state = .completed ∧ j.units = 2 ^ 53 + 1 ∧ jobWeight j = 1 ∧
      l.credits = .fin (2 ^ 53) ∧ l.credits ≠ .fin (j.units * jobWeight j : Int) := by
  decide +kernel

end OneCompute
