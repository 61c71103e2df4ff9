import OneCompute.Orchestrator.JobRows

/-!
How long a lease lasts: a leased row is not touched until the reaper finds its
deadline passed, or its holder reports on it, renews it or is removed.
-/

namespace OneCompute

/-- The commands that touch a job leased to `v` until `e`. -/
def EndsLease (w : World) (v jobId : String) (e : Time) : Cmd → Prop
  | .reapExpired => e < w.clock
  | .settle id req _ => id = jobId ∧ req.workerId = v
  | .recordHeartbeat _ req _ => req.workerId = v ∧ req.currentJobId = some jobId
  | .removeWorker u _ => u = v
  | _ => False

theorem mem_requeue_of_not {db : Db} {p : JobRow → Bool} {now : Time} {job : JobRow}
    (hj : job ∈ db.jobs) (hp : p job = false) : job ∈ (requeue now p db).jobs :=
  mem_requeue.mpr ⟨job, hj, by simp [hp]⟩

theorem leasedTo_other {job : JobRow} {u v : String} (hl : job.leasedTo v = true) (huv : u ≠ v) :
    job.leasedTo u = false := by
  rw [← Bool.not_eq_true, leasedTo_iff]
  rintro ⟨-, hu⟩
  exact huv (Option.some.inj (hu.symm.trans (leasedTo_iff.mp hl).2))

/-- A section of another worker, or about another job, selects other rows. -/
theorem not_selected {job : JobRow} {u v id : String} (hl : job.leasedTo v = true)
    (h : ¬ (id = job.jobId ∧ u = v)) :
    (decide (job.jobId = id) && job.leasedTo u) = false := by
  by_cases hid : job.jobId = id
  · have huv : u ≠ v := fun huv => h ⟨hid.symm, huv⟩
    simp [leasedTo_other hl huv]
  · simp [hid]

section Rows
variable {db : Db} {job : JobRow} {v : String}

theorem lease_renew {u id : String} {now clock : Time} (hj : job ∈ db.jobs)
    (hl : job.leasedTo v = true) (h : ¬ (id = job.jobId ∧ u = v)) :
    job ∈ (renewLease u id now clock db).jobs := by
  have hkept : job ∈ (requeue now (fun j => decide (j.jobId = id) && j.leasedTo u && j.lapsedBy now)
      db).jobs := mem_requeue_of_not hj (by simp [not_selected hl h])
  refine (Table.mem_update (f := JobRow.extended now clock) (fun _ => rfl)).mpr ⟨job, hkept, ?_⟩
  simp [not_selected hl h]

theorem lease_heartbeat {m : Bool} {req : HeartbeatRequest} {now clock : Time}
    (hj : job ∈ db.jobs) (hl : job.leasedTo v = true)
    (h : ¬ (req.workerId = v ∧ req.currentJobId = some job.jobId)) :
    job ∈ (recordHeartbeat m req now clock db).jobs := by
  unfold recordHeartbeat
  dsimp only
  split
  next jobId hjob =>
    split
    · refine lease_renew hj hl ?_
      rintro ⟨rfl, rfl⟩
      exact h ⟨rfl, hjob⟩
    · exact hj
  next => exact hj

theorem lease_settle {id : String} {req : ResultRequest} {now : Time} (hj : job ∈ db.jobs)
    (hl : job.leasedTo v = true) (h : ¬ (id = job.jobId ∧ req.workerId = v)) :
    job ∈ (settle id req now db).db.jobs := by
  have hother := not_selected hl h
  have hc := settle_cases id req now db
  generalize settle id req now db = out at hc ⊢
  cases hc with
  | missing _ | notLeased _ _ _ | tooLarge _ _ _ | raised _ _ _ _ _ => exact hj
  | lapsed _ _ _ _ | invalidProof _ _ _ _ | returned _ _ _ | cheated _ _ _ _ =>
      exact mem_requeue_of_not hj hother
  | completed _ _ _ _ _ _ => exact mem_completeJob.mpr ⟨job, hj, by simp [hother]⟩

theorem lease_assignNext {u : String} {cap : Capability} {free : Option PyFloat} {clock : Time}
    (hj : job ∈ db.jobs) (hl : job.leasedTo v = true) :
    job ∈ (assignNext u cap free clock db).db.jobs := by
  have hc := assignNext_cases u cap free clock db
  generalize assignNext u cap free clock db = out at hc ⊢
  cases hc with
  | busy _ | noJob _ _ | deferred _ _ _ _ => exact hj
  | granted picked _ _ _ =>
      -- only a queued row is leased
      refine mem_grant.mpr ⟨job, hj, ?_⟩
      have hstate : job.state = .leased := (leasedTo_iff.mp hl).1
      simp [hstate]

end Rows

/-- A leased row is not touched by any other command. -/
theorem lease_exec {c : Cmd} {input : Nat} {w : World} {job : JobRow} {v : String} {e : Time}
    (hj : job ∈ w.db.jobs) (hl : job.leasedTo v = true) (he : job.leaseExpires = some e)
    (hc : ¬ EndsLease w v job.jobId e c) : job ∈ (exec c input w).1.db.jobs := by
  have hjobs : (exec c input w).1.db.jobs = (runCommand input w c).db.jobs := emitAll_jobs _ _ _
  rw [hjobs]
  cases c with
  | now | uuid4 | workerRow _ | activeWorkers | emit _ | query => exact hj
  | approveWorker _ | assignTier _ _ | storeProfile _ _ _ => exact hj
  | enroll bind e =>
      rcases enroll_cases bind e w.db with ⟨failure, -, heq⟩ | ⟨-, heq⟩ <;>
        simpa only [runCommand, heq, enrolled] using hj
  | applyDerivedTier u tier =>
      rcases applyDerivedTier_cases u tier w.db with ⟨heq, -⟩ | ⟨row, -, -, heq⟩ <;>
        simpa only [runCommand, heq, Db.updateWorker] using hj
  | insertJob s =>
      rcases insertJob_cases s w.db with ⟨failure, heq⟩ | ⟨jobs, hins, -, -, heq⟩
      · simpa only [runCommand, heq] using hj
      · simp only [runCommand, heq]
        exact (Table.mem_insert? hins).mpr (.inl hj)
  | reapExpired =>
      refine mem_requeue_of_not hj ?_
      have hlive : ¬ e < w.clock := hc
      simp [he, hlive]
  | removeWorker u now =>
      refine mem_requeue_of_not hj (leasedTo_other hl ?_)
      exact hc
  | assignNext u cap free => exact lease_assignNext hj hl
  | recordHeartbeat m req now => exact lease_heartbeat hj hl hc
  | settle id req now => exact lease_settle hj hl hc

/-- The row that a grant leases. -/
theorem granted_leased {v : String} {cap : Capability} {free : Option PyFloat} {clock : Time}
    {db : Db} {job : JobRow} (h : (assignNext v cap free clock db).answer = .granted job) :
    ∃ row ∈ (assignNext v cap free clock db).db.jobs, row.jobId = job.jobId ∧
      row.leasedTo v = true ∧ row.leaseExpires = some (leaseDeadline clock) := by
  have hc := assignNext_cases v cap free clock db
  generalize assignNext v cap free clock db = out at hc h ⊢
  cases hc with
  | busy _ | noJob _ _ | deferred _ _ _ _ => cases h
  | granted picked _ hpick _ =>
      cases h
      obtain ⟨hmem, hqueued, -⟩ := pickJobFor_eq_some hpick
      refine ⟨job.lease v clock, mem_grant.mpr ⟨job, hmem, ?_⟩, rfl, ?_, rfl⟩
      · simp [hqueued]
      · simp [JobRow.leasedTo, JobRow.lease]

end OneCompute
