import OneCompute.Orchestrator.App

/-!
What each locked section can do: one case for each way it can end, with the
guards that lead there. Later proofs use these cases and do not open the sections.
-/

namespace OneCompute

/-! ## Rows after an update -/

theorem mem_requeue {now : Time} {p : JobRow → Bool} {db : Db} {r : JobRow} :
    r ∈ (requeue now p db).jobs ↔ ∃ j ∈ db.jobs, (if p j then j.requeued now else j) = r :=
  Table.mem_update (f := JobRow.requeued now) (fun _ => rfl)

theorem mem_grant {w jobId : String} {clock : Time} {db : Db} {r : JobRow} :
    r ∈ (grant w jobId clock db).jobs ↔ ∃ j ∈ db.jobs,
      (if decide (j.jobId = jobId) && decide (j.state = .queued) then j.lease w clock else j) = r :=
  Table.mem_update (f := JobRow.lease w clock) (fun _ => rfl)

theorem mem_completeJob {w jobId : String} {output : Dict} {credits : PyFloat} {now : Time}
    {db : Db} {r : JobRow} :
    r ∈ (completeJob w jobId output credits now db).jobs ↔ ∃ j ∈ db.jobs,
      (if decide (j.jobId = jobId) && j.leasedTo w then j.complete output now else j) = r :=
  Table.mem_update (f := JobRow.complete output now) (fun _ => rfl)

/-! ## insertJob, enroll, applyDerivedTier -/

theorem insertJob_cases (s : Submission) (db : Db) :
    (∃ failure, insertJob s db = { db := db, answer := .error failure }) ∨
    (∃ jobs, db.jobs.insert? (.submitted s) = some jobs ∧ minSqlInteger ≤ s.units ∧
      s.units ≤ maxSqlInteger ∧
      insertJob s db = { db := { db with jobs := jobs }, answer := .ok () }) := by
  unfold insertJob
  split
  · exact .inl ⟨_, rfl⟩
  next hunits =>
    split
    next jobs hjobs =>
      exact .inr ⟨jobs, hjobs, by omega, by omega, rfl⟩
    next => exact .inl ⟨_, rfl⟩

theorem reenrolled_workerId (e : Enrollment) (row : WorkerRow) :
    (row.reenrolled e).workerId = row.workerId := rfl

/-- The database after a registration that was not refused. -/
def enrolled (e : Enrollment) (db : Db) : Db :=
  { db with
    workers := db.workers.upsert (.enrolled e) (WorkerRow.reenrolled e) (reenrolled_workerId e) }

/-- The row a registration leaves. -/
def enrolledRow (e : Enrollment) (db : Db) : WorkerRow :=
  (db.workers.find? e.capability.workerId).elim (.enrolled e) (WorkerRow.reenrolled e)

theorem enroll_cases (bind : Bool) (e : Enrollment) (db : Db) :
    (∃ failure, checkBinding bind (db.workers.find? e.capability.workerId) e.certFingerprint =
        .error failure ∧ enroll bind e db = { db := db, answer := .error failure }) ∨
    (checkBinding bind (db.workers.find? e.capability.workerId) e.certFingerprint = .ok () ∧
      enroll bind e db =
        ⟨enrolled e db, [], .ok ((enrolledRow e db).approved, (enrolledRow e db).deviceCode)⟩) := by
  unfold enroll
  dsimp only
  split
  next failure h => exact .inl ⟨failure, h, rfl⟩
  next h => exact .inr ⟨h, rfl⟩

theorem applyDerivedTier_cases (w tier : String) (db : Db) :
    (applyDerivedTier w tier db = { db := db, answer := false } ∧
      ∀ row, db.workers.find? w = some row → row.tierPinned = true) ∨
    (∃ row, db.workers.find? w = some row ∧ row.tierPinned = false ∧
      applyDerivedTier w tier db =
        { db := db.updateWorker w (WorkerRow.derive tier) (derive_workerId tier), answer := true }) := by
  unfold applyDerivedTier
  split
  next row hrow =>
    split
    next hpin => exact .inl ⟨rfl, fun r hr => by cases hrow.symm.trans hr; exact hpin⟩
    next hpin => exact .inr ⟨row, hrow, by simpa using hpin, rfl⟩
  next hrow => exact .inl ⟨rfl, fun r hr => by cases hrow.symm.trans hr⟩

/-! ## assignNext -/

inductive AssignCase (w : String) (cap : Capability) (free : Option PyFloat) (clock : Time)
    (db : Db) : Outcome Poll → Prop where
  | busy : busy db w = true → AssignCase w cap free clock db { db := db, answer := .busy }
  | noJob : busy db w = false → pickJobFor db cap free = none →
      AssignCase w cap free clock db { db := db, answer := .noJob }
  | deferred (job : JobRow) : busy db w = false → pickJobFor db cap free = some job →
      deferToLessLoaded db w job.createdAt clock = true →
      AssignCase w cap free clock db { db := db, answer := .deferred }
  | granted (job : JobRow) : busy db w = false → pickJobFor db cap free = some job →
      deferToLessLoaded db w job.createdAt clock = false →
      AssignCase w cap free clock db
        { db := grant w job.jobId clock db, answer := .granted job }

theorem assignNext_cases (w : String) (cap : Capability) (free : Option PyFloat) (clock : Time)
    (db : Db) : AssignCase w cap free clock db (assignNext w cap free clock db) := by
  unfold assignNext
  split
  next hbusy => exact .busy hbusy
  next hbusy =>
    have hfree : busy db w = false := by simpa using hbusy
    split
    next hpick => exact .noJob hfree hpick
    next job hpick =>
      split
      next hdefer => exact .deferred job hfree hpick hdefer
      next hdefer => exact .granted job hfree hpick (by simpa using hdefer)

/-! ## settle -/

/-- The job that a result is about, while its poster holds a live lease on it. -/
structure HeldJob (jobId : String) (w : String) (now : Time) (db : Db) (job : JobRow) : Prop where
  found : db.jobs.find? jobId = some job
  leased : job.leasedTo w = true
  live : ∃ t, job.leaseExpires = some t ∧ now < t

inductive SettleCase (jobId : String) (req : ResultRequest) (now : Time) (db : Db) :
    Outcome (Except Failure ResultResponse) → Prop where
  | missing : db.jobs.find? jobId = none →
      SettleCase jobId req now db { db := db, answer := .error (.http 404 "job not found") }
  | notLeased (job : JobRow) : db.jobs.find? jobId = some job →
      job.leasedTo req.workerId = false →
      SettleCase jobId req now db { db := db, answer := .ok (refused "not_leased") }
  | lapsed (job : JobRow) : db.jobs.find? jobId = some job → job.leasedTo req.workerId = true →
      (∀ t, job.leaseExpires = some t → t ≤ now) →
      SettleCase jobId req now db
        { db := requeueFor req.workerId jobId now db, answer := .ok (refused "lease_expired") }
  | tooLarge (job : JobRow) : HeldJob jobId req.workerId now db job →
      maxResultOutputBytes < (outputJson req.outputOrEmpty).length →
      SettleCase jobId req now db { db := db, answer := .ok (refused "payload_too_large") }
  | invalidProof (job : JobRow) : HeldJob jobId req.workerId now db job → req.status = .completed →
      proofMismatch req = true →
      SettleCase jobId req now db
        { db := requeueFor req.workerId jobId now db, answer := .ok (refused "invalid_proof") }
  | raised (job : JobRow) (failure : Failure) : HeldJob jobId req.workerId now db job →
      req.status = .completed → passesChallenge job req.outputOrEmpty = .error failure →
      SettleCase jobId req now db { db := db, answer := .error failure }
  | cheated (job : JobRow) : HeldJob jobId req.workerId now db job → req.status = .completed →
      passesChallenge job req.outputOrEmpty = .ok false →
      SettleCase jobId req now db
        { db := requeueFor req.workerId jobId now (blacklistWorker req.workerId db)
          emits := [⟨"blacklisted", some req.workerId, some jobId,
            some "failed integrity challenge"⟩]
          answer := .ok (refused "cheater_blacklisted") }
  | completed (job : JobRow) : HeldJob jobId req.workerId now db job → req.status = .completed →
      proofMismatch req = false → (outputJson req.outputOrEmpty).length ≤ maxResultOutputBytes →
      passesChallenge job req.outputOrEmpty = .ok true →
      SettleCase jobId req now db
        { db := completeJob req.workerId jobId req.outputOrEmpty (creditsFor job) now db
          emits := [⟨"completed", some req.workerId, some jobId,
            some ("+" ++ PyFloat.formatG (creditsFor job) ++ " credits")⟩]
          answer := .ok { accepted := true, credited := creditsFor job } }
  | returned (job : JobRow) : HeldJob jobId req.workerId now db job → req.status ≠ .completed →
      SettleCase jobId req now db
        { db := requeueFor req.workerId jobId now db
          emits := [⟨req.status.text, some req.workerId, some jobId, none⟩]
          answer := .ok (refused req.status.text) }

theorem not_lapsed {now : Time} {job : JobRow}
    (h : ¬ (decide (job.leaseExpires = none) || job.lapsedBy now) = true) :
    ∃ t, job.leaseExpires = some t ∧ now < t := by
  simp only [JobRow.lapsedBy, Bool.or_eq_true, decide_eq_true_eq, not_or] at h
  cases hl : job.leaseExpires with
  | none => exact absurd hl h.1
  | some t =>
      rw [hl] at h
      exact ⟨t, rfl, Nat.lt_of_not_le (by simpa using h.2)⟩

theorem settle_cases (jobId : String) (req : ResultRequest) (now : Time) (db : Db) :
    SettleCase jobId req now db (settle jobId req now db) := by
  unfold settle
  split
  next hfind => exact .missing hfind
  next job hfind =>
    dsimp only
    split
    next hlease => exact .notLeased job hfind (by simpa using hlease)
    next hlease =>
      have hleased : job.leasedTo req.workerId = true := by simpa using hlease
      split
      next hlapsed =>
        refine .lapsed job hfind hleased ?_
        intro t ht
        simpa [JobRow.lapsedBy, ht] using hlapsed
      next hlive =>
        have held : HeldJob jobId req.workerId now db job := ⟨hfind, hleased, not_lapsed hlive⟩
        split
        next hsize => exact .tooLarge job held hsize
        next hsize =>
          split
          next hstatus =>
            split
            next hproof => exact .invalidProof job held hstatus hproof
            next hproof =>
              split
              next failure hch => exact .raised job failure held hstatus hch
              next hch => exact .cheated job held hstatus hch
              next hch =>
                exact .completed job held hstatus (by simpa using hproof) (by omega) hch
          next hstatus => exact .returned job held (by simp [hstatus])
          next hstatus => exact .returned job held (by simp [hstatus])

/-! ## What commands leave alone -/

theorem recordHeartbeat_frame (m : Bool) (req : HeartbeatRequest) (now clock : Time) (db : Db) :
    (recordHeartbeat m req now clock db).ledger = db.ledger ∧
      (recordHeartbeat m req now clock db).events = db.events := by
  unfold recordHeartbeat
  dsimp only
  split
  · split <;> exact ⟨rfl, rfl⟩
  · exact ⟨rfl, rfl⟩

theorem settle_events (jobId : String) (req : ResultRequest) (now : Time) (db : Db) :
    (settle jobId req now db).db.events = db.events := by
  have hc := settle_cases jobId req now db
  generalize settle jobId req now db = out at hc ⊢
  cases hc <;> rfl

/-- Only a result writes to the ledger, and no section writes to the event table
but through the events it appends. -/
theorem runCommand_frame (input : Nat) (w : World) (c : Cmd) :
    (runCommand input w c).db.events = w.db.events ∧
      ((runCommand input w c).db.ledger = w.db.ledger ∨ ∃ jobId req now, c = .settle jobId req now) := by
  cases c with
  | now | uuid4 | workerRow _ | activeWorkers | emit _ | query => exact ⟨rfl, .inl rfl⟩
  | reapExpired | approveWorker _ | assignTier _ _ | removeWorker _ _ | storeProfile _ _ _ =>
      exact ⟨rfl, .inl rfl⟩
  | enroll bind e =>
      change (enroll bind e w.db).db.events = _ ∧ ((enroll bind e w.db).db.ledger = _ ∨ _)
      rcases enroll_cases bind e w.db with ⟨failure, -, heq⟩ | ⟨-, heq⟩ <;> rw [heq] <;>
        exact ⟨rfl, .inl rfl⟩
  | applyDerivedTier v tier =>
      change (applyDerivedTier v tier w.db).db.events = _ ∧
        ((applyDerivedTier v tier w.db).db.ledger = _ ∨ _)
      rcases applyDerivedTier_cases v tier w.db with ⟨heq, -⟩ | ⟨row, -, -, heq⟩ <;> rw [heq] <;>
        exact ⟨rfl, .inl rfl⟩
  | insertJob s =>
      change (insertJob s w.db).db.events = _ ∧ ((insertJob s w.db).db.ledger = _ ∨ _)
      rcases insertJob_cases s w.db with ⟨failure, heq⟩ | ⟨jobs, -, -, -, heq⟩ <;> rw [heq] <;>
        exact ⟨rfl, .inl rfl⟩
  | assignNext v cap free =>
      have hc := assignNext_cases v cap free w.clock w.db
      change (assignNext v cap free w.clock w.db).db.events = _ ∧
        ((assignNext v cap free w.clock w.db).db.ledger = _ ∨ _)
      generalize assignNext v cap free w.clock w.db = out at hc ⊢
      cases hc <;> exact ⟨rfl, .inl rfl⟩
  | recordHeartbeat m req now =>
      have h := recordHeartbeat_frame m req now w.clock w.db
      exact ⟨h.2, .inl h.1⟩
  | settle jobId req now => exact ⟨settle_events jobId req now w.db, .inr ⟨jobId, req, now, rfl⟩⟩

/-- A new ledger row is the payment of a lease holder for its completed job. -/
theorem settle_ledger (jobId : String) (req : ResultRequest) (now : Time) (db : Db) :
    ∀ l ∈ (settle jobId req now db).db.ledger.rows, l ∈ db.ledger.rows ∨
      ∃ job, HeldJob jobId req.workerId now db job ∧ req.status = .completed ∧
        passesChallenge job req.outputOrEmpty = .ok true ∧
        l = .completed req.workerId jobId (creditsFor job) now (db.ledger.seq + 1) := by
  have hc := settle_cases jobId req now db
  generalize settle jobId req now db = out at hc ⊢
  cases hc with
  | completed job held hstatus _ _ hpass =>
      intro l hl
      cases List.mem_append.mp hl with
      | inl hl => exact .inl hl
      | inr hl => exact .inr ⟨job, held, hstatus, hpass, List.mem_singleton.mp hl⟩
  | _ => exact fun l hl => .inl hl

end OneCompute
