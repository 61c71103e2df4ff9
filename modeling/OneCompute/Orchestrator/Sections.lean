import OneCompute.Contracts.Hashing
import OneCompute.Orchestrator.Audit
import OneCompute.Orchestrator.Profiles
import OneCompute.Orchestrator.Scheduler
import OneCompute.Trust.Challenge

/-!
The write-locked sections of the endpoints. Each is a function of its arguments,
the clock and the database; it returns the database it commits, the events it
appends before it releases the lock, and what it answers.
-/

namespace OneCompute

/-- A request fails with a status and a detail, or with an exception; one that
nobody catches is answered with status 500. -/
inductive Failure where
  | http (status : Nat) (detail : String)
  | valueError (text : String)
  | uncaught (exception : String)
  deriving DecidableEq

structure Outcome (α : Type) where
  db : Db
  emits : List Emission := []
  answer : α

def maxResultOutputBytes : Nat := 8 * 1024 * 1024

def leaseDeadline (clock : Time) : Time := clock + PyTime.seconds 20

/-- `UPDATE jobs SET f WHERE p`. -/
def Db.updateJobs (db : Db) (p : JobRow → Bool) (f : JobRow → JobRow)
    (hf : ∀ r, (f r).jobId = r.jobId) : Db :=
  { db with jobs := db.jobs.update p f hf }

/-- `UPDATE workers SET f WHERE worker_id = workerId`. -/
def Db.updateWorker (db : Db) (workerId : String) (f : WorkerRow → WorkerRow)
    (hf : ∀ r, (f r).workerId = r.workerId) : Db :=
  { db with workers := db.workers.update (fun w => decide (w.workerId = workerId)) f hf }

/-! ## Jobs -/

def JobRow.requeued (now : Time) (job : JobRow) : JobRow :=
  { job with state := .queued, assignedWorker := none, leaseExpires := none, updatedAt := now }

def JobRow.leasedTo (workerId : String) (job : JobRow) : Bool :=
  decide (job.state = .leased) && decide (job.assignedWorker = some workerId)

def JobRow.lapsedBy (now : Time) (job : JobRow) : Bool :=
  match job.leaseExpires with
  | some t => decide (t ≤ now)
  | none => false

/-- `UPDATE jobs SET state = 'queued', ... WHERE p`. -/
def requeue (now : Time) (p : JobRow → Bool) (db : Db) : Db :=
  db.updateJobs p (JobRow.requeued now) (fun _ => rfl)

def reapExpired (clock : Time) (db : Db) : Db :=
  requeue clock (fun job => decide (job.state = .leased) &&
    (match job.leaseExpires with | some t => decide (t < clock) | none => false)) db

/-- The parameters of the row that `submit_job` inserts. -/
structure Submission where
  manifest : JobManifest
  input : Dict
  units : Int
  workloadId : Option String
  now : Time

def JobRow.submitted (s : Submission) : JobRow :=
  { jobId := s.manifest.jobId
    kind := s.manifest.kind
    manifestJson := s.manifest
    inputJson := s.input
    state := .queued
    units := s.units
    workloadId := s.workloadId
    createdAt := s.now
    updatedAt := s.now }

def insertJob (s : Submission) (db : Db) : Outcome (Except Failure Unit) :=
  if s.units < minSqlInteger ∨ maxSqlInteger < s.units then
    { db := db, answer := .error (.uncaught "OverflowError") }
  else
    match db.jobs.insert? (.submitted s) with
    | some jobs => { db := { db with jobs := jobs }, answer := .ok () }
    | none => { db := db, answer := .error (.uncaught "IntegrityError") }

/-! ## register -/

structure Enrollment where
  capability : Capability
  token : String
  now : Time
  approved : Bool
  deviceCode : Option String
  certFingerprint : Option String

def Enrollment.freeRamGb (e : Enrollment) : Option PyFloat :=
  if e.capability.measurementOnly then none
  else sqlReal (e.capability.freeRamGb.getD e.capability.ramGb)

def WorkerRow.enrolled (e : Enrollment) : WorkerRow :=
  { workerId := e.capability.workerId
    token := e.token
    capabilityJson := e.capability
    classWeight := classWeightFor e.capability
    freeRamGb := e.freeRamGb
    idle := true
    approved := e.approved
    deviceCode := e.deviceCode
    registeredAt := e.now
    lastHeartbeat := some e.now
    certFingerprint := e.certFingerprint }

def WorkerRow.reenrolled (e : Enrollment) (row : WorkerRow) : WorkerRow :=
  { row with
    token := e.token
    capabilityJson := e.capability
    classWeight := classWeightFor e.capability
    freeRamGb := e.freeRamGb
    idle := true
    approved := row.approved || e.approved
    deviceCode := if row.approved then none else e.deviceCode
    registeredAt := e.now
    lastHeartbeat := some e.now
    certFingerprint := e.certFingerprint.orElse (fun _ => row.certFingerprint) }

/-- Refusals of a device that is not the one the row is bound to. -/
def checkBinding (bindDeviceIdentity : Bool) (existing : Option WorkerRow)
    (certFingerprint : Option String) : Except Failure Unit :=
  match bindDeviceIdentity, existing with
  | true, some row =>
      if row.certFingerprint.getD "" = "" then
        .error (.http 409 "existing worker ID is not device-bound; remove and re-enroll it")
      else
        match PyText.compareDigest (row.certFingerprint.getD "") (certFingerprint.getD "") with
        | some true => .ok ()
        | some false => .error (.http 403 "worker ID is bound to a different device certificate")
        | none => .error (.uncaught "TypeError")
  | _, _ => .ok ()

/-- Answers whether the worker is approved, and its device code. -/
def enroll (bindDeviceIdentity : Bool) (e : Enrollment) (db : Db) :
    Outcome (Except Failure (Bool × Option String)) :=
  let existing := db.workers.find? e.capability.workerId
  match checkBinding bindDeviceIdentity existing e.certFingerprint with
  | .error failure => { db := db, answer := .error failure }
  | .ok () =>
      let row := existing.elim (WorkerRow.enrolled e) (WorkerRow.reenrolled e)
      { db := { db with workers :=
          db.workers.upsert (.enrolled e) (WorkerRow.reenrolled e) (fun _ => rfl) }
        answer := .ok (row.approved, row.deviceCode) }

def WorkerRow.derive (tier : String) (row : WorkerRow) : WorkerRow :=
  if row.tierPinned then row else { row with trustTier := tier }

theorem derive_workerId (tier : String) (row : WorkerRow) :
    (row.derive tier).workerId = row.workerId := by
  unfold WorkerRow.derive
  split <;> rfl

/-- Store a derived tier unless an admin pinned one; answers whether it did. -/
def applyDerivedTier (workerId tier : String) (db : Db) : Outcome Bool :=
  match db.workers.find? workerId with
  | some row =>
      if row.tierPinned then { db := db, answer := false }
      else
        { db := db.updateWorker workerId (WorkerRow.derive tier) (derive_workerId tier)
          answer := true }
  | none => { db := db, answer := false }

/-! ## jobs_next -/

def loadScore (cpuPct gpuPct : Option PyFloat) : PyFloat :=
  PyFloat.pyMax (PyFloat.orZero cpuPct) (PyFloat.orZero gpuPct)

def WorkerRow.load (row : WorkerRow) : PyFloat := loadScore row.cpuPct row.gpuPct

def busy (db : Db) (workerId : String) : Bool := db.jobs.rows.any (JobRow.leasedTo workerId)

/-- A job older than the grace period, of 1.5 seconds, is not held back. -/
def pastGrace (now createdAt : Time) : Bool :=
  decide (createdAt + 1500000 ≤ now)

/-- Heartbeats of the last 3 seconds count as live. -/
def livePeer (db : Db) (workerId : String) (now : Time) (peer : WorkerRow) : Bool :=
  decide (peer.workerId ≠ workerId) && peer.approved && !peer.blacklisted &&
    (match peer.lastHeartbeat with
      | some t => decide (now ≤ t + PyTime.seconds 3)
      | none => false) &&
    !busy db peer.workerId

def deferToLessLoaded (db : Db) (workerId : String) (jobCreatedAt now : Time) : Bool :=
  if pastGrace now jobCreatedAt then false
  else
    match db.workers.find? workerId with
    | none => false
    | some me => (db.workers.rows.filter (livePeer db workerId now)).any fun peer =>
        PyFloat.le (.fin 15) (PyFloat.sub me.load peer.load)

inductive Poll where
  | busy
  | noJob
  | deferred
  | granted (job : JobRow)

def JobRow.lease (workerId : String) (clock : Time) (job : JobRow) : JobRow :=
  { job with
    state := .leased
    assignedWorker := some workerId
    leaseExpires := some (leaseDeadline clock)
    attempts := job.attempts + 1
    updatedAt := clock }

def grant (workerId jobId : String) (clock : Time) (db : Db) : Db :=
  let db := db.updateJobs (fun j => decide (j.jobId = jobId) && decide (j.state = .queued))
    (JobRow.lease workerId clock) (fun _ => rfl)
  db.updateWorker workerId (fun w => { w with idle := false, lastHeartbeat := some clock })
    (fun _ => rfl)

/-- `cap` and `freeRamGb` come from the row read before the lock. -/
def assignNext (workerId : String) (cap : Capability) (freeRamGb : Option PyFloat) (clock : Time)
    (db : Db) : Outcome Poll :=
  if busy db workerId then { db := db, answer := .busy }
  else
    match pickJobFor db cap freeRamGb with
    | none => { db := db, answer := .noJob }
    | some job =>
        if deferToLessLoaded db workerId job.createdAt clock then { db := db, answer := .deferred }
        else { db := grant workerId job.jobId clock db, answer := .granted job }

/-! ## heartbeat -/

def WorkerRow.beat (measurementOnly : Bool) (req : HeartbeatRequest) (now : Time)
    (row : WorkerRow) : WorkerRow :=
  if measurementOnly then
    { row with
      idle := true
      cpuPct := some (.fin 0)
      gpuPct := none
      onAc := false
      freeRamGb := none
      lastHeartbeat := some now }
  else
    { row with
      idle := req.idle
      cpuPct := sqlReal req.cpuPct
      gpuPct := req.gpuPct.bind sqlReal
      onAc := req.onAc
      freeRamGb := (req.freeRamGb.bind sqlReal).orElse (fun _ => row.freeRamGb)
      lastHeartbeat := some now }

theorem beat_workerId (m : Bool) (req : HeartbeatRequest) (now : Time) (row : WorkerRow) :
    (row.beat m req now).workerId = row.workerId := by
  cases m <;> rfl

def JobRow.extended (now clock : Time) (job : JobRow) : JobRow :=
  { job with leaseExpires := some (leaseDeadline clock), updatedAt := now }

def extendLease (workerId jobId : String) (now clock : Time) (db : Db) : Db :=
  db.updateJobs
    (fun j => decide (j.jobId = jobId) && j.leasedTo workerId &&
      (match j.leaseExpires with | some t => decide (now < t) | none => false))
    (JobRow.extended now clock) (fun _ => rfl)

/-- Requeue the job if its lease has lapsed, then extend the lease if it has not. -/
def renewLease (workerId jobId : String) (now clock : Time) (db : Db) : Db :=
  extendLease workerId jobId now clock
    (requeue now (fun j => decide (j.jobId = jobId) && j.leasedTo workerId && j.lapsedBy now) db)

def recordHeartbeat (measurementOnly : Bool) (req : HeartbeatRequest) (now clock : Time) (db : Db) :
    Db :=
  let db := db.updateWorker req.workerId (WorkerRow.beat measurementOnly req now)
    (beat_workerId measurementOnly req now)
  match req.currentJobId with
  | some jobId =>
      if !measurementOnly && decide (jobId ≠ "") then renewLease req.workerId jobId now clock db
      else db
  | none => db

/-! ## approve, set_tier, disconnect_worker -/

def approveWorker (workerId : String) (db : Db) : Db :=
  db.updateWorker workerId (fun w => { w with approved := true, deviceCode := none }) (fun _ => rfl)

def assignTier (workerId tier : String) (db : Db) : Db :=
  db.updateWorker workerId (fun w => { w with trustTier := tier, tierPinned := true })
    (fun _ => rfl)

def removeWorker (workerId : String) (now : Time) (db : Db) : Db :=
  let db := requeue now (JobRow.leasedTo workerId) db
  { db with
    profiles := db.profiles.delete (fun p => decide (p.workerId = workerId))
    workers := db.workers.delete (fun w => decide (w.workerId = workerId)) }

/-! ## ingest_profile -/

def ProfileRow.of (workerId : String) (compact : CompactProfile) (now : Time) : ProfileRow :=
  ⟨workerId, compact.toJson, compact.coverageBuckets, now⟩

def ProfileRow.replacedBy (new : ProfileRow) (row : ProfileRow) : ProfileRow :=
  { row with
    bucketsJson := new.bucketsJson
    coverage := new.coverage
    updatedAt := new.updatedAt }

def storeProfile (workerId : String) (compact : CompactProfile) (now : Time) (db : Db) : Db :=
  let row := ProfileRow.of workerId compact now
  { db with profiles := db.profiles.upsert row row.replacedBy (fun _ => rfl) }

/-! ## results -/

/-- `value * value + 1`; `none` is the `TypeError`. -/
def squarePlusOne : Json → Option Json
  | .bool b => some (.int (if b then 2 else 1))
  | .int i => some (.int (i * i + 1))
  | .float x => some (.float (PyFloat.add (PyFloat.mul x x) (PyFloat.ofInt 1)))
  | _ => none

def outputJson (output : Dict) : String := Json.dumps {} (.obj output)

/-- `req.output or {}`. -/
def ResultRequest.outputOrEmpty (req : ResultRequest) : Dict := req.output.getD []

def proofMismatch (req : ResultRequest) : Bool :=
  match req.proofSha256 with
  | some proof => decide (proof ≠ "") && decide (proof ≠ sha256Hex (.obj req.outputOrEmpty))
  | none => false

/-- Whether the output passes the job's challenge, if the job is one. -/
def passesChallenge (job : JobRow) (output : Dict) : Except Failure Bool :=
  if job.manifestJson.kind = .challenge then
    match Json.lookup job.inputJson "x" with
    | none => .error (.uncaught "KeyError")
    | some x =>
        match squarePlusOne x with
        | none => .error (.uncaught "TypeError")
        | some y => .ok (checkChallenge output [("y", y)])
  else .ok true

/-- The job's units times the weight of what its manifest requires. -/
def creditsFor (job : JobRow) : PyFloat :=
  PyFloat.mul (PyFloat.ofInt job.units) (if job.manifestJson.requires.needsGpu then .fin 5 else .fin 1)

def refused (reason : String) : ResultResponse := { accepted := false, reason := some reason }

def requeueFor (workerId jobId : String) (now : Time) (db : Db) : Db :=
  requeue now (fun j => decide (j.jobId = jobId) && j.leasedTo workerId) db

def blacklistWorker (workerId : String) (db : Db) : Db :=
  db.updateWorker workerId (fun w => { w with blacklisted := true }) (fun _ => rfl)

def JobRow.complete (output : Dict) (now : Time) (job : JobRow) : JobRow :=
  { job with state := .completed, resultJson := some output, leaseExpires := none, updatedAt := now }

def LedgerRow.completed (workerId jobId : String) (credits : PyFloat) (now : Time) (id : Nat) :
    LedgerRow :=
  { id := id
    workerId := workerId
    jobId := some jobId
    credits := credits
    reason := some "completed"
    createdAt := now }

theorem completed_id (workerId jobId : String) (credits : PyFloat) (now : Time) (id : Nat) :
    (LedgerRow.completed workerId jobId credits now id).id = id := rfl

def completeJob (workerId jobId : String) (output : Dict) (credits : PyFloat) (now : Time) (db : Db) :
    Db :=
  let db := db.updateJobs (fun j => decide (j.jobId = jobId) && j.leasedTo workerId)
    (JobRow.complete output now) (fun _ => rfl)
  { db with
    ledger := db.ledger.insert (.completed workerId jobId credits now)
      (completed_id workerId jobId credits now) }

def settle (jobId : String) (req : ResultRequest) (now : Time) (db : Db) :
    Outcome (Except Failure ResultResponse) :=
  match db.jobs.find? jobId with
  | none => { db := db, answer := .error (.http 404 "job not found") }
  | some job =>
      let output := req.outputOrEmpty
      if !job.leasedTo req.workerId then { db := db, answer := .ok (refused "not_leased") }
      else if job.leaseExpires = none || job.lapsedBy now then
        { db := requeueFor req.workerId jobId now db, answer := .ok (refused "lease_expired") }
      else if maxResultOutputBytes < (outputJson output).length then
        { db := db, answer := .ok (refused "payload_too_large") }
      else
        match req.status with
        | .completed =>
            if proofMismatch req then
              { db := requeueFor req.workerId jobId now db, answer := .ok (refused "invalid_proof") }
            else
              match passesChallenge job output with
              | .error failure => { db := db, answer := .error failure }
              | .ok false =>
                  { db := requeueFor req.workerId jobId now (blacklistWorker req.workerId db)
                    emits := [⟨"blacklisted", some req.workerId, some jobId,
                      some "failed integrity challenge"⟩]
                    answer := .ok (refused "cheater_blacklisted") }
              | .ok true =>
                  { db := completeJob req.workerId jobId output (creditsFor job) now db
                    emits := [⟨"completed", some req.workerId, some jobId,
                      some ("+" ++ PyFloat.formatG (creditsFor job) ++ " credits")⟩]
                    answer := .ok { accepted := true, credited := creditsFor job } }
        | .failed | .yielded =>
            { db := requeueFor req.workerId jobId now db
              emits := [⟨req.status.text, some req.workerId, some jobId, none⟩]
              answer := .ok (refused req.status.text) }

end OneCompute
