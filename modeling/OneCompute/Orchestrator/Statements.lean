import OneCompute.Lib.RelyGuarantee
import OneCompute.Orchestrator.App

/-!
The write-locked sections statement by statement, over one connection that every
thread shares. A statement takes the lock for itself, what it changes is seen by the
connection at once and is durable after the next commit. A crash loses what was not
committed and every request in progress.
-/

namespace OneCompute
open Interleaving (Prog)
open Locking (execute locked attempt)

/-- The clock, what the connection sees, and what a restarted process would find. -/
structure Store where
  clock : Time
  mem : Db
  disk : Db

/-- A query fetches its rows under the lock; they are computed from what it saw. A
statement that changes rows may raise. -/
inductive Sql where
  | select
  | modify (f : Db → Except Failure Db)
  | commit

abbrev SqlAnswer : Sql → Type
  | .select => Db
  | .modify _ => Except Failure Unit
  | .commit => Unit

def runSql : (q : Sql) → Store → Store × SqlAnswer q
  | .select, s => (s, s.mem)
  | .modify f, s =>
      match f s.mem with
      | .ok mem => ({ s with mem := mem }, .ok ())
      | .error e => (s, .error e)
  | .commit, s => ({ s with disk := s.mem }, ())

abbrev Section (A : Type) := Locking.Code (C := Cmd) SqlAnswer Ret Failure A

def select : Section Db := execute Sql.select

def tryModify (f : Db → Except Failure Db) : Section Unit :=
  execute (Sql.modify f) >>= Prog.ofExcept

def modifyRows (f : Db → Db) : Section Unit := tryModify fun db => .ok (f db)

def commit : Section Unit := execute Sql.commit

/-- `datetime.now(UTC)`. -/
def readClock : Section Time := .call (.free .now) .ret

/-! ## Sections -/

/-- The three columns of a lease are set with two readings of the clock. -/
def JobRow.leaseAt (workerId : String) (deadlineClock now : Time) (job : JobRow) : JobRow :=
  { job with
    state := .leased
    assignedWorker := some workerId
    leaseExpires := some (leaseDeadline deadlineClock)
    attempts := job.attempts + 1
    updatedAt := now }

theorem leaseAt_jobId (workerId : String) (deadlineClock now : Time) (job : JobRow) :
    (job.leaseAt workerId deadlineClock now).jobId = job.jobId := rfl

def leaseJob (workerId jobId : String) (deadlineClock now : Time) (db : Db) : Db :=
  db.updateJobs (fun j => decide (j.jobId = jobId) && decide (j.state = .queued))
    (JobRow.leaseAt workerId deadlineClock now) (leaseAt_jobId workerId deadlineClock now)

def WorkerRow.busyAt (now : Time) (w : WorkerRow) : WorkerRow :=
  { w with idle := false, lastHeartbeat := some now }

theorem busyAt_workerId (now : Time) (w : WorkerRow) :
    (w.busyAt now).workerId = w.workerId := rfl

def occupy (workerId : String) (now : Time) (db : Db) : Db :=
  db.updateWorker workerId (WorkerRow.busyAt now) (busyAt_workerId now)

def emitSection (e : Emission) : Section Unit := do
  let prev ← select
  let ts ← readClock
  modifyRows fun db =>
    { db with
      events := db.events.insert (EventRow.make (tailHash prev.events.rows) ts e) (make_id _ ts e) }
  commit

theorem enrolledAgain_workerId (e : Enrollment) (row : WorkerRow) :
    (row.reenrolled e).workerId = row.workerId := rfl

def enrollSection (bindDeviceIdentity : Bool) (e : Enrollment) :
    Section (Bool × Option String) := do
  let seen ← select
  Prog.ofExcept (checkBinding bindDeviceIdentity (seen.workers.find? e.capability.workerId)
    e.certFingerprint)
  modifyRows fun db =>
    { db with
      workers := db.workers.upsert (.enrolled e) (WorkerRow.reenrolled e) (enrolledAgain_workerId e) }
  commit
  let seen ← select
  match seen.workers.find? e.capability.workerId with
  | some row => return (row.approved, row.deviceCode)
  | none => .raise (.uncaught "TypeError")

def applyDerivedTierSection (workerId tier : String) : Section Bool := do
  let seen ← select
  match seen.workers.find? workerId with
  | none => return false
  | some row =>
      if row.tierPinned then return false
      else do
        modifyRows fun db => db.updateWorker workerId (WorkerRow.derive tier) (derive_workerId tier)
        commit
        return true

def insertJobSection (s : Submission) : Section Unit := do
  tryModify fun db => (insertJob s db).answer.map fun _ => (insertJob s db).db
  commit

def reapSection : Section Unit := do
  let updatedAt ← readClock
  let now ← readClock
  modifyRows (requeue updatedAt fun job => decide (job.state = .leased) &&
    (match job.leaseExpires with | some t => decide (t < now) | none => false))
  commit

def pickSection (cap : Capability) (freeRamGb : Option PyFloat) : Section (Option JobRow) := do
  let tiers ← select
  let queue ← select
  return (queuedJobs queue).find? (eligible cap freeRamGb (trustTierOf tiers cap.workerId))

def deferSection (workerId : String) (jobCreatedAt : Time) : Section Bool := do
  let now ← readClock
  if pastGrace now jobCreatedAt then return false
  else do
    let seen ← select
    match seen.workers.find? workerId with
    | none => return false
    | some me => do
        let peers ← select
        return (peers.workers.rows.filter (livePeer peers workerId now)).any fun peer =>
          PyFloat.le (.fin 15) (PyFloat.sub me.load peer.load)

def assignSection (workerId : String) (cap : Capability) (freeRamGb : Option PyFloat) :
    Section Poll := do
  let seen ← select
  if busy seen workerId then return .busy
  else do
    let picked ← pickSection cap freeRamGb
    match picked with
    | none => return .noJob
    | some job => do
        let deferred ← deferSection workerId job.createdAt
        if deferred then return .deferred
        else do
          let deadlineClock ← readClock
          let now ← readClock
          modifyRows (leaseJob workerId job.jobId deadlineClock now)
          modifyRows (occupy workerId now)
          commit
          return .granted job

def heartbeatSection (measurementOnly : Bool) (req : HeartbeatRequest) (now : Time) :
    Section Unit := do
  modifyRows fun db => db.updateWorker req.workerId (WorkerRow.beat measurementOnly req now)
    (beat_workerId measurementOnly req now)
  match req.currentJobId with
  | some jobId =>
      if !measurementOnly && decide (jobId ≠ "") then do
        modifyRows (requeue now fun j =>
          decide (j.jobId = jobId) && j.leasedTo req.workerId && j.lapsedBy now)
        let clock ← readClock
        modifyRows (extendLease req.workerId jobId now clock)
        commit
      else commit
  | none => commit

def removeSection (workerId : String) (now : Time) : Section Unit := do
  modifyRows (requeue now (JobRow.leasedTo workerId))
  modifyRows fun db =>
    { db with profiles := db.profiles.delete (fun p => decide (p.workerId = workerId)) }
  modifyRows fun db =>
    { db with workers := db.workers.delete (fun w => decide (w.workerId = workerId)) }
  commit

/-- Change rows, commit, append the event under the same lock, and answer. -/
def commitThen (e : Emission) (response : ResultResponse) : Section ResultResponse := do
  commit
  locked (emitSection e)
  return response

def requeueThen (workerId jobId : String) (now : Time) (reason : String) :
    Section ResultResponse := do
  modifyRows (requeueFor workerId jobId now)
  commit
  return refused reason

def settleSection (jobId : String) (req : ResultRequest) (now : Time) : Section ResultResponse := do
  let seen ← select
  match seen.jobs.find? jobId with
  | none => .raise (.http 404 "job not found")
  | some job =>
      let output := req.outputOrEmpty
      if !job.leasedTo req.workerId then return refused "not_leased"
      else if job.leaseExpires = none || job.lapsedBy now then
        requeueThen req.workerId jobId now "lease_expired"
      else if maxResultOutputBytes < (outputJson output).length then
        return refused "payload_too_large"
      else
        match req.status with
        | .completed =>
            if proofMismatch req then requeueThen req.workerId jobId now "invalid_proof"
            else
              match passesChallenge job output with
              | .error failure => .raise failure
              | .ok false => do
                  modifyRows (blacklistWorker req.workerId)
                  modifyRows (requeueFor req.workerId jobId now)
                  commitThen ⟨"blacklisted", some req.workerId, some jobId,
                    some "failed integrity challenge"⟩ (refused "cheater_blacklisted")
              | .ok true => do
                  modifyRows fun db => db.updateJobs
                    (fun j => decide (j.jobId = jobId) && j.leasedTo req.workerId)
                    (JobRow.complete output now) (fun _ => rfl)
                  modifyRows fun db =>
                    { db with
                      ledger := db.ledger.insert
                        (.completed req.workerId jobId (creditsFor job) now)
                        (completed_id req.workerId jobId (creditsFor job) now) }
                  commitThen ⟨"completed", some req.workerId, some jobId,
                    some ("+" ++ PyFloat.formatG (creditsFor job) ++ " credits")⟩
                    { accepted := true, credited := creditsFor job }
        | .failed | .yielded => do
            modifyRows (requeueFor req.workerId jobId now)
            commitThen ⟨req.status.text, some req.workerId, some jobId, none⟩
              (refused req.status.text)

/-- Change rows and commit. -/
def modifySection (f : Db → Db) : Section Unit := do
  modifyRows f
  commit

/-- One query outside a section. -/
def fetch {A : Type} (rows : Db → A) : Section A := .call (.stmt .select) fun db => .ret (rows db)

/-- The statements of a command; the clock and random identifiers need no lock. -/
def sectionOf : (c : Cmd) → Option (Section (Ret c))
  | .now => none
  | .uuid4 => none
  | .workerRow workerId => some (fetch fun db => db.workers.find? workerId)
  | .activeWorkers => some (fetch activeWorkers)
  | .emit e => some (emitSection e)
  | .enroll bind e => some (attempt (enrollSection bind e))
  | .applyDerivedTier workerId tier => some (applyDerivedTierSection workerId tier)
  | .insertJob s => some (attempt (insertJobSection s))
  | .reapExpired => some reapSection
  | .assignNext workerId cap free => some (assignSection workerId cap free)
  | .recordHeartbeat m req now => some (heartbeatSection m req now)
  | .approveWorker workerId => some (modifySection (approveWorker workerId))
  | .assignTier workerId tier => some (modifySection (assignTier workerId tier))
  | .removeWorker workerId now => some (removeSection workerId now)
  | .settle jobId req now => some (attempt (settleSection jobId req now))
  | .storeProfile workerId compact now => some (modifySection (storeProfile workerId compact now))
  | .query => some (fetch id)

/-- What the commands without a section answer. -/
def freeAnswer : (c : Cmd) → Nat → Store → Ret c
  | c, input, s => (runCommand input ⟨s.clock, s.mem⟩ c).answer

/-- The process: requests run on threads of one pool, over the shared connection. -/
def process (cfg : Config) :
    Locking.Semantics SqlAnswer Ret Failure Reply Store Nat Call Time where
  stmt := runSql
  free := freeAnswer
  body := sectionOf
  start := handle cfg
  disturb clock s := { s with clock := clock }
  crash s := { s with mem := s.disk }

abbrev ProcessMove := Locking.Move Call Nat Time

/-- A process started on a database with `db` in it. -/
def processRun (cfg : Config) (clock : Time) (db : Db) (ms : List ProcessMove) :
    Locking.Sys SqlAnswer Ret Failure Reply Store Call :=
  Locking.runs (process cfg) ⟨⟨clock, db, db⟩, none, []⟩ ms

end OneCompute
