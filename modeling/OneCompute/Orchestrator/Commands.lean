import OneCompute.Lib.Interleaving
import OneCompute.Orchestrator.Sections
import OneCompute.Trust.Attestation

/-!
The atomic commands the endpoints are made of, and the gates they pass. A command
is a read of the clock, a random identifier, one query, one appended event, or
one write-locked section; any other request may be served between two of them.
-/

namespace OneCompute
open Interleaving (Prog)
open Interleaving.Prog (perform)

/-- What `create_app` was called with, and the code outside the repository that
the endpoints call: the signature scheme, the model serialiser, what encoding an
input raises (its text may hold surrogates, a `String` does not) and the workload
builders with their validation. -/
structure Config where
  requireApproval : Bool := false
  submitToken : Option String := none
  adminToken : Option String := none
  bindDeviceIdentity : Bool := false
  attestationPubkey : Option String := none
  foundryTenants : List (String × FoundryTenant) := []
  ed25519 : Verify := fun _ _ _ => false
  sign : List UInt8 → String := fun _ => ""
  publicKeyHex : String := ""
  manifestBytes : JobManifest → List UInt8 := fun _ => []
  encodingError : Dict → Option Failure := fun _ => none
  buildWorkloadJobs : String → Int → Dict → Option (List PyFloat) →
    Except Failure (List (Except String SubmitRequest)) := fun _ _ _ _ => .ok []

/-! ## Commands -/

inductive Cmd where
  | now
  | uuid4
  | workerRow (workerId : String)
  | activeWorkers
  | emit (e : Emission)
  | enroll (bindDeviceIdentity : Bool) (e : Enrollment)
  | applyDerivedTier (workerId tier : String)
  | insertJob (s : Submission)
  | reapExpired
  | assignNext (workerId : String) (cap : Capability) (freeRamGb : Option PyFloat)
  | recordHeartbeat (measurementOnly : Bool) (req : HeartbeatRequest) (now : Time)
  | approveWorker (workerId : String)
  | assignTier (workerId tier : String)
  | removeWorker (workerId : String) (now : Time)
  | settle (jobId : String) (req : ResultRequest) (now : Time)
  | storeProfile (workerId : String) (compact : CompactProfile) (now : Time)
  | query

abbrev Ret : Cmd → Type
  | .now => Time
  | .uuid4 => String
  | .workerRow _ => Option WorkerRow
  | .activeWorkers => List WorkerRow
  | .enroll _ _ => Except Failure (Bool × Option String)
  | .applyDerivedTier _ _ => Bool
  | .insertJob _ => Except Failure Unit
  | .assignNext _ _ _ => Poll
  | .settle _ _ _ => Except Failure ResultResponse
  | .query => Db
  | _ => Unit

/-- The approved workers that are not blacklisted, by identifier. -/
def activeWorkers (db : Db) : List WorkerRow :=
  (db.workers.rows.filter (fun w => w.approved && !w.blacklisted)).insertionSort
    (fun a b => a.workerId ≤ b.workerId)

/-- What a command does; `input` is the entropy it may draw. -/
def runCommand (input : Nat) (w : World) : (c : Cmd) → Outcome (Ret c)
  | .now => { db := w.db, answer := w.clock }
  | .uuid4 => { db := w.db, answer := PyText.uuidHex input }
  | .workerRow workerId => { db := w.db, answer := w.db.workers.find? workerId }
  | .activeWorkers => { db := w.db, answer := activeWorkers w.db }
  | .emit e => { db := w.db, emits := [e], answer := () }
  | .enroll bind e => enroll bind e w.db
  | .applyDerivedTier workerId tier => applyDerivedTier workerId tier w.db
  | .insertJob s => insertJob s w.db
  | .reapExpired => { db := reapExpired w.clock w.db, answer := () }
  | .assignNext workerId cap free => assignNext workerId cap free w.clock w.db
  | .recordHeartbeat m req now => { db := recordHeartbeat m req now w.clock w.db, answer := () }
  | .approveWorker workerId => { db := approveWorker workerId w.db, answer := () }
  | .assignTier workerId tier => { db := assignTier workerId tier w.db, answer := () }
  | .removeWorker workerId now => { db := removeWorker workerId now w.db, answer := () }
  | .settle jobId req now => settle jobId req now w.db
  | .storeProfile workerId compact now =>
      { db := storeProfile workerId compact now w.db, answer := () }
  | .query => { db := w.db, answer := w.db }

def exec (c : Cmd) (input : Nat) (w : World) : World × Ret c :=
  let out := runCommand input w c
  (⟨w.clock, emitAll w.clock out.db out.emits⟩, out.answer)

abbrev Handler := Prog Cmd Ret Failure

def emitEvent (type : String) (workerId jobId detail : Option String) : Handler Unit :=
  perform (Cmd.emit ⟨type, workerId, jobId, detail⟩)

/-! ## Gates -/

/-- Why a gate refuses, and the detail of the event it records, if it does. -/
structure Refusal where
  failure : Failure
  audit : Option String := none

def refuse {A : Type} (workerId : Option String) (r : Refusal) : Handler A :=
  match r.audit with
  | none => .raise r.failure
  | some detail => do
      emitEvent "auth_failed" workerId none (some detail)
      .raise r.failure

/-- The token in a bearer header. -/
def bearerToken (header : String) : String :=
  PyText.strip (PyText.removePrefix header "Bearer ")

/-- Compare the presented token with the expected one. -/
def checkBearer (label expected invalid : String) (authorization : Option String) :
    Except Refusal Unit :=
  let denied (detail : String) : Except Refusal Unit :=
    .error ⟨.http 401 detail, some (label ++ ": " ++ detail)⟩
  let header := authorization.getD ""
  if header = "" then denied "missing bearer token"
  else if PyText.startsWith header "Bearer " then
    if bearerToken header = "" then denied invalid
    else
      match PyText.compareDigest (bearerToken header) expected with
      | some true => .ok ()
      | some false => denied invalid
      | none => .error ⟨.uncaught "TypeError", none⟩
  else denied "invalid authorization scheme"

def requireBearer (label expected invalid : String) (authorization : Option String) :
    Handler Unit :=
  match checkBearer label expected invalid authorization with
  | .ok () => pure ()
  | .error r => refuse none r

def requireSubmitToken (cfg : Config) (authorization : Option String) : Handler Unit :=
  if cfg.submitToken.getD "" = "" then pure ()
  else requireBearer "submit" (cfg.submitToken.getD "") "invalid submit token" authorization

/-- The credential of device administration: the admin token, or else the submit
token. -/
def Config.effectiveAdminToken (cfg : Config) : String :=
  (cfg.adminToken.orElse (fun _ => cfg.submitToken)).getD ""

def requireAdminToken (cfg : Config) (authorization : Option String) : Handler Unit :=
  if cfg.effectiveAdminToken = "" then pure ()
  else requireBearer "admin" cfg.effectiveAdminToken "invalid admin token" authorization

def requireOperatorReadToken (cfg : Config) (authorization : Option String) : Handler Unit :=
  if cfg.adminToken = none then pure () else requireAdminToken cfg authorization

def authenticateFoundryTenant (cfg : Config) (tenantId : String) (authorization : Option String) :
    Handler FoundryTenant :=
  if cfg.foundryTenants.isEmpty then
    refuse none ⟨.http 401 "foundry ingestion disabled", some "foundry: ingestion disabled"⟩
  else
    match (cfg.foundryTenants.find? (fun p => p.1 == tenantId)).map (·.2) with
    | none => refuse none ⟨.http 401 "unknown tenant", some "foundry: unknown tenant"⟩
    | some tenant => do
        requireBearer "foundry" tenant.token "invalid tenant token" authorization
        return tenant

/-- The fingerprint the TLS layer put into the request, if it is one. -/
def verifiedClientFingerprint (certificate : Option String) : Option String :=
  match certificate with
  | none => none
  | some value =>
      let fingerprint := PyText.lower (PyText.strip value)
      if fingerprint.length = 64 && fingerprint.toList.all ("0123456789abcdef".toList.contains ·) then
        some fingerprint
      else none

/-- Whether a device-bound worker presented the certificate it is bound to. -/
def checkDevice (bindDeviceIdentity : Bool) (row : WorkerRow) (presented : Option String) :
    Except Refusal WorkerRow :=
  let stored := row.certFingerprint.getD ""
  if bindDeviceIdentity && decide (stored ≠ "") then
    let given := PyText.lower (PyText.strip (presented.getD ""))
    let mismatch : Except Refusal WorkerRow :=
      .error ⟨.http 401 "device_fingerprint_mismatch", some "device_fingerprint_mismatch"⟩
    if given = "" then mismatch
    else
      match PyText.compareDigest given stored with
      | some true => .ok row
      | some false => mismatch
      | none => .error ⟨.uncaught "TypeError", none⟩
  else .ok row

def checkWorkerToken (bindDeviceIdentity : Bool) (worker : Option WorkerRow)
    (authorization presented : Option String) : Except Refusal WorkerRow :=
  -- a request for a worker that does not exist leaves no event
  let denied (detail : String) : Except Refusal WorkerRow :=
    .error ⟨.http 401 detail, worker.map (fun _ => detail)⟩
  match authorization with
  | none => denied "missing bearer token"
  | some header =>
      if PyText.startsWith header "Bearer " then
        let stored := worker.elim (String.ofList (List.replicate 32 '0')) (·.token)
        if bearerToken header = "" then denied "invalid worker token"
        else
          match PyText.compareDigest (bearerToken header) stored, worker with
          | none, _ => .error ⟨.uncaught "TypeError", none⟩
          | some true, some row => checkDevice bindDeviceIdentity row presented
          | _, _ => denied "invalid worker token"
      else denied "invalid authorization scheme"

def requireWorkerToken (cfg : Config) (workerId : String)
    (authorization certificate : Option String) : Handler WorkerRow := do
  let worker ← perform (.workerRow workerId)
  match checkWorkerToken cfg.bindDeviceIdentity worker authorization
      (verifiedClientFingerprint certificate) with
  | .ok row => return row
  | .error r => refuse (some workerId) r

end OneCompute
