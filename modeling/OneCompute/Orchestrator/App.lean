import OneCompute.Orchestrator.Commands

/-!
The endpoints as programs over the atomic commands, and the machine that serves
any number of requests at once.
-/

namespace OneCompute
open Interleaving (Prog)
open Interleaving.Prog (perform)

inductive Reply where
  | registered (response : RegisterResponse)
  | submitted (jobId : String)
  | noContent
  | assignment (response : JobAssignment)
  | heartbeat (response : HeartbeatResponse)
  | ok (workerId : String) (trustTier : Option String)
  | result (response : ResultResponse)
  | launched (response : WorkloadLaunchResponse)
  | profile (response : ProfileIngestResponse)
  | measurement (response : MeasurementSummary)
  /-- What a read endpoint answers is computed from the states its queries saw. -/
  | read (seen : List Db)

/-- The body of a request is refused when it holds an integer that is too long
for the decoder. -/
def requireParsed (body : Dict) : Handler Unit :=
  if Json.withinDigits (.obj body) then pure ()
  else .raise (.http 400 "There was an error parsing the body")

/-! ## register -/

/-- What is kept of a registration: a measurement-only device advertises nothing. -/
def Capability.admitted (cap : Capability) : Capability :=
  if cap.measurementOnly then { workerId := cap.workerId, measurementOnly := true } else cap

def deviceCodeAlphabet : List Char := "ABCDEFGHJKLMNPQRSTUVWXYZ23456789".toList

/-- A short code from random hexadecimal digits: six characters, dash after four. -/
def makeDeviceCode (raw : String) : String :=
  let digit (c : Char) : Nat := "0123456789abcdef".toList.idxOf c
  let ds := raw.toList
  let chars := (List.range 6).map fun i =>
    deviceCodeAlphabet.getD ((digit (ds.getD (2 * i) '0') * 16 + digit (ds.getD (2 * i + 1) '0')) %
      deviceCodeAlphabet.length) 'A'
  String.ofList (chars.take 4 ++ '-' :: chars.drop 4)

/-- Derive and store a tier when an authority is configured and the attestation
verifies now. -/
def deriveRegisteredTier (cfg : Config) (cap : Capability) : Handler Unit :=
  match cap.attestation with
  | none => pure ()
  | some att =>
      if cfg.attestationPubkey.getD "" = "" then pure ()
      else do
        let now ← perform Cmd.now
        if verifyAttestation cfg.ed25519 att cfg.attestationPubkey cap.workerId now then do
          let applied ← perform (Cmd.applyDerivedTier cap.workerId (deriveTier att))
          if applied then
            emitEvent "tier_derived" (some cap.workerId) none (some (deriveTier att))
          else pure ()
        else pure ()

def freshDeviceCode (cfg : Config) : Handler (Option String) :=
  if cfg.requireApproval then do
    let raw ← perform Cmd.uuid4
    return some (makeDeviceCode raw)
  else pure none

def register (cfg : Config) (body : Capability) (certificate : Option String) : Handler Reply :=
  let cap := body.admitted
  let fingerprint := verifiedClientFingerprint certificate
  if cfg.bindDeviceIdentity && fingerprint = none then
    .raise (.http 401 "verified client certificate fingerprint required")
  else do
    let token ← perform Cmd.uuid4
    let now ← perform Cmd.now
    let deviceCode ← freshDeviceCode cfg
    let stored ← perform (Cmd.enroll cfg.bindDeviceIdentity
      { capability := cap
        token := token
        now := now
        approved := !cfg.requireApproval
        deviceCode := deviceCode
        certFingerprint := if cfg.bindDeviceIdentity then fingerprint else none })
    let (approved, code) ← Prog.ofExcept stored
    emitEvent "registered" (some cap.workerId) none (some (if cap.hasGpu then "gpu" else "cpu"))
    deriveRegisteredTier cfg cap
    return .registered
      { workerToken := token, deviceCode := if approved then none else code, approved := approved }

/-! ## Submission -/

/-- The input of a job has a canonical encoding to hash. -/
def requireEncodes (cfg : Config) (input : Dict) : Handler Unit :=
  match cfg.encodingError input with
  | none => pure ()
  | some failure => .raise failure

def submitJob (cfg : Config) (req : SubmitRequest) (workloadId : Option String)
    (provenance : Option RoutingProvenance) : Handler String :=
  if req.units ≤ 0 then .raise (.valueError "units must be positive")
  else do
    let jobId ← perform Cmd.uuid4
    requireEncodes cfg req.input
    let issuedAt ← perform Cmd.now
    let manifest : JobManifest :=
      { jobId := jobId
        kind := req.kind
        inputSha256 := sha256Hex (.obj req.input)
        requires := req.requires
        limits := req.limits
        dataClassification := req.dataClassification
        provenance := provenance
        issuedAt := issuedAt }
    let now ← perform Cmd.now
    let stored ← perform (Cmd.insertJob ⟨manifest, req.input, req.units, workloadId, now⟩)
    Prog.ofExcept stored
    return jobId

def valueErrorAs400 : Failure → Failure
  | .valueError text => .http 400 text
  | e => e

def submit (cfg : Config) (req : SubmitRequest) (authorization : Option String) : Handler Reply := do
  requireParsed req.input
  requireSubmitToken cfg authorization
  let jobId ← (submitJob cfg req none none).mapError valueErrorAs400
  emitEvent "submitted" none (some jobId) (some req.kind.text)
  return .submitted jobId

def foundryDetail (tenant : FoundryTenant) (rest : String) : String :=
  "tenant=" ++ tenant.tenantId ++ " " ++ rest

def foundryRoute (cfg : Config) (req : FoundryRoutingRequest) (authorization : Option String) :
    Handler Reply := do
  requireParsed req.input
  let tenant ← authenticateFoundryTenant cfg req.tenantId authorization
  let requested := req.dataClassification.text
  let ceiling := tenant.maxClassification.text
  if !classificationCleared requested ceiling then do
    emitEvent "foundry_denied" none none
      (some (foundryDetail tenant ("class=" ++ requested ++ " exceeds max=" ++ ceiling)))
    .raise (.http 403 "data_classification exceeds tenant clearance")
  else if !tenant.allowedRegions.contains req.region then do
    emitEvent "foundry_denied" none none
      (some (foundryDetail tenant ("region=" ++ req.region ++ " not permitted")))
    .raise (.http 403 "region not permitted for tenant")
  else do
    let submitReq : SubmitRequest :=
      { kind := req.kind
        input := req.input
        requires := req.requires.getD {}
        dataClassification := req.dataClassification
        units := req.units }
    let provenance : RoutingProvenance := { tenantId := tenant.tenantId, region := req.region }
    let jobId ← (submitJob cfg submitReq none (some provenance)).mapError valueErrorAs400
    emitEvent "foundry_routed" none (some jobId)
      (some (foundryDetail tenant ("region=" ++ req.region ++ " class=" ++ requested)))
    return .submitted jobId

/-! ## POST /workloads -/

def maxWorkloadTiles : Nat := 512

def oversubscribedTiles (workerCount factor : Nat) : Int :=
  max 1 (min (max workerCount 1 * max factor 1) maxWorkloadTiles : Nat)

def resolveTileCount (req : WorkloadLaunchRequest) : Handler Int :=
  match req.nTiles with
  | some n => pure (max 1 (min n maxWorkloadTiles))
  | none =>
      if 1 < req.oversubscribe then do
        let workers ← perform Cmd.activeWorkers
        return oversubscribedTiles workers.length req.oversubscribe
      else pure 3

/-- Capability times idle headroom times free memory, each bounded away from zero. -/
def workerWeight (classWeight : PyFloat) (freeRamGb : Option PyFloat) (loadPct : PyFloat) :
    PyFloat :=
  let f (q : Rat) : PyFloat := PyFloat.ofRat q
  let cw := if PyFloat.le classWeight (.fin 0) then .fin 1 else classWeight
  let load := PyFloat.pyMin (PyFloat.pyMax loadPct (.fin 0)) (.fin 100)
  let idleFactor := PyFloat.add (f (1 / 10))
    (PyFloat.mul (PyFloat.sub (.fin 1) (f (1 / 10))) (PyFloat.sub (.fin 1) (load.divBy 100)))
  let ramFactor :=
    match freeRamGb with
    | none => .fin 1
    | some free => PyFloat.add (f (1 / 2)) (PyFloat.mul (PyFloat.sub (.fin 1) (f (1 / 2)))
        (PyFloat.pyMin ((PyFloat.pyMax free (.fin 0)).divBy 8) (.fin 1)))
  PyFloat.mul (PyFloat.mul cw idleFactor) ramFactor

def capabilityTileWeights (workers : List WorkerRow) (nTiles : Int) : Option (List PyFloat) :=
  if workers = [] ∨ (workers.length : Int) ≠ nTiles then none
  else
    let weights := workers.map fun w => workerWeight w.classWeight w.freeRamGb w.load
    let high := weights.foldl PyFloat.pyMax (weights.headD (.fin 0))
    let low := weights.foldl PyFloat.pyMin (weights.headD (.fin 0))
    if PyFloat.le (PyFloat.sub high low) (PyFloat.ofRat (1 / 1000000000)) then none
    else some weights

/-- Enqueue the tiles one after the other; the first that fails ends the launch. -/
def launchTiles (cfg : Config) (kind workloadId : String) :
    List (Except String SubmitRequest) → Handler (List String)
  | [] => pure []
  | .error text :: _ => .raise (.http 400 ("invalid job spec: " ++ text))
  | .ok sub :: rest => do
      let jobId ← submitJob cfg sub (some workloadId) none
      emitEvent "submitted" none (some jobId) (some kind)
      let jobIds ← launchTiles cfg kind workloadId rest
      return jobId :: jobIds

def buildErrorAs400 : Failure → Failure
  | .valueError text => .http 400 ("could not build workload: " ++ text)
  | e => e

def launchWorkload (cfg : Config) (req : WorkloadLaunchRequest) (authorization : Option String) :
    Handler Reply := do
  requireParsed req.params
  requireSubmitToken cfg authorization
  if !launchableKinds.contains req.kind then
    .raise (.http 400 ("kind must be one of " ++ PyText.reprList launchableKinds))
  else do
    let nTiles ← resolveTileCount req
    let workers ← perform Cmd.activeWorkers
    let built := cfg.buildWorkloadJobs req.kind nTiles req.params
      (capabilityTileWeights workers nTiles)
    let specs ← (Prog.ofExcept built : Handler _).mapError buildErrorAs400
    let workloadId ← perform Cmd.uuid4
    let jobIds ← launchTiles cfg req.kind workloadId specs
    return .launched { workloadId := workloadId, kind := req.kind, jobIds := jobIds }

/-! ## Worker calls -/

def signManifest (cfg : Config) (manifest : JobManifest) : SignedManifest :=
  { manifest := manifest
    signature := cfg.sign (cfg.manifestBytes manifest)
    publicKey := cfg.publicKeyHex }

def jobsNext (cfg : Config) (workerId : String) (authorization certificate : Option String) :
    Handler Reply := do
  let worker ← requireWorkerToken cfg workerId authorization certificate
  if worker.blacklisted then return .noContent
  else if !worker.approved then return .noContent
  else do
    perform Cmd.reapExpired
    match worker.capabilityJson.reload? with
    | none => .raise (.uncaught "ValidationError")
    | some cap =>
        if cap.measurementOnly then return .noContent
        else do
          let poll ← perform (Cmd.assignNext workerId cap worker.freeRamGb)
          match poll with
          | .granted job => do
              emitEvent "assigned" (some workerId) (some job.jobId)
                (some job.manifestJson.kind.text)
              return .assignment
                { signedManifest := signManifest cfg job.manifestJson, input := job.inputJson }
          | _ => return .noContent

def heartbeat (cfg : Config) (req : HeartbeatRequest) (authorization certificate : Option String) :
    Handler Reply := do
  let worker ← requireWorkerToken cfg req.workerId authorization certificate
  match worker.capabilityJson.reload? with
  | none => .raise (.uncaught "ValidationError")
  | some cap => do
      let now ← perform Cmd.now
      perform (Cmd.recordHeartbeat cap.measurementOnly req now)
      return .heartbeat { approved := worker.approved }

def results (cfg : Config) (jobId : String) (req : ResultRequest)
    (authorization certificate : Option String) : Handler Reply := do
  requireParsed req.outputOrEmpty
  if req.jobId ≠ jobId then .raise (.http 400 "job id mismatch")
  else do
    let worker ← requireWorkerToken cfg req.workerId authorization certificate
    if worker.blacklisted then return .result (refused "blacklisted")
    else do
      let now ← perform Cmd.now
      let settled ← perform (Cmd.settle jobId req now)
      let response ← Prog.ofExcept settled
      return .result response

/-! ## Device administration -/

def workerOr404 (workerId : String) : Handler WorkerRow := do
  let worker ← perform (Cmd.workerRow workerId)
  match worker with
  | none => .raise (.http 404 "worker not found")
  | some row => return row

def approve (cfg : Config) (workerId : String) (authorization : Option String) : Handler Reply := do
  requireAdminToken cfg authorization
  let _ ← workerOr404 workerId
  perform (Cmd.approveWorker workerId)
  emitEvent "approved" (some workerId) none (some "admitted via dashboard")
  return .ok workerId none

def setTier (cfg : Config) (workerId trustTier : String) (authorization : Option String) :
    Handler Reply := do
  requireAdminToken cfg authorization
  let _ ← workerOr404 workerId
  if !isValidTier trustTier then
    .raise (.http 400 ("unknown trust tier: " ++ PyText.repr trustTier ++ "; valid: " ++
      PyText.reprList tiers))
  else do
    perform (Cmd.assignTier workerId trustTier)
    emitEvent "tier_assigned" (some workerId) none (some trustTier)
    return .ok workerId (some trustTier)

def disconnectWorker (cfg : Config) (workerId : String) (authorization : Option String) :
    Handler Reply := do
  requireAdminToken cfg authorization
  let _ ← workerOr404 workerId
  let now ← perform Cmd.now
  perform (Cmd.removeWorker workerId now)
  emitEvent "removed" (some workerId) none (some "disconnected via dashboard")
  return .ok workerId none

/-! ## Measurement -/

def ingestProfile (cfg : Config) (req : ProfileReport)
    (authorization certificate : Option String) : Handler Reply := do
  let worker ← requireWorkerToken cfg req.workerId authorization certificate
  if !worker.approved then .raise (.http 403 "worker is pending approval")
  else
    match sanitizeProfileReport PyNumber.binary64 req with
    | .error exception => .raise (.uncaught exception)
    | .ok compact => do
        let now ← perform Cmd.now
        perform (Cmd.storeProfile req.workerId compact now)
        return .profile { coverageBuckets := compact.coverageBuckets }

def measurement (cfg : Config) (authorization : Option String) : Handler Reply := do
  requireOperatorReadToken cfg authorization
  let db ← perform Cmd.query
  match measurementOf PyNumber.binary64 (db.profiles.rows.map (·.bucketsJson)) with
  | .error exception => .raise (.uncaught exception)
  | .ok summary => return .measurement summary

/-! ## Other reads -/

def queries : Nat → Handler (List Db)
  | 0 => pure []
  | n + 1 => do
      let db ← perform Cmd.query
      let rest ← queries n
      return db :: rest

/-- An endpoint that only reads, with `n` queries. -/
def operatorRead (cfg : Config) (n : Nat) (authorization : Option String) : Handler Reply := do
  requireOperatorReadToken cfg authorization
  let seen ← queries n
  return .read seen

/-! ## The machine -/

inductive Call where
  | register (body : Capability) (certificate : Option String)
  | submit (req : SubmitRequest) (authorization : Option String)
  | foundryRoute (req : FoundryRoutingRequest) (authorization : Option String)
  | launchWorkload (req : WorkloadLaunchRequest) (authorization : Option String)
  | jobsNext (workerId : String) (authorization certificate : Option String)
  | heartbeat (req : HeartbeatRequest) (authorization certificate : Option String)
  | results (jobId : String) (req : ResultRequest) (authorization certificate : Option String)
  | approve (workerId : String) (authorization : Option String)
  | setTier (workerId trustTier : String) (authorization : Option String)
  | disconnectWorker (workerId : String) (authorization : Option String)
  | ingestProfile (req : ProfileReport) (authorization certificate : Option String)
  | measurement (authorization : Option String)
  | operatorRead (queries : Nat) (authorization : Option String)

def handle (cfg : Config) : Call → Handler Reply
  | .register body cert => register cfg body cert
  | .submit req auth => submit cfg req auth
  | .foundryRoute req auth => foundryRoute cfg req auth
  | .launchWorkload req auth => launchWorkload cfg req auth
  | .jobsNext w auth cert => jobsNext cfg w auth cert
  | .heartbeat req auth cert => heartbeat cfg req auth cert
  | .results j req auth cert => results cfg j req auth cert
  | .approve w auth => approve cfg w auth
  | .setTier w tier auth => setTier cfg w tier auth
  | .disconnectWorker w auth => disconnectWorker cfg w auth
  | .ingestProfile req auth cert => ingestProfile cfg req auth cert
  | .measurement auth => measurement cfg auth
  | .operatorRead n auth => operatorRead cfg n auth

/-- Requests are served concurrently; the environment sets the clock. -/
def machine (cfg : Config) : Interleaving.Semantics Cmd Ret Failure Reply World Nat Call Time where
  exec := exec
  start := handle cfg
  disturb clock w := { w with clock := clock }

abbrev Move := Interleaving.Move Call Nat Time
abbrev Performed := Interleaving.Performed Cmd Ret Call Nat World
abbrev Sys := Interleaving.Sys Cmd Ret Failure Reply World Call

/-- A fresh database, before any request. -/
def World.fresh (clock : Time) : World := ⟨clock, .empty⟩

def run (cfg : Config) (clock : Time) (ms : List Move) : Sys :=
  Interleaving.runs (machine cfg) ⟨.fresh clock, []⟩ ms

def runTrace (cfg : Config) (clock : Time) (ms : List Move) : List Performed :=
  Interleaving.trace (machine cfg) ⟨.fresh clock, []⟩ ms

/-- The command that `m` performs after the run `ms`. -/
def performedAt (cfg : Config) (clock : Time) (ms : List Move) (m : Move) : Option Performed :=
  Interleaving.performed (run cfg clock ms) m

theorem runTrace_snoc (cfg : Config) (clock : Time) (ms : List Move) (m : Move) :
    runTrace cfg clock (ms ++ [m]) =
      runTrace cfg clock ms ++ (performedAt cfg clock ms m).toList :=
  Interleaving.trace_snoc _ _ _ _

theorem runTrace_mono {cfg : Config} {clock : Time} {ms : List Move} {p : Performed}
    (h : p ∈ runTrace cfg clock ms) (ns : List Move) : p ∈ runTrace cfg clock (ms ++ ns) := by
  rw [runTrace, Interleaving.trace_append]
  exact List.mem_append_left _ h

theorem run_post {cfg : Config} {clock : Time} {ms : List Move} {m : Move} {p : Performed}
    (hp : performedAt cfg clock ms m = some p) :
    (run cfg clock (ms ++ [m])).state = p.post (machine cfg) := by
  rw [run, Interleaving.runs_snoc]
  exact Interleaving.step_performed hp

/-- Rule of induction over the runs of the machine from a fresh database. -/
theorem run_induction (cfg : Config) (clock : Time) {I : List Move → World → Prop}
    (start : I [] (.fresh clock))
    (command : ∀ ms m p, performedAt cfg clock ms m = some p → I ms p.pre →
      I (ms ++ [m]) (p.post (machine cfg)))
    (disturb : ∀ ms t w, I ms w → I (ms ++ [.disturb t]) { w with clock := t })
    (idle : ∀ ms m w, performedAt cfg clock ms m = none → I ms w → I (ms ++ [m]) w)
    (ms : List Move) : I ms (run cfg clock ms).state :=
  Interleaving.runs_induction (M := machine cfg) start command disturb idle ms

/-- The moves that serve one call alone, as thread number `thread`. -/
def serve (thread commands : Nat) (call : Call) : List Move :=
  .spawn call :: (List.range commands).map (fun k => .run thread (16 * thread + k))

end OneCompute
