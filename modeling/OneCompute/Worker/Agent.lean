import OneCompute.Contracts.Hashing
import OneCompute.Trust.Signing

/-!
The worker's agent: the checks before a job is executed, and the result that is
reported for it.
-/

namespace OneCompute.Worker

structure WorkerAgent where
  workerId : String
  verify : Bool := true
  isolated : Bool := false
  requireIsolation : Bool := false
  /-- The key pinned on the machine, if any. -/
  trustedPublicKeyHex : Option String := none
  measurementOnly : Bool := false

/-- The pinned key, if there is one; an empty text pins none. -/
def WorkerAgent.pinned (agent : WorkerAgent) : Option String :=
  match agent.trustedPublicKeyHex with
  | some key => if key = "" then none else some key
  | none => none

inductive Verdict where
  | accepted
  | refused (reason : String)
  /-- An exception that leaves the check. -/
  | raised (exception : String)
  deriving DecidableEq

section Verify
variable (ed25519 : Verify) (manifestBytes : JobManifest → List UInt8)

def checkSignature (agent : WorkerAgent) (sm : SignedManifest) : Option String :=
  match agent.pinned with
  | some key =>
      if sm.signature = "" then some "unsigned_manifest"
      else if !verifyManifest ed25519 manifestBytes sm (some key) then some "untrusted_signer"
      else none
  | none =>
      if sm.signature ≠ "" && !verifyManifest ed25519 manifestBytes sm none then
        some "bad_signature"
      else none

/-- `_verify_assignment` -/
def verifyAssignment (agent : WorkerAgent) (now : Time) (assignment : JobAssignment) : Verdict :=
  let manifest := assignment.signedManifest.manifest
  match checkSignature ed25519 manifestBytes agent assignment.signedManifest with
  | some reason => .refused reason
  | none =>
      let inputCheck : Verdict :=
        if manifest.inputSha256 ≠ "" ∧ sha256Hex (.obj assignment.input) ≠ manifest.inputSha256 then
          .refused "input_hash_mismatch"
        else .accepted
      match manifest.expiresAt with
      | none => inputCheck
      | some expiry =>
          match expiry.le? (.utc now) with
          | none => .raised "TypeError"
          | some true => .refused "manifest_expired"
          | some false => inputCheck

end Verify

/-! ## Running a job -/

/-- What an execution that has no output raises. -/
inductive RunFailure where
  | isolationUnavailable (message : String)
  | other (message : String)

/-- How jobs are executed: behind an isolation boundary, or by a runner in process. -/
structure Execution where
  runInIsolation : JobKind → Dict → Limits → (hostSide allowUnsandboxed : Bool) →
    Except RunFailure Dict
  runner : JobManifest → Dict → Except RunFailure Dict

def hostSide (manifest : JobManifest) : Bool :=
  manifest.requires.needsGpu || decide (manifest.sandbox.type = .jobObject) ||
    PyText.startsWith manifest.kind.text "ai."

def execute (agent : WorkerAgent) (x : Execution) (manifest : JobManifest) (input : Dict) :
    Except RunFailure Dict :=
  if agent.isolated then
    x.runInIsolation manifest.kind input manifest.limits (hostSide manifest) (!agent.requireIsolation)
  else x.runner manifest input

/-- `bool(value)` -/
def truthy : Json → Bool
  | .null => false
  | .bool b => b
  | .int i => i ≠ 0
  | .float x => x.truthy
  | .str s => s ≠ ""
  | .arr items => !items.isEmpty
  | .obj fields => !fields.isEmpty

/-- `len(value)`; `none` is the `TypeError`. -/
def pyLen : Json → Option Nat
  | .str s => some s.length
  | .arr items => some items.length
  | .obj fields => some fields.length
  | _ => none

/-- What comes of running a job: what was executed, and the result to report unless
an exception left `run_job`. -/
structure JobRun where
  ran : Option (JobManifest × Dict)
  result : Except String ResultRequest

def resultOf (agent : WorkerAgent) (manifest : JobManifest) (duration : PyFloat)
    (status : ResultStatus) (output : Dict) (units : Int) : ResultRequest :=
  { workerId := agent.workerId
    jobId := manifest.jobId
    status := status
    output := some output
    proofSha256 := some (sha256Hex (.obj output))
    durationS := some duration
    units := units }

/-- `len(assignment.input.get("items", [])) or 1` -/
def unitsOf (input : Dict) : Except String Int :=
  match Json.lookup input "items" with
  | none => .ok 1
  | some items =>
      match pyLen items with
      | none => .error "TypeError"
      | some 0 => .ok 1
      | some n => .ok n

def runAccepted (agent : WorkerAgent) (x : Execution) (duration : PyFloat)
    (assignment : JobAssignment) : JobRun :=
  let manifest := assignment.signedManifest.manifest
  let (status, output) : ResultStatus × Dict :=
    match execute agent x manifest assignment.input with
    | .ok output =>
        if ((Json.lookup output "yielded").map truthy).getD false then (.yielded, output)
        else (.completed, output)
    | .error (.isolationUnavailable message) => (.failed, [("error", .str ("refused: " ++ message))])
    | .error (.other message) => (.failed, [("error", .str message)])
  { ran := some (manifest, assignment.input)
    result := (unitsOf assignment.input).map (resultOf agent manifest duration status output) }

/-- `run_job` at `now`, which takes `duration`. -/
def runJob (ed25519 : Verify) (manifestBytes : JobManifest → List UInt8) (agent : WorkerAgent)
    (x : Execution) (now : Time) (duration : PyFloat) (assignment : JobAssignment) : JobRun :=
  if agent.verify then
    match verifyAssignment ed25519 manifestBytes agent now assignment with
    | .accepted => runAccepted agent x duration assignment
    | .raised exception => ⟨none, .error exception⟩
    | .refused reason =>
        let refused : Dict := [("error", .str ("verification failed: " ++ reason))]
        ⟨none, .ok (resultOf agent assignment.signedManifest.manifest duration .failed refused 1)⟩
  else runAccepted agent x duration assignment

/-! ## Heartbeats -/

/-- What a machine measures of itself. -/
structure Usage where
  cpuPct : PyFloat := .fin 0
  gpuPct : Option PyFloat := none
  freeRamGb : Option PyFloat := none
  jobRunning : Bool := false

/-- What `heartbeat` sends; `idle` defaults to whether no job is running. -/
def heartbeatRequest (agent : WorkerAgent) (currentJobId : Option String) (idle : Option Bool)
    (usage : Usage) : HeartbeatRequest :=
  let idle := idle.getD (!((currentJobId.getD "" != "") || usage.jobRunning))
  { workerId := agent.workerId
    idle := if agent.measurementOnly then true else idle
    cpuPct := if agent.measurementOnly then .fin 0 else usage.cpuPct
    gpuPct := if agent.measurementOnly then none else usage.gpuPct
    freeRamGb := if agent.measurementOnly then none else usage.freeRamGb
    currentJobId := if agent.measurementOnly then none else currentJobId }

/-- The heartbeat of the background thread, which never names a job. -/
def usageHeartbeat (agent : WorkerAgent) (usage : Usage) : HeartbeatRequest :=
  heartbeatRequest agent none none usage

/-- What an accepted assignment has passed. -/
theorem verifyAssignment_accepted {ed25519 : Verify} {manifestBytes : JobManifest → List UInt8}
    {agent : WorkerAgent} {now : Time} {assignment : JobAssignment}
    (h : verifyAssignment ed25519 manifestBytes agent now assignment = .accepted) :
    checkSignature ed25519 manifestBytes agent assignment.signedManifest = none ∧
      (∀ e, assignment.signedManifest.manifest.expiresAt = some e →
        e.le? (.utc now) = some false) ∧
      (assignment.signedManifest.manifest.inputSha256 ≠ "" →
        sha256Hex (.obj assignment.input) = assignment.signedManifest.manifest.inputSha256) := by
  unfold verifyAssignment at h
  simp only at h
  split at h
  · cases h
  next hsig =>
    refine ⟨hsig, ?_⟩
    have hhash : ∀ v : Verdict, (if assignment.signedManifest.manifest.inputSha256 ≠ "" ∧
        sha256Hex (.obj assignment.input) ≠ assignment.signedManifest.manifest.inputSha256 then
          .refused "input_hash_mismatch" else v) = .accepted →
        assignment.signedManifest.manifest.inputSha256 ≠ "" →
        sha256Hex (.obj assignment.input) = assignment.signedManifest.manifest.inputSha256 := by
      intro v hv hne
      by_contra hdiff
      rw [if_pos ⟨hne, hdiff⟩] at hv
      cases hv
    split at h
    next hnone =>
      refine ⟨?_, hhash _ h⟩
      intro e he
      cases hnone.symm.trans he
    next expiry hexpiry =>
      split at h
      · cases h
      · cases h
      next hlive =>
        refine ⟨?_, hhash _ h⟩
        intro e he
        cases hexpiry.symm.trans he
        exact hlive

/-- A verifying agent executes only what it has accepted, as it was delivered. -/
theorem ran_accepted {ed25519 : Verify} {manifestBytes : JobManifest → List UInt8}
    {agent : WorkerAgent} {x : Execution} {now : Time} {duration : PyFloat}
    {assignment : JobAssignment} {job : JobManifest × Dict} (hverify : agent.verify = true)
    (h : (runJob ed25519 manifestBytes agent x now duration assignment).ran = some job) :
    verifyAssignment ed25519 manifestBytes agent now assignment = .accepted ∧
      job = (assignment.signedManifest.manifest, assignment.input) := by
  unfold runJob at h
  rw [if_pos hverify] at h
  split at h
  next hok =>
    cases h
    exact ⟨hok, rfl⟩
  · cases h
  · cases h

theorem runAccepted_names {agent : WorkerAgent} {x : Execution} {duration : PyFloat}
    {assignment : JobAssignment} {rr : ResultRequest}
    (h : (runAccepted agent x duration assignment).result = .ok rr) :
    rr.workerId = agent.workerId ∧ rr.jobId = assignment.signedManifest.manifest.jobId := by
  unfold runAccepted at h
  cases hunits : unitsOf assignment.input with
  | error e =>
      simp only [hunits] at h
      cases h
  | ok units =>
      simp only [hunits] at h
      cases h
      exact ⟨rfl, rfl⟩

/-- A result is reported in the agent's name, for the job it was assigned. -/
theorem runJob_names {ed25519 : Verify} {manifestBytes : JobManifest → List UInt8}
    {agent : WorkerAgent} {x : Execution} {now : Time} {duration : PyFloat}
    {assignment : JobAssignment} {rr : ResultRequest}
    (h : (runJob ed25519 manifestBytes agent x now duration assignment).result = .ok rr) :
    rr.workerId = agent.workerId ∧ rr.jobId = assignment.signedManifest.manifest.jobId := by
  unfold runJob at h
  split at h
  · split at h
    · exact runAccepted_names h
    · cases h
    · cases h
      exact ⟨rfl, rfl⟩
  · exact runAccepted_names h

end OneCompute.Worker
