import OneCompute.Lib.Json
import OneCompute.Lib.PyTime

/-!
The shared records of the control plane. A request is modelled after the web
framework has parsed it into its record; optional fields are `Option`, and a
dictionary is the list of its fields.
-/

namespace OneCompute

abbrev Dict := List (String × Json)

inductive JobKind where
  | aiBatchInfer | eval | dataTransform | render | challenge
  | fractal | optimize | aiSynth
  | montecarlo | hashcrack
  | aiInfer | aiEval | aiGraph
  deriving DecidableEq

def JobKind.text : JobKind → String
  | .aiBatchInfer => "ai.batch_infer"
  | .eval => "eval"
  | .dataTransform => "data.transform"
  | .render => "render"
  | .challenge => "challenge"
  | .fractal => "fractal"
  | .optimize => "optimize"
  | .aiSynth => "ai.synth"
  | .montecarlo => "montecarlo"
  | .hashcrack => "hashcrack"
  | .aiInfer => "ai.infer"
  | .aiEval => "ai.eval"
  | .aiGraph => "ai.graph"

inductive JobState where
  | queued | leased | completed | failed
  deriving DecidableEq

inductive ResultStatus where
  | completed | failed | yielded
  deriving DecidableEq

def ResultStatus.text : ResultStatus → String
  | .completed => "completed"
  | .failed => "failed"
  | .yielded => "yielded"

inductive SandboxType where
  | docker | windowsSandbox | jobObject
  deriving DecidableEq

inductive Network where
  | none | host
  deriving DecidableEq

inductive DataClassification where
  | «public» | internal | confidential | restricted
  deriving DecidableEq

def DataClassification.text : DataClassification → String
  | .public => "public"
  | .internal => "internal"
  | .confidential => "confidential"
  | .restricted => "restricted"

/-- A date and time as parsed; `text` is its ISO form. Only two aware values, or
two naive ones, can be compared. -/
structure DateTime where
  instant : Int
  aware : Bool
  text : String
  deriving DecidableEq

namespace DateTime

def utc (t : Time) : DateTime := ⟨t, true, PyTime.isoformat t⟩

/-- `a <= b`; `none` is the `TypeError`. -/
def le? (a b : DateTime) : Option Bool :=
  if a.aware = b.aware then some (decide (a.instant ≤ b.instant)) else none

end DateTime

structure DeviceAttestation where
  workerId : String
  compliant : Bool := false
  managed : Bool := false
  sanctioned : Bool := false
  tee : Bool := false
  issuedAt : DateTime
  expiresAt : Option DateTime := none
  signature : String := ""
  signerPubkey : String := ""

structure Capability where
  workerId : String
  measurementOnly : Bool := false
  cpus : Int := 1
  ramGb : PyFloat := .fin 1
  freeRamGb : Option PyFloat := none
  hasGpu : Bool := false
  gpuModel : Option String := none
  gpuVramGb : Option PyFloat := none
  accel : List String := []
  benchmarkedTops : Option PyFloat := none
  hasNpu : Bool := false
  npuTops : Option PyFloat := none
  labels : List String := []
  attestedTier : Option String := none
  attestation : Option DeviceAttestation := none

namespace Capability

/-- A float field as JSON carries it: `null` unless finite. -/
def jsonFloat (x : PyFloat) : Option PyFloat := if x.isFinite then some x else none

/-- `Capability(**json.loads(cap.model_dump_json()))`; `none` is the validation
error of a field that must be a number and was written as `null`. -/
def reload? (cap : Capability) : Option Capability := do
  let ramGb ← jsonFloat cap.ramGb
  return { cap with
    ramGb := ramGb
    freeRamGb := cap.freeRamGb.bind jsonFloat
    gpuVramGb := cap.gpuVramGb.bind jsonFloat
    benchmarkedTops := cap.benchmarkedTops.bind jsonFloat
    npuTops := cap.npuTops.bind jsonFloat }

theorem reload?_workerId {cap c : Capability} (h : cap.reload? = some c) :
    c.workerId = cap.workerId := by
  unfold reload? at h
  cases hf : jsonFloat cap.ramGb with
  | none => simp [hf] at h
  | some x =>
      simp only [hf, Option.pure_def, Option.bind_eq_bind, Option.bind_some, Option.some.injEq] at h
      rw [← h]

theorem reload?_measurementOnly {cap c : Capability} (h : cap.reload? = some c) :
    c.measurementOnly = cap.measurementOnly := by
  unfold reload? at h
  cases hf : jsonFloat cap.ramGb with
  | none => simp [hf] at h
  | some x =>
      simp only [hf, Option.pure_def, Option.bind_eq_bind, Option.bind_some, Option.some.injEq] at h
      rw [← h]

end Capability

structure Requires where
  needsGpu : Bool := false
  minVramGb : Option PyFloat := none
  minRamGb : Option PyFloat := none
  accel : List String := []
  minCpus : Int := 1

structure Limits where
  cpuPct : Int := 60
  memGb : PyFloat := .fin 8
  timeoutS : Int := 600
  network : Network := .none

structure SandboxPolicy where
  type : SandboxType := .docker
  vgpu : Bool := false
  mappedRo : List String := ["in/"]

structure RoutingProvenance where
  tenantId : String
  region : String := ""

structure JobManifest where
  jobId : String
  kind : JobKind
  codeRef : String := "builtin"
  codeSha256 : String := ""
  inputSha256 : String := ""
  requires : Requires := {}
  limits : Limits := {}
  sandbox : SandboxPolicy := {}
  dataClassification : DataClassification := .internal
  provenance : Option RoutingProvenance := none
  issuedAt : Time
  expiresAt : Option DateTime := none

structure SignedManifest where
  manifest : JobManifest
  signature : String := ""
  publicKey : String := ""

structure RegisterResponse where
  workerToken : String
  deviceCode : Option String := none
  approved : Bool := true

structure JobAssignment where
  signedManifest : SignedManifest
  input : Dict := []

structure HeartbeatRequest where
  workerId : String
  idle : Bool := true
  cpuPct : PyFloat := .fin 0
  gpuPct : Option PyFloat := none
  onAc : Bool := true
  freeRamGb : Option PyFloat := none
  currentJobId : Option String := none

structure HeartbeatResponse where
  ack : Bool := true
  preempt : Bool := false
  approved : Bool := true

structure ResultRequest where
  workerId : String
  jobId : String
  status : ResultStatus
  output : Option Dict := none
  proofSha256 : Option String := none
  durationS : Option PyFloat := none
  units : Int := 1

structure ResultResponse where
  accepted : Bool
  credited : PyFloat := .fin 0
  reason : Option String := none
  deriving DecidableEq

structure SubmitRequest where
  kind : JobKind
  input : Dict := []
  requires : Requires := {}
  limits : Limits := {}
  dataClassification : DataClassification := .internal
  units : Int := 1

structure FoundryTenant where
  tenantId : String
  token : String
  maxClassification : DataClassification := .internal
  allowedRegions : List String := []

structure FoundryRoutingRequest where
  tenantId : String
  region : String
  kind : JobKind
  input : Dict := []
  requires : Option Requires := none
  units : Int := 1
  dataClassification : DataClassification

/-- Workload kinds a dashboard can launch across the fleet. -/
def launchableKinds : List String :=
  ["fractal", "optimize", "ai.batch_infer", "ai.synth", "data.transform",
    "montecarlo", "hashcrack", "ai.infer", "ai.eval", "ai.graph"]

/-- `nTiles` is absent when the caller left it at its default; `oversubscribe` is
validated to lie between 1 and 64. -/
structure WorkloadLaunchRequest where
  kind : String
  nTiles : Option Int := none
  oversubscribe : Nat := 1
  params : Dict := []

structure WorkloadLaunchResponse where
  workloadId : String
  kind : String
  jobIds : List String := []

/-! ## Measurement pilot -/

inductive MeasurementDeviceClass where
  | laptop | desktop | devbox | xbox | unknown
  deriving DecidableEq

def MeasurementDeviceClass.text : MeasurementDeviceClass → String
  | .laptop => "laptop"
  | .desktop => "desktop"
  | .devbox => "devbox"
  | .xbox => "xbox"
  | .unknown => "unknown"

/-- A legacy hour-of-week bucket, accepted only while workers are upgraded. -/
structure UsageBucket where
  index : Int := 0
  n : Int := 0
  cpuMean : PyFloat := .fin 0
  cpuMax : PyFloat := .fin 0
  gpuMean : PyFloat := .fin 0
  gpuMax : PyFloat := .fin 0
  ramMean : PyFloat := .fin 0
  ramMax : PyFloat := .fin 0
  acMean : PyFloat := .fin 0
  idleMean : PyFloat := .fin 0

structure MetricSummary where
  avg : PyFloat := .fin 0
  peak : PyFloat := .fin 0
  recoverableLow : PyFloat := .fin 0
  recoverableHigh : PyFloat := .fin 0

structure ProfileAvailability where
  spanHours : PyFloat := .fin 0
  observedHoursPerDay : PyFloat := .fin 0
  unavailableHoursPerDay : PyFloat := .fin 0
  sampleCount : Int := 0

structure ProfileReport where
  workerId : String
  deviceClass : MeasurementDeviceClass := .unknown
  coverageBuckets : Int := 0
  cpu : MetricSummary := {}
  gpu : MetricSummary := {}
  gpuSampled : Bool := false
  ramAvg : PyFloat := .fin 0
  ramHeadroom : PyFloat := .fin 0
  acAvg : PyFloat := .fin 0
  availability : ProfileAvailability := {}
  buckets : List UsageBucket := []

structure ProfileIngestResponse where
  accepted : Bool := true
  coverageBuckets : Int := 0
  bucketsStored : Int := 0

structure MeasurementSummary where
  deviceCount : Nat := 0
  totalCoverageBuckets : Int := 0
  cpu : MetricSummary := {}
  gpu : MetricSummary := {}
  gpuDeviceCount : Nat := 0
  ramAvg : PyFloat := .fin 0
  ramHeadroom : PyFloat := .fin 0
  acAvg : PyFloat := .fin 0
  observedHoursPerDay : PyFloat := .fin 0
  unavailableHoursPerDay : PyFloat := .fin 0
  timingSpanHours : PyFloat := .fin 0
  deviceClasses : List (String × Nat) := []

end OneCompute
