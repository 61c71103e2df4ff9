import OneCompute.Measurement.FleetView

/-!
The usage profile that a device learns hour by hour, the file it is saved to, and
the two ways it leaves the device: as that file, and as an uploaded summary.
-/

namespace OneCompute.Worker
open PyFloat (pyMax pyMin)
open PyNumber (Rounding)
open Measurement

/-- `when` of a sample, in local time. -/
structure When where
  weekday : Nat
  hour : Nat
  timestamp : PyFloat
  deriving DecidableEq

def bucketIndex (w : When) : Nat := (w.weekday * 24 + w.hour) % bucketsPerWeek

structure BucketStat where
  n : Nat := 0
  cpuMean : PyFloat := .fin 0
  cpuMax : PyFloat := .fin 0
  cpuMin : PyFloat := .fin 100
  gpuMean : PyFloat := .fin 0
  gpuMax : PyFloat := .fin 0
  gpuN : Nat := 0
  ramMean : PyFloat := .fin 0
  ramMax : PyFloat := .fin 0
  acMean : PyFloat := .fin 0
  idleMean : PyFloat := .fin 0
  acN : Nat := 0
  idleN : Nat := 0
  updatedAt : PyFloat := .fin 0

structure Sample where
  cpu : PyFloat
  gpu : Option PyFloat
  ram : PyFloat
  taken : When
  onAc : Option Bool := none
  idle : Option Bool := none
  deriving DecidableEq

structure UsageProfiler where
  buckets : List BucketStat := List.replicate bucketsPerWeek {}
  availability : AvailabilityTracker := {}
  gpuSupported : Option Bool := none

section Record
variable (R : Rounding)

/-- `_percent` of a float. -/
def percent (x : PyFloat) : PyFloat :=
  pyMax (.fin 0) (pyMin (.fin 100) (if x.isFinite then x else .fin 0))

def ewma (prev sample : PyFloat) (n : Nat) : PyFloat :=
  if n = 0 then sample
  else
    R.add (R.mul (R.sub (.fin 1) (R.ofRat (1 / 20))) prev) (R.mul (R.ofRat (1 / 20)) sample)

def rollMax (prev sample mean : PyFloat) : PyFloat :=
  pyMax (R.sub prev (R.mul (R.ofRat (1 / 50)) (R.sub prev mean))) sample

def rollMin (prev sample mean : PyFloat) : PyFloat :=
  pyMin (R.add prev (R.mul (R.ofRat (1 / 50)) (R.sub mean prev))) sample

/-- A bucket that was not updated for more than 35 days starts again. -/
def BucketStat.aged (b : BucketStat) (timestamp : PyFloat) : BucketStat :=
  if 0 < b.n ∧ PyFloat.lt (.fin (35 * 86400)) (R.sub timestamp b.updatedAt) = true then {} else b

/-- The mean and the peak of a reading, of which `n` were taken before. -/
def envelope (mean max sample : PyFloat) (n : Nat) : PyFloat × PyFloat :=
  let mean := ewma R mean sample n
  (mean, if n = 0 then sample else rollMax R max sample mean)

/-- The percentage of samples with a flag set, of which `n` had one before. -/
def flagged (mean : PyFloat) (n : Nat) : Option Bool → PyFloat × Nat
  | some flag => (ewma R mean (.fin (if flag then 100 else 0)) n, n + 1)
  | none => (mean, n)

def BucketStat.record (b : BucketStat) (s : Sample) : BucketStat :=
  let b := b.aged R s.taken.timestamp
  let (cpuMean, cpuMax) := envelope R b.cpuMean b.cpuMax (percent s.cpu) b.n
  let (ramMean, ramMax) := envelope R b.ramMean b.ramMax (percent s.ram) b.n
  let (gpuMean, gpuMax) :=
    match s.gpu with
    | some gpu => envelope R b.gpuMean b.gpuMax (percent gpu) b.gpuN
    | none => (b.gpuMean, b.gpuMax)
  let (acMean, acN) := flagged R b.acMean b.acN s.onAc
  let (idleMean, idleN) := flagged R b.idleMean b.idleN s.idle
  { n := b.n + 1
    cpuMean := cpuMean
    cpuMax := cpuMax
    cpuMin := if b.n = 0 then percent s.cpu else rollMin R b.cpuMin (percent s.cpu) cpuMean
    gpuMean := gpuMean
    gpuMax := gpuMax
    gpuN := if s.gpu.isSome then b.gpuN + 1 else b.gpuN
    ramMean := ramMean
    ramMax := ramMax
    acMean := acMean
    idleMean := idleMean
    acN := acN
    idleN := idleN
    updatedAt := s.taken.timestamp }

def UsageProfiler.record (p : UsageProfiler) (s : Sample) : UsageProfiler :=
  { p with buckets := p.buckets.modify (bucketIndex s.taken) (fun b => b.record R s) }

def UsageProfiler.recordAvailability (p : UsageProfiler) (sampledAt expected : PyFloat) :
    UsageProfiler :=
  { p with availability := p.availability.record R sampledAt expected }

end Record

/-! ## The file -/

def BucketStat.toJson (b : BucketStat) : Json :=
  .obj [("n", .int b.n), ("cpu_mean", .float b.cpuMean), ("cpu_max", .float b.cpuMax),
    ("cpu_min", .float b.cpuMin), ("gpu_mean", .float b.gpuMean), ("gpu_max", .float b.gpuMax),
    ("gpu_n", .int b.gpuN), ("ram_mean", .float b.ramMean), ("ram_max", .float b.ramMax),
    ("ac_mean", .float b.acMean), ("idle_mean", .float b.idleMean), ("ac_n", .int b.acN),
    ("idle_n", .int b.idleN), ("updated_at", .float b.updatedAt)]

/-- What `save` writes. -/
def UsageProfiler.toJson (p : UsageProfiler) : Json :=
  .obj [("version", .int 3), ("gpu_supported", p.gpuSupported.elim .null .bool),
    ("buckets", .arr (p.buckets.map BucketStat.toJson)), ("availability", p.availability.toDict)]

section Reports
variable (R : Rounding)

/-- `load_profile` of the offline report; `none` is a malformed file. -/
def loadProfile : Json → Except String (Option Profile)
  | .obj data =>
      match Json.lookup data "buckets" with
      | some (.arr rawBuckets) => do
          let populated ← normalizeBuckets R (.arr rawBuckets)
          return some {
            populated := populated
            gpuSupported := (Json.lookup data "gpu_supported").getD .null
            availability := (Json.lookup data "availability").getD .null }
      | _ => .ok none
  | _ => .ok none

/-- The aggregate that `measure_report` prints for these files. -/
def measureReport (files : List Json) : Except String Measurement.Fleet := do
  let profiles ← files.mapM (loadProfile R)
  let summaries ← profiles.reduceOption.mapM (summarizeProfile R (defaultAssumptions R))
  aggregate R (defaultAssumptions R) summaries

/-! ## The upload -/

/-- A bucket as `report_profile` reads it. -/
def BucketStat.local (b : BucketStat) : Json :=
  .obj [("n", .int b.n), ("cpu_mean", .float b.cpuMean), ("cpu_max", .float b.cpuMax),
    ("gpu_mean", .float b.gpuMean), ("gpu_max", .float b.gpuMax), ("ram_mean", .float b.ramMean),
    ("ram_max", .float b.ramMax), ("ac_mean", .float b.acMean), ("idle_mean", .float b.idleMean)]

/-- The body that `report_profile` posts. -/
def reportProfile (workerId : String) (hasGpu : Bool) (deviceClass : MeasurementDeviceClass)
    (p : UsageProfiler) : Except String ProfileReport := do
  let populated ← normalizeBuckets R (.arr (p.buckets.map BucketStat.local))
  let summary ← summarizeProfile R (defaultAssumptions R)
    { populated := populated, gpuSupported := .bool hasGpu }
  let availability := summarizeTracker R p.availability
  return {
    workerId := workerId
    deviceClass := deviceClass
    coverageBuckets := summary.coverageBuckets
    cpu := summary.cpu.published
    gpu := summary.gpu.published
    gpuSampled := summary.gpuSampled
    ramAvg := summary.ram.avg
    ramHeadroom := summary.ram.headroom
    acAvg := summary.acAvg
    availability :=
      { spanHours := R.div availability.spanSeconds (.fin 3600)
        observedHoursPerDay := availability.observedHoursPerDay
        unavailableHoursPerDay := availability.unavailableHoursPerDay
        sampleCount := p.availability.sampleCount } }

end Reports

end OneCompute.Worker
