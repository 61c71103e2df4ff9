import OneCompute.Measurement.Availability

/-!
The headroom math that the offline report and the orchestrator share: a bucket
list is normalised, summarised per device, and aggregated over the fleet.
-/

namespace OneCompute.Measurement
open PyFloat (pyMax pyMin)
open PyNumber (Rounding floatOr maxOf)
open Jobkit (pyInt)

def bucketsPerWeek : Nat := 168

/-- A populated hour-of-week bucket; `gpuN` is -1 where it was not stored. -/
structure Bucket where
  n : Int
  gpuN : Int
  cpuMean : PyFloat
  cpuMax : PyFloat
  gpuMean : PyFloat
  gpuMax : PyFloat
  ramMean : PyFloat
  ramMax : PyFloat
  acMean : PyFloat
  idleMean : PyFloat

variable (R : Rounding)

def finite (value : Json) : Except String PyFloat := do
  let x ← floatOr R (.fin 0) value
  return if x.isFinite then x else .fin 0

/-- The number of GPU samples a bucket reports, between 0 and `n`. -/
def gpuSamples (raw : Dict) (n : Int) : Int :=
  match Json.lookup raw "gpu_n" with
  | some value => (pyInt value).elim 0 (fun g => max 0 (min n g))
  | none => -1

def normalizeBucket : Json → Except String (Option Bucket)
  | .obj raw =>
      match pyInt ((Json.lookup raw "n").getD (.int 0)) with
      | none => .ok none
      | some n =>
          if n ≤ 0 then .ok none
          else do
            let field (name : String) : Except String PyFloat :=
              finite R ((Json.lookup raw name).getD (.float (.fin 0)))
            return some {
              n := n
              gpuN := gpuSamples raw n
              cpuMean := ← field "cpu_mean"
              cpuMax := ← field "cpu_max"
              gpuMean := ← field "gpu_mean"
              gpuMax := ← field "gpu_max"
              ramMean := ← field "ram_mean"
              ramMax := ← field "ram_max"
              acMean := ← field "ac_mean"
              idleMean := ← field "idle_mean" }
  | _ => .ok none

/-- The populated buckets of the first week's worth of a list. -/
def normalizeBuckets : Json → Except String (List Bucket)
  | .arr rawBuckets => do
      let buckets ← (rawBuckets.take bucketsPerWeek).mapM (normalizeBucket R)
      return buckets.reduceOption
  | _ => .ok []

structure Metric where
  avg : PyFloat := .fin 0
  peak : PyFloat := .fin 0
  meanSpare : PyFloat := .fin 0
  recoverableLow : PyFloat := .fin 0
  recoverableHigh : PyFloat := .fin 0

structure Ram where
  avg : PyFloat := .fin 0
  peak : PyFloat := .fin 0
  headroom : PyFloat := .fin 0

structure Summary where
  coverageBuckets : Nat := 0
  coveragePct : PyFloat := .fin 0
  cpu : Metric := {}
  gpu : Metric := {}
  gpuSampled : Bool := false
  ram : Ram := {}
  acAvg : PyFloat := .fin 0
  idleAvg : PyFloat := .fin 0
  availability : AvailabilitySummary

/-- The margin above measured demand, and the fractions of the rest that are
reclaimed. -/
structure Assumptions where
  margin : PyFloat
  harvestLow : PyFloat
  harvestHigh : PyFloat

def defaultAssumptions : Assumptions := ⟨.fin 25, R.ofRat (1 / 5), R.ofRat (2 / 5)⟩

structure Profile where
  populated : List Bucket
  gpuSupported : Json := .null
  availability : Json := .null

/-- Whether an old profile, which stores no GPU sample counts, has seen a GPU. -/
def legacyGpuDetected (profile : Profile) : Bool :=
  match profile.gpuSupported with
  | .bool declared => declared
  | _ => profile.populated.any fun b => decide (b.gpuN < 0) &&
      (PyFloat.lt (.fin 0) b.gpuMean || PyFloat.lt (.fin 0) b.gpuMax)

def hasGpuSample (profile : Profile) (b : Bucket) : Bool :=
  if 0 < b.gpuN then
    match profile.gpuSupported with
    | .bool declared => declared
    | _ => true
  else if b.gpuN = 0 then false
  else
    match profile.gpuSupported with
    | .bool declared => declared
    | _ => legacyGpuDetected profile

/-- A metric from the means, the peaks and what each bucket has to spare. -/
def metricOf (a : Assumptions) (means peaks spares : List PyFloat) : Except String Metric := do
  let avg ← R.fmean means
  let meanSpare ← R.fmean spares
  return {
    avg := avg
    peak := maxOf peaks
    meanSpare := meanSpare
    recoverableLow := R.mul meanSpare a.harvestLow
    recoverableHigh := R.mul meanSpare a.harvestHigh }

def cpuSpare (margin mean : PyFloat) : PyFloat :=
  pyMax (.fin 0) (R.sub (R.sub (.fin 100) mean) margin)

def gpuSpare (mean : PyFloat) : PyFloat := pyMax (.fin 0) (R.sub (.fin 100) mean)

def summarizeProfile (a : Assumptions) (profile : Profile) : Except String Summary := do
  let availability ← summarizeAvailability R profile.availability
  let populated := profile.populated
  let gpuBuckets := populated.filter (hasGpuSample profile)
  let gpuSampled := !gpuBuckets.isEmpty
  if populated = [] then return { gpuSampled := gpuSampled, availability := availability }
  else
    let cpu ← metricOf R a (populated.map (·.cpuMean)) (populated.map (·.cpuMax))
      (populated.map fun b => cpuSpare R a.margin b.cpuMean)
    let avgRam ← R.fmean (populated.map (·.ramMean))
    let gpu ←
      if gpuSampled then
        metricOf R a (gpuBuckets.map (·.gpuMean)) (gpuBuckets.map (·.gpuMax))
          (gpuBuckets.map fun b => gpuSpare R b.gpuMean)
      else pure {}
    let acAvg ← R.fmean (populated.map (·.acMean))
    let idleAvg ← R.fmean (populated.map (·.idleMean))
    return {
      coverageBuckets := populated.length
      coveragePct := R.div (R.mul (.fin 100) (R.ofRat populated.length)) (R.ofRat bucketsPerWeek)
      cpu := cpu
      gpu := gpu
      gpuSampled := gpuSampled
      ram := ⟨avgRam, maxOf (populated.map (·.ramMax)),
        pyMax (.fin 0) (R.sub (.fin 100) avgRam)⟩
      acAvg := acAvg
      idleAvg := idleAvg
      availability := availability }

/-- The fleet view of `aggregate`; RAM has no peak here. -/
structure Fleet where
  deviceCount : Nat
  totalCoverageBuckets : Nat
  cpu : Metric
  gpu : Metric
  gpuDeviceCount : Nat
  ramAvg : PyFloat
  ramHeadroom : PyFloat
  acAvg : PyFloat
  idleAvg : PyFloat
  availability : AvailabilityAggregate

def aggregateMetric (a : Assumptions) (metrics : List Metric) : Except String Metric :=
  metricOf R a (metrics.map (·.avg)) (metrics.map (·.peak)) (metrics.map (·.meanSpare))

def aggregate (a : Assumptions) (summaries : List Summary) : Except String Fleet := do
  let contributing := summaries.filter (fun s => decide (0 < s.coverageBuckets))
  let gpuContributing := contributing.filter (·.gpuSampled)
  let totalCoverage := (summaries.map (·.coverageBuckets)).sum
  if contributing = [] then
    let availability ← aggregateAvailability R []
    return ⟨0, totalCoverage, {}, {}, 0, .fin 0, .fin 0, .fin 0, .fin 0, availability⟩
  else
    let cpu ← aggregateMetric R a (contributing.map (·.cpu))
    let avgRam ← R.fmean (contributing.map (·.ram.avg))
    let gpu ←
      if gpuContributing = [] then pure {}
      else aggregateMetric R a (gpuContributing.map (·.gpu))
    let acAvg ← R.fmean (contributing.map (·.acAvg))
    let idleAvg ← R.fmean (contributing.map (·.idleAvg))
    let availability ← aggregateAvailability R (contributing.map (·.availability))
    return {
      deviceCount := contributing.length
      totalCoverageBuckets := totalCoverage
      cpu := cpu
      gpu := gpu
      gpuDeviceCount := gpuContributing.length
      ramAvg := avgRam
      ramHeadroom := pyMax (.fin 0) (R.sub (.fin 100) avgRam)
      acAvg := acAvg
      idleAvg := idleAvg
      availability := availability }

end OneCompute.Measurement
