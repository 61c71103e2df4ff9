import OneCompute.Measurement.Headroom

/-!
Profile ingest and the fleet rollup: a report is clamped field by field, stored
as JSON, decoded again without trust in what is stored, and averaged.
-/

namespace OneCompute
open PyFloat (pyMax pyMin)
open PyNumber (Rounding floatOr maxOf)
open Measurement (Bucket bucketsPerWeek normalizeBuckets summarizeProfile defaultAssumptions)
open Jobkit (pyInt)

variable (R : Rounding)

/-- `_clamp_pct` of a number; NaN is nothing. -/
def clampPct (x : PyFloat) : PyFloat := if x = .nan then .fin 0 else pyMax (.fin 0) (pyMin (.fin 100) x)

def clampNonnegative (maximum x : PyFloat) : PyFloat :=
  if x = .nan then .fin 0 else pyMax (.fin 0) (pyMin maximum x)

def clampPctJson (value : Json) : Except String PyFloat := do
  let x ← floatOr R .nan value
  return clampPct x

def clampNonnegativeJson (maximum : PyFloat) (value : Json) : Except String PyFloat := do
  let x ← floatOr R .nan value
  return clampNonnegative maximum x

/-- `_field`: a key of a dictionary; other stored values have no such attribute. -/
def fieldOf (value : Json) (name : String) : Json :=
  match value with
  | .obj fields => (Json.lookup fields name).getD (.float (.fin 0))
  | _ => .float (.fin 0)

def MetricSummary.toJson (m : MetricSummary) : Json :=
  .obj [("avg", .float m.avg), ("peak", .float m.peak),
    ("recoverable_low", .float m.recoverableLow), ("recoverable_high", .float m.recoverableHigh)]

def ProfileAvailability.toJson (a : ProfileAvailability) : Json :=
  .obj [("span_hours", .float a.spanHours),
    ("observed_hours_per_day", .float a.observedHoursPerDay),
    ("unavailable_hours_per_day", .float a.unavailableHoursPerDay),
    ("sample_count", .int a.sampleCount)]

def sanitizeMetric (value : Json) : Except String MetricSummary := do
  let avg ← clampPctJson R (fieldOf value "avg")
  let peak ← clampPctJson R (fieldOf value "peak")
  let low ← clampPctJson R (fieldOf value "recoverable_low")
  let high ← clampPctJson R (fieldOf value "recoverable_high")
  return {
    avg := avg
    peak := pyMax avg peak
    recoverableLow := pyMin low high
    recoverableHigh := pyMax low high }

/-- Observed and unavailable hours, scaled down to a day. -/
def scaleToDay (observed unavailable : PyFloat) : PyFloat × PyFloat :=
  let total := R.add observed unavailable
  if PyFloat.lt (.fin 24) total then
    let scale := R.div (.fin 24) total
    (R.mul observed scale, R.mul unavailable scale)
  else (observed, unavailable)

def sanitizeAvailability (value : Json) : Except String ProfileAvailability := do
  let spanHours ← clampNonnegativeJson R (.fin (24 * 400)) (fieldOf value "span_hours")
  let observed ← clampNonnegativeJson R (.fin 24) (fieldOf value "observed_hours_per_day")
  let unavailable ← clampNonnegativeJson R (.fin 24) (fieldOf value "unavailable_hours_per_day")
  let (observed, unavailable) := scaleToDay R observed unavailable
  let sampleCount := (pyInt (fieldOf value "sample_count")).elim 0 (fun n => max 0 (min 10000000 n))
  if PyFloat.le spanHours (.fin 0) then return { spanHours := spanHours }
  else
    return {
      spanHours := spanHours
      observedHoursPerDay := observed
      unavailableHoursPerDay := unavailable
      sampleCount := sampleCount }

/-- The summary that is stored for a device. -/
structure CompactProfile where
  deviceClass : MeasurementDeviceClass
  coverageBuckets : Int
  cpu : MetricSummary
  gpu : MetricSummary
  gpuSampled : Bool
  ramAvg : PyFloat
  ramHeadroom : PyFloat
  acAvg : PyFloat
  availability : ProfileAvailability

def CompactProfile.toJson (p : CompactProfile) : Json :=
  .obj [("version", .int 3), ("device_class", .str p.deviceClass.text),
    ("coverage_buckets", .int p.coverageBuckets), ("cpu", p.cpu.toJson), ("gpu", p.gpu.toJson),
    ("gpu_sampled", .bool p.gpuSampled), ("ram_avg", .float p.ramAvg),
    ("ram_headroom", .float p.ramHeadroom), ("ac_avg", .float p.acAvg),
    ("availability", p.availability.toJson)]

/-! ## Ingest -/

def sanitizeBucket (b : UsageBucket) : Json :=
  .obj [("index", .int b.index), ("n", .int b.n), ("cpu_mean", .float (clampPct b.cpuMean)),
    ("cpu_max", .float (clampPct b.cpuMax)), ("gpu_mean", .float (clampPct b.gpuMean)),
    ("gpu_max", .float (clampPct b.gpuMax)), ("ram_mean", .float (clampPct b.ramMean)),
    ("ram_max", .float (clampPct b.ramMax)), ("ac_mean", .float (clampPct b.acMean)),
    ("idle_mean", .float (clampPct b.idleMean))]

/-- The populated buckets with an index in range that was not seen before. -/
def keepBuckets (seen : List Int) : List UsageBucket → List Json
  | [] => []
  | b :: rest =>
      if b.n ≤ 0 then keepBuckets seen rest
      else if b.index < 0 ∨ (bucketsPerWeek : Int) ≤ b.index ∨ b.index ∈ seen then
        keepBuckets seen rest
      else sanitizeBucket b :: keepBuckets (b.index :: seen) rest

def sanitizeProfileBuckets (buckets : List UsageBucket) : List Json :=
  (keepBuckets [] (buckets.take (3 * bucketsPerWeek))).take bucketsPerWeek

def Measurement.Metric.toJson (m : Measurement.Metric) : Json :=
  MetricSummary.toJson ⟨m.avg, m.peak, m.recoverableLow, m.recoverableHigh⟩

def compactFromLegacyBuckets (buckets : Json) (deviceClass : MeasurementDeviceClass) :
    Except String CompactProfile := do
  let populated ← normalizeBuckets R buckets
  let summary ← summarizeProfile R (defaultAssumptions R) { populated := populated }
  let cpu ← sanitizeMetric R summary.cpu.toJson
  let gpu ← sanitizeMetric R summary.gpu.toJson
  let availability ← sanitizeAvailability R (.obj [])
  return {
    deviceClass := deviceClass
    coverageBuckets := summary.coverageBuckets
    cpu := cpu
    gpu := gpu
    gpuSampled := summary.gpuSampled
    ramAvg := clampPct summary.ram.avg
    ramHeadroom := clampPct summary.ram.headroom
    acAvg := clampPct summary.acAvg
    availability := availability }

/-- `max(0.0, 100.0 - ram_avg)`. -/
def headroomOf (ramAvg : PyFloat) : PyFloat := pyMax (.fin 0) (R.sub (.fin 100) ramAvg)

def sanitizeProfileReport (report : ProfileReport) : Except String CompactProfile :=
  if report.buckets ≠ [] then
    compactFromLegacyBuckets R (.arr (sanitizeProfileBuckets report.buckets)) report.deviceClass
  else do
    let cpu ← sanitizeMetric R report.cpu.toJson
    let gpu ← sanitizeMetric R report.gpu.toJson
    let availability ← sanitizeAvailability R report.availability.toJson
    return {
      deviceClass := report.deviceClass
      coverageBuckets := max 0 (min bucketsPerWeek report.coverageBuckets)
      cpu := cpu
      gpu := gpu
      gpuSampled := report.gpuSampled
      ramAvg := clampPct report.ramAvg
      ramHeadroom := headroomOf R (clampPct report.ramAvg)
      acAvg := clampPct report.acAvg
      availability := availability }

/-! ## The rollup -/

/-- A stored device class; one that cannot be looked up in a set raises. -/
def decodeDeviceClass : Json → Except String MeasurementDeviceClass
  | .str "laptop" => .ok .laptop
  | .str "desktop" => .ok .desktop
  | .str "devbox" => .ok .devbox
  | .str "xbox" => .ok .xbox
  | .arr _ | .obj _ => .error "TypeError"
  | _ => .ok .unknown

def decodeStoredProfile (value : Json) : Except String (Option CompactProfile) :=
  match value with
  | .arr _ => do
      let compact ← compactFromLegacyBuckets R value .unknown
      return some compact
  | .obj fields => do
      let get (key : String) (default : Json) : Json := (Json.lookup fields key).getD default
      let coverage ← clampNonnegativeJson R (.fin 168) (get "coverage_buckets" .null)
      let ramAvg ← clampPctJson R (get "ram_avg" (.float (.fin 0)))
      let deviceClass ← decodeDeviceClass (get "device_class" (.str "unknown"))
      let cpu ← sanitizeMetric R (get "cpu" (.obj []))
      let gpu ← sanitizeMetric R (get "gpu" (.obj []))
      let acAvg ← clampPctJson R (get "ac_avg" (.float (.fin 0)))
      let availability ← sanitizeAvailability R (get "availability" (.obj []))
      return some {
        deviceClass := deviceClass
        coverageBuckets := max 0 (min bucketsPerWeek ((pyInt (.float coverage)).getD 0))
        cpu := cpu
        gpu := gpu
        gpuSampled := match get "gpu_sampled" .null with
          | .bool b => b
          | _ => false
        ramAvg := ramAvg
        ramHeadroom := headroomOf R ramAvg
        acAvg := acAvg
        availability := availability }
  | _ => .ok none

def average (values : List PyFloat) : PyFloat :=
  if values = [] then .fin 0 else R.div (R.sum values) (R.ofRat values.length)

def compactMetric (metrics : List MetricSummary) : MetricSummary :=
  if metrics = [] then {}
  else
    { avg := average R (metrics.map (·.avg))
      peak := maxOf (metrics.map (·.peak))
      recoverableLow := average R (metrics.map (·.recoverableLow))
      recoverableHigh := average R (metrics.map (·.recoverableHigh)) }

/-- How often each name occurs, by first occurrence. -/
def countNames (names : List String) : List (String × Nat) :=
  names.foldl (fun counts name =>
    if counts.any (·.1 == name) then
      counts.map (fun p => if p.1 == name then (p.1, p.2 + 1) else p)
    else counts ++ [(name, 1)]) []

def aggregateCompactProfiles (profiles : List CompactProfile) : MeasurementSummary :=
  let contributing := profiles.filter (fun p => decide (0 < p.coverageBuckets))
  let gpuContributing := contributing.filter (·.gpuSampled)
  let timed := (contributing.map (·.availability)).filter
    (fun a => PyFloat.lt (.fin 0) a.spanHours)
  let ramAvg := average R (contributing.map (·.ramAvg))
  { deviceCount := contributing.length
    totalCoverageBuckets := (profiles.map (·.coverageBuckets)).sum
    cpu := compactMetric R (contributing.map (·.cpu))
    gpu := compactMetric R (gpuContributing.map (·.gpu))
    gpuDeviceCount := gpuContributing.length
    ramAvg := ramAvg
    ramHeadroom := if contributing = [] then .fin 0 else headroomOf R ramAvg
    acAvg := average R (contributing.map (·.acAvg))
    observedHoursPerDay := average R (timed.map (·.observedHoursPerDay))
    unavailableHoursPerDay := average R (timed.map (·.unavailableHoursPerDay))
    timingSpanHours := average R (timed.map (·.spanHours))
    deviceClasses := countNames (contributing.map (·.deviceClass.text)) }

/-- What `/measurement` makes of the stored profiles. -/
def measurementOf (stored : List Json) : Except String MeasurementSummary := do
  let decoded ← stored.mapM (decodeStoredProfile R)
  return aggregateCompactProfiles R decoded.reduceOption

end OneCompute
