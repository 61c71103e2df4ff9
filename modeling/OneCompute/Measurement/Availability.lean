import OneCompute.Jobkit.Execute
import OneCompute.Lib.PyNumber

/-!
Observer availability: how long a device was sampled and how long it was not,
without a timeline.
-/

namespace OneCompute.Measurement
open PyFloat (pyMax pyMin)
open PyNumber (Rounding floatOr)
open Jobkit (pyInt)

def defaultExpectedIntervalSeconds : PyFloat := .fin 30
def maxAccountedGapSeconds : PyFloat := .fin (31 * 24 * 3600)
def maxTrackedSeconds : PyFloat := .fin (400 * 24 * 3600)
def maxTrackedCount : Int := 10000000
def maxExpectedIntervalSeconds : PyFloat := .fin 3600
def maxTimestampSeconds : PyFloat := .fin 4102444800

/-- `_nonnegative_finite` of a float. -/
def nonnegativeFinite (x default : PyFloat) : PyFloat :=
  if x.isFinite then pyMax (.fin 0) x else default

/-- `_nonnegative_finite` of a JSON value: what is no number is the default. -/
def nonnegativeFiniteJson (R : Rounding) (value : Json) (default : PyFloat) :
    Except String PyFloat := do
  let x ← floatOr R .nan value
  return nonnegativeFinite x default

def nonnegativeInt (value : Json) : Int := (pyInt value).elim 0 (max 0)

structure AvailabilityTracker where
  firstSampleAt : PyFloat := .fin 0
  lastSampleAt : PyFloat := .fin 0
  observedSeconds : PyFloat := .fin 0
  unavailableSeconds : PyFloat := .fin 0
  gapCount : Int := 0
  sampleCount : Int := 0
  expectedIntervalSeconds : PyFloat := defaultExpectedIntervalSeconds

namespace AvailabilityTracker
variable (R : Rounding)

def fromDict : Json → Except String AvailabilityTracker
  | .obj raw => do
      let get (key : String) : Json := (Json.lookup raw key).getD .null
      let first ← nonnegativeFiniteJson R (get "first_sample_at") (.fin 0)
      let last ← nonnegativeFiniteJson R (get "last_sample_at") (.fin 0)
      let observed ← nonnegativeFiniteJson R (get "observed_seconds") (.fin 0)
      let unavailable ← nonnegativeFiniteJson R (get "unavailable_seconds") (.fin 0)
      let expected ← nonnegativeFiniteJson R (get "expected_interval_seconds")
        defaultExpectedIntervalSeconds
      return {
        firstSampleAt := pyMin maxTimestampSeconds first
        lastSampleAt := pyMin maxTimestampSeconds last
        observedSeconds := pyMin maxTrackedSeconds observed
        unavailableSeconds := pyMin maxTrackedSeconds unavailable
        gapCount := min maxTrackedCount (nonnegativeInt (get "gap_count"))
        sampleCount := min maxTrackedCount (nonnegativeInt (get "sample_count"))
        expectedIntervalSeconds :=
          pyMin maxExpectedIntervalSeconds (pyMax (R.ofRat (1 / 1000)) expected) }
  | _ => .ok {}

def spanSeconds (t : AvailabilityTracker) : PyFloat := R.add t.observedSeconds t.unavailableSeconds

/-- One successful sample; a long interval before it counts as unavailable. -/
def record (t : AvailabilityTracker) (sampledAt expectedIntervalSeconds : PyFloat) :
    AvailabilityTracker :=
  let timestamp := nonnegativeFinite sampledAt (.fin 0)
  if PyFloat.le timestamp (.fin 0) then t
  else
    let expected := pyMax (R.ofRat (1 / 1000))
      (nonnegativeFinite expectedIntervalSeconds defaultExpectedIntervalSeconds)
    let t := { t with expectedIntervalSeconds := expected }
    if PyFloat.le t.lastSampleAt (.fin 0) then
      { t with
        firstSampleAt := timestamp
        lastSampleAt := timestamp
        sampleCount := t.sampleCount + 1 }
    else
      let elapsed := R.sub timestamp t.lastSampleAt
      if elapsed = .fin 0 then t
      else
        let t := { t with sampleCount := t.sampleCount + 1 }
        if PyFloat.lt elapsed (.fin 0) then
          -- the clock was set back
          { t with
            firstSampleAt := pyMin t.firstSampleAt timestamp
            lastSampleAt := timestamp }
        else
          let t := { t with lastSampleAt := timestamp }
          if PyFloat.lt maxAccountedGapSeconds elapsed then t
          else
            let gapThreshold := pyMax (R.mul (.fin 3) expected) (R.add expected (.fin 30))
            if PyFloat.lt gapThreshold elapsed then
              let observed := pyMin elapsed expected
              { t with
                observedSeconds := R.add t.observedSeconds observed
                unavailableSeconds := R.add t.unavailableSeconds (R.sub elapsed observed)
                gapCount := t.gapCount + 1 }
            else { t with observedSeconds := R.add t.observedSeconds elapsed }

def toDict (t : AvailabilityTracker) : Json :=
  .obj [("first_sample_at", .float t.firstSampleAt), ("last_sample_at", .float t.lastSampleAt),
    ("observed_seconds", .float t.observedSeconds),
    ("unavailable_seconds", .float t.unavailableSeconds), ("gap_count", .int t.gapCount),
    ("sample_count", .int t.sampleCount),
    ("expected_interval_seconds", .float t.expectedIntervalSeconds)]

end AvailabilityTracker

structure AvailabilitySummary where
  spanSeconds : PyFloat := .fin 0
  observedSeconds : PyFloat := .fin 0
  unavailableSeconds : PyFloat := .fin 0
  observedHoursPerDay : PyFloat := .fin 0
  unavailableHoursPerDay : PyFloat := .fin 0
  observedPct : PyFloat := .fin 0
  unavailablePct : PyFloat := .fin 0
  gapCount : Int
  sampleCount : Int

variable (R : Rounding)

/-- `summarize_availability` of a tracker. -/
def summarizeTracker (t : AvailabilityTracker) : AvailabilitySummary :=
  let span := t.spanSeconds R
  if PyFloat.le span (.fin 0) then { gapCount := t.gapCount, sampleCount := t.sampleCount }
  else
    let observedFraction := R.div t.observedSeconds span
    let unavailableFraction := R.div t.unavailableSeconds span
    { spanSeconds := span
      observedSeconds := t.observedSeconds
      unavailableSeconds := t.unavailableSeconds
      observedHoursPerDay := R.mul (.fin 24) observedFraction
      unavailableHoursPerDay := R.mul (.fin 24) unavailableFraction
      observedPct := R.mul (.fin 100) observedFraction
      unavailablePct := R.mul (.fin 100) unavailableFraction
      gapCount := t.gapCount
      sampleCount := t.sampleCount }

/-- `summarize_availability` of what a profile file holds. -/
def summarizeAvailability (raw : Json) : Except String AvailabilitySummary := do
  let tracker ← AvailabilityTracker.fromDict R raw
  return summarizeTracker R tracker

structure AvailabilityAggregate where
  deviceCount : Nat
  spanSeconds : PyFloat
  observedSeconds : PyFloat
  unavailableSeconds : PyFloat
  observedHoursPerDay : PyFloat
  unavailableHoursPerDay : PyFloat
  observedPct : PyFloat
  unavailablePct : PyFloat
  gapCount : PyFloat
  sampleCount : PyFloat
  totalGapCount : Int
  totalSampleCount : Int

/-- The average over the devices that were observed for any time at all. -/
def aggregateAvailability (summaries : List AvailabilitySummary) :
    Except String AvailabilityAggregate :=
  let valid := summaries.filter (fun s => PyFloat.lt (.fin 0) s.spanSeconds)
  if valid = [] then
    .ok ⟨0, .fin 0, .fin 0, .fin 0, .fin 0, .fin 0, .fin 0, .fin 0, .fin 0, .fin 0, 0, 0⟩
  else do
    let mean (f : AvailabilitySummary → PyFloat) : Except String PyFloat := R.fmean (valid.map f)
    return {
      deviceCount := valid.length
      spanSeconds := ← mean (·.spanSeconds)
      observedSeconds := ← mean (·.observedSeconds)
      unavailableSeconds := ← mean (·.unavailableSeconds)
      observedHoursPerDay := ← mean (·.observedHoursPerDay)
      unavailableHoursPerDay := ← mean (·.unavailableHoursPerDay)
      observedPct := ← mean (·.observedPct)
      unavailablePct := ← mean (·.unavailablePct)
      gapCount := R.roundTenth (← mean (fun s => R.ofRat s.gapCount))
      sampleCount := R.roundTenth (← mean (fun s => R.ofRat s.sampleCount))
      totalGapCount := (valid.map (·.gapCount)).sum
      totalSampleCount := (valid.map (·.sampleCount)).sum }

end OneCompute.Measurement
