import OneCompute.Measurement.Readable
import OneCompute.Measurement.DeviceSummary
import OneCompute.Worker.Learned

/-!
How a saved profile is read back: by the profiler, which starts afresh when the file is
malformed, and by the offline report.
-/

namespace OneCompute.Worker
open PyFloat (val pyMax pyMin)
open PyNumber (Rounding floatOr)
open Jobkit (pyInt)
open Measurement
open Results (Returns returns_ok returns_bind returns_mapM)

def maxBucketSamples : Nat := 10000000

/-- The number of samples in a field, of any size. -/
def countOf (value : Json) : Nat := ((pyInt value).elim 0 (max 0)).toNat

section Reading
variable (R : Rounding)

def finiteNumber (value : Json) (default : PyFloat) : Except String PyFloat := do
  let number ← floatOr R default value
  return if number.isFinite then number else default

/-- `_percent` of a JSON value. -/
def percentOf (value : Json) (default : PyFloat) : Except String PyFloat := do
  let number ← finiteNumber R value default
  return pyMax (.fin 0) (pyMin (.fin 100) number)

/-- The GPU samples of a bucket with `n` samples; an old file does not count them. -/
def gpuCount (raw : Dict) (n : Nat) (gpuMean : PyFloat) : Option Bool → Nat
  | some true => n
  | some false => 0
  | none =>
      if PyFloat.lt (.fin 0) gpuMean then n
      else
        match percentOf R (getField raw "gpu_max") (.fin 0) with
        | .ok gpuMax => if PyFloat.lt (.fin 0) gpuMax then n else 0
        | .error _ => 0

def bucketFromDict (raw : Dict) (gpuSupported : Option Bool) : Except String BucketStat := do
  let get (name : String) : Json := getField raw name
  let n := min maxBucketSamples (countOf ((Json.lookup raw "n").getD (.int 0)))
  let cpuMean ← percentOf R (get "cpu_mean") (.fin 0)
  let gpuMean ← percentOf R (get "gpu_mean") (.fin 0)
  let ramMean ← percentOf R (get "ram_mean") (.fin 0)
  let gpuN := match Json.lookup raw "gpu_n" with
    | some value => countOf value
    | none => gpuCount R raw n gpuMean gpuSupported
  let flagCount (count mean : String) : Nat := match Json.lookup raw count with
    | some value => countOf value
    | none => if (Json.lookup raw mean).isSome then n else 0
  let cpuMax ← percentOf R (get "cpu_max") (.fin 0)
  let cpuMin ← percentOf R (get "cpu_min") (.fin 100)
  let gpuMax ← percentOf R (get "gpu_max") (.fin 0)
  let ramMax ← percentOf R (get "ram_max") (.fin 0)
  let acMean ← percentOf R (get "ac_mean") (.fin 0)
  let idleMean ← percentOf R (get "idle_mean") (.fin 0)
  let updatedAt ← finiteNumber R (get "updated_at") (.fin 0)
  return {
    n := n
    cpuMean := cpuMean
    cpuMax := pyMax cpuMean cpuMax
    cpuMin := pyMin cpuMean cpuMin
    gpuMean := gpuMean
    gpuMax := pyMax gpuMean gpuMax
    gpuN := min gpuN n
    ramMean := ramMean
    ramMax := pyMax ramMean ramMax
    acMean := acMean
    idleMean := idleMean
    acN := min (flagCount "ac_n" "ac_mean") n
    idleN := min (flagCount "idle_n" "idle_mean") n
    updatedAt := pyMax (.fin 0) updatedAt }

/-- An entry that is no object leaves its bucket empty. -/
def readBucket (gpuSupported : Option Bool) : Json → Except String BucketStat
  | .obj raw => bucketFromDict R raw gpuSupported
  | _ => .ok {}

def declaredGpu (data : Dict) : Option Bool :=
  match Json.lookup data "gpu_supported" with
  | some (.bool declared) => some declared
  | _ => none

/-- The profile in the decoded file, or the text of the `ValueError` that is caught. -/
def readProfile : Json → Except String (Except String UsageProfiler)
  | .obj data =>
      match (Json.lookup data "buckets").getD (.arr []) with
      | .arr rawBuckets => do
          let buckets ← (rawBuckets.take bucketsPerWeek).mapM (readBucket R (declaredGpu data))
          let availability ← AvailabilityTracker.fromDict R (getField data "availability")
          return .ok {
            buckets := buckets ++ List.replicate (bucketsPerWeek - buckets.length) {}
            availability := availability
            gpuSupported := declaredGpu data }
      | _ => .ok (.error "profile buckets must be a JSON list")
  | _ => .ok (.error "profile root must be a JSON object")

/-- What the file system and the JSON decoder make of the profile file. The message is
that of a text that is not UTF-8, is no JSON, or is nested too deeply. -/
inductive ProfileFile where
  | absent
  | notAFile
  | oversized
  | undecodable (message : String)
  | decoded (data : Json)

/-- A profiler after `_load`. -/
structure Startup where
  profiler : UsageProfiler := {}
  loadWarning : Option String := none
  recovered : Bool := false
  recoveryBlocked : Bool := false

/-- Start afresh; a file that could be moved away is kept under another name. -/
def startFresh (warning : String) (moved : Bool) : Startup :=
  { loadWarning := some warning, recovered := moved, recoveryBlocked := !moved }

/-- `UsageProfiler(path)`, where `movable` tells whether the file can be moved away. -/
def startUp (movable : Bool) : ProfileFile → Except String Startup
  | .absent => .ok {}
  | .notAFile => .ok (startFresh "profile path is not a file" false)
  | .oversized => .ok (startFresh "profile exceeds the maximum expected size" movable)
  | .undecodable message => .ok (startFresh message movable)
  | .decoded data => do
      match ← readProfile R data with
      | .ok profiler => return { profiler := profiler }
      | .error warning => return startFresh warning movable

/-- `load_profile` followed by `summarize_profile`, in the offline report. -/
def reportFile : ProfileFile → Except String (Option Summary)
  | .decoded data => do
      match ← loadProfile R data with
      | some profile => return some (← summarizeProfile R (defaultAssumptions R) profile)
      | none => return none
  | _ => .ok none

end Reading

/-! ## What can be read -/

section Readable
variable {R : Rounding}

theorem finiteNumber_returns {value : Json} {default : PyFloat} :
    Returns (finiteNumber R value default) ↔ beyondFloat R value = false :=
  (returns_bind fun _ _ => iff_true_intro (returns_ok _)).trans
    ((iff_of_eq (and_true _)).trans floatOr_returns)

theorem percentOf_returns {value : Json} {default : PyFloat} :
    Returns (percentOf R value default) ↔ beyondFloat R value = false :=
  (returns_bind fun _ _ => iff_true_intro (returns_ok _)).trans
    ((iff_of_eq (and_true _)).trans finiteNumber_returns)

/-- The fields of a bucket that are read as floats. -/
def bucketFields : List String :=
  ["cpu_mean", "gpu_mean", "ram_mean", "cpu_max", "cpu_min", "gpu_max", "ram_max", "ac_mean",
    "idle_mean", "updated_at"]

theorem bucketFromDict_returns {raw : Dict} {gpuSupported : Option Bool} :
    Returns (bucketFromDict R raw gpuSupported) ↔ Fields R bucketFields raw := by
  unfold bucketFromDict
  dsimp only
  simp only [Fields, bucketFields, List.forall_mem_cons]
  refine (returns_bind fun _ _ => returns_bind fun _ _ => returns_bind fun _ _ =>
    returns_bind fun _ _ => returns_bind fun _ _ => returns_bind fun _ _ =>
    returns_bind fun _ _ => returns_bind fun _ _ => returns_bind fun _ _ =>
    returns_bind fun _ _ => iff_true_intro (returns_ok _)).trans ?_
  simp only [percentOf_returns, finiteNumber_returns]
  simp

/-- A decoded file of which every number that is read has a float. -/
def Loads (R : Rounding) (data : Json) : Prop :=
  ∀ fields raws, data = .obj fields → (Json.lookup fields "buckets").getD (.arr []) = .arr raws →
    (∀ raw ∈ raws.take bucketsPerWeek, ObjFields R bucketFields raw) ∧
      ObjFields R timingFields (getField fields "availability")

theorem readBucket_returns {gpuSupported : Option Bool} {raw : Json} :
    Returns (readBucket R gpuSupported raw) ↔ ObjFields R bucketFields raw := by
  cases raw with
  | obj fields =>
      refine bucketFromDict_returns.trans ⟨fun h raw' heq => ?_, fun h => h fields rfl⟩
      cases heq
      exact h
  | _ => exact iff_of_true (returns_ok _) nofun

theorem readProfile_returns {data : Json} : Returns (readProfile R data) ↔ Loads R data := by
  unfold readProfile
  cases data with
  | obj fields =>
      dsimp only
      cases hraws : (Json.lookup fields "buckets").getD (.arr []) with
      | arr raws =>
          dsimp only
          refine (returns_bind fun _ _ => returns_bind fun _ _ =>
            iff_true_intro (returns_ok _)).trans ?_
          rw [returns_mapM, fromDict_returns, and_true]
          simp only [readBucket_returns]
          constructor
          · intro h fields' raws' hobj harr
            cases hobj
            rw [hraws] at harr
            cases harr
            exact h
          · intro h
            exact h fields raws rfl hraws
      | _ =>
          refine iff_of_true (returns_ok _) fun fields' raws' hobj harr => ?_
          cases hobj
          rw [hraws] at harr
          cases harr
  | _ => exact iff_of_true (returns_ok _) nofun

theorem startUp_returns {movable : Bool} {file : ProfileFile} :
    Returns (startUp R movable file) ↔ ∀ data, file = .decoded data → Loads R data := by
  cases file with
  | decoded data =>
      refine (returns_bind fun read _ => (?_ : _ ↔ True)).trans ?_
      · cases read <;> exact iff_true_intro (returns_ok _)
      · rw [and_true, readProfile_returns]
        exact ⟨fun h data' heq => by cases heq; exact h, fun h => h data rfl⟩
  | _ => exact iff_of_true (returns_ok _) nofun

end Readable

/-! ## The loader's bounds -/

section Bounds
variable {R : Rounding}

def Within (low high x : PyFloat) : Prop := low.le x = true ∧ x.le high = true

/-- Every field of a bucket is in its range, and no reading was counted more often than
there were samples. -/
structure BucketStat.Bounded (b : BucketStat) : Prop where
  samples : b.n ≤ maxBucketSamples
  cpu : Envelope b.cpuMean b.cpuMax
  low : IsPct b.cpuMin
  gpu : Envelope b.gpuMean b.gpuMax
  ram : Envelope b.ramMean b.ramMax
  ac : IsPct b.acMean
  idle : IsPct b.idleMean
  gpuSamples : b.gpuN ≤ b.n
  acSamples : b.acN ≤ b.n
  idleSamples : b.idleN ≤ b.n
  updated : ∃ t, b.updatedAt = .fin t ∧ 0 ≤ t

structure TimingBounded (R : Rounding) (t : AvailabilityTracker) : Prop where
  first : Within (.fin 0) maxTimestampSeconds t.firstSampleAt
  last : Within (.fin 0) maxTimestampSeconds t.lastSampleAt
  observed : Within (.fin 0) maxTrackedSeconds t.observedSeconds
  unavailable : Within (.fin 0) maxTrackedSeconds t.unavailableSeconds
  gaps : 0 ≤ t.gapCount ∧ t.gapCount ≤ maxTrackedCount
  samples : 0 ≤ t.sampleCount ∧ t.sampleCount ≤ maxTrackedCount
  expected : Within (R.ofRat (1 / 1000)) maxExpectedIntervalSeconds t.expectedIntervalSeconds

/-- The lowest reading of a bucket is not above its mean. -/
def BucketStat.LowFirst (b : BucketStat) : Prop := b.cpuMin.val ≤ b.cpuMean.val

theorem finiteNumber_finite {value : Json} {d : Rat} {x : PyFloat}
    (h : finiteNumber R value (.fin d) = .ok x) : ∃ q, x = .fin q := by
  obtain ⟨y, -, hx⟩ := Results.bind_eq_ok.mp h
  cases hx
  cases y with
  | fin q => exact ⟨q, rfl⟩
  | nan => exact ⟨d, rfl⟩
  | inf n => exact ⟨d, rfl⟩

theorem percentOf_isPct {value : Json} {d : Rat} {x : PyFloat}
    (h : percentOf R value (.fin d) = .ok x) : IsPct x := by
  obtain ⟨y, hy, hx⟩ := Results.bind_eq_ok.mp h
  obtain ⟨q, rfl⟩ := finiteNumber_finite hy
  cases hx
  exact clamp_isPct _

theorem bucketFromDict_bounded {raw : Dict} {gpuSupported : Option Bool} {b : BucketStat}
    (h : bucketFromDict R raw gpuSupported = .ok b) : b.Bounded ∧ b.LowFirst := by
  unfold bucketFromDict at h
  dsimp only at h
  obtain ⟨cpuMean, hcpu, h⟩ := Results.bind_eq_ok.mp h
  obtain ⟨gpuMean, hgpu, h⟩ := Results.bind_eq_ok.mp h
  obtain ⟨ramMean, hram, h⟩ := Results.bind_eq_ok.mp h
  obtain ⟨cpuMax, hcpuMax, h⟩ := Results.bind_eq_ok.mp h
  obtain ⟨cpuMin, hcpuMin, h⟩ := Results.bind_eq_ok.mp h
  obtain ⟨gpuMax, hgpuMax, h⟩ := Results.bind_eq_ok.mp h
  obtain ⟨ramMax, hramMax, h⟩ := Results.bind_eq_ok.mp h
  obtain ⟨acMean, hac, h⟩ := Results.bind_eq_ok.mp h
  obtain ⟨idleMean, hidle, h⟩ := Results.bind_eq_ok.mp h
  obtain ⟨updatedAt, hupdated, h⟩ := Results.bind_eq_ok.mp h
  have hmean := percentOf_isPct hcpu
  have hlow := min_isPct hmean (percentOf_isPct hcpuMin)
  obtain ⟨t, rfl⟩ := finiteNumber_finite hupdated
  cases h
  constructor
  · exact {
      samples := min_le_left _ _
      cpu := envelope_max hmean (percentOf_isPct hcpuMax)
      low := hlow.1
      gpu := envelope_max (percentOf_isPct hgpu) (percentOf_isPct hgpuMax)
      ram := envelope_max (percentOf_isPct hram) (percentOf_isPct hramMax)
      ac := percentOf_isPct hac
      idle := percentOf_isPct hidle
      gpuSamples := min_le_right _ _
      acSamples := min_le_right _ _
      idleSamples := min_le_right _ _
      updated := ⟨max 0 t, PyNumber.pyMax_fin 0 t, le_max_left _ _⟩ }
  · exact hlow.2

theorem bounded_new : BucketStat.Bounded {} := by
  have hzero : IsPct (.fin 0) := isPct_fin.mpr ⟨le_rfl, by norm_num⟩
  have henv : Envelope (.fin 0) (.fin 0) := ⟨hzero, hzero, le_rfl⟩
  exact ⟨Nat.zero_le _, henv, isPct_fin.mpr ⟨by norm_num, le_rfl⟩, henv, henv, hzero, hzero,
    le_rfl, le_rfl, le_rfl, 0, rfl, le_rfl⟩

theorem clamp_within {a b : Rat} (hab : a ≤ b) (x : PyFloat) :
    Within (.fin a) (.fin b) (pyMin (.fin b) (pyMax (.fin a) x)) := by
  have hclamp : ∀ q : Rat, Within (.fin a) (.fin b) (pyMin (.fin b) (pyMax (.fin a) (.fin q))) := by
    intro q
    rw [PyNumber.pyMax_fin, PyNumber.pyMin_fin]
    unfold Within PyFloat.le
    simp [hab]
  cases x with
  | fin q => exact hclamp q
  | nan =>
      have := hclamp a
      rwa [PyNumber.pyMax_fin, max_self] at this
  | inf n =>
      cases n with
      | true =>
          have := hclamp a
          rwa [PyNumber.pyMax_fin, max_self] at this
      | false =>
          have := hclamp b
          rwa [PyNumber.pyMax_fin, max_eq_right hab, PyNumber.pyMin_fin, min_self] at this

theorem nonnegativeFinite_within {m d : Rat} (hm : 0 ≤ m) (hd : 0 ≤ d) (x : PyFloat) :
    Within (.fin 0) (.fin m) (pyMin (.fin m) (nonnegativeFinite x (.fin d))) := by
  have hdefault : pyMin (.fin m) (.fin d) = pyMin (.fin m) (pyMax (.fin 0) (.fin d)) := by
    rw [PyNumber.pyMax_fin, max_eq_right hd]
  cases x with
  | fin q => exact clamp_within hm (.fin q)
  | nan =>
      change Within _ _ (pyMin (.fin m) (.fin d))
      rw [hdefault]
      exact clamp_within hm _
  | inf n =>
      change Within _ _ (pyMin (.fin m) (.fin d))
      rw [hdefault]
      exact clamp_within hm _

theorem nonnegativeInt_bounded (value : Json) :
    0 ≤ min maxTrackedCount (nonnegativeInt value) ∧
      min maxTrackedCount (nonnegativeInt value) ≤ maxTrackedCount := by
  have hnn : 0 ≤ nonnegativeInt value := by
    unfold nonnegativeInt
    cases pyInt value with
    | none => exact le_rfl
    | some i => exact le_max_left 0 i
  exact ⟨le_min (by decide) hnn, min_le_left _ _⟩

theorem fromDict_bounded {e : Rat} (he : R.ofRat (1 / 1000) = .fin e) (hsmall : e ≤ 30)
    {value : Json} {t : AvailabilityTracker} (h : AvailabilityTracker.fromDict R value = .ok t) :
    TimingBounded R t := by
  have hdefault : TimingBounded R {} := by
    have hzero : ∀ m : Rat, 0 ≤ m → Within (.fin 0) (.fin m) (.fin 0) := by
      intro m hm
      simpa [Within, PyFloat.le] using hm
    refine ⟨hzero _ (by norm_num), hzero _ (by norm_num), hzero _ (by norm_num),
      hzero _ (by norm_num), by decide, by decide, ?_⟩
    rw [he]
    unfold Within PyFloat.le
    simp only [defaultExpectedIntervalSeconds, maxExpectedIntervalSeconds, decide_eq_true_eq]
    exact ⟨hsmall, by norm_num⟩
  unfold AvailabilityTracker.fromDict at h
  cases value with
  | obj raw =>
      dsimp only at h
      obtain ⟨first, hfirst, h⟩ := Results.bind_eq_ok.mp h
      obtain ⟨last, hlast, h⟩ := Results.bind_eq_ok.mp h
      obtain ⟨observed, hobserved, h⟩ := Results.bind_eq_ok.mp h
      obtain ⟨unavailable, hunavailable, h⟩ := Results.bind_eq_ok.mp h
      obtain ⟨expected, hexpected, h⟩ := Results.bind_eq_ok.mp h
      obtain ⟨_, -, hfirst⟩ := Results.bind_eq_ok.mp hfirst
      obtain ⟨_, -, hlast⟩ := Results.bind_eq_ok.mp hlast
      obtain ⟨_, -, hobserved⟩ := Results.bind_eq_ok.mp hobserved
      obtain ⟨_, -, hunavailable⟩ := Results.bind_eq_ok.mp hunavailable
      cases hfirst
      cases hlast
      cases hobserved
      cases hunavailable
      cases h
      refine ⟨nonnegativeFinite_within (by norm_num) le_rfl _,
        nonnegativeFinite_within (by norm_num) le_rfl _,
        nonnegativeFinite_within (by norm_num) le_rfl _,
        nonnegativeFinite_within (by norm_num) le_rfl _,
        nonnegativeInt_bounded _, nonnegativeInt_bounded _, ?_⟩
      dsimp only
      rw [he]
      exact clamp_within (by linarith) _
  | _ =>
      cases h
      exact hdefault

/-- The entries of the file's bucket list that are read, one for each hour of the week. -/
def ProfileFile.entries : ProfileFile → List Json
  | .decoded (.obj data) =>
      match (Json.lookup data "buckets").getD (.arr []) with
      | .arr rawBuckets => rawBuckets.take bucketsPerWeek
      | _ => []
  | _ => []

/-- A profiler within the loader's bounds: a bucket that the file holds has its readings
in order, the others are empty. -/
structure Startup.Bounded (R : Rounding) (file : ProfileFile) (s : Startup) : Prop where
  week : s.profiler.buckets.length = bucketsPerWeek
  buckets : ∀ b ∈ s.profiler.buckets, b.Bounded
  stored : ∀ (i : Nat) raw, file.entries[i]? = some (.obj raw) →
    ∃ b, s.profiler.buckets[i]? = some b ∧ b.LowFirst
  others : ∀ (i : Nat) b, s.profiler.buckets[i]? = some b →
    (∀ raw, file.entries[i]? ≠ some (.obj raw)) → b = {}
  timing : TimingBounded R s.profiler.availability

theorem timingBounded_new {e : Rat} (he : R.ofRat (1 / 1000) = .fin e) (hsmall : e ≤ 30) :
    TimingBounded R {} :=
  fromDict_bounded he hsmall (rfl : AvailabilityTracker.fromDict R .null = .ok {})

theorem bounded_fresh {e : Rat} (he : R.ofRat (1 / 1000) = .fin e) (hsmall : e ≤ 30)
    {file : ProfileFile} (hfile : file.entries = []) {s : Startup} (hs : s.profiler = {}) :
    s.Bounded R file := by
  have hnew : ∀ b ∈ s.profiler.buckets, b = {} := by
    rw [hs]
    exact fun b hb => List.eq_of_mem_replicate hb
  refine ⟨by rw [hs]; exact List.length_replicate, ?_, ?_, ?_, ?_⟩
  · intro b hb
    rw [hnew b hb]
    exact bounded_new
  · intro i raw hraw
    rw [hfile] at hraw
    cases hraw
  · intro i b hb _
    exact hnew b (List.mem_of_getElem? hb)
  · rw [hs]
    exact timingBounded_new he hsmall

theorem readProfile_bounded {e : Rat} (he : R.ofRat (1 / 1000) = .fin e) (hsmall : e ≤ 30)
    {data : Json} {p : UsageProfiler} (h : readProfile R data = .ok (.ok p)) {s : Startup}
    (hs : s.profiler = p) : s.Bounded R (.decoded data) := by
  unfold readProfile at h
  cases data with
  | obj fields =>
      dsimp only at h
      cases hraws : (Json.lookup fields "buckets").getD (.arr []) with
      | arr raws =>
          rw [hraws] at h
          obtain ⟨buckets, hbuckets, h⟩ := Results.bind_eq_ok.mp h
          obtain ⟨availability, havailability, h⟩ := Results.bind_eq_ok.mp h
          cases h
          have hentries : (ProfileFile.decoded (.obj fields)).entries = raws.take bucketsPerWeek := by
            simp [ProfileFile.entries, hraws]
          have hlen := (Results.mapM_forall₂ hbuckets).length_eq
          have hle : buckets.length ≤ bucketsPerWeek := by
            rw [← hlen]
            exact List.length_take_le _ _
          refine ⟨?_, ?_, ?_, ?_, ?_⟩
          · rw [hs, List.length_append, List.length_replicate]
            omega
          · intro b hb
            rw [hs] at hb
            cases List.mem_append.mp hb with
            | inl hb =>
                obtain ⟨raw, -, hraw⟩ := Results.mapM_mem hbuckets b hb
                cases raw with
                | obj r => exact (bucketFromDict_bounded hraw).1
                | _ => cases hraw; exact bounded_new
            | inr hb =>
                rw [List.eq_of_mem_replicate hb]
                exact bounded_new
          · intro i raw hraw
            rw [hentries] at hraw
            obtain ⟨b, hb, hread⟩ := Results.mapM_place hbuckets hraw
            refine ⟨b, ?_, (bucketFromDict_bounded hread).2⟩
            rw [hs]
            exact List.getElem?_append_left (List.getElem?_eq_some_iff.mp hb).1 ▸ hb
          · intro i b hb hnone
            rw [hs] at hb
            by_cases hi : i < buckets.length
            · rw [List.getElem?_append_left hi] at hb
              obtain ⟨raw, hraw, hread⟩ := Results.mapM_source hbuckets hb
              rw [hentries] at hnone
              cases raw with
              | obj r => exact absurd hraw (hnone r)
              | _ => cases hread; rfl
            · rw [List.getElem?_append_right (by omega)] at hb
              exact List.eq_of_mem_replicate (List.mem_of_getElem? hb)
          · rw [hs]
            exact fromDict_bounded he hsmall havailability
      | _ =>
          rw [hraws] at h
          cases h
  | _ => cases h

theorem startUp_bounded {e : Rat} (he : R.ofRat (1 / 1000) = .fin e) (hsmall : e ≤ 30)
    {movable : Bool} {file : ProfileFile} {s : Startup} (h : startUp R movable file = .ok s) :
    s.Bounded R file := by
  cases file with
  | decoded data =>
      obtain ⟨read, hread, h⟩ := Results.bind_eq_ok.mp h
      cases read with
      | ok p =>
          cases h
          exact readProfile_bounded he hsmall hread rfl
      | error warning =>
          cases h
          refine bounded_fresh he hsmall ?_ rfl
          unfold readProfile at hread
          cases data with
          | obj fields =>
              dsimp only at hread
              cases hraws : (Json.lookup fields "buckets").getD (.arr []) with
              | arr raws =>
                  rw [hraws] at hread
                  obtain ⟨_, -, hread⟩ := Results.bind_eq_ok.mp hread
                  obtain ⟨_, -, hread⟩ := Results.bind_eq_ok.mp hread
                  cases hread
              | _ => simp [ProfileFile.entries, hraws]
          | _ => rfl
  | _ =>
      cases h
      exact bounded_fresh he hsmall rfl rfl

end Bounds

end OneCompute.Worker
