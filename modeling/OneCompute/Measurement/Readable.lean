import OneCompute.Lib.PyFloatRound
import OneCompute.Lib.PyMean
import OneCompute.Lib.Results
import OneCompute.Measurement.Headroom

/-!
When stored measurements can be read: no integer is beyond the floats, nor is the sum of
a column that is averaged.
-/

namespace OneCompute.Measurement
open PyFloat (val AtLeast)
open PyNumber (Rounding floatOr)
open Jobkit (pyInt)
open Results (Returns returns_ok returns_bind returns_mapM)

/-- `raw.get(name)`. -/
def getField (raw : Dict) (name : String) : Json := (Json.lookup raw name).getD .null

variable {R : Rounding}

/-! ## Fields -/

/-- An integer that has no float. -/
def beyondFloat (R : Rounding) : Json → Bool
  | .int i => !(R.round i).isFinite
  | _ => false

theorem floatOr_returns {value : Json} {default : PyFloat} :
    Returns (floatOr R default value) ↔ beyondFloat R value = false := by
  unfold floatOr
  cases value with
  | int i =>
      rw [PyNumber.float, beyondFloat]
      cases R.round i <;> simp [PyFloat.isFinite]
  | str s =>
      rw [PyNumber.float]
      cases PyNumber.floatOfText R s <;> simp [beyondFloat]
  | _ => simp [PyNumber.float, beyondFloat]

/-- No field of an object that is read as a float holds an integer that has none. -/
def Fields (R : Rounding) (names : List String) (raw : Dict) : Prop :=
  ∀ name ∈ names, beyondFloat R (getField raw name) = false

/-- The fields of the observer's timing that are read as floats. -/
def timingFields : List String :=
  ["first_sample_at", "last_sample_at", "observed_seconds", "unavailable_seconds",
    "expected_interval_seconds"]

/-- An object of which those fields can be read, or no object at all. -/
def ObjFields (R : Rounding) (names : List String) (value : Json) : Prop :=
  ∀ raw, value = .obj raw → Fields R names raw

theorem fromDict_returns {value : Json} :
    Returns (AvailabilityTracker.fromDict R value) ↔ ObjFields R timingFields value := by
  unfold AvailabilityTracker.fromDict
  cases value with
  | obj raw =>
      have hfield : ∀ (v : Json) (d : PyFloat),
          Returns (nonnegativeFiniteJson R v d) ↔ beyondFloat R v = false := fun v d =>
        (returns_bind fun _ _ => iff_true_intro (returns_ok _)).trans
          ((iff_of_eq (and_true _)).trans floatOr_returns)
      have hobj : ObjFields R timingFields (.obj raw) ↔ Fields R timingFields raw :=
        ⟨fun h => h raw rfl, fun h raw' heq => by cases heq; exact h⟩
      rw [hobj]
      dsimp only
      simp only [Fields, timingFields, List.forall_mem_cons]
      refine (returns_bind fun _ _ => returns_bind fun _ _ => returns_bind fun _ _ =>
        returns_bind fun _ _ => returns_bind fun _ _ => iff_true_intro (returns_ok _)).trans ?_
      simp only [hfield, getField]
      simp
  | _ => exact iff_of_true (returns_ok _) nofun

/-! ## Columns -/

/-- The partial sums of a column stay within the floats. -/
def Sums (R : Rounding) (xs : List PyFloat) : Prop :=
  Returns (xs.foldlM (Rounding.FSum.add R) {})

theorem fsum_returns_finite {xs : List PyFloat} (h : ∀ x ∈ xs, x.isFinite = true) :
    Returns (R.fsum xs) ↔ Sums R xs := by
  refine PyNumber.fsum_returns fun hmem => ?_
  cases h _ hmem

theorem fsum_returns_atLeast {xs : List PyFloat} (h : ∀ x ∈ xs, AtLeast 0 x) :
    Returns (R.fsum xs) ↔ Sums R xs := by
  refine PyNumber.fsum_returns fun hmem => ?_
  cases h _ hmem

theorem fmean_returns {xs : List PyFloat} :
    Returns (R.fmean xs) ↔ Returns (R.fsum xs) :=
  (returns_bind fun _ _ => iff_true_intro (returns_ok _)).trans (iff_of_eq (and_true _))

theorem metricOf_returns {a : Assumptions} {means peaks spares : List PyFloat} :
    Returns (metricOf R a means peaks spares) ↔
      Returns (R.fsum means) ∧ Returns (R.fsum spares) := by
  rw [← fmean_returns, ← fmean_returns]
  refine returns_bind fun _ _ => (returns_bind fun _ _ => ?_).trans (iff_of_eq (and_true _))
  exact iff_true_intro (returns_ok _)

structure FiniteBucket (b : Bucket) : Prop where
  cpuMean : b.cpuMean.isFinite = true
  gpuMean : b.gpuMean.isFinite = true
  ramMean : b.ramMean.isFinite = true
  acMean : b.acMean.isFinite = true
  idleMean : b.idleMean.isFinite = true

/-- The columns that are averaged can be summed. -/
structure ColumnsFit (R : Rounding) (profile : Profile) : Prop where
  cpu : Sums R (profile.populated.map (·.cpuMean))
  cpuSpare : Sums R (profile.populated.map fun b =>
    cpuSpare R (defaultAssumptions R).margin b.cpuMean)
  ram : Sums R (profile.populated.map (·.ramMean))
  gpu : Sums R ((profile.populated.filter (hasGpuSample profile)).map (·.gpuMean))
  gpuSpare : Sums R ((profile.populated.filter (hasGpuSample profile)).map fun b =>
    gpuSpare R b.gpuMean)
  ac : Sums R (profile.populated.map (·.acMean))
  idle : Sums R (profile.populated.map (·.idleMean))

theorem summarizeProfile_returns {profile : Profile}
    (hfin : ∀ b ∈ profile.populated, FiniteBucket b) :
    Returns (summarizeProfile R (defaultAssumptions R) profile) ↔
      ObjFields R timingFields profile.availability ∧ ColumnsFit R profile := by
  have hcolumn : ∀ {f : Bucket → PyFloat} {bs : List Bucket}, (∀ b ∈ bs, b ∈ profile.populated) →
      (∀ b, FiniteBucket b → (f b).isFinite = true) →
      (Returns (R.fsum (bs.map f)) ↔ Sums R (bs.map f)) := by
    intro f bs hsub hf
    apply fsum_returns_finite
    intro x hx
    obtain ⟨b, hb, rfl⟩ := List.mem_map.mp hx
    exact hf b (hfin b (hsub b hb))
  have hspare : ∀ {f : Bucket → PyFloat} (bs : List Bucket), (∀ b, AtLeast 0 (f b)) →
      (Returns (R.fsum (bs.map f)) ↔ Sums R (bs.map f)) := by
    intro f bs hf
    apply fsum_returns_atLeast
    intro x hx
    obtain ⟨b, -, rfl⟩ := List.mem_map.mp hx
    exact hf b
  have hgpu : ∀ b ∈ profile.populated.filter (hasGpuSample profile), b ∈ profile.populated :=
    fun b hb => (List.mem_filter.mp hb).1
  have havail : Returns (summarizeAvailability R profile.availability) ↔
      ObjFields R timingFields profile.availability :=
    (returns_bind fun _ _ => iff_true_intro (returns_ok _)).trans
      ((iff_of_eq (and_true _)).trans fromDict_returns)
  have hempty : Sums R [] := returns_ok _
  unfold summarizeProfile
  dsimp only
  refine (returns_bind fun _ _ => ?_).trans (Iff.and havail Iff.rfl)
  by_cases hnil : profile.populated = []
  · rw [if_pos hnil]
    refine iff_of_true (returns_ok _) ?_
    constructor <;> simp [hnil, hempty]
  · rw [if_neg hnil]
    have hmean : ∀ f : Bucket → PyFloat, (∀ b, FiniteBucket b → (f b).isFinite = true) →
        (Returns (R.fmean (profile.populated.map f)) ↔ Sums R (profile.populated.map f)) :=
      fun f hf => fmean_returns.trans (hcolumn (fun b hb => hb) hf)
    -- what follows the GPU metric, whether it was sampled or not
    have htail : ∀ {s : PyFloat → PyFloat → Summary}, Returns (do
        let acAvg ← R.fmean (profile.populated.map (·.acMean))
        let idleAvg ← R.fmean (profile.populated.map (·.idleMean))
        return s acAvg idleAvg : Except String Summary) ↔
        Sums R (profile.populated.map (·.acMean)) ∧
          Sums R (profile.populated.map (·.idleMean)) := by
      intro s
      rw [← hmean _ fun b h => h.acMean, ← hmean _ fun b h => h.idleMean]
      refine (returns_bind fun _ _ => (returns_bind fun _ _ => ?_).trans (iff_of_eq (and_true _)))
      exact iff_true_intro (returns_ok _)
    have hgpuTail : ∀ {s : Metric → PyFloat → PyFloat → Summary}, Returns (
        if (!(profile.populated.filter (hasGpuSample profile)).isEmpty) = true then do
          let gpu ← metricOf R (defaultAssumptions R)
            ((profile.populated.filter (hasGpuSample profile)).map (·.gpuMean))
            ((profile.populated.filter (hasGpuSample profile)).map (·.gpuMax))
            ((profile.populated.filter (hasGpuSample profile)).map fun b => gpuSpare R b.gpuMean)
          let acAvg ← R.fmean (profile.populated.map (·.acMean))
          let idleAvg ← R.fmean (profile.populated.map (·.idleMean))
          return s gpu acAvg idleAvg
        else do
          let gpu ← pure {}
          let acAvg ← R.fmean (profile.populated.map (·.acMean))
          let idleAvg ← R.fmean (profile.populated.map (·.idleMean))
          return s gpu acAvg idleAvg : Except String Summary) ↔
        (Sums R ((profile.populated.filter (hasGpuSample profile)).map (·.gpuMean)) ∧
          Sums R ((profile.populated.filter (hasGpuSample profile)).map fun b =>
            gpuSpare R b.gpuMean)) ∧
        Sums R (profile.populated.map (·.acMean)) ∧
        Sums R (profile.populated.map (·.idleMean)) := by
      intro s
      split
      · refine (returns_bind fun _ _ => htail).trans (Iff.and ?_ Iff.rfl)
        exact metricOf_returns.trans
          (Iff.and (hcolumn hgpu fun b h => h.gpuMean) (hspare _ fun b => AtLeast.pyMax_left _))
      next hnone =>
        have hnil : profile.populated.filter (hasGpuSample profile) = [] := by
          simpa using hnone
        rw [hnil]
        refine (returns_bind fun _ _ => htail).trans (Iff.and ?_ Iff.rfl)
        exact iff_of_true (returns_ok _) ⟨hempty, hempty⟩
    have hcpu : Returns (metricOf R (defaultAssumptions R) (profile.populated.map (·.cpuMean))
        (profile.populated.map (·.cpuMax)) (profile.populated.map fun b =>
          cpuSpare R (defaultAssumptions R).margin b.cpuMean)) ↔ _ :=
      metricOf_returns.trans
        (Iff.and (hcolumn (fun b hb => hb) fun b h => h.cpuMean)
          (hspare _ fun b => AtLeast.pyMax_left _))
    refine ((returns_bind fun _ _ => returns_bind fun _ _ => hgpuTail).trans
      (Iff.and hcpu (Iff.and (hmean _ fun b h => h.ramMean) Iff.rfl))).trans ?_
    exact ⟨fun h => ⟨h.1.1, h.1.2, h.2.1, h.2.2.1.1, h.2.2.1.2, h.2.2.2.1, h.2.2.2.2⟩,
      fun h => ⟨⟨h.cpu, h.cpuSpare⟩, h.ram, ⟨h.gpu, h.gpuSpare⟩, h.ac, h.idle⟩⟩

/-- The fields of a bucket that the report reads. -/
def reportFields : List String :=
  ["cpu_mean", "cpu_max", "gpu_mean", "gpu_max", "ram_mean", "ram_max", "ac_mean", "idle_mean"]

/-- A bucket with a positive number of samples. -/
def Populated (raw : Dict) : Prop :=
  ∃ n, pyInt ((Json.lookup raw "n").getD (.int 0)) = some n ∧ 0 < n

theorem finite_returns {value : Json} :
    Returns (finite R value) ↔ beyondFloat R value = false :=
  (returns_bind fun _ _ => iff_true_intro (returns_ok _)).trans
    ((iff_of_eq (and_true _)).trans floatOr_returns)

theorem beyondFloat_getD (raw : Dict) (name : String) :
    beyondFloat R ((Json.lookup raw name).getD (.float (.fin 0))) =
      beyondFloat R (getField raw name) := by
  unfold getField
  cases Json.lookup raw name <;> rfl

theorem normalizeBucket_returns {value : Json} :
    Returns (normalizeBucket R value) ↔
      ∀ raw, value = .obj raw → Populated raw → Fields R reportFields raw := by
  cases value with
  | obj raw =>
      unfold normalizeBucket
      dsimp only
      cases hn : pyInt ((Json.lookup raw "n").getD (.int 0)) with
      | none =>
          refine iff_of_true (returns_ok _) fun raw' heq hpop => ?_
          cases heq
          obtain ⟨n, hn', -⟩ := hpop
          rw [hn] at hn'
          cases hn'
      | some n =>
          dsimp only
          by_cases hpos : n ≤ 0
          · rw [if_pos hpos]
            refine iff_of_true (returns_ok _) fun raw' heq hpop => ?_
            cases heq
            obtain ⟨m, hm, hpos'⟩ := hpop
            rw [hn] at hm
            cases hm
            omega
          · rw [if_neg hpos]
            have hobj : (∀ raw', Json.obj raw = .obj raw' → Populated raw' →
                Fields R reportFields raw') ↔ Fields R reportFields raw :=
              ⟨fun h => h raw rfl ⟨n, hn, not_le.mp hpos⟩, fun h raw' heq _ => by
                cases heq
                exact h⟩
            rw [hobj]
            simp only [Fields, reportFields, List.forall_mem_cons]
            refine (returns_bind fun _ _ => returns_bind fun _ _ => returns_bind fun _ _ =>
              returns_bind fun _ _ => returns_bind fun _ _ => returns_bind fun _ _ =>
              returns_bind fun _ _ => returns_bind fun _ _ =>
              iff_true_intro (returns_ok _)).trans ?_
            simp only [finite_returns, beyondFloat_getD]
            simp
  | _ => exact iff_of_true (returns_ok _) nofun

theorem normalizeBuckets_returns {raws : List Json} :
    Returns (normalizeBuckets R (.arr raws)) ↔ ∀ value ∈ raws.take bucketsPerWeek,
      ∀ raw, value = .obj raw → Populated raw → Fields R reportFields raw := by
  refine (returns_bind fun _ _ => iff_true_intro (returns_ok _)).trans
    ((iff_of_eq (and_true _)).trans (returns_mapM.trans ?_))
  simp only [normalizeBucket_returns]

theorem finite_finite {value : Json} {x : PyFloat} (h : finite R value = .ok x) :
    x.isFinite = true := by
  obtain ⟨y, -, hx⟩ := Results.bind_eq_ok.mp h
  cases hx
  cases y <;> rfl

theorem normalizeBuckets_finite {raws : List Json} {bs : List Bucket}
    (h : normalizeBuckets R (.arr raws) = .ok bs) : ∀ b ∈ bs, FiniteBucket b := by
  obtain ⟨buckets, hbuckets, h⟩ := Results.bind_eq_ok.mp h
  cases h
  intro b hb
  obtain ⟨value, -, hvalue⟩ := Results.mapM_mem hbuckets _ (List.reduceOption_mem_iff.mp hb)
  unfold normalizeBucket at hvalue
  split at hvalue
  · split at hvalue
    · cases hvalue
    · split at hvalue
      · cases hvalue
      · obtain ⟨_, h1, hvalue⟩ := Results.bind_eq_ok.mp hvalue
        obtain ⟨_, h2, hvalue⟩ := Results.bind_eq_ok.mp hvalue
        obtain ⟨_, h3, hvalue⟩ := Results.bind_eq_ok.mp hvalue
        obtain ⟨_, h4, hvalue⟩ := Results.bind_eq_ok.mp hvalue
        obtain ⟨_, h5, hvalue⟩ := Results.bind_eq_ok.mp hvalue
        obtain ⟨_, h6, hvalue⟩ := Results.bind_eq_ok.mp hvalue
        obtain ⟨_, h7, hvalue⟩ := Results.bind_eq_ok.mp hvalue
        obtain ⟨_, h8, hvalue⟩ := Results.bind_eq_ok.mp hvalue
        cases hvalue
        exact ⟨finite_finite h1, finite_finite h3, finite_finite h5, finite_finite h7,
          finite_finite h8⟩
  · cases hvalue

end OneCompute.Measurement
