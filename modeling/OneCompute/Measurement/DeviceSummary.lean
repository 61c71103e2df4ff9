import OneCompute.Measurement.FleetView

/-!
What the summary of a device says of its buckets and of its observer's timing, in
exact arithmetic.
-/

namespace OneCompute.Measurement
open PyFloat (val fin_val pyMax pyMin)
open PyNumber (exact maxOf fmean_exact maxOf_exact)
open Mean (mean)

structure IsPct (x : PyFloat) : Prop where
  finite : x.isFinite = true
  low : 0 ≤ x.val
  high : x.val ≤ 100

/-- A mean below its peak. -/
structure Envelope (avg max : PyFloat) : Prop where
  level : IsPct avg
  top : IsPct max
  ordered : avg.val ≤ max.val

theorem isPct_fin {q : Rat} : IsPct (.fin q) ↔ 0 ≤ q ∧ q ≤ 100 :=
  ⟨fun h => ⟨h.low, h.high⟩, fun h => ⟨rfl, h.1, h.2⟩⟩

theorem isPct_zero : IsPct (.fin 0) := isPct_fin.mpr ⟨le_rfl, by norm_num⟩

theorem clamp_isPct (x : PyFloat) : IsPct (pyMax (.fin 0) (pyMin (.fin 100) x)) := by
  obtain ⟨p, hp, hrange⟩ := PyNumber.clamp_mem (by norm_num : (0 : Rat) ≤ 100) x
  rw [hp]
  exact isPct_fin.mpr hrange

theorem envelope_max {m x : PyFloat} (hm : IsPct m) (hx : IsPct x) : Envelope m (pyMax m x) := by
  rw [fin_val hm.finite, fin_val hx.finite, PyNumber.pyMax_fin]
  exact ⟨isPct_fin.mpr ⟨hm.low, hm.high⟩,
    isPct_fin.mpr ⟨hm.low.trans (le_max_left _ _), max_le hm.high hx.high⟩, le_max_left _ _⟩

theorem min_isPct {x y : PyFloat} (hx : IsPct x) (hy : IsPct y) :
    IsPct (pyMin x y) ∧ (pyMin x y).val ≤ x.val := by
  rw [fin_val hx.finite, fin_val hy.finite, PyNumber.pyMin_fin]
  exact ⟨isPct_fin.mpr ⟨le_min hx.low hy.low, (min_le_left _ _).trans hx.high⟩, min_le_left _ _⟩

structure Bucket.Sane (b : Bucket) : Prop where
  cpu : Envelope b.cpuMean b.cpuMax
  gpu : Envelope b.gpuMean b.gpuMax
  ram : IsPct b.ramMean
  ac : IsPct b.acMean
  idle : IsPct b.idleMean

/-- Fields in range; a mean may be above its peak. -/
structure Bucket.InRange (b : Bucket) : Prop where
  cpu : IsPct b.cpuMean ∧ IsPct b.cpuMax
  gpu : IsPct b.gpuMean ∧ IsPct b.gpuMax
  ram : IsPct b.ramMean
  ac : IsPct b.acMean
  idle : IsPct b.idleMean

theorem Bucket.Sane.inRange {b : Bucket} (h : b.Sane) : b.InRange :=
  ⟨⟨h.cpu.level, h.cpu.top⟩, ⟨h.gpu.level, h.gpu.top⟩, h.ram, h.ac, h.idle⟩

structure AvailabilityTracker.Sane (t : AvailabilityTracker) : Prop where
  observed : t.observedSeconds.isFinite = true ∧ 0 ≤ t.observedSeconds.val
  unavailable : t.unavailableSeconds.isFinite = true ∧ 0 ≤ t.unavailableSeconds.val

/-! ## Readings -/

def Reading.of (avg max : Bucket → PyFloat) (margin : Rat) (bs : List Bucket) : Reading where
  avg := mean (bs.map fun b => (avg b).val)
  peak := Mean.peak (bs.map fun b => (max b).val)
  spare := mean (bs.map fun b => Max.max 0 (100 - (avg b).val - margin))

theorem mean_pct {bs : List Bucket} {f : Bucket → Rat} (h : ∀ b ∈ bs, 0 ≤ f b ∧ f b ≤ 100) :
    0 ≤ mean (bs.map f) ∧ mean (bs.map f) ≤ 100 := by
  by_cases hnil : bs = []
  · subst hnil
    simp
  · exact Mean.mean_mem (by simpa using hnil) (by simpa using h)

theorem Reading.of_inRange {avg max : Bucket → PyFloat} {margin : Rat} {bs : List Bucket}
    (h : ∀ b ∈ bs, Envelope (avg b) (max b)) (hmargin : 0 ≤ margin) :
    (Reading.of avg max margin bs).InRange := by
  have hpeak : 0 ≤ Mean.peak (bs.map fun b => (max b).val) ∧
      Mean.peak (bs.map fun b => (max b).val) ≤ 100 :=
    Mean.peak_mem (by norm_num) (by simpa using fun b hb => (h b hb).top.high)
  refine ⟨(mean_pct fun b hb => ⟨(h b hb).level.low, (h b hb).level.high⟩).1, ?_, hpeak.2, ?_⟩
  · by_cases hnil : bs = []
    · subst hnil
      simp [Reading.of]
    · apply (Mean.mean_mem (by simpa using hnil) (a := 0) _).2
      intro x hx
      obtain ⟨b, hb, rfl⟩ := List.mem_map.mp hx
      exact ⟨(h b hb).level.low, (h b hb).ordered.trans (Mean.le_peak (List.mem_map_of_mem hb))⟩
  · apply mean_pct
    intro b hb
    exact ⟨le_max_left _ _, max_le (by norm_num) (by linarith [(h b hb).level.low])⟩

theorem metricOf_buckets {avg max : Bucket → PyFloat} {spare : Bucket → PyFloat} {margin : Rat}
    {bs : List Bucket} (h : ∀ b ∈ bs, IsPct (avg b) ∧ IsPct (max b))
    (hspare : ∀ b ∈ bs, spare b = .fin (Max.max 0 (100 - (avg b).val - margin))) :
    metricOf exact (defaultAssumptions exact) (bs.map avg) (bs.map max) (bs.map spare) =
      .ok (Reading.of avg max margin bs).metric := by
  have hfin : ∀ x ∈ bs.map spare, x.isFinite = true := by
    intro x hx
    obtain ⟨b, hb, rfl⟩ := List.mem_map.mp hx
    rw [hspare b hb]
    rfl
  have hvals : (bs.map spare).map val =
      bs.map fun b => Max.max 0 (100 - (avg b).val - margin) := by
    rw [List.map_map]
    apply List.map_congr_left
    intro b hb
    rw [Function.comp_apply, hspare b hb]
    rfl
  rw [metricOf_exact (by simpa using fun b hb => (h b hb).1.finite)
    (by simpa using fun b hb => (h b hb).2.finite)
    (by simpa using fun b hb => (h b hb).2.low) hfin, hvals, List.map_map, List.map_map]
  rfl

theorem cpuSpare_exact {x : PyFloat} (h : IsPct x) :
    cpuSpare exact (.fin 25) x = .fin (max 0 (100 - x.val - 25)) := by
  unfold cpuSpare
  rw [fin_val h.finite, PyNumber.exact_sub, PyNumber.exact_sub, PyNumber.pyMax_fin]
  rfl

theorem gpuSpare_exact {x : PyFloat} (h : IsPct x) :
    gpuSpare exact x = .fin (max 0 (100 - x.val - 0)) := by
  unfold gpuSpare
  rw [fin_val h.finite, PyNumber.exact_sub, PyNumber.pyMax_fin, sub_zero]
  rfl

/-! ## Devices -/

/-- A device with these buckets, of which `gpu` have a GPU sample. -/
def deviceView (bs gpu : List Bucket) (t : AvailabilityTracker) : DeviceView :=
  let observed := t.observedSeconds.val
  let unavailable := t.unavailableSeconds.val
  { coverage := bs.length
    cpu := Reading.of Bucket.cpuMean Bucket.cpuMax 25 bs
    gpu := Reading.of Bucket.gpuMean Bucket.gpuMax 0 gpu
    gpuSampled := !gpu.isEmpty
    ram := mean (bs.map fun b => b.ramMean.val)
    ac := mean (bs.map fun b => b.acMean.val)
    timed := decide (0 < observed + unavailable)
    observed := 24 * (observed / (observed + unavailable))
    unavailable := 24 * (unavailable / (observed + unavailable)) }

theorem deviceView_inRange {bs gpu : List Bucket} {t : AvailabilityTracker}
    (hbs : ∀ b ∈ bs, b.Sane) (hgpu : ∀ b ∈ gpu, b.Sane) (hlen : bs.length ≤ bucketsPerWeek)
    (ht : t.Sane) : (deviceView bs gpu t).InRange where
  coverage := hlen
  cpu := Reading.of_inRange (fun b hb => (hbs b hb).cpu) (by norm_num)
  gpu := Reading.of_inRange (fun b hb => (hgpu b hb).gpu) le_rfl
  ram := mean_pct fun b hb => ⟨(hbs b hb).ram.low, (hbs b hb).ram.high⟩
  ac := mean_pct fun b hb => ⟨(hbs b hb).ac.low, (hbs b hb).ac.high⟩
  observed := by
    have ho := ht.observed.2
    have hu := ht.unavailable.2
    dsimp only [deviceView]
    positivity
  unavailable := by
    have ho := ht.observed.2
    have hu := ht.unavailable.2
    dsimp only [deviceView]
    positivity
  day := by
    dsimp only [deviceView]
    rw [← mul_add, ← add_div]
    linarith [div_self_le_one (t.observedSeconds.val + t.unavailableSeconds.val)]
  untimed := by
    intro h
    have ho := ht.observed.2
    have hu := ht.unavailable.2
    have hsum : t.observedSeconds.val + t.unavailableSeconds.val = 0 := by
      have hle : ¬ 0 < t.observedSeconds.val + t.unavailableSeconds.val := by
        simpa [deviceView] using h
      linarith
    simp [deviceView, hsum]

theorem summarizeTracker_shows {t : AvailabilityTracker} (ht : t.Sane) (bs gpu : List Bucket) :
    (summarizeTracker exact t).Shows (deviceView bs gpu t) := by
  have ho := fin_val ht.observed.1
  have hu := fin_val ht.unavailable.1
  have hspan : t.spanSeconds exact = .fin (t.observedSeconds.val + t.unavailableSeconds.val) := by
    rw [AvailabilityTracker.spanSeconds, ho, hu]
    rfl
  unfold summarizeTracker
  dsimp only
  rw [hspan]
  by_cases hpos : 0 < t.observedSeconds.val + t.unavailableSeconds.val
  · rw [if_neg (by simpa [PyFloat.le] using hpos), ho, hu]
    refine ⟨hpos.le, rfl, ?_, ?_, ?_⟩
    · simp [deviceView]
    · simp [deviceView]
    · simp [PyFloat.isFinite]
  · have hzero : t.observedSeconds.val + t.unavailableSeconds.val = 0 := by
      linarith [ht.observed.2, ht.unavailable.2]
    rw [if_pos (by simpa [PyFloat.le] using hpos)]
    refine ⟨le_rfl, ?_, ?_, ?_, ?_⟩
    · simp [deviceView, hzero, PyFloat.lt]
    · simp [deviceView, hzero]
    · simp [deviceView, hzero]
    · simp [PyFloat.isFinite]

/-- What a summary is made of. -/
structure Summary.Made (R : PyNumber.Rounding) (a : Assumptions) (profile : Profile) (s : Summary) :
    Prop where
  availability : summarizeAvailability R profile.availability = .ok s.availability
  coverage : s.coverageBuckets = profile.populated.length
  cpu : metricOf R a (profile.populated.map (·.cpuMean)) (profile.populated.map (·.cpuMax))
    (profile.populated.map fun b => cpuSpare R a.margin b.cpuMean) = .ok s.cpu
  headroom : s.ram.headroom = pyMax (.fin 0) (R.sub (.fin 100) s.ram.avg)

theorem summarizeProfile_made {R : PyNumber.Rounding} {a : Assumptions} {profile : Profile}
    {s : Summary} (hne : profile.populated ≠ []) (h : summarizeProfile R a profile = .ok s) :
    s.Made R a profile := by
  obtain ⟨availability, havail, h⟩ := Results.bind_eq_ok.mp h
  rw [if_neg hne] at h
  obtain ⟨cpu, hcpu, h⟩ := Results.bind_eq_ok.mp h
  obtain ⟨avgRam, -, h⟩ := Results.bind_eq_ok.mp h
  dsimp only at h
  split at h
  · obtain ⟨gpu, -, h⟩ := Results.bind_eq_ok.mp h
    obtain ⟨acAvg, -, h⟩ := Results.bind_eq_ok.mp h
    obtain ⟨idleAvg, -, h⟩ := Results.bind_eq_ok.mp h
    cases h
    exact ⟨havail, rfl, hcpu, rfl⟩
  · obtain ⟨gpu, -, h⟩ := Results.bind_eq_ok.mp h
    obtain ⟨acAvg, -, h⟩ := Results.bind_eq_ok.mp h
    obtain ⟨idleAvg, -, h⟩ := Results.bind_eq_ok.mp h
    cases h
    exact ⟨havail, rfl, hcpu, rfl⟩

theorem summarizeProfile_exact (profile : Profile) (hrange : ∀ b ∈ profile.populated, b.InRange)
    {a : AvailabilitySummary} (ha : summarizeAvailability exact profile.availability = .ok a)
    (t : AvailabilityTracker) :
    ∃ s, summarizeProfile exact (defaultAssumptions exact) profile = .ok s ∧
      s.Shows (deviceView profile.populated (profile.populated.filter (hasGpuSample profile)) t) ∧
      s.availability = a := by
  have hgpu : ∀ b ∈ profile.populated.filter (hasGpuSample profile), b.InRange :=
    fun b hb => hrange b (List.mem_of_mem_filter hb)
  unfold summarizeProfile
  dsimp only
  rw [ha]
  by_cases hnil : profile.populated = []
  · dsimp only [bind, Except.bind]
    rw [if_pos hnil]
    refine ⟨_, rfl, ?_, rfl⟩
    rw [hnil]
    exact ⟨rfl, by simp [deviceView, Reading.of, Reading.metric_zero],
      by simp [deviceView, Reading.of, Reading.metric_zero], rfl, by simp [deviceView],
      by simp [deviceView], rfl⟩
  · have hcpu := metricOf_buckets (fun b hb => (hrange b hb).cpu)
      (fun b hb => cpuSpare_exact (hrange b hb).cpu.1)
    have hmetric := metricOf_buckets (fun b hb => (hgpu b hb).gpu)
      (fun b hb => gpuSpare_exact (hgpu b hb).gpu.1)
    have hmean : ∀ f : Bucket → PyFloat, (∀ b ∈ profile.populated, IsPct (f b)) →
        exact.fmean (profile.populated.map f) =
          .ok (.fin (mean (profile.populated.map fun b => (f b).val))) := by
      intro f hf
      rw [fmean_exact (by simpa using fun b hb => (hf b hb).finite), List.map_map]
      rfl
    have hmargin : (defaultAssumptions exact).margin = .fin 25 := rfl
    rw [hmargin, hcpu, hmean _ (fun b hb => (hrange b hb).ram),
      hmean _ (fun b hb => (hrange b hb).ac), hmean _ (fun b hb => (hrange b hb).idle), hmetric]
    dsimp only [bind, Except.bind]
    rw [if_neg hnil]
    split
    next => exact ⟨_, rfl, ⟨rfl, rfl, rfl, rfl, rfl, rfl, rfl⟩, rfl⟩
    next hempty =>
      have hnone : profile.populated.filter (hasGpuSample profile) = [] := by simpa using hempty
      refine ⟨_, rfl, ⟨rfl, rfl, ?_, rfl, rfl, rfl, rfl⟩, rfl⟩
      rw [hnone]
      simp [deviceView, Reading.of, Reading.metric_zero]

end OneCompute.Measurement
