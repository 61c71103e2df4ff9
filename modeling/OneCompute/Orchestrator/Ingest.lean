import OneCompute.Orchestrator.Sections
import OneCompute.Orchestrator.StoredProfiles

/-!
What is stored of a profile report: every number is in its range and in order, a bucket
list counts once for each hour, and a stored record is read back as it was.
-/

namespace OneCompute
open PyFloat (val fin_val pyMax pyMin)
open PyNumber (Rounding exact maxOf fmean_exact maxOf_exact pyMax_of_le pyMin_of_le)
open Measurement
open Jobkit (pyInt)

/-! ## Fields that are clamped -/

/-- `_sanitize_metric` of the numbers of a report. -/
def clampMetric (m : MetricSummary) : MetricSummary where
  avg := clampPct m.avg
  peak := pyMax (clampPct m.avg) (clampPct m.peak)
  recoverableLow := pyMin (clampPct m.recoverableLow) (clampPct m.recoverableHigh)
  recoverableHigh := pyMax (clampPct m.recoverableLow) (clampPct m.recoverableHigh)

/-- `_sanitize_availability` of the numbers of a report. -/
def clampAvailability (R : Rounding) (a : ProfileAvailability) : ProfileAvailability :=
  let spanHours := clampNonnegative (.fin (24 * 400)) a.spanHours
  let hours := scaleToDay R (clampNonnegative (.fin 24) a.observedHoursPerDay)
    (clampNonnegative (.fin 24) a.unavailableHoursPerDay)
  if PyFloat.le spanHours (.fin 0) then { spanHours := spanHours }
  else
    { spanHours := spanHours
      observedHoursPerDay := hours.1
      unavailableHoursPerDay := hours.2
      sampleCount := max 0 (min 10000000 a.sampleCount) }

section Clamped
variable {R : Rounding}

theorem sanitizeMetric_toJson (m : MetricSummary) :
    sanitizeMetric R m.toJson = .ok (clampMetric m) := rfl

theorem sanitizeAvailability_toJson (a : ProfileAvailability) :
    sanitizeAvailability R a.toJson = .ok (clampAvailability R a) := by
  change (if _ then _ else _) = Except.ok (if _ then _ else _)
  split <;> rfl

theorem clampPct_of_isPct {x : PyFloat} (h : IsPct x) : clampPct x = x := by
  rw [fin_val h.finite]
  exact clampPct_fin ⟨h.low, h.high⟩

theorem clampNonnegative_of_mem {m q : Rat} (h0 : 0 ≤ q) (hm : q ≤ m) :
    clampNonnegative (.fin m) (.fin q) = .fin q := by
  rw [clampNonnegative, if_neg (by simp), PyNumber.clamp_of_mem h0 hm]

theorem clampMetric_bounded (m : MetricSummary) : (clampMetric m).Bounded :=
  sanitizeMetric_bounded (sanitizeMetric_toJson (R := exact) m)

/-- A clamped metric stays as it is. -/
theorem clampMetric_fixed {m : MetricSummary} (h : m.Bounded) : clampMetric m = m := by
  have hpeak := pyMax_of_le h.envelope.level.finite h.envelope.top.finite h.envelope.ordered
  have hlow := pyMin_of_le h.low.finite h.high.finite h.ordered
  have hhigh := pyMax_of_le h.low.finite h.high.finite h.ordered
  unfold clampMetric
  rw [clampPct_of_isPct h.envelope.level, clampPct_of_isPct h.envelope.top,
    clampPct_of_isPct h.low, clampPct_of_isPct h.high, hpeak, hlow, hhigh]

/-- Hours of a day, and none where there is no span. -/
structure ProfileAvailability.Sound (a : ProfileAvailability) : Prop where
  span : ∃ q, a.spanHours = .fin q ∧ 0 ≤ q ∧ q ≤ 24 * 400
  hours : InDay a.observedHoursPerDay a.unavailableHoursPerDay
  count : 0 ≤ a.sampleCount ∧ a.sampleCount ≤ 10000000
  untimed : a.spanHours.val = 0 →
    a.observedHoursPerDay = .fin 0 ∧ a.unavailableHoursPerDay = .fin 0 ∧ a.sampleCount = 0

theorem clampAvailability_sound (a : ProfileAvailability) : (clampAvailability exact a).Sound := by
  obtain ⟨span, hspan, hspan0, hspanMax⟩ :=
    clampNonnegative_mem (by norm_num : (0 : Rat) ≤ 24 * 400) a.spanHours
  obtain ⟨o, ho, ho0, -⟩ := clampNonnegative_mem (by norm_num : (0 : Rat) ≤ 24)
    a.observedHoursPerDay
  obtain ⟨u, hu, hu0, -⟩ := clampNonnegative_mem (by norm_num : (0 : Rat) ≤ 24)
    a.unavailableHoursPerDay
  unfold clampAvailability
  dsimp only
  rw [hspan, ho, hu]
  split
  next =>
    exact ⟨⟨span, rfl, hspan0, hspanMax⟩, ⟨⟨0, rfl, le_rfl⟩, ⟨0, rfl, le_rfl⟩, by norm_num⟩,
      ⟨le_rfl, by norm_num⟩, fun _ => ⟨rfl, rfl, rfl⟩⟩
  next hpos =>
    refine ⟨⟨span, rfl, hspan0, hspanMax⟩, scaleToDay_inDay ho0 hu0,
      ⟨le_max_left _ _, max_le (by norm_num) (min_le_left _ _)⟩, ?_⟩
    intro hzero
    have hspan : span = 0 := hzero
    simp [PyFloat.le, hspan] at hpos

theorem scaleToDay_fixed {x y : PyFloat} (h : InDay x y) : scaleToDay exact x y = (x, y) := by
  obtain ⟨⟨o, rfl, -⟩, ⟨u, rfl, -⟩, hday⟩ := h
  have hsum : o + u ≤ 24 := hday
  unfold scaleToDay
  dsimp only
  rw [PyNumber.exact_add, if_neg (by simpa [PyFloat.lt] using hsum)]

theorem clampAvailability_fixed {a : ProfileAvailability} (h : a.Sound) :
    clampAvailability exact a = a := by
  obtain ⟨span, hspan, hspan0, hspanMax⟩ := h.span
  obtain ⟨⟨o, ho, ho0⟩, ⟨u, hu, hu0⟩, hday⟩ := h.hours
  have hsum : o + u ≤ 24 := by
    rw [ho, hu] at hday
    exact hday
  have hscaled := scaleToDay_fixed h.hours
  unfold clampAvailability
  dsimp only
  rw [hspan, clampNonnegative_of_mem hspan0 hspanMax, ho, clampNonnegative_of_mem ho0 (by linarith),
    hu, clampNonnegative_of_mem hu0 (by linarith), ← ho, ← hu, hscaled]
  split
  next hle =>
    have hzero : span = 0 := le_antisymm (by simpa [PyFloat.le] using hle) hspan0
    obtain ⟨hobserved, hunavailable, hcount⟩ := h.untimed (by rw [hspan]; exact hzero)
    rw [← hspan]
    cases a
    simp_all
  next =>
    have hcount : max 0 (min 10000000 a.sampleCount) = a.sampleCount := by
      have := h.count
      omega
    rw [hcount, ← hspan]

theorem ProfileAvailability.sound_zero : ProfileAvailability.Sound {} :=
  ⟨⟨0, rfl, le_rfl, by norm_num⟩, ⟨⟨0, rfl, le_rfl⟩, ⟨0, rfl, le_rfl⟩, by norm_num⟩,
    ⟨le_rfl, by norm_num⟩, fun _ => ⟨rfl, rfl, rfl⟩⟩

theorem sanitizeAvailability_nothing : sanitizeAvailability exact (.obj []) = .ok {} := by
  have hclamp : sanitizeAvailability exact (.obj []) = .ok (clampAvailability exact {}) := by
    change (if _ then _ else _) = Except.ok (if _ then _ else _)
    split <;> rfl
  rw [hclamp, clampAvailability_fixed ProfileAvailability.sound_zero]

end Clamped

/-! ## Bucket lists -/

/-- The buckets that are kept, as they were sent. -/
def keptBuckets (seen : List Int) : List UsageBucket → List UsageBucket
  | [] => []
  | b :: rest =>
      if b.n ≤ 0 then keptBuckets seen rest
      else if b.index < 0 ∨ (bucketsPerWeek : Int) ≤ b.index ∨ b.index ∈ seen then
        keptBuckets seen rest
      else b :: keptBuckets (b.index :: seen) rest

theorem keepBuckets_eq_map (seen : List Int) (bs : List UsageBucket) :
    keepBuckets seen bs = (keptBuckets seen bs).map sanitizeBucket := by
  induction bs generalizing seen with
  | nil => rfl
  | cons b rest ih =>
      simp only [keepBuckets, keptBuckets]
      split
      · exact ih seen
      · split
        · exact ih seen
        · rw [List.map_cons, ih]

/-- The first populated bucket of an hour among those that are scanned. -/
def firstOf (bs : List UsageBucket) (hour : Int) : Option UsageBucket :=
  bs.find? fun b => decide (0 < b.n) && decide (b.index = hour)

def HourOfWeek (hour : Int) : Prop := 0 ≤ hour ∧ hour < bucketsPerWeek

theorem firstOf_cons (c : UsageBucket) (rest : List UsageBucket) (hour : Int) :
    firstOf (c :: rest) hour =
      if 0 < c.n ∧ c.index = hour then some c else firstOf rest hour := by
  unfold firstOf
  rw [List.find?_cons]
  by_cases h : 0 < c.n ∧ c.index = hour
  · simp [h]
  · rw [if_neg h]
    have hfalse : (decide (0 < c.n) && decide (c.index = hour)) = false := by
      simpa using h
    rw [hfalse]

theorem mem_keptBuckets {seen : List Int} {bs : List UsageBucket} {b : UsageBucket} :
    b ∈ keptBuckets seen bs ↔
      HourOfWeek b.index ∧ b.index ∉ seen ∧ firstOf bs b.index = some b := by
  induction bs generalizing seen with
  | nil => simp [keptBuckets, firstOf]
  | cons c rest ih =>
      rw [keptBuckets, firstOf_cons]
      by_cases hn : c.n ≤ 0
      · rw [if_pos hn, if_neg (by omega)]
        exact ih
      rw [if_neg hn]
      by_cases hbad : c.index < 0 ∨ (bucketsPerWeek : Int) ≤ c.index ∨ c.index ∈ seen
      · rw [if_pos hbad, ih]
        by_cases hindex : c.index = b.index
        · refine iff_of_false ?_ ?_
          · rintro ⟨⟨hlow, hhigh⟩, hseen, -⟩
            rw [hindex] at hbad
            rcases hbad with h | h | h
            · omega
            · omega
            · exact hseen h
          · rintro ⟨⟨hlow, hhigh⟩, hseen, -⟩
            rw [hindex] at hbad
            rcases hbad with h | h | h
            · omega
            · omega
            · exact hseen h
        · rw [if_neg (fun h => hindex h.2)]
      · rw [if_neg hbad, List.mem_cons, ih]
        push Not at hbad
        by_cases hindex : c.index = b.index
        · rw [if_pos ⟨by omega, hindex⟩]
          constructor
          · rintro (rfl | ⟨-, hseen, -⟩)
            · exact ⟨⟨hbad.1, hbad.2.1⟩, hbad.2.2, rfl⟩
            · exact absurd (List.mem_cons.mpr (.inl hindex.symm)) hseen
          · rintro ⟨-, -, heq⟩
            exact .inl (Option.some.inj heq).symm
        · rw [if_neg (fun h => hindex h.2)]
          constructor
          · rintro (rfl | ⟨hhour, hseen, hfirst⟩)
            · exact absurd rfl hindex
            · exact ⟨hhour, fun h => hseen (List.mem_cons_of_mem _ h), hfirst⟩
          · rintro ⟨hhour, hseen, hfirst⟩
            refine .inr ⟨hhour, ?_, hfirst⟩
            intro h
            cases List.mem_cons.mp h with
            | inl heq => exact hindex heq.symm
            | inr hmem => exact hseen hmem

/-- No hour is kept twice. -/
theorem keptBuckets_nodup (seen : List Int) (bs : List UsageBucket) :
    ((keptBuckets seen bs).map (·.index)).Nodup := by
  induction bs generalizing seen with
  | nil => exact List.nodup_nil
  | cons c rest ih =>
      rw [keptBuckets]
      split
      · exact ih seen
      · split
        · exact ih seen
        · rw [List.map_cons, List.nodup_cons]
          refine ⟨?_, ih _⟩
          intro hmem
          obtain ⟨b, hb, hindex⟩ := List.mem_map.mp hmem
          have hseen := (mem_keptBuckets.mp hb).2.1
          exact hseen (List.mem_cons.mpr (.inl hindex))

theorem keptBuckets_length (bs : List UsageBucket) :
    (keptBuckets [] bs).length ≤ bucketsPerWeek := by
  have hhour : ∀ b ∈ keptBuckets [] bs, HourOfWeek b.index := fun b hb => (mem_keptBuckets.mp hb).1
  have hnodup : ((keptBuckets [] bs).map fun b => b.index.toNat).Nodup := by
    have hindex := keptBuckets_nodup [] bs
    refine List.Nodup.map_on ?_ (List.Nodup.of_map _ hindex)
    intro b hb c hc heq
    have hb0 := (hhour b hb).1
    have hc0 := (hhour c hc).1
    exact List.inj_on_of_nodup_map hindex hb hc (by omega)
  have hsub : ((keptBuckets [] bs).map fun b => b.index.toNat) ⊆ List.range bucketsPerWeek := by
    intro n hn
    obtain ⟨b, hb, rfl⟩ := List.mem_map.mp hn
    obtain ⟨hlow, hhigh⟩ := hhour b hb
    rw [List.mem_range]
    omega
  have hlength := (hnodup.subperm hsub).length_le
  rwa [List.length_map, List.length_range] at hlength

theorem sanitizeProfileBuckets_eq (bs : List UsageBucket) :
    sanitizeProfileBuckets bs =
      (keptBuckets [] (bs.take (3 * bucketsPerWeek))).map sanitizeBucket := by
  unfold sanitizeProfileBuckets
  rw [keepBuckets_eq_map]
  exact List.take_of_length_le (by rw [List.length_map]; exact keptBuckets_length _)

/-- The same first buckets are kept, in another order perhaps. -/
theorem keptBuckets_perm {bs cs : List UsageBucket}
    (h : ∀ hour, HourOfWeek hour → firstOf bs hour = firstOf cs hour) :
    (keptBuckets [] bs).Perm (keptBuckets [] cs) := by
  refine (List.perm_ext_iff_of_nodup (List.Nodup.of_map _ (keptBuckets_nodup [] bs))
    (List.Nodup.of_map _ (keptBuckets_nodup [] cs))).mpr fun b => ?_
  rw [mem_keptBuckets, mem_keptBuckets]
  constructor
  · rintro ⟨hhour, hseen, hfirst⟩
    exact ⟨hhour, hseen, (h _ hhour).symm.trans hfirst⟩
  · rintro ⟨hhour, hseen, hfirst⟩
    exact ⟨hhour, hseen, (h _ hhour).trans hfirst⟩

/-- A bucket of a report as the summary reads it. -/
def bucketOf (b : UsageBucket) : Bucket where
  n := b.n
  gpuN := -1
  cpuMean := clampPct b.cpuMean
  cpuMax := clampPct b.cpuMax
  gpuMean := clampPct b.gpuMean
  gpuMax := clampPct b.gpuMax
  ramMean := clampPct b.ramMean
  ramMax := clampPct b.ramMax
  acMean := clampPct b.acMean
  idleMean := clampPct b.idleMean

theorem finite_clampPct {R : Rounding} (x : PyFloat) :
    Measurement.finite R (.float (clampPct x)) = .ok (clampPct x) := by
  change Except.ok (if (clampPct x).isFinite then clampPct x else .fin 0) = _
  rw [if_pos (clampPct_isPct x).finite]

theorem normalizeBucket_sanitized {R : Rounding} {b : UsageBucket} (h : 0 < b.n) :
    normalizeBucket R (sanitizeBucket b) = .ok (some (bucketOf b)) := by
  have hstep : normalizeBucket R (sanitizeBucket b) =
      if b.n ≤ 0 then .ok none
      else do
        let cpuMean ← Measurement.finite R (.float (clampPct b.cpuMean))
        let cpuMax ← Measurement.finite R (.float (clampPct b.cpuMax))
        let gpuMean ← Measurement.finite R (.float (clampPct b.gpuMean))
        let gpuMax ← Measurement.finite R (.float (clampPct b.gpuMax))
        let ramMean ← Measurement.finite R (.float (clampPct b.ramMean))
        let ramMax ← Measurement.finite R (.float (clampPct b.ramMax))
        let acMean ← Measurement.finite R (.float (clampPct b.acMean))
        let idleMean ← Measurement.finite R (.float (clampPct b.idleMean))
        return some ⟨b.n, -1, cpuMean, cpuMax, gpuMean, gpuMax, ramMean, ramMax, acMean,
          idleMean⟩ := rfl
  rw [hstep, if_neg (by omega)]
  simp only [finite_clampPct]
  rfl

theorem normalizeBuckets_sanitized {R : Rounding} (bs : List UsageBucket) :
    normalizeBuckets R (.arr (sanitizeProfileBuckets bs)) =
      .ok ((keptBuckets [] (bs.take (3 * bucketsPerWeek))).map bucketOf) := by
  have hkept : ∀ b ∈ keptBuckets [] (bs.take (3 * bucketsPerWeek)), 0 < b.n := by
    intro b hb
    have hfirst := List.find?_some (mem_keptBuckets.mp hb).2.2
    simp only [Bool.and_eq_true, decide_eq_true_eq] at hfirst
    exact hfirst.1
  have hmap : ((keptBuckets [] (bs.take (3 * bucketsPerWeek))).map sanitizeBucket).mapM
      (normalizeBucket R) =
      .ok ((keptBuckets [] (bs.take (3 * bucketsPerWeek))).map fun b => some (bucketOf b)) := by
    rw [List.mapM_map]
    exact Results.mapM_ok fun b hb => normalizeBucket_sanitized (hkept b hb)
  rw [sanitizeProfileBuckets_eq, normalizeBuckets, List.take_of_length_le
    (by rw [List.length_map]; exact keptBuckets_length _), hmap]
  exact congrArg Except.ok (by simp [List.reduceOption, List.filterMap_map])

theorem bucketOf_inRange (b : UsageBucket) : (bucketOf b).InRange :=
  ⟨⟨clampPct_isPct _, clampPct_isPct _⟩, ⟨clampPct_isPct _, clampPct_isPct _⟩, clampPct_isPct _,
    clampPct_isPct _, clampPct_isPct _⟩

/-! ## Records -/

/-- What is stored of a device whose buckets show this. -/
def compactOf (deviceClass : MeasurementDeviceClass) (v : DeviceView) : CompactProfile where
  deviceClass := deviceClass
  coverageBuckets := v.coverage
  cpu := clampMetric v.cpu.metric.published
  gpu := clampMetric v.gpu.metric.published
  gpuSampled := v.gpuSampled
  ramAvg := clampPct (.fin v.ram)
  ramHeadroom := clampPct (if v.coverage = 0 then .fin 0 else .fin (max 0 (100 - v.ram)))
  acAvg := clampPct (.fin v.ac)
  availability := {}

/-- What buckets show of which none says how many GPU samples it has. -/
def viewOf (bs : List Bucket) : DeviceView :=
  deviceView bs (bs.filter (hasGpuSample { populated := bs })) {}

theorem viewOf_perm {bs cs : List Bucket} (h : bs.Perm cs) : viewOf bs = viewOf cs := by
  have hdetected : hasGpuSample { populated := bs } = hasGpuSample { populated := cs } := by
    funext b
    have hany : legacyGpuDetected { populated := bs } = legacyGpuDetected { populated := cs } :=
      h.any_eq
    unfold hasGpuSample
    rw [hany]
  have hreading : ∀ (avg max : Bucket → PyFloat) (margin : Rat) {ds es : List Bucket},
      ds.Perm es → Reading.of avg max margin ds = Reading.of avg max margin es := by
    intro avg max margin ds es hperm
    unfold Reading.of
    rw [Mean.mean_perm (hperm.map _), Mean.peak_perm (hperm.map _), Mean.mean_perm (hperm.map _)]
  have hgpu := h.filter (hasGpuSample { populated := cs })
  unfold viewOf deviceView
  rw [hdetected, h.length_eq, hreading _ _ _ h, hreading _ _ _ hgpu, hgpu.isEmpty_eq,
    Mean.mean_perm (h.map _), Mean.mean_perm (h.map _)]

theorem compactFromLegacyBuckets_sanitized (bs : List UsageBucket)
    (deviceClass : MeasurementDeviceClass) :
    compactFromLegacyBuckets exact (.arr (sanitizeProfileBuckets bs)) deviceClass =
      .ok (compactOf deviceClass
        (viewOf ((keptBuckets [] (bs.take (3 * bucketsPerWeek))).map bucketOf))) := by
  generalize hpop : (keptBuckets [] (bs.take (3 * bucketsPerWeek))).map bucketOf = populated
  have hrange : ∀ b ∈ populated, b.InRange := by
    intro b hb
    rw [← hpop] at hb
    obtain ⟨c, -, rfl⟩ := List.mem_map.mp hb
    exact bucketOf_inRange c
  obtain ⟨s, hs, hshows, -⟩ := summarizeProfile_exact { populated := populated } hrange rfl {}
  have hheadroom : s.ram.headroom =
      if populated.length = 0 then .fin 0 else .fin (max 0 (100 - (viewOf populated).ram)) := by
    split
    next hnil =>
      have hnil : populated = [] := List.length_eq_zero_iff.mp hnil
      subst hnil
      cases hs
      rfl
    next hne =>
      have hmade := summarizeProfile_made (fun hnil => hne (congrArg List.length hnil)) hs
      rw [hmade.headroom, hshows.ram, PyNumber.exact_sub, PyNumber.pyMax_fin]
      rfl
  have hmetric : ∀ m : Metric, sanitizeMetric exact m.toJson = .ok (clampMetric m.published) :=
    fun _ => rfl
  unfold compactFromLegacyBuckets
  rw [normalizeBuckets_sanitized, hpop]
  simp only [hmetric, sanitizeAvailability_nothing]
  change (summarizeProfile _ _ _ >>= _) = _
  rw [hs]
  change Except.ok _ = Except.ok _
  rw [hshows.coverage, hshows.cpu, hshows.gpu, hshows.gpuSampled, hshows.ram, hshows.ac, hheadroom]
  rfl

/-- Every number of a record in its range and in order. -/
structure CompactProfile.Sound (c : CompactProfile) : Prop where
  coverage : 0 ≤ c.coverageBuckets ∧ c.coverageBuckets ≤ bucketsPerWeek
  cpu : c.cpu.Bounded
  gpu : c.gpu.Bounded
  ram : IsPct c.ramAvg
  headroom : 0 < c.coverageBuckets → c.ramHeadroom = .fin (100 - c.ramAvg.val)
  ac : IsPct c.acAvg
  availability : c.availability.Sound

theorem compactOf_sound (deviceClass : MeasurementDeviceClass) {v : DeviceView}
    (hcoverage : v.coverage ≤ bucketsPerWeek) (hram : 0 ≤ v.ram ∧ v.ram ≤ 100) :
    (compactOf deviceClass v).Sound where
  coverage := ⟨Int.natCast_nonneg _, Int.ofNat_le.mpr hcoverage⟩
  cpu := clampMetric_bounded _
  gpu := clampMetric_bounded _
  ram := clampPct_isPct (.fin v.ram)
  headroom := by
    intro hpos
    have hne : v.coverage ≠ 0 := fun h => by simp [compactOf, h] at hpos
    have hmax : max 0 (100 - v.ram) = 100 - v.ram := max_eq_right (by linarith)
    unfold compactOf
    dsimp only
    rw [if_neg hne, hmax, clampPct_fin ⟨by linarith, by linarith⟩, clampPct_fin hram]
    rfl
  ac := clampPct_isPct (.fin v.ac)
  availability := ProfileAvailability.sound_zero

theorem headroomOf_clampPct (x : PyFloat) :
    headroomOf exact (clampPct x) = .fin (100 - (clampPct x).val) := by
  have hpct := clampPct_isPct x
  have hmax : max 0 (100 - (clampPct x).val) = 100 - (clampPct x).val :=
    max_eq_right (by linarith [hpct.high])
  rw [fin_val hpct.finite, headroomOf_exact, PyFloat.val_fin, hmax]

/-- What is stored of a report without buckets. -/
def compactOfReport (report : ProfileReport) : CompactProfile where
  deviceClass := report.deviceClass
  coverageBuckets := max 0 (min bucketsPerWeek report.coverageBuckets)
  cpu := clampMetric report.cpu
  gpu := clampMetric report.gpu
  gpuSampled := report.gpuSampled
  ramAvg := clampPct report.ramAvg
  ramHeadroom := headroomOf exact (clampPct report.ramAvg)
  acAvg := clampPct report.acAvg
  availability := clampAvailability exact report.availability

theorem sanitizeProfileReport_compact {report : ProfileReport} (h : report.buckets = []) :
    sanitizeProfileReport exact report = .ok (compactOfReport report) := by
  unfold sanitizeProfileReport
  rw [if_neg (by simp [h]), sanitizeAvailability_toJson]
  rfl

theorem compactOfReport_sound (report : ProfileReport) : (compactOfReport report).Sound where
  coverage := ⟨le_max_left _ _, max_le (by decide) (min_le_left _ _)⟩
  cpu := clampMetric_bounded _
  gpu := clampMetric_bounded _
  ram := clampPct_isPct _
  headroom := fun _ => headroomOf_clampPct _
  ac := clampPct_isPct _
  availability := clampAvailability_sound _

/-- Reading a stored record back changes nothing. -/
theorem decodeStoredProfile_toJson {c : CompactProfile} (h : c.Sound)
    (hheadroom : c.ramHeadroom = headroomOf exact c.ramAvg) :
    decodeStoredProfile exact c.toJson = .ok (some c) := by
  obtain ⟨n, hn⟩ := Int.eq_ofNat_of_zero_le h.coverage.1
  have hle : n ≤ 168 := by
    have := h.coverage.2
    unfold bucketsPerWeek at this
    omega
  have hcoverage : clampNonnegativeJson exact (.fin 168) (.int c.coverageBuckets) =
      .ok (.fin (n : Rat)) := by
    have hclamp := clampNonnegative_of_mem (Nat.cast_nonneg (α := Rat) n)
      (by exact_mod_cast hle : (n : Rat) ≤ 168)
    rw [hn]
    exact congrArg Except.ok (by simpa using hclamp)
  have hrange : max 0 (min (bucketsPerWeek : Int) n) = c.coverageBuckets := by
    have := h.coverage
    omega
  have hpct : ∀ {x : PyFloat}, IsPct x → clampPctJson exact (.float x) = .ok x :=
    fun hx => congrArg Except.ok (clampPct_of_isPct hx)
  have hclass : decodeDeviceClass (.str c.deviceClass.text) = .ok c.deviceClass := by
    cases c.deviceClass <;> rfl
  have hstep : decodeStoredProfile exact c.toJson = (do
      let coverage ← clampNonnegativeJson exact (.fin 168) (.int c.coverageBuckets)
      let ramAvg ← clampPctJson exact (.float c.ramAvg)
      let deviceClass ← decodeDeviceClass (.str c.deviceClass.text)
      let cpu ← sanitizeMetric exact c.cpu.toJson
      let gpu ← sanitizeMetric exact c.gpu.toJson
      let acAvg ← clampPctJson exact (.float c.acAvg)
      let availability ← sanitizeAvailability exact c.availability.toJson
      return some {
        deviceClass := deviceClass
        coverageBuckets := max 0 (min bucketsPerWeek ((pyInt (.float coverage)).getD 0))
        cpu := cpu
        gpu := gpu
        gpuSampled := c.gpuSampled
        ramAvg := ramAvg
        ramHeadroom := headroomOf exact ramAvg
        acAvg := acAvg
        availability := availability }) := rfl
  rw [hstep, hcoverage, hpct h.ram, hclass, sanitizeMetric_toJson, sanitizeMetric_toJson,
    clampMetric_fixed h.cpu, clampMetric_fixed h.gpu, hpct h.ac, sanitizeAvailability_toJson,
    clampAvailability_fixed h.availability]
  change Except.ok _ = Except.ok _
  rw [pyInt_natCast, ← hheadroom]
  rw [Option.getD_some, hrange]

/-- The buckets that are scanned hold the same first populated one of each hour. -/
def SameFirst (r r' : ProfileReport) : Prop :=
  ∀ hour, HourOfWeek hour → firstOf (r.buckets.take (3 * bucketsPerWeek)) hour =
    firstOf (r'.buckets.take (3 * bucketsPerWeek)) hour

/-- The row of a device holds the record that was stored last. -/
theorem storeProfile_row (workerId : String) (c : CompactProfile) (now : Time) (db : Db) :
    ∃ row, (storeProfile workerId c now db).profiles.find? workerId = some row ∧
      row.bucketsJson = c.toJson ∧ row.coverage = c.coverageBuckets := by
  have hfind : (storeProfile workerId c now db).profiles.find? workerId =
      if workerId = workerId then some ((db.profiles.find? workerId).elim (.of workerId c now)
        (ProfileRow.of workerId c now).replacedBy)
      else db.profiles.find? workerId := Table.find?_upsert _ _ _ _ _
  rw [if_pos rfl] at hfind
  refine ⟨_, hfind, ?_⟩
  cases db.profiles.find? workerId <;> exact ⟨rfl, rfl⟩

theorem ingest_sanitised (report : ProfileReport) (now : Time) (db : Db) :
    ∃ c row, sanitizeProfileReport exact report = .ok c ∧
      (storeProfile report.workerId c now db).profiles.find? report.workerId = some row ∧
      row.bucketsJson = c.toJson ∧ row.coverage = c.coverageBuckets ∧ c.Sound ∧
      (report.buckets = [] → decodeStoredProfile exact row.bucketsJson = .ok (some c)) ∧
      ∀ other : ProfileReport, report.buckets ≠ [] → other.buckets ≠ [] →
        other.deviceClass = report.deviceClass → SameFirst report other →
        sanitizeProfileReport exact other = .ok c := by
  by_cases hcompact : report.buckets = []
  · obtain ⟨row, hrow, hjson, hcoverage⟩ :=
      storeProfile_row report.workerId (compactOfReport report) now db
    refine ⟨_, row, sanitizeProfileReport_compact hcompact, hrow, hjson, hcoverage,
      compactOfReport_sound report, fun _ => ?_, fun _ hne => absurd hcompact hne⟩
    rw [hjson]
    exact decodeStoredProfile_toJson (compactOfReport_sound report) rfl
  · have hlegacy : ∀ r : ProfileReport, r.buckets ≠ [] → sanitizeProfileReport exact r =
        .ok (compactOf r.deviceClass
          (viewOf ((keptBuckets [] (r.buckets.take (3 * bucketsPerWeek))).map bucketOf))) := by
      intro r hr
      unfold sanitizeProfileReport
      rw [if_pos hr, compactFromLegacyBuckets_sanitized]
    obtain ⟨row, hrow, hjson, hcoverage⟩ := storeProfile_row report.workerId (compactOf
      report.deviceClass
      (viewOf ((keptBuckets [] (report.buckets.take (3 * bucketsPerWeek))).map bucketOf))) now db
    refine ⟨_, row, hlegacy report hcompact, hrow, hjson, hcoverage, compactOf_sound _ ?_ ?_,
      fun hnil => absurd hnil hcompact, ?_⟩
    · change (List.map _ _).length ≤ _
      rw [List.length_map]
      exact keptBuckets_length _
    · refine mean_pct fun b hb => ?_
      obtain ⟨c, -, rfl⟩ := List.mem_map.mp hb
      exact ⟨(bucketOf_inRange c).ram.low, (bucketOf_inRange c).ram.high⟩
    · intro other _ hother hclass hsame
      rw [hlegacy other hother, hclass, viewOf_perm ((keptBuckets_perm hsame).symm.map bucketOf)]

end OneCompute
