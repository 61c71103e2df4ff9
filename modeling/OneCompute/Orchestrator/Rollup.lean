import Mathlib.Algebra.BigOperators.Ring.Finset
import OneCompute.Measurement.FleetView
import OneCompute.Orchestrator.Profiles

/-!
The way of a device's report through ingest, storage and the rollup. In exact
arithmetic nothing is lost on it.
-/

namespace OneCompute
open PyFloat (val pyMax pyMin)
open PyNumber (exact maxOf sum_exact maxOf_exact)
open Mean (mean)
open Measurement (DeviceView FleetView Reading fleetView bucketsPerWeek)

def MeasurementSummary.view (m : MeasurementSummary) : FleetView where
  deviceCount := m.deviceCount
  totalCoverageBuckets := m.totalCoverageBuckets
  cpu := m.cpu
  gpu := m.gpu
  gpuDeviceCount := m.gpuDeviceCount
  ramAvg := m.ramAvg
  ramHeadroom := m.ramHeadroom
  acAvg := m.acAvg
  observedHoursPerDay := m.observedHoursPerDay
  unavailableHoursPerDay := m.unavailableHoursPerDay

structure ProfileAvailability.Shows (a : ProfileAvailability) (v : DeviceView) : Prop where
  span : ∃ h, a.spanHours = .fin h ∧ 0 ≤ h ∧ decide (0 < h) = v.timed
  observed : a.observedHoursPerDay = .fin v.observed
  unavailable : a.unavailableHoursPerDay = .fin v.unavailable

structure ProfileReport.Shows (r : ProfileReport) (v : DeviceView) : Prop where
  compact : r.buckets = []
  coverage : r.coverageBuckets = v.coverage
  cpu : r.cpu = v.cpu.metric.published
  gpu : r.gpu = v.gpu.metric.published
  gpuSampled : r.gpuSampled = v.gpuSampled
  ram : r.ramAvg = .fin v.ram
  ac : r.acAvg = .fin v.ac
  availability : r.availability.Shows v

structure CompactProfile.Shows (c : CompactProfile) (v : DeviceView) : Prop where
  coverage : c.coverageBuckets = v.coverage
  cpu : c.cpu = v.cpu.metric.published
  gpu : c.gpu = v.gpu.metric.published
  gpuSampled : c.gpuSampled = v.gpuSampled
  ram : c.ramAvg = .fin v.ram
  ac : c.acAvg = .fin v.ac
  availability : c.availability.Shows v

/-! ## Clamping -/

theorem clampPct_fin {q : Rat} (h : 0 ≤ q ∧ q ≤ 100) : clampPct (.fin q) = .fin q := by
  unfold clampPct
  rw [if_neg (by simp), PyNumber.clamp_of_mem h.1 h.2]

theorem clampNonnegative_fin {m q : Rat} (h : 0 ≤ q) (hm : 0 ≤ m) :
    clampNonnegative (.fin m) (.fin q) = .fin (min m q) := by
  unfold clampNonnegative
  rw [if_neg (by simp), PyNumber.pyMin_fin, PyNumber.pyMax_fin, max_eq_right (le_min hm h)]

theorem clampPctJson_fin {q : Rat} (h : 0 ≤ q ∧ q ≤ 100) :
    clampPctJson exact (.float (.fin q)) = .ok (.fin q) :=
  congrArg Except.ok (clampPct_fin h)

theorem sanitizeMetric_exact {r : Reading} (h : r.InRange) :
    sanitizeMetric exact r.metric.published.toJson = .ok r.metric.published := by
  have havg := clampPctJson_fin ⟨h.avg, h.peak.trans h.top⟩
  have hpeak := clampPctJson_fin ⟨h.avg.trans h.peak, h.top⟩
  have hlow : (0 : Rat) ≤ r.spare * (1 / 5) ∧ r.spare * (1 / 5) ≤ 100 :=
    ⟨by linarith [h.spare.1], by linarith [h.spare.2]⟩
  have hhigh : (0 : Rat) ≤ r.spare * (2 / 5) ∧ r.spare * (2 / 5) ≤ 100 :=
    ⟨by linarith [h.spare.1], by linarith [h.spare.2]⟩
  have horder : r.spare * (1 / 5) ≤ r.spare * (2 / 5) := by linarith [h.spare.1]
  have hstep : sanitizeMetric exact r.metric.published.toJson = (do
      let avg ← clampPctJson exact (.float (.fin r.avg))
      let peak ← clampPctJson exact (.float (.fin r.peak))
      let low ← clampPctJson exact (.float (.fin (r.spare * (1 / 5))))
      let high ← clampPctJson exact (.float (.fin (r.spare * (2 / 5))))
      return {
        avg := avg
        peak := pyMax avg peak
        recoverableLow := pyMin low high
        recoverableHigh := pyMax low high }) := rfl
  rw [hstep, havg, hpeak, clampPctJson_fin hlow, clampPctJson_fin hhigh]
  change Except.ok _ = Except.ok _
  rw [PyNumber.pyMax_fin, PyNumber.pyMax_fin, PyNumber.pyMin_fin, max_eq_right h.peak,
    min_eq_left horder, max_eq_right horder]
  rfl

theorem clampNonnegativeJson_fin {m q : Rat} (h : 0 ≤ q) (hm : 0 ≤ m) :
    clampNonnegativeJson exact (.fin m) (.float (.fin q)) = .ok (.fin (min m q)) :=
  congrArg Except.ok (clampNonnegative_fin h hm)

theorem scaleToDay_exact {o u : Rat} (h : o + u ≤ 24) :
    scaleToDay exact (.fin o) (.fin u) = (.fin o, .fin u) := by
  unfold scaleToDay
  rw [PyNumber.exact_add]
  simp [PyFloat.lt, not_lt.mpr h]

theorem sanitizeAvailability_exact {a : ProfileAvailability} {v : DeviceView} (h : a.Shows v)
    (hv : v.InRange) :
    ∃ a', sanitizeAvailability exact a.toJson = .ok a' ∧ a'.Shows v := by
  obtain ⟨span, hspan, hpos, htimed⟩ := h.span
  have hobserved : min 24 v.observed = v.observed :=
    min_eq_right (by linarith [hv.day, hv.unavailable])
  have hunavailable : min 24 v.unavailable = v.unavailable :=
    min_eq_right (by linarith [hv.day, hv.observed])
  have hstep : sanitizeAvailability exact a.toJson = (do
      let spanHours ← clampNonnegativeJson exact (.fin (24 * 400)) (.float a.spanHours)
      let observed ← clampNonnegativeJson exact (.fin 24) (.float a.observedHoursPerDay)
      let unavailable ← clampNonnegativeJson exact (.fin 24) (.float a.unavailableHoursPerDay)
      let hours := scaleToDay exact observed unavailable
      if PyFloat.le spanHours (.fin 0) then return { spanHours := spanHours }
      else
        return {
          spanHours := spanHours
          observedHoursPerDay := hours.1
          unavailableHoursPerDay := hours.2
          sampleCount := max 0 (min 10000000 a.sampleCount) }) := rfl
  rw [hstep, hspan, h.observed, h.unavailable, clampNonnegativeJson_fin hpos (by norm_num),
    clampNonnegativeJson_fin hv.observed (by norm_num),
    clampNonnegativeJson_fin hv.unavailable (by norm_num), hobserved, hunavailable]
  dsimp only [bind, Except.bind]
  rw [scaleToDay_exact hv.day]
  dsimp only
  have hclamp : (0 : Rat) < min (24 * 400) span ↔ 0 < span :=
    ⟨fun hlt => hlt.trans_le (min_le_right _ _), fun hlt => lt_min (by norm_num) hlt⟩
  have hshown : ∃ q, PyFloat.fin (min (24 * 400) span) = .fin q ∧ 0 ≤ q ∧ decide (0 < q) = v.timed :=
    ⟨_, rfl, le_min (by norm_num) hpos, by rw [← htimed, decide_eq_decide, hclamp]⟩
  have hle : PyFloat.le (.fin (min (24 * 400) span)) (.fin 0) = true ↔ ¬ 0 < span := by
    rw [← hclamp, not_lt]
    exact decide_eq_true_iff
  by_cases hlt : 0 < span
  · rw [if_neg (fun h => hle.mp h hlt)]
    exact ⟨_, rfl, hshown, rfl, rfl⟩
  · obtain ⟨hzero, hzero'⟩ := hv.untimed (by rw [← htimed]; simpa using hlt)
    rw [if_pos (hle.mpr hlt)]
    exact ⟨_, rfl, hshown, by rw [hzero], by rw [hzero']⟩

/-! ## Ingest and storage -/

theorem headroomOf_exact (q : Rat) : headroomOf exact (.fin q) = .fin (max 0 (100 - q)) := by
  unfold headroomOf
  rw [PyNumber.exact_sub, PyNumber.pyMax_fin]

theorem sanitizeProfileReport_exact {r : ProfileReport} {v : DeviceView} (h : r.Shows v)
    (hv : v.InRange) :
    ∃ c, sanitizeProfileReport exact r = .ok c ∧ c.Shows v := by
  obtain ⟨a, ha, hshows⟩ := sanitizeAvailability_exact h.availability hv
  have hcoverage : max 0 (min (bucketsPerWeek : Int) v.coverage) = v.coverage := by
    have := hv.coverage
    omega
  unfold sanitizeProfileReport
  rw [if_neg (by simp [h.compact]), h.cpu, h.gpu, sanitizeMetric_exact hv.cpu,
    sanitizeMetric_exact hv.gpu, ha, h.ram, h.ac, h.coverage, h.gpuSampled]
  refine ⟨_, rfl, ?_⟩
  exact ⟨hcoverage, rfl, rfl, rfl, clampPct_fin hv.ram, clampPct_fin hv.ac, hshows⟩

theorem pyInt_natCast (n : Nat) : Jobkit.pyInt (.float (.fin n)) = some (n : Int) := by
  have hneg : ¬ (n : Rat) < 0 := not_lt.mpr (Nat.cast_nonneg n)
  have hfloor : (n : Rat).floor = (n : Int) := by
    exact_mod_cast Rat.floor_intCast (n : Int)
  simp [Jobkit.pyInt, hneg, hfloor]

theorem decodeStoredProfile_exact {c : CompactProfile} {v : DeviceView} (h : c.Shows v)
    (hv : v.InRange) :
    ∃ c', decodeStoredProfile exact c.toJson = .ok (some c') ∧ c'.Shows v := by
  obtain ⟨a, ha, hshows⟩ := sanitizeAvailability_exact h.availability hv
  have hcoverage : clampNonnegativeJson exact (.fin 168) (.int v.coverage) =
      .ok (.fin (v.coverage : Nat)) := by
    have hle : (v.coverage : Rat) ≤ 168 := by exact_mod_cast hv.coverage
    have hclamp := clampNonnegative_fin (m := 168) (Nat.cast_nonneg (α := Rat) v.coverage)
      (by norm_num)
    rw [min_eq_right hle] at hclamp
    exact congrArg Except.ok (by simpa using hclamp)
  have hclass : ∃ k, decodeDeviceClass (.str c.deviceClass.text) = .ok k := by
    cases c.deviceClass <;> exact ⟨_, rfl⟩
  obtain ⟨k, hk⟩ := hclass
  have hstep : decodeStoredProfile exact c.toJson = (do
      let coverage ← clampNonnegativeJson exact (.fin 168) (.int c.coverageBuckets)
      let ramAvg ← clampPctJson exact (.float c.ramAvg)
      let deviceClass ← decodeDeviceClass (.str c.deviceClass.text)
      let cpu ← sanitizeMetric exact c.cpu.toJson
      let gpu ← sanitizeMetric exact c.gpu.toJson
      let acAvg ← clampPctJson exact (.float c.acAvg)
      let availability ← sanitizeAvailability exact c.availability.toJson
      return some {
        deviceClass := deviceClass
        coverageBuckets := max 0 (min bucketsPerWeek ((Jobkit.pyInt (.float coverage)).getD 0))
        cpu := cpu
        gpu := gpu
        gpuSampled := c.gpuSampled
        ramAvg := ramAvg
        ramHeadroom := headroomOf exact ramAvg
        acAvg := acAvg
        availability := availability }) := rfl
  rw [hstep, h.coverage, hcoverage, h.ram, clampPctJson_fin hv.ram, hk, h.cpu, h.gpu,
    sanitizeMetric_exact hv.cpu, sanitizeMetric_exact hv.gpu, h.ac, clampPctJson_fin hv.ac, ha,
    h.gpuSampled]
  refine ⟨_, rfl, ?_⟩
  have hrange : max 0 (min (bucketsPerWeek : Int) v.coverage) = v.coverage := by
    have := hv.coverage
    omega
  refine ⟨?_, rfl, rfl, rfl, rfl, rfl, hshows⟩
  dsimp only
  rw [pyInt_natCast]
  exact hrange

/-! ## The rollup -/

theorem average_exact {xs : List PyFloat} (h : ∀ x ∈ xs, x.isFinite = true) :
    average exact xs = .fin (mean (xs.map val)) := by
  unfold average
  split
  next hnil =>
    subst hnil
    simp
  next =>
    rw [sum_exact h, mean, List.length_map]
    rfl

theorem compactMetric_exact {rs : List Reading} (h : ∀ r ∈ rs, 0 ≤ r.peak) :
    compactMetric exact (rs.map fun r => r.metric.published) =
      (Reading.combined rs).metric.published := by
  have havg : ∀ f : Reading → Rat,
      average exact (rs.map fun r => .fin (f r)) = .fin (mean (rs.map f)) := by
    intro f
    rw [average_exact (by simp [PyFloat.isFinite]), List.map_map]
    rfl
  have hpeak : maxOf (rs.map fun r => .fin r.peak) = .fin (Mean.peak (rs.map Reading.peak)) := by
    rw [maxOf_exact (by simp [PyFloat.isFinite]) (by simpa using h), List.map_map]
    rfl
  unfold compactMetric
  split
  next hnil =>
    rw [List.map_eq_nil_iff.mp hnil]
    simp [Reading.combined, Reading.metric_zero, Measurement.Metric.published]
  next =>
    simp only [List.map_map, Function.comp_def, Measurement.Metric.published, Reading.metric, havg,
      hpeak, Mean.mean_mul Reading.spare, Reading.combined]

def CompactProfile.Of (c : CompactProfile) (v : DeviceView) : Prop := c.Shows v ∧ v.InRange

theorem compact_metrics {cs : List CompactProfile} {vs : List DeviceView}
    {f : CompactProfile → MetricSummary} {g : DeviceView → Reading}
    (h : List.Forall₂ CompactProfile.Of cs vs)
    (hfg : ∀ c v, CompactProfile.Of c v → f c = (g v).metric.published)
    (hg : ∀ v, v.InRange → (g v).InRange) :
    compactMetric exact (cs.map f) = (Reading.combined (vs.map g)).metric.published := by
  have hmap : cs.map f = (vs.map g).map fun r => r.metric.published := by
    rw [List.map_map]
    exact Results.map_eq_of_forall₂ h hfg
  rw [hmap]
  apply compactMetric_exact
  intro r hr
  obtain ⟨v, hv, rfl⟩ := List.mem_map.mp hr
  obtain ⟨c, -, hcv⟩ := Results.forall₂_mem_left h.flip hv
  have hrange := hg v hcv.2
  exact hrange.avg.trans hrange.peak

theorem average_shows {α : Type} {xs : List α} {vs : List DeviceView} {R : α → DeviceView → Prop}
    {f : α → PyFloat} {g : DeviceView → Rat} (h : List.Forall₂ R xs vs)
    (hfg : ∀ x v, R x v → f x = .fin (g v)) :
    average exact (xs.map f) = .fin (mean (vs.map g)) := by
  rw [Results.map_eq_of_forall₂ h hfg, average_exact (by simp [PyFloat.isFinite]), List.map_map]
  rfl

theorem aggregateCompactProfiles_exact {cs : List CompactProfile} {vs : List DeviceView}
    (h : List.Forall₂ CompactProfile.Of cs vs) :
    (aggregateCompactProfiles exact cs).view = fleetView vs := by
  have hcoverage : (cs.map (·.coverageBuckets)).sum = ((vs.map DeviceView.coverage).sum : Nat) := by
    rw [Results.map_eq_of_forall₂ h (fun c v hcv => hcv.1.coverage), Nat.cast_list_sum,
      List.map_map]
    rfl
  have hc : List.Forall₂ CompactProfile.Of (cs.filter fun c => decide (0 < c.coverageBuckets))
      (vs.filter DeviceView.contributes) := by
    apply Results.forall₂_filter h
    intro c v hcv
    rw [hcv.1.coverage, DeviceView.contributes, decide_eq_decide]
    exact Int.natCast_pos
  have hg : List.Forall₂ CompactProfile.Of
      ((cs.filter fun c => decide (0 < c.coverageBuckets)).filter (·.gpuSampled))
      ((vs.filter DeviceView.contributes).filter DeviceView.gpuSampled) :=
    Results.forall₂_filter hc (fun c v hcv => hcv.1.gpuSampled)
  have ht : List.Forall₂ ProfileAvailability.Shows
      (((cs.filter fun c => decide (0 < c.coverageBuckets)).map (·.availability)).filter
        fun a => PyFloat.lt (.fin 0) a.spanHours)
      ((vs.filter DeviceView.contributes).filter DeviceView.timed) := by
    apply Results.forall₂_filter
    · rw [List.forall₂_map_left_iff]
      exact hc.imp (fun c v hcv => hcv.1.availability)
    · intro a v hav
      obtain ⟨span, hspan, -, htimed⟩ := hav.span
      rw [hspan, ← htimed]
      rfl
  have hempty : cs.filter (fun c => decide (0 < c.coverageBuckets)) = [] ↔
      vs.filter DeviceView.contributes = [] := by
    rw [← List.length_eq_zero_iff, ← List.length_eq_zero_iff, hc.length_eq]
  unfold aggregateCompactProfiles MeasurementSummary.view fleetView
  dsimp only
  rw [hcoverage, compact_metrics hc (fun c v hcv => hcv.1.cpu) (fun v hv => hv.cpu),
    compact_metrics hg (fun c v hcv => hcv.1.gpu) (fun v hv => hv.gpu),
    average_shows hc (fun c v hcv => hcv.1.ram), average_shows hc (fun c v hcv => hcv.1.ac),
    average_shows ht (fun a v hav => hav.observed),
    average_shows ht (fun a v hav => hav.unavailable), hc.length_eq, hg.length_eq, headroomOf_exact]
  simp only [hempty]

/-- A stored summary of a device. -/
def StoredFor (stored : Json) (v : DeviceView) : Prop :=
  ∃ c : CompactProfile, stored = c.toJson ∧ c.Shows v ∧ v.InRange

theorem measurementOf_exact {stored : List Json} {vs : List DeviceView}
    (h : List.Forall₂ StoredFor stored vs) :
    ∃ m, measurementOf exact stored = .ok m ∧ m.view = fleetView vs := by
  have hdecode : List.Forall₂ (fun value v => ∃ decoded, decodeStoredProfile exact value = .ok decoded ∧
      ∃ c, decoded = some c ∧ CompactProfile.Of c v) stored vs := by
    refine h.imp fun value v hv => ?_
    obtain ⟨c, rfl, hshows, hrange⟩ := hv
    obtain ⟨c', hc', hshows'⟩ := decodeStoredProfile_exact hshows hrange
    exact ⟨_, hc', c', rfl, hshows', hrange⟩
  obtain ⟨decoded, hdecoded, hall⟩ := Results.mapM_related hdecode
  unfold measurementOf
  rw [hdecoded]
  exact ⟨_, rfl, aggregateCompactProfiles_exact (Results.reduceOption_related hall)⟩

end OneCompute
