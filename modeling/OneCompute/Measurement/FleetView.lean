import OneCompute.Contracts.Models
import OneCompute.Lib.PyMean
import OneCompute.Lib.Results
import OneCompute.Measurement.Headroom

/-!
What the offline report and the orchestrator both say of a fleet, as a function of
what each device measured. In exact arithmetic the aggregate computes it.
-/

namespace OneCompute.Measurement
open PyFloat (val pyMax)
open PyNumber (exact maxOf fmean_exact maxOf_exact)
open Mean (mean peak)

/-- The fields that both reports have. -/
structure FleetView where
  deviceCount : Nat
  totalCoverageBuckets : Int
  cpu : MetricSummary
  gpu : MetricSummary
  gpuDeviceCount : Nat
  ramAvg : PyFloat
  ramHeadroom : PyFloat
  acAvg : PyFloat
  observedHoursPerDay : PyFloat
  unavailableHoursPerDay : PyFloat

def Metric.published (m : Metric) : MetricSummary :=
  ⟨m.avg, m.peak, m.recoverableLow, m.recoverableHigh⟩

def Fleet.view (f : Fleet) : FleetView where
  deviceCount := f.deviceCount
  totalCoverageBuckets := f.totalCoverageBuckets
  cpu := f.cpu.published
  gpu := f.gpu.published
  gpuDeviceCount := f.gpuDeviceCount
  ramAvg := f.ramAvg
  ramHeadroom := f.ramHeadroom
  acAvg := f.acAvg
  observedHoursPerDay := f.availability.observedHoursPerDay
  unavailableHoursPerDay := f.availability.unavailableHoursPerDay

/-! ## Devices -/

structure Reading where
  avg : Rat
  peak : Rat
  spare : Rat

namespace Reading

def metric (r : Reading) : Metric where
  avg := .fin r.avg
  peak := .fin r.peak
  meanSpare := .fin r.spare
  recoverableLow := .fin (r.spare * (1 / 5))
  recoverableHigh := .fin (r.spare * (2 / 5))

def combined (rs : List Reading) : Reading :=
  ⟨mean (rs.map Reading.avg), Mean.peak (rs.map Reading.peak), mean (rs.map Reading.spare)⟩

structure InRange (r : Reading) : Prop where
  avg : 0 ≤ r.avg
  peak : r.avg ≤ r.peak
  top : r.peak ≤ 100
  spare : 0 ≤ r.spare ∧ r.spare ≤ 100

theorem metric_zero : metric ⟨0, 0, 0⟩ = {} := by
  unfold metric
  norm_num

end Reading

/-- What one device measured. -/
structure DeviceView where
  coverage : Nat
  cpu : Reading
  gpu : Reading
  gpuSampled : Bool
  ram : Rat
  ac : Rat
  timed : Bool
  observed : Rat
  unavailable : Rat

namespace DeviceView

structure InRange (v : DeviceView) : Prop where
  coverage : v.coverage ≤ bucketsPerWeek
  cpu : v.cpu.InRange
  gpu : v.gpu.InRange
  ram : 0 ≤ v.ram ∧ v.ram ≤ 100
  ac : 0 ≤ v.ac ∧ v.ac ≤ 100
  observed : 0 ≤ v.observed
  unavailable : 0 ≤ v.unavailable
  day : v.observed + v.unavailable ≤ 24
  untimed : v.timed = false → v.observed = 0 ∧ v.unavailable = 0

def contributes (v : DeviceView) : Bool := decide (0 < v.coverage)

end DeviceView

def fleetView (vs : List DeviceView) : FleetView :=
  let contributing := vs.filter DeviceView.contributes
  let gpuContributing := contributing.filter DeviceView.gpuSampled
  let timed := contributing.filter DeviceView.timed
  let ram := mean (contributing.map DeviceView.ram)
  { deviceCount := contributing.length
    totalCoverageBuckets := ((vs.map DeviceView.coverage).sum : Nat)
    cpu := (Reading.combined (contributing.map DeviceView.cpu)).metric.published
    gpu := (Reading.combined (gpuContributing.map DeviceView.gpu)).metric.published
    gpuDeviceCount := gpuContributing.length
    ramAvg := .fin ram
    ramHeadroom := if contributing = [] then .fin 0 else .fin (max 0 (100 - ram))
    acAvg := .fin (mean (contributing.map DeviceView.ac))
    observedHoursPerDay := .fin (mean (timed.map DeviceView.observed))
    unavailableHoursPerDay := .fin (mean (timed.map DeviceView.unavailable)) }

/-- The order of the devices does not matter. -/
theorem fleetView_perm {vs ws : List DeviceView} (h : vs.Perm ws) : fleetView vs = fleetView ws := by
  have hc := h.filter DeviceView.contributes
  have hg := hc.filter DeviceView.gpuSampled
  have ht := hc.filter DeviceView.timed
  have hover : ∀ (f : DeviceView → Reading) {xs ys : List DeviceView}, xs.Perm ys →
      Reading.combined (xs.map f) = Reading.combined (ys.map f) := by
    intro f xs ys hxy
    unfold Reading.combined
    rw [Mean.mean_perm ((hxy.map f).map Reading.avg), Mean.peak_perm ((hxy.map f).map Reading.peak),
      Mean.mean_perm ((hxy.map f).map Reading.spare)]
  have hempty : vs.filter DeviceView.contributes = [] ↔ ws.filter DeviceView.contributes = [] :=
    ⟨fun hv => (hv ▸ hc).symm.eq_nil, fun hw => (hw ▸ hc).eq_nil⟩
  simp only [fleetView, hc.length_eq, hg.length_eq, hover _ hc, hover _ hg,
    Mean.mean_perm (hc.map DeviceView.ram), Mean.mean_perm (hc.map DeviceView.ac),
    Mean.mean_perm (ht.map DeviceView.observed), Mean.mean_perm (ht.map DeviceView.unavailable),
    (h.map DeviceView.coverage).sum_eq, hempty]

/-- Two views of a device that may differ in its GPU. -/
structure DeviceView.SameButGpu (v w : DeviceView) : Prop where
  coverage : v.coverage = w.coverage
  cpu : v.cpu = w.cpu
  ram : v.ram = w.ram
  ac : v.ac = w.ac
  timed : v.timed = w.timed
  observed : v.observed = w.observed
  unavailable : v.unavailable = w.unavailable

section SameFleet
variable {α : Type} {ds : List α} {v w : α → DeviceView}

theorem fleetView_gpuDeviceCount (ds : List α) (u : α → DeviceView) :
    (fleetView (ds.map u)).gpuDeviceCount =
      ((ds.filter fun d => (u d).contributes).filter fun d => (u d).gpuSampled).length := by
  simp [fleetView, List.filter_map, Function.comp_def]

theorem fleetView_gpuAvg (ds : List α) (u : α → DeviceView) :
    (fleetView (ds.map u)).gpu.avg =
      .fin (mean (((ds.filter fun d => (u d).contributes).filter fun d => (u d).gpuSampled).map
        fun d => (u d).gpu.avg)) := by
  simp [fleetView, List.filter_map, Function.comp_def, Reading.combined, Reading.metric,
    Metric.published]

/-- Two views of the devices of a fleet, of which `v` counts a GPU wherever `w` does
and averages it no higher, give one view of the fleet only if they agree on every GPU. -/
theorem fleetView_eq_iff (hsame : ∀ d ∈ ds, (v d).SameButGpu (w d))
    (hsampled : ∀ d ∈ ds, (w d).gpuSampled = true → (v d).gpuSampled = true)
    (havg : ∀ d ∈ ds, (v d).gpu.avg ≤ (w d).gpu.avg)
    (hgpu : ∀ d ∈ ds, (w d).gpuSampled = true → (v d).gpu.avg = (w d).gpu.avg →
      (v d).gpu = (w d).gpu) :
    fleetView (ds.map v) = fleetView (ds.map w) ↔
      ∀ d ∈ ds, (v d).contributes = true → (v d).gpuSampled = true →
        (w d).gpuSampled = true ∧ (v d).gpu.avg = (w d).gpu.avg := by
  have hcontributes : ds.filter (fun d => (w d).contributes) =
      ds.filter (fun d => (v d).contributes) := by
    apply List.filter_congr
    intro d hd
    rw [DeviceView.contributes, DeviceView.contributes, (hsame d hd).coverage]
  constructor
  · intro heq
    have hcount := congrArg FleetView.gpuDeviceCount heq
    have hmeans := congrArg (fun f : FleetView => f.gpu.avg) heq
    rw [fleetView_gpuDeviceCount, fleetView_gpuDeviceCount, hcontributes] at hcount
    rw [fleetView_gpuAvg, fleetView_gpuAvg, hcontributes] at hmeans
    generalize hC : ds.filter (fun d => (v d).contributes) = contributing at hcount hmeans
    have hsub : ∀ d ∈ contributing, d ∈ ds := fun d hd => List.mem_of_mem_filter (hC ▸ hd)
    -- the devices that `w` counts are among those that `v` counts, and as many
    have hsplit : contributing.filter (fun d => (w d).gpuSampled) =
        (contributing.filter fun d => (v d).gpuSampled).filter fun d => (w d).gpuSampled := by
      rw [List.filter_filter]
      apply List.filter_congr
      intro d hd
      cases hw : (w d).gpuSampled with
      | false => rfl
      | true => rw [hsampled d (hsub d hd) hw]; rfl
    have hall : (contributing.filter fun d => (v d).gpuSampled).filter (fun d => (w d).gpuSampled) =
        contributing.filter fun d => (v d).gpuSampled :=
      List.filter_sublist.eq_of_length (by rw [← hsplit, hcount])
    rw [hsplit, hall] at hmeans
    have havgs := Mean.eq_of_mean_eq
      (fun d hd => havg d (hsub d (List.mem_of_mem_filter hd))) (PyFloat.fin.inj hmeans)
    intro d hd hcontrib hv
    have hmem : d ∈ contributing.filter fun d => (v d).gpuSampled :=
      List.mem_filter.mpr ⟨hC ▸ List.mem_filter.mpr ⟨hd, hcontrib⟩, hv⟩
    exact ⟨List.filter_eq_self.mp hall d hmem, havgs d hmem⟩
  · intro h
    have hsampled' : ∀ d ∈ ds.filter (fun d => (v d).contributes),
        (w d).gpuSampled = (v d).gpuSampled := by
      intro d hd
      rw [Bool.eq_iff_iff]
      exact ⟨hsampled d (List.mem_of_mem_filter hd), fun hv =>
        (h d (List.mem_of_mem_filter hd) (List.mem_filter.mp hd).2 hv).1⟩
    have hcounted : (ds.filter fun d => (v d).contributes).filter (fun d => (w d).gpuSampled) =
        (ds.filter fun d => (v d).contributes).filter fun d => (v d).gpuSampled :=
      List.filter_congr hsampled'
    have htimed : (ds.filter fun d => (v d).contributes).filter (fun d => (w d).timed) =
        (ds.filter fun d => (v d).contributes).filter fun d => (v d).timed :=
      List.filter_congr fun d hd => ((hsame d (List.mem_of_mem_filter hd)).timed).symm
    have hreadings : ((ds.filter fun d => (v d).contributes).filter fun d => (v d).gpuSampled).map
        (fun d => (w d).gpu) =
        ((ds.filter fun d => (v d).contributes).filter fun d => (v d).gpuSampled).map
          (fun d => (v d).gpu) := by
      apply List.map_congr_left
      intro d hd
      have hmem := List.mem_filter.mp hd
      have hds := List.mem_of_mem_filter hmem.1
      have hagree := h d hds (List.mem_filter.mp hmem.1).2 hmem.2
      exact (hgpu d hds hagree.1 hagree.2).symm
    have hfield : ∀ {β : Type} (f : DeviceView → β) {xs : List α}, (∀ d ∈ xs, d ∈ ds) →
        (∀ d ∈ ds, f (v d) = f (w d)) → xs.map (fun d => f (w d)) = xs.map (fun d => f (v d)) :=
      fun f xs hxs hf => List.map_congr_left fun d hd => (hf d (hxs d hd)).symm
    have hC : ∀ d ∈ ds.filter (fun d => (v d).contributes), d ∈ ds :=
      fun d hd => List.mem_of_mem_filter hd
    have hT : ∀ d ∈ (ds.filter fun d => (v d).contributes).filter (fun d => (v d).timed), d ∈ ds :=
      fun d hd => hC d (List.mem_of_mem_filter hd)
    simp only [fleetView, List.filter_map, Function.comp_def, List.map_map, hcontributes, hcounted,
      htimed, hreadings, List.length_map, List.map_eq_nil_iff,
      hfield DeviceView.coverage (fun d hd => hd) (fun d hd => (hsame d hd).coverage),
      hfield DeviceView.cpu hC (fun d hd => (hsame d hd).cpu),
      hfield DeviceView.ram hC (fun d hd => (hsame d hd).ram),
      hfield DeviceView.ac hC (fun d hd => (hsame d hd).ac),
      hfield DeviceView.observed hT (fun d hd => (hsame d hd).observed),
      hfield DeviceView.unavailable hT (fun d hd => (hsame d hd).unavailable)]

end SameFleet

/-! ## Aggregation -/

theorem metricOf_exact {means peaks spares : List PyFloat}
    (hmeans : ∀ x ∈ means, x.isFinite = true) (hpeaks : ∀ x ∈ peaks, x.isFinite = true)
    (hpos : ∀ x ∈ peaks, 0 ≤ x.val) (hspares : ∀ x ∈ spares, x.isFinite = true) :
    metricOf exact (defaultAssumptions exact) means peaks spares =
      .ok (Reading.metric ⟨mean (means.map val), peak (peaks.map val), mean (spares.map val)⟩) := by
  unfold metricOf
  rw [fmean_exact hmeans, fmean_exact hspares, maxOf_exact hpeaks hpos]
  rfl

theorem aggregateMetric_exact {rs : List Reading} (h : ∀ r ∈ rs, 0 ≤ r.peak) :
    aggregateMetric exact (defaultAssumptions exact) (rs.map Reading.metric) =
      .ok (Reading.combined rs).metric := by
  unfold aggregateMetric
  rw [metricOf_exact (by simp [Reading.metric, PyFloat.isFinite])
    (by simp [Reading.metric, PyFloat.isFinite]) (by simpa [Reading.metric] using h)
    (by simp [Reading.metric, PyFloat.isFinite])]
  simp [Reading.combined, Function.comp_def, Reading.metric]

/-- A summary of the timing of a device. -/
structure AvailabilitySummary.Shows (a : AvailabilitySummary) (v : DeviceView) : Prop where
  span : 0 ≤ a.spanSeconds.val
  timed : PyFloat.lt (.fin 0) a.spanSeconds = v.timed
  observed : a.observedHoursPerDay = .fin v.observed
  unavailable : a.unavailableHoursPerDay = .fin v.unavailable
  finite : ∀ x ∈ [a.spanSeconds, a.observedSeconds, a.unavailableSeconds, a.observedPct,
    a.unavailablePct], x.isFinite = true

/-- A summary of the usage of a device. -/
structure Summary.Shows (s : Summary) (v : DeviceView) : Prop where
  coverage : s.coverageBuckets = v.coverage
  cpu : s.cpu = v.cpu.metric
  gpu : s.gpu = v.gpu.metric
  gpuSampled : s.gpuSampled = v.gpuSampled
  ram : s.ram.avg = .fin v.ram
  ac : s.acAvg = .fin v.ac
  idle : s.idleAvg.isFinite = true

theorem aggregateAvailability_exact {as : List AvailabilitySummary} {vs : List DeviceView}
    (h : List.Forall₂ AvailabilitySummary.Shows as vs) :
    ∃ total, aggregateAvailability exact as = .ok total ∧
      total.observedHoursPerDay =
        .fin (mean ((vs.filter DeviceView.timed).map DeviceView.observed)) ∧
      total.unavailableHoursPerDay =
        .fin (mean ((vs.filter DeviceView.timed).map DeviceView.unavailable)) := by
  have hvalid : List.Forall₂ AvailabilitySummary.Shows
      (as.filter fun s => PyFloat.lt (.fin 0) s.spanSeconds) (vs.filter DeviceView.timed) :=
    Results.forall₂_filter h (fun a v hav => hav.timed)
  unfold aggregateAvailability
  dsimp only
  generalize as.filter (fun s => PyFloat.lt (.fin 0) s.spanSeconds) = valid at hvalid
  generalize vs.filter DeviceView.timed = timed at hvalid
  by_cases hnil : valid = []
  · subst hnil
    cases hvalid
    rw [if_pos rfl]
    exact ⟨_, rfl, by simp, by simp⟩
  · have hmem : ∀ a ∈ valid, ∃ v, AvailabilitySummary.Shows a v := by
      intro a ha
      obtain ⟨i, hi, rfl⟩ := List.mem_iff_getElem.mp ha
      exact ⟨_, hvalid.get hi (hvalid.length_eq ▸ hi)⟩
    have hmean : ∀ f : AvailabilitySummary → PyFloat, (∀ a ∈ valid, (f a).isFinite = true) →
        exact.fmean (valid.map f) = .ok (.fin (mean ((valid.map f).map val))) := by
      intro f hf
      exact fmean_exact (by simpa using hf)
    have hfin : ∀ f : AvailabilitySummary → PyFloat, (∀ a, f a ∈ [a.spanSeconds, a.observedSeconds,
        a.unavailableSeconds, a.observedPct, a.unavailablePct]) →
        ∀ a ∈ valid, (f a).isFinite = true := by
      intro f hf a ha
      obtain ⟨v, -, hv⟩ := Results.forall₂_mem_left hvalid ha
      exact hv.finite _ (hf a)
    have hobserved : ∀ a ∈ valid, a.observedHoursPerDay.isFinite = true := by
      intro a ha
      obtain ⟨v, -, hv⟩ := Results.forall₂_mem_left hvalid ha
      rw [hv.observed]
      rfl
    have hunavailable : ∀ a ∈ valid, a.unavailableHoursPerDay.isFinite = true := by
      intro a ha
      obtain ⟨v, -, hv⟩ := Results.forall₂_mem_left hvalid ha
      rw [hv.unavailable]
      rfl
    rw [if_neg hnil, hmean _ (hfin _ (by simp)), hmean _ (hfin _ (by simp)),
      hmean _ (hfin _ (by simp)), hmean _ hobserved, hmean _ hunavailable,
      hmean _ (hfin _ (by simp)), hmean _ (hfin _ (by simp)), hmean _ (fun _ _ => rfl),
      hmean _ (fun _ _ => rfl)]
    have hobs : (valid.map (·.observedHoursPerDay)).map val = timed.map DeviceView.observed := by
      rw [List.map_map]
      exact Results.map_eq_of_forall₂ hvalid (fun a v hav => congrArg val hav.observed)
    have hunav : (valid.map (·.unavailableHoursPerDay)).map val =
        timed.map DeviceView.unavailable := by
      rw [List.map_map]
      exact Results.map_eq_of_forall₂ hvalid (fun a v hav => congrArg val hav.unavailable)
    exact ⟨_, rfl, congrArg (fun xs => PyFloat.fin (mean xs)) hobs,
      congrArg (fun xs => PyFloat.fin (mean xs)) hunav⟩

/-- A device in the aggregate: its summary, and the timing in it. -/
def Summary.Of (s : Summary) (v : DeviceView) : Prop :=
  s.Shows v ∧ s.availability.Shows v ∧ v.InRange

theorem fmean_shows {ss : List Summary} {vs : List DeviceView} {f : Summary → PyFloat}
    {g : DeviceView → Rat} (h : List.Forall₂ Summary.Of ss vs)
    (hfg : ∀ s v, Summary.Of s v → f s = .fin (g v)) :
    exact.fmean (ss.map f) = .ok (.fin (mean (vs.map g))) := by
  rw [Results.map_eq_of_forall₂ h hfg, fmean_exact (by simp [PyFloat.isFinite]), List.map_map]
  rfl

theorem aggregate_metrics {ss : List Summary} {vs : List DeviceView} {f : Summary → Metric}
    {g : DeviceView → Reading} (h : List.Forall₂ Summary.Of ss vs)
    (hfg : ∀ s v, Summary.Of s v → f s = (g v).metric) (hg : ∀ v, v.InRange → (g v).InRange) :
    aggregateMetric exact (defaultAssumptions exact) (ss.map f) =
      .ok (Reading.combined (vs.map g)).metric := by
  have hmap : ss.map f = (vs.map g).map Reading.metric := by
    rw [List.map_map]
    exact Results.map_eq_of_forall₂ h hfg
  rw [hmap]
  apply aggregateMetric_exact
  intro r hr
  obtain ⟨v, hv, rfl⟩ := List.mem_map.mp hr
  obtain ⟨s, -, hsv⟩ := Results.forall₂_mem_left h.flip hv
  have hrange := hg v hsv.2.2
  exact hrange.avg.trans hrange.peak

theorem aggregate_exact {ss : List Summary} {vs : List DeviceView}
    (h : List.Forall₂ Summary.Of ss vs) :
    ∃ fleet, aggregate exact (defaultAssumptions exact) ss = .ok fleet ∧
      fleet.view = fleetView vs := by
  have hcoverage : (ss.map (·.coverageBuckets)).sum = (vs.map DeviceView.coverage).sum :=
    congrArg List.sum (Results.map_eq_of_forall₂ h (fun s v hsv => hsv.1.coverage))
  have hc : List.Forall₂ Summary.Of (ss.filter fun s => decide (0 < s.coverageBuckets))
      (vs.filter DeviceView.contributes) :=
    Results.forall₂_filter h (fun s v hsv => by rw [hsv.1.coverage, DeviceView.contributes])
  unfold aggregate fleetView
  dsimp only
  rw [hcoverage]
  generalize ss.filter (fun s => decide (0 < s.coverageBuckets)) = contributing at hc
  generalize vs.filter DeviceView.contributes = devices at hc
  have ha : List.Forall₂ AvailabilitySummary.Shows (contributing.map (·.availability)) devices := by
    rw [List.forall₂_map_left_iff]
    exact hc.imp (fun s v hsv => hsv.2.1)
  obtain ⟨total, htotal, hobserved, hunavailable⟩ := aggregateAvailability_exact ha
  by_cases hnil : contributing = []
  · subst hnil
    cases hc
    rw [if_pos rfl, ← List.map_nil, htotal]
    refine ⟨_, rfl, ?_⟩
    simp [Fleet.view, hobserved, hunavailable, Reading.combined, Reading.metric_zero]
  · have hdevices : devices ≠ [] := by
      rintro rfl
      cases hc
      exact hnil rfl
    have hg : List.Forall₂ Summary.Of (contributing.filter (·.gpuSampled))
        (devices.filter DeviceView.gpuSampled) :=
      Results.forall₂_filter hc (fun s v hsv => hsv.1.gpuSampled)
    have hcpu := aggregate_metrics hc (fun s v hsv => hsv.1.cpu) (fun v hv => hv.cpu)
    have hgpu := aggregate_metrics hg (fun s v hsv => hsv.1.gpu) (fun v hv => hv.gpu)
    have hnone : contributing.filter (·.gpuSampled) = [] → (pure {} : Except String Metric) =
        .ok (Reading.combined ((devices.filter DeviceView.gpuSampled).map DeviceView.gpu)).metric := by
      intro hg0
      rw [hg0] at hg
      rw [List.forall₂_nil_left_iff.mp hg]
      simp [Reading.combined, Reading.metric_zero, pure, Except.pure]
    have hram := fmean_shows hc (fun s v hsv => hsv.1.ram)
    have hac := fmean_shows hc (fun s v hsv => hsv.1.ac)
    have hidle : ∀ x ∈ contributing.map (·.idleAvg), x.isFinite = true := by
      intro x hx
      obtain ⟨s, hs, rfl⟩ := List.mem_map.mp hx
      obtain ⟨v, -, hsv⟩ := Results.forall₂_mem_left hc hs
      exact hsv.1.idle
    rw [if_neg hnil, hcpu, hram, hac, fmean_exact hidle, htotal, if_neg hdevices, hgpu]
    split
    next hg0 =>
      rw [hnone hg0]
      refine ⟨_, rfl, ?_⟩
      simp [Fleet.view, hobserved, hunavailable, hc.length_eq, hg.length_eq]
    next =>
      refine ⟨_, rfl, ?_⟩
      simp [Fleet.view, hobserved, hunavailable, hc.length_eq, hg.length_eq]

end OneCompute.Measurement
