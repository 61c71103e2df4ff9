import OneCompute.Measurement.DeviceSummary
import OneCompute.Measurement.Readable
import OneCompute.Orchestrator.Rollup

/-!
`/measurement` over rows that hold any text: which rows it survives, and what bounds the
result whatever they hold.
-/

namespace OneCompute
open PyFloat (val pyMax pyMin)
open PyNumber (Rounding exact)
open Measurement
open Results (Returns returns_ok returns_bind returns_mapM)
open Jobkit (pyInt)

/-- What `json.loads` makes of a row. -/
inductive StoredText where
  /-- It raises `ValueError`. -/
  | malformed
  /-- It raises `RecursionError`. -/
  | tooDeep
  | decoded (value : Json)

section Rows
variable (R : Rounding)

def decodeRow : StoredText → Except String (Option CompactProfile)
  | .malformed => .ok none
  | .tooDeep => .error "RecursionError"
  | .decoded value => decodeStoredProfile R value

/-- What `/measurement` makes of the rows it reads. -/
def measurementOfRows (rows : List StoredText) : Except String MeasurementSummary := do
  let profiles ← rows.mapM (decodeRow R)
  return aggregateCompactProfiles R profiles.reduceOption

end Rows

/-! ## Rows that can be decoded -/

section Decoding
variable {R : Rounding}

def metricFields : List String := ["avg", "peak", "recoverable_low", "recoverable_high"]

def hoursFields : List String :=
  ["span_hours", "observed_hours_per_day", "unavailable_hours_per_day"]

theorem clampPctJson_returns {value : Json} :
    Returns (clampPctJson R value) ↔ beyondFloat R value = false :=
  (returns_bind fun _ _ => iff_true_intro (returns_ok _)).trans
    ((iff_of_eq (and_true _)).trans floatOr_returns)

theorem clampNonnegativeJson_returns {maximum : PyFloat} {value : Json} :
    Returns (clampNonnegativeJson R maximum value) ↔ beyondFloat R value = false :=
  (returns_bind fun _ _ => iff_true_intro (returns_ok _)).trans
    ((iff_of_eq (and_true _)).trans floatOr_returns)

/-- A field of a value: what is no object has none. -/
theorem beyondFloat_fieldOf {value : Json} {names : List String} :
    (∀ name ∈ names, beyondFloat R (fieldOf value name) = false) ↔ ObjFields R names value := by
  cases value with
  | obj raw =>
      constructor
      · intro h raw' heq name hname
        cases heq
        rw [← beyondFloat_getD]
        exact h name hname
      · intro h name hname
        exact (beyondFloat_getD raw name).trans (h raw rfl name hname)
  | _ => exact iff_of_true (fun _ _ => rfl) nofun

theorem sanitizeMetric_returns {value : Json} :
    Returns (sanitizeMetric R value) ↔ ObjFields R metricFields value := by
  rw [← beyondFloat_fieldOf]
  simp only [metricFields, List.forall_mem_cons]
  refine (returns_bind fun _ _ => returns_bind fun _ _ => returns_bind fun _ _ =>
    returns_bind fun _ _ => iff_true_intro (returns_ok _)).trans ?_
  simp only [clampPctJson_returns]
  simp

theorem sanitizeAvailability_returns {value : Json} :
    Returns (sanitizeAvailability R value) ↔ ObjFields R hoursFields value := by
  rw [← beyondFloat_fieldOf]
  simp only [hoursFields, List.forall_mem_cons]
  refine (returns_bind fun _ _ => returns_bind fun _ _ => returns_bind fun _ _ =>
    iff_true_intro ?_).trans ?_
  · dsimp only
    split <;> exact returns_ok _
  · simp only [clampNonnegativeJson_returns]
    simp

theorem objFields_floats {names : List String} {fields : Dict}
    (h : ∀ p ∈ fields, ∃ x, p.2 = .float x) : ObjFields R names (.obj fields) := by
  intro raw heq name _
  cases heq
  unfold getField
  cases hf : Json.lookup fields name with
  | none => rfl
  | some v =>
      obtain ⟨p, hp, rfl⟩ := Option.map_eq_some_iff.mp hf
      obtain ⟨x, hx⟩ := h p (List.mem_of_find?_eq_some hp)
      rw [hx]
      rfl

theorem metric_toJson_fields (m : Metric) : ObjFields R metricFields m.toJson :=
  objFields_floats fun p hp => by
    simp only [List.mem_cons, List.not_mem_nil, or_false] at hp
    obtain rfl | rfl | rfl | rfl := hp <;> exact ⟨_, rfl⟩

/-- A stored bucket list of which every number that is read has a float, and so have the
sums of its columns. -/
def LegacyReads (R : Rounding) (raws : List Json) : Prop :=
  (∀ value ∈ raws.take bucketsPerWeek,
    ∀ raw, value = .obj raw → Populated raw → Fields R reportFields raw) ∧
  ∀ bs, normalizeBuckets R (.arr raws) = .ok bs → ColumnsFit R { populated := bs }

theorem compactFromLegacyBuckets_returns {raws : List Json}
    {deviceClass : MeasurementDeviceClass} :
    Returns (compactFromLegacyBuckets R (.arr raws) deviceClass) ↔ LegacyReads R raws := by
  unfold LegacyReads
  rw [← normalizeBuckets_returns]
  have hrest : ∀ bs, normalizeBuckets R (.arr raws) = .ok bs →
      (Returns (do
        let summary ← summarizeProfile R (defaultAssumptions R) { populated := bs }
        let cpu ← sanitizeMetric R summary.cpu.toJson
        let gpu ← sanitizeMetric R summary.gpu.toJson
        let availability ← sanitizeAvailability R (.obj [])
        return {
          deviceClass := deviceClass
          coverageBuckets := summary.coverageBuckets
          cpu := cpu
          gpu := gpu
          gpuSampled := summary.gpuSampled
          ramAvg := clampPct summary.ram.avg
          ramHeadroom := clampPct summary.ram.headroom
          acAvg := clampPct summary.acAvg
          availability := availability } : Except String CompactProfile) ↔
        ColumnsFit R { populated := bs }) := by
    intro bs hbs
    have hsummary : Returns (summarizeProfile R (defaultAssumptions R) { populated := bs }) ↔ _ :=
      summarizeProfile_returns (normalizeBuckets_finite hbs)
    refine (returns_bind fun summary _ => iff_true_intro ?_).trans
      ((iff_of_eq (and_true _)).trans (hsummary.trans ?_))
    · obtain ⟨cpu, hcpu⟩ : Returns (sanitizeMetric R summary.cpu.toJson) :=
        sanitizeMetric_returns.mpr (metric_toJson_fields summary.cpu)
      obtain ⟨gpu, hgpu⟩ : Returns (sanitizeMetric R summary.gpu.toJson) :=
        sanitizeMetric_returns.mpr (metric_toJson_fields summary.gpu)
      obtain ⟨a, ha⟩ : Returns (sanitizeAvailability R (.obj [])) :=
        sanitizeAvailability_returns.mpr (objFields_floats nofun)
      rw [hcpu, hgpu, ha]
      exact returns_ok _
    · exact ⟨And.right, fun h => ⟨nofun, h⟩⟩
  unfold compactFromLegacyBuckets
  constructor
  · rintro ⟨c, hc⟩
    obtain ⟨bs, hbs, hc⟩ := Results.bind_eq_ok.mp hc
    refine ⟨⟨bs, hbs⟩, fun bs' hbs' => ?_⟩
    cases hbs.symm.trans hbs'
    exact (hrest bs hbs).mp ⟨c, hc⟩
  · rintro ⟨⟨bs, hbs⟩, hfit⟩
    obtain ⟨c, hc⟩ := (hrest bs hbs).mpr (hfit bs hbs)
    exact ⟨c, Results.bind_eq_ok.mpr ⟨bs, hbs, hc⟩⟩

/-- A value that can be an element of a set. -/
def hashable : Json → Bool
  | .arr _ | .obj _ => false
  | _ => true

theorem decodeDeviceClass_returns {value : Json} :
    Returns (decodeDeviceClass value) ↔ hashable value = true := by
  unfold decodeDeviceClass hashable
  split <;> simp

/-- The parts of a stored summary that are read. -/
structure SummaryReads (R : Rounding) (fields : Dict) : Prop where
  numbers : Fields R ["coverage_buckets", "ram_avg", "ac_avg"] fields
  deviceClass : hashable (getField fields "device_class") = true
  cpu : ObjFields R metricFields (getField fields "cpu")
  gpu : ObjFields R metricFields (getField fields "gpu")
  availability : ObjFields R hoursFields (getField fields "availability")

/-- A row that does not take the report down. -/
def StoredText.Decodes (R : Rounding) : StoredText → Prop
  | .malformed => True
  | .tooDeep => False
  | .decoded (.arr raws) => LegacyReads R raws
  | .decoded (.obj fields) => SummaryReads R fields
  | .decoded _ => True

/-- An absent object and an empty one have the same fields. -/
theorem objFields_getD {fields : Dict} {key : String} {names : List String} :
    ObjFields R names ((Json.lookup fields key).getD (.obj [])) ↔
      ObjFields R names (getField fields key) := by
  unfold getField
  cases Json.lookup fields key with
  | some v => exact Iff.rfl
  | none => exact iff_of_true (objFields_floats nofun) nofun

theorem decodeRow_returns {row : StoredText} :
    Returns (decodeRow R row) ↔ row.Decodes R := by
  cases row with
  | malformed => exact iff_of_true (returns_ok _) trivial
  | tooDeep => exact iff_of_false (Results.not_returns_error _) id
  | decoded value =>
      cases value with
      | arr raws =>
          exact (returns_bind fun _ _ => iff_true_intro (returns_ok _)).trans
            ((iff_of_eq (and_true _)).trans compactFromLegacyBuckets_returns)
      | obj fields =>
          have hclass : hashable ((Json.lookup fields "device_class").getD (.str "unknown")) =
              hashable (getField fields "device_class") := by
            unfold getField
            cases Json.lookup fields "device_class" <;> rfl
          have hsplit : SummaryReads R fields ↔
              beyondFloat R (getField fields "coverage_buckets") = false ∧
              beyondFloat R (getField fields "ram_avg") = false ∧
              hashable (getField fields "device_class") = true ∧
              ObjFields R metricFields (getField fields "cpu") ∧
              ObjFields R metricFields (getField fields "gpu") ∧
              beyondFloat R (getField fields "ac_avg") = false ∧
              ObjFields R hoursFields (getField fields "availability") ∧ True := by
            constructor
            · intro h
              have hnumbers := h.numbers
              simp only [Fields, List.forall_mem_cons] at hnumbers
              exact ⟨hnumbers.1, hnumbers.2.1, h.deviceClass, h.cpu, h.gpu, hnumbers.2.2.1,
                h.availability, trivial⟩
            · rintro ⟨hcoverage, hram, hdevice, hcpu, hgpu, hac, havail, -⟩
              refine ⟨?_, hdevice, hcpu, hgpu, havail⟩
              simp only [Fields, List.forall_mem_cons]
              exact ⟨hcoverage, hram, hac, fun _ hkey => absurd hkey List.not_mem_nil⟩
          refine (returns_bind fun _ _ => returns_bind fun _ _ => returns_bind fun _ _ =>
            returns_bind fun _ _ => returns_bind fun _ _ => returns_bind fun _ _ =>
            returns_bind fun _ _ => iff_true_intro (returns_ok _)).trans ?_
          change _ ↔ SummaryReads R fields
          rw [hsplit, clampNonnegativeJson_returns, clampPctJson_returns, clampPctJson_returns,
            decodeDeviceClass_returns, sanitizeMetric_returns, sanitizeMetric_returns,
            sanitizeAvailability_returns, hclass, beyondFloat_getD, beyondFloat_getD, objFields_getD,
            objFields_getD, objFields_getD]
          rfl
      | _ => exact iff_of_true (returns_ok _) trivial

theorem measurement_returns {rows : List StoredText} :
    Returns (measurementOfRows R rows) ↔ ∀ row ∈ rows, row.Decodes R := by
  refine (returns_bind fun _ _ => iff_true_intro (returns_ok _)).trans
    ((iff_of_eq (and_true _)).trans (returns_mapM.trans ?_))
  simp only [decodeRow_returns]

end Decoding

/-! ## Bounds -/

section Bounds

structure MetricSummary.Bounded (m : MetricSummary) : Prop where
  envelope : Envelope m.avg m.peak
  low : IsPct m.recoverableLow
  high : IsPct m.recoverableHigh
  ordered : m.recoverableLow.val ≤ m.recoverableHigh.val

/-- Hours of a day, observed and not. -/
structure InDay (x y : PyFloat) : Prop where
  observed : ∃ o, x = .fin o ∧ 0 ≤ o
  unavailable : ∃ u, y = .fin u ∧ 0 ≤ u
  day : x.val + y.val ≤ 24

structure CompactProfile.Bounded (c : CompactProfile) : Prop where
  cpu : c.cpu.Bounded
  gpu : c.gpu.Bounded
  ram : IsPct c.ramAvg
  ac : IsPct c.acAvg
  hours : InDay c.availability.observedHoursPerDay c.availability.unavailableHoursPerDay

structure MeasurementSummary.Bounded (m : MeasurementSummary) : Prop where
  cpu : m.cpu.Bounded
  gpu : m.gpu.Bounded
  ram : IsPct m.ramAvg
  headroom : IsPct m.ramHeadroom
  ac : IsPct m.acAvg
  hours : InDay m.observedHoursPerDay m.unavailableHoursPerDay
  counted : m.deviceCount = (m.deviceClasses.map (·.2)).sum

theorem clampPct_isPct (x : PyFloat) : IsPct (clampPct x) := by
  unfold clampPct
  split
  · exact isPct_zero
  · exact clamp_isPct x

theorem clampNonnegative_mem {m : Rat} (hm : 0 ≤ m) (x : PyFloat) :
    ∃ q, clampNonnegative (.fin m) x = .fin q ∧ 0 ≤ q ∧ q ≤ m := by
  unfold clampNonnegative
  split
  · exact ⟨0, rfl, le_rfl, hm⟩
  · exact PyNumber.clamp_mem hm x

theorem sanitizeMetric_bounded {R : Rounding} {value : Json} {m : MetricSummary}
    (h : sanitizeMetric R value = .ok m) : m.Bounded := by
  have hclamp : ∀ {v x}, clampPctJson R v = .ok x → IsPct x := by
    intro v x hx
    obtain ⟨y, -, hy⟩ := Results.bind_eq_ok.mp hx
    cases hy
    exact clampPct_isPct y
  obtain ⟨avg, havg, h⟩ := Results.bind_eq_ok.mp h
  obtain ⟨peak, hpeak, h⟩ := Results.bind_eq_ok.mp h
  obtain ⟨low, hlow, h⟩ := Results.bind_eq_ok.mp h
  obtain ⟨high, hhigh, h⟩ := Results.bind_eq_ok.mp h
  cases h
  have havg := hclamp havg
  have hpeak := hclamp hpeak
  have hlow := hclamp hlow
  have hhigh := hclamp hhigh
  have hlowest := min_isPct hlow hhigh
  have hhighest := envelope_max hlow hhigh
  exact ⟨envelope_max havg hpeak, hlowest.1, hhighest.top, hlowest.2.trans hhighest.ordered⟩

theorem scaleToDay_inDay {o u : Rat} (ho : 0 ≤ o) (hu : 0 ≤ u) :
    InDay (scaleToDay exact (.fin o) (.fin u)).1 (scaleToDay exact (.fin o) (.fin u)).2 := by
  unfold scaleToDay
  rw [PyNumber.exact_add]
  by_cases hday : 24 < o + u
  · have hpos : 0 < o + u := by linarith
    have hscale : 0 ≤ 24 / (o + u) := by positivity
    rw [if_pos (by simpa [PyFloat.lt] using hday), PyNumber.exact_div]
    refine ⟨⟨_, rfl, mul_nonneg ho hscale⟩, ⟨_, rfl, mul_nonneg hu hscale⟩, ?_⟩
    change o * (24 / (o + u)) + u * (24 / (o + u)) ≤ 24
    rw [← add_mul, mul_div_cancel₀ _ hpos.ne']
  · rw [if_neg (by simpa [PyFloat.lt] using hday)]
    exact ⟨⟨o, rfl, ho⟩, ⟨u, rfl, hu⟩, not_lt.mp hday⟩

theorem sanitizeAvailability_inDay {value : Json} {a : ProfileAvailability}
    (h : sanitizeAvailability exact value = .ok a) :
    InDay a.observedHoursPerDay a.unavailableHoursPerDay := by
  have hclamp : ∀ {v x}, clampNonnegativeJson exact (.fin 24) v = .ok x →
      ∃ q, x = .fin q ∧ 0 ≤ q := by
    intro v x hx
    obtain ⟨y, -, hy⟩ := Results.bind_eq_ok.mp hx
    cases hy
    obtain ⟨q, hq, hq0, -⟩ := clampNonnegative_mem (by norm_num : (0 : Rat) ≤ 24) y
    exact ⟨q, hq, hq0⟩
  obtain ⟨span, -, h⟩ := Results.bind_eq_ok.mp h
  obtain ⟨observed, hobserved, h⟩ := Results.bind_eq_ok.mp h
  obtain ⟨unavailable, hunavailable, h⟩ := Results.bind_eq_ok.mp h
  obtain ⟨o, rfl, ho⟩ := hclamp hobserved
  obtain ⟨u, rfl, hu⟩ := hclamp hunavailable
  dsimp only at h
  split at h
  · cases h
    exact ⟨⟨0, rfl, le_rfl⟩, ⟨0, rfl, le_rfl⟩, by norm_num⟩
  · cases h
    exact scaleToDay_inDay ho hu

theorem decodeRow_bounded {row : StoredText} {c : CompactProfile}
    (h : decodeRow exact row = .ok (some c)) : c.Bounded := by
  have hclamp : ∀ {v x}, clampPctJson exact v = .ok x → IsPct x := by
    intro v x hx
    obtain ⟨y, -, hy⟩ := Results.bind_eq_ok.mp hx
    cases hy
    exact clampPct_isPct y
  cases row with
  | malformed => cases h
  | tooDeep => cases h
  | decoded value =>
      cases value with
      | arr raws =>
          obtain ⟨c', hc, h⟩ := Results.bind_eq_ok.mp h
          cases h
          obtain ⟨bs, -, hc⟩ := Results.bind_eq_ok.mp hc
          obtain ⟨summary, -, hc⟩ := Results.bind_eq_ok.mp hc
          obtain ⟨cpu, hcpu, hc⟩ := Results.bind_eq_ok.mp hc
          obtain ⟨gpu, hgpu, hc⟩ := Results.bind_eq_ok.mp hc
          obtain ⟨a, ha, hc⟩ := Results.bind_eq_ok.mp hc
          cases hc
          exact ⟨sanitizeMetric_bounded hcpu, sanitizeMetric_bounded hgpu, clampPct_isPct _,
            clampPct_isPct _, sanitizeAvailability_inDay ha⟩
      | obj fields =>
          obtain ⟨coverage, -, h⟩ := Results.bind_eq_ok.mp h
          obtain ⟨ram, hram, h⟩ := Results.bind_eq_ok.mp h
          obtain ⟨deviceClass, -, h⟩ := Results.bind_eq_ok.mp h
          obtain ⟨cpu, hcpu, h⟩ := Results.bind_eq_ok.mp h
          obtain ⟨gpu, hgpu, h⟩ := Results.bind_eq_ok.mp h
          obtain ⟨ac, hac, h⟩ := Results.bind_eq_ok.mp h
          obtain ⟨a, ha, h⟩ := Results.bind_eq_ok.mp h
          cases h
          exact ⟨sanitizeMetric_bounded hcpu, sanitizeMetric_bounded hgpu, hclamp hram, hclamp hac,
            sanitizeAvailability_inDay ha⟩
      | _ => cases h

/-! ## Averages -/

theorem average_between {xs : List PyFloat} {a b : Rat} (ha : a ≤ 0) (hb : 0 ≤ b)
    (h : ∀ x ∈ xs, x.isFinite = true ∧ a ≤ x.val ∧ x.val ≤ b) :
    ∃ q, average exact xs = .fin q ∧ a ≤ q ∧ q ≤ b := by
  refine ⟨_, average_exact fun x hx => (h x hx).1, ?_⟩
  by_cases hnil : xs = []
  · subst hnil
    simpa using ⟨ha, hb⟩
  · apply Mean.mean_mem (by simpa using hnil)
    intro q hq
    obtain ⟨x, hx, rfl⟩ := List.mem_map.mp hq
    exact (h x hx).2

theorem average_isPct {xs : List PyFloat} (h : ∀ x ∈ xs, IsPct x) : IsPct (average exact xs) := by
  obtain ⟨q, hq, h0, h100⟩ := average_between le_rfl (by norm_num)
    fun x hx => ⟨(h x hx).finite, (h x hx).low, (h x hx).high⟩
  rw [hq]
  exact ⟨rfl, h0, h100⟩

theorem compactMetric_bounded {ms : List MetricSummary} (h : ∀ m ∈ ms, m.Bounded) :
    (compactMetric exact ms).Bounded := by
  unfold compactMetric
  split
  · exact ⟨⟨isPct_zero, isPct_zero, le_rfl⟩, isPct_zero, isPct_zero, le_rfl⟩
  next hne =>
    have hpct : ∀ f : MetricSummary → PyFloat, (∀ m, m.Bounded → IsPct (f m)) →
        ∀ x ∈ ms.map f, IsPct x := by
      intro f hf x hx
      obtain ⟨m, hm, rfl⟩ := List.mem_map.mp hx
      exact hf m (h m hm)
    have havgs := hpct (·.avg) fun m hm => hm.envelope.level
    have hpeaks := hpct (·.peak) fun m hm => hm.envelope.top
    have hlows := hpct (·.recoverableLow) fun m hm => hm.low
    have hhighs := hpct (·.recoverableHigh) fun m hm => hm.high
    have hpeak := PyNumber.maxOf_exact (fun x hx => (hpeaks x hx).finite)
      (fun x hx => (hpeaks x hx).low)
    have htop : 0 ≤ Mean.peak ((ms.map (·.peak)).map val) ∧
        Mean.peak ((ms.map (·.peak)).map val) ≤ 100 :=
      Mean.peak_mem (by norm_num) (by simpa using fun m hm => (h m hm).envelope.top.high)
    refine ⟨⟨average_isPct havgs, ?_, ?_⟩, average_isPct hlows, average_isPct hhighs, ?_⟩
    · dsimp only
      rw [hpeak]
      exact ⟨rfl, htop.1, htop.2⟩
    · dsimp only
      rw [hpeak, average_exact fun x hx => (havgs x hx).finite]
      apply (Mean.mean_mem (by simpa using hne) (a := 0) _).2
      intro q hq
      obtain ⟨x, hx, rfl⟩ := List.mem_map.mp hq
      obtain ⟨m, hm, rfl⟩ := List.mem_map.mp hx
      exact ⟨(h m hm).envelope.level.low, (h m hm).envelope.ordered.trans
        (Mean.le_peak (List.mem_map_of_mem (List.mem_map_of_mem hm)))⟩
    · dsimp only
      rw [average_exact fun x hx => (hlows x hx).finite,
        average_exact fun x hx => (hhighs x hx).finite, List.map_map, List.map_map]
      exact Mean.mean_le fun m hm => (h m hm).ordered

theorem average_inDay {as : List ProfileAvailability}
    (h : ∀ a ∈ as, InDay a.observedHoursPerDay a.unavailableHoursPerDay) :
    InDay (average exact (as.map (·.observedHoursPerDay)))
      (average exact (as.map (·.unavailableHoursPerDay))) := by
  have hobserved : ∀ x ∈ as.map (·.observedHoursPerDay), x.isFinite = true ∧ 0 ≤ x.val ∧
      x.val ≤ 24 := by
    intro x hx
    obtain ⟨a, ha, rfl⟩ := List.mem_map.mp hx
    obtain ⟨⟨o, ho, ho0⟩, ⟨u, hu, hu0⟩, hday⟩ := h a ha
    rw [ho, hu] at hday
    rw [ho]
    exact ⟨rfl, ho0, by simp only [PyFloat.val_fin] at *; linarith⟩
  have hunavailable : ∀ x ∈ as.map (·.unavailableHoursPerDay), x.isFinite = true ∧ 0 ≤ x.val ∧
      x.val ≤ 24 := by
    intro x hx
    obtain ⟨a, ha, rfl⟩ := List.mem_map.mp hx
    obtain ⟨⟨o, ho, ho0⟩, ⟨u, hu, hu0⟩, hday⟩ := h a ha
    rw [ho, hu] at hday
    rw [hu]
    exact ⟨rfl, hu0, by simp only [PyFloat.val_fin] at *; linarith⟩
  obtain ⟨o, ho, ho0, -⟩ := average_between le_rfl (by norm_num) hobserved
  obtain ⟨u, hu, hu0, -⟩ := average_between le_rfl (by norm_num) hunavailable
  refine ⟨⟨o, ho, ho0⟩, ⟨u, hu, hu0⟩, ?_⟩
  rw [average_exact fun x hx => (hobserved x hx).1,
    average_exact fun x hx => (hunavailable x hx).1, List.map_map, List.map_map]
  change Mean.mean (as.map _) + Mean.mean (as.map _) ≤ 24
  by_cases hnil : as = []
  · subst hnil
    norm_num
  · -- the average of the sums is the sum of the averages
    have hmean : Mean.mean (as.map fun a => a.observedHoursPerDay.val) +
        Mean.mean (as.map fun a => a.unavailableHoursPerDay.val) =
        Mean.mean (as.map fun a => a.observedHoursPerDay.val + a.unavailableHoursPerDay.val) := by
      unfold Mean.mean
      rw [List.sum_map_add, List.length_map, List.length_map, List.length_map, add_div]
    refine hmean.trans_le (Mean.mean_mem (by simpa using hnil) (a := 0) ?_).2
    intro q hq
    obtain ⟨a, ha, rfl⟩ := List.mem_map.mp hq
    obtain ⟨⟨o, ho, ho0⟩, ⟨u, hu, hu0⟩, hday⟩ := h a ha
    refine ⟨?_, hday⟩
    rw [ho, hu]
    exact add_nonneg ho0 hu0

/-- Count a name once more. -/
def bump (name : String) (p : String × Nat) : String × Nat :=
  if p.1 == name then (p.1, p.2 + 1) else p

theorem bump_keys (name : String) (counts : List (String × Nat)) :
    (counts.map (bump name)).map (·.1) = counts.map (·.1) := by
  rw [List.map_map]
  apply List.map_congr_left
  intro p _
  unfold bump
  dsimp only [Function.comp_apply]
  split <;> rfl

theorem bump_other {name : String} {counts : List (String × Nat)}
    (h : name ∉ counts.map (·.1)) : counts.map (bump name) = counts := by
  conv_rhs => rw [← List.map_id counts]
  apply List.map_congr_left
  intro p hp
  have hne : ¬ p.1 = name := fun heq => h (heq ▸ List.mem_map_of_mem hp)
  simp [bump, hne]

theorem bump_sum {name : String} {counts : List (String × Nat)}
    (hnodup : (counts.map (·.1)).Nodup) (h : name ∈ counts.map (·.1)) :
    ((counts.map (bump name)).map (·.2)).sum = (counts.map (·.2)).sum + 1 := by
  induction counts with
  | nil => cases h
  | cons p rest ih =>
      rw [List.map_cons, List.nodup_cons] at hnodup
      by_cases hp : p.1 = name
      · have hrest : name ∉ rest.map (·.1) := hp ▸ hnodup.1
        have hbump : bump name p = (p.1, p.2 + 1) := by simp [bump, hp]
        rw [List.map_cons, bump_other hrest, hbump, List.map_cons, List.map_cons, List.sum_cons,
          List.sum_cons]
        omega
      · have hmem : name ∈ rest.map (·.1) := by
          cases List.mem_cons.mp h with
          | inl heq => exact absurd heq.symm hp
          | inr hmem => exact hmem
        have hbump : bump name p = p := by simp [bump, hp]
        rw [List.map_cons, hbump, List.map_cons, List.map_cons, List.sum_cons, List.sum_cons,
          ih hnodup.2 hmem]
        omega

/-- Every device is counted under one name. -/
theorem countNames_sum (names : List String) :
    ((countNames names).map (·.2)).sum = names.length := by
  have hcount : ∀ (names : List String) (counts : List (String × Nat)),
      (counts.map (·.1)).Nodup →
      ((names.foldl (fun counts name =>
        if counts.any (·.1 == name) then counts.map (bump name)
        else counts ++ [(name, 1)]) counts).map (·.2)).sum =
      (counts.map (·.2)).sum + names.length := by
    intro names
    induction names with
    | nil => intros; rfl
    | cons name names ih =>
        intro counts hnodup
        have hany : counts.any (·.1 == name) = true ↔ name ∈ counts.map (·.1) := by
          simp [List.any_eq_true]
        rw [List.foldl_cons, List.length_cons]
        by_cases hmem : name ∈ counts.map (·.1)
        · rw [if_pos (hany.mpr hmem), ih _ (by rw [bump_keys]; exact hnodup), bump_sum hnodup hmem]
          omega
        · rw [if_neg (mt hany.mp hmem), ih]
          · rw [List.map_append, List.sum_append]
            change _ + 1 + _ = _
            omega
          · rw [List.map_append, List.nodup_append]
            refine ⟨hnodup, List.nodup_singleton _, fun a ha b hb heq => ?_⟩
            cases List.mem_singleton.mp hb
            have hname : a = name := heq
            exact hmem (hname ▸ ha)
  exact (hcount names [] List.nodup_nil).trans (Nat.zero_add _)

theorem aggregateCompactProfiles_bounded {cs : List CompactProfile} (h : ∀ c ∈ cs, c.Bounded) :
    (aggregateCompactProfiles exact cs).Bounded := by
  have hc : ∀ c ∈ cs.filter fun c => decide (0 < c.coverageBuckets), c.Bounded :=
    fun c hmem => h c (List.mem_filter.mp hmem).1
  have hpct : ∀ f : CompactProfile → PyFloat, (∀ c, c.Bounded → IsPct (f c)) →
      IsPct (average exact ((cs.filter fun c => decide (0 < c.coverageBuckets)).map f)) := by
    intro f hf
    apply average_isPct
    intro x hx
    obtain ⟨c, hmem, rfl⟩ := List.mem_map.mp hx
    exact hf c (hc c hmem)
  have hram := hpct (·.ramAvg) fun c hb => hb.ram
  constructor
  · apply compactMetric_bounded
    intro m hm
    obtain ⟨c, hmem, rfl⟩ := List.mem_map.mp hm
    exact (hc c hmem).cpu
  · apply compactMetric_bounded
    intro m hm
    obtain ⟨c, hmem, rfl⟩ := List.mem_map.mp hm
    exact (hc c (List.mem_filter.mp hmem).1).gpu
  · exact hram
  · change IsPct (if _ then .fin 0 else _)
    split
    · exact isPct_zero
    · rw [PyFloat.fin_val hram.finite, headroomOf_exact]
      refine ⟨rfl, le_max_left _ _, max_le (by norm_num) ?_⟩
      have := hram.low
      linarith
  · exact hpct (·.acAvg) fun c hb => hb.ac
  · apply average_inDay
    intro a ha
    obtain ⟨c, hmem, rfl⟩ := List.mem_map.mp (List.mem_filter.mp ha).1
    exact (hc c hmem).hours
  · change _ = ((countNames _).map (·.2)).sum
    rw [countNames_sum, List.length_map]
    rfl

theorem measurement_bounded {rows : List StoredText} {m : MeasurementSummary}
    (h : measurementOfRows exact rows = .ok m) : m.Bounded := by
  obtain ⟨profiles, hprofiles, h⟩ := Results.bind_eq_ok.mp h
  cases h
  apply aggregateCompactProfiles_bounded
  intro c hc
  obtain ⟨row, -, hrow⟩ := Results.mapM_mem hprofiles _ (List.reduceOption_mem_iff.mp hc)
  exact decodeRow_bounded hrow

end Bounds

/-- The report returns, and is in bounds in exact arithmetic, exactly if every row can be
decoded. -/
theorem measurement_survives_iff (rows : List StoredText) :
    ((∃ m, measurementOfRows PyNumber.binary64 rows = .ok m) ∧
      ∀ m, measurementOfRows exact rows = .ok m → m.Bounded) ↔
      ∀ row ∈ rows, row.Decodes PyNumber.binary64 :=
  Iff.trans ⟨And.left, fun h => ⟨h, fun _ hm => measurement_bounded hm⟩⟩
    measurement_returns

/-- A bucket of a legacy row. -/
def ramBucket (mean : Int) : Json := .obj [("n", .int 1), ("ram_mean", .int mean)]

/-- A row with a list for its device class, one with an integer beyond the floats, one with
readings whose partial sums are, and one that is nested too deeply each take the report
down. -/
theorem badRow_raises :
    (¬ ∃ m, measurementOfRows PyNumber.binary64
      [.decoded (.obj [("device_class", .arr [])])] = .ok m) ∧
    (¬ ∃ m, measurementOfRows PyNumber.binary64
      [.decoded (.obj [("ram_avg", .int (10 ^ 400))])] = .ok m) ∧
    (¬ ∃ m, measurementOfRows PyNumber.binary64
      [.decoded (.arr ([2 ^ 1023, 2 ^ 1023, -2 ^ 1023, -2 ^ 1023].map ramBucket))] = .ok m) ∧
    ¬ ∃ m, measurementOfRows PyNumber.binary64 [.tooDeep] = .ok m := by
  have hrow : ∀ row : StoredText, ¬ row.Decodes PyNumber.binary64 →
      ¬ ∃ m, measurementOfRows PyNumber.binary64 [row] = .ok m := fun row hbad h =>
    hbad (measurement_returns.mp h row List.mem_cons_self)
  have hhuge : beyondFloat PyNumber.binary64 (.int (10 ^ 400)) = true := by decide +kernel
  have hsums : (measurementOfRows PyNumber.binary64
      [.decoded (.arr ([2 ^ 1023, 2 ^ 1023, -2 ^ 1023, -2 ^ 1023].map ramBucket))]).toOption.isNone =
      true := by
    decide +kernel
  refine ⟨hrow _ fun h => ?_, hrow _ fun h => ?_, ?_, hrow _ id⟩
  · exact absurd h.deviceClass nofun
  · exact absurd (hhuge.symm.trans (h.numbers "ram_avg" (by decide))) nofun
  · rintro ⟨m, hm⟩
    rw [hm] at hsums
    cases hsums

end OneCompute
