import OneCompute.Measurement.DeviceSummary

/-!
The savings projection of a measured summary: the hours of a day that a device is
awake or not, the capacity that is reclaimed in them, and its price for a fleet.
-/

namespace OneCompute.Measurement
open PyFloat (val fin_val pyMax pyMin)
open PyNumber (Rounding exact)
open Mean (mean)

/-- `_bounded` of a number; what is not finite is nothing. -/
def bounded (x upper : PyFloat) : PyFloat :=
  if x.isFinite then pyMax (.fin 0) (pyMin upper x) else .fin 0

structure DeviceClass where
  name : String
  count : Int
  vcpuCores : PyFloat
  pricePerVcpuHr : PyFloat
  alwaysOn : Bool := false

/-- The keyword arguments of `project`. -/
structure ProjectOptions where
  awakeHoursPerDay : Option PyFloat := none
  acFraction : Option PyFloat := none
  unavailableHoursPerDay : Option PyFloat := none
  includeUnavailable : Bool := true
  wakeableFraction : PyFloat := .fin 1
  wakeCpuFraction : PyFloat := .fin (3 / 4)

/-- Hours of a day, and where they are from. -/
structure DayHours where
  awake : PyFloat
  unavailable : PyFloat
  source : String

section Project
variable (R : Rounding)

def deviceDefaults : List (String × DeviceClass) :=
  [("laptop_assigned", ⟨"Assigned laptops", 200000, .fin 12, R.ofRat (18 / 1000), false⟩),
    ("laptop_unassigned", ⟨"Unassigned laptops", 10000, .fin 12, R.ofRat (52 / 1000), true⟩),
    ("devbox", ⟨"Idle dev boxes", 20000, .fin 16, R.ofRat (52 / 1000), true⟩)]

def measuredAwakeHoursPerDay (coverageBuckets : Nat) : PyFloat :=
  pyMax (.fin 0) (pyMin (.fin 24) (R.div (R.ofRat coverageBuckets) (.fin 7)))

def measuredAvailabilityHoursPerDay (summary : Summary) : DayHours :=
  let availability := summary.availability
  if PyFloat.lt (.fin 0) (bounded availability.spanSeconds (.inf false)) then
    let observed := bounded availability.observedHoursPerDay (.fin 24)
    { awake := observed
      unavailable := bounded availability.unavailableHoursPerDay (R.sub (.fin 24) observed)
      source := "profile" }
  else
    let observed := measuredAwakeHoursPerDay R summary.coverageBuckets
    { awake := observed
      unavailable := pyMax (.fin 0) (R.sub (.fin 24) observed)
      source := "coverage" }

/-- The hours that `project` counts for a device class. -/
def projectedHours (summary : Summary) (device : DeviceClass) (o : ProjectOptions) : DayHours :=
  let measured := measuredAvailabilityHoursPerDay R summary
  if device.alwaysOn then ⟨.fin 24, .fin 0, "always_on"⟩
  else
    match o.awakeHoursPerDay with
    | some hours =>
        let awake := bounded hours (.fin 24)
        { awake := awake
          unavailable :=
            match o.unavailableHoursPerDay with
            | some hours => bounded hours (R.sub (.fin 24) awake)
            | none => pyMax (.fin 0) (R.sub (.fin 24) awake)
          source := measured.source }
    | none =>
        { awake := measured.awake
          unavailable :=
            match o.unavailableHoursPerDay with
            | some hours => bounded hours (R.sub (.fin 24) measured.awake)
            | none => measured.unavailable
          source := measured.source }

def projectedAc (summary : Summary) (device : DeviceClass) (o : ProjectOptions) : PyFloat :=
  match o.acFraction with
  | some fraction => bounded fraction (.fin 1)
  | none =>
      if device.alwaysOn then .fin 1
      else R.div (bounded summary.acAvg (.fin 100)) (.fin 100)

structure Projection where
  deviceClass : String
  count : Int
  vcpuCores : PyFloat
  pricePerVcpuHr : PyFloat
  recoverableCpuLowPct : PyFloat
  recoverableCpuHighPct : PyFloat
  availabilitySource : String
  awakeHoursPerDay : PyFloat
  unavailableHoursPerDay : PyFloat
  acFraction : PyFloat
  awakeHarvestHoursPerDay : PyFloat
  wakeEnabled : Bool
  wakeableFraction : PyFloat
  wakeCpuFraction : PyFloat
  wakeHoursPerDay : PyFloat
  harvestHoursPerDay : PyFloat
  awakeVcpuHoursDayLow : PyFloat
  awakeVcpuHoursDayHigh : PyFloat
  wakeVcpuHoursDay : PyFloat
  vcpuHoursDayLow : PyFloat
  vcpuHoursDayHigh : PyFloat
  measuredRamHeadroomPct : PyFloat
  wakeRamUsablePct : PyFloat
  vcpuHoursYearLow : PyFloat
  vcpuHoursYearHigh : PyFloat
  savingsUsdYearLow : PyFloat
  savingsUsdYearHigh : PyFloat

def project (summary : Summary) (device : DeviceClass) (o : ProjectOptions) : Projection :=
  let recLow := R.div (pyMax (.fin 0) summary.cpu.recoverableLow) (.fin 100)
  let recHigh := R.div (pyMax (.fin 0) summary.cpu.recoverableHigh) (.fin 100)
  let hours := projectedHours R summary device o
  let ac := projectedAc R summary device o
  let awakeHarvestHours := R.mul hours.awake ac
  let wakeable := bounded o.wakeableFraction (.fin 1)
  let wakeCpu := bounded o.wakeCpuFraction (.fin 1)
  let wakeEnabled := o.includeUnavailable && !device.alwaysOn
  let wakeHours := if wakeEnabled then R.mul hours.unavailable wakeable else .fin 0
  let awakeDayLow := R.mul (R.mul recLow device.vcpuCores) awakeHarvestHours
  let awakeDayHigh := R.mul (R.mul recHigh device.vcpuCores) awakeHarvestHours
  let wakeDay := R.mul (R.mul wakeCpu device.vcpuCores) wakeHours
  let perDeviceDayLow := R.add awakeDayLow wakeDay
  let perDeviceDayHigh := R.add awakeDayHigh wakeDay
  let fleetYearLow := R.mul (R.mul perDeviceDayLow (.fin 365)) (R.ofRat device.count)
  let fleetYearHigh := R.mul (R.mul perDeviceDayHigh (.fin 365)) (R.ofRat device.count)
  { deviceClass := device.name
    count := device.count
    vcpuCores := device.vcpuCores
    pricePerVcpuHr := device.pricePerVcpuHr
    recoverableCpuLowPct := summary.cpu.recoverableLow
    recoverableCpuHighPct := summary.cpu.recoverableHigh
    availabilitySource := hours.source
    awakeHoursPerDay := hours.awake
    unavailableHoursPerDay := hours.unavailable
    acFraction := ac
    awakeHarvestHoursPerDay := awakeHarvestHours
    wakeEnabled := wakeEnabled
    wakeableFraction := wakeable
    wakeCpuFraction := wakeCpu
    wakeHoursPerDay := wakeHours
    harvestHoursPerDay := R.add awakeHarvestHours wakeHours
    awakeVcpuHoursDayLow := awakeDayLow
    awakeVcpuHoursDayHigh := awakeDayHigh
    wakeVcpuHoursDay := wakeDay
    vcpuHoursDayLow := perDeviceDayLow
    vcpuHoursDayHigh := perDeviceDayHigh
    measuredRamHeadroomPct := bounded summary.ram.headroom (.fin 100)
    wakeRamUsablePct := bounded summary.ram.headroom (.fin 100)
    vcpuHoursYearLow := fleetYearLow
    vcpuHoursYearHigh := fleetYearHigh
    savingsUsdYearLow := R.mul fleetYearLow device.pricePerVcpuHr
    savingsUsdYearHigh := R.mul fleetYearHigh device.pricePerVcpuHr }

structure FleetProjection where
  perClass : List Projection
  savingsUsdYearLow : PyFloat
  savingsUsdYearHigh : PyFloat
  vcpuHoursYearLow : PyFloat
  vcpuHoursYearHigh : PyFloat

def projectFleet (summary : Summary) (devices : List DeviceClass) (o : ProjectOptions) :
    FleetProjection :=
  let perClass := devices.map fun d => project R summary d o
  { perClass := perClass
    savingsUsdYearLow := R.sum (perClass.map (·.savingsUsdYearLow))
    savingsUsdYearHigh := R.sum (perClass.map (·.savingsUsdYearHigh))
    vcpuHoursYearLow := R.sum (perClass.map (·.vcpuHoursYearLow))
    vcpuHoursYearHigh := R.sum (perClass.map (·.vcpuHoursYearHigh)) }

end Project

/-! ## Hours of a day -/

theorem bounded_mem {m : Rat} (hm : 0 ≤ m) (x : PyFloat) :
    ∃ q, bounded x (.fin m) = .fin q ∧ 0 ≤ q ∧ q ≤ m := by
  cases x with
  | nan | inf _ => exact ⟨0, rfl, le_rfl, hm⟩
  | fin q => exact PyNumber.clamp_mem hm _

/-- Hours that fit in a day. -/
structure DayHours.Fit (h : DayHours) (a u : Rat) : Prop where
  awake : h.awake = .fin a
  unavailable : h.unavailable = .fin u
  awake_nonneg : 0 ≤ a
  unavailable_nonneg : 0 ≤ u
  day : a + u ≤ 24

/-- What is left of a day. -/
theorem rest_mem {awake : Rat} (h : awake ≤ 24) :
    ∃ q, pyMax (.fin 0) (exact.sub (.fin 24) (.fin awake)) = .fin q ∧ 0 ≤ q ∧ awake + q ≤ 24 := by
  refine ⟨max 0 (24 - awake), ?_, le_max_left _ _, ?_⟩
  · rw [PyNumber.exact_sub, PyNumber.pyMax_fin]
  · rw [max_eq_right (by linarith)]
    linarith

theorem boundedRest_mem {awake : Rat} (h : awake ≤ 24) (x : PyFloat) :
    ∃ q, bounded x (exact.sub (.fin 24) (.fin awake)) = .fin q ∧ 0 ≤ q ∧ awake + q ≤ 24 := by
  obtain ⟨q, hq, h0, hmax⟩ := bounded_mem (sub_nonneg.mpr h) x
  exact ⟨q, by rw [PyNumber.exact_sub, hq], h0, by linarith⟩

theorem measuredAvailabilityHoursPerDay_fit (s : Summary) :
    ∃ awake unavailable, (measuredAvailabilityHoursPerDay exact s).Fit awake unavailable := by
  unfold measuredAvailabilityHoursPerDay
  dsimp only
  split
  · obtain ⟨a, ha, ha0, hmax⟩ := bounded_mem (by norm_num : (0 : Rat) ≤ 24)
      s.availability.observedHoursPerDay
    obtain ⟨u, hu, hu0, hday⟩ := boundedRest_mem hmax s.availability.unavailableHoursPerDay
    exact ⟨a, u, ha, by rw [ha, hu], ha0, hu0, hday⟩
  · have hawake : measuredAwakeHoursPerDay exact s.coverageBuckets =
        .fin (max 0 (min 24 (s.coverageBuckets / 7))) := by
      unfold measuredAwakeHoursPerDay PyNumber.Rounding.ofRat
      change pyMax _ (pyMin _ (exact.div (.fin _) _)) = _
      rw [PyNumber.exact_div, PyNumber.pyMin_fin, PyNumber.pyMax_fin]
    have hmax : max 0 (min 24 ((s.coverageBuckets : Rat) / 7)) ≤ 24 :=
      max_le (by norm_num) (min_le_left _ _)
    obtain ⟨u, hu, hu0, hday⟩ := rest_mem hmax
    exact ⟨_, u, hawake, by rw [hawake, hu], le_max_left _ _, hu0, hday⟩

theorem projectedHours_fit (s : Summary) (d : DeviceClass) (o : ProjectOptions) :
    ∃ awake unavailable, (projectedHours exact s d o).Fit awake unavailable := by
  obtain ⟨a, u, hmeasured⟩ := measuredAvailabilityHoursPerDay_fit s
  have hmax : a ≤ 24 := by linarith [hmeasured.unavailable_nonneg, hmeasured.day]
  unfold projectedHours
  dsimp only
  split
  · exact ⟨24, 0, rfl, rfl, by norm_num, le_rfl, by norm_num⟩
  cases o.awakeHoursPerDay with
  | some hours =>
      obtain ⟨b, hb, hb0, hbmax⟩ := bounded_mem (by norm_num : (0 : Rat) ≤ 24) hours
      dsimp only
      rw [hb]
      cases o.unavailableHoursPerDay with
      | some hours =>
          obtain ⟨v, hv, hv0, hday⟩ := boundedRest_mem hbmax hours
          exact ⟨b, v, rfl, hv, hb0, hv0, hday⟩
      | none =>
          obtain ⟨v, hv, hv0, hday⟩ := rest_mem hbmax
          exact ⟨b, v, rfl, hv, hb0, hv0, hday⟩
  | none =>
      dsimp only
      rw [hmeasured.awake, hmeasured.unavailable]
      cases o.unavailableHoursPerDay with
      | some hours =>
          obtain ⟨v, hv, hv0, hday⟩ := boundedRest_mem hmax hours
          exact ⟨a, v, rfl, hv, hmeasured.awake_nonneg, hv0, hday⟩
      | none => exact ⟨a, u, rfl, rfl, hmeasured.awake_nonneg, hmeasured.unavailable_nonneg,
          hmeasured.day⟩

theorem projectedAc_mem (s : Summary) (d : DeviceClass) (o : ProjectOptions) :
    ∃ ac, projectedAc exact s d o = .fin ac ∧ 0 ≤ ac ∧ ac ≤ 1 := by
  unfold projectedAc
  cases o.acFraction with
  | some fraction => exact bounded_mem zero_le_one fraction
  | none =>
      dsimp only
      split
      · exact ⟨1, rfl, zero_le_one, le_rfl⟩
      · obtain ⟨q, hq, h0, h100⟩ := bounded_mem (by norm_num : (0 : Rat) ≤ 100) s.acAvg
        exact ⟨q / 100, by rw [hq, PyNumber.exact_div], by positivity, by linarith⟩

/-! ## Estimates -/

/-- What the estimates of a projection are products of. `wakeable` is the share of the
unavailable hours that is counted. -/
structure Factors where
  low : Rat
  high : Rat
  awake : Rat
  unavailable : Rat
  ac : Rat
  wakeable : Rat
  wakeCpu : Rat
  cores : Rat
  count : Rat
  price : Rat

namespace Factors

def awakeHarvest (f : Factors) : Rat := f.awake * f.ac

def wake (f : Factors) : Rat := f.unavailable * f.wakeable

def awakeDay (f : Factors) (fraction : Rat) : Rat := fraction * f.cores * f.awakeHarvest

def wakeDay (f : Factors) : Rat := f.wakeCpu * f.cores * f.wake

def day (f : Factors) (fraction : Rat) : Rat := f.awakeDay fraction + f.wakeDay

def year (f : Factors) (fraction : Rat) : Rat := f.day fraction * 365 * f.count

def savings (f : Factors) (fraction : Rat) : Rat := f.year fraction * f.price

/-- Nothing is counted while a device is not awake. -/
def asleep (f : Factors) : Factors := { f with wakeable := 0 }

structure Sound (f : Factors) : Prop where
  low : 0 ≤ f.low
  high : f.low ≤ f.high
  awake : 0 ≤ f.awake
  unavailable : 0 ≤ f.unavailable
  hours : f.awake + f.unavailable ≤ 24
  ac : 0 ≤ f.ac ∧ f.ac ≤ 1
  wakeable : 0 ≤ f.wakeable ∧ f.wakeable ≤ 1
  wakeCpu : 0 ≤ f.wakeCpu
  cores : 0 ≤ f.cores
  count : 0 ≤ f.count
  price : 0 ≤ f.price

section Order
variable {f : Factors} (h : f.Sound)
include h

theorem awakeHarvest_nonneg : 0 ≤ f.awakeHarvest := mul_nonneg h.awake h.ac.1

theorem wake_nonneg : 0 ≤ f.wake := mul_nonneg h.unavailable h.wakeable.1

theorem harvest_le : f.awakeHarvest + f.wake ≤ 24 := by
  have hawake : f.awakeHarvest ≤ f.awake := mul_le_of_le_one_right h.awake h.ac.2
  have hwake : f.wake ≤ f.unavailable := mul_le_of_le_one_right h.unavailable h.wakeable.2
  linarith [h.hours]

theorem awakeDay_nonneg {x : Rat} (hx : 0 ≤ x) : 0 ≤ f.awakeDay x :=
  mul_nonneg (mul_nonneg hx h.cores) (awakeHarvest_nonneg h)

theorem awakeDay_mono {x y : Rat} (hxy : x ≤ y) : f.awakeDay x ≤ f.awakeDay y :=
  mul_le_mul_of_nonneg_right (mul_le_mul_of_nonneg_right hxy h.cores) (awakeHarvest_nonneg h)

theorem wakeDay_nonneg : 0 ≤ f.wakeDay := mul_nonneg (mul_nonneg h.wakeCpu h.cores) (wake_nonneg h)

theorem day_nonneg {x : Rat} (hx : 0 ≤ x) : 0 ≤ f.day x :=
  add_nonneg (awakeDay_nonneg h hx) (wakeDay_nonneg h)

theorem day_mono {x y : Rat} (hxy : x ≤ y) : f.day x ≤ f.day y :=
  add_le_add (awakeDay_mono h hxy) le_rfl

theorem asleep_sound : f.asleep.Sound := { h with wakeable := ⟨le_rfl, zero_le_one⟩ }

theorem asleep_wake_le : f.asleep.wake ≤ f.wake := by
  have hzero : f.asleep.wake = 0 := mul_zero _
  rw [hzero]
  exact wake_nonneg h

theorem asleep_wakeDay_le : f.asleep.wakeDay ≤ f.wakeDay :=
  mul_le_mul_of_nonneg_left (asleep_wake_le h) (mul_nonneg h.wakeCpu h.cores)

theorem asleep_day_le (x : Rat) : f.asleep.day x ≤ f.day x :=
  add_le_add le_rfl (asleep_wakeDay_le h)

end Order

/-- What a day's estimates keep, so do those of a year and its savings. -/
theorem year_le {f g : Factors} {x y : Rat} (hcount : f.count = g.count) (hg : 0 ≤ g.count)
    (h : f.day x ≤ g.day y) : f.year x ≤ g.year y := by
  unfold year
  rw [hcount]
  exact mul_le_mul_of_nonneg_right (mul_le_mul_of_nonneg_right h (by norm_num)) hg

theorem savings_le {f g : Factors} {x y : Rat} (hcount : f.count = g.count)
    (hprice : f.price = g.price) (hg : g.Sound) (h : f.day x ≤ g.day y) :
    f.savings x ≤ g.savings y := by
  unfold savings
  rw [hprice]
  exact mul_le_mul_of_nonneg_right (year_le hcount hg.count h) hg.price

theorem year_nonneg {f : Factors} (h : f.Sound) {x : Rat} (hx : 0 ≤ x) : 0 ≤ f.year x :=
  mul_nonneg (mul_nonneg (day_nonneg h hx) (by norm_num)) h.count

theorem savings_nonneg {f : Factors} (h : f.Sound) {x : Rat} (hx : 0 ≤ x) : 0 ≤ f.savings x :=
  mul_nonneg (year_nonneg h hx) h.price

end Factors

/-- A projection whose numbers are these products. -/
structure Projection.Shows (p : Projection) (f : Factors) : Prop where
  recoverable : p.recoverableCpuLowPct = .fin (f.low * 100) ∧
    p.recoverableCpuHighPct = .fin (f.high * 100)
  awake : p.awakeHoursPerDay = .fin f.awake
  unavailable : p.unavailableHoursPerDay = .fin f.unavailable
  wake : p.wakeHoursPerDay = .fin f.wake
  harvest : p.harvestHoursPerDay = .fin (f.awakeHarvest + f.wake)
  awakeDay : p.awakeVcpuHoursDayLow = .fin (f.awakeDay f.low) ∧
    p.awakeVcpuHoursDayHigh = .fin (f.awakeDay f.high)
  wakeDay : p.wakeVcpuHoursDay = .fin f.wakeDay
  day : p.vcpuHoursDayLow = .fin (f.day f.low) ∧ p.vcpuHoursDayHigh = .fin (f.day f.high)
  year : p.vcpuHoursYearLow = .fin (f.year f.low) ∧ p.vcpuHoursYearHigh = .fin (f.year f.high)
  savings : p.savingsUsdYearLow = .fin (f.savings f.low) ∧
    p.savingsUsdYearHigh = .fin (f.savings f.high)

/-- A fleet of at least no devices, with at least no cores, for at least nothing. -/
structure DeviceClass.Sound (d : DeviceClass) : Prop where
  count : 0 ≤ d.count
  cores : ∃ c, d.vcpuCores = .fin c ∧ 0 ≤ c
  price : ∃ p, d.pricePerVcpuHr = .fin p ∧ 0 ≤ p

theorem deviceDefaults_sound : ∀ d ∈ deviceDefaults exact, d.2.Sound := by
  intro d hd
  simp only [deviceDefaults, List.mem_cons, List.not_mem_nil, or_false] at hd
  obtain rfl | rfl | rfl := hd <;>
    exact ⟨by norm_num, ⟨_, rfl, by norm_num⟩, ⟨_, rfl, by norm_num⟩⟩

theorem project_shows {s : Summary} {low high : Rat} (hlow : s.cpu.recoverableLow = .fin low)
    (hhigh : s.cpu.recoverableHigh = .fin high) (hlow0 : 0 ≤ low) (hle : low ≤ high)
    {d : DeviceClass} (hd : d.Sound) (o : ProjectOptions) :
    ∃ f : Factors, f.Sound ∧ (project exact s d o).Shows f ∧
      (project exact s d { o with includeUnavailable := false }).Shows f.asleep := by
  obtain ⟨a, u, hhours⟩ := projectedHours_fit s d o
  obtain ⟨ac, hac, hac0, hac1⟩ := projectedAc_mem s d o
  obtain ⟨w, hw, hw0, hw1⟩ := bounded_mem zero_le_one o.wakeableFraction
  obtain ⟨v, hv, hv0, -⟩ := bounded_mem zero_le_one o.wakeCpuFraction
  obtain ⟨c, hc, hc0⟩ := hd.cores
  obtain ⟨p, hp, hp0⟩ := hd.price
  -- nothing else depends on whether the wake scenario is counted
  have hshows : ∀ counted : Bool, (project exact s d { o with includeUnavailable := counted }).Shows
      ⟨low / 100, high / 100, a, u, ac, if counted && !d.alwaysOn then w else 0, v, c, d.count,
        p⟩ := by
    intro counted
    have hrec : ∀ {x : PyFloat} {q : Rat}, x = .fin q → 0 ≤ q →
        exact.div (pyMax (.fin 0) x) (.fin 100) = .fin (q / 100) := by
      intro x q hx hq
      rw [hx, PyNumber.pyMax_fin, PyNumber.exact_div, max_eq_right hq]
    have hwake : (if (counted && !d.alwaysOn) = true then exact.mul (.fin u) (.fin w) else .fin 0) =
        .fin (u * if (counted && !d.alwaysOn) = true then w else 0) := by
      split
      · exact PyNumber.exact_mul u w
      · rw [mul_zero]
    have hhours' : projectedHours exact s d { o with includeUnavailable := counted } =
        projectedHours exact s d o := rfl
    have hac' : projectedAc exact s d { o with includeUnavailable := counted } = .fin ac := hac
    unfold project
    dsimp only
    rw [hhours', hac', hrec hlow hlow0, hrec hhigh (hlow0.trans hle), hhours.awake,
      hhours.unavailable, hw, hv, hc, hp, hwake]
    exact {
      recoverable := ⟨by rw [hlow]; ring_nf, by rw [hhigh]; ring_nf⟩
      awake := rfl
      unavailable := rfl
      wake := rfl
      harvest := rfl
      awakeDay := ⟨rfl, rfl⟩
      wakeDay := rfl
      day := ⟨rfl, rfl⟩
      year := ⟨rfl, rfl⟩
      savings := ⟨rfl, rfl⟩ }
  have hsound : ∀ share : Rat, 0 ≤ share → share ≤ 1 →
      Factors.Sound ⟨low / 100, high / 100, a, u, ac, share, v, c, d.count, p⟩ := by
    intro share h0 h1
    exact {
      low := by positivity
      high := by dsimp only; linarith
      awake := hhours.awake_nonneg
      unavailable := hhours.unavailable_nonneg
      hours := hhours.day
      ac := ⟨hac0, hac1⟩
      wakeable := ⟨h0, h1⟩
      wakeCpu := hv0
      cores := hc0
      count := by
        dsimp only
        exact_mod_cast hd.count
      price := hp0 }
  refine ⟨_, hsound _ ?_ ?_, hshows o.includeUnavailable, hshows false⟩
  · split
    · exact hw0
    · exact le_rfl
  · split
    · exact hw1
    · exact zero_le_one

/-! ## Plausible projections -/

/-- An estimate that is at least nothing, and one that it is at most. -/
def Ordered (x y : PyFloat) : Prop := ∃ a b, x = .fin a ∧ y = .fin b ∧ 0 ≤ a ∧ a ≤ b

/-- The low estimates of a projection, each with its high one. -/
def Projection.ranges (p : Projection) : List (PyFloat × PyFloat) :=
  [(p.recoverableCpuLowPct, p.recoverableCpuHighPct),
    (p.awakeVcpuHoursDayLow, p.awakeVcpuHoursDayHigh), (p.vcpuHoursDayLow, p.vcpuHoursDayHigh),
    (p.vcpuHoursYearLow, p.vcpuHoursYearHigh), (p.savingsUsdYearLow, p.savingsUsdYearHigh)]

def Projection.estimates (p : Projection) : List PyFloat :=
  [p.wakeHoursPerDay, p.harvestHoursPerDay, p.awakeVcpuHoursDayLow, p.awakeVcpuHoursDayHigh,
    p.wakeVcpuHoursDay, p.vcpuHoursDayLow, p.vcpuHoursDayHigh, p.vcpuHoursYearLow,
    p.vcpuHoursYearHigh, p.savingsUsdYearLow, p.savingsUsdYearHigh]

def FleetProjection.estimates (f : FleetProjection) : List PyFloat :=
  [f.savingsUsdYearLow, f.savingsUsdYearHigh, f.vcpuHoursYearLow, f.vcpuHoursYearHigh]

structure Projection.Plausible (p : Projection) : Prop where
  hours : ∃ a u, p.awakeHoursPerDay = .fin a ∧ p.unavailableHoursPerDay = .fin u ∧ 0 ≤ a ∧
    0 ≤ u ∧ a + u ≤ 24
  harvest : ∃ q, p.harvestHoursPerDay = .fin q ∧ 0 ≤ q ∧ q ≤ 24
  ranges : ∀ r ∈ p.ranges, Ordered r.1 r.2

/-- The sum of an estimate of the classes. -/
def FleetProjection.total (f : FleetProjection) (estimate : Projection → PyFloat) : PyFloat :=
  .fin (f.perClass.map fun p => (estimate p).val).sum

/-- One projection for each device class, in their order, and the sums over them. -/
structure FleetProjection.Plausible (f : FleetProjection) (s : Summary) (devices : List DeviceClass)
    (o : ProjectOptions) : Prop where
  classes : List.Forall₂ (fun d p => p = project exact s d o ∧ p.Plausible) devices f.perClass
  savings : f.savingsUsdYearLow = f.total (·.savingsUsdYearLow) ∧
    f.savingsUsdYearHigh = f.total (·.savingsUsdYearHigh) ∧
    Ordered f.savingsUsdYearLow f.savingsUsdYearHigh
  vcpuHours : f.vcpuHoursYearLow = f.total (·.vcpuHoursYearLow) ∧
    f.vcpuHoursYearHigh = f.total (·.vcpuHoursYearHigh) ∧
    Ordered f.vcpuHoursYearLow f.vcpuHoursYearHigh

theorem Ordered.of {a b : Rat} (ha : 0 ≤ a) (hab : a ≤ b) : Ordered (.fin a) (.fin b) :=
  ⟨a, b, rfl, rfl, ha, hab⟩

theorem Projection.Shows.inBounds {p : Projection} {f : Factors} (h : p.Shows f) (hf : f.Sound) :
    p.Plausible where
  hours := ⟨f.awake, f.unavailable, h.awake, h.unavailable, hf.awake, hf.unavailable, hf.hours⟩
  harvest := ⟨_, h.harvest, add_nonneg (Factors.awakeHarvest_nonneg hf) (Factors.wake_nonneg hf),
    Factors.harvest_le hf⟩
  ranges := by
    have hday := Factors.day_mono hf hf.high
    simp only [Projection.ranges, List.forall_mem_cons, List.not_mem_nil, IsEmpty.forall_iff,
      implies_true, and_true]
    rw [h.recoverable.1, h.recoverable.2, h.awakeDay.1, h.awakeDay.2, h.day.1, h.day.2, h.year.1,
      h.year.2, h.savings.1, h.savings.2]
    exact ⟨.of (mul_nonneg hf.low (by norm_num)) (by linarith [hf.high]),
      .of (Factors.awakeDay_nonneg hf hf.low) (Factors.awakeDay_mono hf hf.high),
      .of (Factors.day_nonneg hf hf.low) hday,
      .of (Factors.year_nonneg hf hf.low) (Factors.year_le rfl hf.count hday),
      .of (Factors.savings_nonneg hf hf.low) (Factors.savings_le rfl rfl hf hday)⟩

/-- Without the wake scenario no estimate is larger. -/
theorem Projection.Shows.asleep_le {p q : Projection} {f : Factors} (hq : q.Shows f)
    (hp : p.Shows f.asleep) (hf : f.Sound) : List.Forall₂ Ordered p.estimates q.estimates := by
  have hasleep := Factors.asleep_sound hf
  have hhigh : 0 ≤ f.high := hf.low.trans hf.high
  have hwake := Factors.asleep_wake_le hf
  have hday := Factors.asleep_day_le hf
  unfold Projection.estimates
  rw [hp.wake, hp.harvest, hp.awakeDay.1, hp.awakeDay.2, hp.wakeDay, hp.day.1, hp.day.2, hp.year.1,
    hp.year.2, hp.savings.1, hp.savings.2, hq.wake, hq.harvest, hq.awakeDay.1, hq.awakeDay.2,
    hq.wakeDay, hq.day.1, hq.day.2, hq.year.1, hq.year.2, hq.savings.1, hq.savings.2]
  refine .cons (.of (Factors.wake_nonneg hasleep) hwake) (.cons (.of ?_ ?_) (.cons (.of ?_ le_rfl)
    (.cons (.of ?_ le_rfl) (.cons (.of (Factors.wakeDay_nonneg hasleep)
    (Factors.asleep_wakeDay_le hf)) (.cons (.of ?_ (hday _)) (.cons (.of ?_ (hday _))
    (.cons (.of ?_ ?_) (.cons (.of ?_ ?_) (.cons (.of ?_ ?_) (.cons (.of ?_ ?_) .nil))))))))))
  · exact add_nonneg (Factors.awakeHarvest_nonneg hasleep) (Factors.wake_nonneg hasleep)
  · exact add_le_add le_rfl hwake
  · exact Factors.awakeDay_nonneg hasleep hf.low
  · exact Factors.awakeDay_nonneg hasleep hhigh
  · exact Factors.day_nonneg hasleep hf.low
  · exact Factors.day_nonneg hasleep hhigh
  · exact Factors.year_nonneg hasleep hf.low
  · exact Factors.year_le rfl hf.count (hday _)
  · exact Factors.year_nonneg hasleep hhigh
  · exact Factors.year_le rfl hf.count (hday _)
  · exact Factors.savings_nonneg hasleep hf.low
  · exact Factors.savings_le rfl rfl hf (hday _)
  · exact Factors.savings_nonneg hasleep hhigh
  · exact Factors.savings_le rfl rfl hf (hday _)

/-! ## Fleets -/

section Fleet
variable {α : Type} {f g : α → PyFloat} {xs : List α}

theorem sum_ordered (h : ∀ x ∈ xs, Ordered (f x) (g x)) :
    exact.sum (xs.map f) = .fin (xs.map fun x => (f x).val).sum ∧
      exact.sum (xs.map g) = .fin (xs.map fun x => (g x).val).sum ∧
      Ordered (exact.sum (xs.map f)) (exact.sum (xs.map g)) := by
  have hval : ∀ x ∈ xs, (f x).isFinite = true ∧ (g x).isFinite = true ∧ 0 ≤ (f x).val ∧
      (f x).val ≤ (g x).val := by
    intro x hx
    obtain ⟨a, b, ha, hb, h0, hab⟩ := h x hx
    rw [ha, hb]
    exact ⟨rfl, rfl, h0, hab⟩
  have hf : exact.sum (xs.map f) = .fin ((xs.map f).map val).sum :=
    PyNumber.sum_exact (by simpa using fun x hx => (hval x hx).1)
  have hg : exact.sum (xs.map g) = .fin ((xs.map g).map val).sum :=
    PyNumber.sum_exact (by simpa using fun x hx => (hval x hx).2.1)
  rw [List.map_map] at hf hg
  refine ⟨hf, hg, _, _, hf, hg, ?_, ?_⟩
  · refine List.sum_nonneg fun q hq => ?_
    obtain ⟨x, hx, rfl⟩ := List.mem_map.mp hq
    exact (hval x hx).2.2.1
  · exact List.sum_le_sum fun x hx => (hval x hx).2.2.2

end Fleet

theorem summarizeProfile_recoverable {profile : Profile} {margin low high : Rat} {s : Summary}
    (hne : profile.populated ≠ []) (hfin : ∀ b ∈ profile.populated, b.cpuMean.isFinite = true)
    (hlow : 0 ≤ low) (hhigh : low ≤ high)
    (hs : summarizeProfile exact ⟨.fin margin, .fin low, .fin high⟩ profile = .ok s) :
    ∃ a b, s.cpu.recoverableLow = .fin a ∧ s.cpu.recoverableHigh = .fin b ∧ 0 ≤ a ∧ a ≤ b := by
  have hcpu := (summarizeProfile_made hne hs).cpu
  obtain ⟨avg, -, hcpu⟩ := Results.bind_eq_ok.mp hcpu
  obtain ⟨meanSpare, hspare, hcpu⟩ := Results.bind_eq_ok.mp hcpu
  have hspares : profile.populated.map (fun b => cpuSpare exact (.fin margin) b.cpuMean) =
      profile.populated.map fun b => .fin (max 0 (100 - b.cpuMean.val - margin)) := by
    apply List.map_congr_left
    intro b hb
    rw [fin_val (hfin b hb), cpuSpare, PyNumber.exact_sub, PyNumber.exact_sub, PyNumber.pyMax_fin]
    rfl
  dsimp only at hspare
  rw [hspares, PyNumber.fmean_exact (by simp [PyFloat.isFinite]), List.map_map] at hspare
  cases hspare
  have hcpu := Except.ok.inj hcpu
  have hmean : 0 ≤ mean (profile.populated.map fun b => max 0 (100 - b.cpuMean.val - margin)) := by
    refine div_nonneg (List.sum_nonneg fun q hq => ?_) (Nat.cast_nonneg _)
    obtain ⟨b, -, rfl⟩ := List.mem_map.mp hq
    exact le_max_left _ _
  rw [← hcpu]
  exact ⟨_, _, rfl, rfl, mul_nonneg hmean hlow, mul_le_mul_of_nonneg_left hhigh hmean⟩

theorem projectFleet_consistent {profile : Profile} {margin low high : Rat} {s : Summary}
    (hne : profile.populated ≠ []) (hfin : ∀ b ∈ profile.populated, b.cpuMean.isFinite = true)
    (hlow : 0 ≤ low) (hhigh : low ≤ high)
    (hs : summarizeProfile exact ⟨.fin margin, .fin low, .fin high⟩ profile = .ok s)
    {devices : List DeviceClass} (hd : ∀ d ∈ devices, d.Sound) (o : ProjectOptions) :
    (projectFleet exact s devices o).Plausible s devices o ∧
      List.Forall₂ (fun p q => List.Forall₂ Ordered p.estimates q.estimates)
        (projectFleet exact s devices { o with includeUnavailable := false }).perClass
        (projectFleet exact s devices o).perClass ∧
      List.Forall₂ Ordered
        (projectFleet exact s devices { o with includeUnavailable := false }).estimates
        (projectFleet exact s devices o).estimates := by
  obtain ⟨a, b, ha, hb, ha0, hab⟩ := summarizeProfile_recoverable hne hfin hlow hhigh hs
  have hclass : ∀ d ∈ devices, (project exact s d o).Plausible ∧ List.Forall₂ Ordered
      (project exact s d { o with includeUnavailable := false }).estimates
      (project exact s d o).estimates := by
    intro d hmem
    obtain ⟨f, hf, hshows, hasleep⟩ := project_shows ha hb ha0 hab (hd d hmem) o
    exact ⟨hshows.inBounds hf, hshows.asleep_le hasleep hf⟩
  have hall : ∀ p ∈ (projectFleet exact s devices o).perClass, p.Plausible := by
    intro p hp
    obtain ⟨d, hmem, rfl⟩ := List.mem_map.mp hp
    exact (hclass d hmem).1
  refine ⟨⟨?_, ?_, ?_⟩, ?_, ?_⟩
  · refine List.forall₂_map_right_iff.mpr (List.forall₂_same.mpr fun d hmem => ?_)
    exact ⟨rfl, (hclass d hmem).1⟩
  · exact sum_ordered fun p hp => (hall p hp).ranges (p.savingsUsdYearLow, p.savingsUsdYearHigh)
      (by simp [Projection.ranges])
  · exact sum_ordered fun p hp => (hall p hp).ranges (p.vcpuHoursYearLow, p.vcpuHoursYearHigh)
      (by simp [Projection.ranges])
  · refine List.forall₂_map_left_iff.mpr (List.forall₂_map_right_iff.mpr ?_)
    exact List.forall₂_same.mpr fun d hmem => (hclass d hmem).2
  · have htotal : ∀ estimate : Projection → PyFloat, (∀ d ∈ devices,
        Ordered (estimate (project exact s d { o with includeUnavailable := false }))
          (estimate (project exact s d o))) →
        Ordered
          (exact.sum ((projectFleet exact s devices { o with includeUnavailable := false }).perClass.map
            estimate))
          (exact.sum ((projectFleet exact s devices o).perClass.map estimate)) := by
      intro estimate h
      have hsum := (sum_ordered h).2.2
      unfold projectFleet
      dsimp only
      rwa [List.map_map, List.map_map]
    have hestimates : ∀ d ∈ devices, _ := fun d hmem => (hclass d hmem).2
    simp only [Projection.estimates, List.forall₂_cons] at hestimates
    refine .cons (htotal (·.savingsUsdYearLow) ?_) (.cons (htotal (·.savingsUsdYearHigh) ?_)
      (.cons (htotal (·.vcpuHoursYearLow) ?_) (.cons (htotal (·.vcpuHoursYearHigh) ?_) .nil)))
    · intro d hmem
      exact (hestimates d hmem).2.2.2.2.2.2.2.2.2.1
    · intro d hmem
      exact (hestimates d hmem).2.2.2.2.2.2.2.2.2.2.1
    · intro d hmem
      exact (hestimates d hmem).2.2.2.2.2.2.2.1
    · intro d hmem
      exact (hestimates d hmem).2.2.2.2.2.2.2.2.1

/-- A profile of one bucket. -/
def mondayProfile : Profile where
  populated := [⟨4, -1, .fin 30, .fin 60, .fin 0, .fin 0, .fin 50, .fin 60, .fin 100, .fin 10⟩]

/-- Hours that no day has. -/
def longDays : ProjectOptions where
  awakeHoursPerDay := some (.fin 30)
  unavailableHoursPerDay := some (.fin (-2))

/-- The default classes, with those hours. -/
theorem projectFleet_consistent_defaults :
    ∃ s, summarizeProfile exact ⟨.fin 25, .fin (1 / 5), .fin (2 / 5)⟩ mondayProfile = .ok s ∧
      (projectFleet exact s ((deviceDefaults exact).map (·.2)) longDays).Plausible s
        ((deviceDefaults exact).map (·.2)) longDays := by
  have hpct : ∀ q : Rat, 0 ≤ q → q ≤ 100 → IsPct (.fin q) := fun q h0 h100 => ⟨rfl, h0, h100⟩
  have hrange : ∀ b ∈ mondayProfile.populated, b.InRange := by
    intro b hb
    cases List.mem_singleton.mp hb
    exact {
      cpu := ⟨hpct 30 (by norm_num) (by norm_num), hpct 60 (by norm_num) (by norm_num)⟩
      gpu := ⟨hpct 0 le_rfl (by norm_num), hpct 0 le_rfl (by norm_num)⟩
      ram := hpct 50 (by norm_num) (by norm_num)
      ac := hpct 100 (by norm_num) le_rfl
      idle := hpct 10 (by norm_num) (by norm_num) }
  obtain ⟨s, hs, -, -⟩ := summarizeProfile_exact mondayProfile hrange rfl {}
  have hdefaults : ∀ d ∈ (deviceDefaults exact).map (·.2), d.Sound := by
    intro d hd
    obtain ⟨e, he, rfl⟩ := List.mem_map.mp hd
    exact deviceDefaults_sound e he
  exact ⟨s, hs, (projectFleet_consistent (List.cons_ne_nil _ _)
    (by simp [mondayProfile, PyFloat.isFinite]) (by norm_num) (by norm_num) hs hdefaults _).1⟩

end OneCompute.Measurement
