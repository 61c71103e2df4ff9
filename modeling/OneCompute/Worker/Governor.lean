import OneCompute.Worker.ProfileFile

/-!
The demand-adaptive governor: it admits work into the spare headroom of the hour, and
yields on sustained demand of the employee.
-/

namespace OneCompute.Worker
open PyFloat (pyMax pyMin AtLeast)
open PyNumber (Rounding)
open Measurement

structure GovernorParams where
  marginPct : PyFloat := .fin 25
  hardCeilingPct : PyFloat := .fin 80
  yieldCeilingPct : PyFloat := .fin 95
  hysteresisPct : PyFloat := .fin 10
  minHeadroomPct : PyFloat := .fin 15
  sustainedSamples : Int := 3
  gpuYieldPct : PyFloat := .fin 40
  requireAc : Bool := true

/-- What the sensors say while a decision is made; the power state is read once more for
the sample that is recorded. -/
structure Readings where
  onAc : Bool
  locked : Bool := false
  gpuBusy : Bool := false
  systemCpu : Option PyFloat
  children : Option (List PyFloat) := some []
  cpuCount : Option Nat := some 1
  systemGpu : Option PyFloat := none
  systemRam : Option PyFloat := none
  onAcSampled : Bool := true
  userIdle : Bool := true

/-- `last_decision` -/
inductive Decision where
  | undecided
  | refused (reason : String)
  | weighed (admitted : Bool) (userCpu headroom admissionThreshold : PyFloat)

structure AdaptiveGovernor where
  params : GovernorParams := {}
  profiler : UsageProfiler := {}
  ourJobUsesGpu : Bool := false
  /-- Consecutive polls with demand over a yield line. -/
  overCount : Nat := 0
  lastDecision : Decision := .undecided

/-- The bucket of the hour. -/
def UsageProfiler.profileNow (p : UsageProfiler) (w : When) : BucketStat :=
  p.buckets.getD (bucketIndex w) {}

namespace AdaptiveGovernor
variable (R : Rounding)

def ourCpu (r : Readings) : PyFloat :=
  match r.children with
  | none => .fin 0
  | some loads =>
      let count := match r.cpuCount with
        | some (n + 1) => n + 1
        | _ => 1
      pyMin (.fin 100) (R.div (R.sum loads) (R.ofRat count))

/-- The employee's demand: the system's load without that of our own job. -/
def userCpu (r : Readings) : PyFloat :=
  pyMax (.fin 0) (pyMin (.fin 100) (R.sub (r.systemCpu.getD (.fin 0)) (ourCpu R r)))

def noteJob (g : AdaptiveGovernor) (needsGpu : Bool) : AdaptiveGovernor :=
  { g with ourJobUsesGpu := needsGpu }

def userGpu (g : AdaptiveGovernor) (r : Readings) : PyFloat :=
  if g.ourJobUsesGpu then .fin 0 else r.systemGpu.getD (.fin 0)

def admissionThreshold (g : AdaptiveGovernor) (w : When) : PyFloat :=
  pyMin g.params.hardCeilingPct (R.add (g.profiler.profileNow w).cpuMean g.params.marginPct)

def yieldThreshold (g : AdaptiveGovernor) (w : When) : PyFloat :=
  pyMin g.params.yieldCeilingPct (R.add (g.admissionThreshold R w) g.params.hysteresisPct)

def headroomNow (g : AdaptiveGovernor) (w : When) : PyFloat :=
  pyMax (.fin 0)
    (R.sub (R.sub (.fin 100) (g.profiler.profileNow w).cpuMean) g.params.marginPct)

/-- The sample that an admission decision folds into the profile. -/
def sampleOf (r : Readings) (w : When) : Sample where
  cpu := userCpu R r
  gpu := r.systemGpu
  ram := r.systemRam.getD (.fin 0)
  taken := w
  onAc := some r.onAcSampled
  idle := some r.userIdle

def shouldRun (g : AdaptiveGovernor) (r : Readings) (w : When) : Bool × AdaptiveGovernor :=
  if g.params.requireAc && !r.onAc then
    (false, { g with lastDecision := .refused "on_battery" })
  else if r.locked || r.gpuBusy then
    (false, { g with lastDecision := .refused "locked_or_gpu" })
  else
    -- the decision is made on the profile without the sample
    let headroom := g.headroomNow R w
    let threshold := g.admissionThreshold R w
    let demand := userCpu R r
    let admitted := PyFloat.le g.params.minHeadroomPct headroom && PyFloat.lt demand threshold
    (admitted,
      { g with
        profiler := g.profiler.record R (sampleOf R r w)
        lastDecision := .weighed admitted (R.roundTenth demand) (R.roundTenth headroom)
          (R.roundTenth threshold) })

def overLine (g : AdaptiveGovernor) (r : Readings) (w : When) : Bool :=
  PyFloat.lt (g.yieldThreshold R w) (userCpu R r) ||
    PyFloat.lt g.params.gpuYieldPct (g.userGpu r)

def activeNow (g : AdaptiveGovernor) (r : Readings) (w : When) : Bool × AdaptiveGovernor :=
  let count := if g.overLine R r w then g.overCount + 1 else 0
  (decide (g.params.sustainedSamples ≤ count), { g with overCount := count })

def availableNow (g : AdaptiveGovernor) (r : Readings) (w : When) : Bool × AdaptiveGovernor :=
  if g.params.requireAc && !r.onAc then (false, g)
  else if r.locked || r.gpuBusy then (false, g)
  else
    (PyFloat.le g.params.minHeadroomPct (g.headroomNow R w) &&
      PyFloat.lt (userCpu R r) (g.admissionThreshold R w), g)

/-- The power, lock and GPU checks. -/
def gatesOpen (g : AdaptiveGovernor) (r : Readings) : Bool :=
  !(g.params.requireAc && !r.onAc) && !(r.locked || r.gpuBusy)

end AdaptiveGovernor

/-! ## Averages under rounding -/

/-- A rounding under which an average of percentages is one. -/
structure Weighs (R : Rounding) (δ : Rat) : Prop extends R.Sound δ where
  hundred : R.round 100 = .fin 100
  full : ewma R (.fin 100) (.fin 100) 1 = .fin 100
  small : δ ≤ 1 / 1000

theorem exact_weighs : Weighs PyNumber.exact 0 where
  toSound := PyNumber.exact_sound
  hundred := rfl
  full := by
    rw [ewma_exact one_ne_zero]
    norm_num
  small := by norm_num

theorem binary64_weighs : Weighs PyNumber.binary64 (1 / 2 ^ 46) where
  toSound := PyNumber.binary64_sound
  hundred := by decide +kernel
  full := by decide +kernel
  small := by norm_num

section Averages
variable {R : Rounding} {δ : Rat}

/-- An average lies between 0 and 100, and close to where it would be without rounding. -/
theorem Weighs.ewma_near (hR : Weighs R δ) {m d : Rat} (hm0 : 0 ≤ m) (hm : m ≤ 100)
    (hd0 : 0 ≤ d) (hd : d ≤ 100) {n : Nat} (hn : n ≠ 0) :
    ∃ v, ewma R (.fin m) (.fin d) n = .fin v ∧ 0 ≤ v ∧ v ≤ 100 ∧
      19 / 20 * m + 1 / 20 * d - 303 * δ ≤ v := by
  have hsmall := hR.small
  obtain ⟨b, hb, hblow, hbhigh⟩ := hR.near (1 / 20) (by norm_num) (by norm_num)
  have hδ : 0 ≤ δ := by linarith
  have hb0 : 0 ≤ b := hR.nonneg (by norm_num) hb
  obtain ⟨a, ha, halow, hahigh⟩ := hR.near (1 - b) (by linarith) (by linarith)
  have ha0 : 0 ≤ a := hR.nonneg (by linarith) ha
  have hewma : ∀ m d : Rat, ∀ n : Nat, n ≠ 0 → ewma R (.fin m) (.fin d) n =
      R.add (R.round (a * m)) (R.round (b * d)) := by
    intro m d n hn
    have hsub : R.sub (.fin 1) (.fin b) = .fin a := by
      change R.round (1 + -b) = _
      rw [← sub_eq_add_neg, ha]
    rw [ewma, if_neg hn, Rounding.ofRat, hb, hsub]
    rfl
  have ham : 0 ≤ a * m := mul_nonneg ha0 hm0
  have hbd : 0 ≤ b * d := mul_nonneg hb0 hd0
  have ham' : a * m ≤ a * 100 := mul_le_mul_of_nonneg_left hm ha0
  have hbd' : b * d ≤ b * 100 := mul_le_mul_of_nonneg_left hd hb0
  obtain ⟨x, hx, hxlow, -⟩ := hR.near (a * m) ham (by linarith)
  obtain ⟨y, hy, hylow, -⟩ := hR.near (b * d) hbd (by linarith)
  obtain ⟨x', hx', -, hxhigh'⟩ := hR.near (a * 100) (by linarith) (by linarith)
  obtain ⟨y', hy', -, hyhigh'⟩ := hR.near (b * 100) (by linarith) (by linarith)
  have hx0 := hR.nonneg ham hx
  have hy0 := hR.nonneg hbd hy
  have hxx : x ≤ x' := by
    have := hR.mono _ _ ham ham'
    rw [hx, hx'] at this
    simpa [PyFloat.le] using this
  have hyy : y ≤ y' := by
    have := hR.mono _ _ hbd hbd'
    rw [hy, hy'] at this
    simpa [PyFloat.le] using this
  have hfull : R.round (x' + y') = .fin 100 := by
    have := hR.full
    rw [hewma 100 100 1 one_ne_zero, hx', hy'] at this
    exact this
  obtain ⟨v, hv, hvlow, -⟩ := hR.near (x + y) (by linarith) (by linarith)
  refine ⟨v, ?_, hR.nonneg (by linarith) hv, ?_, ?_⟩
  · rw [hewma m d n hn, hx, hy]
    exact hv
  · have := hR.mono _ _ (by linarith : 0 ≤ x + y) (add_le_add hxx hyy)
    rw [hv, hfull] at this
    simpa [PyFloat.le] using this
  · -- each weight is off by at most 2δ, and each of the three roundings by δ
    have ha' : 19 / 20 - 2 * δ ≤ a := by linarith
    have hb' : 1 / 20 - δ ≤ b := hblow
    have h1 : (19 / 20 - 2 * δ) * m ≤ a * m := mul_le_mul_of_nonneg_right ha' hm0
    have h2 : (1 / 20 - δ) * d ≤ b * d := mul_le_mul_of_nonneg_right hb' hd0
    have h3 : δ * m ≤ δ * 100 := mul_le_mul_of_nonneg_left hm hδ
    have h4 : δ * d ≤ δ * 100 := mul_le_mul_of_nonneg_left hd hδ
    linarith

theorem Weighs.ewma_isPct (hR : Weighs R δ) {m d : PyFloat} (hm : IsPct m) (hd : IsPct d) (n : Nat) :
    IsPct (ewma R m d n) := by
  by_cases hn : n = 0
  · rw [ewma, if_pos hn]
    exact hd
  · obtain ⟨v, hv, hv0, hv100, -⟩ := hR.ewma_near hm.low hm.high hd.low hd.high hn
    rw [PyFloat.fin_val hm.finite, PyFloat.fin_val hd.finite, hv, isPct_fin]
    exact ⟨hv0, hv100⟩

end Averages

/-! ## Profiles that were loaded or learned -/

/-- A profile that was loaded from a file, and then recorded into. -/
inductive UsageProfiler.Kept (R : Rounding) : UsageProfiler → Prop where
  | loaded {movable : Bool} {file : ProfileFile} {s : Startup} :
      startUp R movable file = .ok s → Kept R s.profiler
  | recorded {p : UsageProfiler} (s : Sample) : Kept R p → Kept R (p.record R s)
  | timed {p : UsageProfiler} (sampledAt expected : PyFloat) :
      Kept R p → Kept R (p.recordAvailability R sampledAt expected)
  | declared {p : UsageProfiler} (hasGpu : Bool) :
      Kept R p → Kept R { p with gpuSupported := some hasGpu }

section Kept
variable {R : Rounding} {δ : Rat}

theorem bucketIndex_lt (w : When) : bucketIndex w < bucketsPerWeek :=
  Nat.mod_lt _ (by decide)

/-- What every such profile has: a week of buckets, and means that are percentages. -/
structure UsageProfiler.Levels (p : UsageProfiler) : Prop where
  week : p.buckets.length = bucketsPerWeek
  mean : ∀ b ∈ p.buckets, IsPct b.cpuMean

theorem record_cpuMean (b : BucketStat) (s : Sample) :
    (b.record R s).cpuMean = ewma R (b.aged R s.taken.timestamp).cpuMean (percent s.cpu)
      (b.aged R s.taken.timestamp).n := rfl

theorem aged_isPct {b : BucketStat} (h : IsPct b.cpuMean) (t : PyFloat) :
    IsPct (b.aged R t).cpuMean := by
  unfold BucketStat.aged
  split
  · exact isPct_fin.mpr ⟨le_rfl, by norm_num⟩
  · exact h

theorem UsageProfiler.Kept.levels (hR : Weighs R δ) {p : UsageProfiler} (h : p.Kept R) :
    p.Levels := by
  induction h with
  | loaded hs =>
      obtain ⟨e, he, -, hhigh⟩ := hR.near (1 / 1000) (by norm_num) (by norm_num)
      have hbounded := startUp_bounded he (by linarith [hR.small]) hs
      exact ⟨hbounded.week, fun b hb => (hbounded.buckets b hb).cpu.level⟩
  | recorded s _ ih =>
      constructor
      · rw [UsageProfiler.record, List.length_modify]
        exact ih.week
      · intro b hb
        obtain ⟨i, hi⟩ := List.mem_iff_getElem?.mp hb
        rw [UsageProfiler.record, List.getElem?_modify] at hi
        obtain ⟨b', hb', hrecord⟩ := Option.map_eq_some_iff.mp hi
        have hmean := ih.mean b' (List.mem_of_getElem? hb')
        split at hrecord
        · rw [← hrecord, record_cpuMean]
          exact hR.ewma_isPct (aged_isPct hmean _) (percent_isPct _) _
        · rw [← hrecord]
          exact hmean
  | timed _ _ _ ih => exact ⟨ih.week, ih.mean⟩
  | declared _ _ ih => exact ⟨ih.week, ih.mean⟩

theorem UsageProfiler.Levels.profileNow {p : UsageProfiler} (h : p.Levels) (w : When) :
    IsPct (p.profileNow w).cpuMean := by
  unfold UsageProfiler.profileNow
  have hi : bucketIndex w < p.buckets.length := h.week ▸ bucketIndex_lt w
  rw [List.getD_eq_getElem?_getD, List.getElem?_eq_getElem hi]
  exact h.mean _ (List.getElem_mem hi)

/-- The bucket of the hour holds the sample that was recorded in that hour. -/
theorem profileNow_record {p : UsageProfiler} (h : p.Levels) (s : Sample) :
    (p.record R s).profileNow s.taken = (p.profileNow s.taken).record R s := by
  have hi : bucketIndex s.taken < p.buckets.length := h.week ▸ bucketIndex_lt s.taken
  unfold UsageProfiler.profileNow UsageProfiler.record
  rw [List.getD_eq_getElem?_getD, List.getD_eq_getElem?_getD, List.getElem?_modify,
    List.getElem?_eq_getElem hi]
  simp

end Kept

/-! ## Admission and preemption -/

/-- Margin and hysteresis are not negative, and the ceiling of the yield line is not below
that of admission. -/
structure GovernorParams.Sane (p : GovernorParams) : Prop where
  margin : AtLeast 0 p.marginPct
  hysteresis : AtLeast 0 p.hysteresisPct
  ceilings : p.hardCeilingPct.le p.yieldCeilingPct = true

namespace AdaptiveGovernor
variable {R : Rounding} {δ : Rat}

/-- The employee's demand is a percentage, and a float. -/
theorem userCpu_float (hR : Weighs R δ) (r : Readings) :
    ∃ d, userCpu R r = .fin d ∧ 0 ≤ d ∧ d ≤ 100 ∧ R.round d = .fin d := by
  have hends : ∀ x : PyFloat, (∀ q, x = .fin q → 0 < q → R.round q = .fin q) →
      ∃ d, pyMax (.fin 0) (pyMin (.fin 100) x) = .fin d ∧ 0 ≤ d ∧ d ≤ 100 ∧ R.round d = .fin d := by
    intro x hx
    cases x with
    | nan => exact ⟨100, rfl, by norm_num, le_rfl, hR.hundred⟩
    | inf n =>
        cases n with
        | true => exact ⟨0, rfl, le_rfl, by norm_num, hR.zero⟩
        | false => exact ⟨100, rfl, by norm_num, le_rfl, hR.hundred⟩
    | fin q =>
        refine ⟨max 0 (min 100 q), by rw [PyNumber.pyMin_fin, PyNumber.pyMax_fin],
          le_max_left _ _, max_le (by norm_num) (min_le_left _ _), ?_⟩
        by_cases hq : 0 < q
        · by_cases hq' : q ≤ 100
          · rw [min_eq_right hq', max_eq_right hq.le]
            exact hx q rfl hq
          · rw [min_eq_left (not_le.mp hq').le, max_eq_right (by norm_num)]
            exact hR.hundred
        · rw [max_eq_left ((min_le_right _ _).trans (not_lt.mp hq))]
          exact hR.zero
  apply hends
  intro q hq hpos
  -- a difference that is a number was rounded
  have hround : ∀ x y : PyFloat, R.add x y = .fin q → R.round q = .fin q := by
    intro x y hadd
    cases x with
    | nan => cases hadd
    | inf n =>
        cases y with
        | nan => cases hadd
        | inf m =>
            simp only [Rounding.add] at hadd
            split at hadd <;> cases hadd
        | fin b => cases hadd
    | fin a =>
        cases y with
        | nan => cases hadd
        | inf m => cases hadd
        | fin b =>
            have hsum : 0 ≤ a + b := by
              by_contra hneg
              have hle := hR.nonpos (a + b) (not_le.mp hneg).le
              change R.round (a + b) = .fin q at hadd
              rw [hadd] at hle
              have : q ≤ 0 := by simpa [PyFloat.le] using hle
              linarith
            exact hR.stable _ _ hsum hadd
  exact hround _ _ hq

/-- Whoever is below the admission line of an average is below its yield line once they
are averaged in: between the two lies more than rounding takes away. -/
theorem admitted_le_yield (hR : Weighs R δ) {p : GovernorParams} (hp : p.Sane) {m m' d : Rat}
    (hm0 : 0 ≤ m) (hm : m ≤ 100) (hm'0 : 0 ≤ m') (hm' : m' ≤ 100) (hd0 : 0 ≤ d)
    (hfloat : R.round d = .fin d) (hnear : 19 / 20 * m + 1 / 20 * d - 303 * δ ≤ m' ∨ m' = d)
    (hslack : AtLeast (6400 * δ) p.marginPct ∨ AtLeast (6400 * δ) p.hysteresisPct)
    (hbelow : (PyFloat.fin d).lt
      (pyMin p.hardCeilingPct (R.add (.fin m) p.marginPct)) = true) :
    AtLeast d (pyMin p.yieldCeilingPct
      (R.add (pyMin p.hardCeilingPct (R.add (.fin m') p.marginPct)) p.hysteresisPct)) := by
  have hfloor : AtLeast 0 (R.add (.fin m) p.marginPct) :=
    hR.atLeast_add hR.zero le_rfl (PyFloat.atLeast_fin.mpr hm0) hp.margin
  obtain ⟨hceiling, hline⟩ := PyFloat.lt_pyMin hbelow hfloor
  have hceiling := PyFloat.atLeast_of_lt hceiling
  refine (hceiling.trans hp.ceilings).pyMin ?_
  -- enough that the new admission line is not below the demand
  have hroute : AtLeast d (R.add (.fin m') p.marginPct) → AtLeast d
      (R.add (pyMin p.hardCeilingPct (R.add (.fin m') p.marginPct)) p.hysteresisPct) := fun h =>
    hR.atLeast_add hfloat hd0 (hceiling.pyMin h) hp.hysteresis
  have hδ : 0 ≤ δ := by
    obtain ⟨v, -, hlow, hhigh⟩ := hR.near 0 le_rfl (by norm_num)
    linarith
  cases hmargin : p.marginPct with
  | nan =>
      have := hp.margin
      rw [hmargin] at this
      exact absurd this (PyFloat.not_atLeast_nan 0)
  | inf n =>
      have := hp.margin
      rw [hmargin] at this hroute
      cases (PyFloat.atLeast_inf 0 n).mp this
      exact hroute rfl
  | fin margin =>
      have hmargin0 : 0 ≤ margin := by
        have := hp.margin
        rw [hmargin] at this
        exact PyFloat.atLeast_fin.mp this
      rw [hmargin] at hline hroute hslack
      have hreach : d ≤ m' + margin → AtLeast d (R.add (.fin m') (.fin margin)) :=
        hR.le_round hfloat hd0
      cases hnear with
      | inr hfresh =>
          refine hroute (hreach ?_)
          linarith
      | inl hnear =>
          by_cases hwide : 6400 * δ ≤ margin
          · -- the margin makes up for the rounding
            by_cases hfar : m + 20 * (303 * δ) ≤ d
            · have hle : m ≤ m' := by linarith
              have hmono := hR.mono (m + margin) (m' + margin) (by linarith) (by linarith)
              exact hroute ((PyFloat.atLeast_of_lt hline).trans hmono)
            · refine hroute (hreach ?_)
              linarith
          · -- the hysteresis does
            have hyst : AtLeast (6400 * δ) p.hysteresisPct := by
              cases hslack with
              | inl h => exact absurd (PyFloat.atLeast_fin.mp h) hwide
              | inr h => exact h
            have hsmall := hR.small
            have hnarrow : margin < 6400 * δ := not_le.mp hwide
            obtain ⟨t, ht, -, hthigh⟩ := hR.near (m + margin) (by linarith) (by linarith)
            obtain ⟨t', ht', htlow', -⟩ := hR.near (m' + margin) (by linarith) (by linarith)
            have hdt : d < t := by
              change (PyFloat.fin d).lt (R.round (m + margin)) = true at hline
              rw [ht] at hline
              simpa [PyFloat.lt] using hline
            have hadd : R.add (.fin m') (.fin margin) = .fin t' := ht'
            rw [hadd]
            have hchoice : pyMin p.hardCeilingPct (.fin t') = p.hardCeilingPct ∨
                pyMin p.hardCeilingPct (.fin t') = .fin t' := by
              unfold pyMin
              split
              · exact .inr rfl
              · exact .inl rfl
            cases hchoice with
            | inl h =>
                rw [h]
                exact hR.atLeast_add hfloat hd0 hceiling hp.hysteresis
            | inr h =>
                rw [h]
                cases hhyst : p.hysteresisPct with
                | nan =>
                    rw [hhyst] at hyst
                    exact absurd hyst (PyFloat.not_atLeast_nan _)
                | inf n =>
                    rw [hhyst] at hyst
                    cases (PyFloat.atLeast_inf _ n).mp hyst
                    rfl
                | fin hysteresis =>
                    rw [hhyst, PyFloat.atLeast_fin] at hyst
                    refine hR.le_round hfloat hd0 ?_
                    by_cases hle : d ≤ m
                    · linarith
                    · linarith

/-- Demand that is admitted is not over the yield line of the profile it was recorded in. -/
def AdmitsBelowYield (R : Rounding) (g : AdaptiveGovernor) (r : Readings) (w : When) : Prop :=
  (g.shouldRun R r w).1 = true →
    PyFloat.lt ((g.shouldRun R r w).2.yieldThreshold R w) (userCpu R r) = false

theorem availableNow_decides (g : AdaptiveGovernor) (r : Readings) (w : When) :
    (g.availableNow R r w).1 = (g.shouldRun R r w).1 := by
  unfold availableNow shouldRun
  split
  · rfl
  · split <;> rfl

theorem availableNow_keeps (g : AdaptiveGovernor) (r : Readings) (w : When) :
    (g.availableNow R r w).2 = g := by
  unfold availableNow
  split
  · rfl
  · split <;> rfl

theorem shouldRun_profiler (g : AdaptiveGovernor) (r : Readings) (w : When) :
    (g.shouldRun R r w).2.profiler =
      if g.gatesOpen r then g.profiler.record R (sampleOf R r w) else g.profiler := by
  unfold shouldRun gatesOpen
  split
  next h => simp [h]
  next h =>
    split
    next hbusy => simp [hbusy]
    next hbusy => simp [h, hbusy]

theorem shouldRun_params (g : AdaptiveGovernor) (r : Readings) (w : When) :
    (g.shouldRun R r w).2.params = g.params := by
  unfold shouldRun
  split
  · rfl
  · split <;> rfl

theorem shouldRun_admits {g : AdaptiveGovernor} {r : Readings} {w : When}
    (h : (g.shouldRun R r w).1 = true) :
    g.gatesOpen r = true ∧ PyFloat.lt (userCpu R r) (g.admissionThreshold R w) = true := by
  unfold shouldRun at h
  split at h
  · cases h
  next hpower =>
    split at h
    · cases h
    next hbusy =>
      refine ⟨by simp [gatesOpen, hpower, hbusy], ?_⟩
      exact (Bool.and_eq_true_iff.mp h).2

theorem admitsBelowYield (hR : Weighs R δ) {g : AdaptiveGovernor} (hp : g.params.Sane)
    (hkept : g.profiler.Kept R)
    (hslack : AtLeast (6400 * δ) g.params.marginPct ∨ AtLeast (6400 * δ) g.params.hysteresisPct)
    (r : Readings) (w : When) : AdmitsBelowYield R g r w := by
  intro hrun
  obtain ⟨hgates, hbelow⟩ := shouldRun_admits hrun
  have hlevels := hkept.levels hR
  have hafter : ((g.shouldRun R r w).2.profiler.profileNow w).cpuMean =
      ((g.profiler.profileNow w).record R (sampleOf R r w)).cpuMean := by
    rw [shouldRun_profiler, if_pos hgates]
    exact congrArg _ (profileNow_record hlevels (sampleOf R r w))
  obtain ⟨d, hd, hd0, hd100, hfloat⟩ := userCpu_float hR r
  have hpre := hlevels.profileNow w
  have hsample : IsPct (.fin d) := isPct_fin.mpr ⟨hd0, hd100⟩
  have hpercent : percent (sampleOf R r w).cpu = .fin d := by
    change percent (userCpu R r) = _
    rw [hd]
    change pyMax (.fin 0) (pyMin (.fin 100) (.fin d)) = _
    rw [PyNumber.clamp_of_mem hd0 hd100]
  -- the mean after the sample: the demand itself in a bucket that starts again
  have hmean : ∃ m', ((g.profiler.profileNow w).record R (sampleOf R r w)).cpuMean = .fin m' ∧
      0 ≤ m' ∧ m' ≤ 100 ∧ (19 / 20 * (g.profiler.profileNow w).cpuMean.val + 1 / 20 * d -
        303 * δ ≤ m' ∨ m' = d) := by
    rw [record_cpuMean, hpercent]
    unfold BucketStat.aged
    split
    · exact ⟨d, rfl, hd0, hd100, .inr rfl⟩
    · by_cases hn : (g.profiler.profileNow w).n = 0
      · rw [ewma, if_pos hn]
        exact ⟨d, rfl, hd0, hd100, .inr rfl⟩
      · obtain ⟨v, hv, hv0, hv100, hnear⟩ := hR.ewma_near hpre.low hpre.high hd0 hd100 hn
        rw [PyFloat.fin_val hpre.finite]
        exact ⟨v, hv, hv0, hv100, .inl hnear⟩
  obtain ⟨m', hm', hm'0, hm'100, hnear⟩ := hmean
  rw [hd]
  apply AtLeast.not_lt
  unfold yieldThreshold admissionThreshold
  rw [hafter, hm', shouldRun_params]
  rw [hd, admissionThreshold, PyFloat.fin_val hpre.finite] at hbelow
  exact admitted_le_yield hR hp hpre.low hpre.high hm'0 hm'100 hd0 hfloat hnear hslack hbelow

/-- Admission and preemption agree: on the decision, on what is recorded, and on the line.
In floats the last needs a margin or a hysteresis above their resolution. -/
theorem admission_consistent (g : AdaptiveGovernor) (hp : g.params.Sane) (r : Readings)
    (w : When) :
    (∀ R, (g.availableNow R r w).1 = (g.shouldRun R r w).1 ∧
      (g.availableNow R r w).2.profiler = g.profiler ∧
      (g.activeNow R r w).2.profiler = g.profiler ∧
      (g.shouldRun R r w).2.profiler =
        if g.gatesOpen r then g.profiler.record R (sampleOf R r w) else g.profiler) ∧
    (g.profiler.Kept PyNumber.exact → AdmitsBelowYield PyNumber.exact g r w) ∧
    (g.profiler.Kept PyNumber.binary64 →
      AtLeast (1 / 10 ^ 10) g.params.marginPct ∨ AtLeast (1 / 10 ^ 10) g.params.hysteresisPct →
      AdmitsBelowYield PyNumber.binary64 g r w) := by
  refine ⟨fun R => ⟨availableNow_decides g r w, ?_, rfl, shouldRun_profiler g r w⟩, ?_, ?_⟩
  · rw [availableNow_keeps]
  · intro hkept
    exact admitsBelowYield exact_weighs hp hkept (.inl (hp.margin.mono (by norm_num))) r w
  · intro hkept hslack
    have hresolution : (6400 : Rat) * (1 / 2 ^ 46) ≤ 1 / 10 ^ 10 := by norm_num
    exact admitsBelowYield binary64_weighs hp hkept
      (hslack.imp (fun h => h.mono hresolution) fun h => h.mono hresolution) r w

/-- The profile of a device that was busy at that hour before. -/
def busyProfile : UsageProfiler :=
  [30, 50, 40].foldl (fun (p : UsageProfiler) (cpu : Rat) => p.record PyNumber.binary64
    { cpu := .fin cpu, gpu := none, ram := .fin 20, taken := ⟨0, 9, .fin 500⟩ }) {}

theorem busyProfile_kept : busyProfile.Kept PyNumber.binary64 :=
  .recorded _ (.recorded _ (.recorded _
    (.loaded (rfl : startUp PyNumber.binary64 true .absent = .ok {}))))

/-- The hour is quieter than it was learned to be: a job is admitted, below the yield line. -/
theorem admission_consistent_learned :
    (AdaptiveGovernor.shouldRun PyNumber.binary64 { profiler := busyProfile }
      { onAc := true, systemCpu := some (.fin 15) } ⟨0, 9, .fin 1000⟩).1 = true ∧
    PyFloat.lt ((AdaptiveGovernor.shouldRun PyNumber.binary64 { profiler := busyProfile }
      { onAc := true, systemCpu := some (.fin 15) } ⟨0, 9, .fin 1000⟩).2.yieldThreshold
        PyNumber.binary64 ⟨0, 9, .fin 1000⟩)
      (userCpu PyNumber.binary64 { onAc := true, systemCpu := some (.fin 15) }) = false := by
  have hsane : GovernorParams.Sane {} := ⟨by decide, by decide, by decide⟩
  have hadmitted : (AdaptiveGovernor.shouldRun PyNumber.binary64 { profiler := busyProfile }
      { onAc := true, systemCpu := some (.fin 15) } ⟨0, 9, .fin 1000⟩).1 = true := by
    decide +kernel
  refine ⟨hadmitted, (admission_consistent { profiler := busyProfile } hsane
    { onAc := true, systemCpu := some (.fin 15) } ⟨0, 9, .fin 1000⟩).2.2 busyProfile_kept
      (.inl ?_) hadmitted⟩
  exact PyFloat.atLeast_fin.mpr (by norm_num)

/-- A profile that has seen one sample of `mean` in the hour of `tinyTime`. -/
def tinyMean : Rat := 0x1ee592df781c5b / 2 ^ 48

def tinyTime : When := ⟨0, 0, .fin 1000⟩

def tinyFile : ProfileFile :=
  .decoded (.obj [("buckets", .arr [.obj [("n", .int 1), ("cpu_mean", .float (.fin tinyMean)),
    ("updated_at", .float (.fin 1000))]])])

/-- A margin of half a unit in the last place of that mean, and no hysteresis. -/
def tinyParams : GovernorParams := { marginPct := .fin (1 / 2 ^ 49), hysteresisPct := .fin 0 }

def tinyReadings : Readings := { onAc := true, systemCpu := some (.fin tinyMean) }

/-- The demand equals the mean; rounding lowers the average, and with it the yield line. -/
theorem tinyMargin_overshoots : ∃ s, startUp PyNumber.binary64 true tinyFile = .ok s ∧
    tinyParams.Sane ∧ ¬ AdmitsBelowYield PyNumber.binary64
      { params := tinyParams, profiler := s.profiler } tinyReadings tinyTime := by
  have hsane : tinyParams.Sane :=
    ⟨PyFloat.atLeast_fin.mpr (by norm_num), PyFloat.atLeast_fin.mpr le_rfl, by decide +kernel⟩
  have hrun : (match startUp PyNumber.binary64 true tinyFile with
      | .ok s =>
          let g : AdaptiveGovernor := { params := tinyParams, profiler := s.profiler }
          let after := g.shouldRun PyNumber.binary64 tinyReadings tinyTime
          after.1 && PyFloat.lt (after.2.yieldThreshold PyNumber.binary64 tinyTime)
            (userCpu PyNumber.binary64 tinyReadings)
      | .error _ => false) = true := by
    decide +kernel
  split at hrun
  next s hs =>
    obtain ⟨hadmitted, hover⟩ := Bool.and_eq_true_iff.mp hrun
    refine ⟨s, hs, hsane, fun h => ?_⟩
    exact absurd (hover.symm.trans (h hadmitted)) (by decide)
  · cases hrun

end AdaptiveGovernor

end OneCompute.Worker
