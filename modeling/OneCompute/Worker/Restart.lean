import OneCompute.Lib.Lists
import OneCompute.Measurement.AvailabilityTime
import OneCompute.Worker.Readings

/-!
A worker that saves its profile, stops and reads the file back goes on as if it had not
stopped.
-/

namespace OneCompute.Worker
open PyFloat (val fin_val pyMax pyMin)
open PyNumber (exact)
open Measurement

/-- What `save` leaves in the file; `json.dumps` refuses floats that are not finite. -/
def Startup.save (s : Startup) (file : ProfileFile) : ProfileFile :=
  if s.recoveryBlocked then file
  else if s.profiler.toJson.finite then .decoded s.profiler.toJson
  else file

/-- What the worker does, and when it is stopped and started again. -/
inductive Event where
  | observe (o : Observation)
  | declareGpu (supported : Bool)
  | restart (movable : Bool)

def UsageProfiler.after (p : UsageProfiler) : Event → UsageProfiler
  | .observe o => p.observe o
  | .declareGpu supported => { p with gpuSupported := some supported }
  | .restart _ => p

/-- The worker and its file after an event; a file that was moved away is gone. -/
def liveStep (worker : Startup × ProfileFile) : Event → Except String (Startup × ProfileFile)
  | .restart movable => do
      let file := worker.1.save worker.2
      let started ← startUp exact movable file
      return (started, if started.recovered then .absent else file)
  | event => .ok ({ worker.1 with profiler := worker.1.profiler.after event }, worker.2)

/-- The worker after events, with its restarts. -/
def live (events : List Event) : Except String (Startup × ProfileFile) :=
  events.foldlM liveStep ({}, .absent)

/-- The profile that is learned from the same events without any restart. -/
def unbroken (events : List Event) : UsageProfiler := events.foldl UsageProfiler.after {}

/-! ## One bucket -/

/-- The same bucket, or two empty ones, which differ at most in a CPU trough that the
next sample replaces. -/
def BucketStat.Alike (b c : BucketStat) : Prop :=
  b = c ∨ b.n = 0 ∧ ∃ low, IsPct low ∧ c = { b with cpuMin := low }

/-- What a bucket that was recorded in satisfies, apart from its number of samples. -/
structure BucketStat.Kept (b : BucketStat) : Prop where
  ordered : b.Ordered
  low : IsPct b.cpuMin
  updated : ∃ t, b.updatedAt = .fin t ∧ 0 ≤ t

theorem percentOf_float {x : PyFloat} (h : IsPct x) (d : PyFloat) :
    percentOf exact (.float x) d = .ok x := by
  rw [fin_val h.finite]
  exact congrArg Except.ok (PyNumber.clamp_of_mem h.low h.high)

theorem pyMax_envelope {m p : PyFloat} (h : Envelope m p) : pyMax m p = p :=
  PyNumber.pyMax_of_le h.level.finite h.top.finite h.ordered

theorem pyMin_envelope {p m : PyFloat} (h : Envelope p m) : pyMin m p = p := by
  have hle := h.ordered
  rw [fin_val h.level.finite, fin_val h.top.finite, PyNumber.pyMin_fin] at *
  exact congrArg PyFloat.fin (min_eq_right hle)

namespace BucketStat

theorem kept_new : Kept {} :=
  ⟨ordered_new, isPct_fin.mpr ⟨by norm_num, le_rfl⟩, 0, rfl, le_rfl⟩

theorem kept_record {b : BucketStat} (h : b.Kept) {s : Sample}
    (htime : ∃ t, s.taken.timestamp = .fin t ∧ 0 ≤ t) : (b.record exact s).Kept := by
  have hordered := ordered_record h.ordered s
  exact ⟨hordered, (hordered.low (record_pos b s)).level, htime⟩

theorem Kept.alike {b c : BucketStat} (h : b.Kept) (hbc : b.Alike c) : c.Kept := by
  rcases hbc with rfl | ⟨hn, low, hlow, rfl⟩
  · exact h
  · have ho := h.ordered
    exact ⟨⟨fun hpos => absurd hn (Nat.pos_iff_ne_zero.mp hpos), ho.cpu, ho.gpu, ho.ram, ho.ac,
      ho.idle, ho.gpuSamples, ho.acSamples, ho.idleSamples⟩, hlow, h.updated⟩

theorem Alike.trans {b c d : BucketStat} (hbc : b.Alike c) (hcd : c.Alike d) : b.Alike d := by
  rcases hbc with rfl | ⟨hn, low, hlow, rfl⟩
  · exact hcd
  · rcases hcd with rfl | ⟨-, low', hlow', rfl⟩
    · exact .inr ⟨hn, low, hlow, rfl⟩
    · exact .inr ⟨hn, low', hlow', rfl⟩

theorem Alike.samples {b c : BucketStat} (h : b.Alike c) : c.n = b.n := by
  rcases h with rfl | ⟨-, low, -, rfl⟩ <;> rfl

/-- An empty bucket takes its next sample whatever its trough was. -/
theorem Alike.record {b c : BucketStat} (h : b.Alike c) (s : Sample) :
    b.record exact s = c.record exact s := by
  rcases h with rfl | ⟨hn, low, -, rfl⟩
  · rfl
  · have haged : ∀ d : BucketStat, d.n = 0 → d.aged exact s.taken.timestamp = d := by
      intro d hd
      exact if_neg fun h => absurd hd (Nat.pos_iff_ne_zero.mp h.1)
    unfold BucketStat.record
    rw [haged b hn, haged { b with cpuMin := low } hn]
    simp only [hn, if_true]

theorem toJson_finite {b : BucketStat} (h : b.Kept) : b.toJson.finite = true := by
  have ho := h.ordered
  have hupdated : b.updatedAt.isFinite = true := by
    obtain ⟨t, ht, -⟩ := h.updated
    rw [ht]
    rfl
  simp [toJson, Json.finite, Json.fieldsFinite, h.low.finite, ho.cpu.level.finite, ho.cpu.top.finite,
    ho.gpu.level.finite, ho.gpu.top.finite, ho.ram.level.finite, ho.ram.top.finite, ho.ac.finite,
    ho.idle.finite, hupdated]

/-- A saved bucket is read back as it was, unless it is empty. -/
theorem readBucket_toJson {b : BucketStat} (h : b.Kept) (hn : b.n ≤ maxBucketSamples)
    (gpuSupported : Option Bool) :
    ∃ c, readBucket exact gpuSupported b.toJson = .ok c ∧ b.Alike c := by
  have ho := h.ordered
  obtain ⟨t, ht, hpos⟩ := h.updated
  have hupdated : finiteNumber exact (.float (.fin t)) (.fin 0) = .ok (.fin t) := rfl
  have hcount : ∀ k : Nat, countOf (.int k) = k := fun k => by simp [countOf, Jobkit.pyInt]
  refine ⟨{ b with cpuMin := pyMin b.cpuMean b.cpuMin }, ?_, ?_⟩
  · simp [readBucket, toJson, bucketFromDict, getField, Json.lookup, percentOf_float, ho.cpu.level,
      ho.cpu.top, h.low, ho.gpu.level, ho.gpu.top, ho.ram.level, ho.ram.top, ho.ac, ho.idle, hupdated,
      hcount, bind, Except.bind, pure, Except.pure, pyMax_envelope ho.cpu, pyMax_envelope ho.gpu,
      pyMax_envelope ho.ram, hn, ho.gpuSamples, ho.acSamples, ho.idleSamples, ht, hpos]
  · by_cases hzero : b.n = 0
    · exact .inr ⟨hzero, _, (min_isPct ho.cpu.level h.low).1, rfl⟩
    · left
      rw [pyMin_envelope (ho.low (Nat.pos_of_ne_zero hzero))]

end BucketStat

/-! ## The tracker -/

/-- What a tracker that was recorded in satisfies, apart from the limits of the loader on
its totals. -/
structure TimingKept (τ : Timing) : Prop where
  first : 0 ≤ τ.first ∧ τ.first ≤ 4102444800
  last : 0 ≤ τ.last ∧ τ.last ≤ 4102444800
  observed : 0 ≤ τ.observed
  unavailable : 0 ≤ τ.unavailable
  gaps : 0 ≤ τ.gaps ∧ τ.gaps ≤ τ.samples
  expected : 1 / 1000 ≤ τ.expected ∧ τ.expected ≤ 3600

theorem timingKept_new : TimingKept {} := by
  constructor <;> norm_num

theorem timingKept_sampled {τ τ' : Timing} (h : TimingKept τ) {now expected : Rat}
    (hs : Timing.Sampled now expected τ τ') (hnow : now ≤ 4102444800)
    (hexpected : 1 / 1000 ≤ expected ∧ expected ≤ 3600) : TimingKept τ' := by
  have hobserved := h.observed.trans hs.grows.1
  have hunavailable := h.unavailable.trans hs.grows.2.1
  have hgaps : 0 ≤ τ.gaps ∧ τ.gaps ≤ τ.samples + 1 := ⟨h.gaps.1, by linarith [h.gaps.2]⟩
  cases hs with
  | ignored => exact h
  | first hpos =>
      exact ⟨⟨hpos.le, hnow⟩, ⟨hpos.le, hnow⟩, hobserved, hunavailable, hgaps, hexpected⟩
  | repeated => exact ⟨h.first, h.last, hobserved, hunavailable, h.gaps, hexpected⟩
  | setBack hpos =>
      exact ⟨⟨le_min h.first.1 hpos.le, (min_le_right _ _).trans hnow⟩, ⟨hpos.le, hnow⟩, hobserved,
        hunavailable, hgaps, hexpected⟩
  | jumped hlast hjump =>
      have hpos : 0 ≤ now := by
        have hmax : (0 : Rat) < maxStep := by norm_num [maxStep]
        linarith
      exact ⟨h.first, ⟨hpos, hnow⟩, hobserved, hunavailable, hgaps, hexpected⟩
  | counted share gap hlast hforward =>
      have hgap : 0 ≤ gap.toInt ∧ gap.toInt ≤ 1 := by cases gap <;> decide
      refine ⟨h.first, ⟨by linarith, hnow⟩, hobserved, hunavailable, ⟨?_, ?_⟩, hexpected⟩
      · exact add_nonneg h.gaps.1 hgap.1
      · exact add_le_add h.gaps.2 hgap.2

theorem nonnegativeFiniteJson_float {q : Rat} (h : 0 ≤ q) (d : PyFloat) :
    nonnegativeFiniteJson exact (.float (.fin q)) d = .ok (.fin q) := by
  have hmax : pyMax (.fin 0) (.fin q) = .fin q := by
    rw [PyNumber.pyMax_fin, max_eq_right h]
  exact congrArg Except.ok hmax

/-- A saved tracker is read back as it was. -/
theorem timing_reread {τ : Timing} (h : TimingKept τ) (hobserved : τ.observed ≤ 400 * 24 * 3600)
    (hunavailable : τ.unavailable ≤ 400 * 24 * 3600) (hsamples : τ.samples ≤ maxTrackedCount) :
    AvailabilityTracker.fromDict exact τ.tracker.toDict = .ok τ.tracker := by
  have hexpected : (0 : Rat) ≤ τ.expected := le_trans (by norm_num) h.expected.1
  have hgaps := h.gaps.2.trans hsamples
  have hcount : ∀ k : Int, 0 ≤ k → nonnegativeInt (.int k) = k :=
    fun k hk => by simp [nonnegativeInt, Jobkit.pyInt, hk]
  have hclamp : pyMin (.fin 3600) (pyMax (exact.ofRat 1000⁻¹) (.fin τ.expected)) =
      .fin τ.expected := by
    change pyMin (.fin 3600) (pyMax (.fin 1000⁻¹) (.fin τ.expected)) = _
    have hlow : (1000⁻¹ : Rat) ≤ τ.expected := le_trans (by norm_num) h.expected.1
    rw [PyNumber.pyMax_fin, max_eq_right hlow, PyNumber.pyMin_fin, min_eq_right h.expected.2]
  simp [AvailabilityTracker.fromDict, AvailabilityTracker.toDict, Timing.tracker, Json.lookup,
    nonnegativeFiniteJson_float, h.first.1, h.last.1, h.observed, h.unavailable, hexpected, bind,
    Except.bind, pure, Except.pure, hcount, h.gaps.1, h.gaps.1.trans h.gaps.2, hgaps, hsamples,
    maxTimestampSeconds, maxTrackedSeconds, maxExpectedIntervalSeconds, hclamp, h.first.2, h.last.2,
    hobserved, hunavailable]

/-! ## The profile -/

structure UsageProfiler.Savable (p : UsageProfiler) : Prop where
  week : p.buckets.length = bucketsPerWeek
  buckets : ∀ b ∈ p.buckets, b.Kept
  timing : ∃ τ : Timing, p.availability = τ.tracker ∧ TimingKept τ

/-- The counters and totals that the loader would cut off are below its limits. -/
structure UsageProfiler.Capped (p : UsageProfiler) : Prop where
  buckets : ∀ b ∈ p.buckets, b.n < maxBucketSamples
  samples : p.availability.sampleCount < maxTrackedCount
  observed : p.availability.observedSeconds.lt maxTrackedSeconds = true
  unavailable : p.availability.unavailableSeconds.lt maxTrackedSeconds = true

/-- The profile `q` goes on as `p` does. -/
structure UsageProfiler.Resumed (p q : UsageProfiler) : Prop where
  buckets : List.Forall₂ BucketStat.Alike p.buckets q.buckets
  availability : q.availability = p.availability
  gpuSupported : q.gpuSupported = p.gpuSupported

def TimeInRange (x : PyFloat) : Prop := ∃ t, x = .fin t ∧ 0 ≤ t ∧ t ≤ 4102444800

/-- Times from 1970 to 2100, and intervals from a millisecond to an hour. -/
def Event.InRange : Event → Prop
  | .observe (.sample s) => TimeInRange s.taken.timestamp
  | .observe (.availability sampledAt expected) =>
      TimeInRange sampledAt ∧ ∃ e, expected = .fin e ∧ 1 / 1000 ≤ e ∧ e ≤ 3600
  | _ => True

namespace UsageProfiler
variable {p q : UsageProfiler}

theorem savable_new : Savable {} where
  week := List.length_replicate
  buckets := fun _ hb => List.eq_of_mem_replicate hb ▸ BucketStat.kept_new
  timing := ⟨{}, rfl, timingKept_new⟩

theorem savable_after (h : p.Savable) {e : Event} (he : e.InRange) : (p.after e).Savable := by
  cases e with
  | observe o =>
      cases o with
      | sample s =>
          obtain ⟨t, ht, hpos, -⟩ := he
          refine ⟨(List.length_modify _ _ _).trans h.week, ?_, h.timing⟩
          intro b hb
          obtain ⟨i, hi, rfl⟩ := List.mem_iff_getElem.mp hb
          simp only [after, observe, record, List.length_modify] at hi
          have hkept := h.buckets _ (List.getElem_mem hi)
          simp only [after, observe, record, List.getElem_modify]
          split
          · exact BucketStat.kept_record hkept ⟨t, ht, hpos⟩
          · exact hkept
      | availability sampledAt expected =>
          obtain ⟨⟨t, rfl, hpos, hmax⟩, e, rfl, hlow, hhigh⟩ := he
          obtain ⟨τ, hτ, hkept⟩ := h.timing
          obtain ⟨τ', hs, hrecord⟩ := record_sampled τ (.fin t) (.fin e)
          have htime : sampleTime (.fin t) = t := by
            simp [sampleTime, nonnegativeFinite, PyFloat.isFinite, hpos]
          have hcadence : cadence (.fin e) = e := by
            have he : (0 : Rat) ≤ e := le_trans (by norm_num) hlow
            simp [cadence, nonnegativeFinite, PyFloat.isFinite, he]
            linarith
          rw [htime, hcadence] at hs
          refine ⟨h.week, h.buckets, τ', ?_, timingKept_sampled hkept hs hmax ⟨hlow, hhigh⟩⟩
          rw [← hrecord, ← hτ]
          rfl
  | declareGpu supported => exact ⟨h.week, h.buckets, h.timing⟩
  | restart movable => exact h

theorem resumed_refl (p : UsageProfiler) : p.Resumed p :=
  ⟨List.forall₂_same.mpr fun _ _ => .inl rfl, rfl, rfl⟩

theorem Resumed.after (h : p.Resumed q) (e : Event) : (p.after e).Resumed (q.after e) := by
  cases e with
  | observe o =>
      cases o with
      | sample s =>
          refine ⟨Lists.forall₂_modify h.buckets ?_ _, h.availability, h.gpuSupported⟩
          intro b c hbc
          exact .inl (hbc.record s)
      | availability sampledAt expected =>
          refine ⟨h.buckets, ?_, h.gpuSupported⟩
          exact congrArg (AvailabilityTracker.record exact · sampledAt expected) h.availability
  | declareGpu supported => exact ⟨h.buckets, h.availability, rfl⟩
  | restart movable => exact h

theorem Savable.resumed (h : p.Savable) (hpq : p.Resumed q) : q.Savable := by
  refine ⟨hpq.buckets.length_eq ▸ h.week, ?_, hpq.availability ▸ h.timing⟩
  intro c hc
  obtain ⟨b, hb, hbc⟩ := Results.forall₂_mem_left hpq.buckets.flip hc
  exact (h.buckets b hb).alike hbc

theorem toJson_finite (h : p.Savable) : p.toJson.finite = true := by
  obtain ⟨τ, hτ, -⟩ := h.timing
  have hbuckets : Json.itemsFinite (p.buckets.map BucketStat.toJson) = true := by
    rw [Json.itemsFinite_iff]
    intro v hv
    obtain ⟨b, hb, rfl⟩ := List.mem_map.mp hv
    exact BucketStat.toJson_finite (h.buckets b hb)
  have hgpu : (p.gpuSupported.elim .null Json.bool).finite = true := by
    cases p.gpuSupported <;> rfl
  have htiming : p.availability.toDict.finite = true := by
    rw [hτ]
    rfl
  simp [toJson, Json.finite, Json.fieldsFinite, hbuckets, hgpu, htiming]

/-- A saved profile is read back so that it goes on as it did. -/
theorem readProfile_toJson (h : p.Savable) (hcapped : p.Capped) (hpq : p.Resumed q) :
    ∃ q', readProfile exact q.toJson = .ok (.ok q') ∧ p.Resumed q' := by
  have hq := h.resumed hpq
  obtain ⟨τ, hτ, htiming⟩ := h.timing
  have htracker : q.availability = τ.tracker := hpq.availability.trans hτ
  have hread : List.Forall₂ (fun raw b => ∃ c, readBucket exact q.gpuSupported raw = .ok c ∧
      BucketStat.Alike b c) (q.buckets.map BucketStat.toJson) p.buckets := by
    have hall : List.Forall₂ (fun b c => (b.Kept ∧ b.n < maxBucketSamples) ∧ b.Alike c)
        p.buckets q.buckets :=
      (List.forall₂_and_left _ _).mpr
        ⟨fun b hb => ⟨h.buckets b hb, hcapped.buckets b hb⟩, hpq.buckets⟩
    rw [List.forall₂_map_left_iff]
    refine hall.flip.imp ?_
    rintro c b ⟨⟨hkept, hsamples⟩, hbc⟩
    obtain ⟨d, hd, hcd⟩ := BucketStat.readBucket_toJson (hkept.alike hbc)
      (hbc.samples.trans_le hsamples.le) q.gpuSupported
    exact ⟨d, hd, hbc.trans hcd⟩
  obtain ⟨buckets, hbuckets, halike⟩ := Results.mapM_related hread
  have hobserved := hcapped.observed
  have hunavailable := hcapped.unavailable
  have hsamples := hcapped.samples
  rw [hτ] at hobserved hunavailable hsamples
  simp only [Timing.tracker, PyFloat.lt, maxTrackedSeconds, decide_eq_true_eq] at hobserved hunavailable
  have hload := timing_reread htiming hobserved.le hunavailable.le hsamples.le
  have hlength : buckets.length = bucketsPerWeek := halike.length_eq.trans h.week
  have htake : (q.buckets.map BucketStat.toJson).take bucketsPerWeek =
      q.buckets.map BucketStat.toJson := by
    rw [List.take_of_length_le (by simp [hq.week])]
  have hdeclared : declaredGpu [("version", .int 3),
      ("gpu_supported", q.gpuSupported.elim .null .bool),
      ("buckets", .arr (q.buckets.map BucketStat.toJson)),
      ("availability", τ.tracker.toDict)] = q.gpuSupported := by
    cases hgpu : q.gpuSupported <;> rfl
  refine ⟨{ buckets := buckets, availability := τ.tracker, gpuSupported := q.gpuSupported }, ?_,
    halike.flip, hτ.symm, hpq.gpuSupported⟩
  simp [readProfile, toJson, htracker, Json.lookup, hdeclared, htake, hbuckets, getField, hload,
    hlength, bind, Except.bind, pure, Except.pure]

end UsageProfiler

/-! ## Runs -/

theorem live_snoc (events : List Event) (e : Event) :
    live (events ++ [e]) = live events >>= fun worker => liveStep worker e := by
  simp [live, List.foldlM_append]

theorem unbroken_snoc (events : List Event) (e : Event) :
    unbroken (events ++ [e]) = (unbroken events).after e := by
  simp [unbroken]

theorem unbroken_savable {events : List Event} (h : ∀ e ∈ events, e.InRange) :
    (unbroken events).Savable := by
  induction events using List.reverseRecOn with
  | nil => exact UsageProfiler.savable_new
  | append_singleton events e ih =>
      rw [unbroken_snoc]
      exact UsageProfiler.savable_after (ih fun e' he' => h e' (List.mem_append_left _ he'))
        (h e (by simp))

/-- A worker that can save its profile, and whose profile goes on as `p` does. -/
structure Startup.Resumed (p : UsageProfiler) (s : Startup) : Prop where
  profiler : p.Resumed s.profiler
  open_ : s.recoveryBlocked = false

/-- Stopping a worker and starting it again changes nothing that lasts. -/
theorem restart_resumed {p : UsageProfiler} (h : p.Savable) (hcapped : p.Capped) {s : Startup}
    (hs : s.Resumed p) (file : ProfileFile) (movable : Bool) :
    ∃ worker, liveStep (s, file) (.restart movable) = .ok worker ∧ worker.1.Resumed p := by
  obtain ⟨q, hread, hq⟩ := UsageProfiler.readProfile_toJson h hcapped hs.profiler
  have hsave : s.save file = .decoded s.profiler.toJson := by
    simp [Startup.save, hs.open_, UsageProfiler.toJson_finite (h.resumed hs.profiler)]
  have hstart : startUp exact movable (.decoded s.profiler.toJson) = .ok { profiler := q } := by
    simp [startUp, hread, bind, Except.bind, pure, Except.pure]
  refine ⟨({ profiler := q }, .decoded s.profiler.toJson), ?_, hq, rfl⟩
  simp [liveStep, hsave, hstart, bind, Except.bind, pure, Except.pure]

theorem live_resumed {events : List Event} (h : ∀ e ∈ events, e.InRange)
    (hcapped : ∀ earlier, earlier <+: events → (unbroken earlier).Capped) :
    ∃ worker, live events = .ok worker ∧ worker.1.Resumed (unbroken events) := by
  induction events using List.reverseRecOn with
  | nil => exact ⟨({}, .absent), rfl, UsageProfiler.resumed_refl _, rfl⟩
  | append_singleton events e ih =>
      have hearlier : ∀ e' ∈ events, e'.InRange := fun e' he' => h e' (List.mem_append_left _ he')
      obtain ⟨worker, hlive, hworker⟩ := ih hearlier fun earlier hpre =>
        hcapped earlier (hpre.trans (List.prefix_append _ _))
      rw [live_snoc, hlive, unbroken_snoc]
      have hgo : ∀ e : Event,
          liveStep worker e = .ok ({ worker.1 with profiler := worker.1.profiler.after e }, worker.2) →
          ∃ next, liveStep worker e = .ok next ∧ next.1.Resumed ((unbroken events).after e) :=
        fun e hstep => ⟨_, hstep, hworker.profiler.after e, hworker.open_⟩
      cases e with
      | restart movable =>
          exact restart_resumed (unbroken_savable hearlier)
            (hcapped events (List.prefix_append _ _)) hworker worker.2 movable
      | observe o => exact hgo (.observe o) rfl
      | declareGpu supported => exact hgo (.declareGpu supported) rfl

/-- Restarts leave no trace in the buckets that were recorded in, in the tracker or in the
GPU flag. -/
theorem restart_transparent (events : List Event) (h : ∀ e ∈ events, e.InRange)
    (hcapped : ∀ earlier, earlier <+: events → (unbroken earlier).Capped) :
    ∃ worker file, live events = .ok (worker, file) ∧
      worker.profiler.availability = (unbroken events).availability ∧
      worker.profiler.gpuSupported = (unbroken events).gpuSupported ∧
      List.Forall₂ (fun b c => b.n = c.n ∧ (0 < b.n → b = c)) (unbroken events).buckets
        worker.profiler.buckets := by
  obtain ⟨⟨worker, file⟩, hlive, hworker⟩ := live_resumed h hcapped
  refine ⟨worker, file, hlive, hworker.profiler.availability, hworker.profiler.gpuSupported,
    hworker.profiler.buckets.imp ?_⟩
  intro b c hbc
  refine ⟨hbc.samples.symm, fun hpos => hbc.resolve_right ?_⟩
  rintro ⟨hn, -⟩
  omega

/-- A machine at half load, without a GPU. -/
def halfLoad : Sample := { cpu := .fin 50, gpu := none, ram := .fin 20, taken := ⟨0, 0, .fin 1⟩ }

/-- A sample, and the worker stopped and started again. -/
def oneRestart : List Event := [.observe (.sample halfLoad), .restart true]

theorem restart_transparent_one : ∃ worker file, live oneRestart = .ok (worker, file) ∧
    worker.profiler.gpuSupported = none := by
  have hrange : ∀ e ∈ oneRestart, e.InRange := by
    rintro e he
    rcases List.mem_cons.mp he with rfl | he
    · exact ⟨1, rfl, by norm_num, by norm_num⟩
    · rw [List.mem_singleton.mp he]
      trivial
  have hcapped : ∀ earlier, earlier <+: oneRestart → (unbroken earlier).Capped := by
    intro earlier hpre
    have hstates : unbroken earlier = unbroken [] ∨
        unbroken earlier = unbroken [.observe (.sample halfLoad)] := by
      rw [List.prefix_iff_eq_take.mp hpre]
      rcases earlier.length with - | - | n
      · exact .inl rfl
      · exact .inr rfl
      · right
        simp [oneRestart, unbroken, UsageProfiler.after]
    rcases hstates with h | h
    · rw [h]
      constructor <;> decide +kernel
    · rw [h]
      constructor <;> decide +kernel
  obtain ⟨worker, file, hlive, -, hgpu, -⟩ := restart_transparent oneRestart hrange hcapped
  exact ⟨worker, file, hlive, hgpu⟩

end OneCompute.Worker
