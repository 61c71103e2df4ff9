import OneCompute.Lib.PyMean
import OneCompute.Lib.Timeline
import OneCompute.Measurement.Availability

/-!
Where the time of an observer goes, in exact arithmetic: every step between two samples
is split between observed and unavailable time, or is dropped as a jump of the clock.
-/

namespace OneCompute.Measurement
open PyFloat (val fin_val pyMax pyMin)
open PyNumber (exact)
open Timeline (steps)

/-- A tracker whose times are rational. -/
structure Timing where
  first : Rat := 0
  last : Rat := 0
  observed : Rat := 0
  unavailable : Rat := 0
  gaps : Int := 0
  samples : Int := 0
  expected : Rat := 30

def Timing.tracker (τ : Timing) : AvailabilityTracker where
  firstSampleAt := .fin τ.first
  lastSampleAt := .fin τ.last
  observedSeconds := .fin τ.observed
  unavailableSeconds := .fin τ.unavailable
  gapCount := τ.gaps
  sampleCount := τ.samples
  expectedIntervalSeconds := .fin τ.expected

/-- The longest step that is counted. -/
def maxStep : Rat := 31 * 24 * 3600

/-- What a sample at `now` does to a tracker. -/
inductive Timing.Sampled (now expected : Rat) (τ : Timing) : Timing → Prop where
  | ignored : now ≤ 0 → Sampled now expected τ τ
  | first : 0 < now → τ.last ≤ 0 → Sampled now expected τ
      { τ with expected := expected, first := now, last := now, samples := τ.samples + 1 }
  | repeated : 0 < now → now = τ.last → Sampled now expected τ { τ with expected := expected }
  | setBack : 0 < now → now < τ.last → Sampled now expected τ
      { τ with expected := expected, first := min τ.first now, last := now, samples := τ.samples + 1 }
  | jumped : 0 < τ.last → maxStep < now - τ.last → Sampled now expected τ
      { τ with expected := expected, last := now, samples := τ.samples + 1 }
  | counted (share : Rat) (gap : Bool) : 0 < τ.last → 0 < now - τ.last → now - τ.last ≤ maxStep →
      0 ≤ share → share ≤ now - τ.last → Sampled now expected τ
      { τ with
        expected := expected
        last := now
        samples := τ.samples + 1
        observed := τ.observed + share
        unavailable := τ.unavailable + (now - τ.last - share)
        gaps := τ.gaps + gap.toInt }

/-- The time of a sample, zero for what is no time. -/
def sampleTime (sampledAt : PyFloat) : Rat := (nonnegativeFinite sampledAt (.fin 0)).val

def cadence (interval : PyFloat) : Rat :=
  max (1 / 1000) (nonnegativeFinite interval defaultExpectedIntervalSeconds).val

theorem nonnegativeFinite_val (x : PyFloat) {d : PyFloat} (hd : d.isFinite = true) :
    nonnegativeFinite x d = .fin (nonnegativeFinite x d).val := by
  apply fin_val
  cases x with
  | fin q => simp [nonnegativeFinite, PyFloat.isFinite]
  | nan => exact hd
  | inf n => exact hd

theorem cadence_pos (interval : PyFloat) : 0 < cadence interval :=
  lt_max_of_lt_left (by norm_num)

theorem record_sampled (τ : Timing) (sampledAt interval : PyFloat) :
    ∃ τ', Timing.Sampled (sampleTime sampledAt) (cadence interval) τ τ' ∧
      τ.tracker.record exact sampledAt interval = τ'.tracker := by
  have hnow : nonnegativeFinite sampledAt (.fin 0) = .fin (sampleTime sampledAt) :=
    nonnegativeFinite_val sampledAt rfl
  have hexpected : pyMax (exact.ofRat (1 / 1000))
      (nonnegativeFinite interval defaultExpectedIntervalSeconds) = .fin (cadence interval) := by
    rw [nonnegativeFinite_val interval rfl]
    exact PyNumber.pyMax_fin _ _
  have hpos := cadence_pos interval
  unfold AvailabilityTracker.record
  rw [hnow, hexpected]
  generalize sampleTime sampledAt = now
  generalize cadence interval = expected at hpos
  simp only [Timing.tracker, PyFloat.le, PyFloat.lt, PyNumber.exact_sub, PyFloat.fin.injEq,
    decide_eq_true_eq, PyNumber.exact_add, PyNumber.exact_mul, PyNumber.pyMax_fin,
    PyNumber.pyMin_fin, maxAccountedGapSeconds]
  split
  next h => exact ⟨_, .ignored h, rfl⟩
  next hnow =>
    rw [not_le] at hnow
    split
    next h => exact ⟨_, .first hnow h, rfl⟩
    next hlast =>
      rw [not_le] at hlast
      split
      next h => exact ⟨_, .repeated hnow (sub_eq_zero.mp h), rfl⟩
      next hstep =>
        split
        next h => exact ⟨_, .setBack hnow (sub_neg.mp h), rfl⟩
        next hback =>
          have hforward : 0 < now - τ.last := lt_of_le_of_ne (not_lt.mp hback) (Ne.symm hstep)
          split
          next h => exact ⟨_, .jumped hlast h, rfl⟩
          next hjump =>
            rw [not_lt] at hjump
            split
            next =>
              exact ⟨_, .counted (min (now - τ.last) expected) true hlast hforward hjump
                (le_min hforward.le hpos.le) (min_le_left _ _), rfl⟩
            next =>
              refine ⟨_, .counted (now - τ.last) false hlast hforward hjump hforward.le le_rfl, ?_⟩
              simp

/-! ## Runs -/

/-- The tracker after calls of `record`, each with its time and its expected interval. -/
def recordAll (calls : List (PyFloat × PyFloat)) : AvailabilityTracker :=
  calls.foldl (fun t call => t.record exact call.1 call.2) {}

/-- What is no positive number is not recorded. -/
def recordedAt : PyFloat → Option Rat
  | .fin q => if 0 < q then some q else none
  | _ => none

/-- The times that are recorded. -/
def instants (calls : List (PyFloat × PyFloat)) : List Rat :=
  calls.filterMap fun call => recordedAt call.1

def countedSteps (times : List Rat) : List Rat :=
  (steps times).filter fun d => decide (0 < d) && decide (d ≤ maxStep)

/-- The forward steps that are taken for jumps of the clock. -/
def discardedSteps (times : List Rat) : List Rat :=
  (steps times).filter fun d => decide (0 < d) && !decide (d ≤ maxStep)

/-- A tracker has accounted for the samples at `times`. -/
structure Timing.Accounts (times : List Rat) (τ : Timing) : Prop where
  balance : τ.observed + τ.unavailable = (countedSteps times).sum
  observed : 0 ≤ τ.observed
  unavailable : 0 ≤ τ.unavailable
  positive : ∀ t ∈ times, 0 < t
  last : τ.last = times.getLast?.getD 0
  first : times.Pairwise (· ≤ ·) → τ.first = times.head?.getD 0
  gaps : τ.gaps ≤ τ.samples ∧ (times ≠ [] → τ.gaps < τ.samples)

theorem countedSteps_append {times : List Rat} (h : times ≠ []) (t : Rat) :
    (countedSteps (times ++ [t])).sum = (countedSteps times).sum +
      if 0 < t - times.getLast?.getD 0 ∧ t - times.getLast?.getD 0 ≤ maxStep then
        t - times.getLast?.getD 0 else 0 := by
  have hlast : times.getLast?.getD 0 = times.getLast h := by
    rw [List.getLast?_eq_some_getLast h, Option.getD_some]
  unfold countedSteps
  rw [Timeline.steps_append_singleton h, List.filter_append, List.sum_append, hlast]
  by_cases hcounted : 0 < t - times.getLast h ∧ t - times.getLast h ≤ maxStep
  · simp [hcounted.1, hcounted.2]
  · rw [if_neg hcounted, List.filter_cons_of_neg (by simpa using hcounted)]
    simp

/-- What has been recorded once a sample at `now` was taken. -/
def sampleInstant (times : List Rat) (now : Rat) : List Rat :=
  if 0 < now then times ++ [now] else times

namespace Timing
variable {τ τ' : Timing} {times : List Rat} {now expected : Rat}

/-- A sample never takes time back, and adds none unless it is later than the last. -/
theorem Sampled.grows (h : Sampled now expected τ τ') :
    τ.observed ≤ τ'.observed ∧ τ.unavailable ≤ τ'.unavailable ∧
      (now ≤ τ.last → τ'.observed = τ.observed ∧ τ'.unavailable = τ.unavailable) := by
  cases h with
  | counted share gap _ hforward _ hshare hle =>
      refine ⟨by simpa using hshare, by simpa using hle, ?_⟩
      intro hnow
      linarith
  | _ => exact ⟨le_rfl, le_rfl, fun _ => ⟨rfl, rfl⟩⟩

theorem Accounts.nonempty (h : τ.Accounts times) (hlast : 0 < τ.last) : times ≠ [] := by
  rintro rfl
  simp [h.last] at hlast

/-- The samples of a tracker go on from the last of them. -/
theorem Accounts.sorted (h : τ.Accounts times) (hne : times ≠ [])
    (hsorted : (times ++ [now]).Pairwise (· ≤ ·)) :
    times.Pairwise (· ≤ ·) ∧ τ.last ≤ now := by
  obtain ⟨htimes, -, hle⟩ := List.pairwise_append.mp hsorted
  refine ⟨htimes, ?_⟩
  rw [h.last, List.getLast?_eq_some_getLast hne]
  exact hle _ (List.getLast_mem hne) now List.mem_cons_self

/-- The time that a sample at `now` adds to the totals. -/
def added (now : Rat) (τ : Timing) : Rat :=
  if 0 < now - τ.last ∧ now - τ.last ≤ maxStep then now - τ.last else 0

theorem Accounts.later (h : τ.Accounts times) (hs : Sampled now expected τ τ') (hnow : 0 < now)
    (hpos : 0 < τ.last) (hlast : τ'.last = now)
    (hbalance : τ'.observed + τ'.unavailable = τ.observed + τ.unavailable + added now τ)
    (hfirst : τ.last ≤ now → τ'.first = τ.first) (hgaps : τ'.gaps < τ'.samples) :
    τ'.Accounts (times ++ [now]) := by
  have hne := h.nonempty hpos
  have hgrows := hs.grows
  refine ⟨?_, h.observed.trans hgrows.1, h.unavailable.trans hgrows.2.1, ?_, by simp [hlast], ?_,
    hgaps.le, fun _ => hgaps⟩
  · rw [countedSteps_append hne, ← h.last, hbalance, h.balance]
    rfl
  · intro t ht
    rcases List.mem_append.mp ht with ht | ht
    · exact h.positive t ht
    · rwa [List.mem_singleton.mp ht]
  · intro hsorted
    obtain ⟨htimes, hle⟩ := h.sorted hne hsorted
    rw [hfirst hle, h.first htimes, List.head?_append]
    simp [List.head?_eq_some_head hne]

theorem Accounts.sampled (h : τ.Accounts times) (hs : Sampled now expected τ τ') :
    τ'.Accounts (sampleInstant times now) := by
  have hgaps : 0 < τ.last → τ.gaps < τ.samples := fun hpos => h.gaps.2 (h.nonempty hpos)
  cases hcase : hs with
  | ignored hnow =>
      rw [sampleInstant, if_neg (not_lt.mpr hnow)]
      exact h
  | first hnow hlast =>
      have hnone : times = [] := by
        by_contra hne
        have hpos := h.positive _ (List.getLast_mem hne)
        rw [h.last, List.getLast?_eq_some_getLast hne] at hlast
        exact absurd hpos (not_lt.mpr hlast)
      subst hnone
      have hlt : τ.gaps < τ.samples + 1 := Int.lt_add_one_of_le h.gaps.1
      rw [sampleInstant, if_pos hnow]
      exact ⟨h.balance, h.observed, h.unavailable, by simpa using hnow, rfl,
        fun _ => rfl, hlt.le, fun _ => hlt⟩
  | repeated hnow hsame =>
      have hpos : 0 < τ.last := hsame ▸ hnow
      rw [sampleInstant, if_pos hnow]
      exact h.later hs hnow hpos hsame.symm (by simp [added, hsame]) (fun _ => rfl) (hgaps hpos)
  | setBack hnow hback =>
      have hpos : 0 < τ.last := hnow.trans hback
      have hnone : ¬ (0 < now - τ.last) := not_lt.mpr (sub_nonpos.mpr hback.le)
      rw [sampleInstant, if_pos hnow]
      exact h.later hs hnow hpos rfl (by simp [added, hnone])
        (fun hle => absurd hback (not_lt.mpr hle)) ((hgaps hpos).trans (Int.lt_succ _))
  | jumped hpos hjump =>
      have hnow : 0 < now := by
        have hmax : (0 : Rat) < maxStep := by norm_num [maxStep]
        linarith
      rw [sampleInstant, if_pos hnow]
      exact h.later hs hnow hpos rfl (by simp [added, not_le.mpr hjump]) (fun _ => rfl)
        ((hgaps hpos).trans (Int.lt_succ _))
  | counted share gap hpos hforward hle _ _ =>
      have hnow : 0 < now := by linarith
      rw [sampleInstant, if_pos hnow]
      refine h.later hs hnow hpos rfl ?_ (fun _ => rfl) ?_
      · rw [added, if_pos ⟨hforward, hle⟩]
        ring
      · have hgap : gap.toInt ≤ 1 := by cases gap <;> decide
        have := hgaps hpos
        dsimp only
        omega

end Timing

theorem recordAll_snoc (calls : List (PyFloat × PyFloat)) (call : PyFloat × PyFloat) :
    recordAll (calls ++ [call]) = (recordAll calls).record exact call.1 call.2 := by
  simp [recordAll]

theorem recordedAt_eq (sampledAt : PyFloat) :
    recordedAt sampledAt = if 0 < sampleTime sampledAt then some (sampleTime sampledAt) else none := by
  cases sampledAt with
  | fin q =>
      have htime : sampleTime (.fin q) = max 0 q := by
        simp [sampleTime, nonnegativeFinite, PyFloat.isFinite]
      by_cases hq : 0 < q
      · simp [recordedAt, htime, hq, max_eq_right hq.le]
      · simp [recordedAt, htime, hq]
  | nan => rfl
  | inf n => rfl

theorem instants_snoc (calls : List (PyFloat × PyFloat)) (call : PyFloat × PyFloat) :
    instants (calls ++ [call]) = sampleInstant (instants calls) (sampleTime call.1) := by
  unfold instants sampleInstant
  by_cases hpos : 0 < sampleTime call.1 <;> simp [recordedAt_eq, hpos]

theorem recordAll_accounts (calls : List (PyFloat × PyFloat)) :
    ∃ τ : Timing, recordAll calls = τ.tracker ∧ τ.Accounts (instants calls) := by
  induction calls using List.reverseRecOn with
  | nil => exact ⟨{}, rfl, by constructor <;> simp [instants, countedSteps]⟩
  | append_singleton calls call ih =>
      obtain ⟨τ, hτ, haccounts⟩ := ih
      obtain ⟨τ', hs, hrecord⟩ := record_sampled τ call.1 call.2
      refine ⟨τ', ?_, ?_⟩
      · rw [recordAll_snoc, hτ, hrecord]
      · rw [instants_snoc]
        exact haccounts.sampled hs

theorem recordAll_grows (calls more : List (PyFloat × PyFloat)) {τ : Timing}
    (h : recordAll calls = τ.tracker) : ∃ τ' : Timing, recordAll (calls ++ more) = τ'.tracker ∧
      τ.observed ≤ τ'.observed ∧ τ.unavailable ≤ τ'.unavailable := by
  induction more using List.reverseRecOn with
  | nil => exact ⟨τ, by rwa [List.append_nil], le_rfl, le_rfl⟩
  | append_singleton more call ih =>
      obtain ⟨mid, hmid, hobserved, hunavailable⟩ := ih
      obtain ⟨τ', hs, hrecord⟩ := record_sampled mid call.1 call.2
      refine ⟨τ', ?_, hobserved.trans hs.grows.1, hunavailable.trans hs.grows.2.1⟩
      rw [← List.append_assoc, recordAll_snoc, hmid, hrecord]

theorem sampleTime_le {sampledAt : PyFloat} {last : Rat} (hlast : 0 ≤ last)
    (h : ∀ now, recordedAt sampledAt = some now → now ≤ last) : sampleTime sampledAt ≤ last := by
  by_cases hpos : 0 < sampleTime sampledAt
  · exact h _ (by rw [recordedAt_eq, if_pos hpos])
  · exact (not_lt.mp hpos).trans hlast

theorem Timing.Accounts.last_nonneg {τ : Timing} {times : List Rat} (h : τ.Accounts times) :
    0 ≤ τ.last := by
  rw [h.last]
  cases hl : times.getLast? with
  | none => exact le_rfl
  | some t => exact (h.positive t (List.mem_of_getLast? hl)).le

/-- The way from the first sample to the last is observed, unavailable or discarded. -/
theorem Timing.Accounts.covers {τ : Timing} {times : List Rat} (h : τ.Accounts times)
    (hsorted : times.Pairwise (· ≤ ·)) :
    τ.observed + τ.unavailable + (discardedSteps times).sum = τ.last - τ.first := by
  rw [h.balance, h.last, h.first hsorted]
  refine (Timeline.sum_filter_steps (fun d => decide (d ≤ maxStep)) hsorted).trans ?_
  by_cases hne : times = []
  · simp [hne]
  · rw [Timeline.sum_steps hne, List.getLast?_eq_some_getLast hne, List.head?_eq_some_head hne]
    rfl

theorem summarizeTracker_day (τ : Timing) (hobserved : 0 ≤ τ.observed)
    (hunavailable : 0 ≤ τ.unavailable) (hcounted : 0 < τ.observed + τ.unavailable) :
    ∃ observed unavailable : Rat,
      (summarizeTracker exact τ.tracker).observedHoursPerDay = .fin observed ∧
      (summarizeTracker exact τ.tracker).unavailableHoursPerDay = .fin unavailable ∧
      0 ≤ observed ∧ 0 ≤ unavailable ∧ observed + unavailable = 24 := by
  refine ⟨24 * (τ.observed / (τ.observed + τ.unavailable)),
    24 * (τ.unavailable / (τ.observed + τ.unavailable)), ?_, ?_, by positivity, by positivity, ?_⟩
  · simp [summarizeTracker, AvailabilityTracker.spanSeconds, Timing.tracker, PyFloat.le,
      not_le.mpr hcounted]
  · simp [summarizeTracker, AvailabilityTracker.spanSeconds, Timing.tracker, PyFloat.le,
      not_le.mpr hcounted]
  · field_simp

/-- Between samples no time is lost or counted twice, but for the jumps of the clock. -/
theorem availability_conserved (calls : List (PyFloat × PyFloat)) :
    ∃ τ : Timing, recordAll calls = τ.tracker ∧
      τ.observed + τ.unavailable = (countedSteps (instants calls)).sum ∧
      0 ≤ τ.observed ∧ 0 ≤ τ.unavailable ∧
      (∀ more, ∃ τ' : Timing, recordAll (calls ++ more) = τ'.tracker ∧
        τ.observed ≤ τ'.observed ∧ τ.unavailable ≤ τ'.unavailable) ∧
      (∀ call, (∀ now, recordedAt call.1 = some now → now ≤ τ.last) →
        ∃ τ' : Timing, recordAll (calls ++ [call]) = τ'.tracker ∧
          τ'.observed = τ.observed ∧ τ'.unavailable = τ.unavailable) ∧
      (instants calls ≠ [] → τ.gaps < τ.samples) ∧
      ((instants calls).Pairwise (· ≤ ·) →
        τ.observed + τ.unavailable + (discardedSteps (instants calls)).sum = τ.last - τ.first) ∧
      (0 < τ.observed + τ.unavailable → ∃ observed unavailable : Rat,
        (summarizeTracker exact τ.tracker).observedHoursPerDay = .fin observed ∧
        (summarizeTracker exact τ.tracker).unavailableHoursPerDay = .fin unavailable ∧
        0 ≤ observed ∧ 0 ≤ unavailable ∧ observed + unavailable = 24) := by
  obtain ⟨τ, hτ, h⟩ := recordAll_accounts calls
  refine ⟨τ, hτ, h.balance, h.observed, h.unavailable, fun more => recordAll_grows calls more hτ,
    ?_, h.gaps.2, h.covers, summarizeTracker_day τ h.observed h.unavailable⟩
  intro call hlater
  obtain ⟨τ', hs, hrecord⟩ := record_sampled τ call.1 call.2
  obtain ⟨hobserved, hunavailable⟩ := hs.grows.2.2 (sampleTime_le h.last_nonneg hlater)
  exact ⟨τ', by rw [recordAll_snoc, hτ, hrecord], hobserved, hunavailable⟩

end OneCompute.Measurement
