import OneCompute.Measurement.DeviceSummary
import OneCompute.Worker.Profiler

/-!
What holds of a profile however it was learned, in exact arithmetic: percentages
stay percentages, means stay below their peaks, and a bucket without a GPU sample
has GPU readings of zero.
-/

namespace OneCompute.Worker
open PyFloat (val fin_val pyMax pyMin)
open PyNumber (exact)
open Measurement

/-! ## Readings -/

theorem percent_isPct (x : PyFloat) : IsPct (percent x) := clamp_isPct _

theorem ewma_exact {m s : Rat} {n : Nat} (hn : n ≠ 0) :
    ewma exact (.fin m) (.fin s) n = .fin ((1 - 1 / 20) * m + 1 / 20 * s) := by
  unfold ewma
  rw [if_neg hn]
  change exact.add (exact.mul (exact.sub (.fin 1) (.fin (1 / 20))) (.fin m)) _ = _
  rw [PyNumber.exact_sub]
  rfl

theorem rollMax_exact (p s m : Rat) :
    rollMax exact (.fin p) (.fin s) (.fin m) = .fin (max (p - 1 / 50 * (p - m)) s) := by
  unfold rollMax
  change pyMax (exact.sub (.fin p) (exact.mul (.fin (1 / 50)) (exact.sub (.fin p) (.fin m)))) _ = _
  rw [PyNumber.exact_sub, PyNumber.exact_mul, PyNumber.exact_sub, PyNumber.pyMax_fin]

theorem ewma_isPct {m s : PyFloat} (hm : IsPct m) (hs : IsPct s) (n : Nat) :
    IsPct (ewma exact m s n) := by
  by_cases hn : n = 0
  · rw [ewma, if_pos hn]
    exact hs
  · rw [fin_val hm.finite, fin_val hs.finite, ewma_exact hn, isPct_fin]
    constructor
    · linarith [hm.low, hs.low]
    · linarith [hm.high, hs.high]

/-- A mean and its peak stay in order when a sample is folded into both. -/
theorem envelope_sane {m p s : PyFloat} (h : Envelope m p) (hs : IsPct s) (n : Nat) :
    Envelope (envelope exact m p s n).1 (envelope exact m p s n).2 := by
  have hmean := ewma_isPct h.level hs n
  by_cases hn : n = 0
  · simp only [envelope, ewma, if_pos hn]
    exact ⟨hs, hs, le_rfl⟩
  · simp only [envelope, if_neg hn]
    rw [fin_val h.level.finite, fin_val h.top.finite, fin_val hs.finite, ewma_exact hn] at *
    rw [rollMax_exact]
    have hlow := h.level.low
    have htop := h.top.high
    have hord := h.ordered
    have hs0 := hs.low
    have hs1 := hs.high
    simp only [PyFloat.val_fin] at hlow htop hord hs0 hs1
    refine ⟨hmean, isPct_fin.mpr ⟨?_, ?_⟩, ?_⟩
    · exact hs0.trans (le_max_right _ _)
    · exact max_le (by linarith) hs1
    · rw [PyFloat.val_fin, PyFloat.val_fin, le_max_iff]
      by_cases hle : m.val ≤ s.val
      · right
        linarith
      · left
        linarith

/-! ## Buckets -/

/-- What `record` keeps true of a bucket. -/
structure BucketStat.Learned (b : BucketStat) : Prop where
  cpu : Envelope b.cpuMean b.cpuMax
  gpu : Envelope b.gpuMean b.gpuMax
  ram : Envelope b.ramMean b.ramMax
  ac : IsPct b.acMean
  idle : IsPct b.idleMean
  sampled : b.gpuN ≤ b.n
  unsampled : b.gpuN = 0 → b.gpuMean = .fin 0 ∧ b.gpuMax = .fin 0

namespace BucketStat

theorem learned_new : Learned {} := by
  have hzero : IsPct (.fin 0) := isPct_fin.mpr ⟨le_rfl, by norm_num⟩
  have henv : Envelope (.fin 0) (.fin 0) := ⟨hzero, hzero, le_rfl⟩
  exact ⟨henv, henv, henv, hzero, hzero, le_rfl, fun _ => ⟨rfl, rfl⟩⟩

theorem flagged_isPct {m : PyFloat} (h : IsPct m) (n : Nat) (flag : Option Bool) :
    IsPct (flagged exact m n flag).1 := by
  cases flag with
  | none => exact h
  | some on =>
      apply ewma_isPct h
      cases on
      · exact isPct_fin.mpr ⟨le_rfl, by norm_num⟩
      · exact isPct_fin.mpr ⟨by norm_num, le_rfl⟩

theorem learned_record {b : BucketStat} (h : b.Learned) (s : Sample) :
    (b.record exact s).Learned := by
  have haged : (b.aged exact s.taken.timestamp).Learned := by
    unfold aged
    split
    · exact learned_new
    · exact h
  unfold record
  dsimp only
  generalize b.aged exact s.taken.timestamp = b at haged
  have hcpu := envelope_sane haged.cpu (percent_isPct s.cpu) b.n
  have hram := envelope_sane haged.ram (percent_isPct s.ram) b.n
  have hac := flagged_isPct haged.ac b.acN s.onAc
  have hidle := flagged_isPct haged.idle b.idleN s.idle
  cases hs : s.gpu with
  | none =>
      exact ⟨hcpu, haged.gpu, hram, hac, hidle, Nat.le_succ_of_le haged.sampled, haged.unsampled⟩
  | some gpu =>
      have hgpu := envelope_sane haged.gpu (percent_isPct gpu) b.gpuN
      refine ⟨hcpu, hgpu, hram, hac, hidle, Nat.succ_le_succ haged.sampled, ?_⟩
      intro h0
      exact absurd h0 (Nat.succ_ne_zero _)

end BucketStat

/-! ## Timing -/

/-- What `record` keeps true of the observer's timing. -/
structure TimingLearned (t : AvailabilityTracker) : Prop where
  sane : t.Sane
  last : t.lastSampleAt.isFinite = true

theorem nonnegativeFinite_fin {x d : PyFloat} (hd : d.isFinite = true) :
    ∃ q, nonnegativeFinite x d = .fin q := by
  cases x with
  | fin q => exact ⟨max 0 q, PyNumber.pyMax_fin 0 q⟩
  | nan => exact ⟨d.val, fin_val hd⟩
  | inf n => exact ⟨d.val, fin_val hd⟩

theorem timingLearned_record {t : AvailabilityTracker} (h : TimingLearned t)
    (sampledAt interval : PyFloat) : TimingLearned (t.record exact sampledAt interval) := by
  obtain ⟨now, hnow⟩ := nonnegativeFinite_fin (x := sampledAt) (d := .fin 0) rfl
  obtain ⟨e, he⟩ := nonnegativeFinite_fin (x := interval) (d := defaultExpectedIntervalSeconds) rfl
  have hexpected : pyMax (exact.ofRat (1 / 1000)) (.fin e) = .fin (max (1 / 1000) e) :=
    PyNumber.pyMax_fin _ _
  have hpos : (0 : Rat) < max (1 / 1000) e := lt_max_of_lt_left (by norm_num)
  have hlast := fin_val h.last
  have ho := fin_val h.sane.observed.1
  have hu := fin_val h.sane.unavailable.1
  unfold AvailabilityTracker.record
  dsimp only
  rw [hnow, he, hexpected]
  generalize max (1 / 1000) e = expected at hpos
  split
  · exact h
  · split
    · exact ⟨⟨h.sane.observed, h.sane.unavailable⟩, rfl⟩
    · rw [hlast, PyNumber.exact_sub]
      generalize now - t.lastSampleAt.val = elapsed
      split
      · exact ⟨⟨h.sane.observed, h.sane.unavailable⟩, rfl⟩
      · split
        · exact ⟨⟨h.sane.observed, h.sane.unavailable⟩, rfl⟩
        next hback =>
          have helapsed : 0 ≤ elapsed := by simpa [PyFloat.lt] using hback
          have hsum : ∀ {x : PyFloat} {d : Rat}, x.isFinite = true ∧ 0 ≤ x.val → 0 ≤ d →
              (exact.add x (.fin d)).isFinite = true ∧ 0 ≤ (exact.add x (.fin d)).val := by
            intro x d hx hd
            rw [fin_val hx.1]
            exact ⟨rfl, add_nonneg hx.2 hd⟩
          split
          · exact ⟨⟨h.sane.observed, h.sane.unavailable⟩, rfl⟩
          · split
            · rw [PyNumber.pyMin_fin, PyNumber.exact_sub]
              have hrest : 0 ≤ elapsed - min elapsed expected := by
                linarith [min_le_left elapsed expected]
              exact ⟨⟨hsum h.sane.observed (le_min helapsed hpos.le),
                hsum h.sane.unavailable hrest⟩, rfl⟩
            · exact ⟨⟨hsum h.sane.observed helapsed, h.sane.unavailable⟩, rfl⟩

/-! ## Profiles -/

/-- What the worker records: a sample, or that a sample was taken. -/
inductive Observation where
  | sample (s : Sample)
  | availability (sampledAt expected : PyFloat)

def UsageProfiler.observe (p : UsageProfiler) : Observation → UsageProfiler
  | .sample s => p.record exact s
  | .availability sampledAt expected => p.recordAvailability exact sampledAt expected

/-- The profile learned from nothing by a sequence of observations. -/
def learn (observations : List Observation) : UsageProfiler :=
  observations.foldl UsageProfiler.observe {}

structure UsageProfiler.Learned (p : UsageProfiler) : Prop where
  buckets : ∀ b ∈ p.buckets, b.Learned
  week : p.buckets.length = bucketsPerWeek
  availability : TimingLearned p.availability

theorem learned_observe {p : UsageProfiler} (h : p.Learned) (o : Observation) :
    (p.observe o).Learned := by
  cases o with
  | sample s =>
      refine ⟨?_, ?_, h.availability⟩
      · intro b hb
        obtain ⟨i, hi, rfl⟩ := List.mem_iff_getElem.mp hb
        have hp : i < p.buckets.length := by simpa [UsageProfiler.observe, UsageProfiler.record] using hi
        have hmem := h.buckets _ (List.getElem_mem hp)
        simp only [UsageProfiler.observe, UsageProfiler.record, List.getElem_modify]
        split
        · exact BucketStat.learned_record hmem s
        · exact hmem
      · rw [← h.week]
        exact List.length_modify _ _ _
  | availability sampledAt expected =>
      exact ⟨h.buckets, h.week, timingLearned_record h.availability sampledAt expected⟩

theorem learn_learned (observations : List Observation) : (learn observations).Learned := by
  have hstart : UsageProfiler.Learned {} := by
    refine ⟨?_, List.length_replicate, ⟨⟨⟨rfl, le_rfl⟩, ⟨rfl, le_rfl⟩⟩, rfl⟩⟩
    intro b hb
    rw [List.eq_of_mem_replicate hb]
    exact BucketStat.learned_new
  have hfold : ∀ p : UsageProfiler, p.Learned →
      (observations.foldl UsageProfiler.observe p).Learned := by
    induction observations with
    | nil => exact fun p hp => hp
    | cons o rest ih => exact fun p hp => ih _ (learned_observe hp o)
  exact hfold _ hstart

end OneCompute.Worker
