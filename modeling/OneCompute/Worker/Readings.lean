import OneCompute.Lib.Hull
import OneCompute.Worker.ProfileFile

/-!
What the fields of a usage bucket say, in exact arithmetic: they stay in order whatever
was loaded, and in a bucket that was learned they lie between the readings it has taken
since it was last empty.
-/

namespace OneCompute.Worker
open PyFloat (val fin_val pyMax pyMin)
open PyNumber (exact)
open Measurement
open Hull (Between blend)

/-! ## Order -/

/-- An empty bucket starts its CPU readings afresh, whatever they say. -/
structure BucketStat.Ordered (b : BucketStat) : Prop where
  low : 0 < b.n → Envelope b.cpuMin b.cpuMean
  cpu : Envelope b.cpuMean b.cpuMax
  gpu : Envelope b.gpuMean b.gpuMax
  ram : Envelope b.ramMean b.ramMax
  ac : IsPct b.acMean
  idle : IsPct b.idleMean
  gpuSamples : b.gpuN ≤ b.n
  acSamples : b.acN ≤ b.n
  idleSamples : b.idleN ≤ b.n

theorem rollMin_exact (p s m : Rat) :
    rollMin exact (.fin p) (.fin s) (.fin m) = .fin (min (blend (1 / 50) p m) s) := by
  unfold rollMin blend
  change pyMin (exact.add (.fin p) (exact.mul (.fin (1 / 50)) (exact.sub (.fin m) (.fin p)))) _ = _
  simp only [PyNumber.exact_sub, PyNumber.exact_mul, PyNumber.exact_add, PyNumber.pyMin_fin]
  congr 2
  ring

namespace BucketStat

theorem ordered_new : Ordered {} := by
  have hzero : IsPct (.fin 0) := isPct_fin.mpr ⟨le_rfl, by norm_num⟩
  have henv : Envelope (.fin 0) (.fin 0) := ⟨hzero, hzero, le_rfl⟩
  exact ⟨fun h => absurd h (lt_irrefl 0), henv, henv, henv, hzero, hzero, le_rfl, le_rfl, le_rfl⟩

theorem ordered_loaded {R : PyNumber.Rounding} {raw : Dict} {gpuSupported : Option Bool}
    {b : BucketStat} (h : bucketFromDict R raw gpuSupported = .ok b) : b.Ordered := by
  obtain ⟨hb, hlow⟩ := bucketFromDict_bounded h
  exact ⟨fun _ => ⟨hb.low, hb.cpu.level, hlow⟩, hb.cpu, hb.gpu, hb.ram, hb.ac, hb.idle,
    hb.gpuSamples, hb.acSamples, hb.idleSamples⟩

/-- A trough and its mean stay in order when a sample is folded into both. -/
theorem trough_ordered {low mean s : PyFloat} (h : Envelope low mean) (hs : IsPct s) {n : Nat}
    (hn : n ≠ 0) : Envelope (rollMin exact low s (ewma exact mean s n)) (ewma exact mean s n) := by
  have hmean := ewma_isPct h.top hs n
  rw [fin_val h.level.finite, fin_val h.top.finite, fin_val hs.finite, ewma_exact hn] at *
  generalize low.val = p at *
  generalize mean.val = m at *
  generalize s.val = s at *
  have hle := Hull.blend_trough (w := (1 / 20 : Rat)) (v := 1 / 50) (by norm_num) (by norm_num)
    (by norm_num) (by norm_num) h.ordered s
  have hlow : 0 ≤ blend (1 / 50) p (blend (1 / 20) m s) := by
    have hp := h.level.low
    have hm := hmean.low
    simp only [PyFloat.val_fin] at hp hm
    unfold blend
    linarith
  rw [rollMin_exact]
  refine ⟨isPct_fin.mpr ⟨le_min hlow ?_, ?_⟩, hmean, hle⟩
  · exact hs.low
  · exact (min_le_right _ _).trans hs.high

theorem flagged_samples (m : PyFloat) (flag : Option Bool) {k n : Nat} (h : k ≤ n) :
    (flagged exact m k flag).2 ≤ n + 1 := by
  cases flag with
  | none => exact Nat.le_succ_of_le h
  | some on => exact Nat.succ_le_succ h

theorem ordered_aged {b : BucketStat} (h : b.Ordered) (timestamp : PyFloat) :
    (b.aged exact timestamp).Ordered := by
  unfold aged
  split
  · exact ordered_new
  · exact h

theorem ordered_record {b : BucketStat} (h : b.Ordered) (s : Sample) :
    (b.record exact s).Ordered := by
  have haged := ordered_aged h s.taken.timestamp
  unfold record
  dsimp only
  generalize b.aged exact s.taken.timestamp = b at haged
  have hcpu := envelope_sane haged.cpu (percent_isPct s.cpu) b.n
  have hram := envelope_sane haged.ram (percent_isPct s.ram) b.n
  have hac := flagged_isPct haged.ac b.acN s.onAc
  have hidle := flagged_isPct haged.idle b.idleN s.idle
  have hacSamples := flagged_samples b.acMean s.onAc haged.acSamples
  have hidleSamples := flagged_samples b.idleMean s.idle haged.idleSamples
  have hlow : Envelope
      (if b.n = 0 then percent s.cpu
        else rollMin exact b.cpuMin (percent s.cpu) (envelope exact b.cpuMean b.cpuMax (percent s.cpu) b.n).1)
      (envelope exact b.cpuMean b.cpuMax (percent s.cpu) b.n).1 := by
    by_cases hn : b.n = 0
    · rw [if_pos hn, envelope, ewma, if_pos hn]
      exact ⟨percent_isPct s.cpu, percent_isPct s.cpu, le_rfl⟩
    · rw [if_neg hn]
      exact trough_ordered (haged.low (Nat.pos_of_ne_zero hn)) (percent_isPct s.cpu) hn
  cases hs : s.gpu with
  | none =>
      exact ⟨fun _ => hlow, hcpu, haged.gpu, hram, hac, hidle, Nat.le_succ_of_le haged.gpuSamples,
        hacSamples, hidleSamples⟩
  | some gpu =>
      have hgpu := envelope_sane haged.gpu (percent_isPct gpu) b.gpuN
      exact ⟨fun _ => hlow, hcpu, hgpu, hram, hac, hidle, Nat.succ_le_succ haged.gpuSamples,
        hacSamples, hidleSamples⟩

end BucketStat

/-! ## Readings -/

/-- The clamped reading of a sensor. -/
def reading (x : PyFloat) : Rat := (percent x).val

def flagReading (on : Bool) : Rat := if on then 100 else 0

/-- The samples of each quantity; a GPU and the flags may not be read. -/
def cpuReadings (samples : List Sample) : List Rat := samples.map fun s => reading s.cpu

def ramReadings (samples : List Sample) : List Rat := samples.map fun s => reading s.ram

def gpuReadings (samples : List Sample) : List Rat := samples.filterMap fun s => s.gpu.map reading

def acReadings (samples : List Sample) : List Rat := samples.filterMap fun s => s.onAc.map flagReading

def idleReadings (samples : List Sample) : List Rat :=
  samples.filterMap fun s => s.idle.map flagReading

/-- The bucket has been left alone for so long that the next sample empties it. -/
def BucketStat.Stale (b : BucketStat) (timestamp : PyFloat) : Prop :=
  0 < b.n ∧ PyFloat.lt (.fin (35 * 86400)) (exact.sub timestamp b.updatedAt) = true

instance (b : BucketStat) (timestamp : PyFloat) : Decidable (b.Stale timestamp) :=
  inferInstanceAs (Decidable (_ ∧ _))

/-- A bucket with the samples it has taken since it was created or last emptied. -/
def recordSince (kept : BucketStat × List Sample) (s : Sample) : BucketStat × List Sample :=
  (kept.1.record exact s,
    if kept.1.Stale s.taken.timestamp then [s] else kept.2 ++ [s])

/-- A float that lies between the readings. -/
def Told (readings : List Rat) (x : PyFloat) : Prop := ∃ q, x = .fin q ∧ Between readings q

/-- Every mean and extreme lies between the readings of its quantity. -/
structure BucketStat.Tells (since : List Sample) (b : BucketStat) : Prop where
  samples : b.n = since.length
  gpuSamples : b.gpuN = (gpuReadings since).length
  acSamples : b.acN = (acReadings since).length
  idleSamples : b.idleN = (idleReadings since).length
  cpu : cpuReadings since ≠ [] → Told (cpuReadings since) b.cpuMin ∧
    Told (cpuReadings since) b.cpuMean ∧ Told (cpuReadings since) b.cpuMax
  gpu : gpuReadings since ≠ [] →
    Told (gpuReadings since) b.gpuMean ∧ Told (gpuReadings since) b.gpuMax
  ram : ramReadings since ≠ [] →
    Told (ramReadings since) b.ramMean ∧ Told (ramReadings since) b.ramMax
  ac : acReadings since ≠ [] → Told (acReadings since) b.acMean
  idle : idleReadings since ≠ [] → Told (idleReadings since) b.idleMean

section Told
variable {readings : List Rat} {m p : PyFloat} {s : Rat}

theorem told_sample : Told (readings ++ [s]) (.fin s) :=
  ⟨s, rfl, Hull.between_of_mem (List.mem_append_right _ List.mem_cons_self)⟩

theorem Told.earlier (h : Told readings m) (s : Rat) : Told (readings ++ [s]) m := by
  obtain ⟨q, hq, hb⟩ := h
  exact ⟨q, hq, hb.mono (List.subset_append_left _ _)⟩

theorem told_ewma (h : readings ≠ [] → Told readings m) :
    Told (readings ++ [s]) (ewma exact m (.fin s) readings.length) := by
  by_cases hne : readings = []
  · subst hne
    exact told_sample
  · obtain ⟨q, rfl, hq⟩ := (h hne).earlier s
    obtain ⟨_, ⟨⟩, hs⟩ : Told (readings ++ [s]) (.fin s) := told_sample
    rw [ewma_exact (by simpa using hne)]
    exact ⟨_, rfl, hq.blend (by norm_num) (by norm_num) hs⟩

theorem told_rollMax (hp : Told readings p) (hm : Told readings m) (hs : Told readings (.fin s)) :
    Told readings (rollMax exact p (.fin s) m) := by
  obtain ⟨q, rfl, hq⟩ := hp
  obtain ⟨r, rfl, hr⟩ := hm
  obtain ⟨_, ⟨⟩, hs⟩ := hs
  have hblend : q - 1 / 50 * (q - r) = blend (1 / 50) q r := by
    unfold blend
    ring
  rw [rollMax_exact, hblend]
  exact ⟨_, rfl, (hq.blend (by norm_num) (by norm_num) hr).max hs⟩

theorem told_rollMin (hp : Told readings p) (hm : Told readings m) (hs : Told readings (.fin s)) :
    Told readings (rollMin exact p (.fin s) m) := by
  obtain ⟨q, rfl, hq⟩ := hp
  obtain ⟨r, rfl, hr⟩ := hm
  obtain ⟨_, ⟨⟩, hs⟩ := hs
  rw [rollMin_exact]
  exact ⟨_, rfl, (hq.blend (by norm_num) (by norm_num) hr).min hs⟩

theorem told_envelope (h : readings ≠ [] → Told readings m ∧ Told readings p) :
    Told (readings ++ [s]) (envelope exact m p (.fin s) readings.length).1 ∧
      Told (readings ++ [s]) (envelope exact m p (.fin s) readings.length).2 := by
  have hmean := told_ewma (s := s) fun hne => (h hne).1
  refine ⟨hmean, ?_⟩
  by_cases hne : readings = []
  · subst hne
    exact told_sample
  · simp only [envelope, List.length_eq_zero_iff, hne, if_false]
    exact told_rollMax ((h hne).2.earlier s) hmean told_sample

end Told

theorem percent_reading (x : PyFloat) : percent x = .fin (reading x) :=
  fin_val (percent_isPct x).finite

namespace BucketStat

theorem tells_new : Tells [] {} := by
  constructor <;> simp [cpuReadings, gpuReadings, ramReadings, acReadings, idleReadings]

theorem told_flagged {readings : List Rat} {m : PyFloat} (h : readings ≠ [] → Told readings m)
    (flag : Option Bool) {more : List Rat} (hmore : more = readings ++ (flag.map flagReading).toList) :
    (flagged exact m readings.length flag).2 = more.length ∧
      (more ≠ [] → Told more (flagged exact m readings.length flag).1) := by
  subst hmore
  cases flag with
  | none => simpa [flagged] using h
  | some on =>
      refine ⟨by simp [flagged], fun _ => ?_⟩
      have hflag : (.fin (if on then 100 else 0) : PyFloat) = .fin (flagReading on) := rfl
      simp only [flagged, Option.map_some, Option.toList_some]
      rw [hflag]
      exact told_ewma h

/-- The sample is added to the readings of a bucket, once a stale bucket is emptied. -/
theorem tells_record {since : List Sample} {b : BucketStat} {s : Sample}
    (h : (b.aged exact s.taken.timestamp).Tells since) : (b.record exact s).Tells (since ++ [s]) := by
  unfold record
  dsimp only
  generalize b.aged exact s.taken.timestamp = b at h
  have hcpuLength : (cpuReadings since).length = b.n := by simp [cpuReadings, h.samples]
  have hramLength : (ramReadings since).length = b.n := by simp [ramReadings, h.samples]
  have hcpuReadings : cpuReadings (since ++ [s]) = cpuReadings since ++ [reading s.cpu] := by
    simp [cpuReadings]
  have hramReadings : ramReadings (since ++ [s]) = ramReadings since ++ [reading s.ram] := by
    simp [ramReadings]
  have hgpuReadings : gpuReadings (since ++ [s]) =
      gpuReadings since ++ (s.gpu.map reading).toList := by
    cases hs : s.gpu <;> simp [gpuReadings, hs]
  have hacReadings : acReadings (since ++ [s]) =
      acReadings since ++ (s.onAc.map flagReading).toList := by
    cases hs : s.onAc <;> simp [acReadings, hs]
  have hidleReadings : idleReadings (since ++ [s]) =
      idleReadings since ++ (s.idle.map flagReading).toList := by
    cases hs : s.idle <;> simp [idleReadings, hs]
  have hcpu := told_envelope (s := reading s.cpu) fun hne => (h.cpu hne).2
  have hram := told_envelope (s := reading s.ram) h.ram
  have hac := told_flagged h.ac s.onAc hacReadings
  have hidle := told_flagged h.idle s.idle hidleReadings
  rw [← hcpuReadings, hcpuLength] at hcpu
  rw [← hramReadings, hramLength] at hram
  rw [← h.acSamples] at hac
  rw [← h.idleSamples] at hidle
  have hlow : Told (cpuReadings (since ++ [s]))
      (if b.n = 0 then .fin (reading s.cpu)
        else rollMin exact b.cpuMin (.fin (reading s.cpu))
          (envelope exact b.cpuMean b.cpuMax (.fin (reading s.cpu)) b.n).1) := by
    have hsample : Told (cpuReadings (since ++ [s])) (.fin (reading s.cpu)) := by
      rw [hcpuReadings]
      exact told_sample
    by_cases hn : b.n = 0
    · rwa [if_pos hn]
    · have hne : cpuReadings since ≠ [] := by
        rw [← List.length_pos_iff]
        omega
      rw [if_neg hn]
      refine told_rollMin ?_ hcpu.1 hsample
      rw [hcpuReadings]
      exact (h.cpu hne).1.earlier _
  simp only [percent_reading]
  cases hs : s.gpu with
  | none =>
      have hsame : gpuReadings (since ++ [s]) = gpuReadings since := by simp [hgpuReadings, hs]
      exact ⟨by simp [h.samples], by simp [hsame, h.gpuSamples], hac.1, hidle.1,
        fun _ => ⟨hlow, hcpu⟩, by simpa [hsame] using h.gpu, fun _ => hram, hac.2, hidle.2⟩
  | some gpu =>
      have hmore : gpuReadings (since ++ [s]) = gpuReadings since ++ [reading gpu] := by
        simp [hgpuReadings, hs]
      have hgpu := told_envelope (s := reading gpu) h.gpu
      rw [← hmore, ← h.gpuSamples] at hgpu
      exact ⟨by simp [h.samples], by simp [hmore, h.gpuSamples], hac.1, hidle.1,
        fun _ => ⟨hlow, hcpu⟩, fun _ => hgpu, fun _ => hram, hac.2, hidle.2⟩

theorem aged_of_stale {b : BucketStat} {timestamp : PyFloat} (h : b.Stale timestamp) :
    b.aged exact timestamp = {} := if_pos h

theorem aged_of_not_stale {b : BucketStat} {timestamp : PyFloat} (h : ¬ b.Stale timestamp) :
    b.aged exact timestamp = b := if_neg h

theorem tells_recordSince {kept : BucketStat × List Sample} (h : kept.1.Tells kept.2)
    (s : Sample) : (recordSince kept s).1.Tells (recordSince kept s).2 := by
  unfold recordSince
  dsimp only
  by_cases hstale : kept.1.Stale s.taken.timestamp
  · have hnew : (kept.1.aged exact s.taken.timestamp).Tells [] := by
      rw [aged_of_stale hstale]
      exact tells_new
    rw [if_pos hstale]
    exact tells_record hnew
  · rw [if_neg hstale]
    refine tells_record ?_
    rwa [aged_of_not_stale hstale]

/-- The bucket after samples, the first of them first. -/
def recordAll (b : BucketStat) (samples : List Sample) : BucketStat :=
  samples.foldl (BucketStat.record exact) b

@[simp] theorem recordAll_nil (b : BucketStat) : b.recordAll [] = b := rfl

@[simp] theorem recordAll_snoc (b : BucketStat) (samples : List Sample) (s : Sample) :
    b.recordAll (samples ++ [s]) = (b.recordAll samples).record exact s := by
  simp [recordAll]

/-- The samples that an empty bucket has taken since it was created or last emptied. -/
def since (samples : List Sample) : List Sample := (samples.foldl recordSince ({}, [])).2

theorem recordAll_since (samples : List Sample) :
    samples.foldl recordSince ({}, []) = (recordAll {} samples, since samples) := by
  refine Prod.ext ?_ rfl
  induction samples using List.reverseRecOn with
  | nil => rfl
  | append_singleton samples s ih => simp [recordSince, ih]

theorem recordAll_tells (samples : List Sample) : (recordAll {} samples).Tells (since samples) := by
  induction samples using List.reverseRecOn with
  | nil => exact tells_new
  | append_singleton samples s ih =>
      have hstep : (recordSince (recordAll {} samples, since samples) s).1.Tells
          (recordSince (recordAll {} samples, since samples) s).2 := tells_recordSince ih s
      have hfold : (samples ++ [s]).foldl recordSince ({}, []) =
          recordSince (recordAll {} samples, since samples) s := by
        rw [List.foldl_append, recordAll_since]
        rfl
      rwa [← hfold, recordAll_since] at hstep

theorem recordAll_ordered {b : BucketStat} (h : b.Ordered) (samples : List Sample) :
    (b.recordAll samples).Ordered := by
  induction samples using List.reverseRecOn with
  | nil => exact h
  | append_singleton samples s ih =>
      rw [recordAll_snoc]
      exact ordered_record ih s

theorem record_pos (b : BucketStat) (s : Sample) : 0 < (b.record exact s).n := Nat.succ_pos _

end BucketStat

/-- After every sample the fields of a bucket are in order, and those of a bucket that was
learned lie between the readings it has taken since it was last empty. -/
theorem bucket_invariants (R : PyNumber.Rounding) (start : BucketStat)
    (hstart : start = {} ∨ ∃ raw gpuSupported, bucketFromDict R raw gpuSupported = .ok start)
    (samples : List Sample) (hne : samples ≠ []) :
    let b := start.recordAll samples
    Envelope b.cpuMin b.cpuMean ∧ Envelope b.cpuMean b.cpuMax ∧ Envelope b.gpuMean b.gpuMax ∧
      Envelope b.ramMean b.ramMax ∧ b.gpuN ≤ b.n ∧ b.acN ≤ b.n ∧ b.idleN ≤ b.n ∧
      (start = {} → b.Tells (BucketStat.since samples)) := by
  have hordered : start.Ordered := by
    rcases hstart with rfl | ⟨raw, gpuSupported, hload⟩
    · exact BucketStat.ordered_new
    · exact BucketStat.ordered_loaded hload
  have h := BucketStat.recordAll_ordered hordered samples
  have hpos : 0 < (start.recordAll samples).n := by
    obtain ⟨earlier, last, rfl⟩ := (List.eq_nil_or_concat' samples).resolve_left hne
    rw [BucketStat.recordAll_snoc]
    exact BucketStat.record_pos _ last
  refine ⟨h.low hpos, h.cpu, h.gpu, h.ram, h.gpuSamples, h.acSamples, h.idleSamples, ?_⟩
  rintro rfl
  exact BucketStat.recordAll_tells samples

/-- A reading of `cpu` and `gpu` at a time, on mains. -/
def mainsReading (cpu : Rat) (gpu : Option Rat) (seconds : Rat) : Sample :=
  { cpu := .fin cpu, gpu := gpu.map .fin, ram := .fin 20, taken := ⟨0, 0, .fin seconds⟩, onAc := some true }

/-- The first reading is older than 35 days when the others are taken. -/
def agedReadings : List Sample :=
  [mainsReading 90 none 1, mainsReading 30 (some 10) 4000000, mainsReading 50 none 4000300,
    mainsReading 40 (some 20) 4000600]

theorem bucket_invariants_aged :
    (BucketStat.recordAll {} agedReadings).Tells
      [mainsReading 30 (some 10) 4000000, mainsReading 50 none 4000300, mainsReading 40 (some 20) 4000600] ∧
    Envelope (BucketStat.recordAll {} agedReadings).cpuMean
      (BucketStat.recordAll {} agedReadings).cpuMax := by
  have hsince : BucketStat.since agedReadings =
      [mainsReading 30 (some 10) 4000000, mainsReading 50 none 4000300, mainsReading 40 (some 20) 4000600] := by
    decide +kernel
  obtain ⟨-, hcpu, -, -, -, -, -, htells⟩ :=
    bucket_invariants exact {} (.inl rfl) agedReadings (by decide)
  exact ⟨hsince ▸ htells rfl, hcpu⟩

end OneCompute.Worker
