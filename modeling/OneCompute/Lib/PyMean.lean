import OneCompute.Lib.Mean
import OneCompute.Lib.PyNumber

/-!
Means and peaks of Python floats in exact arithmetic are those of the rationals
they stand for. The maximum and the minimum are numbers unless infinities or a NaN
at the front prevent it.
-/

namespace PyFloat

/-- The rational that a finite float is. -/
def val : PyFloat → Rat
  | .fin q => q
  | _ => 0

@[simp] theorem val_fin (q : Rat) : val (.fin q) = q := rfl

theorem fin_val {x : PyFloat} (h : x.isFinite = true) : x = .fin x.val := by
  cases x with
  | fin q => rfl
  | nan => cases h
  | inf n => cases h

end PyFloat

namespace PyNumber
open PyFloat (val fin_val pyMax pyMin)
open Mean (mean peak)

theorem sum_exact {xs : List PyFloat} (h : ∀ x ∈ xs, x.isFinite = true) :
    exact.sum xs = .fin (xs.map val).sum := by
  have hfold : ∀ a, xs.foldl exact.add (.fin a) = .fin (a + (xs.map val).sum) := by
    induction xs with
    | nil => simp
    | cons x xs ih =>
        intro a
        rw [List.foldl_cons, fin_val (h x List.mem_cons_self), exact_add,
          ih (fun y hy => h y (List.mem_cons_of_mem x hy)), List.map_cons, List.sum_cons,
          PyFloat.val_fin, add_assoc]
  rw [Rounding.sum, hfold 0, zero_add]

/-- Without rounding all of a partial sum is carried. -/
theorem carry_exact (a b : Rat) : exact.carry (.fin a) [.fin b] = ([], .fin (a + b)) := by
  unfold Rounding.carry
  split
  next x y hswap =>
    have hsum : ∃ c d, x = .fin c ∧ y = .fin d ∧ c + d = a + b := by
      split at hswap
      · cases hswap
        exact ⟨b, a, rfl, rfl, add_comm b a⟩
      · cases hswap
        exact ⟨a, b, rfl, rfl, rfl⟩
    obtain ⟨c, d, rfl, rfl, hcd⟩ := hsum
    simp [Rounding.carry, ← hcd]

/-- Without rounding there is one partial sum at most. -/
def exactSum (q : Rat) : Rounding.FSum := { partials := if q = 0 then [] else [.fin q] }

theorem exactSum_add (q a : Rat) :
    Rounding.FSum.add exact (exactSum q) (.fin a) = .ok (exactSum (q + a)) := by
  have hcarry : exact.carry (.fin a) (exactSum q).partials = ([], .fin (q + a)) := by
    by_cases hq : q = 0
    · simp [exactSum, hq, Rounding.carry]
    · simp [exactSum, hq, carry_exact, add_comm]
  unfold Rounding.FSum.add
  rw [hcarry]
  by_cases hzero : q + a = 0
  · simp [exactSum, hzero]
  · simp [exactSum, hzero, PyFloat.isFinite]

theorem exactSum_total (q : Rat) : (exactSum q).total exact = .ok (.fin q) := by
  by_cases hq : q = 0
  · simp [exactSum, hq, Rounding.FSum.total]
  · simp [exactSum, hq, Rounding.FSum.total, Rounding.collapse]

theorem fsum_exact {xs : List PyFloat} (h : ∀ x ∈ xs, x.isFinite = true) :
    exact.fsum xs = .ok (.fin (xs.map val).sum) := by
  have hfold : ∀ q, xs.foldlM (Rounding.FSum.add exact) (exactSum q) =
      .ok (exactSum (q + (xs.map val).sum)) := by
    induction xs with
    | nil =>
        intro q
        rw [List.map_nil, List.sum_nil, add_zero]
        rfl
    | cons x xs ih =>
        intro q
        rw [List.foldlM_cons, fin_val (h x List.mem_cons_self), exactSum_add, List.map_cons,
          List.sum_cons, PyFloat.val_fin, ← add_assoc]
        exact ih (fun y hy => h y (List.mem_cons_of_mem x hy)) _
  have hstart : ({} : Rounding.FSum) = exactSum 0 := rfl
  unfold Rounding.fsum
  rw [hstart, hfold, zero_add]
  exact exactSum_total _

/-- Only summands that are infinite count. -/
theorem infSum_add {R : Rounding} {s s' : Rounding.FSum} {x : PyFloat} (hx : x ≠ .inf true)
    (h : Rounding.FSum.add R s x = .ok s') (hs : s.infSum = .fin 0 ∨ s.infSum = .inf false) :
    s'.infSum = .fin 0 ∨ s'.infSum = .inf false := by
  unfold Rounding.FSum.add at h
  split at h
  split at h
  · cases h
    exact hs
  split at h
  · cases h
    exact hs
  split at h
  · cases h
  next hinfinite =>
    cases h
    cases x with
    | nan => exact hs
    | fin q => exact absurd rfl hinfinite
    | inf n =>
        cases n with
        | true => exact absurd rfl hx
        | false =>
            right
            cases hs with
            | inl hzero => simp [hzero, Rounding.add]
            | inr hinf => simp [hinf, Rounding.add]

/-- Unless infinities of both signs meet, only a carry beyond the floats is an error. -/
theorem fsum_returns {R : Rounding} {xs : List PyFloat} (h : .inf true ∉ xs) :
    (∃ x, R.fsum xs = .ok x) ↔ ∃ s, xs.foldlM (Rounding.FSum.add R) {} = .ok s := by
  have hfold : ∀ {s s' : Rounding.FSum}, (s.infSum = .fin 0 ∨ s.infSum = .inf false) →
      xs.foldlM (Rounding.FSum.add R) s = .ok s' →
      s'.infSum = .fin 0 ∨ s'.infSum = .inf false := by
    induction xs with
    | nil =>
        intro s s' hs hfold
        cases hfold
        exact hs
    | cons x xs ih =>
        intro s s' hs hfold
        rw [List.foldlM_cons] at hfold
        cases hnext : Rounding.FSum.add R s x with
        | error e =>
            rw [hnext] at hfold
            cases hfold
        | ok next =>
            rw [hnext] at hfold
            exact ih (fun hmem => h (List.mem_cons_of_mem x hmem))
              (infSum_add (fun hx => h (hx ▸ List.mem_cons_self)) hnext hs) hfold
  unfold Rounding.fsum
  cases hs : xs.foldlM (Rounding.FSum.add R) {} with
  | error e => exact iff_of_false nofun nofun
  | ok s =>
      refine iff_of_true ?_ ⟨s, rfl⟩
      have hinf : s.infSum ≠ .nan := by
        obtain hzero | hinf := hfold (.inl rfl) hs
        · simp [hzero]
        · simp [hinf]
      change ∃ x, s.total R = .ok x
      unfold Rounding.FSum.total
      rw [if_neg hinf]
      split
      · cases s.partials.reverse with
        | nil => exact ⟨_, rfl⟩
        | cons hi ps => exact ⟨_, rfl⟩
      · exact ⟨_, rfl⟩

theorem fmean_exact {xs : List PyFloat} (h : ∀ x ∈ xs, x.isFinite = true) :
    exact.fmean xs = .ok (.fin (mean (xs.map val))) := by
  unfold Rounding.fmean
  rw [fsum_exact h, mean, List.length_map]
  rfl

theorem maxOf_exact {xs : List PyFloat} (h : ∀ x ∈ xs, x.isFinite = true)
    (hpos : ∀ x ∈ xs, 0 ≤ x.val) : maxOf xs = .fin (peak (xs.map val)) := by
  have hfold : ∀ (ys : List PyFloat) (a : Rat), (∀ y ∈ ys, y.isFinite = true) →
      ys.foldl pyMax (.fin a) = .fin ((ys.map val).foldl max a) := by
    intro ys
    induction ys with
    | nil => intros; rfl
    | cons y ys ih =>
        intro a hy
        rw [List.foldl_cons, fin_val (hy y List.mem_cons_self), pyMax_fin,
          ih _ (fun z hz => hy z (List.mem_cons_of_mem y hz))]
        rfl
  cases xs with
  | nil => rfl
  | cons x xs =>
      have hx := fin_val (h x List.mem_cons_self)
      rw [maxOf, hx, hfold xs _ (fun y hy => h y (List.mem_cons_of_mem x hy)), peak,
        List.map_cons, List.foldl_cons, PyFloat.val_fin,
        max_eq_right (hpos x List.mem_cons_self)]

/-! ## Maxima and minima -/

theorem pyMax_of_le {x y : PyFloat} (hx : x.isFinite = true) (hy : y.isFinite = true)
    (h : x.val ≤ y.val) : pyMax x y = y := by
  rw [fin_val hx, fin_val hy] at h ⊢
  rw [pyMax_fin]
  exact congrArg PyFloat.fin (max_eq_right h)

theorem pyMin_of_le {x y : PyFloat} (hx : x.isFinite = true) (hy : y.isFinite = true)
    (h : x.val ≤ y.val) : pyMin x y = x := by
  rw [fin_val hx, fin_val hy] at h ⊢
  rw [pyMin_fin]
  exact congrArg PyFloat.fin (min_eq_left h)

theorem maxOf_concat {xs : List PyFloat} (hne : xs ≠ []) (x : PyFloat) :
    maxOf (xs ++ [x]) = pyMax (maxOf xs) x := by
  cases xs with
  | nil => exact absurd rfl hne
  | cons x xs => simp [maxOf, List.foldl_append]

theorem foldl_pyMax_isFinite (x : PyFloat) (xs : List PyFloat) :
    (xs.foldl pyMax x).isFinite = true ↔
      x ≠ .nan ∧ .inf false ∉ x :: xs ∧ ∃ y ∈ x :: xs, y.isFinite = true := by
  induction xs generalizing x with
  | nil => cases x <;> simp [PyFloat.isFinite]
  | cons y ys ih =>
      rw [List.foldl_cons, ih]
      cases x with
      | nan => simp [pyMax, PyFloat.lt]
      | inf n =>
          cases y with
          | nan => cases n <;> simp [pyMax, PyFloat.lt, PyFloat.isFinite]
          | inf m => cases n <;> cases m <;> simp [pyMax, PyFloat.lt, PyFloat.isFinite]
          | fin b => cases n <;> simp [pyMax, PyFloat.lt, PyFloat.isFinite]
      | fin a =>
          cases y with
          | nan => simp [pyMax, PyFloat.lt, PyFloat.isFinite]
          | inf m => cases m <;> simp [pyMax, PyFloat.lt, PyFloat.isFinite]
          | fin b =>
              rw [pyMax_fin]
              simp [PyFloat.isFinite]

/-- Nothing is below minus infinity. -/
theorem foldl_pyMin_low (xs : List PyFloat) : xs.foldl pyMin (.inf true) = .inf true := by
  induction xs with
  | nil => rfl
  | cons y ys ih =>
      have hmin : pyMin (.inf true) y = .inf true := by
        cases y with
        | nan => rfl
        | inf n => cases n <;> rfl
        | fin a => rfl
      rw [List.foldl_cons, hmin]
      exact ih

/-- The smallest of some floats and a number: no NaN takes its place. -/
theorem foldl_pyMin_isFinite (xs : List PyFloat) (x : PyFloat) (hx : x.isFinite = true) :
    (xs.foldl pyMin x).isFinite = true ↔ .inf true ∉ xs := by
  induction xs generalizing x with
  | nil => simpa using hx
  | cons y ys ih =>
      cases x with
      | nan => cases hx
      | inf n => cases hx
      | fin a =>
          rw [List.foldl_cons]
          cases y with
          | nan => simpa [pyMin, PyFloat.lt] using ih (.fin a) rfl
          | fin b =>
              rw [pyMin_fin]
              simpa using ih (.fin (min a b)) rfl
          | inf n =>
              cases n with
              | false => simpa [pyMin, PyFloat.lt] using ih (.fin a) rfl
              | true =>
                  have hlow : ys.foldl pyMin (.inf true) = .inf true := foldl_pyMin_low ys
                  simp [pyMin, PyFloat.lt, hlow, PyFloat.isFinite]

end PyNumber
