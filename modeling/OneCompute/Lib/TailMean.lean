import Mathlib.Algebra.BigOperators.Group.List.Basic
import Mathlib.Algebra.Order.Field.Basic
import Mathlib.Algebra.Ring.Nat
import Mathlib.Data.Nat.Cast.Order.Basic
import Mathlib.Tactic.Linarith
import Mathlib.Tactic.Positivity
import Mathlib.Tactic.Ring

/-!
The lower tail of a distribution over the natural numbers: sums over its first bins, and
the mean of a rising value over them.
-/

namespace TailMean
variable {K : Type} [Field K] [LinearOrder K] [IsStrictOrderedRing K] {h v : Nat → K} {m n : Nat}

/-- `f 0 + … + f (n - 1)` -/
def firstSum (f : Nat → K) (n : Nat) : K := ((List.range n).map f).sum

omit [LinearOrder K] [IsStrictOrderedRing K] in
@[simp] theorem firstSum_zero (f : Nat → K) : firstSum f 0 = 0 := rfl

omit [LinearOrder K] [IsStrictOrderedRing K] in
theorem firstSum_succ (f : Nat → K) (n : Nat) : firstSum f (n + 1) = firstSum f n + f n := by
  simp [firstSum, List.range_succ]

theorem firstSum_mono (hpos : ∀ i, 0 ≤ h i) : Monotone (firstSum h) :=
  monotone_nat_of_le_succ fun n => by
    rw [firstSum_succ]
    exact le_add_of_nonneg_right (hpos n)

theorem firstSum_nonneg (hpos : ∀ i, 0 ≤ h i) (n : Nat) : 0 ≤ firstSum h n :=
  firstSum_mono hpos (Nat.zero_le n)

/-- The mean of `v` over the first bins, each with its weight in `h`. -/
def mean (h v : Nat → K) (n : Nat) : K := firstSum (fun i => h i * v i) n / firstSum h n

theorem moment_le (hpos : ∀ i, 0 ≤ h i) (hv : Monotone v) (n : Nat) :
    firstSum (fun i => h i * v i) (n + 1) ≤ v n * firstSum h (n + 1) := by
  induction n with
  | zero => simp [firstSum_succ, mul_comm]
  | succ n ih =>
      have hstep := mul_le_mul_of_nonneg_right (hv (Nat.le_succ n)) (firstSum_nonneg hpos (n + 1))
      rw [firstSum_succ (fun i => h i * v i), firstSum_succ h (n + 1)]
      linarith

theorem le_moment (hpos : ∀ i, 0 ≤ h i) (hv : Monotone v) (n : Nat) :
    v 0 * firstSum h n ≤ firstSum (fun i => h i * v i) n := by
  induction n with
  | zero => simp
  | succ n ih =>
      have hstep := mul_le_mul_of_nonneg_right (hv (Nat.zero_le n)) (hpos n)
      rw [firstSum_succ (fun i => h i * v i), firstSum_succ h]
      linarith

theorem mean_le (hpos : ∀ i, 0 ≤ h i) (hv : Monotone v) (hsome : 0 < firstSum h (n + 1)) :
    mean h v (n + 1) ≤ v n := by
  rw [mean, div_le_iff₀ hsome]
  exact moment_le hpos hv n

theorem le_mean (hpos : ∀ i, 0 ≤ h i) (hv : Monotone v) (hsome : 0 < firstSum h n) :
    v 0 ≤ mean h v n := by
  rw [mean, le_div_iff₀ hsome]
  exact le_moment hpos hv n

theorem mean_step (hpos : ∀ i, 0 ≤ h i) (hv : Monotone v) (hsome : 0 < firstSum h (n + 1)) :
    mean h v (n + 1) ≤ mean h v (n + 2) := by
  have hnext : 0 < firstSum h (n + 2) := hsome.trans_le (firstSum_mono hpos (Nat.le_succ _))
  have hle := (moment_le hpos hv n).trans
    (mul_le_mul_of_nonneg_right (hv (Nat.le_succ n)) hsome.le)
  have hgain := mul_le_mul_of_nonneg_left hle (hpos (n + 1))
  rw [mean, mean, div_le_div_iff₀ hsome hnext, firstSum_succ (fun i => h i * v i) (n + 1),
    firstSum_succ h (n + 1)]
  linarith

/-- A longer tail has the larger mean. -/
theorem mean_mono (hpos : ∀ i, 0 ≤ h i) (hv : Monotone v) (hmn : m ≤ n)
    (hsome : 0 < firstSum h (m + 1)) : mean h v (m + 1) ≤ mean h v (n + 1) := by
  induction n, hmn using Nat.le_induction with
  | base => exact le_rfl
  | succ n hmn ih =>
      exact ih.trans (mean_step hpos hv (hsome.trans_le (firstSum_mono hpos (Nat.succ_le_succ hmn))))

/-- The mean of the tail, and the value of its last bin where the tail is empty. -/
def meanOr (h v : Nat → K) (n : Nat) : K := if firstSum h (n + 1) = 0 then v n else mean h v (n + 1)

theorem meanOr_le (hpos : ∀ i, 0 ≤ h i) (hv : Monotone v) (n : Nat) : meanOr h v n ≤ v n := by
  unfold meanOr
  split
  · exact le_rfl
  next hsome => exact mean_le hpos hv (lt_of_le_of_ne (firstSum_nonneg hpos _) (Ne.symm hsome))

/-- Where an empty tail is the shortest one, a longer tail has the larger mean. -/
theorem meanOr_mono (hpos : ∀ i, 0 ≤ h i) (hv : Monotone v) (hmn : m ≤ n)
    (hempty : firstSum h (m + 1) = 0 → m = 0) : meanOr h v m ≤ meanOr h v n := by
  unfold meanOr
  by_cases hm : firstSum h (m + 1) = 0
  · obtain rfl := hempty hm
    rw [if_pos hm]
    split
    · exact hv hmn
    next hn => exact le_mean hpos hv (lt_of_le_of_ne (firstSum_nonneg hpos _) (Ne.symm hn))
  · have hsome : 0 < firstSum h (m + 1) := lt_of_le_of_ne (firstSum_nonneg hpos _) (Ne.symm hm)
    have hlonger : 0 < firstSum h (n + 1) := hsome.trans_le (firstSum_mono hpos (Nat.succ_le_succ hmn))
    rw [if_neg hm, if_neg hlonger.ne']
    exact mean_mono hpos hv hmn hsome

end TailMean
