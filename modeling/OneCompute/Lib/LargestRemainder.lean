import Mathlib.Algebra.BigOperators.Group.List.Basic
import Mathlib.Algebra.Order.BigOperators.Group.List
import Mathlib.Algebra.Order.Round
import Mathlib.Data.List.Nodup
import Mathlib.Data.Rat.Floor
import Mathlib.Tactic.Linarith

/-!
The method of the largest remainder. Every share is rounded down, and the `k` units
that are left over go to the first `k` by remainder, one to each. `k` is the sum of
the remainders, so it is less than the number of those that have one.
-/

namespace LargestRemainder
variable {ι : Type} {share : ι → ℚ} {order : List ι} {k : ℕ}

/-- What `i` gets. -/
def seats [DecidableEq ι] (share : ι → ℚ) (order : List ι) (k : ℕ) (i : ι) : ℤ :=
  ⌊share i⌋ + if i ∈ order.take k then 1 else 0

/-- The largest remainders come first, and together they make up the leftover. -/
structure Ranked (share : ι → ℚ) (order : List ι) (k : ℕ) : Prop where
  sorted : order.Pairwise fun i j => Int.fract (share j) ≤ Int.fract (share i)
  leftover : (order.map fun i => Int.fract (share i)).sum = k

theorem sum_fract_lt (share : ι → ℚ) {xs : List ι} (hne : xs ≠ []) :
    (xs.map fun i => Int.fract (share i)).sum < xs.length := by
  induction xs with
  | nil => exact absurd rfl hne
  | cons i xs ih =>
      have hi := Int.fract_lt_one (share i)
      rw [List.map_cons, List.sum_cons, List.length_cons]
      push_cast
      by_cases hxs : xs = []
      · subst hxs
        simpa using hi
      · have := ih hxs
        linarith

/-- What rounding down leaves over is the sum of the remainders. -/
theorem leftover_eq (share : ι → ℚ) (xs : List ι) :
    (xs.map share).sum - ((xs.map fun i => ⌊share i⌋).sum : ℤ) =
      (xs.map fun i => Int.fract (share i)).sum := by
  induction xs with
  | nil => simp
  | cons i xs ih =>
      simp only [List.map_cons, List.sum_cons]
      rw [← ih, Int.fract]
      push_cast
      ring

namespace Ranked

theorem le_length (h : Ranked share order k) : k ≤ order.length := by
  by_cases hne : order = []
  · have hzero := h.leftover
    rw [hne] at hzero
    simp only [List.map_nil, List.sum_nil] at hzero
    have : k = 0 := by exact_mod_cast hzero.symm
    omega
  · have hlt := sum_fract_lt share hne
    rw [h.leftover] at hlt
    have : k < order.length := by exact_mod_cast hlt
    omega

/-- Nobody outside the first `k` has a larger remainder than one inside. -/
theorem fract_le (h : Ranked share order k) {i j : ι} (hi : i ∈ order.take k)
    (hj : j ∈ order) (hout : j ∉ order.take k) : Int.fract (share j) ≤ Int.fract (share i) := by
  have hsorted := h.sorted
  rw [← List.take_append_drop k order] at hsorted hj
  rcases List.mem_append.mp hj with hin | hdrop
  · exact absurd hin hout
  · exact (List.pairwise_append.mp hsorted).2.2 i hi j hdrop

/-- The leftover reaches only those that have a remainder: the others inside the first
`k` have less than one each. -/
theorem fract_pos (h : Ranked share order k) {i : ι} (hi : i ∈ order.take k) :
    0 < Int.fract (share i) := by
  by_contra hzero
  have hsum := h.leftover
  rw [← List.take_append_drop k order, List.map_append, List.sum_append] at hsum
  have hdrop : ((order.drop k).map fun j => Int.fract (share j)).sum ≤ 0 := by
    have hsorted := h.sorted
    rw [← List.take_append_drop k order] at hsorted
    have hle : ∀ x ∈ (order.drop k).map fun j => Int.fract (share j), x ≤ 0 := by
      intro x hx
      obtain ⟨j, hj, rfl⟩ := List.mem_map.mp hx
      have := (List.pairwise_append.mp hsorted).2.2 i hi j hj
      linarith
    have hsum := List.sum_le_card_nsmul _ _ hle
    rwa [nsmul_zero] at hsum
  have htake := sum_fract_lt share (List.ne_nil_of_mem hi)
  rw [List.length_take, min_eq_left h.le_length] at htake
  linarith

/-- Together they get what the shares add up to. -/
theorem sum_seats [DecidableEq ι] (h : Ranked share order k) (hnodup : order.Nodup) :
    (order.map (seats share order k)).sum = (order.map fun i => ⌊share i⌋).sum + k := by
  have hadd : ∀ xs : List ι, (xs.map (seats share order k)).sum =
      (xs.map fun i => ⌊share i⌋).sum + (xs.countP (· ∈ order.take k) : ℤ) := by
    intro xs
    induction xs with
    | nil => rfl
    | cons i xs ih =>
        rw [List.map_cons, List.sum_cons, ih, List.map_cons, List.sum_cons, List.countP_cons]
        unfold seats
        by_cases hi : i ∈ order.take k
        · simp only [hi, if_true, decide_true]
          push_cast
          ring
        · simp only [hi, if_false, decide_false]
          push_cast
          ring
  have htake : (order.take k).countP (· ∈ order.take k) = k := by
    rw [List.countP_eq_length.mpr (by simp), List.length_take, min_eq_left h.le_length]
  have hdrop : (order.drop k).countP (· ∈ order.take k) = 0 := by
    rw [List.countP_eq_zero]
    intro i hi hin
    rw [← List.take_append_drop k order] at hnodup
    exact List.disjoint_of_nodup_append hnodup (by simpa using hin) hi
  have hcount : order.countP (· ∈ order.take k) = k := by
    calc order.countP (· ∈ order.take k)
        = (order.take k ++ order.drop k).countP (· ∈ order.take k) := by
          rw [List.take_append_drop]
      _ = k := by rw [List.countP_append, htake, hdrop, Nat.add_zero]
  rw [hadd, hcount]

theorem seats_floor_or_ceil [DecidableEq ι] (h : Ranked share order k) (i : ι) :
    seats share order k i = ⌊share i⌋ ∨ seats share order k i = ⌈share i⌉ := by
  unfold seats
  split
  next hi =>
    right
    have hpos := h.fract_pos hi
    have hceil : ⌈share i⌉ = ⌊share i⌋ + 1 := by
      rw [Int.ceil_eq_iff]
      have hlt := Int.lt_floor_add_one (share i)
      have hsplit := Int.floor_add_fract (share i)
      push_cast
      constructor <;> linarith
    rw [hceil]
  next =>
    left
    omega

/-- A larger share never gets less. -/
theorem seats_mono [DecidableEq ι] (h : Ranked share order k) {i j : ι} (hj : j ∈ order)
    (hlt : share i < share j) : seats share order k i ≤ seats share order k j := by
  have hfloor : ⌊share i⌋ ≤ ⌊share j⌋ := Int.floor_le_floor hlt.le
  unfold seats
  by_cases hi : i ∈ order.take k
  · by_cases hin : j ∈ order.take k
    · rw [if_pos hi, if_pos hin]
      omega
    · rw [if_pos hi, if_neg hin]
      -- with equal floors the larger share has the larger remainder
      have hle := h.fract_le hi hj hin
      have hne : ⌊share i⌋ ≠ ⌊share j⌋ := by
        intro heq
        have hi' := Int.floor_add_fract (share i)
        have hj' := Int.floor_add_fract (share j)
        rw [heq] at hi'
        linarith
      omega
  · rw [if_neg hi]
    split <;> omega

end Ranked
end LargestRemainder
