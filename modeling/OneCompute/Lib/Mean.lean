import Mathlib.Algebra.BigOperators.Ring.List
import Mathlib.Algebra.Order.BigOperators.Group.List
import Mathlib.Algebra.Order.Field.Basic
import Mathlib.Algebra.Order.Ring.Rat
import Mathlib.Tactic.Linarith
import Mathlib.Tactic.Positivity
import Mathlib.Tactic.Ring

/-!
The mean and the peak of a list of rationals. They do not depend on its order. A mean
that leaves out zeros is larger than one that does not, unless there was nothing to
leave out or everything is zero.
-/

namespace Mean
variable {α : Type}

/-- The mean of a list; nothing has mean zero. -/
def mean (xs : List ℚ) : ℚ := xs.sum / xs.length

/-- The largest value of a list, at least zero. -/
def peak (xs : List ℚ) : ℚ := xs.foldl max 0

@[simp] theorem mean_nil : mean [] = 0 := by simp [mean]

@[simp] theorem peak_nil : peak [] = 0 := rfl

theorem mean_perm {xs ys : List ℚ} (h : xs.Perm ys) : mean xs = mean ys := by
  unfold mean
  rw [h.sum_eq, h.length_eq]

theorem peak_perm {xs ys : List ℚ} (h : xs.Perm ys) : peak xs = peak ys :=
  h.foldl_eq' (fun x _ y _ z => by rw [max_right_comm]) 0

theorem mean_mul (f : α → ℚ) (c : ℚ) (xs : List α) :
    mean (xs.map fun x => f x * c) = mean (xs.map f) * c := by
  unfold mean
  rw [List.sum_map_mul_right, List.length_map, List.length_map, div_mul_eq_mul_div]

/-- The mean lies between bounds of its values. -/
theorem mean_mem {xs : List ℚ} (hne : xs ≠ []) {a b : ℚ} (h : ∀ x ∈ xs, a ≤ x ∧ x ≤ b) :
    a ≤ mean xs ∧ mean xs ≤ b := by
  have hlen : (0 : ℚ) < xs.length := by exact_mod_cast List.length_pos_iff.mpr hne
  have hlow := List.card_nsmul_le_sum xs a (fun x hx => (h x hx).1)
  have hhigh := List.sum_le_card_nsmul xs b (fun x hx => (h x hx).2)
  rw [nsmul_eq_mul] at hlow hhigh
  unfold mean
  rw [le_div_iff₀ hlen, div_le_iff₀ hlen]
  exact ⟨by linarith, by linarith⟩

theorem le_foldl_max (xs : List ℚ) (a : ℚ) : a ≤ xs.foldl max a := by
  induction xs generalizing a with
  | nil => exact le_refl a
  | cons x xs ih => exact (le_max_left a x).trans (ih _)

theorem foldl_max_le {xs : List ℚ} {a b : ℚ} (ha : a ≤ b) (h : ∀ x ∈ xs, x ≤ b) :
    xs.foldl max a ≤ b := by
  induction xs generalizing a with
  | nil => exact ha
  | cons x xs ih =>
      exact ih (max_le ha (h x List.mem_cons_self)) (fun y hy => h y (List.mem_cons_of_mem x hy))

theorem le_peak {xs : List ℚ} {x : ℚ} (hx : x ∈ xs) : x ≤ peak xs := by
  obtain ⟨before, after, rfl⟩ := List.append_of_mem hx
  unfold peak
  rw [List.foldl_append, List.foldl_cons]
  exact (le_max_right _ x).trans (le_foldl_max after _)

theorem peak_mem {xs : List ℚ} {b : ℚ} (hb : 0 ≤ b) (h : ∀ x ∈ xs, x ≤ b) :
    0 ≤ peak xs ∧ peak xs ≤ b :=
  ⟨le_foldl_max xs 0, foldl_max_le hb h⟩

/-- A mean of values none of which is above the other list's is not above its mean. -/
theorem mean_le {f g : α → ℚ} {xs : List α} (h : ∀ x ∈ xs, f x ≤ g x) :
    mean (xs.map f) ≤ mean (xs.map g) := by
  unfold mean
  rw [List.length_map, List.length_map]
  exact div_le_div_of_nonneg_right (List.sum_le_sum h) (Nat.cast_nonneg _)

/-- If then the means are equal, so are the values. -/
theorem eq_of_mean_eq {f g : α → ℚ} {xs : List α} (h : ∀ x ∈ xs, f x ≤ g x)
    (heq : mean (xs.map f) = mean (xs.map g)) : ∀ x ∈ xs, f x = g x := by
  intro x hx
  by_contra hne
  have hsum := List.sum_lt_sum f g h ⟨x, hx, lt_of_le_of_ne (h x hx) hne⟩
  have hlen : (0 : ℚ) < xs.length := by exact_mod_cast List.length_pos_of_mem hx
  unfold mean at heq
  rw [List.length_map, List.length_map, div_left_inj' hlen.ne'] at heq
  exact absurd heq hsum.ne

section Filter
variable {p : α → Bool} {f : α → ℚ} {xs : List α}

theorem sum_filter (h : ∀ x ∈ xs, p x = false → f x = 0) :
    ((xs.filter p).map f).sum = (xs.map f).sum := by
  induction xs with
  | nil => rfl
  | cons x xs ih =>
      have hrest := ih (fun y hy => h y (List.mem_cons_of_mem x hy))
      cases hx : p x with
      | true => simp [hx, hrest]
      | false => simp [hx, hrest, h x List.mem_cons_self hx]

theorem mean_le_filter (h : ∀ x ∈ xs, p x = false → f x = 0) (hf : ∀ x ∈ xs, 0 ≤ f x) :
    mean (xs.map f) ≤ mean ((xs.filter p).map f) := by
  have hsum : 0 ≤ (xs.map f).sum := List.sum_nonneg (by simpa using hf)
  unfold mean
  rw [sum_filter h, List.length_map, List.length_map]
  rcases List.eq_nil_or_concat (xs.filter p) with hnil | ⟨ys, y, hys⟩
  · have hzero := sum_filter h
    rw [hnil] at hzero
    rw [← hzero]
    simp
  · have hpos : (0 : ℚ) < (xs.filter p).length := by
      rw [hys]
      simp
      positivity
    have hlen : ((xs.filter p).length : ℚ) ≤ xs.length := by exact_mod_cast List.length_filter_le p xs
    exact div_le_div_of_nonneg_left hsum hpos hlen

/-- When leaving out zeros leaves the mean alone. -/
theorem mean_filter_eq (h : ∀ x ∈ xs, p x = false → f x = 0) (hf : ∀ x ∈ xs, 0 ≤ f x)
    (hne : xs.filter p ≠ []) :
    mean (xs.map f) = mean ((xs.filter p).map f) ↔
      (∀ x ∈ xs, p x = true) ∨ ∀ x ∈ xs, f x = 0 := by
  have hpos : (0 : ℚ) < (xs.filter p).length := by exact_mod_cast List.length_pos_iff.mpr hne
  have hall : (0 : ℚ) < xs.length :=
    hpos.trans_le (by exact_mod_cast List.length_filter_le p xs)
  unfold mean
  rw [sum_filter h, List.length_map, List.length_map]
  constructor
  · intro heq
    rw [div_eq_div_iff hall.ne' hpos.ne', mul_eq_mul_left_iff] at heq
    rcases heq with hlen | hzero
    · left
      rw [← List.filter_eq_self]
      exact (List.filter_sublist).eq_of_length (by exact_mod_cast hlen)
    · right
      intro x hx
      by_contra hx0
      have hlt := List.sum_lt_sum (fun _ => 0) f hf ⟨x, hx, lt_of_le_of_ne (hf x hx) (Ne.symm hx0)⟩
      simp [hzero] at hlt
  · rintro (hp | hzero)
    · rw [List.filter_eq_self.mpr hp]
    · have hsum : (xs.map f).sum = 0 := List.sum_eq_zero (by simpa using hzero)
      rw [hsum, zero_div, zero_div]

/-- Leaving out zeros leaves the peak alone. -/
theorem peak_filter (h : ∀ x ∈ xs, p x = false → f x = 0) :
    peak ((xs.filter p).map f) = peak (xs.map f) := by
  apply le_antisymm
  · apply foldl_max_le (le_foldl_max _ _)
    intro q hq
    obtain ⟨x, hx, rfl⟩ := List.mem_map.mp hq
    exact le_peak (List.mem_map_of_mem (List.mem_of_mem_filter hx))
  · apply foldl_max_le (le_foldl_max _ _)
    intro q hq
    obtain ⟨x, hx, rfl⟩ := List.mem_map.mp hq
    cases hp : p x with
    | true => exact le_peak (List.mem_map_of_mem (List.mem_filter.mpr ⟨hx, hp⟩))
    | false =>
        rw [h x hx hp]
        exact le_foldl_max _ _

theorem mean_const {c : ℚ} (hne : xs ≠ []) (h : ∀ x ∈ xs, f x = c) : mean (xs.map f) = c := by
  have hall : ∀ q ∈ xs.map f, c ≤ q ∧ q ≤ c := by
    intro q hq
    obtain ⟨x, hx, rfl⟩ := List.mem_map.mp hq
    exact ⟨(h x hx).ge, (h x hx).le⟩
  have hmem := mean_mem (by simpa using hne) hall
  exact le_antisymm hmem.2 hmem.1

end Filter
end Mean
