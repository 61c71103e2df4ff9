import Mathlib.Data.List.Basic
import Mathlib.Algebra.Order.Group.Int
import Mathlib.Algebra.Ring.Int.Defs

/-!
Consecutive half-open ranges of integers. Ranges laid end to end cover what
their sizes add up to, once each and in order.
-/

namespace Spans

/-- `range(a, b)`. -/
def range (a b : Int) : List Int := (List.range (b - a).toNat).map fun (i : Nat) => a + i

/-- The ranges of the given sizes, from `start` on. -/
def spans : Int → List Int → List (Int × Int)
  | _, [] => []
  | start, size :: sizes => (start, start + size) :: spans (start + size) sizes

@[simp] theorem mem_range {a b i : Int} : i ∈ range a b ↔ a ≤ i ∧ i < b := by
  simp only [range, List.mem_map, List.mem_range]
  constructor
  · rintro ⟨n, hn, rfl⟩
    omega
  · intro h
    exact ⟨(i - a).toNat, by omega, by omega⟩

@[simp] theorem length_range (a b : Int) : (range a b).length = (b - a).toNat := by
  simp [range]

theorem range_nil {a b : Int} (h : b ≤ a) : range a b = [] := by
  simp [range, Int.toNat_of_nonpos (by omega : b - a ≤ 0)]

/-- The element after `before` is that many steps from the start. -/
theorem range_split {a b i : Int} {before rest : List Int} (h : before ++ i :: rest = range a b) :
    i = a + before.length := by
  have hget := congrArg (fun xs => xs[before.length]?) h
  simp only [List.getElem?_append_right (Nat.le_refl _), Nat.sub_self, List.getElem?_cons_zero,
    range, List.getElem?_map] at hget
  obtain ⟨k, hk, hi⟩ := Option.map_eq_some_iff.mp hget.symm
  have hk' : k = before.length := by
    rw [List.getElem?_range (by
      by_contra hlt
      rw [List.getElem?_eq_none (by simpa using hlt)] at hk
      cases hk)] at hk
    exact (Option.some.inj hk).symm
  rw [← hi, hk']

theorem range_append {a b c : Int} (hab : a ≤ b) (hbc : b ≤ c) :
    range a b ++ range b c = range a c := by
  have hlen : (c - a).toNat = (b - a).toNat + (c - b).toNat := by omega
  have hshift : ∀ i ∈ List.range (c - b).toNat,
      b + (i : Int) = a + (((b - a).toNat + i : Nat) : Int) := by
    intro i _
    omega
  unfold range
  rw [hlen, List.range_add, List.map_append, List.map_map, List.map_congr_left hshift]
  rfl

/-- Nothing follows in order but what comes later. -/
theorem range_pairwise (a b : Int) : (range a b).Pairwise (· < ·) := by
  unfold range
  rw [List.pairwise_map]
  exact List.pairwise_lt_range.imp (by intro i j hij; omega)

theorem le_sum {sizes : List Int} (h : ∀ s ∈ sizes, 0 ≤ s) : 0 ≤ sizes.sum := by
  induction sizes with
  | nil => simp
  | cons s sizes ih =>
      have hs := h s List.mem_cons_self
      have hrest := ih fun t ht => h t (List.mem_cons_of_mem _ ht)
      rw [List.sum_cons]
      omega

theorem spans_flatMap {start : Int} {sizes : List Int} (h : ∀ s ∈ sizes, 0 ≤ s) :
    (spans start sizes).flatMap (fun r => range r.1 r.2) = range start (start + sizes.sum) := by
  induction sizes generalizing start with
  | nil => simp [spans, range]
  | cons s sizes ih =>
      have hs := h s List.mem_cons_self
      have hrest : ∀ t ∈ sizes, 0 ≤ t := fun t ht => h t (List.mem_cons_of_mem _ ht)
      have hsum := le_sum hrest
      simp only [spans, List.flatMap_cons, ih hrest]
      rw [range_append (by omega) (by omega), List.sum_cons, Int.add_assoc]

/-- One after the other, from `a` to `b`. -/
def Consecutive : Int → Int → List (Int × Int) → Prop
  | a, b, [] => a = b
  | a, b, r :: rs => r.1 = a ∧ r.1 ≤ r.2 ∧ Consecutive r.2 b rs

theorem spans_consecutive {start : Int} {sizes : List Int} (h : ∀ s ∈ sizes, 0 ≤ s) :
    Consecutive start (start + sizes.sum) (spans start sizes) := by
  induction sizes generalizing start with
  | nil => exact (Int.add_zero start).symm
  | cons s sizes ih =>
      have hs := h s List.mem_cons_self
      have hrest := @ih (start + s) fun t ht => h t (List.mem_cons_of_mem _ ht)
      rw [Int.add_assoc, ← List.sum_cons] at hrest
      exact ⟨rfl, Int.le_add_of_nonneg_right hs, hrest⟩

theorem spans_getElem? (start : Int) (sizes : List Int) (i : Nat) :
    (spans start sizes)[i]?.map (fun r => r.2 - r.1) = sizes[i]? := by
  induction sizes generalizing start i with
  | nil => rfl
  | cons s sizes ih =>
      cases i with
      | zero => simp [spans]
      | succ i => exact ih (start + s) i

theorem spans_length (start : Int) (sizes : List Int) : (spans start sizes).length = sizes.length := by
  induction sizes generalizing start with
  | nil => rfl
  | cons s sizes ih => exact congrArg (· + 1) (ih (start + s))

theorem spans_shift (a b : Int) (sizes : List Int) :
    spans (a + b) sizes = (spans b sizes).map fun r => (a + r.1, a + r.2) := by
  induction sizes generalizing b with
  | nil => rfl
  | cons s sizes ih => rw [spans, spans, List.map_cons, Int.add_assoc, ih]

/-! ## Without the empty ranges -/

def nonempty (rs : List (Int × Int)) : List (Int × Int) := rs.filter (fun r => r.1 < r.2)

theorem nonempty_flatMap (rs : List (Int × Int)) :
    (nonempty rs).flatMap (fun r => range r.1 r.2) = rs.flatMap (fun r => range r.1 r.2) := by
  induction rs with
  | nil => rfl
  | cons r rs ih =>
      unfold nonempty at ih ⊢
      by_cases hr : r.1 < r.2
      · rw [List.filter_cons_of_pos (by simpa using hr), List.flatMap_cons, List.flatMap_cons, ih]
      · rw [List.filter_cons_of_neg (by simpa using hr), List.flatMap_cons,
          range_nil (by omega), List.nil_append, ih]

theorem spans_bound {start : Int} {sizes : List Int} (h : ∀ s ∈ sizes, 0 ≤ s) :
    ∀ r ∈ spans start sizes, start ≤ r.1 := by
  induction sizes generalizing start with
  | nil => simp [spans]
  | cons s sizes ih =>
      intro r hr
      have hs := h s List.mem_cons_self
      rcases List.mem_cons.mp hr with rfl | hr
      · exact Int.le_refl _
      · have := ih (fun t ht => h t (List.mem_cons_of_mem _ ht)) r hr
        omega

/-- The ranges that are left begin at different places, in order. -/
theorem nonempty_pairwise {start : Int} {sizes : List Int} (h : ∀ s ∈ sizes, 0 ≤ s) :
    (nonempty (spans start sizes)).Pairwise (fun r r' => r.1 < r'.1) := by
  induction sizes generalizing start with
  | nil => exact List.Pairwise.nil
  | cons s sizes ih =>
      have hrest : ∀ t ∈ sizes, 0 ≤ t := fun t ht => h t (List.mem_cons_of_mem _ ht)
      unfold nonempty at ih ⊢
      rw [spans, List.filter_cons]
      split
      next hpos =>
        have hpos : start < start + s := by simpa using hpos
        refine List.pairwise_cons.mpr ⟨?_, ih hrest⟩
        intro r hr
        have := spans_bound hrest r (List.mem_filter.mp hr).1
        exact Int.lt_of_lt_of_le hpos this
      next => exact ih hrest

end Spans
