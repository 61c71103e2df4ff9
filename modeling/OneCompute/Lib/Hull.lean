import Mathlib.Algebra.Order.Field.Basic
import Mathlib.Tactic.Linarith
import Mathlib.Tactic.Ring

/-!
What lies between the smallest and the largest of some readings, and the averages that
stay there.
-/

namespace Hull

/-- Some reading is at most `x`, and some is at least `x`. -/
def Between {α : Type} [LE α] (readings : List α) (x : α) : Prop :=
  ∃ low ∈ readings, ∃ high ∈ readings, low ≤ x ∧ x ≤ high

section Order
variable {α : Type} [LinearOrder α] {readings more : List α} {x y z : α}

theorem between_of_mem (h : x ∈ readings) : Between readings x :=
  ⟨x, h, x, h, le_rfl, le_rfl⟩

theorem Between.mono (h : Between readings x) (hsub : readings ⊆ more) : Between more x := by
  obtain ⟨low, hlow, high, hhigh, hle, hge⟩ := h
  exact ⟨low, hsub hlow, high, hsub hhigh, hle, hge⟩

theorem Between.of_le (hx : Between readings x) (hz : Between readings z) (hxy : x ≤ y)
    (hyz : y ≤ z) : Between readings y := by
  obtain ⟨low, hlow, -, -, hle, -⟩ := hx
  obtain ⟨-, -, high, hhigh, -, hge⟩ := hz
  exact ⟨low, hlow, high, hhigh, hle.trans hxy, hyz.trans hge⟩

theorem Between.max (hx : Between readings x) (hy : Between readings y) :
    Between readings (max x y) := by
  rcases le_total x y with h | h
  · rwa [max_eq_right h]
  · rwa [max_eq_left h]

theorem Between.min (hx : Between readings x) (hy : Between readings y) :
    Between readings (min x y) := by
  rcases le_total x y with h | h
  · rwa [min_eq_left h]
  · rwa [min_eq_right h]

end Order

/-- The weighted average of two values. -/
def blend {K : Type} [Field K] (w x y : K) : K := (1 - w) * x + w * y

theorem blend_comm {K : Type} [Field K] (w x y : K) : blend w x y = blend (1 - w) y x := by
  unfold blend
  ring

section Field
variable {K : Type} [Field K] [LinearOrder K] [IsStrictOrderedRing K] {w x y : K}

theorem blend_mem (hw : 0 ≤ w) (hw1 : w ≤ 1) (h : x ≤ y) : x ≤ blend w x y ∧ blend w x y ≤ y := by
  have hd : 0 ≤ y - x := sub_nonneg.mpr h
  have hlow := mul_nonneg hw hd
  have hhigh := mul_nonneg (sub_nonneg.mpr hw1) hd
  unfold blend
  constructor <;> linarith

theorem Between.blend {readings : List K} (hw : 0 ≤ w) (hw1 : w ≤ 1) (hx : Between readings x)
    (hy : Between readings y) : Between readings (blend w x y) := by
  rcases le_total x y with h | h
  · obtain ⟨hlow, hhigh⟩ := blend_mem hw hw1 h
    exact hx.of_le hy hlow hhigh
  · obtain ⟨hlow, hhigh⟩ := blend_mem (sub_nonneg.mpr hw1) (sub_le_self 1 hw) h
    rw [blend_comm]
    exact hy.of_le hx hlow hhigh

/-- A trough that is relaxed towards the new mean, or lowered to the sample, stays below
that mean. -/
theorem blend_trough {mean trough v : K} (hw : 0 ≤ w) (hw1 : w ≤ 1) (hv : 0 ≤ v) (hv1 : v ≤ 1)
    (h : trough ≤ mean) (sample : K) :
    min (blend v trough (blend w mean sample)) sample ≤ blend w mean sample := by
  rcases le_total sample mean with hs | hs
  · obtain ⟨hlow, -⟩ := blend_mem (sub_nonneg.mpr hw1) (sub_le_self 1 hw) hs
    rw [← blend_comm] at hlow
    exact (min_le_right _ _).trans hlow
  · obtain ⟨hlow, -⟩ := blend_mem hw hw1 hs
    exact (min_le_left _ _).trans (blend_mem hv hv1 (h.trans hlow)).2

end Field

end Hull
