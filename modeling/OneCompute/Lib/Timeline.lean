import Mathlib.Algebra.BigOperators.Group.List.Basic
import Mathlib.Algebra.Order.Group.Defs

/-!
The steps between the successive instants of a timeline, which may also go back.
-/

namespace Timeline

variable {G : Type} [AddCommGroup G]

def steps (instants : List G) : List G :=
  List.zipWith (fun earlier later => later - earlier) instants instants.tail

@[simp] theorem steps_nil : steps ([] : List G) = [] := rfl

@[simp] theorem steps_singleton (t : G) : steps [t] = [] := rfl

@[simp] theorem steps_cons_cons (s t : G) (rest : List G) :
    steps (s :: t :: rest) = (t - s) :: steps (t :: rest) := rfl

theorem steps_append_singleton {instants : List G} (h : instants ≠ []) (t : G) :
    steps (instants ++ [t]) = steps instants ++ [t - instants.getLast h] := by
  induction instants with
  | nil => exact absurd rfl h
  | cons s rest ih =>
      cases rest with
      | nil => simp
      | cons r rest =>
          have hrest := ih (by simp)
          simp only [List.cons_append] at hrest
          simp [hrest]

/-- The steps add up to the way from the first instant to the last. -/
theorem sum_steps {instants : List G} (h : instants ≠ []) :
    (steps instants).sum = instants.getLast h - instants.head h := by
  induction instants with
  | nil => exact absurd rfl h
  | cons s rest ih =>
      cases rest with
      | nil => simp
      | cons r rest =>
          have hrest := ih (by simp)
          simp only [List.head_cons] at hrest
          simp [hrest]

/-- Steps that never go back add up whichever way those of them that are not zero are
told apart. -/
theorem sum_filter_steps [LinearOrder G] [IsOrderedAddMonoid G] (p : G → Bool) {instants : List G}
    (h : instants.Pairwise (· ≤ ·)) :
    ((steps instants).filter fun d => decide (0 < d) && p d).sum +
        ((steps instants).filter fun d => decide (0 < d) && !p d).sum = (steps instants).sum := by
  induction instants with
  | nil => simp
  | cons s rest ih =>
      cases rest with
      | nil => simp
      | cons r rest =>
          obtain ⟨hs, hrest⟩ := List.pairwise_cons.mp h
          have hstep : 0 ≤ r - s := sub_nonneg.mpr (hs r List.mem_cons_self)
          rw [steps_cons_cons, List.sum_cons, ← ih hrest]
          rcases hstep.eq_or_lt with hzero | hpos
          · simp [← hzero]
          · cases hp : p (r - s) with
            | true => simp [hpos, hp, add_assoc]
            | false => simp [hpos, hp, add_left_comm]

end Timeline
