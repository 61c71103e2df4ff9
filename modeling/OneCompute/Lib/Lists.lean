import Mathlib.Algebra.BigOperators.Group.List.Basic
import Mathlib.Data.List.DropRight
import Mathlib.Data.List.Perm.Basic

/-!
Lists of which one element is changed, a part is kept, or the order is another.
-/

namespace Lists
variable {α β : Type}

/-! ## One element changed -/

theorem sum_modify {M : Type} [AddCommMonoid M] {xs : List M} {i : Nat} (h : i < xs.length)
    {f : M → M} {d : M} (hf : ∀ x, f x = x + d) : (xs.modify i f).sum = xs.sum + d := by
  induction xs generalizing i with
  | nil => cases h
  | cons x xs ih =>
      cases i with
      | zero => rw [List.modify_zero_cons, List.sum_cons, List.sum_cons, hf, add_right_comm]
      | succ i =>
          rw [List.modify_succ_cons, List.sum_cons, List.sum_cons, ih (Nat.lt_of_succ_lt_succ h),
            add_assoc]

theorem getD_modify (xs : List α) (i j : Nat) (f : α → α) (d : α) (hi : i < xs.length) :
    (xs.modify i f).getD j d = if j = i then f (xs.getD j d) else xs.getD j d := by
  rw [List.getD_eq_getElem?_getD, List.getD_eq_getElem?_getD, List.getElem?_modify]
  by_cases hj : j = i
  · subst hj
    rw [List.getElem?_eq_getElem hi]
    simp
  · rw [if_neg hj]
    have hne : ¬ i = j := fun h => hj h.symm
    cases xs[j]? <;> simp [hne]

theorem forall₂_modify {R : α → β → Prop} {xs : List α} {ys : List β} {f : α → α} {g : β → β}
    (h : List.Forall₂ R xs ys) (hfg : ∀ x y, R x y → R (f x) (g y)) (i : Nat) :
    List.Forall₂ R (xs.modify i f) (ys.modify i g) := by
  induction h generalizing i with
  | nil => simp
  | cons hxy hrest ih =>
      cases i with
      | zero => simpa using ⟨hfg _ _ hxy, hrest⟩
      | succ i => simpa using ⟨hxy, ih i⟩

/-! ## Parts -/

theorem countP_split (p q : α → Bool) (xs : List α) :
    xs.countP p = xs.countP (fun a => q a && p a) + xs.countP fun a => !q a && p a := by
  rw [List.countP_eq_countP_filter_add xs p q, List.countP_filter, List.countP_filter]
  simp only [Bool.and_comm]

theorem filterMap_if (p : α → Bool) (f : α → β) (xs : List α) :
    xs.filterMap (fun x => if p x then some (f x) else none) = (xs.filter p).map f := by
  induction xs with
  | nil => rfl
  | cons x xs ih => cases h : p x <;> simp [h, ih]

/-- Dropping from the end of a longer list leaves at least as much. -/
theorem rdropWhile_append_start (p : α → Bool) (xs ys : List α) :
    xs.rdropWhile p <+: (xs ++ ys).rdropWhile p := by
  induction ys using List.reverseRecOn with
  | nil => simp
  | append_singleton ys y ih =>
      rw [← List.append_assoc, List.rdropWhile_concat]
      split
      · exact ih
      · rw [List.append_assoc]
        exact List.IsPrefix.trans (List.rdropWhile_prefix p xs) (List.prefix_append _ _)

/-! ## Another order -/

/-- A permutation of what a function makes of a list is that of a permutation. -/
theorem exists_perm_of_map {f : α → β} {xs : List β} {ys : List α} (h : xs.Perm (ys.map f)) :
    ∃ zs : List α, zs.Perm ys ∧ xs = zs.map f := by
  have hvalues : List.Forall₂ (fun b a => b = f a) (ys.map f) ys := by
    rw [List.forall₂_map_left_iff, List.forall₂_same]
    exact fun _ _ => rfl
  obtain ⟨zs, hzs, hperm⟩ := List.perm_comp_forall₂ h hvalues
  refine ⟨zs, hperm, ?_⟩
  rw [← List.forall₂_eq_eq_eq, List.forall₂_map_right_iff]
  exact hzs

end Lists
