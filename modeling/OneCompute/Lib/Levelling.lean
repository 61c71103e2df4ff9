import Mathlib.Algebra.Order.BigOperators.Group.List
import Mathlib.Algebra.Order.Group.Int
import Mathlib.Algebra.Order.Group.Nat
import Mathlib.Order.Defs.LinearOrder
import Mathlib.Algebra.Ring.Int.Defs
import Mathlib.Algebra.Ring.Nat

/-!
Taking units one at a time from piles, always from the tallest one and of several
tallest from the first. The units that are gone are the first ones in the order from
the top down and, at one height, from the first pile to the last. So whether a unit is
gone is a matter of how many lie ahead of it.
-/

namespace Levelling
variable {ι : Type} [LinearOrder ι] {piles : List ι} {c e : ι → ℤ}

/-- No unit above the first is left that would have gone before one that is gone. -/
def Levelled (piles : List ι) (c e : ι → ℤ) : Prop :=
  ∀ i ∈ piles, ∀ j ∈ piles, ∀ h g, e i < h → h ≤ c i → 2 ≤ g → g ≤ e j → g < h ∨ g = h ∧ i < j

/-- How many units go before the one of pile `i` at height `h`. -/
def ahead (piles : List ι) (c : ι → ℤ) (h : ℤ) (i : ι) : ℕ :=
  (piles.map fun j => (c j - h).toNat + if j < i ∧ h ≤ c j then 1 else 0).sum

/-- How many units are gone. -/
def taken (piles : List ι) (c e : ι → ℤ) : ℕ := (piles.map fun j => (c j - e j).toNat).sum

theorem Levelled.refl (piles : List ι) (c : ι → ℤ) : Levelled piles c c := by
  intro i _ _ _ h _ hgone hle _ _
  omega

/-- The next unit goes from the tallest pile; piles of height one may appear. -/
theorem Levelled.take (h : Levelled piles c e) {m : ι} (hm : m ∈ piles)
    (htall : ∀ j ∈ piles, e j < e m ∨ e j = e m ∧ m ≤ j) {e' : ι → ℤ} (hpile : e' m = e m - 1)
    (hrest : ∀ j ∈ piles, j ≠ m → e' j = e j ∨ e' j ≤ 1 ∧ c j ≤ e' j) :
    Levelled piles c e' := by
  intro i hi j hj height g hgone hle hg hleft
  have hj' : g ≤ e j := by
    by_cases hjm : j = m
    · subst hjm
      omega
    · rcases hrest j hj hjm with hsame | ⟨hlow, -⟩
      · omega
      · omega
  by_cases him : i = m
  · subst him
    by_cases hold : e i < height
    · exact h i hi j hj height g hold hle hg hj'
    · -- the unit that has just gone was the first of all that were left
      have htop : height = e i := by omega
      rcases htall j hj with hlt | ⟨heq, hle'⟩
      · omega
      · by_cases hij : i = j
        · subst hij
          omega
        · rcases hle'.lt_or_eq with hlt | heq'
          · by_cases hgh : g = height
            · exact .inr ⟨hgh, hlt⟩
            · omega
          · exact absurd heq' hij
  · rcases hrest i hi him with hsame | ⟨-, hnone⟩
    · exact h i hi j hj height g (by omega) hle hg hj'
    · omega

/-- A unit is gone exactly when fewer units lie ahead of it than are gone. -/
theorem Levelled.gone_iff (h : Levelled piles c e) (hfloor : ∀ j ∈ piles, 1 ≤ e j) {i : ι}
    (hi : i ∈ piles) {height : ℤ} (htwo : 2 ≤ height) (hle : height ≤ c i) :
    e i < height ↔ ahead piles c height i < taken piles c e := by
  constructor
  · intro hgone
    apply List.sum_lt_sum
    · intro j hj
      have hfj := hfloor j hj
      have hbefore : 2 ≤ e j → e j < height ∨ e j = height ∧ i < j :=
        fun hej => h i hi j hj height (e j) hgone hle hej le_rfl
      split
      next hji =>
        by_cases hej : 2 ≤ e j
        · rcases hbefore hej with hlt | ⟨-, hij⟩
          · omega
          · exact absurd hij (lt_asymm hji.1)
        · omega
      next => by_cases hej : 2 ≤ e j <;> omega
    · refine ⟨i, hi, ?_⟩
      rw [if_neg (fun hii => lt_irrefl i hii.1)]
      omega
  · intro hlt
    by_contra hleft
    apply Nat.not_lt.mpr _ hlt
    apply List.sum_le_sum
    intro j hj
    by_cases hgone : e j < c j
    · rcases h j hj i hi (e j + 1) height (by omega) (by omega) htwo (by omega) with hlt | ⟨heq, hji⟩
      · omega
      · rw [if_pos ⟨hji, by omega⟩]
        omega
    · omega

end Levelling
