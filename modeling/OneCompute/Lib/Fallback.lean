import Mathlib.Data.List.Basic

/-!
A chain of stages that are tried in order until one has an answer. A stage may
have done work even when it passes on to the next.
-/

namespace Fallback
variable {ι α : Type}

structure Stage (ι α : Type) where
  name : ι
  /-- Whether the stage has started to do the work. -/
  ran : Bool
  /-- The answer; without one the next stage is tried. -/
  answer : Option α

/-- The stages that are tried, and the first answer. -/
def run : List (Stage ι α) → List (Stage ι α) × Option α
  | [] => ([], none)
  | s :: rest =>
      match s.answer with
      | some a => ([s], some a)
      | none => (s :: (run rest).1, (run rest).2)

/-- The work is done at most once, and a stage is given up only before it does any. -/
def Once (tried : List (Stage ι α)) : Prop := ∀ s ∈ tried.dropLast, s.ran = false

/-- A stage that passes on to another has done no work. -/
def Clean : List (Stage ι α) → Prop
  | [] => True
  | s :: rest => s.answer = none → (rest ≠ [] → s.ran = false) ∧ Clean rest

theorem run_ne_nil {stages : List (Stage ι α)} (h : stages ≠ []) : (run stages).1 ≠ [] := by
  cases stages with
  | nil => exact absurd rfl h
  | cons s rest =>
      unfold run
      split <;> exact List.cons_ne_nil _ _

theorem once_run_iff (stages : List (Stage ι α)) : Once (run stages).1 ↔ Clean stages := by
  induction stages with
  | nil => simp [Once, Clean, run]
  | cons s rest ih =>
      cases ha : s.answer with
      | some a => simp [Once, Clean, run, ha]
      | none =>
          have htried : (run (s :: rest)).1 = s :: (run rest).1 := by simp only [run, ha]
          rw [htried]
          cases hrest : (run rest).1 with
          | nil =>
              have hnil : rest = [] := by
                by_contra hne
                exact run_ne_nil hne hrest
              simp [Once, Clean, hnil]
          | cons t ts =>
              have hne : rest ≠ [] := by
                intro hnil
                simp [hnil, run] at hrest
              rw [hrest] at ih
              have honce : Once (s :: t :: ts) ↔ s.ran = false ∧ Once (t :: ts) := by
                simp [Once]
              rw [honce, ih]
              simp [Clean, ha, hne]

/-- The stages that are tried are stages of the chain. -/
theorem run_subset (stages : List (Stage ι α)) : (run stages).1 ⊆ stages := by
  induction stages with
  | nil => exact List.Subset.refl _
  | cons s rest ih =>
      unfold run
      split
      · exact List.cons_subset_cons _ (List.nil_subset _)
      · exact List.cons_subset_cons _ ih

end Fallback
