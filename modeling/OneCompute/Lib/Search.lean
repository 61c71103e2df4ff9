import Mathlib.Algebra.Order.Group.Int
import Mathlib.Data.List.Forall2
import Mathlib.Algebra.Ring.Int.Defs

/-!
Searches that stop at the first hit. What parts of a space report merges, in any order,
to what the whole space reports.
-/

namespace Search
variable {α ω : Type}

/-- What a search reports: a hit, if there was one, and how many it tried. -/
structure Report (ω : Type) where
  winner : Option ω
  tried : Int

/-- `r` is true of the space `s`, where `Hit a w` says that `w` is what is found at `a`. -/
structure Searched (Hit : α → ω → Prop) (s : List α) (r : Report ω) : Prop where
  hit : ∀ w, r.winner = some w → ∃ a ∈ s, Hit a w
  miss : r.winner = none → (∀ a ∈ s, ∀ w, ¬ Hit a w) ∧ r.tried = s.length
  bound : r.tried ≤ s.length

/-- The first winner, and all that was tried. -/
def merge (rs : List (Report ω)) : Report ω := ⟨rs.findSome? Report.winner, (rs.map Report.tried).sum⟩

theorem merge_find {β : Type} (p : β → Bool) (answer : β → ω) (tried : β → Int) (xs : List β) :
    merge (xs.map fun x => ⟨if p x then some (answer x) else none, tried x⟩) =
      ⟨(xs.find? p).map answer, (xs.map tried).sum⟩ := by
  induction xs with
  | nil => rfl
  | cons x xs ih =>
      unfold merge at ih ⊢
      obtain ⟨hwinner, htried⟩ := Report.mk.inj ih
      rw [List.map_cons, List.map_cons, List.map_cons, List.sum_cons, List.sum_cons, htried,
        List.findSome?_cons, List.find?_cons]
      cases hp : p x with
      | true => simp
      | false => simpa using hwinner

variable {Hit : α → ω → Prop}

theorem Searched.perm {s t : List α} {r : Report ω} (h : Searched Hit s r) (hst : s.Perm t) :
    Searched Hit t r where
  hit := by
    intro w hw
    obtain ⟨a, ha, haw⟩ := h.hit w hw
    exact ⟨a, hst.mem_iff.mp ha, haw⟩
  miss := by
    intro hnone
    obtain ⟨hmiss, htried⟩ := h.miss hnone
    exact ⟨fun a ha => hmiss a (hst.mem_iff.mpr ha), by rw [htried, hst.length_eq]⟩
  bound := by
    rw [← hst.length_eq]
    exact h.bound

theorem searched_merge {ss : List (List α)} {rs : List (Report ω)}
    (h : List.Forall₂ (Searched Hit) ss rs) : Searched Hit ss.flatten (merge rs) := by
  induction h with
  | nil => exact ⟨by simp [merge], by simp [merge], by simp [merge]⟩
  | @cons s r ss rs hs _ ih =>
      have hsum : (merge (r :: rs)).tried = r.tried + (merge rs).tried := rfl
      have hlen : (((s :: ss).flatten).length : Int) = s.length + ss.flatten.length := by simp
      have hwinner : (merge (r :: rs)).winner = r.winner.or (merge rs).winner := by
        cases hr : r.winner with
        | none => simp [merge, hr]
        | some w => simp [merge, hr]
      refine ⟨?_, ?_, ?_⟩
      · intro w hw
        rw [hwinner] at hw
        rw [List.flatten_cons]
        cases hr : r.winner with
        | none =>
            rw [hr, Option.none_or] at hw
            obtain ⟨a, ha, haw⟩ := ih.hit w hw
            exact ⟨a, List.mem_append_right _ ha, haw⟩
        | some w' =>
            rw [hr, Option.some_or] at hw
            obtain ⟨a, ha, haw⟩ := hs.hit w (hr.trans hw)
            exact ⟨a, List.mem_append_left _ ha, haw⟩
      · intro hnone
        rw [hwinner, Option.or_eq_none_iff] at hnone
        obtain ⟨hmiss, htried⟩ := hs.miss hnone.1
        obtain ⟨hmiss', htried'⟩ := ih.miss hnone.2
        refine ⟨?_, by rw [hsum, hlen, htried, htried']⟩
        intro a ha
        rw [List.flatten_cons, List.mem_append] at ha
        rcases ha with ha | ha
        · exact hmiss a ha
        · exact hmiss' a ha
      · rw [hsum, hlen]
        exact add_le_add hs.bound ih.bound

end Search
