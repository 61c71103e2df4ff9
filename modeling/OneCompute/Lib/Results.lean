import Mathlib.Data.List.Forall2
import Mathlib.Data.List.ReduceOption

/-!
Computations that may raise, over the elements of a list.
-/

namespace Results
variable {α β ε : Type}

theorem bind_eq_ok {x : Except ε α} {f : α → Except ε β} {b : β} :
    x >>= f = .ok b ↔ ∃ a, x = .ok a ∧ f a = .ok b := by
  cases x with
  | error e =>
      constructor
      · intro h
        cases h
      · rintro ⟨a, ha, -⟩
        cases ha
  | ok a =>
      constructor
      · intro h
        exact ⟨a, rfl, h⟩
      · rintro ⟨a', ha, h⟩
        cases ha
        exact h

theorem toOption_eq_some {ε α : Type} {x : Except ε α} {a : α} :
    x.toOption = some a ↔ x = .ok a := by
  cases x with
  | error e => exact ⟨nofun, nofun⟩
  | ok b => exact ⟨fun h => congrArg Except.ok (Option.some.inj h), fun h => by cases h; rfl⟩

/-- The computation does not raise. -/
def Returns (x : Except ε α) : Prop := ∃ a, x = .ok a

@[simp] theorem returns_ok (a : α) : Returns (.ok a : Except ε α) := ⟨a, rfl⟩

@[simp] theorem not_returns_error (e : ε) : ¬ Returns (.error e : Except ε α) := nofun

/-- A computation whose end does not depend on the result before it returns if both
parts do. -/
theorem returns_bind {x : Except ε α} {f : α → Except ε β} {P : Prop}
    (h : ∀ a, x = .ok a → (Returns (f a) ↔ P)) : Returns (x >>= f) ↔ Returns x ∧ P := by
  cases x with
  | error e => exact ⟨fun hx => absurd hx (not_returns_error e), fun hx => absurd hx.1 nofun⟩
  | ok a => exact (h a rfl).trans ⟨fun hp => ⟨returns_ok a, hp⟩, And.right⟩

theorem returns_mapM {f : α → Except ε β} {xs : List α} :
    Returns (xs.mapM f) ↔ ∀ x ∈ xs, Returns (f x) := by
  induction xs with
  | nil => exact ⟨fun _ => nofun, fun _ => returns_ok []⟩
  | cons x xs ih =>
      rw [List.mapM_cons, List.forall_mem_cons, ← ih]
      refine returns_bind fun y _ => (returns_bind fun ys _ => ?_).trans (iff_of_eq (and_true _))
      exact iff_true_intro (returns_ok (y :: ys))

/-- Each result is that of the element in its place. -/
theorem mapM_forall₂ {f : α → Except ε β} {xs : List α} {ys : List β} (h : xs.mapM f = .ok ys) :
    List.Forall₂ (fun x y => f x = .ok y) xs ys := by
  induction xs generalizing ys with
  | nil =>
      cases h
      exact .nil
  | cons x xs ih =>
      rw [List.mapM_cons] at h
      obtain ⟨y, hy, h⟩ := bind_eq_ok.mp h
      obtain ⟨rest, hrest, h⟩ := bind_eq_ok.mp h
      cases h
      exact .cons hy (ih hrest)

theorem mapM_mem {f : α → Except ε β} {xs : List α} {ys : List β} (h : xs.mapM f = .ok ys) :
    ∀ y ∈ ys, ∃ x ∈ xs, f x = .ok y := by
  have hall := mapM_forall₂ h
  clear h
  induction hall with
  | nil =>
      intro y hy
      cases hy
  | cons hxy _ ih =>
      intro y hy
      rcases List.mem_cons.mp hy with rfl | hy
      · exact ⟨_, List.mem_cons_self, hxy⟩
      · obtain ⟨x, hx, hfx⟩ := ih y hy
        exact ⟨x, List.mem_cons_of_mem _ hx, hfx⟩

theorem mapM_place {f : α → Except ε β} {xs : List α} {ys : List β} (h : xs.mapM f = .ok ys)
    {i : Nat} {x : α} (hx : xs[i]? = some x) : ∃ y, ys[i]? = some y ∧ f x = .ok y := by
  have hall := mapM_forall₂ h
  obtain ⟨hi, rfl⟩ := List.getElem?_eq_some_iff.mp hx
  have hi' : i < ys.length := hall.length_eq ▸ hi
  exact ⟨_, List.getElem?_eq_getElem hi', hall.get hi hi'⟩

theorem mapM_source {f : α → Except ε β} {xs : List α} {ys : List β} (h : xs.mapM f = .ok ys)
    {i : Nat} {y : β} (hy : ys[i]? = some y) : ∃ x, xs[i]? = some x ∧ f x = .ok y := by
  have hall := mapM_forall₂ h
  obtain ⟨hi, rfl⟩ := List.getElem?_eq_some_iff.mp hy
  have hi' : i < xs.length := hall.length_eq ▸ hi
  exact ⟨_, List.getElem?_eq_getElem hi', hall.get hi' hi⟩

/-- Where the elements of two lists are related by way of a result, the results exist
and are related. -/
theorem mapM_related {γ : Type} {f : α → Except ε β} {P : β → γ → Prop} {xs : List α} {zs : List γ}
    (h : List.Forall₂ (fun x z => ∃ y, f x = .ok y ∧ P y z) xs zs) :
    ∃ ys, xs.mapM f = .ok ys ∧ List.Forall₂ P ys zs := by
  induction h with
  | nil => exact ⟨[], rfl, .nil⟩
  | cons hxz _ ih =>
      obtain ⟨y, hy, hyz⟩ := hxz
      obtain ⟨ys, hys, hall⟩ := ih
      refine ⟨y :: ys, ?_, .cons hyz hall⟩
      rw [List.mapM_cons, hy, hys]
      rfl

/-- Nothing is dropped where everything is there. -/
theorem reduceOption_map_some (xs : List α) : (xs.map some).reduceOption = xs := by
  rw [List.reduceOption, List.filterMap_map]
  exact List.filterMap_some

theorem reduceOption_related {γ : Type} {P : β → γ → Prop} {xs : List (Option β)} {zs : List γ}
    (h : List.Forall₂ (fun x z => ∃ y, x = some y ∧ P y z) xs zs) :
    List.Forall₂ P xs.reduceOption zs := by
  induction h with
  | nil => exact .nil
  | cons hxz _ ih =>
      obtain ⟨y, rfl, hyz⟩ := hxz
      exact .cons hyz ih

theorem map_eq_of_forall₂ {γ : Type} {R : α → β → Prop} {xs : List α} {ys : List β}
    (h : List.Forall₂ R xs ys) {f : α → γ} {g : β → γ} (hfg : ∀ x y, R x y → f x = g y) :
    xs.map f = ys.map g := by
  induction h with
  | nil => rfl
  | cons hxy _ ih => rw [List.map_cons, List.map_cons, hfg _ _ hxy, ih]

theorem forall₂_mem_left {R : α → β → Prop} {xs : List α} {ys : List β}
    (h : List.Forall₂ R xs ys) {x : α} (hx : x ∈ xs) : ∃ y ∈ ys, R x y := by
  obtain ⟨i, hi, rfl⟩ := List.mem_iff_getElem.mp hx
  exact ⟨ys.get ⟨i, h.length_eq ▸ hi⟩, List.get_mem _ _, h.get hi (h.length_eq ▸ hi)⟩

theorem forall₂_filter {R : α → β → Prop} {xs : List α} {ys : List β} (h : List.Forall₂ R xs ys)
    {p : α → Bool} {q : β → Bool} (hpq : ∀ x y, R x y → p x = q y) :
    List.Forall₂ R (xs.filter p) (ys.filter q) := by
  apply List.rel_filter _ h
  intro x y hxy
  change p x = true ↔ q y = true
  rw [hpq x y hxy]

theorem mapM_ok {f : α → Except ε β} {g : α → β} {xs : List α} (h : ∀ x ∈ xs, f x = .ok (g x)) :
    xs.mapM f = .ok (xs.map g) := by
  induction xs with
  | nil => rfl
  | cons x xs ih =>
      rw [List.mapM_cons, h x List.mem_cons_self, ih fun y hy => h y (List.mem_cons_of_mem x hy)]
      rfl

theorem mapM_some {f : α → Option β} {g : α → β} {xs : List α} (h : ∀ x ∈ xs, f x = some (g x)) :
    xs.mapM f = some (xs.map g) := by
  induction xs with
  | nil => rfl
  | cons x xs ih =>
      rw [List.mapM_cons, h x List.mem_cons_self,
        ih fun y hy => h y (List.mem_cons_of_mem _ hy)]
      rfl

theorem mapM_some_forall₂ {f : α → Option β} {xs : List α} {ys : List β}
    (h : xs.mapM f = some ys) : List.Forall₂ (fun x y => f x = some y) xs ys := by
  induction xs generalizing ys with
  | nil =>
      cases h
      exact .nil
  | cons x xs ih =>
      rw [List.mapM_cons] at h
      obtain ⟨y, hy, h⟩ := Option.bind_eq_some_iff.mp h
      obtain ⟨rest, hrest, h⟩ := Option.bind_eq_some_iff.mp h
      cases h
      exact .cons hy (ih hrest)

theorem forall₂_mem_right {R : α → β → Prop} {xs : List α} {ys : List β}
    (h : List.Forall₂ R xs ys) {y : β} (hy : y ∈ ys) : ∃ x ∈ xs, R x y := by
  obtain ⟨x, hx, hxy⟩ := forall₂_mem_left h.flip hy
  exact ⟨x, hx, hxy⟩

end Results
