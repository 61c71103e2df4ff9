import Mathlib.Order.WithBot
import Mathlib.Data.List.Basic

/-!
The first of the elements of a list that score highest. Leaders of parts combine
to the leader of the whole, whatever the order of the parts.
-/

namespace Leader
variable {ι σ : Type} [LinearOrder ι] [LinearOrder σ]

/-- `i` comes before `j`: it scores higher, or as high and is smaller. -/
def Beats (score : ι → σ) (i j : ι) : Prop := score j < score i ∨ score j = score i ∧ i ≤ j

/-- The leader of the elements of `s`; without any there is none. -/
def Leads (score : ι → σ) (s : List ι) : Option ι → Prop
  | none => s = []
  | some i => i ∈ s ∧ ∀ j ∈ s, Beats score i j

variable {score : ι → σ}

theorem Beats.refl (i : ι) : Beats score i i := .inr ⟨rfl, le_refl i⟩

theorem Beats.trans {i j k : ι} (hij : Beats score i j) (hjk : Beats score j k) :
    Beats score i k := by
  rcases hij with hij | ⟨hij, hle⟩
  · rcases hjk with hjk | ⟨hjk, -⟩
    · exact .inl (hjk.trans hij)
    · exact .inl (hjk ▸ hij)
  · rcases hjk with hjk | ⟨hjk, hle'⟩
    · exact .inl (hij ▸ hjk)
    · exact .inr ⟨hjk.trans hij, hle.trans hle'⟩

/-- The better of two leaders leads both parts. -/
theorem Leads.append {s t : List ι} {i j : ι} (hs : Leads score s (some i))
    (ht : Leads score t (some j)) (h : Beats score i j) : Leads score (s ++ t) (some i) := by
  refine ⟨List.mem_append_left _ hs.1, ?_⟩
  intro k hk
  rcases List.mem_append.mp hk with hk | hk
  · exact hs.2 k hk
  · exact h.trans (ht.2 k hk)

theorem Leads.congr {s t : List ι} {i : ι} (h : ∀ j, j ∈ s ↔ j ∈ t)
    (hs : Leads score s (some i)) : Leads score t (some i) :=
  ⟨(h i).mp hs.1, fun j hj => hs.2 j ((h j).mpr hj)⟩

theorem Leads.swap {s t : List ι} {i : ι} (hs : Leads score (s ++ t) (some i)) :
    Leads score (t ++ s) (some i) :=
  hs.congr fun j => by rw [List.mem_append, List.mem_append, or_comm]

end Leader
