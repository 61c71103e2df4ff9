import Mathlib.Data.List.Forall2
import OneCompute.Lib.Interleaving

/-!
Two runs side by side, seen through a view of the state. Programs are alike when
each is silent for the view, or when they move the view in the same way as long
as the view has been the same; runs of alike calls under the same schedule then
show the same view throughout.
-/

namespace Interleaving

section Observation
variable {C : Type} {R : C → Type} {E A σ ι κ τ β : Type}
variable (M : Semantics C R E A σ ι κ τ) (I : σ → Prop) (Q : ∀ c, R c → Prop) (view : σ → β)

def Silent (c : C) : Prop := ∀ input s, view (M.exec c input s).1 = view s

def Quiet (past : Past C R) (p : Prog C R E A) : Prop :=
  p.Sat (fun _ c => Silent M view c) Q past (fun _ _ => True)

inductive Alike : Thread C R E A κ → Thread C R E A κ → Prop where
  | quiet {t t' : Thread C R E A κ} : Quiet M Q view t.past t.prog → Quiet M Q view t'.past t'.prog →
      Alike t t'
  | sync {call call' : κ} {past past' : Past C R} {c c' : C} {k : R c → Prog C R E A}
      {k' : R c' → Prog C R E A} :
      (∀ input s s', I s → I s' → view s = view s' →
        view (M.exec c input s).1 = view (M.exec c' input s').1) →
      (∀ input s s', I s → I s' → view s = view s' →
        Alike ⟨call, ⟨c, (M.exec c input s).2⟩ :: past, k (M.exec c input s).2⟩
          ⟨call', ⟨c', (M.exec c' input s').2⟩ :: past', k' (M.exec c' input s').2⟩) →
      Alike ⟨call, past, .call c k⟩ ⟨call', past', .call c' k'⟩

/-- Moves of the two runs: the same, but for the calls that are started. -/
inductive AlikeMoves : Move κ ι τ → Move κ ι τ → Prop where
  | spawn {call call' : κ} :
      Alike M I Q view ⟨call, [], M.start call⟩ ⟨call', [], M.start call'⟩ →
      AlikeMoves (.spawn call) (.spawn call')
  | run (i : Nat) (input : ι) : AlikeMoves (.run i input) (.run i input)
  | disturb (t : τ) : AlikeMoves (.disturb t) (.disturb t)

structure AlikeSys (s s' : Sys C R E A σ κ) : Prop where
  left : I s.state
  right : I s'.state
  same : view s.state = view s'.state
  threads : List.Forall₂ (Alike M I Q view) s.threads s'.threads

variable {M I Q view}

theorem Quiet.next {past : Past C R} {c : C} {k : R c → Prog C R E A}
    (h : Quiet M Q view past (.call c k)) (hQ : ∀ c input s, I s → Q c (M.exec c input s).2)
    (input : ι) {s : σ} (hs : I s) :
    view (M.exec c input s).1 = view s ∧
      Quiet M Q view (⟨c, (M.exec c input s).2⟩ :: past) (k (M.exec c input s).2) :=
  ⟨h.1 input s, h.2 _ (hQ c input s hs)⟩

/-- One thread, run for one command, or left alone when it has ended. -/
def Thread.advance (M : Semantics C R E A σ ι κ τ) (input : ι) (s : σ) :
    Thread C R E A κ → σ × Thread C R E A κ
  | ⟨call, past, .call c k⟩ =>
      let out := M.exec c input s
      (out.1, ⟨call, ⟨c, out.2⟩ :: past, k out.2⟩)
  | t => (s, t)

theorem step_run {s : Sys C R E A σ κ} {i : Nat} {input : ι} {t : Thread C R E A κ}
    (ht : s.threads[i]? = some t) :
    step M s (.run i input) =
      ⟨(t.advance M input s.state).1, s.threads.set i (t.advance M input s.state).2⟩ := by
  obtain ⟨call, past, prog⟩ := t
  have hset : s.threads.set i ⟨call, past, prog⟩ = s.threads := by
    apply List.ext_getElem?
    intro j
    by_cases hij : i = j
    · subst hij
      rw [List.getElem?_set_self (List.getElem?_eq_some_iff.mp ht).1, ht]
    · rw [List.getElem?_set_ne hij]
  cases prog with
  | call c k => simp only [step, ht, Thread.advance]
  | ret a => simp only [step, ht, Thread.advance, hset]
  | raise e => simp only [step, ht, Thread.advance, hset]

theorem Quiet.advance {t : Thread C R E A κ} (h : Quiet M Q view t.past t.prog)
    (hQ : ∀ c input s, I s → Q c (M.exec c input s).2) (input : ι) {s : σ} (hs : I s) :
    view (t.advance M input s).1 = view s ∧
      Quiet M Q view (t.advance M input s).2.past (t.advance M input s).2.prog := by
  obtain ⟨call, past, prog⟩ := t
  cases prog with
  | call c k => exact Quiet.next h hQ input hs
  | ret a => exact ⟨rfl, h⟩
  | raise e => exact ⟨rfl, h⟩

theorem advance_invariant (hI : Invariant M I) (t : Thread C R E A κ) (input : ι) {s : σ}
    (hs : I s) : I (t.advance M input s).1 := by
  obtain ⟨call, past, prog⟩ := t
  cases prog with
  | call c k => exact hI.exec c input s hs
  | ret a => exact hs
  | raise e => exact hs

theorem Alike.advance {t t' : Thread C R E A κ} (h : Alike M I Q view t t')
    (hQ : ∀ c input s, I s → Q c (M.exec c input s).2) (input : ι) {s s' : σ} (hs : I s)
    (hs' : I s') (hv : view s = view s') :
    view (t.advance M input s).1 = view (t'.advance M input s').1 ∧
      Alike M I Q view (t.advance M input s).2 (t'.advance M input s').2 := by
  cases h with
  | quiet hq hq' =>
      have h1 := hq.advance hQ input hs
      have h2 := hq'.advance hQ input hs'
      exact ⟨h1.1.trans (hv.trans h2.1.symm), .quiet h1.2 h2.2⟩
  | sync hview hnext => exact ⟨hview input s s' hs hs' hv, hnext input s s' hs hs' hv⟩

theorem AlikeSys.step {s s' : Sys C R E A σ κ} {m m' : Move κ ι τ} (h : AlikeSys M I Q view s s')
    (hI : Invariant M I) (hQ : ∀ c input s, I s → Q c (M.exec c input s).2)
    (hd : ∀ t s s', view s = view s' → view (M.disturb t s) = view (M.disturb t s'))
    (hm : AlikeMoves M I Q view m m') : AlikeSys M I Q view (step M s m) (step M s' m') := by
  cases hm with
  | spawn hcall =>
      exact ⟨h.left, h.right, h.same, List.rel_append h.threads (.cons hcall .nil)⟩
  | disturb t => exact ⟨hI.disturb t _ h.left, hI.disturb t _ h.right, hd t _ _ h.same, h.threads⟩
  | run i input =>
      have hlen := h.threads.length_eq
      by_cases hi : i < s.threads.length
      · have hi' : i < s'.threads.length := hlen ▸ hi
        have hthreads : Alike M I Q view s.threads[i] s'.threads[i] := h.threads.get hi hi'
        have hnext := hthreads.advance hQ input h.left h.right h.same
        rw [step_run (List.getElem?_eq_getElem hi), step_run (List.getElem?_eq_getElem hi')]
        refine ⟨advance_invariant hI _ input h.left, advance_invariant hI _ input h.right, hnext.1, ?_⟩
        rw [List.forall₂_iff_get]
        refine ⟨by simpa using hlen, ?_⟩
        intro j hj hj'
        simp only [List.get_eq_getElem, List.getElem_set]
        split
        · exact hnext.2
        · exact h.threads.get _ _
      · have hnone : s.threads[i]? = none := List.getElem?_eq_none (by omega)
        have hnone' : s'.threads[i]? = none := List.getElem?_eq_none (by omega)
        simp only [Interleaving.step, hnone, hnone']
        exact h

/-- Alike moves show the same view, whatever else the two runs do differently. -/
theorem runs_view {s s' : Sys C R E A σ κ} {ms ms' : List (Move κ ι τ)}
    (h : AlikeSys M I Q view s s') (hI : Invariant M I)
    (hQ : ∀ c input s, I s → Q c (M.exec c input s).2)
    (hd : ∀ t s s', view s = view s' → view (M.disturb t s) = view (M.disturb t s'))
    (hms : List.Forall₂ (AlikeMoves M I Q view) ms ms') :
    view (runs M s ms).state = view (runs M s' ms').state := by
  induction hms generalizing s s' with
  | nil => exact h.same
  | cons hm _ ih => exact ih (h.step hI hQ hd hm)

end Observation
end Interleaving
