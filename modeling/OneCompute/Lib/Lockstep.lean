import OneCompute.Lib.Observation

/-!
Two runs in lockstep. Their programs may issue different commands, as long as these do the
same to the states that occur and the programs go on alike; then the two runs have the same
states, and their threads end in the same way.
-/

namespace Interleaving

section Lockstep
variable {C : Type} {R : C → Type} {E A B σ ι κ τ : Type}

def Prog.outcome : Prog C R E A → Option (Except E A)
  | .ret a => some (.ok a)
  | .raise e => some (.error e)
  | .call _ _ => none

/-- How the threads have ended so far, in the order in which they were started. -/
def Sys.outcomes (s : Sys C R E A σ κ) : List (Option (Except E A)) :=
  s.threads.map fun t => t.prog.outcome

variable (M : Semantics C R E A σ ι κ τ) (I : σ → Prop)

/-- The programs do the same in the states that satisfy `I`. -/
inductive Lockstep : Prog C R E A → Prog C R E A → Prop where
  | same (p : Prog C R E A) : Lockstep p p
  | call {c c' : C} {k : R c → Prog C R E A} {k' : R c' → Prog C R E A} :
      (∀ input s, I s → (M.exec c input s).1 = (M.exec c' input s).1) →
      (∀ input s, I s → Lockstep (k (M.exec c input s).2) (k' (M.exec c' input s).2)) →
      Lockstep (.call c k) (.call c' k')

/-- Moves of the two runs: the same, but for the calls that are started. -/
inductive LockstepMoves : Move κ ι τ → Move κ ι τ → Prop where
  | spawn {call call' : κ} : Lockstep M I (M.start call) (M.start call') →
      LockstepMoves (.spawn call) (.spawn call')
  | run (i : Nat) (input : ι) : LockstepMoves (.run i input) (.run i input)
  | disturb (t : τ) : LockstepMoves (.disturb t) (.disturb t)

structure InStep (s s' : Sys C R E A σ κ) : Prop where
  state : s.state = s'.state
  threads : List.Forall₂ (fun t t' => Lockstep M I t.prog t'.prog) s.threads s'.threads

variable {M I}

theorem Lockstep.outcome {p p' : Prog C R E A} (h : Lockstep M I p p') : p.outcome = p'.outcome := by
  cases h with
  | same => rfl
  | call _ _ => rfl

/-- The same program on both sides, with continuations that do the same for what it returns. -/
theorem Lockstep.bind {P : Past C R → C → Prop} {Q : ∀ c, R c → Prop} {past : Past C R}
    {p : Prog C R E B} {Φ : Past C R → B → Prop} {f f' : B → Prog C R E A} (hp : p.Sat P Q past Φ)
    (hQ : ∀ c input s, I s → Q c (M.exec c input s).2)
    (hf : ∀ past a, Φ past a → Lockstep M I (f a) (f' a)) :
    Lockstep M I (p >>= f) (p >>= f') := by
  induction p generalizing past with
  | ret a => exact hf past a hp
  | raise e => exact .same _
  | call c k ih =>
      exact .call (fun _ _ _ => rfl) (fun input s hs => ih _ (hp.2 _ (hQ c input s hs)))

theorem Lockstep.advance {t t' : Thread C R E A κ} (h : Lockstep M I t.prog t'.prog) (input : ι)
    {s : σ} (hs : I s) :
    (t.advance M input s).1 = (t'.advance M input s).1 ∧
      Lockstep M I (t.advance M input s).2.prog (t'.advance M input s).2.prog := by
  obtain ⟨call, past, prog⟩ := t
  obtain ⟨call', past', prog'⟩ := t'
  cases h with
  | same =>
      cases prog with
      | call c k => exact ⟨rfl, .same _⟩
      | ret a => exact ⟨rfl, .same _⟩
      | raise e => exact ⟨rfl, .same _⟩
  | call hstate hnext => exact ⟨hstate input s hs, hnext input s hs⟩

theorem InStep.outcomes {s s' : Sys C R E A σ κ} (h : InStep M I s s') :
    s.outcomes = s'.outcomes := by
  have hthreads := h.threads
  unfold Sys.outcomes
  generalize s.threads = ts at hthreads ⊢
  generalize s'.threads = ts' at hthreads ⊢
  induction hthreads with
  | nil => rfl
  | cons hhead _ ih => rw [List.map_cons, List.map_cons, hhead.outcome, ih]

theorem InStep.step {s s' : Sys C R E A σ κ} {m m' : Move κ ι τ} (h : InStep M I s s')
    (hs : I s.state) (hm : LockstepMoves M I m m') : InStep M I (step M s m) (step M s' m') := by
  cases hm with
  | spawn hcall => exact ⟨h.state, List.rel_append h.threads (.cons hcall .nil)⟩
  | disturb t => exact ⟨congrArg (M.disturb t) h.state, h.threads⟩
  | run i input =>
      have hlen := h.threads.length_eq
      by_cases hi : i < s.threads.length
      · have hi' : i < s'.threads.length := hlen ▸ hi
        have hnext := Lockstep.advance (h.threads.get hi hi') input hs
        rw [step_run (List.getElem?_eq_getElem hi), step_run (List.getElem?_eq_getElem hi'),
          ← h.state]
        refine ⟨hnext.1, ?_⟩
        rw [List.forall₂_iff_get]
        refine ⟨by simpa using hlen, ?_⟩
        intro j hj hj'
        simp only [List.get_eq_getElem, List.getElem_set]
        split
        · exact hnext.2
        · exact h.threads.get _ _
      · have hnone : s.threads[i]? = none := List.getElem?_eq_none (by omega)
        have hnone' : s'.threads[i]? = none := List.getElem?_eq_none (by omega)
        simp only [Interleaving.step, hnone, hnone']
        exact h

theorem runs_inStep {s s' : Sys C R E A σ κ} {ms ms' : List (Move κ ι τ)} (h : InStep M I s s')
    (hI : ∀ before after, ms = before ++ after → I (runs M s before).state)
    (hms : List.Forall₂ (LockstepMoves M I) ms ms') : InStep M I (runs M s ms) (runs M s' ms') := by
  induction hms generalizing s s' with
  | nil => exact h
  | @cons m m' ms ms' hm _ ih =>
      have hs : I s.state := hI [] (m :: ms) rfl
      refine ih (h.step hs hm) ?_
      intro before after hsplit
      exact hI (m :: before) after (congrArg (List.cons m) hsplit)

end Lockstep

section Spawned
variable {C : Type} {R : C → Type} {E A σ ι κ τ : Type} {M : Semantics C R E A σ ι κ τ}

/-- A thread runs a call that was started. -/
theorem runs_spawned {s : σ} (ms : List (Move κ ι τ)) {j : Nat} {t : Thread C R E A κ}
    (ht : (runs M ⟨s, []⟩ ms).threads[j]? = some t) : .spawn t.call ∈ ms := by
  induction ms using List.reverseRecOn generalizing j t with
  | nil => cases ht
  | append_singleton ms m ih =>
      rw [runs_snoc] at ht
      rcases step_thread ht with hold | ⟨call, rfl, -, rfl⟩ | ⟨p, hp, rfl⟩
      · exact List.mem_append_left _ (ih hold)
      · exact List.mem_append_right _ (List.mem_singleton_self _)
      · obtain ⟨k, hbefore, hafter⟩ := performed_thread (M := M) hp
        obtain rfl := Option.some.inj (hafter.symm.trans ht)
        have hspawned := ih hbefore
        exact List.mem_append_left _ hspawned

theorem performed_spawned {s : σ} {ms : List (Move κ ι τ)} {m : Move κ ι τ}
    {p : Performed C R κ ι σ} (hp : performed (runs M ⟨s, []⟩ ms) m = some p) :
    .spawn p.call ∈ ms := by
  obtain ⟨k, hbefore, -⟩ := performed_thread (M := M) hp
  exact runs_spawned ms hbefore

end Spawned
end Interleaving
