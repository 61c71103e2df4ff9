import OneCompute.Lib.Interleaving

/-!
Calls served one at a time. Between two commands of such a call only the
environment moves, so what the call has read stays true unless the call itself
changes it.
-/

namespace Interleaving
open Prog

variable {C : Type} {R : C → Type} {E A σ ι κ τ : Type}

/-- How the environment moves before the n-th command of a call, and the input
that command draws. -/
abbrev Surroundings (ι τ : Type) := Nat → List τ × ι

def Semantics.disturbAll (M : Semantics C R E A σ ι κ τ) (ts : List τ) (s : σ) : σ :=
  ts.foldl (fun s t => M.disturb t s) s

/-- The state a call served alone leaves, and how it ends. -/
def serveAlone (M : Semantics C R E A σ ι κ τ) :
    Prog C R E A → Surroundings ι τ → σ → σ × Except E A
  | .ret a, _, s => (s, .ok a)
  | .raise e, _, s => (s, .error e)
  | .call c k, env, s =>
      let out := M.exec c (env 0).2 (M.disturbAll (env 0).1 s)
      serveAlone M (k out.2) (fun n => env (n + 1)) out.1

variable {M : Semantics C R E A σ ι κ τ}

theorem disturbAll_induction {I : σ → Prop} (disturb : ∀ t s, I s → I (M.disturb t s))
    (ts : List τ) {s : σ} (h : I s) : I (M.disturbAll ts s) := by
  induction ts generalizing s with
  | nil => exact h
  | cons t ts ih => exact ih (disturb t s h)

/-- What every command the call may issue keeps, holds when the call has ended,
and the call ends as its program allows. -/
theorem serveAlone_sat {P : Past C R → C → Prop} {Q : ∀ c, R c → Prop} {J : Past C R → σ → Prop}
    {Z : Past C R → A → Prop} {p : Prog C R E A} {h : Past C R} (hp : p.Sat P Q h Z)
    (command : ∀ h c input s, P h c → J h s → Q c (M.exec c input s).2 ∧
      J (⟨c, (M.exec c input s).2⟩ :: h) (M.exec c input s).1)
    (disturb : ∀ h t s, J h s → J h (M.disturb t s)) (env : Surroundings ι τ) {s : σ}
    (start : J h s) :
    ∃ h', J h' (serveAlone M p env s).1 ∧ ∀ a, (serveAlone M p env s).2 = .ok a → Z h' a := by
  induction p generalizing h env s with
  | ret a =>
      refine ⟨h, start, ?_⟩
      rintro _ ⟨⟩
      exact hp
  | raise e =>
      refine ⟨h, start, ?_⟩
      rintro _ ⟨⟩
  | call c k ih =>
      obtain ⟨hanswer, hnext⟩ := command h c (env 0).2 (M.disturbAll (env 0).1 s) hp.1
        (disturbAll_induction (disturb h) _ start)
      exact ih _ (hp.2 _ hanswer) _ hnext

end Interleaving
