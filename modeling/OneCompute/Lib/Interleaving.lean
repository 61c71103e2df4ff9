import Mathlib.Data.List.Induction

/-!
Shared-state concurrency with atomic commands. A program is a tree of commands
and continuations; a thread runs one program and remembers the answers it got;
a run interleaves the commands of any number of threads with changes made by the
environment. What stands between two commands of a thread is local to it, so a
run ranges over every order of the atomic sections. Runs are total: a move that
names no enabled thread leaves the system as it is.
-/

namespace Interleaving

/-- A program over commands `C` answered by `R`, which returns or raises. -/
inductive Prog (C : Type) (R : C → Type) (E A : Type) : Type where
  | ret (a : A)
  | raise (e : E)
  | call (c : C) (k : R c → Prog C R E A)

structure Answered (C : Type) (R : C → Type) where
  cmd : C
  answer : R cmd

/-- The commands a thread has performed, newest first. -/
abbrev Past (C : Type) (R : C → Type) := List (Answered C R)

namespace Prog
variable {C : Type} {R : C → Type} {E F A B : Type}

def bind : Prog C R E A → (A → Prog C R E B) → Prog C R E B
  | .ret a, f => f a
  | .raise e, _ => .raise e
  | .call c k, f => .call c (fun r => bind (k r) f)

instance : Monad (Prog C R E) where
  pure := .ret
  bind := bind

/-- The program made of one command. -/
def perform (c : C) : Prog C R E (R c) := .call c .ret

/-- Replace what is raised, as `except ... raise` does. -/
def mapError (f : E → F) : Prog C R E A → Prog C R F A
  | .ret a => .ret a
  | .raise e => .raise (f e)
  | .call c k => .call c (fun r => mapError f (k r))

def ofExcept : Except E A → Prog C R E A
  | .ok a => .ret a
  | .error e => .raise e

@[simp] theorem pure_eq (a : A) : (pure a : Prog C R E A) = .ret a := rfl
@[simp] theorem ret_bind (a : A) (f : A → Prog C R E B) : (Prog.ret a >>= f) = f a := rfl

theorem bind_ret (p : Prog C R E A) : p >>= .ret = p := by
  induction p with
  | ret a => rfl
  | raise e => rfl
  | call c k ih => exact congrArg (Prog.call c) (funext ih)

theorem bind_bind {G : Type} (p : Prog C R E A) (f : A → Prog C R E B) (g : B → Prog C R E G) :
    p >>= f >>= g = p >>= fun a => f a >>= g := by
  induction p with
  | ret a => rfl
  | raise e => rfl
  | call c k ih => exact congrArg (Prog.call c) (funext ih)

/-- Every command the program can issue after `h` satisfies `P`, and every value
it can return satisfies `Φ`, provided the answers of commands satisfy `Q`. -/
def Sat (P : Past C R → C → Prop) (Q : ∀ c, R c → Prop) :
    Past C R → Prog C R E A → (Past C R → A → Prop) → Prop
  | h, .ret a, Φ => Φ h a
  | _, .raise _, _ => True
  | h, .call c k, Φ => P h c ∧ ∀ r, Q c r → Sat P Q (⟨c, r⟩ :: h) (k r) Φ

variable {P : Past C R → C → Prop} {Q : ∀ c, R c → Prop} {h : Past C R}

theorem sat_mono {p : Prog C R E A} {Φ Ψ : Past C R → A → Prop} (hp : Sat P Q h p Φ)
    (hΦ : ∀ h' a, h <:+ h' → Φ h' a → Ψ h' a) : Sat P Q h p Ψ := by
  induction p generalizing h with
  | ret a => exact hΦ h a (List.suffix_refl h) hp
  | raise e => trivial
  | call c k ih =>
      refine ⟨hp.1, fun r hr => ih r (hp.2 r hr) ?_⟩
      intro h' a hh' ha
      exact hΦ h' a ((List.suffix_cons _ h).trans hh') ha

theorem sat_imp {P' : Past C R → C → Prop} {p : Prog C R E A} {Φ Ψ : Past C R → A → Prop}
    (hp : Sat P Q h p Φ) (hP : ∀ h' c, P h' c → P' h' c) (hΦ : ∀ h' a, Φ h' a → Ψ h' a) :
    Sat P' Q h p Ψ := by
  induction p generalizing h with
  | ret a => exact hΦ h a hp
  | raise e => trivial
  | call c k ih => exact ⟨hP h c hp.1, fun r hr => ih r (hp.2 r hr)⟩

/-- What a program adds to its past are commands it may issue. -/
theorem sat_added {N : C → Prop} {p : Prog C R E A} {Φ : Past C R → A → Prop}
    (hp : Sat P Q h p Φ) (hN : ∀ h c, P h c → N c) :
    Sat P Q h p (fun h' a => Φ h' a ∧ ∀ b ∈ h', b ∈ h ∨ N b.cmd) := by
  induction p generalizing h with
  | ret a => exact ⟨hp, fun b hb => .inl hb⟩
  | raise e => trivial
  | call c k ih =>
      refine ⟨hp.1, fun r hr => sat_mono (ih r (hp.2 r hr)) ?_⟩
      rintro h' a - ⟨ha, hadded⟩
      refine ⟨ha, fun b hb => ?_⟩
      cases hadded b hb with
      | inl hlater =>
          cases List.mem_cons.mp hlater with
          | inl hnow =>
              rw [hnow]
              exact .inr (hN h c hp.1)
          | inr hbefore => exact .inl hbefore
      | inr hnew => exact .inr hnew

theorem sat_bind {p : Prog C R E A} {f : A → Prog C R E B} {Φ : Past C R → A → Prop}
    {Ψ : Past C R → B → Prop} (hp : Sat P Q h p Φ)
    (hf : ∀ h' a, h <:+ h' → Φ h' a → Sat P Q h' (f a) Ψ) : Sat P Q h (p >>= f) Ψ := by
  induction p generalizing h with
  | ret a => exact hf h a (List.suffix_refl h) hp
  | raise e => trivial
  | call c k ih =>
      refine ⟨hp.1, fun r hr => ih r (hp.2 r hr) ?_⟩
      intro h' a hh' ha
      exact hf h' a ((List.suffix_cons _ h).trans hh') ha

theorem sat_pure {a : A} {Φ : Past C R → A → Prop} (ha : Φ h a) :
    Sat P Q h (pure a : Prog C R E A) Φ :=
  ha

theorem sat_perform {c : C} {Φ : Past C R → R c → Prop} (hP : P h c)
    (hΦ : ∀ r, Q c r → Φ (⟨c, r⟩ :: h) r) :
    Sat P Q h (perform c : Prog C R E (R c)) Φ :=
  ⟨hP, hΦ⟩

theorem sat_perform_bind {c : C} {f : R c → Prog C R E A} {Φ : Past C R → A → Prop}
    (hP : P h c) (hf : ∀ r, Q c r → Sat P Q (⟨c, r⟩ :: h) (f r) Φ) :
    Sat P Q h (perform c >>= f) Φ :=
  ⟨hP, hf⟩

theorem sat_ofExcept {x : Except E A} {Φ : Past C R → A → Prop} (hx : ∀ a, x = .ok a → Φ h a) :
    Sat P Q h (ofExcept x : Prog C R E A) Φ := by
  cases x with
  | ok a => exact hx a rfl
  | error e => trivial

theorem sat_mapError {p : Prog C R E A} {f : E → F} {Φ : Past C R → A → Prop}
    (hp : Sat P Q h p Φ) : Sat P Q h (mapError f p) Φ := by
  induction p generalizing h with
  | ret a => exact hp
  | raise e => trivial
  | call c k ih => exact ⟨hp.1, fun r hr => ih r (hp.2 r hr)⟩

theorem sat_trivial (p : Prog C R E A) (h : Past C R) :
    Sat (fun _ _ => True) (fun _ _ => True) h p (fun _ _ => True) := by
  induction p generalizing h with
  | ret a => trivial
  | raise e => trivial
  | call c k ih => exact ⟨trivial, fun r _ => ih r _⟩

end Prog

section System
variable {C : Type} {R : C → Type} {E A σ ι κ τ : Type}

structure Thread (C : Type) (R : C → Type) (E A κ : Type) where
  call : κ
  past : Past C R
  prog : Prog C R E A

structure Sys (C : Type) (R : C → Type) (E A σ κ : Type) where
  state : σ
  threads : List (Thread C R E A κ)

/-- One choice of the scheduler: start a call, run the next command of a thread
with some input, or let the environment change the state. -/
inductive Move (κ ι τ : Type) where
  | spawn (call : κ)
  | run (thread : Nat) (input : ι)
  | disturb (t : τ)

/-- What a machine is made of: the atomic commands, the program of each call,
and the moves of the environment. -/
structure Semantics (C : Type) (R : C → Type) (E A σ ι κ τ : Type) where
  exec : (c : C) → ι → σ → σ × R c
  start : κ → Prog C R E A
  disturb : τ → σ → σ

/-- A command as it was performed: the thread and call it belongs to, what the
thread had done before, its input and the state it found. -/
structure Performed (C : Type) (R : C → Type) (κ ι σ : Type) where
  thread : Nat
  call : κ
  past : Past C R
  cmd : C
  input : ι
  pre : σ

variable (M : Semantics C R E A σ ι κ τ)

namespace Performed

def post (p : Performed C R κ ι σ) : σ := (M.exec p.cmd p.input p.pre).1

def answer (p : Performed C R κ ι σ) : R p.cmd := (M.exec p.cmd p.input p.pre).2

def answered (p : Performed C R κ ι σ) : Answered C R := ⟨p.cmd, p.answer M⟩

end Performed

/-- The command a move performs, if it performs one. -/
def performed (s : Sys C R E A σ κ) : Move κ ι τ → Option (Performed C R κ ι σ)
  | .run i input =>
      match s.threads[i]? with
      | some ⟨call, past, .call c _⟩ => some ⟨i, call, past, c, input, s.state⟩
      | _ => none
  | _ => none

def step (s : Sys C R E A σ κ) : Move κ ι τ → Sys C R E A σ κ
  | .spawn call => { s with threads := s.threads ++ [⟨call, [], M.start call⟩] }
  | .disturb t => { s with state := M.disturb t s.state }
  | .run i input =>
      match s.threads[i]? with
      | some ⟨call, past, .call c k⟩ =>
          let out := M.exec c input s.state
          ⟨out.1, s.threads.set i ⟨call, ⟨c, out.2⟩ :: past, k out.2⟩⟩
      | _ => s

def runs (s : Sys C R E A σ κ) (ms : List (Move κ ι τ)) : Sys C R E A σ κ :=
  ms.foldl (step M) s

/-- The commands performed along a run, oldest first. -/
def trace (s : Sys C R E A σ κ) : List (Move κ ι τ) → List (Performed C R κ ι σ)
  | [] => []
  | m :: ms => (performed s m).toList ++ trace (step M s m) ms

theorem runs_append (s : Sys C R E A σ κ) (ms ns : List (Move κ ι τ)) :
    runs M s (ms ++ ns) = runs M (runs M s ms) ns :=
  List.foldl_append

theorem runs_snoc (s : Sys C R E A σ κ) (ms : List (Move κ ι τ)) (m : Move κ ι τ) :
    runs M s (ms ++ [m]) = step M (runs M s ms) m :=
  runs_append M s ms [m]

theorem trace_append (s : Sys C R E A σ κ) (ms ns : List (Move κ ι τ)) :
    trace M s (ms ++ ns) = trace M s ms ++ trace M (runs M s ms) ns := by
  induction ms generalizing s with
  | nil => rfl
  | cons m ms ih => simp only [List.cons_append, trace, ih, List.append_assoc]; rfl

theorem trace_snoc (s : Sys C R E A σ κ) (ms : List (Move κ ι τ)) (m : Move κ ι τ) :
    trace M s (ms ++ [m]) = trace M s ms ++ (performed (runs M s ms) m).toList := by
  simp [trace_append, trace]

variable {M}

theorem performed_pre {s : Sys C R E A σ κ} {m : Move κ ι τ} {p : Performed C R κ ι σ}
    (h : performed s m = some p) : p.pre = s.state := by
  cases m with
  | spawn call => cases h
  | disturb t => cases h
  | run i input =>
      simp only [performed] at h
      split at h
      · cases h; rfl
      · cases h

/-- What one move does to the state: it performs a command, or it is a
disturbance, or nothing changes. -/
theorem step_state (s : Sys C R E A σ κ) (m : Move κ ι τ) :
    (∃ p, performed s m = some p ∧ (step M s m).state = p.post M) ∨
    (performed s m = none ∧ ((∃ t, m = .disturb t ∧ (step M s m).state = M.disturb t s.state) ∨
      (step M s m).state = s.state)) := by
  cases m with
  | spawn call => exact .inr ⟨rfl, .inr rfl⟩
  | disturb t => exact .inr ⟨rfl, .inl ⟨t, rfl, rfl⟩⟩
  | run i input =>
      simp only [performed, step]
      split
      · exact .inl ⟨_, rfl, rfl⟩
      · exact .inr ⟨rfl, .inr rfl⟩

theorem step_performed {s : Sys C R E A σ κ} {m : Move κ ι τ} {p : Performed C R κ ι σ}
    (h : performed s m = some p) : (step M s m).state = p.post M := by
  rcases step_state (M := M) s m with ⟨q, hq, hstate⟩ | ⟨hnone, -⟩
  · obtain rfl : q = p := Option.some.inj (hq.symm.trans h)
    exact hstate
  · cases hnone.symm.trans h

/-- The thread that performs a command, before and after. -/
theorem performed_thread {s : Sys C R E A σ κ} {m : Move κ ι τ} {p : Performed C R κ ι σ}
    (h : performed s m = some p) : ∃ k, s.threads[p.thread]? = some ⟨p.call, p.past, .call p.cmd k⟩ ∧
      (step M s m).threads[p.thread]? =
        some ⟨p.call, p.answered M :: p.past, k (p.answer M)⟩ := by
  cases m with
  | spawn call => cases h
  | disturb t => cases h
  | run i input =>
      simp only [performed] at h
      split at h
      next call past c k hi =>
        cases h
        refine ⟨k, hi, ?_⟩
        simp only [step, hi]
        exact List.getElem?_set_self (List.getElem?_eq_some_iff.mp hi).1
      next => cases h

/-- Where a thread comes from: it was there, or it has just been started, or it has
just performed a command. -/
theorem step_thread {s : Sys C R E A σ κ} {m : Move κ ι τ} {j : Nat} {t : Thread C R E A κ}
    (h : (step M s m).threads[j]? = some t) : s.threads[j]? = some t ∨
      (∃ call, m = .spawn call ∧ j = s.threads.length ∧ t = ⟨call, [], M.start call⟩) ∨
      ∃ p, performed s m = some p ∧ p.thread = j := by
  cases m with
  | spawn call =>
      simp only [step] at h
      by_cases hlt : j < s.threads.length
      · rw [List.getElem?_append_left hlt] at h
        exact .inl h
      · rw [List.getElem?_append_right (by omega)] at h
        have hj := (List.getElem?_eq_some_iff.mp h).1
        rw [List.length_singleton] at hj
        exact .inr (.inl ⟨call, rfl, by omega, by simpa using List.mem_of_getElem? h⟩)
  | disturb t' => exact .inl h
  | run i input =>
      simp only [step] at h
      split at h
      next call past c k hi =>
        by_cases hij : i = j
        · refine .inr (.inr ⟨⟨i, call, past, c, input, s.state⟩, ?_, hij⟩)
          simp only [performed, hi]
        · rw [List.getElem?_set_ne hij] at h
          exact .inl h
      next => exact .inl h

/-- A thread that performs nothing stays as it is. -/
theorem step_thread_of {s : Sys C R E A σ κ} {m : Move κ ι τ} {j : Nat} {t : Thread C R E A κ}
    (h : s.threads[j]? = some t) (hm : ∀ p, performed s m = some p → p.thread ≠ j) :
    (step M s m).threads[j]? = some t := by
  cases m with
  | spawn call =>
      simp only [step]
      rw [List.getElem?_append_left (List.getElem?_eq_some_iff.mp h).1]
      exact h
  | disturb t' => exact h
  | run i input =>
      simp only [step]
      split
      next call past c k hi =>
        have hij : i ≠ j := by
          refine hm ⟨i, call, past, c, input, s.state⟩ ?_
          simp only [performed, hi]
        rw [List.getElem?_set_ne hij]
        exact h
      next => exact h

/-- A property of the state kept by every command and by the environment. -/
structure Invariant (M : Semantics C R E A σ ι κ τ) (I : σ → Prop) : Prop where
  exec : ∀ c input s, I s → I (M.exec c input s).1
  disturb : ∀ t s, I s → I (M.disturb t s)

/-- Rule of induction over runs: what holds at the start and is kept by every
command performed along the run and by the environment holds at the end. -/
theorem runs_induction {I : List (Move κ ι τ) → σ → Prop} {s : Sys C R E A σ κ}
    (start : I [] s.state)
    (command : ∀ ms m p, performed (runs M s ms) m = some p → I ms p.pre →
      I (ms ++ [m]) (p.post M))
    (disturb : ∀ ms t x, I ms x → I (ms ++ [.disturb t]) (M.disturb t x))
    (idle : ∀ ms m x, performed (runs M s ms) m = none → I ms x → I (ms ++ [m]) x)
    (ms : List (Move κ ι τ)) : I ms (runs M s ms).state := by
  induction ms using List.reverseRecOn with
  | nil => exact start
  | append_singleton ms m ih =>
      rw [runs_snoc]
      rcases step_state (M := M) (runs M s ms) m with ⟨p, hp, hs⟩ | ⟨hp, ⟨t, rfl, hs⟩ | hs⟩
      · rw [hs]
        exact command ms m p hp (by rw [performed_pre hp]; exact ih)
      · rw [hs]
        exact disturb ms t _ ih
      · rw [hs]
        exact idle ms m _ hp ih

theorem Invariant.runs {I : σ → Prop} (h : Invariant M I) {s : Sys C R E A σ κ}
    (hs : I s.state) (ms : List (Move κ ι τ)) : I (Interleaving.runs M s ms).state :=
  runs_induction (M := M) (I := fun _ x => I x) hs
    (fun _ _ p _ hp => h.exec p.cmd p.input p.pre hp) (fun _ t x hx => h.disturb t x hx)
    (fun _ _ _ _ hx => hx) ms

theorem Invariant.pre {I : σ → Prop} (h : Invariant M I) {s : Sys C R E A σ κ} (hs : I s.state)
    {ms : List (Move κ ι τ)} {m : Move κ ι τ} {p : Performed C R κ ι σ}
    (hp : performed (Interleaving.runs M s ms) m = some p) : I p.pre := by
  rw [performed_pre hp]
  exact h.runs hs ms

/-- A reflexive and transitive relation kept by every command and by the
environment holds between any two states of a run. -/
theorem runs_relation {G : σ → σ → Prop} (hrefl : ∀ s, G s s)
    (htrans : ∀ a b c, G a b → G b c → G a c)
    (hexec : ∀ c input s, G s (M.exec c input s).1) (hdist : ∀ t s, G s (M.disturb t s))
    (s : Sys C R E A σ κ) (ms : List (Move κ ι τ)) :
    G s.state (runs M s ms).state :=
  runs_induction (M := M) (I := fun _ x => G s.state x) (hrefl _)
    (fun _ _ p _ hp => htrans _ _ _ hp (hexec p.cmd p.input p.pre))
    (fun _ t x hx => htrans _ _ _ hx (hdist t x)) (fun _ _ _ _ hx => hx) ms

/-- Where a command stands in the trace it was performed, after what stands
before it. -/
theorem trace_split {s : Sys C R E A σ κ} {ms : List (Move κ ι τ)}
    {done rest : List (Performed C R κ ι σ)} {p : Performed C R κ ι σ}
    (h : trace M s ms = done ++ p :: rest) : ∃ before m after,
      ms = before ++ m :: after ∧ performed (runs M s before) m = some p ∧
        trace M s before = done := by
  induction ms generalizing s done with
  | nil => simp [trace] at h
  | cons m ms ih =>
      simp only [trace] at h
      cases hm : performed s m with
      | none =>
          rw [hm] at h
          obtain ⟨before, n, after, rfl, hp, hdone⟩ := ih h
          refine ⟨m :: before, n, after, rfl, hp, ?_⟩
          simpa [trace, hm] using hdone
      | some q =>
          rw [hm] at h
          cases done with
          | nil =>
              obtain ⟨rfl, -⟩ := List.cons.inj h
              exact ⟨[], m, ms, rfl, hm, rfl⟩
          | cons q' done =>
              obtain ⟨rfl, hrest⟩ := List.cons.inj h
              obtain ⟨before, n, after, rfl, hp, hdone⟩ := ih hrest
              refine ⟨m :: before, n, after, rfl, hp, ?_⟩
              simpa [trace, hm] using hdone

/-- A command found in the trace was performed at some point of the run. -/
theorem mem_trace {s : Sys C R E A σ κ} {ms : List (Move κ ι τ)} {p : Performed C R κ ι σ}
    (h : p ∈ trace M s ms) : ∃ before m after,
      ms = before ++ m :: after ∧ performed (runs M s before) m = some p := by
  obtain ⟨done, rest, hsplit⟩ := List.append_of_mem h
  obtain ⟨before, m, after, hms, hp, -⟩ := trace_split hsplit
  exact ⟨before, m, after, hms, hp⟩

/-- What holds at the start of a run, and is only lost to a command in `X`,
still holds at its end, unless such a command was performed. -/
theorem runs_since {J : σ → Prop} {X : Performed C R κ ι σ → Prop} {s : Sys C R E A σ κ}
    (start : J s.state)
    (command : ∀ ms (m : Move κ ι τ) p, performed (runs M s ms) m = some p → J p.pre →
      J (p.post M) ∨ X p)
    (disturb : ∀ t x, J x → J (M.disturb t x)) (ms : List (Move κ ι τ)) :
    J (runs M s ms).state ∨ ∃ e ∈ trace M s ms, X e := by
  refine runs_induction (M := M) (I := fun ms x => J x ∨ ∃ e ∈ trace M s ms, X e)
    (.inl start) ?_ ?_ ?_ ms
  · intro ms m p hp ih
    rw [trace_snoc, hp]
    rcases ih with hpre | ⟨e, he, hE⟩
    · cases command ms m p hp hpre with
      | inl hpost => exact .inl hpost
      | inr hE => exact .inr ⟨p, List.mem_append_right _ (List.mem_singleton_self _), hE⟩
    · exact .inr ⟨e, List.mem_append_left _ he, hE⟩
  · intro ms t x ih
    rw [trace_snoc]
    rcases ih with hx | ⟨e, he, hE⟩
    · exact .inl (disturb t x hx)
    · exact .inr ⟨e, List.mem_append_left _ he, hE⟩
  · intro ms m x _ ih
    rw [trace_snoc]
    rcases ih with hx | ⟨e, he, hE⟩
    · exact .inl hx
    · exact .inr ⟨e, List.mem_append_left _ he, hE⟩

/-- The same from a command of the run on. -/
theorem trace_since {J : σ → Prop} {X : Performed C R κ ι σ → Prop} {s : Sys C R E A σ κ}
    {ms : List (Move κ ι τ)} {done rest : List (Performed C R κ ι σ)} {q : Performed C R κ ι σ}
    (h : trace M s ms = done ++ q :: rest) (hq : J (q.post M))
    (command : ∀ p : Performed C R κ ι σ, J p.pre → J (p.post M) ∨ X p)
    (disturb : ∀ t x, J x → J (M.disturb t x)) :
    J (runs M s ms).state ∨ ∃ e ∈ rest, X e := by
  obtain ⟨before, m, after, rfl, hperf, hdone⟩ := trace_split h
  have hstate : (runs M s (before ++ [m])).state = q.post M := by
    rw [runs_snoc]
    exact step_performed hperf
  have hms : before ++ m :: after = (before ++ [m]) ++ after := by simp
  rw [hms, runs_append]
  rw [hms, trace_append, trace_snoc, hdone, hperf, Option.toList_some, List.append_assoc] at h
  obtain rfl : trace M (runs M s (before ++ [m])) after = rest :=
    (List.cons.inj (List.append_cancel_left h)).2
  exact runs_since (by rw [hstate]; exact hq) (fun _ _ p _ => command p) disturb after

/-! ## Threads and their pasts -/

theorem trace_thread_lt (s : σ) (ms : List (Move κ ι τ)) :
    ∀ p ∈ trace M ⟨s, []⟩ ms, p.thread < (runs M ⟨s, []⟩ ms).threads.length := by
  induction ms using List.reverseRecOn with
  | nil => simp [trace]
  | append_singleton ms m ih =>
      intro p hp
      rw [trace_snoc, List.mem_append] at hp
      rw [runs_snoc]
      cases m with
      | spawn call =>
          simp only [performed, Option.toList_none, List.not_mem_nil, or_false] at hp
          have hlt := ih p hp
          simp only [step, List.length_append]
          omega
      | disturb t =>
          simp only [performed, Option.toList_none, List.not_mem_nil, or_false] at hp
          exact ih p hp
      | run j input =>
          simp only [step]
          simp only [performed] at hp
          split at hp
          next call past c k hj =>
            simp only [List.length_set]
            cases hp with
            | inl hold => exact ih p hold
            | inr hnew =>
                simp only [Option.toList_some, List.mem_singleton] at hnew
                rw [hnew]
                exact (List.getElem?_eq_some_iff.mp hj).1
          next =>
            simp only [Option.toList_none, List.not_mem_nil, or_false] at hp
            exact ih p hp

/-- The past of a thread is what it was answered along the run. -/
theorem past_eq_trace (s : σ) (ms : List (Move κ ι τ)) {i : Nat} {t : Thread C R E A κ}
    (ht : (runs M ⟨s, []⟩ ms).threads[i]? = some t) :
    ((trace M ⟨s, []⟩ ms).filter fun p => decide (p.thread = i)).map (Performed.answered M) =
      t.past.reverse := by
  induction ms using List.reverseRecOn generalizing t with
  | nil => simp [runs] at ht
  | append_singleton ms m ih =>
      rw [runs_snoc] at ht
      rw [trace_snoc, List.filter_append, List.map_append]
      cases m with
      | spawn call =>
          simp only [step] at ht
          simp only [performed, Option.toList_none, List.filter_nil, List.map_nil, List.append_nil]
          by_cases hlt : i < (runs M ⟨s, []⟩ ms).threads.length
          · rw [List.getElem?_append_left hlt] at ht
            exact ih ht
          · rw [List.getElem?_append_right (by omega)] at ht
            obtain rfl : t = ⟨call, [], M.start call⟩ := by
              simpa using List.mem_of_getElem? ht
            rw [List.filter_eq_nil_iff.mpr]
            · rfl
            · intro p hp
              have hthread := trace_thread_lt s ms p hp
              simp only [decide_eq_true_eq]
              omega
      | disturb t' =>
          simp only [performed, Option.toList_none, List.filter_nil, List.map_nil, List.append_nil]
          exact ih ht
      | run j input =>
          simp only [step] at ht
          simp only [performed]
          split at ht
          next call past c k hj =>
            simp only [Option.toList_some]
            by_cases hij : j = i
            · subst hij
              have hlt := (List.getElem?_eq_some_iff.mp hj).1
              rw [List.getElem?_set_self hlt] at ht
              cases ht
              rw [ih hj, List.reverse_cons, List.filter_cons_of_pos (by simp)]
              rfl
            · rw [List.getElem?_set_ne hij] at ht
              rw [ih ht, List.filter_cons_of_neg (by simpa using hij)]
              simp
          next =>
            simp only [Option.toList_none, List.filter_nil, List.map_nil, List.append_nil]
            exact ih ht

/-- The states in which commands were performed are ordered as the trace is, between the
first state of the run and the last. -/
theorem trace_ordered {G : σ → σ → Prop} (hrefl : ∀ s, G s s)
    (htrans : ∀ a b c, G a b → G b c → G a c)
    (hexec : ∀ c input s, G s (M.exec c input s).1) (hdist : ∀ t s, G s (M.disturb t s))
    (s : Sys C R E A σ κ) (ms : List (Move κ ι τ)) :
    (trace M s ms).Pairwise (fun p q => G p.pre q.pre) ∧
      ∀ p ∈ trace M s ms, G s.state p.pre ∧ G p.pre (runs M s ms).state := by
  induction ms using List.reverseRecOn with
  | nil => simp [trace]
  | append_singleton ms m ih =>
      have hstep : G (runs M s ms).state (runs M s (ms ++ [m])).state := by
        rw [runs_append]
        exact runs_relation hrefl htrans hexec hdist _ _
      have hnew : ∀ p ∈ (performed (runs M s ms) m).toList, p.pre = (runs M s ms).state :=
        fun p hp => performed_pre (Option.mem_toList.mp hp)
      rw [trace_snoc, List.pairwise_append]
      refine ⟨⟨ih.1, ?_, ?_⟩, ?_⟩
      · cases performed (runs M s ms) m <;> simp
      · intro p hp q hq
        rw [hnew q hq]
        exact (ih.2 p hp).2
      · intro p hp
        rcases List.mem_append.mp hp with hold | hlast
        · exact ⟨(ih.2 p hold).1, htrans _ _ _ (ih.2 p hold).2 hstep⟩
        · rw [hnew p hlast]
          exact ⟨runs_relation hrefl htrans hexec hdist s ms, hstep⟩
/-! ## What the calls may do -/

/-- Each call issues only commands that satisfy `P`, and ends only in results
that satisfy `Z`, when answers satisfy `Q`; and answers do satisfy `Q` in states
that satisfy `I`. -/
structure Discipline (M : Semantics C R E A σ ι κ τ) (I : σ → Prop)
    (P : κ → Past C R → C → Prop) (Q : ∀ c, R c → Prop) (Z : κ → Past C R → A → Prop) : Prop where
  start : ∀ k, (M.start k).Sat (P k) Q [] (Z k)
  answer : ∀ c input s, I s → Q c (M.exec c input s).2

variable {I : σ → Prop} {P : κ → Past C R → C → Prop} {Q : ∀ c, R c → Prop}
  {Z : κ → Past C R → A → Prop}

/-- What a thread remembers, it did: every answer in its past was given to it
earlier in the run. -/
def Recorded (M : Semantics C R E A σ ι κ τ) (done : List (Performed C R κ ι σ)) (i : Nat)
    (t : Thread C R E A κ) : Prop :=
  ∀ a ∈ t.past, ∃ q ∈ done, q.thread = i ∧ q.call = t.call ∧ q.answered M = a

def Thread.Sound (M : Semantics C R E A σ ι κ τ) (P : κ → Past C R → C → Prop)
    (Q : ∀ c, R c → Prop) (Z : κ → Past C R → A → Prop) (done : List (Performed C R κ ι σ))
    (i : Nat) (t : Thread C R E A κ) : Prop :=
  t.prog.Sat (P t.call) Q t.past (Z t.call) ∧ Recorded M done i t

theorem Thread.Sound.mono {done more : List (Performed C R κ ι σ)} {i : Nat}
    {t : Thread C R E A κ} (h : t.Sound M P Q Z done i) (hm : done ⊆ more) :
    t.Sound M P Q Z more i := by
  refine ⟨h.1, fun a ha => ?_⟩
  obtain ⟨q, hq, hrest⟩ := h.2 a ha
  exact ⟨q, hm hq, hrest⟩

theorem Discipline.sound (hd : Discipline M I P Q Z) (hi : Invariant M I) {s : σ} (hs : I s)
    (ms : List (Move κ ι τ)) :
    ∀ (i : Nat) (t : Thread C R E A κ), (runs M ⟨s, []⟩ ms).threads[i]? = some t →
      t.Sound M P Q Z (trace M ⟨s, []⟩ ms) i := by
  induction ms using List.reverseRecOn with
  | nil => simp [runs]
  | append_singleton ms m ih =>
      intro i t ht
      rw [runs_snoc] at ht
      rw [trace_snoc]
      cases m with
      | spawn call =>
          simp only [step] at ht
          by_cases hlt : i < (runs M ⟨s, []⟩ ms).threads.length
          · rw [List.getElem?_append_left hlt] at ht
            exact (ih i t ht).mono (List.subset_append_left _ _)
          · rw [List.getElem?_append_right (by omega)] at ht
            obtain rfl : t = ⟨call, [], M.start call⟩ := by
              simpa using List.mem_of_getElem? ht
            exact ⟨hd.start call, by simp [Recorded]⟩
      | disturb t' =>
          exact (ih i t ht).mono (List.subset_append_left _ _)
      | run j input =>
          simp only [step] at ht
          split at ht
          next call past c k hj =>
            have hsj := ih j _ hj
            have hperf : performed (runs M ⟨s, []⟩ ms) (.run j input : Move κ ι τ) =
                some ⟨j, call, past, c, input, (runs M ⟨s, []⟩ ms).state⟩ := by
              simp only [performed, hj]
            by_cases hij : j = i
            · subst hij
              have hlt := (List.getElem?_eq_some_iff.mp hj).1
              rw [List.getElem?_set_self hlt] at ht
              cases ht
              refine ⟨hsj.1.2 _ (hd.answer c input _ (hi.runs hs ms)), ?_⟩
              intro a ha
              rcases List.mem_cons.mp ha with rfl | ha
              · exact ⟨_, List.mem_append_right _ (by simp [hperf]; rfl), rfl, rfl, rfl⟩
              · obtain ⟨q, hq, hrest⟩ := hsj.2 a ha
                exact ⟨q, List.mem_append_left _ hq, hrest⟩
            · rw [List.getElem?_set_ne hij] at ht
              exact (ih i t ht).mono (List.subset_append_left _ _)
          next =>
            exact (ih i t ht).mono (List.subset_append_left _ _)

/-- Every command performed in a run is one its call may issue then, and what
its thread remembers was performed earlier in the run. -/
theorem Discipline.performed (hd : Discipline M I P Q Z) (hi : Invariant M I) {s : σ} (hs : I s)
    {ms : List (Move κ ι τ)} {m : Move κ ι τ} {p : Performed C R κ ι σ}
    (hp : performed (runs M ⟨s, []⟩ ms) m = some p) :
    P p.call p.past p.cmd ∧ ∀ a ∈ p.past, ∃ q ∈ trace M ⟨s, []⟩ ms,
      q.thread = p.thread ∧ q.call = p.call ∧ q.answered M = a := by
  cases m with
  | spawn call => cases hp
  | disturb t => cases hp
  | run i input =>
      simp only [Interleaving.performed] at hp
      split at hp
      next call past c k hi' =>
        cases hp
        obtain ⟨hsat, hrec⟩ := hd.sound hi hs ms i _ hi'
        exact ⟨hsat.1, hrec⟩
      next => cases hp

/-- A call that has ended returned a result it may end in. -/
theorem Discipline.returned (hd : Discipline M I P Q Z) (hi : Invariant M I) {s : σ} (hs : I s)
    {ms : List (Move κ ι τ)} {i : Nat} {call : κ} {past : Past C R} {a : A}
    (ht : (runs M ⟨s, []⟩ ms).threads[i]? = some ⟨call, past, .ret a⟩) :
    Z call past a ∧ ∀ b ∈ past, ∃ q ∈ trace M ⟨s, []⟩ ms,
      q.thread = i ∧ q.call = call ∧ q.answered M = b :=
  hd.sound hi hs ms i _ ht

end System
end Interleaving
