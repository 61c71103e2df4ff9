import OneCompute.Lib.Interleaving

/-!
Threads that share a state under one re-entrant lock. A thread takes and releases
the lock and performs statements between; the machine runs one instruction of one
thread at a time, changes of the environment fall anywhere, and a crash ends every
thread. Programs that take the lock block by block refine a machine whose blocks
are in progress one at a time.
-/

namespace Locking
open Interleaving (Prog)

/-- An instruction: `free` commands are answered without the lock and change nothing. -/
inductive Instr (S C : Type) where
  | acquire
  | release
  | stmt (s : S)
  | free (c : C)

abbrev Ans {S C : Type} (T : S → Type) (R : C → Type) : Instr S C → Type
  | .acquire => Unit
  | .release => Unit
  | .stmt s => T s
  | .free c => R c

section Programs
variable {S C E F A B : Type} {T : S → Type} {R : C → Type}

abbrev Code (T : S → Type) (R : C → Type) (E A : Type) := Prog (Instr S C) (Ans T R) E A

/-- Release the lock at the end, also when an exception ends the block. -/
def releasing : Code T R E A → Code T R E A
  | .ret a => .call .release fun _ => .ret a
  | .raise e => .call .release fun _ => .raise e
  | .call c k => .call c fun r => releasing (k r)

/-- `with lock: p`. -/
def locked (p : Code T R E A) : Code T R E A := .call .acquire fun _ => releasing p

/-- One statement that takes the lock for itself. -/
def execute (s : S) : Code T R E (T s) := locked (.call (.stmt s) .ret)

/-- Answer with the exception instead of raising it. -/
def attempt : Code T R E A → Code T R F (Except E A)
  | .ret a => .ret (.ok a)
  | .raise e => .ret (.error e)
  | .call c k => .call c fun r => attempt (k r)

/-- The program of a command is its block under the lock, or the command itself. -/
def lower (body : (c : C) → Option (Code T R E (R c))) : Prog C R E A → Code T R E A
  | .ret a => .ret a
  | .raise e => .raise e
  | .call c k =>
      match body c with
      | none => .call (.free c) fun r => lower body (k r)
      | some p => locked p >>= fun r => lower body (k r)

/-- Run from `d` acquisitions, the program ends with `e`, releases only what it took, and
performs statements only with the lock. -/
def Nested (e : Nat) : Nat → Code T R E A → Prop
  | d, .ret _ => d = e
  | d, .raise _ => d = e
  | d, .call .acquire k => Nested e (d + 1) (k ())
  | d, .call .release k => e < d ∧ Nested e (d - 1) (k ())
  | d, .call (.stmt _) k => 0 < d ∧ ∀ r, Nested e d (k r)
  | d, .call (.free _) k => ∀ r, Nested e d (k r)

/-- A program that can stand in a block. -/
def Balanced (p : Code T R E A) : Prop := ∀ e, 0 < e → Nested e e p

theorem nested_bind {e d : Nat} {p : Code T R E A} {f : A → Code T R E B} (hp : Nested e d p)
    (hf : ∀ a, Nested e e (f a)) : Nested e d (p >>= f) := by
  induction p generalizing d with
  | ret a =>
      have hd : d = e := hp
      rw [hd]
      exact hf a
  | raise x => exact hp
  | call c k ih =>
      cases c with
      | acquire => exact ih () hp
      | release => exact ⟨hp.1, ih () hp.2⟩
      | stmt s => exact ⟨hp.1, fun r => ih r (hp.2 r)⟩
      | free c => exact fun r => ih r (hp r)

theorem nested_releasing {e d : Nat} {p : Code T R E A} (hp : Nested (e + 1) d p) :
    Nested e d (releasing p) := by
  induction p generalizing d with
  | ret a =>
      have hd : d = e + 1 := hp
      exact ⟨by omega, show d - 1 = e by omega⟩
  | raise x =>
      have hd : d = e + 1 := hp
      exact ⟨by omega, show d - 1 = e by omega⟩
  | call c k ih =>
      cases c with
      | acquire => exact ih () hp
      | release => exact ⟨Nat.lt_of_succ_lt hp.1, ih () hp.2⟩
      | stmt s => exact ⟨hp.1, fun r => ih r (hp.2 r)⟩
      | free c => exact fun r => ih r (hp r)

theorem nested_locked {e : Nat} {p : Code T R E A} (hp : Balanced p) : Nested e e (locked p) :=
  nested_releasing (hp (e + 1) e.succ_pos)

theorem nested_attempt {e d : Nat} {p : Code T R E A} (hp : Nested e d p) :
    Nested e d (attempt p : Code T R F (Except E A)) := by
  induction p generalizing d with
  | ret a => exact hp
  | raise x => exact hp
  | call c k ih =>
      cases c with
      | acquire => exact ih () hp
      | release => exact ⟨hp.1, ih () hp.2⟩
      | stmt s => exact ⟨hp.1, fun r => ih r (hp.2 r)⟩
      | free c => exact fun r => ih r (hp r)

theorem balanced_ret (a : A) : Balanced (.ret a : Code T R E A) := fun _ _ => rfl

theorem balanced_raise (x : E) : Balanced (.raise x : Code T R E A) := fun _ _ => rfl

theorem balanced_stmt (s : S) : Balanced (.call (.stmt s) .ret : Code T R E (T s)) :=
  fun _ he => ⟨he, fun _ => rfl⟩

theorem balanced_free (c : C) : Balanced (.call (.free c) .ret : Code T R E (R c)) :=
  fun _ _ _ => rfl

theorem balanced_bind {p : Code T R E A} {f : A → Code T R E B} (hp : Balanced p)
    (hf : ∀ a, Balanced (f a)) : Balanced (p >>= f) :=
  fun e he => nested_bind (hp e he) fun a => hf a e he

theorem balanced_locked {p : Code T R E A} (hp : Balanced p) : Balanced (locked p) :=
  fun _ _ => nested_locked hp

theorem balanced_execute (s : S) : Balanced (execute s : Code T R E (T s)) :=
  balanced_locked (balanced_stmt s)

theorem balanced_attempt {p : Code T R E A} (hp : Balanced p) :
    Balanced (attempt p : Code T R F (Except E A)) :=
  fun e he => nested_attempt (hp e he)

theorem nested_lower {body : (c : C) → Option (Code T R E (R c))}
    (hb : ∀ c p, body c = some p → Balanced p) (q : Prog C R E A) :
    Nested 0 0 (lower body q) := by
  induction q with
  | ret a => rfl
  | raise x => rfl
  | call c k ih =>
      simp only [lower]
      split
      next => exact ih
      next p hp => exact nested_bind (nested_locked (hb c p hp)) ih

end Programs

/-! ## The machine with the lock -/

section Machine
variable {S C E A σ ι κ τ : Type} {T : S → Type} {R : C → Type}

/-- The holder of the lock, and how often it took it again. -/
structure Lock where
  owner : Nat
  depth : Nat

structure Thread (T : S → Type) (R : C → Type) (E A κ : Type) where
  call : κ
  code : Code T R E A

structure Sys (T : S → Type) (R : C → Type) (E A σ κ : Type) where
  state : σ
  lock : Option Lock
  threads : List (Thread T R E A κ)

inductive Move (κ ι τ : Type) where
  | spawn (call : κ)
  | run (thread : Nat) (input : ι)
  | disturb (t : τ)
  | crash

structure Semantics (T : S → Type) (R : C → Type) (E A σ ι κ τ : Type) where
  stmt : (s : S) → σ → σ × T s
  free : (c : C) → ι → σ → R c
  body : (c : C) → Option (Code T R E (R c))
  start : κ → Prog C R E A
  disturb : τ → σ → σ
  crash : σ → σ

variable (M : Semantics T R E A σ ι κ τ)

/-- A thread that asks for the lock while another holds it waits. -/
def step (s : Sys T R E A σ κ) : Move κ ι τ → Sys T R E A σ κ
  | .spawn call => { s with threads := s.threads ++ [⟨call, lower M.body (M.start call)⟩] }
  | .disturb t => { s with state := M.disturb t s.state }
  | .crash => ⟨M.crash s.state, none, []⟩
  | .run i input =>
      match s.threads[i]? with
      | some ⟨call, .call .acquire k⟩ =>
          match s.lock with
          | none => { s with lock := some ⟨i, 0⟩, threads := s.threads.set i ⟨call, k ()⟩ }
          | some l =>
              if l.owner = i then
                { s with
                  lock := some ⟨i, l.depth + 1⟩
                  threads := s.threads.set i ⟨call, k ()⟩ }
              else s
      | some ⟨call, .call .release k⟩ =>
          match s.lock with
          | none => s
          | some l =>
              if l.owner = i then
                { s with
                  lock := if l.depth = 0 then none else some ⟨i, l.depth - 1⟩
                  threads := s.threads.set i ⟨call, k ()⟩ }
              else s
      | some ⟨call, .call (.stmt c) k⟩ =>
          let out := M.stmt c s.state
          { s with state := out.1, threads := s.threads.set i ⟨call, k out.2⟩ }
      | some ⟨call, .call (.free c) k⟩ =>
          { s with threads := s.threads.set i ⟨call, k (M.free c input s.state)⟩ }
      | _ => s

def runs (s : Sys T R E A σ κ) (ms : List (Move κ ι τ)) : Sys T R E A σ κ := ms.foldl (step M) s

theorem runs_append (s : Sys T R E A σ κ) (ms ns : List (Move κ ι τ)) :
    runs M s (ms ++ ns) = runs M (runs M s ms) ns :=
  List.foldl_append

/-! ## Blocks in progress -/

/-- The block in progress: its thread, how often the lock was taken again inside, what
is left of the block, and how the thread goes on with its answer. -/
structure Held (T : S → Type) (R : C → Type) (E A : Type) where
  thread : Nat
  depth : Nat
  cmd : C
  rest : Code T R E (R cmd)
  next : R cmd → Prog C R E A

def Held.lock (h : Held T R E A) : Lock := ⟨h.thread, h.depth⟩

structure Task (R : C → Type) (E A κ : Type) where
  call : κ
  prog : Prog C R E A

/-- Threads at the level of commands, with at most one block in progress. -/
structure Blocks (T : S → Type) (R : C → Type) (E A σ κ : Type) where
  state : σ
  held : Option (Held T R E A)
  tasks : List (Task R E A κ)

/-- One step with blocks. A disturbance while a block is in progress has to be `calm`. -/
inductive Blocks.Step (calm : τ → σ → Prop) :
    Blocks T R E A σ κ → Move κ ι τ → Blocks T R E A σ κ → Prop
  | idle v m : Step calm v m v
  | spawn v call : Step calm v (.spawn call) { v with tasks := v.tasks ++ [⟨call, M.start call⟩] }
  | disturb v t (h : v.held.isSome = true → calm t v.state) :
      Step calm v (.disturb t) { v with state := M.disturb t v.state }
  | crash v : Step calm v .crash ⟨M.crash v.state, none, []⟩
  | free v i input call c k (ht : v.tasks[i]? = some ⟨call, .call c k⟩) (hc : M.body c = none)
      (hi : ∀ h, v.held = some h → h.thread ≠ i) :
      Step calm v (.run i input)
        { v with tasks := v.tasks.set i ⟨call, k (M.free c input v.state)⟩ }
  | enter s tasks i input call c k p (ht : tasks[i]? = some ⟨call, .call c k⟩)
      (hc : M.body c = some p) :
      Step calm ⟨s, none, tasks⟩ (.run i input) ⟨s, some ⟨i, 0, c, p, k⟩, tasks⟩
  | retake s tasks i input d c j k :
      Step calm ⟨s, some ⟨i, d, c, .call .acquire j, k⟩, tasks⟩ (.run i input)
        ⟨s, some ⟨i, d + 1, c, j (), k⟩, tasks⟩
  | untake s tasks i input d c j k :
      Step calm ⟨s, some ⟨i, d, c, .call .release j, k⟩, tasks⟩ (.run i input)
        ⟨s, some ⟨i, d - 1, c, j (), k⟩, tasks⟩
  | stmt s tasks i input d c b j k :
      Step calm ⟨s, some ⟨i, d, c, .call (.stmt b) j, k⟩, tasks⟩ (.run i input)
        ⟨(M.stmt b s).1, some ⟨i, d, c, j (M.stmt b s).2, k⟩, tasks⟩
  | inner s tasks i input d c b j k :
      Step calm ⟨s, some ⟨i, d, c, .call (.free b) j, k⟩, tasks⟩ (.run i input)
        ⟨s, some ⟨i, d, c, j (M.free b input s), k⟩, tasks⟩
  | leave s tasks i input call c k r (ht : tasks[i]? = some ⟨call, .call c k⟩) :
      Step calm ⟨s, some ⟨i, 0, c, .ret r, k⟩, tasks⟩ (.run i input)
        ⟨s, none, tasks.set i ⟨call, k r⟩⟩
  | abort s tasks i input call c k e (ht : tasks[i]? = some ⟨call, .call c k⟩) :
      Step calm ⟨s, some ⟨i, 0, c, .raise e, k⟩, tasks⟩ (.run i input)
        ⟨s, none, tasks.set i ⟨call, .raise e⟩⟩

/-- The instructions thread `i` still has to run. -/
def Blocks.code (held : Option (Held T R E A)) (i : Nat) (q : Prog C R E A) : Code T R E A :=
  match held with
  | none => lower M.body q
  | some h =>
      if h.thread = i then releasing h.rest >>= fun r => lower M.body (h.next r)
      else lower M.body q

/-- The machine with the lock seen as the machine with blocks. -/
structure View (s : Sys T R E A σ κ) (v : Blocks T R E A σ κ) : Prop where
  state : s.state = v.state
  lock : s.lock = v.held.map Held.lock
  threads : ∀ i, s.threads[i]? =
    v.tasks[i]?.map fun t => Thread.mk t.call (Blocks.code M v.held i t.prog)

/-- The block in progress belongs to a thread that waits for its answer. -/
def Blocks.Ok (v : Blocks T R E A σ κ) : Prop :=
  ∀ h, v.held = some h → Nested 1 (h.depth + 1) h.rest ∧
    ∃ call, v.tasks[h.thread]? = some ⟨call, .call h.cmd h.next⟩

variable {M} {calm : τ → σ → Prop} {s : Sys T R E A σ κ} {v : Blocks T R E A σ κ}

theorem code_other {held : Option (Held T R E A)} {i : Nat}
    (hi : ∀ h, held = some h → h.thread ≠ i) (q : Prog C R E A) :
    Blocks.code M held i q = lower M.body q := by
  cases held with
  | none => rfl
  | some h => exact if_neg (hi h rfl)

theorem code_holder {h : Held T R E A} (q : Prog C R E A) :
    Blocks.code M (some h) h.thread q =
      releasing h.rest >>= fun r => lower M.body (h.next r) :=
  if_pos rfl

theorem set_at {tasks : List (Task R E A κ)} {i : Nat} {t : Task R E A κ}
    (ht : tasks[i]? = some t) (t' : Task R E A κ) : (tasks.set i t')[i]? = some t' :=
  List.getElem?_set_self (List.getElem?_eq_some_iff.mp ht).1

theorem set_other {tasks : List (Task R E A κ)} {i : Nat} (t' : Task R E A κ) (j : Nat)
    (hj : j ≠ i) : (tasks.set i t')[j]? = tasks[j]? :=
  List.getElem?_set_ne (Ne.symm hj)

/-- One thread moves on, and the block in progress is its own before and after. -/
theorem View.move (hv : View M s v) {i : Nat} {t : Task R E A κ} (ht : v.tasks[i]? = some t)
    {held : Option (Held T R E A)} {state : σ} {lock : Option Lock} {call : κ} {q : Prog C R E A}
    {code : Code T R E A} {tasks : List (Task R E A κ)} (hq : tasks[i]? = some ⟨call, q⟩)
    (hne : ∀ j, j ≠ i → tasks[j]? = v.tasks[j]?) (hcode : Blocks.code M held i q = code)
    (hlock : lock = held.map Held.lock)
    (hother : ∀ j, j ≠ i → ∀ q, Blocks.code M held j q = Blocks.code M v.held j q) :
    View M ⟨state, lock, s.threads.set i ⟨call, code⟩⟩ ⟨state, held, tasks⟩ := by
  refine ⟨rfl, hlock, fun j => ?_⟩
  have hlen : i < s.threads.length := by
    apply (List.getElem?_eq_some_iff.mp (Eq.trans (hv.threads i) (congrArg _ ht))).1
  by_cases hij : j = i
  · subst hij
    rw [List.getElem?_set_self hlen, hq, ← hcode]
    rfl
  · rw [List.getElem?_set_ne (Ne.symm hij), hne j hij, hv.threads j]
    cases v.tasks[j]? with
    | none => rfl
    | some t' => simp only [Option.map_some, hother j hij]

theorem View.length (hv : View M s v) : s.threads.length = v.tasks.length := by
  have hnone : ∀ i : Nat, s.threads[i]? = none ↔ v.tasks[i]? = none := by
    intro i
    rw [hv.threads i, Option.map_eq_none_iff]
  simp only [List.getElem?_eq_none_iff] at hnone
  exact Nat.le_antisymm ((hnone _).mpr (Nat.le_refl _)) ((hnone _).mp (Nat.le_refl _))

theorem View.thread (hv : View M s v) {i : Nat} {t : Task R E A κ} (ht : v.tasks[i]? = some t) :
    s.threads[i]? = some ⟨t.call, Blocks.code M v.held i t.prog⟩ := by
  rw [hv.threads i, ht]
  rfl

/-- The thread of the block in progress runs the next instruction of the block. -/
theorem View.run_holder (hv : View M s v) (hok : v.Ok) {h : Held T R E A} (hh : v.held = some h)
    (input : ι) : ∃ v', Blocks.Step M calm v (.run h.thread input) v' ∧
      View M (step M s (.run h.thread input)) v' ∧ v'.Ok := by
  obtain ⟨state, held, tasks⟩ := v
  obtain rfl : held = some h := hh
  obtain ⟨i, d, c, rest, k⟩ := h
  obtain ⟨hn, call, ht⟩ := hok _ rfl
  have hthread := hv.thread ht
  rw [code_holder] at hthread
  have hlock : s.lock = some ⟨i, d⟩ := hv.lock
  have hsame : ∀ (l : List (Task R E A κ)) (j : Nat), j ≠ i → l[j]? = l[j]? := fun _ _ _ => rfl
  have hother : ∀ {c' : C} {d' : Nat} {rest' : Code T R E (R c')} {k' : R c' → Prog C R E A}
      (j : Nat), j ≠ i → ∀ q, Blocks.code M (some ⟨i, d', c', rest', k'⟩) j q =
        Blocks.code M (some ⟨i, d, c, rest, k⟩) j q := by
    intro c' d' rest' k' j hj q
    rw [Blocks.code, Blocks.code, if_neg (Ne.symm hj), if_neg (Ne.symm hj)]
  have hfree : ∀ (j : Nat), j ≠ i → ∀ q, Blocks.code M none j q =
      Blocks.code M (some ⟨i, d, c, rest, k⟩) j q := by
    intro j hj q
    exact (if_neg (Ne.symm hj)).symm
  cases rest with
  | ret r =>
      obtain rfl : d = 0 := Nat.succ.inj hn
      have hcode : s.threads[i]? = some ⟨call, .call .release fun _ => lower M.body (k r)⟩ := hthread
      refine ⟨_, .leave state tasks i input call c k r ht, ?_, fun h hh => nomatch hh⟩
      simp only [step, hcode, hlock, if_true, hv.state]
      exact hv.move ht (set_at ht _) (set_other _) rfl rfl hfree
  | raise e =>
      obtain rfl : d = 0 := Nat.succ.inj hn
      have hcode : s.threads[i]? = some ⟨call, .call .release fun _ => .raise e⟩ := hthread
      refine ⟨_, .abort state tasks i input call c k e ht, ?_, fun h hh => nomatch hh⟩
      simp only [step, hcode, hlock, if_true, hv.state]
      exact hv.move ht (set_at ht _) (set_other _) rfl rfl hfree
  | call b j =>
      have hcode : s.threads[i]? = some ⟨call, .call b fun r =>
          releasing (j r) >>= fun r => lower M.body (k r)⟩ := hthread
      cases b with
      | acquire =>
          refine ⟨_, .retake state tasks i input d c j k, ?_, ?_⟩
          · simp only [step, hcode, hlock, if_true, hv.state]
            exact hv.move ht ht (hsame tasks) (code_holder _) rfl hother
          · intro h hh
            cases hh
            exact ⟨hn, call, ht⟩
      | release =>
          have hpos : 1 < d + 1 := hn.1
          refine ⟨_, .untake state tasks i input d c j k, ?_, ?_⟩
          · simp only [step, hcode, hlock, if_true, hv.state, if_neg (show ¬ d = 0 by omega)]
            exact hv.move ht ht (hsame tasks) (code_holder _) rfl hother
          · intro h hh
            cases hh
            have hn' : Nested 1 (d + 1 - 1) (j ()) := hn.2
            exact ⟨by rwa [show d - 1 + 1 = d + 1 - 1 by omega], call, ht⟩
      | stmt b =>
          refine ⟨_, .stmt state tasks i input d c b j k, ?_, ?_⟩
          · simp only [step, hcode, hv.state]
            exact hv.move ht ht (hsame tasks) (code_holder _) hv.lock hother
          · intro h hh
            cases hh
            exact ⟨hn.2 _, call, ht⟩
      | free b =>
          refine ⟨_, .inner state tasks i input d c b j k, ?_, ?_⟩
          · simp only [step, hcode, hv.state]
            exact hv.move ht ht (hsame tasks) (code_holder _) hv.lock hother
          · intro h hh
            cases hh
            exact ⟨hn _, call, ht⟩

variable (hb : ∀ c p, M.body c = some p → Balanced p)
include hb

/-- A thread outside a block runs an unlocked command, enters a block or waits. -/
theorem View.run_outside (hv : View M s v) (hok : v.Ok) {i : Nat} {input : ι} {t : Task R E A κ}
    (ht : v.tasks[i]? = some t) (hi : ∀ h, v.held = some h → h.thread ≠ i) :
    ∃ v', Blocks.Step M calm v (.run i input) v' ∧ View M (step M s (.run i input)) v' ∧ v'.Ok := by
  obtain ⟨call, q⟩ := t
  have hthread := hv.thread ht
  rw [code_other hi] at hthread
  cases q with
  | ret a => exact ⟨v, .idle _ _, by simpa only [step, hthread, lower] using hv, hok⟩
  | raise e => exact ⟨v, .idle _ _, by simpa only [step, hthread, lower] using hv, hok⟩
  | call c k =>
      cases hc : M.body c with
      | none =>
          refine ⟨_, .free v i input call c k ht hc hi, ?_, ?_⟩
          · simp only [lower, hc] at hthread
            simp only [step, hthread, hv.state]
            exact hv.move ht (set_at ht _) (set_other _) (code_other hi _) hv.lock
              fun _ _ _ => rfl
          · intro h hh
            obtain ⟨hn, call', hcall'⟩ := hok h hh
            exact ⟨hn, call', by rw [List.getElem?_set_ne (Ne.symm (hi h hh))]; exact hcall'⟩
      | some p =>
          have hcode : s.threads[i]? = some ⟨call, .call .acquire fun _ =>
              releasing p >>= fun r => lower M.body (k r)⟩ := by
            rw [hthread]
            simp only [lower, hc]
            rfl
          obtain ⟨state, held, tasks⟩ := v
          cases held with
          | none =>
              refine ⟨_, .enter state tasks i input call c k p ht hc, ?_, ?_⟩
              · simp only [step, hcode, hv.lock, Option.map_none, hv.state]
                exact hv.move ht ht (fun _ _ => rfl) (if_pos rfl) rfl
                  fun j hj _ => if_neg (Ne.symm hj)
              · intro h hh
                cases hh
                exact ⟨hb c p hc 1 Nat.one_pos, call, ht⟩
          | some h =>
              refine ⟨_, .idle _ _, ?_, hok⟩
              have hne : (Held.lock h).owner ≠ i := hi h rfl
              simpa only [step, hcode, hv.lock, Option.map_some, if_neg hne] using hv

/-- The machine with the lock runs its blocks one after the other. -/
theorem View.step (calm : τ → σ → Prop) (hv : View M s v) (hok : v.Ok) (m : Move κ ι τ)
    (hm : ∀ t, m = .disturb t → s.lock.isSome = true → calm t s.state) :
    ∃ v', Blocks.Step M calm v m v' ∧ View M (step M s m) v' ∧ v'.Ok := by
  cases m with
  | spawn call =>
      refine ⟨_, .spawn v call, ⟨hv.state, hv.lock, fun i => ?_⟩, ?_⟩
      · have hlen : s.threads.length = v.tasks.length := hv.length
        simp only [Locking.step]
        by_cases hlt : i < v.tasks.length
        · rw [List.getElem?_append_left (hlen ▸ hlt), List.getElem?_append_left hlt]
          exact hv.threads i
        · have hge : v.tasks.length ≤ i := Nat.le_of_not_lt hlt
          have hout : ∀ h, v.held = some h → h.thread ≠ i := by
            intro h hh hi
            obtain ⟨-, call', ht⟩ := hok h hh
            exact hlt (hi ▸ (List.getElem?_eq_some_iff.mp ht).1)
          rw [List.getElem?_append_right (hlen ▸ hge), List.getElem?_append_right hge, hlen]
          cases i - v.tasks.length with
          | zero => simp only [List.getElem?_cons_zero, Option.map_some, code_other hout]
          | succ n => rfl
      · intro h hh
        obtain ⟨hn, call', ht⟩ := hok h hh
        refine ⟨hn, call', ?_⟩
        rw [List.getElem?_append_left (List.getElem?_eq_some_iff.mp ht).1]
        exact ht
  | disturb t =>
      refine ⟨_, .disturb v t fun hheld => ?_, ⟨congrArg (M.disturb t) hv.state, hv.lock,
        hv.threads⟩, hok⟩
      rw [← hv.state]
      exact hm t rfl (by rw [hv.lock, Option.isSome_map]; exact hheld)
  | crash =>
      refine ⟨_, .crash v, ⟨congrArg M.crash hv.state, rfl, fun i => rfl⟩, fun h hh => nomatch hh⟩
  | run i input =>
      cases ht : v.tasks[i]? with
      | none =>
          have hnone : s.threads[i]? = none := by rw [hv.threads i, ht]; rfl
          exact ⟨v, .idle _ _, by simpa only [Locking.step, hnone] using hv, hok⟩
      | some t =>
          by_cases hi : ∀ h, v.held = some h → h.thread ≠ i
          · exact hv.run_outside hb hok ht hi
          · simp only [not_forall, not_not] at hi
            obtain ⟨h, hh, rfl⟩ := hi
            exact hv.run_holder hok hh input

/-! ## What holds in every run -/

/-- Rule of induction over runs: what the steps with blocks keep, every run keeps. -/
theorem View.runs (calm : τ → σ → Prop) {I : Blocks T R E A σ κ → Prop} {s₀ : σ}
    (hI : I ⟨s₀, none, []⟩)
    {ms : List (Move κ ι τ)}
    (hstep : ∀ v m v', m ∈ ms → Blocks.Step M calm v m v' → I v → I v')
    (hm : ∀ ns t, ns ++ [.disturb t] <+: ms → (runs M ⟨s₀, none, []⟩ ns).lock.isSome = true →
      calm t (runs M ⟨s₀, none, []⟩ ns).state) :
    ∃ v, View M (runs M ⟨s₀, none, []⟩ ms) v ∧ v.Ok ∧ I v := by
  induction ms using List.reverseRecOn with
  | nil => exact ⟨⟨s₀, none, []⟩, ⟨rfl, rfl, fun i => rfl⟩, fun h hh => (nomatch hh), hI⟩
  | append_singleton ms m ih =>
      obtain ⟨v, hv, hok, hi⟩ := ih
        (fun v m' v' hm' => hstep v m' v' (List.mem_append_left _ hm'))
        (fun ns t hns => hm ns t (hns.trans (List.prefix_append _ _)))
      obtain ⟨v', hs, hv', hok'⟩ := hv.step hb calm hok m fun t ht => hm ms t (ht ▸ List.prefix_refl _)
      refine ⟨v', ?_, hok', hstep v m v' (List.mem_append_right _ (List.mem_singleton_self m)) hs hi⟩
      rw [runs_append]
      exact hv'

/-- Any disturbance is calm. -/
theorem View.exists_run (s₀ : σ) (ms : List (Move κ ι τ)) :
    ∃ v, View M (Locking.runs M ⟨s₀, none, []⟩ ms) v ∧ v.Ok := by
  have h : ∃ v, View M (Locking.runs M ⟨s₀, none, []⟩ ms) v ∧ v.Ok ∧ True :=
    View.runs hb (fun _ _ => True) trivial (fun _ _ _ _ _ _ => trivial) fun _ _ _ _ => trivial
  obtain ⟨v, hv, hok, -⟩ := h
  exact ⟨v, hv, hok⟩

/-- How often thread `i` holds the lock. -/
def Lock.times (lock : Option Lock) (i : Nat) : Nat :=
  match lock with
  | none => 0
  | some l => if l.owner = i then l.depth + 1 else 0

theorem View.nested (hv : View M s v) (hok : v.Ok) {i : Nat} {t : Thread T R E A κ}
    (ht : s.threads[i]? = some t) : Nested 0 (Lock.times s.lock i) t.code := by
  rw [hv.threads i, Option.map_eq_some_iff] at ht
  obtain ⟨task, -, rfl⟩ := ht
  rw [hv.lock]
  cases hh : v.held with
  | none => exact nested_lower hb task.prog
  | some h =>
      by_cases hi : h.thread = i
      · subst hi
        rw [code_holder]
        have hn := nested_bind (nested_releasing (hok h hh).1) fun r => nested_lower hb (h.next r)
        simpa only [Option.map_some, Lock.times, Held.lock, if_true] using hn
      · have hother : ∀ h', some h = some h' → h'.thread ≠ i := by
          intro h' hh'
          cases hh'
          exact hi
        rw [code_other hother]
        simpa only [Option.map_some, Lock.times, Held.lock, if_neg hi] using
          nested_lower hb task.prog

/-- A statement is performed by the thread that holds the lock only. -/
theorem exclusive {s₀ : σ} {ms : List (Move κ ι τ)} {i : Nat} {call : κ} {b : S}
    {k : T b → Code T R E A}
    (ht : (Locking.runs M ⟨s₀, none, []⟩ ms).threads[i]? = some ⟨call, .call (.stmt b) k⟩) :
    ∃ l, (Locking.runs M ⟨s₀, none, []⟩ ms).lock = some l ∧ l.owner = i := by
  obtain ⟨v, hv, hok⟩ := View.exists_run hb s₀ ms
  have hpos : 0 < Lock.times (Locking.runs M ⟨s₀, none, []⟩ ms).lock i := (hv.nested hb hok ht).1
  cases hl : (Locking.runs M ⟨s₀, none, []⟩ ms).lock with
  | none =>
      rw [hl] at hpos
      exact absurd hpos (Nat.lt_irrefl 0)
  | some l =>
      refine ⟨l, rfl, Decidable.byContradiction fun hne => ?_⟩
      rw [hl, Lock.times, if_neg hne] at hpos
      exact Nat.lt_irrefl 0 hpos

/-! ## No deadlock -/

def Finished : Code T R E A → Prop
  | .call _ _ => False
  | _ => True

/-- The lock when thread `i` alone may hold it, `d` times. -/
def Lock.heldBy (i : Nat) : Nat → Option Lock
  | 0 => none
  | d + 1 => some ⟨i, d⟩

omit hb in
theorem run_stmt {i : Nat} {input : ι} {call : κ} {b : S} {k : T b → Code T R E A}
    (ht : s.threads[i]? = some ⟨call, .call (.stmt b) k⟩) :
    step M s (.run i input) =
      { s with
        state := (M.stmt b s.state).1
        threads := s.threads.set i ⟨call, k (M.stmt b s.state).2⟩ } := by
  simp only [Locking.step, ht]

omit hb in
theorem run_free {i : Nat} {input : ι} {call : κ} {c : C} {k : R c → Code T R E A}
    (ht : s.threads[i]? = some ⟨call, .call (.free c) k⟩) :
    step M s (.run i input) =
      { s with threads := s.threads.set i ⟨call, k (M.free c input s.state)⟩ } := by
  simp only [Locking.step, ht]

omit hb in
theorem run_acquire {i d : Nat} {input : ι} {call : κ} {k : Unit → Code T R E A}
    (ht : s.threads[i]? = some ⟨call, .call .acquire k⟩) (hl : s.lock = Lock.heldBy i d) :
    step M s (.run i input) =
      { s with lock := Lock.heldBy i (d + 1), threads := s.threads.set i ⟨call, k ()⟩ } := by
  cases d with
  | zero => simp only [Locking.step, ht, hl, Lock.heldBy]
  | succ d => simp only [Locking.step, ht, hl, Lock.heldBy, if_true]

omit hb in
theorem run_release {i d : Nat} {input : ι} {call : κ} {k : Unit → Code T R E A}
    (ht : s.threads[i]? = some ⟨call, .call .release k⟩) (hl : s.lock = Lock.heldBy i (d + 1)) :
    step M s (.run i input) =
      { s with lock := Lock.heldBy i d, threads := s.threads.set i ⟨call, k ()⟩ } := by
  cases d with
  | zero => simp only [Locking.step, ht, hl, Lock.heldBy, if_true]
  | succ d =>
      simp only [Locking.step, ht, hl, Lock.heldBy, if_true, if_neg (Nat.succ_ne_zero d)]
      rfl

/-- From `s` thread `i`, run alone, ends and leaves the lock free. -/
def Ends (M : Semantics T R E A σ ι κ τ) (input : ι) (i : Nat) (call : κ) (s : Sys T R E A σ κ) :
    Prop :=
  ∃ n, (Locking.runs M s (List.replicate n (.run i input))).lock = none ∧
    ∃ p, Finished p ∧ (Locking.runs M s (List.replicate n (.run i input))).threads =
      s.threads.set i ⟨call, p⟩

omit hb in
theorem ends_of_finished {input : ι} {i : Nat} {call : κ} {p : Code T R E A}
    (ht : s.threads[i]? = some ⟨call, p⟩) (hp : Finished p) (hl : s.lock = none) :
    Ends M input i call s := by
  refine ⟨0, hl, p, hp, ?_⟩
  obtain ⟨hlt, hget⟩ := List.getElem?_eq_some_iff.mp ht
  rw [← hget]
  exact (List.set_getElem_self hlt).symm

omit hb in
theorem ends_of_step {input : ι} {i : Nat} {call : κ} {p : Code T R E A} {state : σ}
    {lock : Option Lock}
    (hs : step M s (.run i input) = ⟨state, lock, s.threads.set i ⟨call, p⟩⟩)
    (h : Ends M input i call ⟨state, lock, s.threads.set i ⟨call, p⟩⟩) : Ends M input i call s := by
  obtain ⟨n, hl, p', hp', ht⟩ := h
  have hrun : Locking.runs M s (List.replicate (n + 1) (.run i input)) =
      Locking.runs M ⟨state, lock, s.threads.set i ⟨call, p⟩⟩
        (List.replicate n (.run i input)) := by
    rw [List.replicate_succ, Locking.runs, List.foldl_cons, hs]
    rfl
  refine ⟨n + 1, by rw [hrun]; exact hl, p', hp', ?_⟩
  rw [hrun, ht, List.set_set]

omit hb in
/-- A thread that no other keeps from the lock runs to its end. -/
theorem ends (input : ι) {i : Nat} {p : Code T R E A} {d : Nat} {s : Sys T R E A σ κ} {call : κ}
    (ht : s.threads[i]? = some ⟨call, p⟩) (hn : Nested 0 d p) (hl : s.lock = Lock.heldBy i d) :
    Ends M input i call s := by
  have hset : ∀ p', (s.threads.set i (⟨call, p'⟩ : Thread T R E A κ))[i]? = some ⟨call, p'⟩ :=
    fun p' => List.getElem?_set_self (List.getElem?_eq_some_iff.mp ht).1
  induction p generalizing d s with
  | ret a =>
      obtain rfl : d = 0 := hn
      exact ends_of_finished ht trivial hl
  | raise e =>
      obtain rfl : d = 0 := hn
      exact ends_of_finished ht trivial hl
  | call c k ih =>
      cases c with
      | acquire =>
          refine ends_of_step (run_acquire ht hl) (ih () (hset _) hn rfl ?_)
          exact fun p' => by rw [List.set_set]; exact hset p'
      | release =>
          obtain ⟨d, rfl⟩ : ∃ d', d = d' + 1 := Nat.exists_eq_add_of_lt hn.1 |>.imp fun _ h => by omega
          refine ends_of_step (run_release ht hl) (ih () (hset _) hn.2 rfl ?_)
          exact fun p' => by rw [List.set_set]; exact hset p'
      | stmt b =>
          refine ends_of_step (run_stmt ht) (ih _ (hset _) (hn.2 _) hl ?_)
          exact fun p' => by rw [List.set_set]; exact hset p'
      | free b =>
          refine ends_of_step (run_free ht) (ih _ (hset _) (hn _) hl ?_)
          exact fun p' => by rw [List.set_set]; exact hset p'

/-- A move that runs a thread with the given input. -/
def Runs (input : ι) (m : Move κ ι τ) : Prop := ∃ i, m = .run i input

omit hb in
/-- With the lock free, the threads from the first on are run to their ends. -/
theorem ends_upto (input : ι) {s : Sys T R E A σ κ} (hl : s.lock = none)
    (hn : ∀ (i : Nat) (t : Thread T R E A κ), s.threads[i]? = some t → Nested 0 0 t.code) (k : Nat) :
    ∃ ns : List (Move κ ι τ), (∀ m ∈ ns, Runs input m) ∧ (Locking.runs M s ns).lock = none ∧
      (Locking.runs M s ns).threads.length = s.threads.length ∧
      ∀ (i : Nat) (t : Thread T R E A κ), (Locking.runs M s ns).threads[i]? = some t →
        if i < k then Finished t.code else s.threads[i]? = some t := by
  induction k with
  | zero => exact ⟨[], List.forall_mem_nil _, hl, rfl, fun i t ht => ht⟩
  | succ k ih =>
      obtain ⟨ns, hns, hlock, hlen, hthreads⟩ := ih
      cases hk : (Locking.runs M s ns).threads[k]? with
      | none =>
          refine ⟨ns, hns, hlock, hlen, fun i t ht => ?_⟩
          have hik : i < k :=
            Nat.lt_of_lt_of_le (List.getElem?_eq_some_iff.mp ht).1 (List.getElem?_eq_none_iff.mp hk)
          have h := hthreads i t ht
          rw [if_pos hik] at h
          rwa [if_pos (Nat.lt_succ_of_lt hik)]
      | some t =>
          have ht := hthreads k t hk
          rw [if_neg (Nat.lt_irrefl k)] at ht
          obtain ⟨call, code⟩ := t
          obtain ⟨n, hl', p, hp, hset⟩ := ends (M := M) input hk (hn k ⟨call, code⟩ ht) hlock
          refine ⟨ns ++ List.replicate n (.run k input), ?_, ?_, ?_, ?_⟩
          · intro m hm
            cases List.mem_append.mp hm with
            | inl hm => exact hns m hm
            | inr hm => exact ⟨k, List.eq_of_mem_replicate hm⟩
          · rw [runs_append]
            exact hl'
          · rw [runs_append, hset, List.length_set, hlen]
          · intro i t' ht'
            rw [runs_append, hset] at ht'
            by_cases hik : i = k
            · subst hik
              rw [List.getElem?_set_self (List.getElem?_eq_some_iff.mp hk).1] at ht'
              cases ht'
              rw [if_pos (Nat.lt_succ_self i)]
              exact hp
            · rw [List.getElem?_set_ne (Ne.symm hik)] at ht'
              have h := hthreads i t' ht'
              by_cases hlt : i < k
              · rw [if_pos hlt] at h
                rwa [if_pos (Nat.lt_succ_of_lt hlt)]
              · rw [if_neg hlt] at h
                rwa [if_neg (by omega)]

/-- No run ends in a deadlock: whatever has happened, every thread can be run to its
end. -/
theorem drains (input : ι) (s₀ : σ) (ms : List (Move κ ι τ)) :
    ∃ ns : List (Move κ ι τ), (∀ m ∈ ns, Runs input m) ∧
      (Locking.runs M ⟨s₀, none, []⟩ (ms ++ ns)).lock = none ∧
      ∀ t ∈ (Locking.runs M ⟨s₀, none, []⟩ (ms ++ ns)).threads, Finished t.code := by
  obtain ⟨v, hv, hok⟩ := View.exists_run hb s₀ ms
  -- first the thread of the block in progress, then the others in turn
  obtain ⟨ns₁, hns₁, hlock, hn⟩ : ∃ ns₁ : List (Move κ ι τ), (∀ m ∈ ns₁, Runs input m) ∧
      (Locking.runs M ⟨s₀, none, []⟩ (ms ++ ns₁)).lock = none ∧
      ∀ (i : Nat) (t : Thread T R E A κ),
        (Locking.runs M ⟨s₀, none, []⟩ (ms ++ ns₁)).threads[i]? = some t → Nested 0 0 t.code := by
    have hn := fun (i : Nat) (t : Thread T R E A κ) ht => hv.nested hb hok (i := i) (t := t) ht
    cases hh : v.held with
    | none =>
        have hlock := hv.lock
        rw [hh] at hlock
        refine ⟨[], List.forall_mem_nil _, ?_, ?_⟩
        · rwa [List.append_nil]
        · rw [hlock] at hn
          rwa [List.append_nil]
    | some h =>
        have hlock : (Locking.runs M ⟨s₀, none, []⟩ ms).lock = some h.lock := by rw [hv.lock, hh]; rfl
        rw [hlock] at hn
        obtain ⟨-, call, ht⟩ := hok h hh
        have hthread := hv.thread ht
        have hdepth := hn _ _ hthread
        rw [Lock.times, Held.lock, if_pos rfl] at hdepth
        obtain ⟨n, hl', p, hp, hset⟩ := ends (M := M) input hthread hdepth hlock
        refine ⟨List.replicate n (.run h.thread input),
          fun m hm => ⟨h.thread, List.eq_of_mem_replicate hm⟩, ?_, fun i t hi => ?_⟩
        · rw [runs_append]
          exact hl'
        · rw [runs_append, hset] at hi
          by_cases hih : i = h.thread
          · subst hih
            rw [List.getElem?_set_self (List.getElem?_eq_some_iff.mp hthread).1] at hi
            cases hi
            cases p with
            | ret a => rfl
            | raise e => rfl
            | call c k => exact hp.elim
          · rw [List.getElem?_set_ne (Ne.symm hih)] at hi
            have h0 := hn i t hi
            rwa [Lock.times, Held.lock, if_neg (Ne.symm hih)] at h0
  obtain ⟨ns₂, hns₂, hlock₂, hlen, hthreads⟩ := ends_upto (M := M) input hlock hn
    (Locking.runs M ⟨s₀, none, []⟩ (ms ++ ns₁)).threads.length
  refine ⟨ns₁ ++ ns₂, ?_, ?_, ?_⟩
  · intro m hm
    cases List.mem_append.mp hm with
    | inl hm => exact hns₁ m hm
    | inr hm => exact hns₂ m hm
  · rw [← List.append_assoc, runs_append]
    exact hlock₂
  · intro t ht
    rw [← List.append_assoc, runs_append] at ht
    obtain ⟨i, hi⟩ := List.mem_iff_getElem?.mp ht
    have hdone := hthreads i t hi
    rwa [if_pos (hlen ▸ (List.getElem?_eq_some_iff.mp hi).1)] at hdone

end Machine
end Locking
