import Mathlib.Data.List.Basic
import Mathlib.Data.List.Nodup
import Mathlib.Data.List.Perm.Basic
import OneCompute.Lib.Results

/-!
Running a function over tasks: in a pool of processes, whose results are collected as
they complete, or one task after the other. `shouldYield k` is the answer to the k-th
poll.
-/

namespace OneCompute.Jobkit
variable {τ ρ ε : Type}

/-- The machine a tile runs on. `rounds` are the sets of futures that `wait` returns
one after the other, each in the order in which it is gone through. -/
structure Host where
  cores : Nat
  poolStarts : Bool := true
  rounds : List (List Nat) := []

/-- Every future of `n` tasks is returned by `wait` once. -/
def Host.Completes (host : Host) (n : Nat) : Prop := host.rounds.flatten.Perm (List.range n)

def Host.pooled (host : Host) (tasks : List τ) : Bool :=
  decide (1 < host.cores) && decide (1 < tasks.length) && host.poolStarts

/-- `future.result()`; the exception of a task is dropped. -/
def resultOf (fn : τ → Except ε ρ) (tasks : List τ) (i : Nat) : Option ρ :=
  tasks[i]?.bind fun task => (fn task).toOption

def runPool (fn : τ → Except ε ρ) (tasks : List τ) (shouldYield : Nat → Bool) :
    Nat → List (List Nat) → List Nat → List ρ × Bool
  | _, [], _ => ([], false)
  | polls, done :: rounds, pending =>
      if pending = [] then ([], false)
      else if shouldYield polls then ([], true)
      else
        let later := runPool fn tasks shouldYield (polls + 1) rounds
          (pending.filter fun i => i ∉ done)
        (done.filterMap (resultOf fn tasks) ++ later.1, later.2)

def runInProcess (fn : τ → Except ε ρ) (shouldYield : Nat → Bool) :
    Nat → List τ → Except ε (List ρ × Bool)
  | _, [] => .ok ([], false)
  | polls, task :: rest =>
      if shouldYield polls then .ok ([], true)
      else do
        let result ← fn task
        let later ← runInProcess fn shouldYield (polls + 1) rest
        return (result :: later.1, later.2)

/-- `_parallel_map` -/
def parallelMap (host : Host) (fn : τ → Except ε ρ) (tasks : List τ) (shouldYield : Nat → Bool) :
    Except ε (List ρ × Bool) :=
  if host.pooled tasks then
    .ok (runPool fn tasks shouldYield 0 host.rounds (List.range tasks.length))
  else runInProcess fn shouldYield 0 tasks

/-! ## Without a yield -/

def never : Nat → Bool := fun _ => false

theorem runPool_never (fn : τ → Except ε ρ) (tasks : List τ) {rounds : List (List Nat)}
    {pending : List Nat} (hnodup : pending.Nodup) (h : rounds.flatten.Perm pending) (polls : Nat) :
    runPool fn tasks never polls rounds pending =
      (rounds.flatten.filterMap (resultOf fn tasks), false) := by
  induction rounds generalizing pending polls with
  | nil => rfl
  | cons done rounds ih =>
      rw [List.flatten_cons] at h ⊢
      unfold runPool
      split
      next hnil =>
        subst hnil
        rw [h.eq_nil]
        rfl
      next =>
        have hrest : rounds.flatten.Perm (pending.filter fun i => i ∉ done) := by
          have hparts := (h.symm.nodup hnodup)
          have hfilter := h.filter fun i => decide (i ∉ done)
          have hdone : done.filter (fun i => decide (i ∉ done)) = [] := by
            simp [List.filter_eq_nil_iff]
          have hlater : rounds.flatten.filter (fun i => decide (i ∉ done)) = rounds.flatten := by
            rw [List.filter_eq_self]
            intro i hi
            have hdisjoint := List.disjoint_of_nodup_append hparts
            simpa using fun hd => hdisjoint hd hi
          rw [List.filter_append, hdone, hlater, List.nil_append] at hfilter
          exact hfilter
        have hnever : ¬ never polls = true := Bool.false_ne_true
        rw [if_neg hnever, ih (hnodup.filter _) hrest, List.filterMap_append]

/-- The pool collects the results of the tasks that did not raise. -/
theorem runPool_perm {host : Host} {tasks : List τ} (fn : τ → Except ε ρ)
    (h : host.Completes tasks.length) :
    ∃ results, runPool fn tasks never 0 host.rounds (List.range tasks.length) = (results, false) ∧
      results.Perm (tasks.filterMap fun task => (fn task).toOption) := by
  refine ⟨_, runPool_never fn tasks List.nodup_range h 0, ?_⟩
  have hrange : ∀ ts : List τ, (List.range ts.length).filterMap (resultOf fn ts) =
      ts.filterMap fun task => (fn task).toOption := by
    intro ts
    induction ts with
    | nil => rfl
    | cons task rest ih =>
        rw [List.length_cons, List.range_succ_eq_map, List.filterMap_cons, List.filterMap_map,
          List.filterMap_cons, ← ih]
        rfl
  rw [← hrange]
  exact h.filterMap _

theorem runInProcess_never (fn : τ → Except ε ρ) (polls : Nat) (tasks : List τ) :
    runInProcess fn never polls tasks = (tasks.mapM fn).map fun results => (results, false) := by
  induction tasks generalizing polls with
  | nil => rfl
  | cons task rest ih =>
      unfold runInProcess
      rw [ih, List.mapM_cons]
      cases fn task with
      | error e => rfl
      | ok result =>
          cases rest.mapM fn with
          | error e => rfl
          | ok results => rfl

/-- One result of every task. -/
def EveryResult (fn : τ → Except ε ρ) (tasks : List τ) (results : List ρ) : Prop :=
  ∃ inOrder, tasks.mapM fn = .ok inOrder ∧ results.Perm inOrder

theorem mapM_ok_iff {fn : τ → Except ε ρ} {tasks : List τ} :
    (∃ results, tasks.mapM fn = .ok results) ↔ ∀ task ∈ tasks, ∃ result, fn task = .ok result := by
  constructor
  · rintro ⟨results, h⟩ task htask
    obtain ⟨result, -, hresult⟩ := Results.forall₂_mem_left (Results.mapM_forall₂ h) htask
    exact ⟨result, hresult⟩
  · intro h
    have hall : List.Forall₂ (fun task _ => ∃ result, fn task = .ok result ∧ True) tasks tasks := by
      rw [List.forall₂_same]
      intro task htask
      obtain ⟨result, hresult⟩ := h task htask
      exact ⟨result, hresult, trivial⟩
    obtain ⟨results, hresults, -⟩ := Results.mapM_related hall
    exact ⟨results, hresults⟩

theorem filterMap_of_mapM {fn : τ → Except ε ρ} {tasks : List τ} {results : List ρ}
    (h : tasks.mapM fn = .ok results) :
    (tasks.filterMap fun task => (fn task).toOption) = results := by
  have hforall := Results.mapM_forall₂ h
  clear h
  induction hforall with
  | nil => rfl
  | cons hresult _ ih =>
      rw [List.filterMap_cons, hresult, ih]
      rfl

theorem everyResult_iff {fn : τ → Except ε ρ} {tasks : List τ} {results : List ρ}
    (h : results.Perm (tasks.filterMap fun task => (fn task).toOption)) :
    EveryResult fn tasks results ↔ ∀ task ∈ tasks, ∃ result, fn task = .ok result := by
  rw [← mapM_ok_iff]
  constructor
  · rintro ⟨inOrder, hall, -⟩
    exact ⟨inOrder, hall⟩
  · rintro ⟨inOrder, hall⟩
    refine ⟨inOrder, hall, ?_⟩
    rwa [filterMap_of_mapM hall] at h

/-- Both return the same results in some order, one of every task, or both raise. -/
def Agree (fn : τ → Except ε ρ) (tasks : List τ) (x y : Except ε (List ρ × Bool)) : Prop :=
  (∃ xs ys, x = .ok (xs, false) ∧ y = .ok (ys, false) ∧ xs.Perm ys ∧ EveryResult fn tasks xs) ∨
    ∃ e e', x = .error e ∧ y = .error e'

theorem pool_agrees_iff {host : Host} {tasks : List τ} (fn : τ → Except ε ρ)
    (h : host.Completes tasks.length) :
    Agree fn tasks (.ok (runPool fn tasks never 0 host.rounds (List.range tasks.length)))
      (runInProcess fn never 0 tasks) ↔ ∀ task ∈ tasks, ∃ result, fn task = .ok result := by
  obtain ⟨results, hpool, hperm⟩ := runPool_perm fn h
  rw [hpool, runInProcess_never, ← everyResult_iff hperm]
  constructor
  · rintro (⟨xs, ys, hx, -, -, hevery⟩ | ⟨e, e', he, -⟩)
    · cases hx
      exact hevery
    · cases he
  · intro hevery
    obtain ⟨inOrder, hall, hsame⟩ := hevery
    exact .inl ⟨results, inOrder, rfl, by rw [hall]; rfl, hsame, inOrder, hall, hsame⟩

/-- `_parallel_map` never leaves out the result of a task exactly when it does not use
the pool or no task raises. -/
theorem parallelMap_complete_iff {host : Host} {tasks : List τ} (fn : τ → Except ε ρ)
    (h : host.Completes tasks.length) :
    (∀ results yielded, parallelMap host fn tasks never = .ok (results, yielded) →
        EveryResult fn tasks results) ↔
      host.pooled tasks = false ∨ ∀ task ∈ tasks, ∃ result, fn task = .ok result := by
  unfold parallelMap
  cases hp : host.pooled tasks with
  | true =>
      obtain ⟨results, hpool, hperm⟩ := runPool_perm fn h
      rw [if_pos rfl, hpool, ← everyResult_iff hperm]
      constructor
      · intro hall
        exact .inr (hall results false rfl)
      · rintro (hfalse | hevery) xs yielded hx
        · cases hfalse
        · cases hx
          exact hevery
  | false =>
      rw [if_neg Bool.false_ne_true, runInProcess_never]
      constructor
      · exact fun _ => .inl rfl
      · intro _ results yielded hresults
        cases hall : tasks.mapM fn with
        | error e =>
            rw [hall] at hresults
            cases hresults
        | ok inOrder =>
            rw [hall] at hresults
            cases hresults
            exact ⟨results, hall, List.Perm.refl _⟩

theorem parallelMap_yielded {host : Host} {tasks : List τ} {fn : τ → Except ε ρ}
    {results : List ρ} {yielded : Bool} (h : host.Completes tasks.length)
    (hmap : parallelMap host fn tasks never = .ok (results, yielded)) : yielded = false := by
  unfold parallelMap at hmap
  split at hmap
  · obtain ⟨_, hpool, -⟩ := runPool_perm fn h
    rw [hpool] at hmap
    cases hmap
    rfl
  · rw [runInProcess_never] at hmap
    cases hall : tasks.mapM fn with
    | error e =>
        rw [hall] at hmap
        cases hmap
    | ok inOrder =>
        rw [hall] at hmap
        cases hmap
        rfl

end OneCompute.Jobkit
