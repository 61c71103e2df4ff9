import OneCompute.Lib.Locking

/-!
Rely and guarantee for blocks under a lock. A block is proved on its own, against
what the environment may change between two of its statements; what each block
guarantees then holds of every run. A block that does what an atomic command does
makes the machine with the lock refine the machine of atomic commands.
-/

namespace Locking
open Interleaving (Prog Past Answered)

section Blocks
variable {S C E F A B D σ ι κ τ : Type} {T : S → Type} {R : C → Type}
variable (M : Semantics T R E A σ ι κ τ) (rely guar : σ → σ → Prop)

/-- The program ends in `Φ` when others change the state by `rely` only, and each of
its statements changes it by `guar`. -/
def Wp : Code T R F B → σ → (Except F B → σ → Prop) → Prop
  | .ret a, s, Φ => ∀ s', rely s s' → Φ (.ok a) s'
  | .raise e, s, Φ => ∀ s', rely s s' → Φ (.error e) s'
  | .call .acquire k, s, Φ => Wp (k ()) s Φ
  | .call .release k, s, Φ => Wp (k ()) s Φ
  | .call (.stmt b) k, s, Φ => ∀ s', rely s s' →
      guar s' (M.stmt b s').1 ∧ Wp (k (M.stmt b s').2) (M.stmt b s').1 Φ
  | .call (.free c) k, s, Φ => ∀ s', rely s s' → ∀ input, Wp (k (M.free c input s')) s' Φ

/-- What has to hold when the first part of a program ends. -/
def Wp.andThen (f : B → Code T R F D) (Φ : Except F D → σ → Prop) : Except F B → σ → Prop
  | .ok a, s => Wp M rely guar (f a) s Φ
  | .error e, s => Φ (.error e) s

variable {M rely guar} {s : σ}

theorem wp_mono {p : Code T R F B} {Φ Ψ : Except F B → σ → Prop} (hp : Wp M rely guar p s Φ)
    (h : ∀ x s', Φ x s' → Ψ x s') : Wp M rely guar p s Ψ := by
  induction p generalizing s with
  | ret a => exact fun s' hs' => h _ s' (hp s' hs')
  | raise e => exact fun s' hs' => h _ s' (hp s' hs')
  | call c k ih =>
      cases c with
      | acquire => exact ih () hp
      | release => exact ih () hp
      | stmt b => exact fun s' hs' => ⟨(hp s' hs').1, ih _ (hp s' hs').2⟩
      | free c => exact fun s' hs' input => ih _ (hp s' hs' input)

theorem wp_rely (htrans : ∀ a b c, rely a b → rely b c → rely a c) {p : Code T R F B}
    {Φ : Except F B → σ → Prop} (hp : Wp M rely guar p s Φ) {s' : σ} (hs : rely s s') :
    Wp M rely guar p s' Φ := by
  induction p with
  | ret a => exact fun s'' hs'' => hp s'' (htrans _ _ _ hs hs'')
  | raise e => exact fun s'' hs'' => hp s'' (htrans _ _ _ hs hs'')
  | call c k ih =>
      cases c with
      | acquire => exact ih () hp
      | release => exact ih () hp
      | stmt b => exact fun s'' hs'' => hp s'' (htrans _ _ _ hs hs'')
      | free c => exact fun s'' hs'' => hp s'' (htrans _ _ _ hs hs'')

/-- What holds against more interference holds against less. -/
theorem wp_weaken {rely' guar' : σ → σ → Prop} (hr : ∀ a b, rely' a b → rely a b)
    (hg : ∀ a b, guar a b → guar' a b) {p : Code T R F B} {Φ : Except F B → σ → Prop}
    (hp : Wp M rely guar p s Φ) : Wp M rely' guar' p s Φ := by
  induction p generalizing s with
  | ret a => exact fun s' hs' => hp s' (hr _ _ hs')
  | raise e => exact fun s' hs' => hp s' (hr _ _ hs')
  | call c k ih =>
      cases c with
      | acquire => exact ih () hp
      | release => exact ih () hp
      | stmt b =>
          exact fun s' hs' => ⟨hg _ _ (hp s' (hr _ _ hs')).1, ih _ (hp s' (hr _ _ hs')).2⟩
      | free c => exact fun s' hs' input => ih _ (hp s' (hr _ _ hs') input)

theorem wp_bind (hrefl : ∀ a, rely a a) {p : Code T R F B} {f : B → Code T R F D}
    {Φ : Except F D → σ → Prop}
    (hp : Wp M rely guar p s (Wp.andThen M rely guar f Φ)) :
    Wp M rely guar (p >>= f) s Φ := by
  induction p generalizing s with
  | ret a => exact hp s (hrefl s)
  | raise e => exact hp
  | call c k ih =>
      cases c with
      | acquire => exact ih () hp
      | release => exact ih () hp
      | stmt b => exact fun s' hs' => ⟨(hp s' hs').1, ih _ (hp s' hs').2⟩
      | free c => exact fun s' hs' input => ih _ (hp s' hs' input)

theorem wp_releasing {p : Code T R F B} {Φ : Except F B → σ → Prop}
    (hp : Wp M rely guar p s Φ) : Wp M rely guar (releasing p) s Φ := by
  induction p generalizing s with
  | ret a => exact hp
  | raise e => exact hp
  | call c k ih =>
      cases c with
      | acquire => exact ih () hp
      | release => exact ih () hp
      | stmt b => exact fun s' hs' => ⟨(hp s' hs').1, ih _ (hp s' hs').2⟩
      | free c => exact fun s' hs' input => ih _ (hp s' hs' input)

theorem wp_locked {p : Code T R F B} {Φ : Except F B → σ → Prop} (hp : Wp M rely guar p s Φ) :
    Wp M rely guar (locked p) s Φ :=
  wp_releasing hp

theorem wp_attempt {p : Code T R F B} {Φ : Except E (Except F B) → σ → Prop}
    (hp : Wp M rely guar p s fun x => Φ (.ok x)) :
    Wp M rely guar (attempt p : Code T R E (Except F B)) s Φ := by
  induction p generalizing s with
  | ret a => exact hp
  | raise e => exact hp
  | call c k ih =>
      cases c with
      | acquire => exact ih () hp
      | release => exact ih () hp
      | stmt b => exact fun s' hs' => ⟨(hp s' hs').1, ih _ (hp s' hs').2⟩
      | free c => exact fun s' hs' input => ih _ (hp s' hs' input)

/-- One statement with the lock, and what follows. -/
theorem wp_execute_bind (hrefl : ∀ a, rely a a) {b : S} {f : T b → Code T R F D}
    {Φ : Except F D → σ → Prop}
    (h : ∀ s', rely s s' → guar s' (M.stmt b s').1 ∧
      ∀ s'', rely (M.stmt b s').1 s'' → Wp M rely guar (f (M.stmt b s').2) s'' Φ) :
    Wp M rely guar (execute b >>= f) s Φ :=
  wp_bind hrefl (wp_locked fun s' hs' => ⟨(h s' hs').1, fun s'' hs'' => (h s' hs').2 s'' hs''⟩)

/-! ## What blocks guarantee holds of every run -/

/-- The proof obligations: blocks keep `inv` from one release of the lock to the
next and change the state by `guar`; what an answer is evidence of stays true. -/
structure Contract (M : Semantics T R E A σ ι κ τ) (P : κ → Past C R → C → Prop)
    (Z : κ → Past C R → A → Prop) where
  rely : σ → σ → Prop
  guar : σ → σ → Prop
  inv : σ → Prop
  answer : ∀ c, R c → Prop
  evidence : ∀ c, R c → σ → Prop
  rely_refl : ∀ s, rely s s
  rely_trans : ∀ a b c, rely a b → rely b c → rely a c
  guar_refl : ∀ s, guar s s
  guar_trans : ∀ a b c, guar a b → guar b c → guar a c
  disturb_rely : ∀ t s, rely s (M.disturb t s)
  disturb_guar : ∀ t s, guar s (M.disturb t s)
  disturb_inv : ∀ t s, inv s → inv (M.disturb t s)
  crash_guar : ∀ s, guar s (M.crash s)
  /-- What is left after a crash, `s₀` being the state when the lock was last free. -/
  crash_inv : ∀ s₀ s, inv s₀ → guar s₀ s → inv (M.crash s)
  keeps : ∀ c r s s', guar s s' → evidence c r s → evidence c r s'
  start : ∀ k, (M.start k).Sat (P k) answer [] (Z k)
  free : ∀ c, M.body c = none → ∀ input s,
    answer c (M.free c input s) ∧ evidence c (M.free c input s) s
  body : ∀ c p, M.body c = some p → ∀ k past s, P k past c →
    (∀ b ∈ past, evidence b.cmd b.answer s) → inv s →
    Wp M rely guar p s fun x s' => ∃ r, x = .ok r ∧ inv s' ∧ answer c r ∧ evidence c r s'

variable {P : κ → Past C R → C → Prop} {Z : κ → Past C R → A → Prop}

/-- A thread keeps to what its call may do, and what it was told is still true. -/
def Task.Sound (K : Contract M P Z) (s : σ) (t : Task R E A κ) : Prop :=
  ∃ past, t.prog.Sat (P t.call) K.answer past (Z t.call) ∧
    ∀ b ∈ past, K.evidence b.cmd b.answer s

structure Blocks.Sound (K : Contract M P Z) (s₀ : σ) (v : Blocks T R E A σ κ) : Prop where
  since : K.guar s₀ v.state
  tasks : ∀ t ∈ v.tasks, t.Sound K v.state
  free : v.held = none → K.inv v.state
  held : ∀ h, v.held = some h → (∃ s₁, K.inv s₁ ∧ K.guar s₁ v.state) ∧
    Wp M K.rely K.guar h.rest v.state fun x s' =>
      ∃ r, x = .ok r ∧ K.inv s' ∧ K.answer h.cmd r ∧ K.evidence h.cmd r s'

theorem Task.Sound.mono {K : Contract M P Z} {s s' : σ} {t : Task R E A κ} (h : t.Sound K s)
    (hs : K.guar s s') : t.Sound K s' := by
  obtain ⟨past, hsat, hev⟩ := h
  exact ⟨past, hsat, fun b hb => K.keeps _ _ _ _ hs (hev b hb)⟩

theorem Blocks.Sound.good {K : Contract M P Z} {s₀ : σ} {v : Blocks T R E A σ κ}
    (h : v.Sound K s₀) : ∃ s₁, K.inv s₁ ∧ K.guar s₁ v.state := by
  cases hh : v.held with
  | none => exact ⟨v.state, h.free hh, K.guar_refl _⟩
  | some b => exact (h.held b hh).1

theorem mem_set {l : List (Task R E A κ)} {i : Nat} {t t' : Task R E A κ} (h : t ∈ l.set i t') :
    t ∈ l ∨ t = t' :=
  List.mem_or_eq_of_mem_set h

/-- One step keeps the contract. -/
theorem Blocks.Sound.step {K : Contract M P Z} {s₀ : σ} {v v' : Blocks T R E A σ κ}
    {m : Move κ ι τ} (hs : Blocks.Step M (fun _ _ => True) v m v') (h : v.Sound K s₀) : v'.Sound K s₀ ∧ K.guar v.state v'.state := by
  cases hs with
  | idle => exact ⟨h, K.guar_refl _⟩
  | spawn v call =>
      refine ⟨⟨h.since, fun t ht => ?_, h.free, h.held⟩, K.guar_refl _⟩
      cases List.mem_append.mp ht with
      | inl ht => exact h.tasks t ht
      | inr ht =>
          rw [List.mem_singleton.mp ht]
          exact ⟨[], K.start call, List.forall_mem_nil _⟩
  | disturb v t hcalm =>
      have hg := K.disturb_guar t v.state
      refine ⟨⟨K.guar_trans _ _ _ h.since hg, fun t' ht' => (h.tasks t' ht').mono hg,
        fun hfree => K.disturb_inv t _ (h.free hfree), fun b hb => ?_⟩, hg⟩
      obtain ⟨⟨s₁, hinv, hs₁⟩, hwp⟩ := h.held b hb
      exact ⟨⟨s₁, hinv, K.guar_trans _ _ _ hs₁ hg⟩, wp_rely K.rely_trans hwp (K.disturb_rely t _)⟩
  | crash =>
      have hg := K.crash_guar v.state
      obtain ⟨s₁, hinv, hs₁⟩ := h.good
      exact ⟨⟨K.guar_trans _ _ _ h.since hg, List.forall_mem_nil _,
        fun _ => K.crash_inv s₁ _ hinv hs₁, fun b hb => nomatch hb⟩, hg⟩
  | free v i input call c k ht hc hi =>
      refine ⟨⟨h.since, fun t ht' => ?_, h.free, h.held⟩, K.guar_refl _⟩
      cases mem_set ht' with
      | inl hold => exact h.tasks t hold
      | inr hnew =>
          obtain ⟨past, hsat, hev⟩ := h.tasks _ (List.mem_of_getElem? ht)
          have hfree := K.free c hc input v.state
          rw [hnew]
          exact ⟨⟨c, _⟩ :: past, hsat.2 _ hfree.1, List.forall_mem_cons.mpr ⟨hfree.2, hev⟩⟩
  | enter s tasks i input call c k p ht hc =>
      have hinv := h.free rfl
      obtain ⟨past, hsat, hev⟩ := h.tasks _ (List.mem_of_getElem? ht)
      refine ⟨⟨h.since, h.tasks, fun hfree => (nomatch hfree), fun b hb => ?_⟩, K.guar_refl _⟩
      cases hb
      exact ⟨⟨s, hinv, K.guar_refl _⟩, K.body c p hc call past s hsat.1 hev hinv⟩
  | retake s tasks i input d c j k =>
      have hheld := h.held _ rfl
      refine ⟨⟨h.since, h.tasks, fun hfree => (nomatch hfree), fun b hb => ?_⟩, K.guar_refl _⟩
      cases hb
      exact ⟨hheld.1, hheld.2⟩
  | untake s tasks i input d c j k =>
      have hheld := h.held _ rfl
      refine ⟨⟨h.since, h.tasks, fun hfree => (nomatch hfree), fun b hb => ?_⟩, K.guar_refl _⟩
      cases hb
      exact ⟨hheld.1, hheld.2⟩
  | stmt s tasks i input d c b j k =>
      obtain ⟨⟨s₁, hinv, hs₁⟩, hwp⟩ := h.held _ rfl
      obtain ⟨hg, hrest⟩ := hwp s (K.rely_refl s)
      refine ⟨⟨K.guar_trans _ _ _ h.since hg, fun t ht => (h.tasks t ht).mono hg,
        fun hfree => (nomatch hfree), fun b hb => ?_⟩, hg⟩
      cases hb
      exact ⟨⟨s₁, hinv, K.guar_trans _ _ _ hs₁ hg⟩, hrest⟩
  | inner s tasks i input d c b j k =>
      obtain ⟨hs₁, hwp⟩ := h.held _ rfl
      refine ⟨⟨h.since, h.tasks, fun hfree => (nomatch hfree), fun b hb => ?_⟩, K.guar_refl _⟩
      cases hb
      exact ⟨hs₁, hwp s (K.rely_refl s) input⟩
  | leave s tasks i input call c k r ht =>
      obtain ⟨-, hwp⟩ := h.held _ rfl
      obtain ⟨r', hr, hinv, hans, hev⟩ := hwp s (K.rely_refl s)
      cases hr
      refine ⟨⟨h.since, fun t ht' => ?_, fun _ => hinv, fun b hb => nomatch hb⟩, K.guar_refl _⟩
      cases mem_set ht' with
      | inl hold => exact h.tasks t hold
      | inr hnew =>
          obtain ⟨past, hsat, hpast⟩ := h.tasks _ (List.mem_of_getElem? ht)
          rw [hnew]
          exact ⟨⟨c, r⟩ :: past, hsat.2 r hans, List.forall_mem_cons.mpr ⟨hev, hpast⟩⟩
  | abort s tasks i input call c k e ht =>
      obtain ⟨-, hwp⟩ := h.held _ rfl
      obtain ⟨r, hr, -⟩ := hwp s (K.rely_refl s)
      cases hr

variable (hb : ∀ c p, M.body c = some p → Balanced p)
include hb

theorem Contract.view (K : Contract M P Z) {s₀ : σ} (h₀ : K.inv s₀) (ms : List (Move κ ι τ)) :
    ∃ v, View M (runs M ⟨s₀, none, []⟩ ms) v ∧ v.Ok ∧ v.Sound K s₀ := by
  refine View.runs hb (fun _ _ => True) ?_ (fun v m v' _ hs h => (h.step hs).1)
    (fun _ _ _ _ => trivial)
  exact ⟨K.guar_refl _, List.forall_mem_nil _, fun _ => h₀, fun b hb => nomatch hb⟩

/-- The invariant holds whenever the lock is free. -/
theorem Contract.free_inv (K : Contract M P Z) {s₀ : σ} (h₀ : K.inv s₀) (ms : List (Move κ ι τ))
    (hl : (runs M ⟨s₀, none, []⟩ ms).lock = none) : K.inv (runs M ⟨s₀, none, []⟩ ms).state := by
  obtain ⟨v, hv, -, hs⟩ := K.view hb h₀ ms
  rw [hv.state]
  apply hs.free
  rw [hv.lock] at hl
  exact Option.map_eq_none_iff.mp hl

/-- At any time the state is what the guarantee allows after a state of the invariant. -/
theorem Contract.any_time (K : Contract M P Z) {s₀ : σ} (h₀ : K.inv s₀) (ms : List (Move κ ι τ)) :
    ∃ s₁, K.inv s₁ ∧ K.guar s₁ (runs M ⟨s₀, none, []⟩ ms).state := by
  obtain ⟨v, hv, -, hs⟩ := K.view hb h₀ ms
  rw [hv.state]
  exact hs.good

theorem Contract.later (K : Contract M P Z) {s₀ : σ} (h₀ : K.inv s₀) (ms ns : List (Move κ ι τ)) :
    K.guar (runs M ⟨s₀, none, []⟩ ms).state (runs M ⟨s₀, none, []⟩ (ms ++ ns)).state := by
  induction ns using List.reverseRecOn with
  | nil =>
      rw [List.append_nil]
      exact K.guar_refl _
  | append_singleton ns m ih =>
      obtain ⟨v, hv, hok, hs⟩ := K.view hb h₀ (ms ++ ns)
      obtain ⟨v', hstep, hv', -⟩ := hv.step hb (fun _ _ => True) hok m
        fun _ _ _ => trivial
      have hg := (hs.step hstep).2
      rw [← List.append_assoc, runs_append]
      refine K.guar_trans _ _ _ ih ?_
      rw [hv.state]
      exact hv'.state ▸ hg

omit hb in
theorem lower_ret {body : (c : C) → Option (Code T R E (R c))} {q : Prog C R E A} {a : A}
    (h : lower body q = .ret a) : q = .ret a := by
  cases q with
  | ret b => exact congrArg Prog.ret (Prog.ret.inj h)
  | raise e => cases h
  | call c k =>
      simp only [lower] at h
      split at h <;> cases h

omit hb in
theorem View.returned {s : Sys T R E A σ κ} {v : Blocks T R E A σ κ} (hv : View M s v) {i : Nat}
    {call : κ} {a : A} (ht : s.threads[i]? = some ⟨call, .ret a⟩) :
    v.tasks[i]? = some ⟨call, .ret a⟩ := by
  rw [hv.threads i] at ht
  obtain ⟨t, hti, ht⟩ := Option.map_eq_some_iff.mp ht
  rw [hti]
  obtain ⟨tcall, prog⟩ := t
  simp only [Thread.mk.injEq] at ht
  obtain ⟨rfl, hcode⟩ := ht
  cases hh : v.held with
  | none =>
      rw [hh] at hcode
      rw [lower_ret hcode]
  | some h =>
      rw [hh] at hcode
      by_cases hi : h.thread = i
      · subst hi
        rw [code_holder] at hcode
        cases hrest : h.rest with
        | ret r => rw [hrest] at hcode; cases hcode
        | raise e => rw [hrest] at hcode; cases hcode
        | call b j => rw [hrest] at hcode; cases hcode
      · rw [code_other (fun h' hh' => by cases hh'; exact hi)] at hcode
        rw [lower_ret hcode]

/-- A call that has returned kept to its contract, and what it was told stays true in
every later state, whatever crashes follow. -/
theorem Contract.returned (K : Contract M P Z) {s₀ : σ} (h₀ : K.inv s₀)
    {ms : List (Move κ ι τ)} {i : Nat} {call : κ} {a : A}
    (ht : (runs M ⟨s₀, none, []⟩ ms).threads[i]? = some ⟨call, .ret a⟩) (ns : List (Move κ ι τ)) :
    ∃ past, Z call past a ∧
      ∀ b ∈ past, K.evidence b.cmd b.answer (runs M ⟨s₀, none, []⟩ (ms ++ ns)).state := by
  obtain ⟨v, hv, -, hs⟩ := K.view hb h₀ ms
  obtain ⟨past, hz, hev⟩ := hs.tasks _ (List.mem_of_getElem? (hv.returned ht))
  refine ⟨past, hz, fun b hbp => K.keeps _ _ _ _ (K.later hb h₀ ms ns) ?_⟩
  rw [hv.state]
  exact hev b hbp

end Blocks

/-! ## Blocks that do what atomic commands do -/

section Refinement
variable {S C E A σ σ' ι κ τ : Type} {T : S → Type} {R : C → Type}

/-- The proof obligations: a block has the effect and the answer of the atomic command,
when no disturbance falls into it. -/
structure Implements (M : Semantics T R E A σ ι κ τ)
    (H : Interleaving.Semantics C R E A σ' ι κ τ) where
  abs : σ → σ'
  inv : σ → Prop
  /-- What the unlocked commands read is the same at both levels. -/
  near : σ → σ' → Prop
  near_abs : ∀ s, near s (abs s)
  near_stmt : ∀ b s h, near s h → near (M.stmt b s).1 h
  start : ∀ k, M.start k = H.start k
  disturb : ∀ t s, inv s → inv (M.disturb t s) ∧ H.disturb t (abs s) = abs (M.disturb t s)
  free : ∀ c, M.body c = none → ∀ input s h, near s h → H.exec c input h = (h, M.free c input s)
  body : ∀ c p, M.body c = some p → ∀ s, inv s → Wp M Eq (fun _ _ => True) p s fun x s' =>
    ∃ r, x = .ok r ∧ inv s' ∧ ∀ input, H.exec c input (abs s) = (abs s', r)

variable {M : Semantics T R E A σ ι κ τ} {H : Interleaving.Semantics C R E A σ' ι κ τ}

def Task.ofThread (t : Interleaving.Thread C R E A κ) : Task R E A κ := ⟨t.call, t.prog⟩

/-- The atomic machine has done the blocks that are over. -/
structure Blocks.Matches (K : Implements M H) (v : Blocks T R E A σ κ)
    (h : Interleaving.Sys C R E A σ' κ) : Prop where
  free : v.held = none → K.inv v.state ∧ h.state = K.abs v.state
  held : ∀ b, v.held = some b → K.near v.state h.state ∧
    Wp M Eq (fun _ _ => True) b.rest v.state fun x s' =>
      ∃ r, x = .ok r ∧ K.inv s' ∧ ∀ input, H.exec b.cmd input h.state = (K.abs s', r)
  tasks : v.tasks = h.threads.map Task.ofThread

theorem Blocks.Matches.near {K : Implements M H} {v : Blocks T R E A σ κ}
    {h : Interleaving.Sys C R E A σ' κ} (hm : v.Matches K h) : K.near v.state h.state := by
  cases hh : v.held with
  | none =>
      rw [(hm.free hh).2]
      exact K.near_abs _
  | some b => exact (hm.held b hh).1

/-- The thread of the atomic machine that stands at the same command. -/
theorem matching_thread {tasks : List (Task R E A κ)}
    {threads : List (Interleaving.Thread C R E A κ)} (hm : tasks = threads.map Task.ofThread)
    {i : Nat} {call : κ} {q : Prog C R E A} (ht : tasks[i]? = some ⟨call, q⟩) :
    ∃ past, threads[i]? = some ⟨call, past, q⟩ := by
  rw [hm, List.getElem?_map] at ht
  obtain ⟨t, hti, ht⟩ := Option.map_eq_some_iff.mp ht
  cases ht
  exact ⟨t.past, hti⟩

/-- The atomic machine performs the next command of a thread. -/
theorem run_atomic {h : Interleaving.Sys C R E A σ' κ} {i : Nat} {call : κ} {past : Past C R}
    {c : C} {k : R c → Prog C R E A} (ht : h.threads[i]? = some ⟨call, past, .call c k⟩) {input : ι}
    {s' : σ'} {r : R c} (hexec : H.exec c input h.state = (s', r)) :
    Interleaving.runs H h [.run i input] =
      ⟨s', h.threads.set i ⟨call, ⟨c, r⟩ :: past, k r⟩⟩ := by
  simp only [Interleaving.runs, List.foldl_cons, List.foldl_nil, Interleaving.step, ht, hexec]

/-- A step with blocks is a step of the atomic machine or none. -/
theorem Blocks.Matches.step {K : Implements M H} {v v' : Blocks T R E A σ κ}
    {h : Interleaving.Sys C R E A σ' κ} {m : Move κ ι τ}
    (hs : Blocks.Step M (fun t s => M.disturb t s = s) v m v') (hm : m ≠ .crash)
    (h₁ : v.Matches K h) :
    ∃ ns : List (Interleaving.Move κ ι τ), v'.Matches K (Interleaving.runs H h ns) := by
  cases hs with
  | idle => exact ⟨[], h₁⟩
  | spawn v call =>
      refine ⟨[.spawn call], h₁.free, h₁.held, ?_⟩
      change v.tasks ++ [_] = (h.threads ++ [_]).map Task.ofThread
      rw [List.map_append, h₁.tasks, List.map_singleton, Task.ofThread, K.start call]
  | disturb v t hcalm =>
      obtain ⟨state, held, tasks⟩ := v
      cases held with
      | none =>
          obtain ⟨hinv, hstate⟩ := h₁.free rfl
          have hd := K.disturb t state hinv
          refine ⟨[.disturb t], fun _ => ⟨hd.1, ?_⟩, fun b hb => (nomatch hb), h₁.tasks⟩
          change H.disturb t h.state = _
          rw [hstate]
          exact hd.2
      | some b =>
          have hstate : M.disturb t state = state := hcalm rfl
          simp only [hstate]
          exact ⟨[], h₁⟩
  | crash => exact absurd rfl hm
  | free v i input call c k ht hc hi =>
      obtain ⟨past, hti⟩ := matching_thread h₁.tasks ht
      refine ⟨[.run i input], ?_⟩
      rw [run_atomic hti (K.free c hc input v.state h.state h₁.near)]
      exact ⟨h₁.free, h₁.held, by rw [h₁.tasks, List.map_set]; rfl⟩
  | enter s tasks i input call c k p ht hc =>
      obtain ⟨hinv, hstate⟩ := h₁.free rfl
      refine ⟨[], fun hfree => (nomatch hfree), fun b hb => ?_, h₁.tasks⟩
      cases hb
      rw [show (Interleaving.runs H h []).state = K.abs s from hstate]
      exact ⟨K.near_abs s, K.body c p hc s hinv⟩
  | retake s tasks i input d c j k =>
      refine ⟨[], fun hfree => (nomatch hfree), fun b hb => ?_, h₁.tasks⟩
      have hheld := h₁.held _ rfl
      cases hb
      exact hheld
  | untake s tasks i input d c j k =>
      refine ⟨[], fun hfree => (nomatch hfree), fun b hb => ?_, h₁.tasks⟩
      have hheld := h₁.held _ rfl
      cases hb
      exact hheld
  | stmt s tasks i input d c b j k =>
      refine ⟨[], fun hfree => (nomatch hfree), fun b hb => ?_, h₁.tasks⟩
      obtain ⟨hnear, hwp⟩ := h₁.held _ rfl
      cases hb
      exact ⟨K.near_stmt b s _ hnear, (hwp s rfl).2⟩
  | inner s tasks i input d c b j k =>
      refine ⟨[], fun hfree => (nomatch hfree), fun b hb => ?_, h₁.tasks⟩
      obtain ⟨hnear, hwp⟩ := h₁.held _ rfl
      cases hb
      exact ⟨hnear, hwp s rfl input⟩
  | leave s tasks i input call c k r ht =>
      obtain ⟨-, hwp⟩ := h₁.held _ rfl
      obtain ⟨r', hr, hinv, hexec⟩ := hwp s rfl
      cases hr
      obtain ⟨past, hti⟩ := matching_thread h₁.tasks ht
      refine ⟨[.run i input], ?_⟩
      rw [run_atomic hti (hexec input)]
      refine ⟨fun _ => ⟨hinv, rfl⟩, fun b hb => (nomatch hb), ?_⟩
      rw [show tasks = _ from h₁.tasks, List.map_set]
      rfl
  | abort s tasks i input call c k e ht =>
      obtain ⟨-, hwp⟩ := h₁.held _ rfl
      obtain ⟨r, hr, -⟩ := hwp s rfl
      cases hr

variable (hb : ∀ c p, M.body c = some p → Balanced p)
include hb

/-- When no crash and no disturbance falls into a block, the machine with the lock does
what the atomic machine can do: with the lock free the state is that of an atomic run,
and a call that has returned has returned the same there. -/
theorem Implements.refines (K : Implements M H) {s₀ : σ} (h₀ : K.inv s₀) {ms : List (Move κ ι τ)}
    (hcrash : .crash ∉ ms)
    (hcalm : ∀ ns t, ns ++ [.disturb t] <+: ms → (runs M ⟨s₀, none, []⟩ ns).lock.isSome = true →
      M.disturb t (runs M ⟨s₀, none, []⟩ ns).state = (runs M ⟨s₀, none, []⟩ ns).state) :
    ∃ ns : List (Interleaving.Move κ ι τ),
      ((runs M ⟨s₀, none, []⟩ ms).lock = none →
        K.inv (runs M ⟨s₀, none, []⟩ ms).state ∧
        (Interleaving.runs H ⟨K.abs s₀, []⟩ ns).state = K.abs (runs M ⟨s₀, none, []⟩ ms).state) ∧
      ∀ (i : Nat) (call : κ) (a : A),
        (runs M ⟨s₀, none, []⟩ ms).threads[i]? = some ⟨call, .ret a⟩ →
        ∃ past, (Interleaving.runs H ⟨K.abs s₀, []⟩ ns).threads[i]? = some ⟨call, past, .ret a⟩ := by
  have hruns : ∃ v, View M (runs M ⟨s₀, none, []⟩ ms) v ∧ v.Ok ∧
      ∃ ns, v.Matches K (Interleaving.runs H ⟨K.abs s₀, []⟩ ns) := by
    refine View.runs hb (fun t s => M.disturb t s = s)
      ⟨[], fun _ => ⟨h₀, rfl⟩, fun b hb => (nomatch hb), rfl⟩ (fun v m v' hmem hs hi => ?_) hcalm
    obtain ⟨ns, hm⟩ := hi
    obtain ⟨more, hm'⟩ := hm.step hs fun hc => hcrash (hc ▸ hmem)
    exact ⟨ns ++ more, by rw [Interleaving.runs_append]; exact hm'⟩
  obtain ⟨v, hv, -, ns, hm⟩ := hruns
  refine ⟨ns, fun hl => ?_, fun i call a ht => matching_thread hm.tasks (hv.returned ht)⟩
  rw [hv.lock] at hl
  rw [hv.state]
  exact hm.free (Option.map_eq_none_iff.mp hl)

end Refinement
end Locking
