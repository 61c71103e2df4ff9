import OneCompute.Lib.Interleaving

/-!
Answers as evidence. When what an answer tells about the state stays true under every
command, it is still true when the thread acts on it.
-/

namespace Interleaving
variable {C : Type} {R : C → Type} {E A σ ι κ τ : Type} {M : Semantics C R E A σ ι κ τ}

/-- What the answer to a command says of the state, from then on. -/
structure Witnessing (M : Semantics C R E A σ ι κ τ) (I : σ → Prop) (Ev : ∀ c, R c → σ → Prop) :
    Prop where
  given : ∀ c input s, I s → Ev c (M.exec c input s).2 (M.exec c input s).1
  kept : ∀ c input s d r, Ev d r s → Ev d r (M.exec c input s).1
  undisturbed : ∀ t s d r, Ev d r s → Ev d r (M.disturb t s)

variable {I : σ → Prop} {Ev : ∀ c, R c → σ → Prop}

theorem Witnessing.step (h : Witnessing M I Ev) (s : Sys C R E A σ κ) (m : Move κ ι τ) {d : C}
    {r : R d} (he : Ev d r s.state) : Ev d r (Interleaving.step M s m).state := by
  rcases step_state (M := M) s m with ⟨p, hp, hs⟩ | ⟨-, ⟨t, -, hs⟩ | hs⟩
  · rw [hs, Performed.post, performed_pre hp]
    exact h.kept _ _ _ _ _ he
  · rw [hs]
    exact h.undisturbed _ _ _ _ he
  · rw [hs]
    exact he

/-- What a thread was told is still true. -/
theorem Witnessing.past (h : Witnessing M I Ev) (hi : Invariant M I) {s : σ} (hs : I s)
    (ms : List (Move κ ι τ)) : ∀ (i : Nat) (t : Thread C R E A κ),
      (runs M ⟨s, []⟩ ms).threads[i]? = some t →
      ∀ b ∈ t.past, Ev b.cmd b.answer (runs M ⟨s, []⟩ ms).state := by
  induction ms using List.reverseRecOn with
  | nil => simp [runs]
  | append_singleton ms m ih =>
      intro i t ht b hb
      rw [runs_snoc] at ht ⊢
      rcases step_thread ht with hold | ⟨call, -, -, rfl⟩ | ⟨p, hp, rfl⟩
      · exact h.step _ m (ih i t hold b hb)
      · exact absurd hb List.not_mem_nil
      · obtain ⟨k, hthread, hnew⟩ := performed_thread (M := M) hp
        obtain rfl : t = ⟨p.call, p.answered M :: p.past, k (p.answer M)⟩ :=
          Option.some.inj (ht.symm.trans hnew)
        cases List.mem_cons.mp hb with
        | inl hnow =>
            rw [hnow, step_performed hp]
            exact h.given _ _ _ (hi.pre hs hp)
        | inr hbefore => exact h.step _ m (ih _ _ hthread b hbefore)

theorem Witnessing.performed (h : Witnessing M I Ev) (hi : Invariant M I) {s : σ} (hs : I s)
    {ms : List (Move κ ι τ)} {m : Move κ ι τ} {p : Performed C R κ ι σ}
    (hp : Interleaving.performed (runs M ⟨s, []⟩ ms) m = some p) :
    ∀ b ∈ p.past, Ev b.cmd b.answer p.pre := by
  obtain ⟨k, hthread, -⟩ := performed_thread (M := M) hp
  rw [performed_pre hp]
  exact h.past hi hs ms _ _ hthread

/-- What any answer in the run told is still true. -/
theorem Witnessing.told (h : Witnessing M I Ev) (hi : Invariant M I) {s : σ} (hs : I s)
    (ms : List (Move κ ι τ)) : ∀ p ∈ trace M ⟨s, []⟩ ms,
      Ev p.cmd (p.answer M) (runs M ⟨s, []⟩ ms).state := by
  induction ms using List.reverseRecOn with
  | nil => exact List.forall_mem_nil _
  | append_singleton ms m ih =>
      intro p hp
      rw [trace_snoc] at hp
      rw [runs_snoc]
      cases List.mem_append.mp hp with
      | inl hbefore => exact h.step _ m (ih p hbefore)
      | inr hnow =>
          have hperf := Option.mem_toList.mp hnow
          rw [step_performed hperf]
          exact h.given _ _ _ (hi.pre hs hperf)

/-- The commands that a program adds to its past. -/
theorem Prog.sat_new {P : Past C R → C → Prop} {Q : ∀ c, R c → Prop} {N : C → Prop}
    {past : Past C R} {p : Prog C R E A} {Φ : Past C R → A → Prop} (hp : p.Sat P Q past Φ)
    (hN : ∀ past c, P past c → N c) :
    p.Sat P Q past fun past' a => Φ past' a ∧
      ∃ new, past' = new ++ past ∧ ∀ b ∈ new, N b.cmd := by
  induction p generalizing past with
  | ret a => exact ⟨hp, [], rfl, List.forall_mem_nil _⟩
  | raise e => trivial
  | call c k ih =>
      refine ⟨hp.1, fun r hr => Prog.sat_mono (ih r (hp.2 r hr)) ?_⟩
      rintro past' a - ⟨ha, new, rfl, hnew⟩
      refine ⟨ha, new ++ [⟨c, r⟩], by simp, fun b hb => ?_⟩
      cases List.mem_append.mp hb with
      | inl hb => exact hnew b hb
      | inr hb =>
          rw [List.mem_singleton.mp hb]
          exact hN past c hp.1

/-- A thread that has returned stays as it is. -/
theorem runs_returned {s : Sys C R E A σ κ} {i : Nat} {call : κ} {past : Past C R} {a : A}
    (ht : s.threads[i]? = some ⟨call, past, .ret a⟩) (ms : List (Move κ ι τ)) :
    (runs M s ms).threads[i]? = some ⟨call, past, .ret a⟩ := by
  induction ms using List.reverseRecOn with
  | nil => exact ht
  | append_singleton ms m ih =>
      rw [runs_snoc]
      refine step_thread_of ih fun p hp hi => ?_
      obtain ⟨k, hthread, -⟩ := performed_thread (M := M) hp
      rw [hi, ih] at hthread
      cases hthread

end Interleaving
