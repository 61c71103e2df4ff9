import OneCompute.Worker.Governor

/-!
Jobs of one agent under the governor, and the watcher that preempts them. The agent's
steps, the watcher's and explicit triggers interleave in any order; the states remember
the polls, so that a preemption can be traced to them.
-/

namespace OneCompute.Worker
open PyNumber (Rounding)

/-- Where the agent stands in `run_guarded`. -/
inductive GuardPhase where
  | idle
  /-- Admitted, and the watcher started. -/
  | guarded
  /-- `run_job` has told the governor whether the job uses the GPU. -/
  | noted
  | running
  /-- In the `finally` of `run_job`: the job is no longer running. -/
  | stopped
  /-- The yield flag was cleared as well. -/
  | cleared
  /-- `run_job` returns. -/
  | done
  deriving DecidableEq

/-- A poll of `active_now`: the job that was running, and whether demand was over a line. -/
structure Poll where
  job : Option Nat
  overLine : Bool
  deriving DecidableEq

/-- Where a watcher stands in its loop. -/
inductive Watch where
  | waiting
  | checking
  | polling
  /-- The poll told to yield; these are the polls up to it, newest first. -/
  | raising (decision : List Poll)
  | exited
  deriving DecidableEq

/-- The agent, with its watchers: one that is stopped may still finish its round. -/
structure GuardedAgent where
  governor : AdaptiveGovernor := {}
  phase : GuardPhase := .idle
  jobRunning : Bool := false
  yieldFlag : Bool := false
  watcherStop : Bool := false
  watchers : List Watch := []
  /-- The number of jobs started. -/
  job : Nat := 0
  /-- All polls, newest first. -/
  polls : List Poll := []
  /-- The flag was set by a trigger or by the server since it was cleared. -/
  triggered : Bool := false
  /-- The polls up to the one for which a watcher set the flag. -/
  cause : List Poll := []

inductive Action where
  | guard (r : Readings) (w : When)
  | assign (needsGpu : Bool)
  /-- Verification fails. -/
  | refuse
  | start
  | finish
  | clearFlag
  | resetNote
  | leave
  /-- `trigger_yield`, or a preemption by the server. -/
  | trigger
  | watch (i : Nat) (r : Readings) (w : When)

namespace GuardedAgent
variable (R : Rounding)

def setWatch (s : GuardedAgent) (i : Nat) (next : Watch) : GuardedAgent :=
  { s with watchers := s.watchers.set i next }

/-- `active_now`, polled by a watcher. -/
def poll (s : GuardedAgent) (i : Nat) (r : Readings) (w : When) : GuardedAgent :=
  let answer := s.governor.activeNow R r w
  let polls :=
    ⟨if s.jobRunning then some s.job else none, s.governor.overLine R r w⟩ :: s.polls
  { s with
    governor := answer.2
    polls := polls
    watchers := s.watchers.set i (if answer.1 then .raising polls else .waiting) }

/-- `_yield.set()` by a watcher. -/
def raiseFlag (s : GuardedAgent) (i : Nat) (decision : List Poll) : GuardedAgent :=
  { s with
    yieldFlag := true
    cause := if s.yieldFlag then s.cause else decision
    watchers := s.watchers.set i .waiting }

def watchStep (s : GuardedAgent) (i : Nat) (r : Readings) (w : When) : Option GuardedAgent :=
  match s.watchers[i]? with
  | some .waiting => some (s.setWatch i (if s.watcherStop then .exited else .checking))
  | some .checking => some (s.setWatch i (if s.jobRunning then .polling else .waiting))
  | some .polling => some (s.poll R i r w)
  | some (.raising decision) => some (s.raiseFlag i decision)
  | some .exited | none => none

def step (s : GuardedAgent) : Action → Option GuardedAgent
  | .guard r w =>
      if s.phase = .idle then
        let decision := s.governor.shouldRun R r w
        if decision.1 then
          some { s with
            governor := decision.2
            phase := .guarded
            watcherStop := false
            watchers := s.watchers ++ [.waiting] }
        else some { s with governor := decision.2 }
      else none
  | .assign needsGpu =>
      if s.phase = .guarded then
        some { s with phase := .noted, governor := s.governor.noteJob needsGpu }
      else none
  | .refuse => if s.phase = .noted then some { s with phase := .done } else none
  | .start =>
      if s.phase = .noted then
        some { s with phase := .running, jobRunning := true, job := s.job + 1 }
      else none
  | .finish =>
      if s.phase = .running then some { s with phase := .stopped, jobRunning := false } else none
  | .clearFlag =>
      if s.phase = .stopped then
        some { s with phase := .cleared, yieldFlag := false, triggered := false }
      else none
  | .resetNote =>
      if s.phase = .cleared then
        some { s with phase := .done, governor := s.governor.noteJob false }
      else none
  | .leave =>
      if s.phase = .guarded ∨ s.phase = .done then
        some { s with phase := .idle, watcherStop := true }
      else none
  | .trigger => some { s with yieldFlag := true, triggered := true }
  | .watch i r w => s.watchStep R i r w

def exec (s : GuardedAgent) (as : List Action) : Option GuardedAgent :=
  as.foldlM (step R) s

/-- The number of polls in a row that answer yes. -/
def sustained (s : GuardedAgent) : Nat := s.governor.params.sustainedSamples.toNat

/-- A job is running, and `should_yield` is true though nobody asked for it. -/
def Preempted (s : GuardedAgent) : Prop :=
  s.phase = .running ∧ s.yieldFlag = true ∧ s.triggered = false

/-- The last polls before the flag was set were all made during the running job, and were
all over a line. -/
def Sustained (s : GuardedAgent) : Prop :=
  s.sustained ≤ s.cause.length ∧
    ∀ p ∈ s.cause.take s.sustained, p.job = some s.job ∧ p.overLine = true

/-- The polls made during a job. -/
def pollsOf (job : Nat) (polls : List Poll) : Nat :=
  (polls.filter fun p => p.job = some job).length

/-- No job starts with the flag set for an earlier one, and no watcher sets it for a
running job before that job saw enough polls. -/
def Clean (s : GuardedAgent) : Action → Prop
  | .start => 0 < s.sustained → s.yieldFlag = true → s.triggered = true
  | .watch i _ _ => ∀ decision, s.watchers[i]? = some (.raising decision) →
      s.phase = .running → s.yieldFlag = false → s.sustained ≤ pollsOf s.job decision
  | _ => True

end GuardedAgent

/-! ## Polls in a row -/

section Polls
variable {α : Type} {q : α → Bool} {xs : List α} {k : Nat}

theorem le_takeWhile_iff :
    k ≤ (xs.takeWhile q).length ↔ k ≤ xs.length ∧ ∀ x ∈ xs.take k, q x = true := by
  induction xs generalizing k with
  | nil => simp
  | cons x xs ih =>
      cases k with
      | zero => simp
      | succ k =>
          by_cases hx : q x = true
          · simp [hx, ih]
          · simp [hx]

/-- The polls of the latest job are the newest ones. -/
def Grouped (job : Nat) (polls : List Poll) : Prop :=
  ∀ p ∈ polls.dropWhile (fun p => p.job = some job), p.job ≠ some job

theorem Grouped.pollsOf_eq {job : Nat} {polls : List Poll} (h : Grouped job polls) :
    GuardedAgent.pollsOf job polls =
      (polls.takeWhile fun p => p.job = some job).length := by
  have hsplit := List.takeWhile_append_dropWhile (p := fun p : Poll => decide (p.job = some job))
    (l := polls)
  unfold GuardedAgent.pollsOf
  have hfirst : (polls.takeWhile fun p => decide (p.job = some job)).filter
      (fun p => decide (p.job = some job)) =
      polls.takeWhile fun p => decide (p.job = some job) := by
    apply List.filter_eq_self.mpr
    intro p hp
    have hq := List.mem_takeWhile_imp hp
    exact hq
  have hrest : (polls.dropWhile fun p => decide (p.job = some job)).filter
      (fun p => decide (p.job = some job)) = [] := by
    apply List.filter_eq_nil_iff.mpr
    intro p hp
    simpa using h p hp
  conv_lhs => rw [← hsplit, List.filter_append, hfirst, hrest, List.append_nil]

theorem Grouped.cons {job : Nat} {polls : List Poll} (h : Grouped job polls) (overLine : Bool) :
    Grouped job (⟨some job, overLine⟩ :: polls) := by
  unfold Grouped
  rw [List.dropWhile_cons_of_pos (by simp)]
  exact h

/-- No poll was made during a job that has not started. -/
theorem grouped_new {job : Nat} {polls : List Poll}
    (h : ∀ p ∈ polls, ∀ j, p.job = some j → j ≤ job) : Grouped (job + 1) polls := by
  intro p hp heq
  have := h p (List.dropWhile_subset _ hp) _ heq
  omega

end Polls

/-! ## What the states remember -/

namespace GuardedAgent
variable {R : Rounding}

/-- The polls were made during jobs that had started. -/
def Numbered (job : Nat) (polls : List Poll) : Prop :=
  ∀ p ∈ polls, ∀ j, p.job = some j → j ≤ job

/-- Polls that told a watcher to yield. -/
structure Decided (s : GuardedAgent) (decision : List Poll) : Prop where
  overLine : s.sustained ≤ (decision.takeWhile (·.overLine)).length
  numbered : Numbered s.job decision
  grouped : s.phase = .running → Grouped s.job decision

structure Inv (s : GuardedAgent) : Prop where
  running : s.jobRunning = true ↔ s.phase = .running
  overCount : s.governor.overCount = (s.polls.takeWhile (·.overLine)).length
  numbered : Numbered s.job s.polls
  grouped : s.phase = .running → Grouped s.job s.polls
  decisions : ∀ decision, Watch.raising decision ∈ s.watchers → s.Decided decision
  cause : Numbered s.job s.cause
  flagged : s.triggered = true → s.yieldFlag = true

/-- A step that changes neither the polls nor the job. -/
structure Quiet (s s' : GuardedAgent) : Prop where
  job : s'.job = s.job
  polls : s'.polls = s.polls
  cause : s'.cause = s.cause
  overCount : s'.governor.overCount = s.governor.overCount
  params : s'.governor.params = s.governor.params
  running : s'.jobRunning = true ↔ s'.phase = .running
  phase : s'.phase = .running → s.phase = .running
  watchers : ∀ decision, Watch.raising decision ∈ s'.watchers → Watch.raising decision ∈ s.watchers
  flagged : s'.triggered = true → s'.yieldFlag = true

theorem Quiet.sustained {s s' : GuardedAgent} (h : Quiet s s') : s'.sustained = s.sustained := by
  unfold GuardedAgent.sustained
  rw [h.params]

theorem Quiet.inv {s s' : GuardedAgent} (h : Quiet s s') (hinv : s.Inv) : s'.Inv where
  running := h.running
  overCount := by rw [h.overCount, h.polls]; exact hinv.overCount
  numbered := by rw [h.job, h.polls]; exact hinv.numbered
  grouped := by rw [h.job, h.polls]; exact fun hp => hinv.grouped (h.phase hp)
  decisions := fun decision hd => by
    have := hinv.decisions decision (h.watchers decision hd)
    exact ⟨by rw [h.sustained]; exact this.overLine, by rw [h.job]; exact this.numbered,
      by rw [h.job]; exact fun hp => this.grouped (h.phase hp)⟩
  cause := by rw [h.job, h.cause]; exact hinv.cause
  flagged := h.flagged

theorem shouldRun_over (g : AdaptiveGovernor) (r : Readings) (w : When) :
    (g.shouldRun R r w).2.overCount = g.overCount := by
  unfold AdaptiveGovernor.shouldRun
  split
  · rfl
  · split <;> rfl

/-- Whether the running job is preempted without cause is decided by the flag and by what
was remembered when it was set. -/
def Justified (s : GuardedAgent) : Prop := s.Preempted → s.Sustained

/-- A quiet step that neither sets the flag nor forgets a trigger justifies what was
justified before. -/
theorem Quiet.justified {s s' : GuardedAgent} (h : Quiet s s')
    (hflag : s'.phase = .running → s'.yieldFlag = true → s'.triggered = false →
      s.yieldFlag = true ∧ s.triggered = false) (hs : s.Justified) : s'.Justified := by
  intro hpre
  obtain ⟨hflag, htriggered⟩ := hflag hpre.1 hpre.2.1 hpre.2.2
  have := hs ⟨h.phase hpre.1, hflag, htriggered⟩
  unfold Sustained
  rw [h.sustained, h.cause, h.job]
  exact this

theorem mem_set_waiting {ws : List Watch} {i : Nat} {v : Watch} {decision : List Poll}
    (hv : ∀ d, v ≠ .raising d) (h : Watch.raising decision ∈ ws.set i v) :
    Watch.raising decision ∈ ws := by
  cases List.mem_or_eq_of_mem_set h with
  | inl h => exact h
  | inr h => exact absurd h.symm (hv decision)

/-! ## One step -/

theorem poll_inv {s : GuardedAgent} (hinv : s.Inv) (i : Nat) (r : Readings) (w : When) :
    (s.poll R i r w).Inv := by
  have hnumbered : Numbered s.job (s.poll R i r w).polls := by
    intro p hp j hj
    cases List.mem_cons.mp hp with
    | inl h =>
        subst h
        dsimp only at hj
        split at hj
        · exact (Option.some.inj hj).symm.le
        · cases hj
    | inr h => exact hinv.numbered p h j hj
  have hover : (s.poll R i r w).governor.overCount =
      ((s.poll R i r w).polls.takeWhile (·.overLine)).length := by
    change (if s.governor.overLine R r w then s.governor.overCount + 1 else 0) = _
    change _ = (List.takeWhile (·.overLine) (_ :: s.polls)).length
    cases h : s.governor.overLine R r w with
    | true => simp [hinv.overCount]
    | false => simp
  have hgrouped : (s.poll R i r w).phase = .running → Grouped s.job (s.poll R i r w).polls := by
    intro hphase
    change Grouped s.job (⟨if s.jobRunning then some s.job else none, _⟩ :: s.polls)
    rw [if_pos (hinv.running.mpr hphase)]
    exact (hinv.grouped hphase).cons _
  refine ⟨hinv.running, hover, hnumbered, hgrouped, ?_, hinv.cause, hinv.flagged⟩
  intro decision hd
  cases List.mem_or_eq_of_mem_set hd with
  | inl hd =>
      have := hinv.decisions decision hd
      exact ⟨this.overLine, this.numbered, this.grouped⟩
  | inr hd =>
      split at hd
      next hyes =>
        cases hd
        refine ⟨?_, hnumbered, hgrouped⟩
        have hanswer : s.governor.params.sustainedSamples ≤
            ((s.poll R i r w).governor.overCount : Int) := of_decide_eq_true hyes
        rw [hover] at hanswer
        change s.governor.params.sustainedSamples.toNat ≤ _
        exact Int.toNat_le.mpr hanswer
      · cases hd

theorem raiseFlag_inv {s : GuardedAgent} (hinv : s.Inv) {i : Nat} {decision : List Poll}
    (hd : s.watchers[i]? = some (.raising decision)) : (s.raiseFlag i decision).Inv := by
  have hdecided := hinv.decisions decision (List.mem_of_getElem? hd)
  refine ⟨hinv.running, hinv.overCount, hinv.numbered, hinv.grouped, ?_, ?_, fun _ => rfl⟩
  · intro d hmem
    have := hinv.decisions d (mem_set_waiting (fun _ h => by cases h) hmem)
    exact ⟨this.overLine, this.numbered, this.grouped⟩
  · change Numbered s.job (if s.yieldFlag then s.cause else decision)
    split
    · exact hinv.cause
    · exact hdecided.numbered

theorem start_inv {s : GuardedAgent} (hinv : s.Inv) :
    Inv { s with phase := .running, jobRunning := true, job := s.job + 1 } := by
  have hnext : ∀ {polls : List Poll}, Numbered s.job polls → Numbered (s.job + 1) polls :=
    fun h p hp j hj => (h p hp j hj).trans (Nat.le_succ _)
  refine ⟨iff_of_true rfl rfl, hinv.overCount, hnext hinv.numbered,
    fun _ => grouped_new hinv.numbered, ?_, hnext hinv.cause, hinv.flagged⟩
  intro decision hd
  have := hinv.decisions decision hd
  exact ⟨this.overLine, hnext this.numbered, fun _ => grouped_new this.numbered⟩

/-- A decision justifies a preemption of the running job if that job saw enough polls. -/
theorem Decided.sustained_iff {s : GuardedAgent} {decision : List Poll}
    (h : s.Decided decision) (hphase : s.phase = .running) :
    (s.sustained ≤ decision.length ∧
      ∀ p ∈ decision.take s.sustained, p.job = some s.job ∧ p.overLine = true) ↔
      s.sustained ≤ pollsOf s.job decision := by
  have hover := (le_takeWhile_iff.mp h.overLine).2
  rw [(h.grouped hphase).pollsOf_eq, le_takeWhile_iff]
  constructor
  · rintro ⟨hlen, hall⟩
    exact ⟨hlen, fun p hp => decide_eq_true (hall p hp).1⟩
  · rintro ⟨hlen, hall⟩
    exact ⟨hlen, fun p hp => ⟨of_decide_eq_true (hall p hp), hover p hp⟩⟩

theorem start_justified_iff {s : GuardedAgent} (hinv : s.Inv) :
    Justified { s with phase := .running, jobRunning := true, job := s.job + 1 } ↔
      s.Clean .start := by
  constructor
  · intro h hpos hflag
    by_contra htriggered
    have hsustained := h ⟨rfl, hflag, by simpa using htriggered⟩
    -- the newest poll was made before the job started
    have hmem : ∃ p, p ∈ s.cause.take s.sustained := by
      refine List.exists_mem_of_length_pos ?_
      rw [List.length_take]
      have hlen : s.sustained ≤ s.cause.length := hsustained.1
      omega
    obtain ⟨p, hp⟩ := hmem
    have hjob : p.job = some (s.job + 1) := (hsustained.2 p hp).1
    have := hinv.cause p (List.mem_of_mem_take hp) _ hjob
    omega
  · intro h hpre
    have hzero : s.sustained = 0 := by
      by_contra hne
      have := h (Nat.pos_of_ne_zero hne) hpre.2.1
      exact absurd (this.symm.trans hpre.2.2) nofun
    unfold Sustained
    change s.sustained ≤ _ ∧ ∀ p ∈ s.cause.take s.sustained, _
    rw [hzero]
    exact ⟨Nat.zero_le _, by simp⟩

theorem raiseFlag_justified_iff {s : GuardedAgent} (hinv : s.Inv) (hs : s.Justified) {i : Nat}
    {decision : List Poll} (hd : s.watchers[i]? = some (.raising decision)) :
    (s.raiseFlag i decision).Justified ↔
      (s.phase = .running → s.yieldFlag = false → s.sustained ≤ pollsOf s.job decision) := by
  have hdecided := hinv.decisions decision (List.mem_of_getElem? hd)
  constructor
  · intro h hphase hflag
    have htriggered : s.triggered = false := by
      cases ht : s.triggered with
      | false => rfl
      | true => exact absurd (hflag.symm.trans (hinv.flagged ht)) nofun
    have hsustained := h ⟨hphase, rfl, htriggered⟩
    unfold Sustained raiseFlag at hsustained
    dsimp only at hsustained
    rw [hflag] at hsustained
    exact (hdecided.sustained_iff hphase).mp hsustained
  · intro h hpre
    cases hflag : s.yieldFlag with
    | true =>
        have := hs ⟨hpre.1, hflag, hpre.2.2⟩
        unfold Sustained raiseFlag
        dsimp only
        rw [if_pos hflag]
        exact this
    | false =>
        unfold Sustained raiseFlag
        dsimp only
        rw [hflag]
        exact (hdecided.sustained_iff hpre.1).mpr (h hpre.1 hflag)

/-- A step keeps the invariant, and leaves the running job's preemption justified exactly
if it is clean. -/
theorem step_justified {s s' : GuardedAgent} {a : Action} (hinv : s.Inv)
    (h : s.step R a = some s') : s'.Inv ∧ (s.Justified → (s'.Justified ↔ s.Clean a)) := by
  have hquiet : Quiet s s' → s.Clean a → (s'.phase = .running → s'.yieldFlag = true →
      s'.triggered = false → s.yieldFlag = true ∧ s.triggered = false) →
      s'.Inv ∧ (s.Justified → (s'.Justified ↔ s.Clean a)) := fun hq hclean hflag =>
    ⟨hq.inv hinv, fun hs => iff_of_true (hq.justified hflag hs) hclean⟩
  have hsame : ∀ {ws : List Watch}, ws = s.watchers →
      ∀ decision, Watch.raising decision ∈ ws → Watch.raising decision ∈ s.watchers :=
    fun heq _ hd => heq ▸ hd
  cases a with
  | guard r w =>
      simp only [step] at h
      split at h
      next hphase =>
        split at h
        · cases h
          refine hquiet ⟨rfl, rfl, rfl, shouldRun_over _ r w, ?_, ?_, nofun, ?_, hinv.flagged⟩
            trivial nofun
          · exact AdaptiveGovernor.shouldRun_params s.governor r w
          · exact iff_of_false (fun hr => absurd (hinv.running.mp hr) (by simp [hphase])) nofun
          · intro decision hd
            cases List.mem_append.mp hd with
            | inl hd => exact hd
            | inr hd => cases List.mem_singleton.mp hd
        · cases h
          exact hquiet ⟨rfl, rfl, rfl, shouldRun_over _ r w,
            AdaptiveGovernor.shouldRun_params s.governor r w, hinv.running, id, hsame rfl,
            hinv.flagged⟩ trivial fun _ hf ht => ⟨hf, ht⟩
      · cases h
  | assign needsGpu =>
      simp only [step] at h
      split at h
      next hphase =>
        cases h
        exact hquiet ⟨rfl, rfl, rfl, rfl, rfl,
          iff_of_false (fun hr => absurd (hinv.running.mp hr) (by simp [hphase])) nofun, nofun,
          hsame rfl, hinv.flagged⟩ trivial nofun
      · cases h
  | refuse =>
      simp only [step] at h
      split at h
      next hphase =>
        cases h
        exact hquiet ⟨rfl, rfl, rfl, rfl, rfl,
          iff_of_false (fun hr => absurd (hinv.running.mp hr) (by simp [hphase])) nofun, nofun,
          hsame rfl, hinv.flagged⟩ trivial nofun
      · cases h
  | start =>
      simp only [step] at h
      split at h
      · cases h
        exact ⟨start_inv hinv, fun _ => start_justified_iff hinv⟩
      · cases h
  | finish =>
      simp only [step] at h
      split at h
      · cases h
        exact hquiet ⟨rfl, rfl, rfl, rfl, rfl, iff_of_false nofun nofun, nofun, hsame rfl,
          hinv.flagged⟩ trivial nofun
      · cases h
  | clearFlag =>
      simp only [step] at h
      split at h
      next hphase =>
        cases h
        exact hquiet ⟨rfl, rfl, rfl, rfl, rfl,
          iff_of_false (fun hr => absurd (hinv.running.mp hr) (by simp [hphase])) nofun, nofun,
          hsame rfl, nofun⟩ trivial nofun
      · cases h
  | resetNote =>
      simp only [step] at h
      split at h
      next hphase =>
        cases h
        exact hquiet ⟨rfl, rfl, rfl, rfl, rfl,
          iff_of_false (fun hr => absurd (hinv.running.mp hr) (by simp [hphase])) nofun, nofun,
          hsame rfl, hinv.flagged⟩ trivial nofun
      · cases h
  | leave =>
      simp only [step] at h
      split at h
      next hphase =>
        cases h
        refine hquiet ⟨rfl, rfl, rfl, rfl, rfl, iff_of_false (fun hr => ?_) nofun, nofun,
          hsame rfl, hinv.flagged⟩ trivial nofun
        have hrun := hinv.running.mp hr
        cases hphase with
        | inl hp => exact absurd (hp.symm.trans hrun) nofun
        | inr hp => exact absurd (hp.symm.trans hrun) nofun
      · cases h
  | trigger =>
      cases h
      exact hquiet ⟨rfl, rfl, rfl, rfl, rfl, hinv.running, id, hsame rfl, fun _ => rfl⟩ trivial
        (fun _ _ ht => nomatch ht)
  | watch i r w =>
      simp only [step, watchStep] at h
      have hset : ∀ v : Watch, (∀ d, v ≠ .raising d) → (∀ d, s.watchers[i]? ≠ some (.raising d)) →
          s' = s.setWatch i v → s'.Inv ∧ (s.Justified → (s'.Justified ↔ s.Clean (.watch i r w))) := by
        intro v hv hnot heq
        subst heq
        exact hquiet ⟨rfl, rfl, rfl, rfl, rfl, hinv.running, id,
          fun decision hd => mem_set_waiting hv hd, hinv.flagged⟩
          (fun d hd => absurd hd (hnot d)) fun _ hf ht => ⟨hf, ht⟩
      split at h
      next hw =>
        refine hset _ ?_ (by simp [hw]) (Option.some.inj h).symm
        intro d
        split <;> nofun
      next hw =>
        refine hset _ ?_ (by simp [hw]) (Option.some.inj h).symm
        intro d
        split <;> nofun
      next hw =>
        cases h
        refine ⟨poll_inv hinv i r w, fun hs => iff_of_true ?_ (fun d hd => by rw [hw] at hd; cases hd)⟩
        exact hs
      next decision hw =>
        cases h
        refine ⟨raiseFlag_inv hinv hw, fun hs => (raiseFlag_justified_iff hinv hs hw).trans ?_⟩
        constructor
        · intro hd d hw'
          rw [hw] at hw'
          cases hw'
          exact hd
        · intro hd
          exact hd decision hw
      · cases h
      · cases h

/-! ## Runs -/

/-- An agent that starts, with one governor. -/
def fresh (params : GovernorParams) (profiler : UsageProfiler) : GuardedAgent :=
  { governor := { params := params, profiler := profiler } }

theorem fresh_inv (params : GovernorParams) (profiler : UsageProfiler) :
    (fresh params profiler).Inv :=
  ⟨iff_of_false nofun nofun, rfl, nofun, nofun, nofun, nofun, nofun⟩

theorem exec_append (s : GuardedAgent) (as : List Action) (a : Action) :
    s.exec R (as ++ [a]) = (s.exec R as).bind (fun t => t.step R a) := by
  unfold exec
  rw [List.foldlM_append]
  refine congrArg (Option.bind _) (funext fun t => ?_)
  simp

theorem exec_inv {s t : GuardedAgent} (hinv : s.Inv) {as : List Action}
    (h : s.exec R as = some t) : t.Inv := by
  induction as using List.reverseRecOn generalizing t with
  | nil =>
      cases h
      exact hinv
  | append_singleton as a ih =>
      rw [exec_append] at h
      obtain ⟨u, hu, hstep⟩ := Option.bind_eq_some_iff.mp h
      exact (step_justified (ih hu) hstep).1

/-- In every run, whatever job is preempted without a trigger had the demand that calls
for it, exactly if each step of the run is clean. -/
theorem preempted_sustained_iff (R : Rounding) (params : GovernorParams)
    (profiler : UsageProfiler) (as : List Action) :
    (∀ pre t, pre <+: as → (fresh params profiler).exec R pre = some t →
        t.Preempted → t.Sustained) ↔
      ∀ pre a t t', pre ++ [a] <+: as → (fresh params profiler).exec R pre = some t →
        t.step R a = some t' → t.Clean a := by
  constructor
  · intro h pre a t t' hpre ht hstep
    have hbefore : t.Justified := h pre t ((List.prefix_append pre [a]).trans hpre) ht
    have hafter : t'.Justified := by
      refine h (pre ++ [a]) t' hpre ?_
      rw [exec_append, ht]
      exact hstep
    exact ((step_justified (exec_inv (fresh_inv params profiler) ht) hstep).2 hbefore).mp hafter
  · intro h pre
    induction pre using List.reverseRecOn with
    | nil =>
        intro t _ ht hpre
        cases ht
        exact absurd hpre.1 nofun
    | append_singleton pre a ih =>
        intro t' hpre ht'
        rw [exec_append] at ht'
        obtain ⟨t, ht, hstep⟩ := Option.bind_eq_some_iff.mp ht'
        have hbefore : t.Justified := ih t ((List.prefix_append pre [a]).trans hpre) ht
        exact ((step_justified (exec_inv (fresh_inv params profiler) ht) hstep).2 hbefore).mpr
          (h pre a t t' hpre ht hstep)

/-! ## Demand left over from a job -/

def quiet : Readings := { onAc := true, systemCpu := some (.fin 5) }
def busy : Readings := { onAc := true, systemCpu := some (.fin 99) }
def noon : When := ⟨0, 12, .fin 1000⟩

/-- A round of the watcher that polls: its check, and the poll. -/
def round (i : Nat) : List Action := [.watch i busy noon, .watch i busy noon, .watch i busy noon]

/-- Two polls of the first job are over the line, and one of the second. -/
def twoJobs : List Action :=
  [.guard quiet noon, .assign false, .start] ++ round 0 ++ round 0 ++
    [.finish, .clearFlag, .resetNote, .leave, .watch 0 quiet noon, .guard quiet noon,
      .assign false, .start] ++
    round 1 ++ [.watch 1 busy noon]

instance (s : GuardedAgent) : Decidable s.Preempted := inferInstanceAs (Decidable (_ ∧ _ ∧ _))
instance (s : GuardedAgent) : Decidable s.Sustained := inferInstanceAs (Decidable (_ ∧ _))

theorem secondJob_preempted : ∃ t, (fresh {} {}).exec PyNumber.binary64 twoJobs = some t ∧
    t.Preempted ∧ ¬ t.Sustained := by
  have hrun : (match (fresh {} {}).exec PyNumber.binary64 twoJobs with
      | some t => decide (t.Preempted ∧ ¬ t.Sustained)
      | none => false) = true := by
    decide +kernel
  split at hrun
  next t ht => exact ⟨t, ht, of_decide_eq_true hrun⟩
  · cases hrun

end GuardedAgent

end OneCompute.Worker
