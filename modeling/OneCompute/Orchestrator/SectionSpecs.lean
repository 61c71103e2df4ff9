import OneCompute.Orchestrator.Statements

/-!
What each section does when its statements are run one after the other, for any
readings of the clock in between: which states it commits and what it ends with.
-/

namespace OneCompute
open Interleaving (Prog)
open Locking (Wp execute locked attempt)

/-- Others leave the database alone while a section holds the lock, and move the clock
within `T`. -/
def Drift (T : Time → Prop) (s s' : Store) : Prop :=
  s'.mem = s.mem ∧ s'.disk = s.disk ∧ (T s.clock → T s'.clock)

theorem drift_refl (T : Time → Prop) (s : Store) : Drift T s s := ⟨rfl, rfl, id⟩

theorem drift_trans {T : Time → Prop} (a b c : Store) (hab : Drift T a b) (hbc : Drift T b c) :
    Drift T a c :=
  ⟨hbc.1.trans hab.1, hbc.2.1.trans hab.2.1, hbc.2.2 ∘ hab.2.2⟩

section Specs
variable {A B : Type} (cfg : Config) (T : Time → Prop) (guar : Store → Store → Prop)

/-- Started with the lock, on `mem` and `disk`, the section ends in `Φ`. -/
def Spec (p : Section A) (mem disk : Db) (Φ : Except Failure A → Db → Db → Prop) : Prop :=
  ∀ clock, T clock → Wp (process cfg) (Drift T) guar p ⟨clock, mem, disk⟩
    fun x s => T s.clock ∧ Φ x s.mem s.disk

/-- A commit of `mem` over `disk` is one the guarantee allows. -/
def Commits (disk mem : Db) : Prop := ∀ clock, guar ⟨clock, mem, disk⟩ ⟨clock, mem, mem⟩

/-- A guarantee that says nothing of what is not committed. -/
def AllowsChanges : Prop := ∀ clock mem mem' disk, guar ⟨clock, mem, disk⟩ ⟨clock, mem', disk⟩

variable {cfg T guar} {mem disk : Db} {Φ : Except Failure A → Db → Db → Prop}

theorem spec_ret {a : A} (h : Φ (.ok a) mem disk) : Spec cfg T guar (.ret a) mem disk Φ := by
  intro clock hclock s' hs
  refine ⟨hs.2.2 hclock, ?_⟩
  rw [hs.1, hs.2.1]
  exact h

theorem spec_raise {e : Failure} (h : Φ (.error e) mem disk) :
    Spec cfg T guar (.raise e) mem disk Φ := by
  intro clock hclock s' hs
  refine ⟨hs.2.2 hclock, ?_⟩
  rw [hs.1, hs.2.1]
  exact h

theorem spec_bind {p : Section B} {f : B → Section A} {Ψ : Except Failure B → Db → Db → Prop}
    (hp : Spec cfg T guar p mem disk Ψ)
    (hok : ∀ a mem' disk', Ψ (.ok a) mem' disk' → Spec cfg T guar (f a) mem' disk' Φ)
    (herror : ∀ e mem' disk', Ψ (.error e) mem' disk' → Φ (.error e) mem' disk') :
    Spec cfg T guar (p >>= f) mem disk Φ := by
  intro clock hclock
  apply Locking.wp_bind (drift_refl T)
  apply Locking.wp_mono (hp clock hclock)
  intro x s' h
  cases x with
  | ok a => exact hok a _ _ h.2 s'.clock h.1
  | error e => exact ⟨h.1, herror e _ _ h.2⟩

theorem spec_ofExcept {x : Except Failure B} {f : B → Section A}
    (hok : ∀ a, x = .ok a → Spec cfg T guar (f a) mem disk Φ)
    (herror : ∀ e, x = .error e → Φ (.error e) mem disk) :
    Spec cfg T guar (Prog.ofExcept x >>= f) mem disk Φ := by
  cases x with
  | ok a => exact hok a rfl
  | error e => exact spec_raise (herror e rfl)

theorem spec_readClock {f : Time → Section A}
    (h : ∀ t, T t → Spec cfg T guar (f t) mem disk Φ) :
    Spec cfg T guar (readClock >>= f) mem disk Φ := by
  intro clock hclock s' hs input
  have hT := hs.2.2 hclock
  obtain ⟨clock', mem', disk'⟩ := s'
  obtain ⟨rfl, rfl, -⟩ := hs
  exact h _ hT clock' hT

theorem spec_locked {p : Section A} (h : Spec cfg T guar p mem disk Φ) :
    Spec cfg T guar (locked p) mem disk Φ :=
  fun clock hclock => Locking.wp_locked (h clock hclock)

/-- The section as the command sees it: an exception is its answer. -/
theorem spec_attempt {p : Section A} {Ψ : Except Failure (Except Failure A) → Db → Db → Prop}
    (h : Spec cfg T guar p mem disk fun x => Ψ (.ok x)) :
    Spec cfg T guar (attempt p) mem disk Ψ :=
  fun clock hclock => Locking.wp_attempt (h clock hclock)

/-- One statement that answers `answer` and leaves `mem'` and `disk'`. -/
theorem spec_execute {q : Sql} {f : SqlAnswer q → Section A} {mem' disk' : Db}
    (answer : SqlAnswer q)
    (hq : ∀ clock, runSql q ⟨clock, mem, disk⟩ = (⟨clock, mem', disk'⟩, answer))
    (hguar : ∀ clock, guar ⟨clock, mem, disk⟩ ⟨clock, mem', disk'⟩)
    (h : Spec cfg T guar (f answer) mem' disk' Φ) :
    Spec cfg T guar (execute q >>= f) mem disk Φ := by
  intro clock hclock
  apply Locking.wp_execute_bind (drift_refl T)
  intro s' hs
  have hT := hs.2.2 hclock
  obtain ⟨clock', mem₁, disk₁⟩ := s'
  obtain ⟨rfl, rfl, -⟩ := hs
  change guar _ (runSql q _).1 ∧ ∀ s'', Drift T (runSql q _).1 s'' → Wp _ _ _ (f (runSql q _).2) s'' _
  rw [hq clock']
  refine ⟨hguar clock', fun s'' hs'' => ?_⟩
  have hT' := hs''.2.2 hT
  obtain ⟨clock'', mem₂, disk₂⟩ := s''
  obtain ⟨rfl, rfl, -⟩ := hs''
  exact h clock'' hT'

variable (hguar : AllowsChanges guar)
include hguar

theorem spec_select {f : Db → Section A} (h : Spec cfg T guar (f mem) mem disk Φ) :
    Spec cfg T guar (select >>= f) mem disk Φ :=
  spec_execute (q := .select) _ (fun _ => rfl) (fun clock => hguar clock mem mem disk) h

theorem spec_tryModify {g : Db → Except Failure Db} {f : Unit → Section A}
    (hok : ∀ mem', g mem = .ok mem' → Spec cfg T guar (f ()) mem' disk Φ)
    (herror : ∀ e, g mem = .error e → Φ (.error e) mem disk) :
    Spec cfg T guar (tryModify g >>= f) mem disk Φ := by
  rw [tryModify, Prog.bind_bind]
  cases hg : g mem with
  | ok mem' =>
      refine spec_execute (q := .modify g) (.ok ()) (fun clock => ?_)
        (fun clock => hguar clock mem mem' disk) (hok mem' hg)
      simp only [runSql, hg]
  | error e =>
      refine spec_execute (q := .modify g) (.error e) (fun clock => ?_)
        (fun clock => hguar clock mem mem disk) (spec_raise (herror e hg))
      simp only [runSql, hg]

theorem spec_modifyRows {g : Db → Db} {f : Unit → Section A}
    (h : Spec cfg T guar (f ()) (g mem) disk Φ) :
    Spec cfg T guar (modifyRows g >>= f) mem disk Φ :=
  spec_tryModify hguar (fun mem' hm => by cases hm; exact h) fun e he => by cases he

omit hguar in
theorem spec_commit {f : Unit → Section A} (hc : Commits guar disk mem)
    (h : Spec cfg T guar (f ()) mem mem Φ) : Spec cfg T guar (commit >>= f) mem disk Φ :=
  spec_execute (q := .commit) _ (fun _ => rfl) hc h

omit hguar in
theorem spec_commit_last {Φ : Except Failure Unit → Db → Db → Prop} (hc : Commits guar disk mem)
    (h : Φ (.ok ()) mem mem) : Spec cfg T guar commit mem disk Φ := by
  rw [← Prog.bind_ret commit]
  exact spec_commit hc (spec_ret h)

/-! ## The sections -/

theorem spec_emit {e : Emission} {Φ : Except Failure Unit → Db → Db → Prop}
    (hc : ∀ t, T t → Commits guar disk (emit t mem e))
    (h : ∀ t, T t → Φ (.ok ()) (emit t mem e) (emit t mem e)) :
    Spec cfg T guar (emitSection e) mem disk Φ :=
  spec_select hguar (spec_readClock fun t ht =>
    spec_modifyRows hguar (spec_commit_last (hc t ht) (h t ht)))

theorem spec_modifySection {f : Db → Db} {Φ : Except Failure Unit → Db → Db → Prop}
    (hc : Commits guar disk (f mem)) (h : Φ (.ok ()) (f mem) (f mem)) :
    Spec cfg T guar (modifySection f) mem disk Φ :=
  spec_modifyRows hguar (spec_commit_last hc h)

theorem spec_enroll {bind : Bool} {e : Enrollment}
    {Φ : Except Failure (Except Failure (Bool × Option String)) → Db → Db → Prop}
    (hc : Commits guar disk (enroll bind e mem).db)
    (herror : ∀ x, (enroll bind e mem).answer = .error x → Φ (.ok (.error x)) mem disk)
    (h : ∀ x, (enroll bind e mem).answer = .ok x →
      Φ (.ok (.ok x)) (enroll bind e mem).db (enroll bind e mem).db) :
    Spec cfg T guar (attempt (enrollSection bind e)) mem disk Φ := by
  refine spec_attempt (spec_select hguar (spec_ofExcept (fun u hu => ?_) fun x hx => ?_))
  · simp only [enroll, hu] at hc h
    refine spec_modifyRows hguar (spec_commit hc (spec_select hguar ?_))
    -- the row read back is the one the statement wrote
    have hfind : (mem.workers.upsert (.enrolled e) (WorkerRow.reenrolled e)
        (fun _ => rfl)).find? e.capability.workerId =
          some ((mem.workers.find? e.capability.workerId).elim (.enrolled e)
            (WorkerRow.reenrolled e)) :=
      (Table.find?_upsert _ _ _ _ _).trans (if_pos rfl)
    simp only [hfind]
    exact spec_ret (h _ rfl)
  · exact herror x (by simp only [enroll, hx])

theorem spec_applyDerivedTier {workerId tier : String} {Φ : Except Failure Bool → Db → Db → Prop}
    (hc : Commits guar disk (applyDerivedTier workerId tier mem).db)
    (hfalse : (applyDerivedTier workerId tier mem).answer = false →
      (applyDerivedTier workerId tier mem).db = mem → Φ (.ok false) mem disk)
    (htrue : (applyDerivedTier workerId tier mem).answer = true →
      Φ (.ok true) (applyDerivedTier workerId tier mem).db
        (applyDerivedTier workerId tier mem).db) :
    Spec cfg T guar (applyDerivedTierSection workerId tier) mem disk Φ := by
  refine spec_select hguar ?_
  cases hrow : mem.workers.find? workerId with
  | none =>
      simp only [applyDerivedTier, hrow] at hfalse
      exact spec_ret (hfalse trivial trivial)
  | some row =>
      cases hpin : row.tierPinned with
      | true =>
          simp only [applyDerivedTier, hrow, hpin, if_true] at hfalse
          simp only [hpin, if_true]
          exact spec_ret (hfalse trivial trivial)
      | false =>
          simp only [applyDerivedTier, hrow, hpin, Bool.false_eq_true, if_false] at hc htrue
          simp only [hpin, Bool.false_eq_true, if_false]
          exact spec_modifyRows hguar (spec_commit hc (spec_ret (htrue trivial)))

theorem spec_insertJob {s : Submission}
    {Φ : Except Failure (Except Failure Unit) → Db → Db → Prop}
    (hc : Commits guar disk (insertJob s mem).db)
    (herror : ∀ x, (insertJob s mem).answer = .error x → Φ (.ok (.error x)) mem disk)
    (h : (insertJob s mem).answer = .ok () →
      Φ (.ok (.ok ())) (insertJob s mem).db (insertJob s mem).db) :
    Spec cfg T guar (attempt (insertJobSection s)) mem disk Φ := by
  refine spec_attempt (spec_tryModify hguar (fun mem' hm => ?_) fun x hx => ?_)
  · cases ha : (insertJob s mem).answer with
    | ok u =>
        rw [ha] at hm
        cases hm
        exact spec_commit_last hc (h ha)
    | error x =>
        rw [ha] at hm
        cases hm
  · cases ha : (insertJob s mem).answer with
    | ok u =>
        rw [ha] at hx
        cases hx
    | error y =>
        rw [ha] at hx
        cases hx
        exact herror x ha

/-- Lapsed leases at `now` are taken back at `updatedAt`. -/
def reapAt (updatedAt now : Time) (db : Db) : Db :=
  requeue updatedAt (fun job => decide (job.state = .leased) &&
    (match job.leaseExpires with | some t => decide (t < now) | none => false)) db

theorem spec_reap {Φ : Except Failure Unit → Db → Db → Prop}
    (hc : ∀ t, T t → ∀ u, T u → Commits guar disk (reapAt t u mem))
    (h : ∀ t, T t → ∀ u, T u → Φ (.ok ()) (reapAt t u mem) (reapAt t u mem)) :
    Spec cfg T guar reapSection mem disk Φ :=
  spec_readClock fun t ht => spec_readClock fun u hu =>
    spec_modifyRows hguar (spec_commit_last (hc t ht u hu) (h t ht u hu))

theorem spec_defer {workerId : String} {createdAt : Time} {f : Bool → Section A}
    (h : ∀ t, T t → Spec cfg T guar (f (deferToLessLoaded mem workerId createdAt t)) mem disk Φ) :
    Spec cfg T guar (deferSection workerId createdAt >>= f) mem disk Φ := by
  rw [deferSection, Prog.bind_bind]
  refine spec_readClock fun t ht => ?_
  have ht := h t ht
  cases hgrace : pastGrace t createdAt with
  | true =>
      simp only [deferToLessLoaded, hgrace, if_true] at ht
      simp only [if_true]
      exact ht
  | false =>
      simp only [Bool.false_eq_true, if_false]
      rw [Prog.bind_bind]
      refine spec_select hguar ?_
      cases hme : mem.workers.find? workerId with
      | none =>
          simp only [deferToLessLoaded, hgrace, hme] at ht
          exact ht
      | some me =>
          simp only [deferToLessLoaded, hgrace, hme] at ht
          simp only
          rw [Prog.bind_bind]
          exact spec_select hguar ht

/-- A job is leased, with three readings of the clock. -/
def grantAt (workerId jobId : String) (deadlineClock now : Time) (db : Db) : Db :=
  occupy workerId now (leaseJob workerId jobId deadlineClock now db)

theorem spec_assign {workerId : String} {cap : Capability} {free : Option PyFloat}
    {Φ : Except Failure Poll → Db → Db → Prop}
    (hbusy : busy mem workerId = true → Φ (.ok .busy) mem disk)
    (hnone : busy mem workerId = false → pickJobFor mem cap free = none →
      Φ (.ok .noJob) mem disk)
    (hdefer : ∀ job t, T t → busy mem workerId = false → pickJobFor mem cap free = some job →
      deferToLessLoaded mem workerId job.createdAt t = true → Φ (.ok .deferred) mem disk)
    (hgrant : ∀ job t d u, T t → T d → T u → busy mem workerId = false →
      pickJobFor mem cap free = some job →
      deferToLessLoaded mem workerId job.createdAt t = false →
      Commits guar disk (grantAt workerId job.jobId d u mem) ∧
        Φ (.ok (.granted job)) (grantAt workerId job.jobId d u mem)
          (grantAt workerId job.jobId d u mem)) :
    Spec cfg T guar (assignSection workerId cap free) mem disk Φ := by
  refine spec_select hguar ?_
  cases hb : busy mem workerId with
  | true =>
      simp only [if_true]
      exact spec_ret (hbusy hb)
  | false =>
      simp only [Bool.false_eq_true, if_false, pickSection]
      rw [Prog.bind_bind]
      refine spec_select hguar ?_
      rw [Prog.bind_bind]
      refine spec_select hguar ?_
      rw [Prog.pure_eq, Prog.ret_bind]
      cases hpick : pickJobFor mem cap free with
      | none =>
          rw [pickJobFor] at hpick
          rw [hpick]
          exact spec_ret (hnone hb hpick)
      | some job =>
          have hp := hpick
          rw [pickJobFor] at hpick
          rw [hpick]
          refine spec_defer hguar fun t ht => ?_
          cases hd : deferToLessLoaded mem workerId job.createdAt t with
          | true =>
              simp only [if_true]
              exact spec_ret (hdefer job t ht hb hp hd)
          | false =>
              simp only [Bool.false_eq_true, if_false]
              refine spec_readClock fun d hdT => spec_readClock fun u huT => ?_
              have hg := hgrant job t d u ht hdT huT hb hp hd
              exact spec_modifyRows hguar (spec_modifyRows hguar (spec_commit hg.1 (spec_ret hg.2)))

theorem spec_heartbeat {m : Bool} {req : HeartbeatRequest} {now : Time}
    {Φ : Except Failure Unit → Db → Db → Prop} (t₀ : Time) (ht₀ : T t₀)
    (h : ∀ t, T t → Commits guar disk (recordHeartbeat m req now t mem) ∧
      Φ (.ok ()) (recordHeartbeat m req now t mem) (recordHeartbeat m req now t mem)) :
    Spec cfg T guar (heartbeatSection m req now) mem disk Φ := by
  refine spec_modifyRows hguar ?_
  cases hjob : req.currentJobId with
  | none =>
      have h₀ := h t₀ ht₀
      simp only [recordHeartbeat, hjob] at h₀
      exact spec_commit_last h₀.1 h₀.2
  | some jobId =>
      cases hcond : !m && decide (jobId ≠ "") with
      | true =>
          simp only [hcond, if_true]
          refine spec_modifyRows hguar (spec_readClock fun t ht => ?_)
          have h₁ := h t ht
          simp only [recordHeartbeat, hjob, hcond, if_true] at h₁
          exact spec_modifyRows hguar (spec_commit_last h₁.1 h₁.2)
      | false =>
          have h₀ := h t₀ ht₀
          simp only [recordHeartbeat, hjob, hcond] at h₀
          simp only [hcond]
          exact spec_commit_last h₀.1 h₀.2

theorem spec_remove {workerId : String} {now : Time} {Φ : Except Failure Unit → Db → Db → Prop}
    (hc : Commits guar disk (removeWorker workerId now mem))
    (h : Φ (.ok ()) (removeWorker workerId now mem) (removeWorker workerId now mem)) :
    Spec cfg T guar (removeSection workerId now) mem disk Φ :=
  spec_modifyRows hguar (spec_modifyRows hguar (spec_modifyRows hguar (spec_commit_last hc h)))

/-- The states a settled result commits: the rows, and then the rows with the event. -/
def SettleCommits (guar : Store → Store → Prop) (T : Time → Prop) (disk : Db)
    (out : Outcome (Except Failure ResultResponse)) : Prop :=
  Commits guar disk out.db ∧ ∀ e t, T t → out.emits = [e] → Commits guar out.db (emit t out.db e)

theorem spec_requeueThen {workerId jobId reason : String} {now : Time}
    {Φ : Except Failure ResultResponse → Db → Db → Prop}
    (hc : Commits guar disk (requeueFor workerId jobId now mem))
    (h : Φ (.ok (refused reason)) (requeueFor workerId jobId now mem)
      (requeueFor workerId jobId now mem)) :
    Spec cfg T guar (requeueThen workerId jobId now reason) mem disk Φ :=
  spec_modifyRows hguar (spec_commit hc (spec_ret h))

theorem spec_commitThen {e : Emission} {response : ResultResponse}
    {Φ : Except Failure ResultResponse → Db → Db → Prop} (hc : Commits guar disk mem)
    (hce : ∀ t, T t → Commits guar mem (emit t mem e))
    (h : ∀ t, T t → Φ (.ok response) (emit t mem e) (emit t mem e)) :
    Spec cfg T guar (commitThen e response) mem disk Φ := by
  refine spec_commit hc (spec_bind (spec_locked (spec_emit hguar
    (Φ := fun x m d => x = .ok () ∧ Φ (.ok response) m d) hce fun t ht => ⟨rfl, h t ht⟩)) ?_ ?_)
  · exact fun _ m d hx => spec_ret hx.2
  · exact fun _ _ _ hx => nomatch hx.1

theorem spec_settle {jobId : String} {req : ResultRequest} {now : Time} {db : Db}
    {Φ : Except Failure (Except Failure ResultResponse) → Db → Db → Prop}
    (hc : SettleCommits guar T db (settle jobId req now db))
    (h : ∀ t, T t → Φ (.ok (settle jobId req now db).answer)
      (emitAll t (settle jobId req now db).db (settle jobId req now db).emits)
      (emitAll t (settle jobId req now db).db (settle jobId req now db).emits))
    (t₀ : Time) (ht₀ : T t₀) :
    Spec cfg T guar (attempt (settleSection jobId req now)) db db Φ := by
  refine spec_attempt (spec_select hguar ?_)
  cases hjob : db.jobs.find? jobId with
  | none =>
      simp only [settle, hjob] at h
      exact spec_raise (h t₀ ht₀)
  | some job =>
      simp only [settle, hjob] at hc h
      cases hlease : job.leasedTo req.workerId with
      | false =>
          simp only [hlease, Bool.not_false, if_true] at h ⊢
          exact spec_ret (h t₀ ht₀)
      | true =>
          simp only [hlease, Bool.not_true, Bool.false_eq_true, if_false] at hc h ⊢
          split
          next hlapsed =>
            simp only [hlapsed, if_true] at hc h
            exact spec_requeueThen hguar hc.1 (h t₀ ht₀)
          next hlapsed =>
            rw [if_neg hlapsed] at hc
            simp only [if_neg hlapsed] at h
            split
            next hsize =>
              simp only [if_pos hsize] at h
              exact spec_ret (h t₀ ht₀)
            next hsize =>
              rw [if_neg hsize] at hc
              simp only [if_neg hsize] at h
              cases hstatus : req.status with
              | completed =>
                  simp only [hstatus] at hc h ⊢
                  cases hproof : proofMismatch req with
                  | true =>
                      simp only [hproof, if_true] at hc h ⊢
                      exact spec_requeueThen hguar hc.1 (h t₀ ht₀)
                  | false =>
                      simp only [hproof, Bool.false_eq_true, if_false] at hc h ⊢
                      cases hch : passesChallenge job req.outputOrEmpty with
                      | error failure =>
                          simp only [hch] at h ⊢
                          exact spec_raise (h t₀ ht₀)
                      | ok passed =>
                          cases passed with
                          | false =>
                              simp only [hch] at hc h ⊢
                              exact spec_modifyRows hguar (spec_modifyRows hguar
                                (spec_commitThen hguar hc.1 (fun t ht => hc.2 _ t ht rfl) h))
                          | true =>
                              simp only [hch] at hc h ⊢
                              exact spec_modifyRows hguar (spec_modifyRows hguar
                                (spec_commitThen hguar hc.1 (fun t ht => hc.2 _ t ht rfl) h))
              | failed =>
                  simp only [hstatus] at hc h ⊢
                  exact spec_modifyRows hguar (spec_commitThen hguar hc.1
                    (fun t ht => hc.2 _ t ht rfl) h)
              | yielded =>
                  simp only [hstatus] at hc h ⊢
                  exact spec_modifyRows hguar (spec_commitThen hguar hc.1
                    (fun t ht => hc.2 _ t ht rfl) h)

end Specs
end OneCompute
