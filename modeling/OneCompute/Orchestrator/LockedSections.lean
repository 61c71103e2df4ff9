import OneCompute.Orchestrator.SectionSpecs
import OneCompute.Orchestrator.Trail

/-!
The sections run statement by statement under the lock do what the atomic commands
do: the process refines the machine of atomic commands and never deadlocks.
-/

namespace OneCompute
open Interleaving (Prog)
open Locking (Wp Balanced balanced_ret balanced_raise balanced_bind balanced_execute
  balanced_locked balanced_attempt balanced_free balanced_stmt)

/-! ## The lock is given back -/

theorem balanced_ofExcept {A : Type} (x : Except Failure A) :
    Balanced (Prog.ofExcept x : Section A) := by
  cases x with
  | ok a => exact balanced_ret a
  | error e => exact balanced_raise e

theorem balanced_select_bind {A : Type} {f : Db → Section A} (hf : ∀ db, Balanced (f db)) :
    Balanced (select >>= f) :=
  balanced_bind (balanced_execute _) hf

theorem balanced_readClock_bind {A : Type} {f : Time → Section A} (hf : ∀ t, Balanced (f t)) :
    Balanced (readClock >>= f) :=
  balanced_bind (balanced_free _) hf

theorem balanced_modify_bind {A : Type} {g : Db → Db} {f : Unit → Section A}
    (hf : ∀ u, Balanced (f u)) : Balanced (modifyRows g >>= f) :=
  balanced_bind (balanced_bind (balanced_execute _) balanced_ofExcept) hf

theorem balanced_commit : Balanced commit := balanced_execute _

theorem balanced_commit_bind {A : Type} {f : Unit → Section A} (hf : ∀ u, Balanced (f u)) :
    Balanced (commit >>= f) :=
  balanced_bind balanced_commit hf

theorem balanced_emitSection (e : Emission) : Balanced (emitSection e) :=
  balanced_select_bind fun _ => balanced_readClock_bind fun _ =>
    balanced_modify_bind fun _ => balanced_commit

theorem balanced_enrollSection (bind : Bool) (e : Enrollment) :
    Balanced (enrollSection bind e) := by
  refine balanced_select_bind fun _ => balanced_bind (balanced_ofExcept _) fun _ =>
    balanced_modify_bind fun _ => balanced_commit_bind fun _ => balanced_select_bind fun _ => ?_
  split
  · exact balanced_ret _
  · exact balanced_raise _

theorem balanced_applyDerivedTierSection (workerId tier : String) :
    Balanced (applyDerivedTierSection workerId tier) := by
  refine balanced_select_bind fun _ => ?_
  split
  · exact balanced_ret _
  · split
    · exact balanced_ret _
    · exact balanced_modify_bind fun _ => balanced_commit_bind fun _ => balanced_ret _

theorem balanced_assignSection (workerId : String) (cap : Capability) (free : Option PyFloat) :
    Balanced (assignSection workerId cap free) := by
  refine balanced_select_bind fun _ => ?_
  split
  · exact balanced_ret _
  · have hpick : Balanced (pickSection cap free) :=
      balanced_select_bind fun _ => balanced_select_bind fun _ => balanced_ret _
    refine balanced_bind hpick fun picked => ?_
    cases picked with
    | none => exact balanced_ret _
    | some job =>
        have hdefer : Balanced (deferSection workerId job.createdAt) := by
          refine balanced_readClock_bind fun _ => ?_
          split
          · exact balanced_ret _
          · refine balanced_select_bind fun _ => ?_
            split
            · exact balanced_ret _
            · exact balanced_select_bind fun _ => balanced_ret _
        refine balanced_bind hdefer fun deferred => ?_
        split
        · exact balanced_ret _
        · exact balanced_readClock_bind fun _ => balanced_readClock_bind fun _ =>
            balanced_modify_bind fun _ => balanced_modify_bind fun _ =>
              balanced_commit_bind fun _ => balanced_ret _

theorem balanced_heartbeatSection (m : Bool) (req : HeartbeatRequest) (now : Time) :
    Balanced (heartbeatSection m req now) := by
  refine balanced_modify_bind fun _ => ?_
  split
  · split
    · exact balanced_modify_bind fun _ => balanced_readClock_bind fun _ =>
        balanced_modify_bind fun _ => balanced_commit
    · exact balanced_commit
  · exact balanced_commit

theorem balanced_commitThen (e : Emission) (response : ResultResponse) :
    Balanced (commitThen e response) :=
  balanced_commit_bind fun _ =>
    balanced_bind (balanced_locked (balanced_emitSection e)) fun _ => balanced_ret _

theorem balanced_requeueThen (workerId jobId : String) (now : Time) (reason : String) :
    Balanced (requeueThen workerId jobId now reason) :=
  balanced_modify_bind fun _ => balanced_commit_bind fun _ => balanced_ret _

theorem balanced_settleSection (jobId : String) (req : ResultRequest) (now : Time) :
    Balanced (settleSection jobId req now) := by
  refine balanced_select_bind fun _ => ?_
  split
  · exact balanced_raise _
  · dsimp only
    split
    · exact balanced_ret _
    · split
      · exact balanced_requeueThen _ _ _ _
      · split
        · exact balanced_ret _
        · split
          · split
            · exact balanced_requeueThen _ _ _ _
            · split
              · exact balanced_raise _
              · exact balanced_modify_bind fun _ => balanced_modify_bind fun _ =>
                  balanced_commitThen _ _
              · exact balanced_modify_bind fun _ => balanced_modify_bind fun _ =>
                  balanced_commitThen _ _
          · exact balanced_modify_bind fun _ => balanced_commitThen _ _
          · exact balanced_modify_bind fun _ => balanced_commitThen _ _

theorem balanced_modifySection (f : Db → Db) : Balanced (modifySection f) :=
  balanced_modify_bind fun _ => balanced_commit

theorem balanced_fetch {A : Type} (rows : Db → A) : Balanced (fetch rows) :=
  fun _ he => ⟨he, fun _ => rfl⟩

theorem sectionOf_balanced (c : Cmd) (p : Section (Ret c)) (h : sectionOf c = some p) :
    Balanced p := by
  cases c with
  | now => cases h
  | uuid4 => cases h
  | workerRow workerId => cases h; exact balanced_fetch _
  | activeWorkers => cases h; exact balanced_fetch _
  | query => cases h; exact balanced_fetch _
  | emit e => cases h; exact balanced_emitSection e
  | enroll bind e => cases h; exact balanced_attempt (balanced_enrollSection bind e)
  | applyDerivedTier workerId tier => cases h; exact balanced_applyDerivedTierSection _ _
  | insertJob s =>
      cases h
      exact balanced_attempt (balanced_bind (balanced_bind (balanced_execute _) balanced_ofExcept)
        fun _ => balanced_commit)
  | reapExpired =>
      cases h
      exact balanced_readClock_bind fun _ => balanced_readClock_bind fun _ =>
        balanced_modifySection _
  | assignNext workerId cap free => cases h; exact balanced_assignSection _ _ _
  | recordHeartbeat m req now => cases h; exact balanced_heartbeatSection _ _ _
  | approveWorker workerId => cases h; exact balanced_modifySection _
  | assignTier workerId tier => cases h; exact balanced_modifySection _
  | removeWorker workerId now =>
      cases h
      exact balanced_modify_bind fun _ => balanced_modify_bind fun _ => balanced_modifySection _
  | settle jobId req now => cases h; exact balanced_attempt (balanced_settleSection _ _ _)
  | storeProfile workerId compact now => cases h; exact balanced_modifySection _

/-! ## Sections and atomic commands -/

/-- The section ends as the atomic command would on the same database at the same time. -/
def EndsAs (c : Cmd) (w : World) (x : Except Failure (Ret c)) (mem disk : Db) : Prop :=
  mem = disk ∧ ∃ r, x = .ok r ∧ ∀ input, exec c input w = (⟨w.clock, mem⟩, r)

/-- Every statement is allowed. -/
def anyStep (_ _ : Store) : Prop := True

theorem anyStep_changes : AllowsChanges anyStep := fun _ _ _ _ => trivial

theorem anyStep_commits (disk mem : Db) : Commits anyStep disk mem := fun _ => trivial

theorem spec_fetch {A : Type} {cfg : Config} {T : Time → Prop} {rows : Db → A} {db : Db}
    {guar : Store → Store → Prop} (hguar : AllowsChanges guar)
    {Φ : Except Failure A → Db → Db → Prop} (h : Φ (.ok (rows db)) db db) :
    Spec cfg T guar (fetch rows) db db Φ := by
  intro clock hclock s' hs
  have hT := hs.2.2 hclock
  obtain ⟨clock', mem, disk⟩ := s'
  obtain ⟨hmem, hdisk, -⟩ := hs
  obtain rfl : mem = db := hmem
  obtain rfl : disk = mem := hdisk
  refine ⟨hguar clock' _ _ _, fun s'' hs'' => ⟨hs''.2.2 hT, ?_⟩⟩
  rw [hs''.1, hs''.2.1]
  exact h

theorem endsAs_silent {c : Cmd} {w : World} {db : Db} {r : Ret c}
    (h : ∀ input, runCommand input w c = { db := db, answer := r }) : EndsAs c w (.ok r) db db :=
  ⟨rfl, r, rfl, fun input => by rw [exec, h input]; rfl⟩

theorem silent_eq {A : Type} {out : Outcome A} (h : out.emits = []) {r : A}
    (hr : out.answer = r) : out = { db := out.db, answer := r } := by
  cases out
  cases h
  cases hr
  rfl

theorem sectionOf_spec (cfg : Config) (c : Cmd) (p : Section (Ret c)) (h : sectionOf c = some p)
    (clock : Time) (db : Db) :
    Spec cfg (fun t => t = clock) anyStep p db db (EndsAs c ⟨clock, db⟩) := by
  have hg := anyStep_changes
  cases c with
  | now => cases h
  | uuid4 => cases h
  | workerRow workerId => cases h; exact spec_fetch hg (endsAs_silent fun _ => rfl)
  | activeWorkers => cases h; exact spec_fetch hg (endsAs_silent fun _ => rfl)
  | query => cases h; exact spec_fetch hg (endsAs_silent fun _ => rfl)
  | emit e =>
      cases h
      refine spec_emit hg (fun t _ => anyStep_commits _ _) fun t ht => ?_
      subst ht
      exact ⟨rfl, _, rfl, fun _ => rfl⟩
  | enroll bind e =>
      cases h
      obtain ⟨hsilent, hsame⟩ := enroll_silent bind e db
      refine spec_enroll hg (anyStep_commits _ _) (fun x hx => ?_) fun x hx => ?_
      · exact endsAs_silent fun _ => (silent_eq hsilent hx).trans (by rw [hsame x hx])
      · exact endsAs_silent fun _ => silent_eq hsilent hx
  | applyDerivedTier workerId tier =>
      cases h
      have hsilent := applyDerivedTier_silent workerId tier db
      refine spec_applyDerivedTier hg (anyStep_commits _ _) (fun hx hdb => ?_) fun hx => ?_
      · exact endsAs_silent fun _ => (silent_eq hsilent hx).trans (by rw [hdb])
      · exact endsAs_silent fun _ => silent_eq hsilent hx
  | insertJob s =>
      cases h
      obtain ⟨hsilent, hsame⟩ := insertJob_silent s db
      refine spec_insertJob hg (anyStep_commits _ _) (fun x hx => ?_) fun hx => ?_
      · exact endsAs_silent fun _ => (silent_eq hsilent hx).trans (by rw [hsame x hx])
      · exact endsAs_silent fun _ => silent_eq hsilent hx
  | reapExpired =>
      cases h
      refine spec_reap hg (fun _ _ _ _ => anyStep_commits _ _) fun t ht u hu => ?_
      subst ht hu
      exact endsAs_silent fun _ => rfl
  | assignNext workerId cap free =>
      cases h
      refine spec_assign hg (fun hbusy => ?_) (fun hbusy hpick => ?_)
        (fun job t ht hbusy hpick hdefer => ?_)
        fun job t d u ht hd hu hbusy hpick hdefer => ⟨anyStep_commits _ _, ?_⟩
      all_goals
        refine endsAs_silent fun _ => ?_
        change assignNext workerId cap free clock db = _
      · simp only [assignNext, hbusy, if_true]
      · simp only [assignNext, hbusy, hpick, Bool.false_eq_true, if_false]
      · subst ht
        simp only [assignNext, hbusy, hpick, hdefer, Bool.false_eq_true, if_false, if_true]
      · subst ht hd hu
        simp only [assignNext, hbusy, hpick, hdefer, Bool.false_eq_true, if_false]
        rfl
  | recordHeartbeat m req now =>
      cases h
      refine spec_heartbeat hg clock rfl fun t ht => ⟨anyStep_commits _ _, ?_⟩
      subst ht
      exact endsAs_silent fun _ => rfl
  | approveWorker workerId =>
      cases h
      exact spec_modifySection hg (anyStep_commits _ _) (endsAs_silent fun _ => rfl)
  | assignTier workerId tier =>
      cases h
      exact spec_modifySection hg (anyStep_commits _ _) (endsAs_silent fun _ => rfl)
  | removeWorker workerId now =>
      cases h
      exact spec_remove hg (anyStep_commits _ _) (endsAs_silent fun _ => rfl)
  | settle jobId req now =>
      cases h
      refine spec_settle hg ⟨anyStep_commits _ _, fun _ _ _ _ => anyStep_commits _ _⟩
        (fun t ht => ?_) clock rfl
      subst ht
      exact ⟨rfl, _, rfl, fun _ => rfl⟩
  | storeProfile workerId compact now =>
      cases h
      exact spec_modifySection hg (anyStep_commits _ _) (endsAs_silent fun _ => rfl)

/-! ## Refinement -/

def Store.world (s : Store) : World := ⟨s.clock, s.mem⟩

/-- What is committed is what the connection sees. -/
def Store.Clean (s : Store) : Prop := s.mem = s.disk

theorem runSql_clock (q : Sql) (s : Store) : (runSql q s).1.clock = s.clock := by
  cases q with
  | select => rfl
  | commit => rfl
  | modify f =>
      simp only [runSql]
      cases f s.mem <;> rfl

theorem free_exec {c : Cmd} (hc : sectionOf c = none) (input : Nat) {s : Store} {w : World}
    (hw : s.clock = w.clock) : exec c input w = (w, freeAnswer c input s) := by
  cases c with
  | now => simp only [exec, runCommand, freeAnswer, hw]; rfl
  | uuid4 => rfl
  | _ => cases hc

theorem section_refines (cfg : Config) {c : Cmd} {p : Section (Ret c)} (hp : sectionOf c = some p)
    {s : Store} (hs : s.Clean) :
    Wp (process cfg) Eq (fun _ _ => True) p s fun x s' =>
      ∃ r, x = .ok r ∧ s'.Clean ∧ ∀ input, exec c input s.world = (s'.world, r) := by
  obtain ⟨clock, mem, disk⟩ := s
  obtain rfl : mem = disk := hs
  have hspec := sectionOf_spec cfg c p hp clock mem clock rfl
  refine Locking.wp_weaken ?_ (fun _ _ h => h) (Locking.wp_mono hspec ?_)
  · rintro a _ rfl
    exact drift_refl _ a
  · rintro x s' ⟨hclock, hclean, r, rfl, hexec⟩
    refine ⟨r, rfl, hclean, fun input => ?_⟩
    obtain ⟨clock', mem', disk'⟩ := s'
    obtain rfl : clock' = clock := hclock
    exact hexec input

def processImplements (cfg : Config) : Locking.Implements (process cfg) (machine cfg) where
  abs := Store.world
  inv := Store.Clean
  near s w := s.clock = w.clock
  near_abs _ := rfl
  near_stmt q s _ h := (runSql_clock q s).trans h
  start _ := rfl
  disturb _ _ h := ⟨h, rfl⟩
  free _ hc input _ _ hw := free_exec hc input hw
  body _ _ hp _ hs := section_refines cfg hp hs

/-- As long as the process does not crash and the clock stands still while a section is
in progress, it does what the machine of atomic commands can do: whenever the lock is
free everything is committed and the database is that of an atomic run, and requests
that were answered are answered the same in that run. -/
theorem process_refines_machine (cfg : Config) (clock : Time) (db : Db) (ms : List ProcessMove)
    (hcrash : .crash ∉ ms)
    (hcalm : ∀ ns t, ns ++ [.disturb t] <+: ms →
      (processRun cfg clock db ns).lock.isSome = true →
      (processRun cfg clock db ns).state.clock = t) :
    ∃ ns : List Move,
      ((processRun cfg clock db ms).lock = none →
        (processRun cfg clock db ms).state.disk = (processRun cfg clock db ms).state.mem ∧
        (Interleaving.runs (machine cfg) ⟨⟨clock, db⟩, []⟩ ns).state =
          ⟨(processRun cfg clock db ms).state.clock, (processRun cfg clock db ms).state.mem⟩) ∧
      ∀ (i : Nat) (call : Call) (reply : Reply),
        (processRun cfg clock db ms).threads[i]? = some ⟨call, .ret reply⟩ →
        ∃ past, (Interleaving.runs (machine cfg) ⟨⟨clock, db⟩, []⟩ ns).threads[i]? =
          some ⟨call, past, .ret reply⟩ := by
  have h₀ : (processImplements cfg).inv ⟨clock, db, db⟩ := rfl
  obtain ⟨ns, hfree, hret⟩ := (processImplements cfg).refines sectionOf_balanced h₀ hcrash
    fun ns t hns hl => by
      have hclock := hcalm ns t hns hl
      change { (processRun cfg clock db ns).state with clock := t } =
        (processRun cfg clock db ns).state
      rw [← hclock]
  refine ⟨ns, fun hl => ?_, hret⟩
  obtain ⟨hclean, hstate⟩ := hfree hl
  exact ⟨hclean.symm, hstate⟩

/-- The clock is set only while the lock is free. -/
def calm (cfg : Config) (clock : Time) (db : Db) (ms : List ProcessMove) : Bool :=
  (List.range ms.length).all fun k =>
    match ms[k]? with
    | some (.disturb _) => (processRun cfg clock db (ms.take k)).lock.isNone
    | _ => true

theorem calm_disturb {cfg : Config} {clock : Time} {db : Db} {ms : List ProcessMove}
    (h : calm cfg clock db ms = true) {ns : List ProcessMove} {t : Time}
    (hns : ns ++ [.disturb t] <+: ms) : (processRun cfg clock db ns).lock = none := by
  obtain ⟨rest, rfl⟩ := hns
  have hk := List.all_eq_true.mp h ns.length (List.mem_range.mpr (by simp))
  simpa [List.append_assoc] using hk

def ProcessMove.isCrash : ProcessMove → Bool
  | .crash => true
  | _ => false

/-- A device registers, with the lock taken again within its sections; the clock is set
between two of them, and the database is read. -/
def servedProcess : List ProcessMove :=
  .spawn (.register { workerId := "w" } none) :: List.replicate 16 (.run 0 16) ++
    [.disturb 60, .spawn (.operatorRead 1 none)] ++ List.replicate 12 (.run 0 16) ++
    List.replicate 3 (.run 1 0)

set_option maxRecDepth 20000 in
theorem process_refines_machine_read : ∃ ns response db past past',
    (Interleaving.runs (machine {}) ⟨⟨0, .empty⟩, []⟩ ns).threads[0]? =
      some ⟨.register { workerId := "w" } none, past, .ret (.registered response)⟩ ∧
    (Interleaving.runs (machine {}) ⟨⟨0, .empty⟩, []⟩ ns).threads[1]? =
      some ⟨.operatorRead 1 none, past', .ret (.read [db])⟩ ∧
    (Interleaving.runs (machine {}) ⟨⟨0, .empty⟩, []⟩ ns).state = ⟨60, db⟩ ∧
    (db.workers.find? "w").isSome = true := by
  have hcalm : calm {} 0 .empty servedProcess = true := by decide +kernel
  have hcrash : servedProcess.any ProcessMove.isCrash = false := by decide +kernel
  obtain ⟨ns, hfree, hret⟩ := process_refines_machine {} 0 .empty servedProcess
    (fun hc => by rw [List.any_eq_true.mpr ⟨.crash, hc, rfl⟩] at hcrash; cases hcrash)
    (fun ns t hns hlock => by rw [calm_disturb hcalm hns] at hlock; cases hlock)
  obtain ⟨past, hregister⟩ := hret 0 (.register { workerId := "w" } none) _ rfl
  obtain ⟨past', hread⟩ := hret 1 (.operatorRead 1 none) _ rfl
  exact ⟨ns, _, _, past, past', hregister, hread, (hfree rfl).2, by decide +kernel⟩

/-- A statement is performed by the thread that holds the lock only, and the requests in
progress can always be served to their ends. -/
theorem process_no_deadlock (cfg : Config) (clock : Time) (db : Db) (ms : List ProcessMove) :
    (∀ (i : Nat) (call : Call) (q : Sql) (k : SqlAnswer q → Section Reply),
      (processRun cfg clock db ms).threads[i]? = some ⟨call, .call (.stmt q) k⟩ →
      ∃ l, (processRun cfg clock db ms).lock = some l ∧ l.owner = i) ∧
    ∃ ns : List ProcessMove, (∀ m ∈ ns, ∃ i, m = .run i 0) ∧
      (processRun cfg clock db (ms ++ ns)).lock = none ∧
      ∀ t ∈ (processRun cfg clock db (ms ++ ns)).threads, Locking.Finished t.code := by
  refine ⟨fun i call q k ht => Locking.exclusive sectionOf_balanced ht, ?_⟩
  obtain ⟨ns, hns, hl, hf⟩ := Locking.drains (M := process cfg) sectionOf_balanced 0
    ⟨clock, db, db⟩ ms
  exact ⟨ns, hns, hl, hf⟩

end OneCompute
