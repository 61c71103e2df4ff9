import OneCompute.Lib.Sequential
import OneCompute.Orchestrator.JobRows
import OneCompute.Orchestrator.Routing

/-!
Holding fresh work back for lighter workers: when there is one that would take it.
-/

namespace OneCompute
open Interleaving (Prog serveAlone)
open Interleaving.Prog (perform)

def pollReply (cfg : Config) (workerId : String) : Poll → Handler Reply
  | .granted job => do
      emitEvent "assigned" (some workerId) (some job.jobId) (some job.manifestJson.kind.text)
      return .assignment
        { signedManifest := signManifest cfg job.manifestJson, input := job.inputJson }
  | _ => return .noContent

/-- A poll once its token has been checked. -/
def checkedPoll (cfg : Config) (workerId : String) (worker : WorkerRow) : Handler Reply :=
  if worker.blacklisted then return .noContent
  else if !worker.approved then return .noContent
  else do
    perform Cmd.reapExpired
    match worker.capabilityJson.reload? with
    | none => .raise (.uncaught "ValidationError")
    | some cap =>
        if cap.measurementOnly then return .noContent
        else do
          let poll ← perform (Cmd.assignNext workerId cap worker.freeRamGb)
          pollReply cfg workerId poll

theorem jobsNext_eq (cfg : Config) (workerId : String) (authorization certificate : Option String) :
    jobsNext cfg workerId authorization certificate =
      requireWorkerToken cfg workerId authorization certificate >>= checkedPoll cfg workerId := by
  unfold jobsNext checkedPoll
  refine congrArg (requireWorkerToken cfg workerId authorization certificate >>= ·)
    (funext fun worker => ?_)
  by_cases hblack : worker.blacklisted = true
  · rw [if_pos hblack, if_pos hblack]
  by_cases happroved : (!worker.approved) = true
  · rw [if_neg hblack, if_neg hblack, if_pos happroved, if_pos happroved]
  rw [if_neg hblack, if_neg hblack, if_neg happroved, if_neg happroved]
  refine congrArg (perform Cmd.reapExpired >>= ·) (funext fun _ => ?_)
  cases worker.capabilityJson.reload? with
  | none => rfl
  | some cap =>
      dsimp only
      by_cases hmeasure : cap.measurementOnly = true
      · rw [if_pos hmeasure, if_pos hmeasure]
      · rw [if_neg hmeasure, if_neg hmeasure]
        refine congrArg (perform (Cmd.assignNext workerId cap worker.freeRamGb) >>= ·)
          (funext fun poll => ?_)
        cases poll <;> rfl

/-- Nothing else happens while the request is served. -/
def still : Interleaving.Surroundings Nat Time := fun _ => ([], 0)

/-- Polling at this moment, the worker of this row is granted a job. -/
def Grants (cfg : Config) (w : World) (row : WorkerRow) : Prop :=
  ∃ w' assignment, serveAlone (machine cfg) (checkedPoll cfg row.workerId row) still w =
    (w', .ok (.assignment assignment))

/-- `other` is lighter than `row` by the margin. -/
def lighter (row other : WorkerRow) : Bool :=
  PyFloat.le (.fin 15) (PyFloat.sub row.load other.load)

/-- The worker may take part in jobs, has the capability and the tier for a queued job,
and nobody who is live and free is clearly lighter, unless the job is past the grace. -/
def CanTake (db : Db) (now : Time) (row : WorkerRow) : Prop :=
  ∃ cap job, row.capabilityJson.reload? = some cap ∧ cap.measurementOnly = false ∧
    pickJobFor db cap row.freeRamGb = some job ∧
    (pastGrace now job.createdAt = true ∨
      ∀ other ∈ db.workers, livePeer db row.workerId now other = true → lighter row other = false)

/-- Some other live and free worker can take a job, once expired leases are reaped. -/
def Covered (w : World) (v : String) : Prop :=
  ∃ row ∈ w.db.workers, livePeer w.db v w.clock row = true ∧
    CanTake (reapExpired w.clock w.db) w.clock row

/-- The locked section of a poll holds back a job. -/
def Defers (w : World) (v : String) (cap : Capability) (free : Option PyFloat) : Prop :=
  busy w.db v = false ∧ ∃ job, pickJobFor w.db cap free = some job ∧
    deferToLessLoaded w.db v job.createdAt w.clock = true

theorem deferred_iff {v : String} {cap : Capability} {free : Option PyFloat} {w : World} :
    (assignNext v cap free w.clock w.db).answer = .deferred ↔ Defers w v cap free := by
  have hc := assignNext_cases v cap free w.clock w.db
  generalize assignNext v cap free w.clock w.db = out at hc ⊢
  unfold Defers
  cases hc with
  | busy hbusy => simp [hbusy]
  | noJob hfree hpick => simp [hpick]
  | deferred job hfree hpick hdefer => simp [hfree, hpick, hdefer]
  | granted job hfree hpick hdefer => simp [hpick, hdefer]

theorem deferToLessLoaded_iff {db : Db} {row : WorkerRow} (hrow : db.workers.find? row.workerId = some row)
    {createdAt now : Time} :
    deferToLessLoaded db row.workerId createdAt now = false ↔
      pastGrace now createdAt = true ∨
        ∀ other ∈ db.workers, livePeer db row.workerId now other = true →
          lighter row other = false := by
  unfold deferToLessLoaded
  split
  next hpast => simp [hpast]
  next hfresh =>
    rw [hrow, List.any_eq_false]
    simp only [hfresh, Bool.false_eq_true, false_or, List.mem_filter, and_imp]
    constructor
    · intro h other hother hlive
      exact Bool.not_eq_true _ ▸ h other (Table.mem_iff.mp hother) hlive
    · intro h other hother hlive
      rw [Bool.not_eq_true]
      exact h other (Table.mem_iff.mpr hother) hlive

/-- Reaping only gives leases up. -/
theorem busy_reapExpired {db : Db} {v : String} (clock : Time) (h : busy db v = false) :
    busy (reapExpired clock db) v = false := by
  unfold busy
  rw [List.any_eq_false]
  intro j hj hleased
  obtain ⟨i, hi, hij⟩ := mem_requeue.mp (Table.mem_iff.mpr hj)
  have hcases : j = i.requeued clock ∨ j = i := by
    rw [← hij]
    exact ite_eq_or_eq _ _ _
  rcases hcases with rfl | rfl
  · cases hleased
  · rw [not_busy h j hi] at hleased
    cases hleased

theorem livePeer_spec {db : Db} {v : String} {now : Time} {row : WorkerRow}
    (h : livePeer db v now row = true) : row.workerId ≠ v ∧ row.approved = true ∧
      row.blacklisted = false ∧ busy db row.workerId = false := by
  unfold livePeer at h
  simp only [Bool.and_eq_true, decide_eq_true_eq, Bool.not_eq_true'] at h
  exact ⟨h.1.1.1.1, h.1.1.1.2, h.1.1.2, h.2⟩

/-- What a poll of an approved worker comes to when nothing else happens. -/
theorem serve_checkedPoll (cfg : Config) (w : World) {row : WorkerRow} {cap : Capability}
    (hblack : row.blacklisted = false) (happroved : row.approved = true)
    (hcap : row.capabilityJson.reload? = some cap) :
    (∃ w' assignment, serveAlone (machine cfg) (checkedPoll cfg row.workerId row) still w =
        (w', .ok (.assignment assignment))) ↔
      cap.measurementOnly = false ∧ (assignNext row.workerId cap row.freeRamGb w.clock
        (reapExpired w.clock w.db)).answer.isGrant = true := by
  unfold checkedPoll
  rw [hblack, happroved, hcap]
  cases hmeasure : cap.measurementOnly with
  | true =>
      constructor
      · rintro ⟨w', assignment, hserve⟩
        simp only [hmeasure] at hserve
        cases (Prod.mk.inj hserve).2
      · rintro ⟨hnot, -⟩
        cases hnot
  | false =>
      simp only [hmeasure, Bool.false_eq_true, if_false, Bool.not_true]
      rw [true_and]
      change (∃ w' assignment, serveAlone (machine cfg)
        (pollReply cfg row.workerId (assignNext row.workerId cap row.freeRamGb w.clock
          (reapExpired w.clock w.db)).answer) _ _ = (w', .ok (.assignment assignment))) ↔ _
      cases (assignNext row.workerId cap row.freeRamGb w.clock
        (reapExpired w.clock w.db)).answer with
      | granted job =>
          constructor
          · intro _
            rfl
          · intro _
            exact ⟨_, _, rfl⟩
      | busy | noJob | deferred =>
          constructor
          · rintro ⟨w', assignment, hserve⟩
            cases (Prod.mk.inj hserve).2
          · intro hgrant
            cases hgrant

/-- A live and free worker would be granted a job exactly when it can take one. -/
theorem grants_iff (cfg : Config) {w : World} {v : String} {row : WorkerRow}
    (hrow : row ∈ w.db.workers) (hlive : livePeer w.db v w.clock row = true) :
    Grants cfg w row ↔ CanTake (reapExpired w.clock w.db) w.clock row := by
  obtain ⟨-, happroved, hblack, hfree⟩ := livePeer_spec hlive
  have hfree' := busy_reapExpired w.clock hfree
  have hfind : (reapExpired w.clock w.db).workers.find? row.workerId = some row :=
    Table.find?_of_mem hrow
  unfold Grants CanTake
  cases hcap : row.capabilityJson.reload? with
  | none =>
      unfold checkedPoll
      rw [hblack, happroved, hcap]
      constructor
      · rintro ⟨w', assignment, hserve⟩
        cases (Prod.mk.inj hserve).2
      · rintro ⟨cap, job, hsome, -⟩
        cases hsome
  | some cap =>
      have hgranted :=
        @granted_iff row.workerId cap row.freeRamGb ⟨w.clock, reapExpired w.clock w.db⟩
      rw [serve_checkedPoll cfg w hblack happroved hcap, hgranted]
      unfold FindsJob
      constructor
      · rintro ⟨hmeasure, -, job, hpick, hdefer⟩
        exact ⟨cap, job, rfl, hmeasure, hpick, (deferToLessLoaded_iff hfind).mp hdefer⟩
      · rintro ⟨cap', job, hsome, hmeasure, hpick, htake⟩
        cases hsome
        exact ⟨hmeasure, hfree', job, hpick, (deferToLessLoaded_iff hfind).mpr htake⟩

/-- A poll that holds back a job leaves it to another live and free worker that would be
granted one at this moment, and no job past its grace is ever held back. -/
structure LeftToOther (cfg : Config) (p : Performed) (v : String) (cap : Capability)
    (free : Option PyFloat) : Prop where
  granted : (assignNext v cap free p.pre.clock p.pre.db).answer = .deferred →
    ∃ row ∈ p.pre.db.workers, livePeer p.pre.db v p.pre.clock row = true ∧ Grants cfg p.pre row
  fresh : ∀ job, pickJobFor p.pre.db cap free = some job →
    pastGrace p.pre.clock job.createdAt = true →
    (assignNext v cap free p.pre.clock p.pre.db).answer ≠ .deferred

/-- In every run the polls leave what they hold back to a worker that would get it,
exactly if each of them that holds back a job finds a live and free worker that can take
one. -/
theorem run_deferral_iff (cfg : Config) (clock : Time) (ms : List Move) :
    (∀ p ∈ runTrace cfg clock ms, ∀ v cap free, p.cmd = .assignNext v cap free →
        LeftToOther cfg p v cap free) ↔
      ∀ p ∈ runTrace cfg clock ms, ∀ v cap free, p.cmd = .assignNext v cap free →
        Defers p.pre v cap free → Covered p.pre v := by
  have hpoll : ∀ (p : Performed) v cap free, LeftToOther cfg p v cap free ↔
      (Defers p.pre v cap free → Covered p.pre v) := by
    intro p v cap free
    constructor
    · intro h hdefers
      obtain ⟨row, hrow, hlive, hgrants⟩ := h.granted (deferred_iff.mpr hdefers)
      exact ⟨row, hrow, hlive, (grants_iff cfg hrow hlive).mp hgrants⟩
    · intro h
      constructor
      · intro hdeferred
        obtain ⟨row, hrow, hlive, htake⟩ := h (deferred_iff.mp hdeferred)
        exact ⟨row, hrow, hlive, (grants_iff cfg hrow hlive).mpr htake⟩
      · intro job hpick hpast hdeferred
        obtain ⟨-, job', hpick', hdefer⟩ := deferred_iff.mp hdeferred
        rw [hpick] at hpick'
        cases hpick'
        unfold deferToLessLoaded at hdefer
        rw [if_pos hpast] at hdefer
        cases hdefer
  constructor
  · intro h p hp v cap free hcmd
    exact (hpoll p v cap free).mp (h p hp v cap free hcmd)
  · intro h p hp v cap free hcmd
    exact (hpoll p v cap free).mpr (h p hp v cap free hcmd)

/-! ## A device that only measures -/

/-- A busy worker polls for a fresh job while an idle device that only measures is live. -/
def heldBack : List Move :=
  let bearer (thread : Nat) := some ("Bearer " ++ PyText.uuidHex (16 * thread))
  serve 0 4 (.register { workerId := "w" } none) ++
  serve 1 4 (.register { workerId := "v", measurementOnly := true } none) ++
  serve 2 3 (.heartbeat { workerId := "w", cpuPct := .fin 90 } (bearer 0) none) ++
  serve 3 3 (.heartbeat { workerId := "v" } (bearer 1) none) ++
  serve 4 5 (.submit { kind := .render, dataClassification := .public } none) ++
  [.spawn (.jobsNext "w" (bearer 0) none), .run 5 0, .run 5 0]

/-- The section holds back a job although every live and free other device only measures. -/
def heldForNobody (p : Performed) : Bool :=
  match p.cmd with
  | .assignNext v cap free =>
      (match (assignNext v cap free p.pre.clock p.pre.db).answer with
        | .deferred => true
        | _ => false) &&
      p.pre.db.workers.rows.all fun row => !livePeer p.pre.db v p.pre.clock row ||
        row.capabilityJson.reload?.elim true (·.measurementOnly)
  | _ => false

theorem heldForNobody_spec (cfg : Config) {p : Performed} (h : heldForNobody p = true) :
    ∃ v cap free, p.cmd = .assignNext v cap free ∧ ¬ LeftToOther cfg p v cap free := by
  unfold heldForNobody at h
  split at h
  next v cap free hcmd =>
    obtain ⟨hanswer, hall⟩ := Bool.and_eq_true_iff.mp h
    refine ⟨v, cap, free, hcmd, ?_⟩
    intro hleft
    have hdeferred : (assignNext v cap free p.pre.clock p.pre.db).answer = .deferred := by
      split at hanswer
      next heq => exact heq
      next => cases hanswer
    obtain ⟨row, hrow, hlive, hgrants⟩ := hleft.granted hdeferred
    obtain ⟨cap', job, hcap, hmeasure, -⟩ := (grants_iff cfg hrow hlive).mp hgrants
    have honly := List.all_eq_true.mp hall row (Table.mem_iff.mpr hrow)
    rw [hlive, hcap] at honly
    simp only [Bool.not_true, Bool.false_or, Option.elim_some, hmeasure, Bool.false_eq_true] at honly
  next => cases h

set_option maxRecDepth 20000 in
theorem heldBack_stranded : ∃ p ∈ runTrace {} 0 (heldBack ++ [.run 5 0]), ∃ v cap free,
    p.cmd = .assignNext v cap free ∧ ¬ LeftToOther {} p v cap free := by
  have hheld : (performedAt {} 0 heldBack (.run 5 0)).elim false heldForNobody = true := by
    decide +kernel
  cases hp : performedAt {} 0 heldBack (.run 5 0) with
  | none =>
      rw [hp] at hheld
      cases hheld
  | some p =>
      rw [hp] at hheld
      refine ⟨p, ?_, heldForNobody_spec {} hheld⟩
      rw [runTrace_snoc, hp]
      simp

end OneCompute
