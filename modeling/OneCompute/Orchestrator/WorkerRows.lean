import OneCompute.Orchestrator.Calls

/-!
The life of one worker's row. Seen from a single identifier the worker table is
an automaton: each command maps the row that was there, if any, to the row that
is there afterwards, and the rows of other workers have no say in it.
-/

namespace OneCompute

def Poll.isGrant : Poll → Bool
  | .granted _ => true
  | _ => false

/-- The answer to a result that got its poster blacklisted. -/
def blacklists : Except Failure ResultResponse → Bool
  | .ok response => decide (response.reason = some "cheater_blacklisted")
  | .error _ => false

def WorkerRow.granted (clock : Time) (row : WorkerRow) : WorkerRow :=
  { row with idle := false, lastHeartbeat := some clock }

def WorkerRow.approve (row : WorkerRow) : WorkerRow :=
  { row with approved := true, deviceCode := none }

def WorkerRow.pin (tier : String) (row : WorkerRow) : WorkerRow :=
  { row with trustTier := tier, tierPinned := true }

def WorkerRow.blacklist (row : WorkerRow) : WorkerRow := { row with blacklisted := true }

/-- The row of the worker `v` after a command, given the one before. -/
def rowAfter (w : World) (v : String) (row : Option WorkerRow) : Cmd → Option WorkerRow
  | .enroll bind e =>
      if e.capability.workerId = v ∧ (checkBinding bind row e.certFingerprint).isOk = true then
        some (row.elim (.enrolled e) (WorkerRow.reenrolled e))
      else row
  | .applyDerivedTier u tier => if u = v then row.map (WorkerRow.derive tier) else row
  | .assignNext u cap free =>
      if u = v ∧ (assignNext u cap free w.clock w.db).answer.isGrant = true then
        row.map (WorkerRow.granted w.clock)
      else row
  | .recordHeartbeat m req now =>
      if req.workerId = v then row.map (WorkerRow.beat m req now) else row
  | .approveWorker u => if u = v then row.map WorkerRow.approve else row
  | .assignTier u tier => if u = v then row.map (WorkerRow.pin tier) else row
  | .removeWorker u _ => if u = v then none else row
  | .settle jobId req now =>
      if req.workerId = v ∧ blacklists (settle jobId req now w.db).answer = true then
        row.map WorkerRow.blacklist
      else row
  | _ => row

theorem find?_updateWorker (db : Db) (u v : String) (f : WorkerRow → WorkerRow)
    (hf : ∀ r, (f r).workerId = r.workerId) :
    (db.updateWorker u f hf).workers.find? v =
      if u = v then (db.workers.find? v).map f else db.workers.find? v := by
  change (db.workers.update _ f hf).find? v = _
  rw [Table.find?_update]
  cases hrow : db.workers.find? v with
  | none => simp
  | some row =>
      have hid : row.workerId = v := (Table.find?_eq_some.mp hrow).2
      by_cases huv : u = v
      · simp [huv, hid]
      · have hvu : v ≠ u := Ne.symm huv
        simp [huv, hid, hvu]

theorem find?_enroll (bind : Bool) (e : Enrollment) (db : Db) (v : String) :
    (enroll bind e db).db.workers.find? v =
      if e.capability.workerId = v ∧
          (checkBinding bind (db.workers.find? v) e.certFingerprint).isOk = true then
        some ((db.workers.find? v).elim (.enrolled e) (WorkerRow.reenrolled e))
      else db.workers.find? v := by
  by_cases hv : e.capability.workerId = v
  · subst hv
    rcases enroll_cases bind e db with ⟨failure, hbind, heq⟩ | ⟨hbind, heq⟩
    · simp [heq, hbind, Except.isOk, Except.toBool]
    · rw [heq, hbind, if_pos ⟨rfl, rfl⟩]
      exact (Table.find?_upsert _ _ _ _ _).trans (if_pos rfl)
  · rw [if_neg (fun h => hv h.1)]
    rcases enroll_cases bind e db with ⟨failure, -, heq⟩ | ⟨-, heq⟩
    · rw [heq]
    · rw [heq]
      exact (Table.find?_upsert _ _ _ _ _).trans (if_neg hv)

theorem find?_applyDerivedTier (u tier : String) (db : Db) (v : String) :
    (applyDerivedTier u tier db).db.workers.find? v =
      if u = v then (db.workers.find? v).map (WorkerRow.derive tier) else db.workers.find? v := by
  rcases applyDerivedTier_cases u tier db with ⟨heq, hpinned⟩ | ⟨row, hrow, hpinned, heq⟩
  · rw [heq]
    by_cases huv : u = v
    · subst huv
      cases hrow : db.workers.find? u with
      | none => simp
      | some row => simp [WorkerRow.derive, hpinned row hrow]
    · simp [huv]
  · rw [heq]
    exact find?_updateWorker _ _ _ _ _

theorem find?_removeWorker (u : String) (now : Time) (db : Db) (v : String) :
    (removeWorker u now db).workers.find? v = if u = v then none else db.workers.find? v := by
  change (db.workers.delete _).find? v = _
  rw [Table.find?_delete]
  cases hrow : db.workers.find? v with
  | none => simp
  | some row =>
      have hid : row.workerId = v := (Table.find?_eq_some.mp hrow).2
      by_cases huv : u = v
      · simp [huv, hid]
      · have hvu : v ≠ u := Ne.symm huv
        simp [huv, hid, hvu]

theorem find?_assignNext (u : String) (cap : Capability) (free : Option PyFloat) (clock : Time)
    (db : Db) (v : String) :
    (assignNext u cap free clock db).db.workers.find? v =
      if u = v ∧ (assignNext u cap free clock db).answer.isGrant = true then
        (db.workers.find? v).map (WorkerRow.granted clock)
      else db.workers.find? v := by
  have hc := assignNext_cases u cap free clock db
  generalize assignNext u cap free clock db = out at hc ⊢
  cases hc with
  | busy _ | noJob _ _ | deferred _ _ _ _ => simp [Poll.isGrant]
  | granted job _ _ _ =>
      refine (find?_updateWorker _ u v (WorkerRow.granted clock) (fun _ => rfl)).trans ?_
      simp only [Poll.isGrant, and_true]
      rfl

theorem find?_recordHeartbeat (m : Bool) (req : HeartbeatRequest) (now clock : Time) (db : Db)
    (v : String) :
    (recordHeartbeat m req now clock db).workers.find? v =
      if req.workerId = v then (db.workers.find? v).map (WorkerRow.beat m req now)
      else db.workers.find? v := by
  have hbeat := find?_updateWorker db req.workerId v (WorkerRow.beat m req now)
    (beat_workerId m req now)
  unfold recordHeartbeat
  dsimp only
  split
  · split <;> exact hbeat
  · exact hbeat

/-- A worker is blacklisted for a job that it holds, which goes back to the queue. -/
theorem blacklists_cheated {jobId : String} {req : ResultRequest} {now : Time} {db : Db}
    (h : blacklists (settle jobId req now db).answer = true) :
    (∃ job, HeldJob jobId req.workerId now db job) ∧ (settle jobId req now db).db =
      requeueFor req.workerId jobId now (blacklistWorker req.workerId db) := by
  have hc := settle_cases jobId req now db
  generalize settle jobId req now db = out at hc h ⊢
  cases hc with
  | cheated job held _ _ => exact ⟨⟨job, held⟩, rfl⟩
  | missing _ | raised _ _ _ _ _ => cases h
  | notLeased _ _ _ | tooLarge _ _ _ | lapsed _ _ _ _ | invalidProof _ _ _ _ =>
      simp [blacklists, refused] at h
  | completed _ _ _ _ _ _ => simp [blacklists] at h
  | returned job _ _ =>
      have hreason : req.status.text ≠ "cheater_blacklisted" := by
        cases req.status <;> decide
      simp [blacklists, refused, hreason] at h

theorem settle_workers (jobId : String) (req : ResultRequest) (now : Time) (db : Db) :
    (settle jobId req now db).db.workers =
      if blacklists (settle jobId req now db).answer = true then
        (blacklistWorker req.workerId db).workers
      else db.workers := by
  split
  next h => rw [(blacklists_cheated h).2]; rfl
  next h =>
    have hc := settle_cases jobId req now db
    generalize settle jobId req now db = out at hc h ⊢
    cases hc with
    | cheated _ _ _ _ => exact absurd rfl h
    | _ => rfl

theorem find?_settle (jobId : String) (req : ResultRequest) (now : Time) (db : Db) (v : String) :
    (settle jobId req now db).db.workers.find? v =
      if req.workerId = v ∧ blacklists (settle jobId req now db).answer = true then
        (db.workers.find? v).map WorkerRow.blacklist
      else db.workers.find? v := by
  rw [settle_workers]
  by_cases h : blacklists (settle jobId req now db).answer = true
  · rw [if_pos h]
    refine (find?_updateWorker db req.workerId v WorkerRow.blacklist (fun _ => rfl)).trans ?_
    simp only [h, and_true]
  · rw [if_neg h, if_neg (fun hv => h hv.2)]

/-- Every command moves each worker's row as the automaton does. -/
theorem find?_exec (c : Cmd) (input : Nat) (w : World) (v : String) :
    (exec c input w).1.db.workers.find? v = rowAfter w v (w.db.workers.find? v) c := by
  change (emitAll _ _ _).workers.find? v = _
  rw [emitAll_workers]
  cases c with
  | now | uuid4 | workerRow _ | activeWorkers | emit _ | reapExpired => rfl
  | storeProfile _ _ _ | query => rfl
  | insertJob s =>
      rcases insertJob_cases s w.db with ⟨failure, heq⟩ | ⟨jobs, -, -, -, heq⟩ <;>
        simp only [runCommand, heq, rowAfter]
  | enroll bind e => exact find?_enroll bind e w.db v
  | applyDerivedTier u tier => exact find?_applyDerivedTier u tier w.db v
  | assignNext u cap free => exact find?_assignNext u cap free w.clock w.db v
  | recordHeartbeat m req now => exact find?_recordHeartbeat m req now w.clock w.db v
  | approveWorker u => exact find?_updateWorker w.db u v WorkerRow.approve (fun _ => rfl)
  | assignTier u tier => exact find?_updateWorker w.db u v (WorkerRow.pin tier) (fun _ => rfl)
  | removeWorker u now => exact find?_removeWorker u now w.db v
  | settle jobId req now => exact find?_settle jobId req now w.db v

/-- All that a command can do to the row of `v`. -/
inductive RowChange (w : World) (v : String) (row : Option WorkerRow) (c : Cmd) :
    Option WorkerRow → Prop where
  | same : RowChange w v row c row
  | enrolled (bind : Bool) (e : Enrollment) : c = .enroll bind e → e.capability.workerId = v →
      checkBinding bind row e.certFingerprint = .ok () →
      RowChange w v row c (some (row.elim (.enrolled e) (WorkerRow.reenrolled e)))
  | removed (now : Time) : c = .removeWorker v now → RowChange w v row c none
  | derived (tier : String) (old : WorkerRow) : c = .applyDerivedTier v tier → row = some old →
      RowChange w v row c (some (old.derive tier))
  | granted (cap : Capability) (free : Option PyFloat) (old : WorkerRow) :
      c = .assignNext v cap free → (assignNext v cap free w.clock w.db).answer.isGrant = true →
      row = some old → RowChange w v row c (some (old.granted w.clock))
  | beat (m : Bool) (req : HeartbeatRequest) (now : Time) (old : WorkerRow) :
      c = .recordHeartbeat m req now → req.workerId = v → row = some old →
      RowChange w v row c (some (old.beat m req now))
  | admitted (old : WorkerRow) : c = .approveWorker v → row = some old →
      RowChange w v row c (some old.approve)
  | pinned (tier : String) (old : WorkerRow) : c = .assignTier v tier → row = some old →
      RowChange w v row c (some (old.pin tier))
  | blacklisted (jobId : String) (req : ResultRequest) (now : Time) (old : WorkerRow) :
      c = .settle jobId req now → req.workerId = v →
      blacklists (settle jobId req now w.db).answer = true → row = some old →
      RowChange w v row c (some old.blacklist)

theorem rowChange_ite {w : World} {v : String} {row : Option WorkerRow} {c : Cmd} {p : Prop}
    [Decidable p] {f : WorkerRow → WorkerRow}
    (hf : p → ∀ old, row = some old → RowChange w v row c (some (f old))) :
    RowChange w v row c (if p then row.map f else row) := by
  by_cases hp : p
  · rw [if_pos hp]
    cases row with
    | none => exact .same
    | some old => exact hf hp old rfl
  · rw [if_neg hp]
    exact .same

theorem rowAfter_change (w : World) (v : String) (row : Option WorkerRow) (c : Cmd) :
    RowChange w v row c (rowAfter w v row c) := by
  cases c with
  | now | uuid4 | workerRow _ | activeWorkers | emit _ | reapExpired | insertJob _ => exact .same
  | storeProfile _ _ _ | query => exact .same
  | enroll bind e =>
      simp only [rowAfter]
      split
      next h =>
        refine .enrolled bind e rfl h.1 ?_
        cases hb : checkBinding bind row e.certFingerprint with
        | ok u => rfl
        | error failure => simp [hb, Except.isOk, Except.toBool] at h
      next => exact .same
  | applyDerivedTier u tier =>
      refine rowChange_ite (fun hu old hrow => .derived tier old ?_ hrow)
      rw [hu]
  | assignNext u cap free =>
      refine rowChange_ite (fun hu old hrow => ?_)
      obtain ⟨rfl, hgrant⟩ := hu
      exact .granted cap free old rfl hgrant hrow
  | recordHeartbeat m req now =>
      exact rowChange_ite (fun hu old hrow => .beat m req now old rfl hu hrow)
  | approveWorker u =>
      refine rowChange_ite (fun hu old hrow => .admitted old ?_ hrow)
      rw [hu]
  | assignTier u tier =>
      refine rowChange_ite (fun hu old hrow => .pinned tier old ?_ hrow)
      rw [hu]
  | removeWorker u now =>
      simp only [rowAfter]
      split
      next h => exact .removed now (by rw [h])
      next => exact .same
  | settle jobId req now =>
      exact rowChange_ite (fun hu old hrow => .blacklisted jobId req now old rfl hu.1 hu.2 hrow)

/-- The row of `v` before and after a command. -/
theorem rowChange_exec (c : Cmd) (input : Nat) (w : World) (v : String) :
    RowChange w v (w.db.workers.find? v) c ((exec c input w).1.db.workers.find? v) := by
  rw [find?_exec]
  exact rowAfter_change w v _ c

theorem rowChange_post (cfg : Config) (p : Performed) (v : String) :
    RowChange p.pre v (p.pre.db.workers.find? v) p.cmd
      ((p.post (machine cfg)).db.workers.find? v) :=
  rowChange_exec p.cmd p.input p.pre v

/-- A command leaves the row alone, removes it, writes it anew from a
registration, or updates it without touching the advertised capability. -/
inductive RowStep (v : String) (row : Option WorkerRow) (c : Cmd) : Option WorkerRow → Prop where
  | same : RowStep v row c row
  | enrolled (bind : Bool) (e : Enrollment) : c = .enroll bind e → e.capability.workerId = v →
      checkBinding bind row e.certFingerprint = .ok () →
      RowStep v row c (some (row.elim (.enrolled e) (WorkerRow.reenrolled e)))
  | removed (now : Time) : c = .removeWorker v now → RowStep v row c none
  | updated (old : WorkerRow) (f : WorkerRow → WorkerRow) : row = some old →
      (f old).capabilityJson = old.capabilityJson → RowStep v row c (some (f old))

theorem derive_capability (tier : String) (row : WorkerRow) :
    (row.derive tier).capabilityJson = row.capabilityJson := by
  unfold WorkerRow.derive
  split <;> rfl

theorem beat_capability (m : Bool) (req : HeartbeatRequest) (now : Time) (row : WorkerRow) :
    (row.beat m req now).capabilityJson = row.capabilityJson := by
  cases m <;> rfl

theorem rowAfter_step (w : World) (v : String) (row : Option WorkerRow) (c : Cmd) :
    RowStep v row c (rowAfter w v row c) := by
  have h := rowAfter_change w v row c
  generalize rowAfter w v row c = new at h
  cases h with
  | same => exact .same
  | enrolled bind e hc hv hok => exact .enrolled bind e hc hv hok
  | removed now hc => exact .removed now hc
  | derived tier old _ hold => exact .updated old (.derive tier) hold (derive_capability tier old)
  | granted _ _ old _ _ hold => exact .updated old (.granted w.clock) hold rfl
  | beat m req now old _ _ hold =>
      exact .updated old (.beat m req now) hold (beat_capability m req now old)
  | admitted old _ hold => exact .updated old .approve hold rfl
  | pinned tier old _ hold => exact .updated old (.pin tier) hold rfl
  | blacklisted _ _ _ old _ _ _ hold => exact .updated old .blacklist hold rfl

/-- What an update of a row leaves alone stays. -/
theorem map_ite_frame {β : Type} {p : Prop} [Decidable p] {row : Option WorkerRow}
    {f : WorkerRow → WorkerRow} {g : WorkerRow → β} (hf : ∀ r, g (f r) = g r) :
    (if p then row.map f else row).map g = row.map g := by
  have hcomp : g ∘ f = g := funext hf
  split
  · rw [Option.map_map, hcomp]
  · rfl

/-! ## The rows carry their own identifier -/

/-- The advertised capability of every row names the worker of the row. -/
def RowsNamed (db : Db) : Prop :=
  ∀ v row, db.workers.find? v = some row → row.capabilityJson.workerId = v

theorem rowsNamed_invariant (cfg : Config) :
    Interleaving.Invariant (machine cfg) (fun w => RowsNamed w.db) where
  exec c input w h := by
    intro v row' hrow'
    have hs := rowAfter_step w v (w.db.workers.find? v) c
    rw [← find?_exec c input w v, show (exec c input w).1.db.workers.find? v = some row' from hrow']
      at hs
    generalize hnew : some row' = new at hs
    cases hs with
    | same => exact h v row' hnew.symm
    | enrolled bind e _ hv _ =>
        cases hnew
        cases w.db.workers.find? v <;> exact hv
    | removed now _ => cases hnew
    | updated old f hold hf =>
        cases hnew
        rw [hf]
        exact h v old hold
  disturb _ _ h := h

theorem rowsNamed_empty : RowsNamed .empty := by
  intro v row hrow
  exact absurd (Table.find?_eq_some.mp hrow).1 (Table.not_mem_empty row)

theorem truthful_exec (c : Cmd) (input : Nat) (w : World) (h : RowsNamed w.db) :
    Truthful c (exec c input w).2 := by
  cases c with
  | workerRow v =>
      change Truthful (.workerRow v) (w.db.workers.find? v)
      cases hrow : w.db.workers.find? v with
      | none => trivial
      | some row => exact ⟨(Table.find?_eq_some.mp hrow).2, h v row hrow⟩
  | _ => trivial

theorem discipline (cfg : Config) :
    Interleaving.Discipline (machine cfg) (fun w => RowsNamed w.db) (Issued cfg) Truthful
      (fun call past reply => Ended cfg past call reply) where
  start call := keeps_handle call
  answer c input w h := truthful_exec c input w h

/-- A command performed in a run is one its call may issue, on the strength of
answers that the same thread got earlier in the run. -/
theorem run_issued {cfg : Config} {clock : Time} {ms : List Move} {m : Move} {p : Performed}
    (hp : performedAt cfg clock ms m = some p) :
    Issued cfg p.call p.past p.cmd ∧ ∀ c r, Saw p.past c r → ∃ q ∈ runTrace cfg clock ms,
      q.thread = p.thread ∧ q.call = p.call ∧ q.answered (machine cfg) = ⟨c, r⟩ := by
  have h := (discipline cfg).performed (rowsNamed_invariant cfg) rowsNamed_empty hp
  exact ⟨h.1, fun c r hr => h.2 ⟨c, r⟩ hr⟩

/-- A call that has returned did so for a reason found in the run. -/
theorem run_ended {cfg : Config} {clock : Time} {ms : List Move} {i : Nat} {call : Call}
    {past : Past} {reply : Reply}
    (ht : (run cfg clock ms).threads[i]? = some ⟨call, past, .ret reply⟩) :
    Ended cfg past call reply ∧ ∀ c r, Saw past c r → ∃ q ∈ runTrace cfg clock ms,
      q.thread = i ∧ q.call = call ∧ q.answered (machine cfg) = ⟨c, r⟩ := by
  have h := (discipline cfg).returned (rowsNamed_invariant cfg) rowsNamed_empty ht
  exact ⟨h.1, fun c r hr => h.2 ⟨c, r⟩ hr⟩

end OneCompute
