import OneCompute.Lib.Evidence
import OneCompute.Orchestrator.AuditChain
import OneCompute.Orchestrator.Reports
import OneCompute.Orchestrator.StoreInvariant

/-!
The audit log beside the store: what an answer is evidence of, which jobs the log
may name, and that its completions are the rows of the ledger.
-/

namespace OneCompute

/-! ## What is never undone -/

structure Grows (db db' : Db) : Prop where
  kept : Kept db db'
  ledger : db.ledger.rows <+: db'.ledger.rows
  events : db.events.rows <+: db'.events.rows

theorem Grows.refl (db : Db) : Grows db db :=
  ⟨.refl db, List.prefix_refl _, List.prefix_refl _⟩

theorem Grows.trans {a b c : Db} (hab : Grows a b) (hbc : Grows b c) : Grows a c :=
  ⟨hab.kept.trans hbc.kept, hab.ledger.trans hbc.ledger, hab.events.trans hbc.events⟩

theorem StoreStep.ledger_grows {db db' : Db} (h : StoreStep db db') :
    db.ledger.rows <+: db'.ledger.rows := by
  induction h with
  | same _ hl => rw [hl]
  | requeue now p hp => exact List.prefix_refl _
  | extend w jobId now clock => exact List.prefix_refl _
  | insert s jobs hins => exact List.prefix_refl _
  | grant w jobId clock hfree => exact List.prefix_refl _
  | complete w jobId output now job hfind hl => exact List.prefix_append _ _
  | trans _ _ ih₁ ih₂ => exact ih₁.trans ih₂

theorem StoreStep.grows {db db' : Db} (h : StoreStep db db') (he : db'.events = db.events) :
    Grows db db' :=
  ⟨.step h, h.ledger_grows, by rw [he]⟩

theorem grows_emit (now : Time) (db : Db) (e : Emission) : Grows db (emit now db e) :=
  ⟨.refl db, List.prefix_refl _, List.prefix_append _ _⟩

theorem grows_emitAll (now : Time) (db : Db) (es : List Emission) :
    Grows db (emitAll now db es) := by
  induction es generalizing db with
  | nil => exact .refl db
  | cons e es ih => exact (grows_emit now db e).trans (ih (emit now db e))

theorem grows_exec (c : Cmd) (input : Nat) (w : World) : Grows w.db (exec c input w).1.db :=
  ((storeStep_runCommand input w c).grows (runCommand_frame input w c).1).trans
    (grows_emitAll _ _ _)

/-! ## Evidence -/

/-- The job is stored under this identifier. -/
def StoresJob (db : Db) (jobId : String) : Prop := ∃ j ∈ db.jobs, j.jobId = jobId

/-- The worker's result was taken and paid for. -/
def Paid (db : Db) (workerId jobId : String) (output : Dict) (credits : PyFloat) : Prop :=
  (∃ j ∈ db.jobs, j.jobId = jobId ∧ j.state = .completed ∧ j.assignedWorker = some workerId ∧
    j.resultJson = some output) ∧
  ∃ l ∈ db.ledger.rows, l.jobId = some jobId ∧ l.workerId = workerId ∧ l.credits = credits

/-- What the answer of a command tells about the database from then on. -/
def Evidence : (c : Cmd) → Ret c → Db → Prop
  | .insertJob s, .ok _, db => ∃ j ∈ db.jobs, j.jobId = s.manifest.jobId ∧
      j.manifestJson = s.manifest ∧ j.inputJson = s.input ∧ j.units = s.units
  | .assignNext _ _ _, .granted job, db => StoresJob db job.jobId
  | .settle jobId req _, .ok response, db =>
      response.accepted = true →
        Paid db req.workerId jobId req.outputOrEmpty response.credited
  | _, _, _ => True

theorem Grows.storesJob {db db' : Db} (h : Grows db db') {jobId : String}
    (hj : StoresJob db jobId) : StoresJob db' jobId := by
  obtain ⟨j, hj, rfl⟩ := hj
  obtain ⟨k, hk, hjk⟩ := h.kept j hj
  exact ⟨k, hk, hjk.jobId⟩

theorem Grows.paid {db db' : Db} (h : Grows db db') {w jobId : String} {output : Dict}
    {credits : PyFloat} (hp : Paid db w jobId output credits) : Paid db' w jobId output credits := by
  obtain ⟨⟨j, hj, hid, hc, hrest⟩, l, hl, hlrest⟩ := hp
  obtain ⟨k, hk, hjk⟩ := h.kept j hj
  obtain rfl := hjk.completed hc
  exact ⟨⟨k, hk, hid, hc, hrest⟩, l, h.ledger.subset hl, hlrest⟩

theorem Grows.evidence {db db' : Db} (h : Grows db db') (c : Cmd) (r : Ret c)
    (he : Evidence c r db) : Evidence c r db' := by
  cases c with
  | insertJob s =>
      cases r with
      | error e => trivial
      | ok u =>
          obtain ⟨j, hj, hid, hm, hi, hu⟩ := he
          obtain ⟨k, hk, hjk⟩ := h.kept j hj
          exact ⟨k, hk, hjk.jobId.trans hid, hjk.manifest.trans hm, hjk.input.trans hi,
            hjk.units.trans hu⟩
  | assignNext w cap free =>
      cases r with
      | granted job => exact h.storesJob he
      | _ => trivial
  | settle jobId req now =>
      cases r with
      | error e => trivial
      | ok response => exact fun haccepted => h.paid (he haccepted)
  | _ => trivial

theorem evidence_insertJob (s : Submission) (db : Db) :
    Evidence (.insertJob s) (insertJob s db).answer (insertJob s db).db := by
  rcases insertJob_cases s db with ⟨failure, heq⟩ | ⟨jobs, hins, -, -, heq⟩
  · rw [heq]
    trivial
  · rw [heq]
    exact ⟨.submitted s, (Table.mem_insert? hins).mpr (.inr rfl), rfl, rfl, rfl, rfl⟩

theorem evidence_settle (jobId : String) (req : ResultRequest) (now : Time) (db : Db) :
    Evidence (.settle jobId req now) (settle jobId req now db).answer
      (settle jobId req now db).db := by
  have hc := settle_cases jobId req now db
  generalize settle jobId req now db = out at hc ⊢
  cases hc with
  | missing _ | raised _ _ _ _ _ => trivial
  | completed job held _ _ _ _ =>
      intro _
      obtain ⟨hjob, rfl⟩ := Table.find?_eq_some.mp held.found
      refine ⟨⟨job.complete req.outputOrEmpty now, ?_, rfl, rfl, (leasedTo_iff.mp held.leased).2,
        rfl⟩, _, List.mem_append_right _ (List.mem_singleton_self _), rfl, rfl, rfl⟩
      exact mem_completeJob.mpr ⟨job, hjob, by simp [held.leased]⟩
  | _ => exact fun haccepted => nomatch haccepted

/-! ## The log beside the store -/

/-- The completions that the log records, with worker, job and credits. -/
def completedEvents (rows : List EventRow) : List (SqlValue × SqlValue × SqlValue × SqlValue) :=
  (rows.map EventRow.recorded).filter fun r => decide (r.1 = .text "completed")

/-- A ledger row as its event would record it. -/
def LedgerRow.recorded (l : LedgerRow) : SqlValue × SqlValue × SqlValue × SqlValue :=
  (.text "completed", .text l.workerId, .ofOption l.jobId,
    .text ("+" ++ PyFloat.formatG l.credits ++ " credits"))

/-- Every job the log names is stored. -/
def NamesStored (db : Db) : Prop :=
  ∀ r ∈ db.events.rows, ∀ jobId, r.jobId = .text jobId → StoresJob db jobId

theorem NamesStored.grows {db db' : Db} (h : NamesStored db) (hg : Grows db db')
    (he : db'.events = db.events) : NamesStored db' := by
  intro r hr jobId hid
  rw [he] at hr
  exact hg.storesJob (h r hr jobId hid)

theorem NamesStored.emit {db : Db} (h : NamesStored db) {e : Emission}
    (he : ∀ jobId, e.jobId = some jobId → StoresJob db jobId) (now : Time) :
    NamesStored (emit now db e) := by
  intro r hr jobId hid
  rw [emit_rows] at hr
  cases List.mem_append.mp hr with
  | inl hr => exact h r hr jobId hid
  | inr hr =>
      obtain rfl := List.mem_singleton.mp hr
      have htext : SqlValue.ofOption e.jobId = .text jobId := hid
      apply he
      cases hj : e.jobId with
      | none =>
          rw [hj] at htext
          cases htext
      | some j =>
          rw [hj] at htext
          cases htext
          rfl

theorem completedEvents_emit (now : Time) (db : Db) (e : Emission) :
    completedEvents (emit now db e).events.rows = completedEvents db.events.rows ++
      if e.type = "completed" then [e.recorded] else [] := by
  rw [emit_rows, completedEvents, List.map_append, List.filter_append, completedEvents]
  congr 1
  change List.filter _ [e.recorded] = _
  by_cases ht : e.type = "completed"
  · simp [Emission.recorded, ht]
  · simp [Emission.recorded, ht]

theorem completedEvents_emit_other {now : Time} {db : Db} {e : Emission} (h : e.type ≠ "completed") :
    completedEvents (emit now db e).events.rows = completedEvents db.events.rows := by
  rw [completedEvents_emit, if_neg h, List.append_nil]

/-- What an endpoint reports after a section is not a completion, and names a job only
if the job is stored. -/
theorem Recounts.sayable {past : Past} {e : Emission} (h : Recounts past e) {db : Db}
    (hev : ∀ b ∈ past, Evidence b.cmd b.answer db) :
    e.type ≠ "completed" ∧ ∀ jobId, e.jobId = some jobId → StoresJob db jobId := by
  cases h with
  | submitted s detail hs | foundryRouted s detail hs =>
      refine ⟨by simp, fun jobId hid => ?_⟩
      cases hid
      obtain ⟨j, hj, hid, -⟩ := hev _ hs
      exact ⟨j, hj, hid⟩
  | assigned w cap free job hs =>
      refine ⟨by simp, fun jobId hid => ?_⟩
      cases hid
      exact hev _ hs
  | _ => exact ⟨by simp, fun jobId hid => nomatch hid⟩

/-! ## Over whole runs -/

theorem enroll_silent (bind : Bool) (e : Enrollment) (db : Db) :
    (enroll bind e db).emits = [] ∧
      ∀ x, (enroll bind e db).answer = .error x → (enroll bind e db).db = db := by
  rcases enroll_cases bind e db with ⟨failure, -, heq⟩ | ⟨-, heq⟩
  · exact heq ▸ ⟨rfl, fun _ _ => rfl⟩
  · exact heq ▸ ⟨rfl, fun _ hx => nomatch hx⟩

theorem insertJob_silent (s : Submission) (db : Db) :
    (insertJob s db).emits = [] ∧
      ∀ x, (insertJob s db).answer = .error x → (insertJob s db).db = db := by
  rcases insertJob_cases s db with ⟨failure, heq⟩ | ⟨jobs, -, -, -, heq⟩
  · exact heq ▸ ⟨rfl, fun _ _ => rfl⟩
  · exact heq ▸ ⟨rfl, fun _ hx => nomatch hx⟩

theorem applyDerivedTier_silent (workerId tier : String) (db : Db) :
    (applyDerivedTier workerId tier db).emits = [] := by
  rcases applyDerivedTier_cases workerId tier db with ⟨heq, -⟩ | ⟨row, -, -, heq⟩
  · exact heq ▸ rfl
  · exact heq ▸ rfl

theorem assignNext_silent (workerId : String) (cap : Capability) (free : Option PyFloat)
    (clock : Time) (db : Db) : (assignNext workerId cap free clock db).emits = [] := by
  have hc := assignNext_cases workerId cap free clock db
  generalize assignNext workerId cap free clock db = out at hc ⊢
  cases hc <;> rfl

/-- The completions in the log are the rows of the ledger, in order. -/
def CompletionsPaid (db : Db) : Prop :=
  completedEvents db.events.rows = db.ledger.rows.map LedgerRow.recorded

/-- The log names stored jobs, and its completions are the ledger. -/
structure TrailOk (db : Db) : Prop where
  completions : CompletionsPaid db
  names : NamesStored db

theorem TrailOk.congr {db db' : Db} (h : TrailOk db) (hg : Grows db db')
    (he : db'.events = db.events) (hl : db'.ledger = db.ledger) : TrailOk db' where
  completions := by
    rw [CompletionsPaid, he, hl]
    exact h.completions
  names := h.names.grows hg he

theorem TrailOk.emit {db : Db} (h : TrailOk db) {e : Emission} (he : e.type ≠ "completed")
    (hid : ∀ jobId, e.jobId = some jobId → StoresJob db jobId) (now : Time) :
    TrailOk (emit now db e) where
  completions := (completedEvents_emit_other he).trans h.completions
  names := h.names.emit hid now

theorem text_ne_completed {status : ResultStatus} (h : status ≠ .completed) :
    status.text ≠ "completed" := by
  cases status with
  | completed => exact absurd rfl h
  | failed => decide
  | yielded => decide

/-- The section that takes a result writes both sides. -/
theorem trailOk_settle {db : Db} (h : TrailOk db) (jobId : String) (req : ResultRequest)
    (now clock : Time) : TrailOk (emitAll clock (settle jobId req now db).db
      (settle jobId req now db).emits) := by
  have hgrows := (storeStep_settle db jobId req now).grows (settle_events jobId req now db)
  have hc := settle_cases jobId req now db
  generalize settle jobId req now db = out at hc hgrows ⊢
  -- an event about the job, after a section that wrote no ledger row
  have hother : ∀ {e : Emission} {db' : Db}, Grows db db' → db'.events = db.events →
      db'.ledger = db.ledger → e.type ≠ "completed" → StoresJob db jobId → e.jobId = some jobId →
      TrailOk (OneCompute.emit clock db' e) := by
    intro e db' hg he hl ht hjob hid
    refine (h.congr hg he hl).emit ht (fun j hj => ?_) clock
    cases hid.symm.trans hj
    exact hg.storesJob hjob
  have hstores : ∀ {job}, HeldJob jobId req.workerId now db job → StoresJob db jobId :=
    fun held => ⟨_, Table.find?_eq_some.mp held.found⟩
  cases hc with
  | missing _ | notLeased _ _ _ | tooLarge _ _ _ | raised _ _ _ _ _ => exact h
  | lapsed _ _ _ _ | invalidProof _ _ _ _ => exact h.congr hgrows rfl rfl
  | returned job held hstatus =>
      exact hother hgrows rfl rfl (text_ne_completed hstatus) (hstores held) rfl
  | cheated job held _ _ => exact hother hgrows rfl rfl (by simp) (hstores held) rfl
  | completed job held _ _ _ _ =>
      refine ⟨?_, (h.names.grows hgrows rfl).emit (fun j hj => ?_) clock⟩
      · rw [CompletionsPaid, emitAll, List.foldl_cons, List.foldl_nil, completedEvents_emit,
          if_pos rfl]
        change completedEvents db.events.rows ++ _ = (db.ledger.rows ++ [_]).map _
        rw [h.completions, List.map_append]
        rfl
      · cases hj
        exact hgrows.storesJob (hstores held)

/-- Sections other than a result append no event of their own. -/
theorem runCommand_silent (input : Nat) (w : World) {c : Cmd} (hemit : ∀ e, c ≠ .emit e)
    (hsettle : ∀ jobId req now, c ≠ .settle jobId req now) : (runCommand input w c).emits = [] := by
  cases c with
  | emit e => exact absurd rfl (hemit e)
  | settle jobId req now => exact absurd rfl (hsettle jobId req now)
  | enroll bind e => exact (enroll_silent bind e w.db).1
  | applyDerivedTier workerId tier => exact applyDerivedTier_silent workerId tier w.db
  | insertJob s => exact (insertJob_silent s w.db).1
  | assignNext workerId cap free => exact assignNext_silent workerId cap free w.clock w.db
  | _ => rfl

/-- A command keeps the trail, if an event it appends is sayable. -/
theorem trailOk_exec {w : World} (h : TrailOk w.db) (c : Cmd) (input : Nat)
    (hsay : ∀ e, c = .emit e →
      e.type ≠ "completed" ∧ ∀ jobId, e.jobId = some jobId → StoresJob w.db jobId) :
    TrailOk (exec c input w).1.db := by
  by_cases hemit : ∃ e, c = .emit e
  · obtain ⟨e, rfl⟩ := hemit
    obtain ⟨ht, hid⟩ := hsay e rfl
    exact h.emit ht hid w.clock
  · by_cases hsettle : ∃ jobId req now, c = .settle jobId req now
    · obtain ⟨jobId, req, now, rfl⟩ := hsettle
      exact trailOk_settle h jobId req now w.clock
    · have hframe := runCommand_frame input w c
      have hsilent := runCommand_silent input w (fun e he => hemit ⟨e, he⟩)
        fun jobId req now hc => hsettle ⟨jobId, req, now, hc⟩
      have hledger := hframe.2.resolve_right hsettle
      have hgrows := (storeStep_runCommand input w c).grows hframe.1
      rw [exec, hsilent]
      exact h.congr hgrows hframe.1 hledger

theorem evidence_exec (c : Cmd) (input : Nat) (w : World) :
    Evidence c (exec c input w).2 (exec c input w).1.db := by
  refine (grows_emitAll _ _ _).evidence c _ ?_
  cases c with
  | insertJob s => exact evidence_insertJob s w.db
  | settle jobId req now => exact evidence_settle jobId req now w.db
  | assignNext v cap free =>
      have hgrows := (storeStep_runCommand input w (.assignNext v cap free)).grows
        (runCommand_frame input w _).1
      have hc := assignNext_cases v cap free w.clock w.db
      simp only [exec, runCommand] at hgrows ⊢
      generalize assignNext v cap free w.clock w.db = out at hc hgrows ⊢
      cases hc with
      | granted job _ hpick _ =>
          exact hgrows.storesJob ⟨job, (pickJobFor_eq_some hpick).1, rfl⟩
      | _ => trivial
  | _ => trivial

theorem witnessing (cfg : Config) :
    Interleaving.Witnessing (machine cfg) (fun _ => True) (fun c r w => Evidence c r w.db) where
  given c input w _ := evidence_exec c input w
  kept c input w d r h := (grows_exec c input w).evidence d r h
  undisturbed _ _ _ _ h := h

theorem everywhere (cfg : Config) : Interleaving.Invariant (machine cfg) (fun _ => True) :=
  ⟨fun _ _ _ _ => trivial, fun _ _ _ => trivial⟩

theorem reporting (cfg : Config) :
    Interleaving.Discipline (machine cfg) (fun _ => True) (fun _ => Reported) (fun _ _ => True)
      (fun call past reply => Acknowledged past call reply) :=
  ⟨fun call => tells_handle call, fun _ _ _ _ => trivial⟩

theorem trailOk_empty : TrailOk .empty := ⟨rfl, fun _ hr => absurd hr List.not_mem_nil⟩

theorem run_trailOk (cfg : Config) (clock : Time) (ms : List Move) :
    TrailOk (run cfg clock ms).state.db := by
  apply run_induction cfg clock (I := fun _ w => TrailOk w.db)
  · exact trailOk_empty
  · intro ms m p hp h
    refine trailOk_exec h p.cmd p.input fun e he => ?_
    have hreport := ((reporting cfg).performed (everywhere cfg) trivial hp).1
    rw [he] at hreport
    exact hreport.sayable ((witnessing cfg).performed (everywhere cfg) trivial hp)
  · exact fun _ _ _ h => h
  · exact fun _ _ _ _ h => h

/-- After any run the log tells what happened: its completions are the rows of the
ledger, in order and with their credits; every job it names is stored; and an event that
an endpoint appended reports a section that the same request has gone through. -/
theorem audit_log_tells (cfg : Config) (clock : Time) (ms : List Move) :
    completedEvents (run cfg clock ms).state.db.events.rows =
      (run cfg clock ms).state.db.ledger.rows.map LedgerRow.recorded ∧
    (∀ r ∈ (run cfg clock ms).state.db.events.rows, ∀ jobId, r.jobId = .text jobId →
      ∃ j ∈ (run cfg clock ms).state.db.jobs, j.jobId = jobId) ∧
    ∀ m p e, performedAt cfg clock ms m = some p → p.cmd = .emit e → Recounts p.past e ∧
      ∀ c r, Saw p.past c r → ∃ q ∈ runTrace cfg clock ms, q.thread = p.thread ∧
        q.call = p.call ∧ q.answered (machine cfg) = ⟨c, r⟩ := by
  have h := run_trailOk cfg clock ms
  refine ⟨h.completions, h.names, fun m p e hp he => ?_⟩
  have hd := (reporting cfg).performed (everywhere cfg) trivial hp
  refine ⟨?_, fun c r hr => hd.2 ⟨c, r⟩ hr⟩
  have hreport := hd.1
  rwa [he] at hreport

end OneCompute
