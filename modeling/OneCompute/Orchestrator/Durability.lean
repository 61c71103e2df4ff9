import OneCompute.Orchestrator.LockedSections

/-!
What a restart finds. The file holds what was committed last; whatever statement a
crash falls on, it is a consistent database with a chain that verifies, and what the
callers were told is in it.
-/

namespace OneCompute
open Locking (Wp)

/-! ## Leases with several readings of the clock -/

/-- The same job, with another time of its last change. -/
def JobRow.Retimed (j k : JobRow) : Prop := ∃ t, k = { j with updatedAt := t }

theorem StoreInv.retimed {db db' : Db} (h : StoreInv db)
    (hback : ∀ k ∈ db'.jobs, ∃ j ∈ db.jobs, j.Retimed k)
    (hforth : ∀ j ∈ db.jobs, ∃ k ∈ db'.jobs, j.Retimed k) (hl : db'.ledger = db.ledger) :
    StoreInv db' := by
  constructor
  · intro k hk
    obtain ⟨j, hj, t, rfl⟩ := hback k hk
    have hok := h.jobs j hj
    exact ⟨hok.state, hok.assigned, hok.lease, hok.result⟩
  · intro k hk k' hk' w hw hw'
    obtain ⟨j, hj, t, rfl⟩ := hback k hk
    obtain ⟨j', hj', t', rfl⟩ := hback k' hk'
    obtain rfl : j = j' := h.oneLease j hj j' hj' w hw hw'
    exact Table.eq_of_key_eq hk hk' rfl
  · intro k hk hc
    obtain ⟨j, hj, t, rfl⟩ := hback k hk
    rw [hl]
    exact h.paid j hj hc
  · intro l hlm
    rw [hl] at hlm
    obtain ⟨j, hj, hc, hid, hw, hcredits⟩ := h.earned l hlm
    obtain ⟨k, hk, t, rfl⟩ := hforth j hj
    exact ⟨_, hk, hc, hid, hw, hcredits⟩
  · rw [hl]
    exact h.once

/-- The condition of the update that leases a job. -/
def isQueued (jobId : String) (j : JobRow) : Bool :=
  decide (j.jobId = jobId) && decide (j.state = .queued)

theorem mem_grantAt {w jobId : String} {d u : Time} {db : Db} {k : JobRow} :
    k ∈ (grantAt w jobId d u db).jobs ↔
      ∃ j ∈ db.jobs, (if isQueued jobId j then j.leaseAt w d u else j) = k :=
  Table.mem_update (leaseAt_jobId w d u)

theorem retimed_grant (w jobId : String) (d u : Time) (j : JobRow) : JobRow.Retimed
    (if isQueued jobId j then j.lease w d else j)
    (if isQueued jobId j then j.leaseAt w d u else j) := by
  split
  · exact ⟨u, rfl⟩
  · exact ⟨j.updatedAt, rfl⟩

theorem StoreInv.grantAt {db : Db} (h : StoreInv db) {w : String} (hfree : busy db w = false)
    (jobId : String) (d u : Time) : StoreInv (grantAt w jobId d u db) := by
  have hgrant : StoreInv (OneCompute.grant w jobId d db) := h.grant d hfree
  refine hgrant.retimed (fun k hk => ?_) (fun j hj => ?_) rfl
  · obtain ⟨j, hj, rfl⟩ := mem_grantAt.mp hk
    exact ⟨_, mem_grant.mpr ⟨j, hj, rfl⟩, retimed_grant w jobId d u j⟩
  · obtain ⟨i, hi, rfl⟩ := mem_grant.mp hj
    exact ⟨_, mem_grantAt.mpr ⟨i, hi, rfl⟩, retimed_grant w jobId d u i⟩

theorem grantAt_grows (w jobId : String) (d u : Time) (db : Db) :
    Grows db (grantAt w jobId d u db) := by
  refine ⟨fun j hj => ⟨_, mem_grantAt.mpr ⟨j, hj, rfl⟩, ?_⟩, List.prefix_refl _, List.prefix_refl _⟩
  split
  next hq =>
    have hstate : j.state = .queued := by
      simp only [isQueued, Bool.and_eq_true, decide_eq_true_eq] at hq
      exact hq.2
    exact ⟨rfl, rfl, rfl, rfl, fun hc => by simp [hstate] at hc⟩
  next => exact .refl j

/-! ## A database a restart may find -/

structure DiskOk (db : Db) : Prop where
  store : StoreInv db
  chained : AuditChained db.events.rows
  decodable : ∀ r ∈ db.events.rows, r.decodable = true
  names : NamesStored db
  /-- A crash between a payment and its event loses the event, never the payment. -/
  completions : (completedEvents db.events.rows).Sublist (db.ledger.rows.map LedgerRow.recorded)

theorem diskOk_empty : DiskOk .empty :=
  ⟨storeInv_empty, trivial, fun _ hr => absurd hr List.not_mem_nil,
    fun _ hr => absurd hr List.not_mem_nil, List.nil_sublist _⟩

theorem DiskOk.advance {db db' : Db} (h : DiskOk db) (hs : StoreInv db') (hg : Grows db db')
    (he : db'.events = db.events) : DiskOk db' where
  store := hs
  chained := he ▸ h.chained
  decodable := he ▸ h.decodable
  names := h.names.grows hg he
  completions := by
    rw [he]
    exact h.completions.trans (hg.ledger.map LedgerRow.recorded).sublist

theorem emit_decodable {db : Db} (h : DiskOk db) {e : Emission} {now : Time} :
    ∀ r ∈ (emit now db e).events.rows, r.decodable = true := by
  intro r hr
  rw [emit_rows] at hr
  cases List.mem_append.mp hr with
  | inl hr => exact h.decodable r hr
  | inr hr =>
      rw [List.mem_singleton.mp hr]
      exact make_decodable _ _ _ _

theorem diskOk_emit {db : Db} (h : DiskOk db) {e : Emission} (he : e.type ≠ "completed")
    (hid : ∀ jobId, e.jobId = some jobId → StoresJob db jobId) (now : Time) :
    DiskOk (emit now db e) where
  store := h.store.congr rfl rfl
  chained := emit_chained h.chained
  decodable := emit_decodable h
  names := h.names.emit hid now
  completions := by
    rw [completedEvents_emit_other he]
    exact h.completions

/-- The event of a payment, right after the payment. -/
theorem diskOk_emit_completed {db db' : Db} (h : DiskOk db) (h' : DiskOk db')
    (he : db'.events = db.events) {l : LedgerRow} (hl : db'.ledger.rows = db.ledger.rows ++ [l])
    {e : Emission} (hrec : e.recorded = l.recorded)
    (hid : ∀ jobId, e.jobId = some jobId → StoresJob db' jobId) (now : Time) :
    DiskOk (emit now db' e) where
  store := h'.store.congr rfl rfl
  chained := emit_chained h'.chained
  decodable := emit_decodable h'
  names := h'.names.emit hid now
  completions := by
    have htype : e.type = "completed" := SqlValue.text.inj (congrArg Prod.fst hrec)
    change List.Sublist _ (db'.ledger.rows.map LedgerRow.recorded)
    rw [completedEvents_emit, if_pos htype, he, hl, List.map_append, hrec]
    exact h.completions.append (List.Sublist.refl _)

/-! ## What a commit makes durable -/

/-- A commit replaces a good file by a good file that has everything the old one has. -/
def diskStep (s s' : Store) : Prop :=
  (DiskOk s.disk → DiskOk s'.disk) ∧ Grows s.disk s'.disk

theorem diskStep_changes : AllowsChanges diskStep := fun _ _ _ _ => ⟨id, .refl _⟩

theorem commits_of {disk mem : Db} (h : DiskOk mem) (hg : Grows disk mem) :
    Commits diskStep disk mem :=
  fun _ => ⟨fun _ => h, hg⟩

/-- A section ends with everything committed, in a good file, and its answer is
evidence of what the file holds. -/
def EndsDurably (c : Cmd) (x : Except Failure (Ret c)) (mem disk : Db) : Prop :=
  mem = disk ∧ DiskOk disk ∧ ∃ r, x = .ok r ∧ Evidence c r disk

theorem endsDurably {c : Cmd} {r : Ret c} {db : Db} (h : DiskOk db) (he : Evidence c r db) :
    EndsDurably c (.ok r) db db :=
  ⟨rfl, h, r, rfl, he⟩

/-- A section that changes rows without events of its own. -/
theorem DiskOk.storeStep {db db' : Db} (h : DiskOk db) (hs : StoreStep db db')
    (he : db'.events = db.events) : DiskOk db' ∧ Grows db db' :=
  ⟨h.advance (h.store.step hs) (hs.grows he) he, hs.grows he⟩

theorem diskOk_settle {db : Db} (h : DiskOk db) (jobId : String) (req : ResultRequest)
    (now : Time) : SettleCommits diskStep (fun _ => True) db (settle jobId req now db) ∧
      ∀ t, DiskOk (emitAll t (settle jobId req now db).db (settle jobId req now db).emits) := by
  obtain ⟨hok, hgrows⟩ := h.storeStep (storeStep_settle db jobId req now)
    (settle_events jobId req now db)
  have hc := settle_cases jobId req now db
  generalize settle jobId req now db = out at hc hok hgrows ⊢
  have hstores : ∀ {job}, HeldJob jobId req.workerId now db job → StoresJob out.db jobId :=
    fun held => hgrows.storesJob ⟨_, Table.find?_eq_some.mp held.found⟩
  -- with no event, and with one event that keeps the file good
  have hnone : out.emits = [] → SettleCommits diskStep (fun _ => True) db out ∧
      ∀ t, DiskOk (emitAll t out.db out.emits) := by
    intro hempty
    rw [hempty]
    exact ⟨⟨commits_of hok hgrows, fun e t _ he => by rw [hempty] at he; cases he⟩, fun t => hok⟩
  have hone : ∀ e, out.emits = [e] → (∀ t, DiskOk (emit t out.db e)) →
      SettleCommits diskStep (fun _ => True) db out ∧
        ∀ t, DiskOk (emitAll t out.db out.emits) := by
    intro e heq hemit
    refine ⟨⟨commits_of hok hgrows, fun e' t _ he' => ?_⟩, fun t => heq ▸ hemit t⟩
    obtain rfl : e = e' := by simpa [heq] using he'
    exact commits_of (hemit t) (grows_emit t _ _)
  cases hc with
  | missing _ | notLeased _ _ _ | tooLarge _ _ _ | raised _ _ _ _ _ => exact hnone rfl
  | lapsed _ _ _ _ | invalidProof _ _ _ _ => exact hnone rfl
  | returned job held hstatus =>
      refine hone _ rfl fun t => diskOk_emit hok (text_ne_completed hstatus) (fun j hj => ?_) t
      cases hj
      exact hstores held
  | cheated job held _ _ =>
      refine hone _ rfl fun t => diskOk_emit hok (by simp) (fun j hj => ?_) t
      cases hj
      exact hstores held
  | completed job held _ _ _ _ =>
      refine hone _ rfl fun t => diskOk_emit_completed h hok rfl rfl rfl (fun j hj => ?_) t
      cases hj
      exact hstores held

/-- Every section makes only good files durable and ends durably. -/
theorem section_durable (cfg : Config) (c : Cmd) (p : Section (Ret c)) (hp : sectionOf c = some p)
    {past : Past} {db : Db} (h : DiskOk db) (hreport : Reported past c)
    (hpast : ∀ b ∈ past, Evidence b.cmd b.answer db) :
    Spec cfg (fun _ => True) diskStep p db db (EndsDurably c) := by
  have hg := diskStep_changes
  cases c with
  | now => cases hp
  | uuid4 => cases hp
  | workerRow workerId => cases hp; exact spec_fetch hg (endsDurably h trivial)
  | activeWorkers => cases hp; exact spec_fetch hg (endsDurably h trivial)
  | query => cases hp; exact spec_fetch hg (endsDurably h trivial)
  | emit e =>
      cases hp
      obtain ⟨htype, hid⟩ := Recounts.sayable hreport hpast
      have hok := diskOk_emit h htype hid
      exact spec_emit hg (fun t _ => commits_of (hok t) (grows_emit t db e))
        fun t _ => endsDurably (hok t) trivial
  | enroll bind e =>
      cases hp
      obtain ⟨hok, hgrows⟩ := h.storeStep (storeStep_runCommand 0 ⟨0, db⟩ (.enroll bind e))
        (runCommand_frame 0 ⟨0, db⟩ (.enroll bind e)).1
      exact spec_enroll hg (commits_of hok hgrows) (fun _ _ => endsDurably h trivial)
        fun _ _ => endsDurably hok trivial
  | applyDerivedTier workerId tier =>
      cases hp
      obtain ⟨hok, hgrows⟩ := h.storeStep
        (storeStep_runCommand 0 ⟨0, db⟩ (.applyDerivedTier workerId tier))
        (runCommand_frame 0 ⟨0, db⟩ (.applyDerivedTier workerId tier)).1
      exact spec_applyDerivedTier hg (commits_of hok hgrows) (fun _ _ => endsDurably h trivial)
        fun _ => endsDurably hok trivial
  | insertJob s =>
      cases hp
      obtain ⟨hok, hgrows⟩ := h.storeStep (storeStep_runCommand 0 ⟨0, db⟩ (.insertJob s))
        (runCommand_frame 0 ⟨0, db⟩ (.insertJob s)).1
      refine spec_insertJob hg (commits_of hok hgrows) (fun _ _ => endsDurably h trivial) fun hx => ?_
      have he := evidence_insertJob s db
      rw [hx] at he
      exact endsDurably hok he
  | reapExpired =>
      cases hp
      have hstep : ∀ t u, StoreStep db (reapAt t u db) := by
        intro t u
        apply StoreStep.requeue
        intro j hj
        simp only [Bool.and_eq_true, decide_eq_true_eq] at hj
        exact hj.1
      exact spec_reap hg
        (fun t _ u _ => commits_of (h.storeStep (hstep t u) rfl).1 (h.storeStep (hstep t u) rfl).2)
        fun t _ u _ => endsDurably (h.storeStep (hstep t u) rfl).1 trivial
  | assignNext workerId cap free =>
      cases hp
      refine spec_assign hg (fun _ => endsDurably h trivial) (fun _ _ => endsDurably h trivial)
        (fun _ _ _ _ _ _ => endsDurably h trivial) fun job t d u _ _ _ hbusy hpick _ => ?_
      have hgrows := grantAt_grows workerId job.jobId d u db
      have hok := h.advance (h.store.grantAt hbusy job.jobId d u) hgrows rfl
      exact ⟨commits_of hok hgrows, endsDurably hok
        (hgrows.storesJob ⟨job, (pickJobFor_eq_some hpick).1, rfl⟩)⟩
  | recordHeartbeat m req now =>
      cases hp
      refine spec_heartbeat hg 0 trivial fun t _ => ?_
      obtain ⟨hok, hgrows⟩ := h.storeStep (storeStep_heartbeat db m req now t)
        (recordHeartbeat_frame m req now t db).2
      exact ⟨commits_of hok hgrows, endsDurably hok trivial⟩
  | approveWorker workerId =>
      cases hp
      have hstep : StoreStep db (approveWorker workerId db) := .same rfl rfl
      obtain ⟨hok, hgrows⟩ := h.storeStep hstep rfl
      exact spec_modifySection hg (commits_of hok hgrows) (endsDurably hok trivial)
  | assignTier workerId tier =>
      cases hp
      have hstep : StoreStep db (assignTier workerId tier db) := .same rfl rfl
      obtain ⟨hok, hgrows⟩ := h.storeStep hstep rfl
      exact spec_modifySection hg (commits_of hok hgrows) (endsDurably hok trivial)
  | removeWorker workerId now =>
      cases hp
      obtain ⟨hok, hgrows⟩ := h.storeStep
        (storeStep_runCommand 0 ⟨0, db⟩ (.removeWorker workerId now)) rfl
      exact spec_remove hg (commits_of hok hgrows) (endsDurably hok trivial)
  | settle jobId req now =>
      cases hp
      obtain ⟨hcommits, hok⟩ := diskOk_settle h jobId req now
      exact spec_settle hg hcommits
        (fun t _ => endsDurably (hok t)
          ((grows_emitAll t _ _).evidence _ _ (evidence_settle jobId req now db))) 0 trivial
  | storeProfile workerId compact now =>
      cases hp
      have hstep : StoreStep db (storeProfile workerId compact now db) := .same rfl rfl
      obtain ⟨hok, hgrows⟩ := h.storeStep hstep rfl
      exact spec_modifySection hg (commits_of hok hgrows) (endsDurably hok trivial)

/-! ## Crashes at any statement -/

/-- What the sections guarantee each other, and every restart. -/
def processContract (cfg : Config) : Locking.Contract (process cfg) (fun _ => Reported)
    (fun call past reply => Acknowledged past call reply) where
  rely := Drift fun _ => True
  guar := diskStep
  inv s := s.Clean ∧ DiskOk s.disk
  answer _ _ := True
  evidence c r s := Evidence c r s.disk
  rely_refl := drift_refl _
  rely_trans := drift_trans
  guar_refl s := ⟨id, .refl s.disk⟩
  guar_trans _ _ _ hab hbc := ⟨fun h => hbc.1 (hab.1 h), hab.2.trans hbc.2⟩
  disturb_rely _ s := ⟨rfl, rfl, fun _ => trivial⟩
  disturb_guar _ s := ⟨id, .refl s.disk⟩
  disturb_inv _ _ h := h
  crash_guar s := ⟨id, .refl s.disk⟩
  crash_inv _ _ h hs := ⟨rfl, hs.1 h.2⟩
  keeps c r _ _ h he := h.2.evidence c r he
  start call := tells_handle call
  free c hc _ _ := by
    refine ⟨trivial, ?_⟩
    cases c with
    | now => trivial
    | uuid4 => trivial
    | _ => cases hc
  body c p hp _ past s hreport hpast hinv := by
    obtain ⟨clock, mem, disk⟩ := s
    obtain ⟨hclean, hok⟩ := hinv
    obtain rfl : mem = disk := hclean
    apply Locking.wp_mono (section_durable cfg c p hp hok hreport hpast clock trivial)
    rintro x s' ⟨-, hclean', hok', r, rfl, he⟩
    exact ⟨r, rfl, ⟨hclean', hok'⟩, trivial, he⟩

theorem fresh_inv (cfg : Config) (clock : Time) :
    (processContract cfg).inv ⟨clock, .empty, .empty⟩ :=
  ⟨rfl, diskOk_empty⟩

/-- Whatever the process was doing, what a restart finds is a consistent database: the
rows satisfy the invariant of the store, the chain of the audit log verifies, and the log
names stored jobs and no completion that was not paid. Nothing committed is lost later,
and with the lock free everything is committed. -/
theorem restart_finds (cfg : Config) (clock : Time) (ms ns : List ProcessMove) :
    StoreInv (processRun cfg clock .empty ms).state.disk ∧
    verifyAuditChain (processRun cfg clock .empty ms).state.disk.events.rows =
      ⟨true, (processRun cfg clock .empty ms).state.disk.events.rows.length, none⟩ ∧
    NamesStored (processRun cfg clock .empty ms).state.disk ∧
    (completedEvents (processRun cfg clock .empty ms).state.disk.events.rows).Sublist
      ((processRun cfg clock .empty ms).state.disk.ledger.rows.map LedgerRow.recorded) ∧
    Grows (processRun cfg clock .empty ms).state.disk
      (processRun cfg clock .empty (ms ++ ns)).state.disk ∧
    ((processRun cfg clock .empty ms).lock = none →
      (processRun cfg clock .empty ms).state.mem = (processRun cfg clock .empty ms).state.disk) := by
  obtain ⟨s₁, hinv, hstep⟩ := (processContract cfg).any_time sectionOf_balanced
    (fresh_inv cfg clock) ms
  have hok : DiskOk (processRun cfg clock .empty ms).state.disk := hstep.1 hinv.2
  have hlater := (processContract cfg).later sectionOf_balanced (fresh_inv cfg clock) ms ns
  exact ⟨hok.store, verifyAuditChain_of_chained hok.decodable hok.chained, hok.names,
    hok.completions, hlater.2,
    fun hl => ((processContract cfg).free_inv sectionOf_balanced (fresh_inv cfg clock) ms hl).1⟩

/-- What a caller may rely on once it has the reply. -/
def Durable : Call → Reply → Db → Prop
  | .submit req _, .submitted jobId, db => ∃ j ∈ db.jobs, j.jobId = jobId ∧
      j.inputJson = req.input ∧ j.units = req.units
  | .foundryRoute req _, .submitted jobId, db => ∃ j ∈ db.jobs, j.jobId = jobId ∧
      j.inputJson = req.input ∧ j.units = req.units
  | .launchWorkload _ _, .launched response, db => ∀ jobId ∈ response.jobIds, StoresJob db jobId
  | .results jobId req _ _, .result response, db =>
      response.accepted = true → Paid db req.workerId jobId req.outputOrEmpty response.credited
  | _, _, _ => True

theorem Inserted.stored {past : Past} {jobId : String} {input : Dict} {units : Int}
    (h : Inserted past jobId input units) {db : Db}
    (hpast : ∀ b ∈ past, Evidence b.cmd b.answer db) :
    ∃ j ∈ db.jobs, j.jobId = jobId ∧ j.inputJson = input ∧ j.units = units := by
  obtain ⟨s, hs, rfl, rfl, rfl⟩ := h
  obtain ⟨j, hj, hid, -, hinput, hunits⟩ := hpast _ hs
  exact ⟨j, hj, hid, hinput, hunits⟩

theorem Acknowledged.durable {past : Past} {call : Call} {reply : Reply}
    (h : Acknowledged past call reply) {db : Db}
    (hpast : ∀ b ∈ past, Evidence b.cmd b.answer db) : Durable call reply db := by
  cases call with
  | submit req auth =>
      cases reply with
      | submitted jobId => exact Inserted.stored h hpast
      | _ => trivial
  | foundryRoute req auth =>
      cases reply with
      | submitted jobId => exact Inserted.stored h hpast
      | _ => trivial
  | launchWorkload req auth =>
      cases reply with
      | launched response =>
          intro jobId hj
          obtain ⟨input, units, hins⟩ := h jobId hj
          obtain ⟨j, hj, hid, -⟩ := hins.stored hpast
          exact ⟨j, hj, hid⟩
      | _ => trivial
  | results jobId req auth cert =>
      cases reply with
      | result response =>
          intro haccepted
          obtain ⟨now, hsaw⟩ := h haccepted
          exact hpast _ hsaw haccepted
      | _ => trivial
  | _ => trivial

/-- What a reply has told its caller is in the file and stays there, whatever requests,
clock changes, crashes and restarts follow: a submitted job with its input and units, the
jobs of a launched workload, an accepted result with its output and its credits. -/
theorem replies_durable (cfg : Config) (clock : Time) (ms ns : List ProcessMove) (i : Nat)
    (call : Call) (reply : Reply)
    (ht : (processRun cfg clock .empty ms).threads[i]? = some ⟨call, .ret reply⟩) :
    Durable call reply (processRun cfg clock .empty (ms ++ ns)).state.disk := by
  obtain ⟨past, hz, hpast⟩ := (processContract cfg).returned sectionOf_balanced
    (fresh_inv cfg clock) ht ns
  exact hz.durable hpast

/-- A job is submitted, statement by statement. -/
def submittedJob : List ProcessMove :=
  .spawn (.submit { kind := .render } none) :: List.replicate 23 (.run 0 0)

/-- The job is there after a crash right after the reply. -/
theorem replies_durable_submitted :
    ∃ j ∈ (processRun {} 0 .empty (submittedJob ++ [.crash])).state.disk.jobs,
      j.jobId = PyText.uuidHex 0 := by
  obtain ⟨j, hj, hid, -⟩ := replies_durable {} 0 submittedJob [.crash] 0
    (.submit { kind := .render } none) (.submitted (PyText.uuidHex 0)) rfl
  exact ⟨j, hj, hid⟩

end OneCompute
