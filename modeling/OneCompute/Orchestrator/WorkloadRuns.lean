import OneCompute.Lib.Evidence
import OneCompute.Orchestrator.JobRows
import OneCompute.Orchestrator.Launch
import OneCompute.Orchestrator.Trail
import OneCompute.Orchestrator.WorkloadView

/-!
The rows of a launched workload, along any run: they are the tiles that were built for it,
in order, and what they show as output is a result that was taken.
-/

namespace OneCompute
open Interleaving (Prog)
open Interleaving.Prog (perform Sat sat_mono sat_imp sat_bind sat_perform sat_perform_bind sat_ofExcept
  sat_mapError sat_pure sat_new)

/-! ## The jobs are the submissions -/

/-- The submission that was stored, if the answer tells of one. -/
def stored : Interleaving.Answered Cmd Ret → Option Submission
  | ⟨.insertJob s, .ok _⟩ => some s
  | _ => none

/-- The submissions that were stored along a trace. -/
def storedIn (cfg : Config) (ps : List Performed) : List Submission :=
  ps.filterMap fun p => stored (p.answered (machine cfg))

/-- What a row says of the submission it was made from. -/
def JobRow.origin (j : JobRow) : Submission × String × JobKind := (j.submission, j.jobId, j.kind)

def Submission.origin (s : Submission) : Submission × String × JobKind :=
  (s, s.manifest.jobId, s.manifest.kind)

def origins (db : Db) : List (Submission × String × JobKind) := db.jobs.rows.map JobRow.origin

theorem origins_update {db : Db} {p : JobRow → Bool} {f : JobRow → JobRow}
    (hf : ∀ r, (f r).jobId = r.jobId) (hs : ∀ r, (f r).origin = r.origin) :
    origins (db.updateJobs p f hf) = origins db := by
  change (db.jobs.rows.map fun r => if p r then f r else r).map JobRow.origin = _
  rw [List.map_map]
  refine List.map_congr_left fun r _ => ?_
  change (if p r then f r else r).origin = r.origin
  split
  · exact hs r
  · rfl

theorem origins_requeue (now : Time) (p : JobRow → Bool) (db : Db) :
    origins (requeue now p db) = origins db :=
  origins_update (f := JobRow.requeued now) (fun _ => rfl) fun _ => rfl

theorem origins_heartbeat (m : Bool) (req : HeartbeatRequest) (now clock : Time) (db : Db) :
    origins (recordHeartbeat m req now clock db) = origins db := by
  unfold recordHeartbeat
  dsimp only
  split
  · split
    · exact (origins_update (f := JobRow.extended now clock) (fun _ => rfl) fun _ => rfl).trans
        (origins_requeue _ _ _)
    · rfl
  · rfl

theorem origins_settle (jobId : String) (req : ResultRequest) (now : Time) (db : Db) :
    origins (settle jobId req now db).db = origins db := by
  have hc := settle_cases jobId req now db
  generalize settle jobId req now db = out at hc ⊢
  cases hc with
  | missing _ | notLeased _ _ _ | tooLarge _ _ _ | raised _ _ _ _ _ => rfl
  | lapsed _ _ _ _ | invalidProof _ _ _ _ | returned _ _ _ => exact origins_requeue _ _ _
  | cheated _ _ _ _ => exact origins_requeue _ _ _
  | completed job _ _ _ _ _ =>
      exact origins_update (f := JobRow.complete req.outputOrEmpty now) (fun _ => rfl) fun _ => rfl

/-- A command adds the submission it stores, and leaves the others as they are. -/
theorem origins_exec (c : Cmd) (input : Nat) (w : World) :
    origins (exec c input w).1.db =
      origins w.db ++ (stored ⟨c, (exec c input w).2⟩).toList.map Submission.origin := by
  have hjobs : origins (exec c input w).1.db = origins (runCommand input w c).db :=
    congrArg (fun t : Table JobRow.jobId => t.rows.map JobRow.origin) (emitAll_jobs _ _ _)
  rw [hjobs]
  cases c with
  | now | uuid4 | workerRow _ | activeWorkers | emit _ | query => exact (List.append_nil _).symm
  | approveWorker _ | assignTier _ _ | storeProfile _ _ _ => exact (List.append_nil _).symm
  | reapExpired | removeWorker _ _ => exact (origins_requeue _ _ _).trans (List.append_nil _).symm
  | enroll bind e =>
      refine Eq.trans ?_ (List.append_nil _).symm
      rcases enroll_cases bind e w.db with ⟨failure, -, heq⟩ | ⟨-, heq⟩ <;>
        simp only [runCommand, heq, enrolled, origins]
  | applyDerivedTier u tier =>
      refine Eq.trans ?_ (List.append_nil _).symm
      rcases applyDerivedTier_cases u tier w.db with ⟨heq, -⟩ | ⟨row, -, -, heq⟩ <;>
        simp only [runCommand, heq, Db.updateWorker, origins]
  | insertJob s =>
      rcases insertJob_cases s w.db with ⟨failure, heq⟩ | ⟨jobs, hins, -, -, heq⟩
      · simp only [exec, runCommand, heq]
        exact (List.append_nil _).symm
      · simp only [exec, runCommand, heq]
        change jobs.rows.map JobRow.origin = _
        rw [Table.rows_insert? hins, List.map_append]
        rfl
  | assignNext u cap free =>
      refine Eq.trans ?_ (List.append_nil _).symm
      have hc := assignNext_cases u cap free w.clock w.db
      simp only [runCommand]
      generalize assignNext u cap free w.clock w.db = out at hc ⊢
      cases hc with
      | busy _ | noJob _ _ | deferred _ _ _ _ => rfl
      | granted job _ _ _ =>
          exact origins_update (f := JobRow.lease u w.clock) (fun _ => rfl) fun _ => rfl
  | recordHeartbeat m req now =>
      exact (origins_heartbeat _ _ _ _ _).trans (List.append_nil _).symm
  | settle jobId req now => exact (origins_settle _ _ _ _).trans (List.append_nil _).symm

/-- The jobs of the store are the submissions of the run, in the order they were stored in. -/
theorem run_origins (cfg : Config) (clock : Time) (ms : List Move) :
    origins (run cfg clock ms).state.db =
      (storedIn cfg (runTrace cfg clock ms)).map Submission.origin := by
  apply run_induction cfg clock
    (I := fun ms w => origins w.db = (storedIn cfg (runTrace cfg clock ms)).map Submission.origin)
  · rfl
  · intro ms m p hp ih
    rw [runTrace_snoc, hp, storedIn, List.filterMap_append, List.map_append]
    refine (origins_exec p.cmd p.input p.pre).trans ?_
    rw [ih]
    have hnew : (stored (p.answered (machine cfg))).toList = storedIn cfg [p] := by
      rw [storedIn, List.filterMap_cons, List.filterMap_nil]
      cases stored (p.answered (machine cfg)) <;> rfl
    exact congrArg (fun new => (storedIn cfg (runTrace cfg clock ms)).map Submission.origin ++
      new.map Submission.origin) hnew
  · intro ms t w ih
    rw [runTrace_snoc]
    exact ih.trans (by rw [show performedAt cfg clock ms (.disturb t) = none from rfl]; simp)
  · intro ms m w hm ih
    rw [runTrace_snoc, hm]
    exact ih.trans (by simp)

/-- A row carries the identifier and the kind of its manifest. -/
theorem run_row {cfg : Config} {clock : Time} {ms : List Move} {row : JobRow}
    (h : row ∈ (run cfg clock ms).state.db.jobs) :
    row.jobId = row.manifestJson.jobId ∧ row.kind = row.manifestJson.kind := by
  have hrow : row.origin ∈ origins (run cfg clock ms).state.db := List.mem_map_of_mem h
  rw [run_origins] at hrow
  obtain ⟨s, -, hs⟩ := List.mem_map.mp hrow
  obtain ⟨rfl, hrest⟩ := Prod.mk.inj hs
  obtain ⟨hid, hkind⟩ := Prod.mk.inj hrest
  exact ⟨hid.symm, hkind.symm⟩

/-! ## Completed jobs -/

/-- The result that completed the job of this row. -/
structure TookResult (cfg : Config) (p : Performed) (row : JobRow) (req : ResultRequest)
    (now : Time) (job : JobRow) : Prop where
  accepted : ∃ response : ResultResponse, response.accepted = true ∧
    p.answered (machine cfg) = ⟨.settle row.jobId req now, .ok response⟩
  held : HeldJob row.jobId req.workerId now p.pre.db job
  row : row = job.complete req.outputOrEmpty now

/-- Completed rows were there before. -/
def NoneCompleted (db db' : Db) : Prop := ∀ j ∈ db'.jobs, j.state = .completed → j ∈ db.jobs

theorem NoneCompleted.same {db db' : Db} (h : db'.jobs = db.jobs) : NoneCompleted db db' :=
  fun _ hj _ => h ▸ hj

theorem NoneCompleted.trans {a b c : Db} (hab : NoneCompleted a b) (hbc : NoneCompleted b c) :
    NoneCompleted a c :=
  fun j hj hc => hab j (hbc j hj hc) hc

theorem NoneCompleted.update {db : Db} {p : JobRow → Bool} {f : JobRow → JobRow}
    (hf : ∀ r, (f r).jobId = r.jobId) (h : ∀ r, p r = true → (f r).state ≠ .completed) :
    NoneCompleted db (db.updateJobs p f hf) := by
  intro j' hj' hc
  obtain ⟨j, hj, rfl⟩ := (Table.mem_update hf).mp hj'
  by_cases hp : p j = true
  · rw [if_pos hp] at hc
    exact absurd hc (h j hp)
  · rw [if_neg hp]
    exact hj

theorem NoneCompleted.requeue (now : Time) (p : JobRow → Bool) (db : Db) :
    NoneCompleted db (requeue now p db) :=
  .update (f := JobRow.requeued now) (fun _ => rfl) fun _ _ => by simp [JobRow.requeued]

theorem NoneCompleted.extend (w jobId : String) (now clock : Time) (db : Db) :
    NoneCompleted db (extendLease w jobId now clock db) := by
  refine .update (f := JobRow.extended now clock) (fun _ => rfl) fun j hj => ?_
  simp only [Bool.and_eq_true, leasedTo_iff] at hj
  simp [JobRow.extended, hj.1.2.1]

theorem NoneCompleted.heartbeat (m : Bool) (req : HeartbeatRequest) (now clock : Time) (db : Db) :
    NoneCompleted db (recordHeartbeat m req now clock db) := by
  have hbeat : NoneCompleted db (db.updateWorker req.workerId (WorkerRow.beat m req now)
      (beat_workerId m req now)) := .same rfl
  unfold recordHeartbeat
  dsimp only
  split
  · split
    · exact hbeat.trans ((NoneCompleted.requeue now _ _).trans (.extend _ _ _ _ _))
    · exact hbeat
  · exact hbeat

/-- A completed row was there before a command, or the command is the result it took. -/
theorem completed_post {cfg : Config} {p : Performed} {row : JobRow}
    (hrow : row ∈ (p.post (machine cfg)).db.jobs) (hc : row.state = .completed) :
    row ∈ p.pre.db.jobs ∨ ∃ req now job, TookResult cfg p row req now job := by
  obtain ⟨thread, call, past, cmd, input, pre⟩ := p
  have hjobs : (exec cmd input pre).1.db.jobs = (runCommand input pre cmd).db.jobs :=
    emitAll_jobs _ _ _
  change row ∈ (exec cmd input pre).1.db.jobs at hrow
  rw [hjobs] at hrow
  have hold : NoneCompleted pre.db (runCommand input pre cmd).db → row ∈ pre.db.jobs :=
    fun h => h row hrow hc
  cases cmd with
  | now | uuid4 | workerRow _ | activeWorkers | emit _ | query => exact .inl (hold (.same rfl))
  | approveWorker _ | assignTier _ _ | storeProfile _ _ _ => exact .inl (hold (.same rfl))
  | reapExpired | removeWorker _ _ => exact .inl (hold (.requeue _ _ _))
  | enroll bind e =>
      refine .inl (hold (.same ?_))
      rcases enroll_cases bind e pre.db with ⟨failure, -, heq⟩ | ⟨-, heq⟩ <;>
        simp only [runCommand, heq, enrolled]
  | applyDerivedTier u tier =>
      refine .inl (hold (.same ?_))
      rcases applyDerivedTier_cases u tier pre.db with ⟨heq, -⟩ | ⟨row, -, -, heq⟩ <;>
        simp only [runCommand, heq, Db.updateWorker]
  | insertJob s =>
      rcases insertJob_cases s pre.db with ⟨failure, heq⟩ | ⟨jobs, hins, -, -, heq⟩
      · refine .inl (hold (.same ?_))
        simp only [runCommand, heq]
      · simp only [runCommand, heq] at hrow
        cases (Table.mem_insert? hins).mp hrow with
        | inl hrow => exact .inl hrow
        | inr hnew =>
            rw [hnew] at hc
            cases hc
  | assignNext u cap free =>
      refine .inl (hold ?_)
      have hcases := assignNext_cases u cap free pre.clock pre.db
      simp only [runCommand]
      generalize assignNext u cap free pre.clock pre.db = out at hcases ⊢
      cases hcases with
      | busy _ | noJob _ _ | deferred _ _ _ _ => exact .same rfl
      | granted job _ _ _ =>
          exact .update (f := JobRow.lease u pre.clock) (fun _ => rfl) fun _ _ => by
            simp [JobRow.lease]
  | recordHeartbeat m req now => exact .inl (hold (.heartbeat _ _ _ _ _))
  | settle jobId req now =>
      have hcases := settle_cases jobId req now pre.db
      have hanswer : (exec (.settle jobId req now) input pre).2 = (settle jobId req now pre.db).answer :=
        rfl
      simp only [runCommand] at hrow hold
      generalize settle jobId req now pre.db = out at hcases hrow hold hanswer
      cases hcases with
      | missing _ | notLeased _ _ _ | tooLarge _ _ _ | raised _ _ _ _ _ => exact .inl (hold (.same rfl))
      | lapsed _ _ _ _ | invalidProof _ _ _ _ | returned _ _ _ => exact .inl (hold (.requeue _ _ _))
      | cheated _ _ _ _ =>
          have hblack : NoneCompleted pre.db (blacklistWorker req.workerId pre.db) := .same rfl
          exact .inl (hold (hblack.trans (.requeue _ _ _)))
      | completed job held _ _ _ _ =>
          obtain ⟨j, hj, rfl⟩ := mem_completeJob.mp hrow
          split at hc
          next hp =>
            rw [if_pos hp]
            simp only [Bool.and_eq_true, decide_eq_true_eq] at hp
            obtain ⟨rfl, -⟩ := hp
            obtain rfl : j = job := Option.some.inj ((Table.find?_of_mem hj).symm.trans held.found)
            refine .inr ⟨req, now, j, ⟨⟨true, creditsFor j, none⟩, rfl, ?_⟩, ?_, ?_⟩
            · exact congrArg (Interleaving.Answered.mk (Cmd.settle j.jobId req now)) hanswer
            · exact held
            · rfl
          next hp =>
            rw [if_neg hp]
            exact .inl hj

theorem run_completed (cfg : Config) (clock : Time) (ms : List Move) :
    ∀ row ∈ (run cfg clock ms).state.db.jobs, row.state = .completed →
      ∃ p ∈ runTrace cfg clock ms, ∃ req now job, TookResult cfg p row req now job := by
  apply run_induction cfg clock (I := fun ms w => ∀ row ∈ w.db.jobs, row.state = .completed →
    ∃ p ∈ runTrace cfg clock ms, ∃ req now job, TookResult cfg p row req now job)
  · exact fun row hrow => absurd hrow (Table.not_mem_empty row)
  · intro ms m p hp ih row hrow hc
    cases completed_post hrow hc with
    | inl hold =>
        obtain ⟨q, hq, hrest⟩ := ih row hold hc
        exact ⟨q, runTrace_mono hq _, hrest⟩
    | inr hnew =>
        refine ⟨p, ?_, hnew⟩
        rw [runTrace_snoc, hp]
        exact List.mem_append_right _ (List.mem_singleton_self p)
  · intro ms t w ih row hrow hc
    obtain ⟨q, hq, hrest⟩ := ih row hrow hc
    exact ⟨q, runTrace_mono hq _, hrest⟩
  · intro ms m w _ ih row hrow hc
    obtain ⟨q, hq, hrest⟩ := ih row hrow hc
    exact ⟨q, runTrace_mono hq _, hrest⟩

/-! ## What a launch enqueues -/

/-- A workload identifier that a submission carries was drawn by the same request. -/
def Drawn (past : Past) : Cmd → Prop
  | .insertJob s => ∀ w, s.workloadId = some w → Saw past .uuid4 w
  | _ => True

/-- What a request has stored so far, newest first. -/
def enqueued (past : Past) : List Submission := past.filterMap stored

structure Submission.Fills (s : Submission) (workloadId : String) (tile : SubmitRequest) :
    Prop where
  kind : s.manifest.kind = tile.kind
  input : s.input = tile.input
  units : s.units = tile.units
  workload : s.workloadId = some workloadId

/-- The launch built these tiles and stored one submission for each. -/
structure Launched (cfg : Config) (req : WorkloadLaunchRequest) (past : Past)
    (response : WorkloadLaunchResponse) (tiles : List SubmitRequest) (ss : List Submission) :
    Prop where
  built : ∃ n workers, Saw past .activeWorkers workers ∧
    cfg.buildWorkloadJobs req.kind n req.params (capabilityTileWeights workers n) =
      .ok (tiles.map .ok)
  drawn : Saw past .uuid4 response.workloadId
  filled : List.Forall₂ (fun tile s => s.Fills response.workloadId tile) tiles ss
  jobIds : response.jobIds = ss.map fun s => s.manifest.jobId
  stored : enqueued past = ss.reverse

def LaunchReturns (cfg : Config) (past : Past) : Call → Reply → Prop
  | .launchWorkload req _, .launched response => ∃ tiles ss, Launched cfg req past response tiles ss
  | _, _ => True

abbrev Draws (past : Past) {A : Type} (p : Handler A) (post : Past → A → Prop) : Prop :=
  p.Sat Drawn Truthful past post

section Draws
variable {cfg : Config} {past : Past}

/-- A part of a request that may issue no submission. -/
theorem draws_of_keeps {A : Type} {p : Handler A} {Φ : Past → A → Prop}
    (h : Keeps cfg (.operatorRead 0 none) past p Φ) :
    Draws past p fun past' a => Φ past' a ∧ past <:+ past' ∧ enqueued past' = enqueued past := by
  have hnone : ∀ past c, Issued cfg (.operatorRead 0 none) past c →
      ∀ r : Ret c, stored ⟨c, r⟩ = none := by
    intro past c hc r
    cases c with
    | insertJob s => exact hc.2.2.elim
    | _ => rfl
  refine sat_imp (sat_new h hnone) (fun past' c hc => ?_) ?_
  · cases c with
    | insertJob s => exact hc.2.2.elim
    | _ => trivial
  · rintro past' a ⟨ha, new, rfl, hnew⟩
    refine ⟨ha, List.suffix_append _ _, ?_⟩
    rw [enqueued, List.filterMap_append, List.filterMap_eq_nil_iff.mpr]
    · rfl
    · exact fun b hb => hnew b hb b.answer

theorem draws_emitEvent {type : String} {w j d : Option String} :
    Draws past (emitEvent type w j d) fun past' _ =>
      past <:+ past' ∧ enqueued past' = enqueued past :=
  sat_perform trivial fun _ _ => ⟨List.suffix_cons _ _, rfl⟩

theorem draws_ofExcept {A : Type} {x : Except Failure A} {f : Failure → Failure} :
    Draws past ((Prog.ofExcept x : Handler A).mapError f) fun past' a =>
      x = .ok a ∧ past' = past :=
  sat_mapError (sat_ofExcept fun _ h => ⟨h, rfl⟩)

theorem draws_submitJob {req : SubmitRequest} {workloadId : Option String}
    {provenance : Option RoutingProvenance} (hw : ∀ w, workloadId = some w → Saw past .uuid4 w) :
    Draws past (submitJob cfg req workloadId provenance) fun past' jobId =>
      past <:+ past' ∧ ∃ s : Submission, enqueued past' = s :: enqueued past ∧
        s.manifest.jobId = jobId ∧ s.manifest.kind = req.kind ∧ s.input = req.input ∧
        s.units = req.units ∧ s.workloadId = workloadId := by
  unfold submitJob
  split
  · trivial
  · apply sat_perform_bind trivial
    intro jobId _
    have hencodes : Draws (⟨.uuid4, jobId⟩ :: past) (requireEncodes cfg req.input)
        fun past' _ => past' = ⟨.uuid4, jobId⟩ :: past := by
      unfold requireEncodes
      split
      · exact sat_pure rfl
      · trivial
    apply sat_bind hencodes
    rintro _ _ - rfl
    apply sat_perform_bind trivial
    intro issuedAt _
    apply sat_perform_bind trivial
    intro now _
    apply sat_perform_bind
    · exact fun w h => (hw w h).later
        (List.suffix_append ([⟨.now, now⟩, ⟨.now, issuedAt⟩, ⟨.uuid4, jobId⟩] : Past) past)
    intro answer _
    cases answer with
    | error failure => trivial
    | ok u =>
        refine sat_pure ⟨?_, _, rfl, rfl, rfl, rfl, rfl, rfl⟩
        exact List.suffix_append ([_, ⟨.now, now⟩, ⟨.now, issuedAt⟩, ⟨.uuid4, jobId⟩] : Past) past

theorem draws_launchTiles {kind workloadId : String} {specs : List (Except String SubmitRequest)}
    (hw : Saw past .uuid4 workloadId) :
    Draws past (launchTiles cfg kind workloadId specs) fun past' jobIds =>
      past <:+ past' ∧ ∃ tiles ss, specs = tiles.map .ok ∧
        List.Forall₂ (fun tile s => Submission.Fills s workloadId tile) tiles ss ∧
        jobIds = ss.map (fun s => s.manifest.jobId) ∧
        enqueued past' = ss.reverse ++ enqueued past := by
  induction specs generalizing past with
  | nil => exact sat_pure ⟨List.suffix_refl _, [], [], rfl, .nil, rfl, rfl⟩
  | cons spec rest ih =>
      cases spec with
      | error text => trivial
      | ok sub =>
          apply sat_bind (draws_submitJob fun w h => (Option.some.inj h) ▸ hw)
          rintro past₁ jobId - ⟨hpast₁, s, hs, rfl, hkind, hinput, hunits, hworkload⟩
          apply sat_bind draws_emitEvent
          rintro past₂ _ - ⟨hpast₂, henq⟩
          apply sat_bind (ih ((hw.later hpast₁).later hpast₂))
          rintro past₃ jobIds - ⟨hpast₃, tiles, ss, rfl, hfilled, rfl, hss⟩
          refine sat_pure ⟨(hpast₁.trans hpast₂).trans hpast₃, sub :: tiles, s :: ss, rfl,
            .cons ⟨hkind, hinput, hunits, hworkload⟩ hfilled, rfl, ?_⟩
          rw [hss, henq, hs, List.reverse_cons, List.append_assoc]
          rfl

theorem draws_launchWorkload {req : WorkloadLaunchRequest} {auth : Option String} :
    Draws [] (launchWorkload cfg req auth) fun past reply =>
      LaunchReturns cfg past (.launchWorkload req auth) reply := by
  apply sat_bind (@draws_of_keeps cfg _ _ _ _ keeps_requireParsed)
  rintro past₁ _ - ⟨-, -, henq₁⟩
  apply sat_bind (draws_of_keeps keeps_requireSubmitToken)
  rintro past₂ _ - ⟨-, -, henq₂⟩
  split
  · trivial
  · apply sat_bind (@draws_of_keeps cfg _ _ _ _ keeps_resolveTileCount)
    rintro past₃ nTiles - ⟨-, -, henq₃⟩
    apply sat_perform_bind trivial
    intro workers _
    apply sat_bind draws_ofExcept
    rintro _ specs - ⟨hspecs, rfl⟩
    apply sat_perform_bind trivial
    intro workloadId _
    apply sat_bind (draws_launchTiles saw_now)
    rintro past₄ jobIds - ⟨hpast₄, tiles, ss, rfl, hfilled, rfl, hss⟩
    refine sat_pure ⟨tiles, ss, ⟨nTiles, workers, ?_, hspecs⟩, saw_now.later hpast₄, hfilled, rfl, ?_⟩
    · exact (saw_now.later (List.suffix_cons _ _)).later hpast₄
    · rw [hss]
      change ss.reverse ++ enqueued past₃ = _
      rw [henq₃, henq₂, henq₁]
      exact List.append_nil _

theorem draws_submit {req : SubmitRequest} {auth : Option String} :
    Draws past (submit cfg req auth) fun _ _ => True := by
  apply sat_bind (@draws_of_keeps cfg _ _ _ _ keeps_requireParsed)
  intro _ _ _ _
  apply sat_bind (draws_of_keeps keeps_requireSubmitToken)
  intro _ _ _ _
  apply sat_bind (sat_mapError (draws_submitJob fun _ h => by cases h))
  intro _ _ _ _
  exact sat_bind draws_emitEvent fun _ _ _ _ => trivial

theorem draws_foundryRoute {req : FoundryRoutingRequest} {auth : Option String} :
    Draws past (foundryRoute cfg req auth) fun _ _ => True := by
  apply sat_bind (@draws_of_keeps cfg _ _ _ _ keeps_requireParsed)
  intro _ _ _ _
  apply sat_bind (draws_of_keeps keeps_authenticateFoundryTenant)
  intro _ tenant _ _
  dsimp only
  split
  · exact sat_bind draws_emitEvent fun _ _ _ _ => trivial
  · split
    · exact sat_bind draws_emitEvent fun _ _ _ _ => trivial
    · apply sat_bind (sat_mapError (draws_submitJob fun _ h => by cases h))
      intro _ _ _ _
      exact sat_bind draws_emitEvent fun _ _ _ _ => trivial

/-- The other calls store no submission. -/
theorem draws_of_noEnqueue {call : Call} (h : ∀ s, ¬ Enqueues cfg call s)
    (hreturns : ∀ past reply, LaunchReturns cfg past call reply) :
    Draws [] (handle cfg call) fun past reply => LaunchReturns cfg past call reply := by
  refine sat_imp (keeps_handle call) (fun past c hc => ?_) fun past reply _ => hreturns past reply
  cases c with
  | insertJob s => exact absurd hc.2.2 (h s)
  | _ => trivial

theorem draws_handle (call : Call) :
    Draws [] (handle cfg call) fun past reply => LaunchReturns cfg past call reply := by
  cases call with
  | submit req auth => exact sat_mono draws_submit fun _ _ _ _ => trivial
  | foundryRoute req auth => exact sat_mono draws_foundryRoute fun _ _ _ _ => trivial
  | launchWorkload req auth => exact draws_launchWorkload
  | _ => exact draws_of_noEnqueue (fun _ h => h) fun _ _ => trivial

end Draws

/-! ## The rows of a workload -/

theorem drawing (cfg : Config) :
    Interleaving.Discipline (machine cfg) (fun w => RowsNamed w.db) (fun _ => Drawn) Truthful
      (fun call past reply => LaunchReturns cfg past call reply) :=
  ⟨draws_handle, fun c input w h => truthful_exec c input w h⟩

/-- In the run no other request draws the identifier that thread `i` drew. -/
def DrawnOnce (cfg : Config) (clock : Time) (ms : List Move) (i : Nat) (workloadId : String) :
    Prop :=
  ∀ p ∈ runTrace cfg clock ms, p.answered (machine cfg) = ⟨.uuid4, workloadId⟩ → p.thread = i

/-- Who stores a job under a workload has drawn its identifier. -/
theorem run_grouped {cfg : Config} {clock : Time} {ms : List Move} {i : Nat} {workloadId : String}
    (hdrawn : DrawnOnce cfg clock ms i workloadId) {p : Performed} (hp : p ∈ runTrace cfg clock ms)
    {s : Submission} (hs : p.cmd = .insertJob s) (hw : s.workloadId = some workloadId) :
    p.thread = i := by
  obtain ⟨before, m, after, rfl, hperf⟩ := Interleaving.mem_trace hp
  obtain ⟨hdraws, hpast⟩ := (drawing cfg).performed (rowsNamed_invariant cfg) rowsNamed_empty hperf
  rw [hs] at hdraws
  obtain ⟨q, hq, hthread, -, hanswered⟩ := hpast _ (hdraws _ hw)
  rw [← hthread]
  exact hdrawn q (runTrace_mono hq _) hanswered

theorem stored_eq_some {b : Interleaving.Answered Cmd Ret} {s : Submission}
    (h : stored b = some s) : b.cmd = .insertJob s := by
  unfold stored at h
  split at h
  · cases h
    rfl
  · cases h

/-- What is stored under a workload, in order, is what the thread that drew its identifier
stored. -/
theorem storedIn_workload {cfg : Config} {clock : Time} {ms : List Move} {i : Nat}
    {workloadId : String} {t : Interleaving.Thread Cmd Ret Failure Reply Call}
    (ht : (run cfg clock ms).threads[i]? = some t)
    (hdrawn : DrawnOnce cfg clock ms i workloadId)
    (hall : ∀ s ∈ enqueued t.past, s.workloadId = some workloadId) :
    (storedIn cfg (runTrace cfg clock ms)).filter (fun s => decide (s.workloadId = some workloadId)) =
      (enqueued t.past).reverse := by
  have hpast : ((runTrace cfg clock ms).filter fun p => decide (p.thread = i)).map
      (Interleaving.Performed.answered (machine cfg)) = t.past.reverse :=
    Interleaving.past_eq_trace _ ms ht
  rw [enqueued, ← List.filterMap_reverse, ← hpast, List.filterMap_map, List.filterMap_filter,
    storedIn, List.filter_filterMap]
  refine List.filterMap_congr fun p hp => ?_
  simp only [Function.comp_apply, decide_eq_true_eq]
  cases hs : stored (p.answered (machine cfg)) with
  | none => simp
  | some s =>
      by_cases hi : p.thread = i
      · have hmem : p.answered (machine cfg) ∈ t.past := by
          rw [← List.mem_reverse, ← hpast]
          exact List.mem_map_of_mem (List.mem_filter.mpr ⟨hp, decide_eq_true hi⟩)
        have hw := hall s (List.mem_filterMap.mpr ⟨_, hmem, hs⟩)
        simp [hi, hw, Option.filter]
      · have hw : s.workloadId ≠ some workloadId :=
          fun hw => hi (run_grouped hdrawn hp (stored_eq_some hs) hw)
        simp [hi, hw, Option.filter]

/-- A row of the workload holds a tile. -/
structure JobRow.Holds (row : JobRow) (tile : SubmitRequest) : Prop where
  kind : row.kind = tile.kind
  input : row.inputJson = tile.input
  units : row.units = tile.units

theorem holds_rows {workloadId : String} {tiles : List SubmitRequest} {ss : List Submission}
    {rows : List JobRow}
    (hfilled : List.Forall₂ (fun tile s => Submission.Fills s workloadId tile) tiles ss)
    (horigin : rows.map JobRow.origin = ss.map Submission.origin) :
    List.Forall₂ (fun tile row => JobRow.Holds row tile) tiles rows := by
  induction hfilled generalizing rows with
  | nil =>
      obtain rfl := List.map_eq_nil_iff.mp horigin
      exact .nil
  | @cons tile s tiles ss hfill _ ih =>
      cases rows with
      | nil => cases horigin
      | cons row rows =>
          obtain ⟨hrow, hrows⟩ := List.cons.inj horigin
          obtain ⟨hs, hrest⟩ := Prod.mk.inj hrow
          have hkind : row.kind = s.manifest.kind := (Prod.mk.inj hrest).2
          refine .cons ⟨hkind.trans hfill.kind, ?_, ?_⟩ (ih hrows)
          · exact (congrArg Submission.input hs).trans hfill.input
          · exact (congrArg Submission.units hs).trans hfill.units

section Launch
variable {cfg : Config} {clock : Time} {ms : List Move} {i : Nat} {req : WorkloadLaunchRequest}
  {auth : Option String} {past : Past} {response : WorkloadLaunchResponse}

/-- At any time after a launch the rows of its workload are its tiles, in order. -/
theorem run_workload (hret : (run cfg clock ms).threads[i]? =
      some ⟨.launchWorkload req auth, past, .ret (.launched response)⟩) (ns : List Move)
    (hdrawn : DrawnOnce cfg clock (ms ++ ns) i response.workloadId) :
    ∃ n workers tiles, Saw past .activeWorkers workers ∧
      cfg.buildWorkloadJobs req.kind n req.params (capabilityTileWeights workers n) =
        .ok (tiles.map .ok) ∧
      ∃ rows, rows = (run cfg clock (ms ++ ns)).state.db.jobs.rows.filter
          (fun j => decide (j.workloadId = some response.workloadId)) ∧
        rows.map (·.jobId) = response.jobIds ∧
        List.Forall₂ (fun tile row => JobRow.Holds row tile) tiles rows := by
  obtain ⟨⟨tiles, ss, hlaunched⟩, -⟩ :=
    (drawing cfg).returned (rowsNamed_invariant cfg) rowsNamed_empty hret
  obtain ⟨n, workers, hworkers, hbuilt⟩ := hlaunched.built
  have hlater : (run cfg clock (ms ++ ns)).threads[i]? =
      some ⟨.launchWorkload req auth, past, .ret (.launched response)⟩ := by
    rw [run, Interleaving.runs_append]
    exact Interleaving.runs_returned hret ns
  have hall : ∀ s ∈ enqueued past, s.workloadId = some response.workloadId := by
    intro s hs
    rw [hlaunched.stored, List.mem_reverse] at hs
    obtain ⟨tile, -, hfill⟩ := Results.forall₂_mem_right hlaunched.filled hs
    exact hfill.workload
  have hstored := storedIn_workload hlater hdrawn hall
  rw [hlaunched.stored, List.reverse_reverse] at hstored
  have horigins := run_origins cfg clock (ms ++ ns)
  have hrows : ((run cfg clock (ms ++ ns)).state.db.jobs.rows.filter
      (fun j => decide (j.workloadId = some response.workloadId))).map JobRow.origin =
        ss.map Submission.origin := by
    have hfilter := congrArg (List.filter fun o : Submission × String × JobKind =>
      decide (o.1.workloadId = some response.workloadId)) horigins
    rw [origins, List.filter_map, List.filter_map] at hfilter
    exact hfilter.trans (congrArg (List.map Submission.origin) hstored)
  refine ⟨n, workers, tiles, hworkers, hbuilt, _, rfl, ?_, holds_rows hlaunched.filled hrows⟩
  have hids := congrArg (List.map fun o : Submission × String × JobKind => o.2.1) hrows
  rw [List.map_map, List.map_map] at hids
  rw [hlaunched.jobIds]
  exact hids

end Launch

end OneCompute
