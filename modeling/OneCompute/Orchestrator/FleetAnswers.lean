import OneCompute.Lib.Lockstep
import OneCompute.Orchestrator.Answers
import OneCompute.Worker.Agent

/-!
Agents as the clients of the orchestrator: when whoever posts a result is an agent that was
handed the job and ran it, a launched workload is answered by what the executors compute.
-/

namespace OneCompute
open PyNumber (binary64)
open Worker (Execution WorkerAgent runJob runAccepted)
open Jobkit (Objective)
open Workloads (Platform HashArguments HashWinner IsAnswer IsOptimum OptimumArguments Solves TileRan
  Winner Fits aggregateWorkload)

/-! ## What agents report -/

/-- An output that says that its executor gave the machine back before it was done. -/
def yieldedOutput (output : Dict) : Bool := ((Json.lookup output "yielded").map Worker.truthy).getD false

/-- A completed result carries what the execution of the assignment has put out. -/
theorem runAccepted_completed {agent : WorkerAgent} {x : Execution} {duration : PyFloat}
    {assignment : JobAssignment} {req : ResultRequest}
    (h : (runAccepted agent x duration assignment).result = .ok req) (hc : req.status = .completed) :
    ∃ output, Worker.execute agent x assignment.signedManifest.manifest assignment.input = .ok output ∧
      yieldedOutput output = false ∧ req.output = some output := by
  unfold runAccepted at h
  dsimp only at h
  cases hunits : Worker.unitsOf assignment.input with
  | error e =>
      rw [hunits] at h
      cases h
  | ok units =>
      rw [hunits] at h
      cases hrun : Worker.execute agent x assignment.signedManifest.manifest assignment.input with
      | error failure =>
          rw [hrun] at h
          cases failure <;> (cases h; cases hc)
      | ok output =>
          rw [hrun] at h
          dsimp only at h
          split at h
          · cases h
            cases hc
          next hyielded =>
            cases h
            exact ⟨output, rfl, Bool.eq_false_of_not_eq_true hyielded, rfl⟩

theorem runJob_completed {ed25519 : Verify} {manifestBytes : JobManifest → List UInt8}
    {agent : WorkerAgent} {x : Execution} {now : Time} {duration : PyFloat}
    {assignment : JobAssignment} {req : ResultRequest}
    (h : (runJob ed25519 manifestBytes agent x now duration assignment).result = .ok req)
    (hc : req.status = .completed) :
    ∃ output, Worker.execute agent x assignment.signedManifest.manifest assignment.input = .ok output ∧
      yieldedOutput output = false ∧ req.output = some output := by
  unfold runJob at h
  split at h
  · split at h
    · exact runAccepted_completed h hc
    · cases h
    · cases h
      cases hc
  · exact runAccepted_completed h hc

/-- Agents, each with what it may execute jobs with. -/
abbrev AgentFleet := WorkerAgent → Execution → Prop

section AgentFleet
variable (fleet : AgentFleet) (cfg : Config) (clock : Time)

/-- Some poll has been answered with the assignment. -/
def HandedOut (s : Sys) (assignment : JobAssignment) : Prop :=
  ∃ (i : Nat) (w : String) (auth cert : Option String) (past : Past),
    s.threads[i]? = some ⟨.jobsNext w auth cert, past, .ret (.assignment assignment)⟩

/-- An agent of the fleet reports `req` for an assignment that was handed out. -/
def Posts (s : Sys) (req : ResultRequest) : Prop :=
  ∃ (agent : WorkerAgent) (x : Execution) (now : Time) (duration : PyFloat)
    (assignment : JobAssignment), fleet agent x ∧ HandedOut s assignment ∧
    (runJob cfg.ed25519 cfg.manifestBytes agent x now duration assignment).result = .ok req

/-- The results of the run are posted by agents of the fleet: late, again or never, but each
for an assignment that was handed out before. -/
def AgentsReport (ms : List Move) : Prop :=
  ∀ k jobId req auth cert, ms[k]? = some (.spawn (.results jobId req auth cert)) →
    Posts fleet cfg (run cfg clock (ms.take k)) req

/-- What the fleet puts out for a job that ran to its end. -/
def Computed (computes : JobKind → Dict → Dict → Prop) : Prop :=
  ∀ agent x manifest input output, fleet agent x →
    Worker.execute agent x manifest input = .ok output → yieldedOutput output = false →
      computes manifest.kind input output

end AgentFleet

/-! ## The job that was handed out -/

/-- A job that was handed out is the one that is stored. -/
def GrantedStored : (c : Cmd) → Ret c → World → Prop
  | .assignNext _ _ _, .granted job, w => job.origin ∈ origins w.db
  | _, _, _ => True

theorem origins_grow (c : Cmd) (input : Nat) {w : World} {o : Submission × String × JobKind}
    (h : o ∈ origins w.db) : o ∈ origins (exec c input w).1.db := by
  rw [origins_exec]
  exact List.mem_append_left _ h

theorem granting (cfg : Config) : Interleaving.Witnessing (machine cfg) (fun _ => True)
    GrantedStored where
  given c input w _ := by
    cases c with
    | assignNext v cap free =>
        change GrantedStored (.assignNext v cap free) (assignNext v cap free w.clock w.db).answer _
        cases hanswer : (assignNext v cap free w.clock w.db).answer with
        | granted job =>
            exact origins_grow (.assignNext v cap free) input
              (List.mem_map_of_mem (granted_stored hanswer))
        | _ => trivial
    | _ => trivial
  kept c input w d r h := by
    cases d with
    | assignNext v cap free =>
        cases r with
        | granted job => exact origins_grow c input h
        | _ => trivial
    | _ => trivial
  undisturbed t w d r h := by
    cases d with
    | assignNext v cap free =>
        cases r with
        | granted job => exact h
        | _ => trivial
    | _ => trivial

/-- A stored job under the identifier of one that was handed out has its input and kind. -/
theorem stored_granted {cfg : Config} {clock : Time} {ms : List Move} {v : String}
    {cap : Capability} {free : Option PyFloat} {job row : JobRow} {q : Performed}
    (hq : q ∈ runTrace cfg clock ms)
    (hanswered : q.answered (machine cfg) = ⟨.assignNext v cap free, .granted job⟩)
    (hrow : row ∈ (run cfg clock ms).state.db.jobs) (hid : row.jobId = job.manifestJson.jobId) :
    row.inputJson = job.inputJson ∧ row.kind = job.manifestJson.kind := by
  have htold := (granting cfg).told ⟨fun _ _ _ _ => trivial, fun _ _ _ => trivial⟩ trivial ms q hq
  have hstored : GrantedStored (q.answered (machine cfg)).cmd (q.answered (machine cfg)).answer
      (run cfg clock ms).state := htold
  rw [hanswered] at hstored
  obtain ⟨row', hrow', horigin⟩ := List.mem_map.mp hstored
  obtain ⟨hsubmission, hrest⟩ := Prod.mk.inj horigin
  have hmanifest : row'.manifestJson = job.manifestJson := congrArg Submission.manifest hsubmission
  obtain ⟨hid', hkind'⟩ := run_row hrow'
  rw [hmanifest] at hid' hkind'
  obtain rfl : row = row' := Table.eq_of_key_eq hrow hrow' (hid.trans hid'.symm)
  exact ⟨congrArg Submission.input hsubmission, hkind'⟩

/-! ## Honest results -/

/-- A result that was accepted says that the job was completed. -/
theorem settle_status {cfg : Config} {p : Performed} {jobId : String} {req : ResultRequest}
    {now : Time} {response : ResultResponse}
    (h : p.answered (machine cfg) = ⟨.settle jobId req now, .ok response⟩)
    (haccepted : response.accepted = true) : req.status = .completed := by
  obtain ⟨thread, call, past, cmd, input, pre⟩ := p
  obtain rfl : cmd = .settle jobId req now := congrArg Interleaving.Answered.cmd h
  have hanswer : (settle jobId req now pre.db).answer = .ok response :=
    eq_of_heq (Interleaving.Answered.mk.inj h).2
  have hc := settle_cases jobId req now pre.db
  generalize settle jobId req now pre.db = out at hc hanswer
  cases hc with
  | completed _ _ hstatus _ _ _ => exact hstatus
  | missing _ | raised _ _ _ _ _ => cases hanswer
  | notLeased _ _ _ | lapsed _ _ _ _ | tooLarge _ _ _ =>
      rw [← Except.ok.inj hanswer] at haccepted
      exact absurd haccepted Bool.false_ne_true
  | invalidProof _ _ _ _ | cheated _ _ _ _ | returned _ _ _ =>
      rw [← Except.ok.inj hanswer] at haccepted
      exact absurd haccepted Bool.false_ne_true

/-- Whatever the agents of a fleet report is what their executors compute. -/
theorem agents_honest {fleet : AgentFleet} {cfg : Config} {clock : Time} {ms : List Move}
    (jobIds : List String) {computes : JobKind → Dict → Dict → Prop}
    (hreport : AgentsReport fleet cfg clock ms) (hcomputes : Computed fleet computes) :
    HonestResults cfg clock ms jobIds computes := by
  intro p hp jobId req now response hanswered haccepted _ row hrow hid
  obtain ⟨before, m, after, rfl, hperf⟩ := Interleaving.mem_trace hp
  have hcmd : p.cmd = .settle jobId req now := congrArg Interleaving.Answered.cmd hanswered
  obtain ⟨hissued, -⟩ := run_issued hperf
  rw [hcmd] at hissued
  obtain ⟨auth, cert, -, hcall, hreqId, -⟩ := hissued
  -- the request was made for an assignment that was there when it came
  obtain ⟨k, hthread, -⟩ := Interleaving.performed_thread (M := machine cfg) hperf
  obtain ⟨start, rest, hstart⟩ := List.append_of_mem (Interleaving.runs_spawned before hthread)
  rw [hcall] at hstart
  obtain ⟨agent, x, t, duration, assignment, hfleet, ⟨i, w, auth', cert', past, hpoll⟩, hrun⟩ :=
    hreport start.length jobId req auth cert (by rw [hstart]; simp)
  rw [hstart, List.append_assoc, List.take_left] at hpoll
  obtain ⟨output, hexecuted, hyielded, houtput⟩ := runJob_completed hrun (settle_status hanswered haccepted)
  -- and the assignment is the job that is stored
  obtain ⟨⟨worker, cap, job, -, hsaw, rfl⟩, hseen⟩ := run_ended hpoll
  obtain ⟨q, hq, -, -, hgranted⟩ := hseen _ _ hsaw
  have hq' : q ∈ runTrace cfg clock before := by
    rw [hstart]
    exact runTrace_mono hq _
  have hpre : p.pre = (run cfg clock before).state := Interleaving.performed_pre hperf
  rw [hpre] at hrow
  have hjob : row.jobId = job.manifestJson.jobId :=
    hid.trans (hreqId.symm.trans (Worker.runJob_names hrun).2)
  obtain ⟨hinput, hkind⟩ := stored_granted hq' hgranted hrow hjob
  have hout : req.outputOrEmpty = output := by
    unfold ResultRequest.outputOrEmpty
    rw [houtput]
    rfl
  rw [hinput, hkind, hout]
  exact hcomputes agent x _ _ output hfleet hexecuted hyielded

/-! ## A fleet that serves one launch -/

def jobKinds : List JobKind :=
  [.aiBatchInfer, .eval, .dataTransform, .render, .challenge, .fractal, .optimize, .aiSynth,
    .montecarlo, .hashcrack, .aiInfer, .aiEval, .aiGraph]

/-- The validation of specifications that are well-formed. -/
def takeSpec (spec : Dict) : Except String SubmitRequest :=
  match Json.lookup spec "kind", Json.lookup spec "input", Json.lookup spec "units" with
  | some (.str text), some (.obj input), some (.int units) =>
      match jobKinds.find? fun kind => decide (kind.text = text) with
      | some kind => .ok { kind := kind, input := input, units := units }
      | none => .error "validation error"
  | _, _, _ => .error "validation error"

theorem takeSpec_validates : Validates takeSpec := by
  intro kind input units
  cases kind <;> rfl

def fleetConfig : Config :=
  { ({} : Config) with manifestBytes := JobManifest.dump }.building binary64.sum takeSpec

/-- The prefix and the first nonce are left to the builder. -/
def hashLaunch : WorkloadLaunchRequest :=
  { kind := "hashcrack", nTiles := some 1, params := [("target_prefix", .str "0"), ("keyspace", .int 4)] }

def optimumLaunch : WorkloadLaunchRequest :=
  { kind := "optimize", nTiles := some 1, params := [("n_candidates", .int 4), ("dims", .int 1)] }

/-- The digest of one nonce starts with the target. -/
def digestOf (_ : String) (nonce : Int) : Except String String := .ok (if nonce = 2 then "0" else "f")

/-- The hash search in process, on one core. -/
def searchExecution : Execution where
  runInIsolation _ _ _ _ _ := .error (.other "")
  runner _ input :=
    match Jobkit.hashInput input with
    | none => .error (.other "ValueError")
    | some job =>
        match Jobkit.hashcrack digestOf (Workloads.singleCore (Jobkit.hashTasks 1 job.pre job.target
          job.start job.stop).length) Jobkit.never input with
        | none => .error (.other "Exception")
        | some out => .ok (Workloads.hashJson out)

def searchAgent : WorkerAgent := { workerId := "w" }

def searchFleet : AgentFleet := fun agent x => agent = searchAgent ∧ x = searchExecution

theorem searchFleet_computes : Computed searchFleet (HashComputes digestOf) := by
  rintro agent x manifest input output ⟨rfl, rfl⟩ hexec - -
  change searchExecution.runner manifest input = .ok output at hexec
  unfold searchExecution at hexec
  dsimp only at hexec
  split at hexec
  · cases hexec
  next task htask =>
    split at hexec
    · cases hexec
    next out hout =>
      refine ⟨out, ⟨_, task, htask, ?_, ?_, hout⟩, (Except.ok.inj hexec).symm⟩
      · exact List.Perm.of_eq (by simp [Workloads.singleCore])
      · exact fun chunk _ => Jobkit.hashChunk_ok (fun _ _ => ⟨_, rfl⟩) chunk

/-- The candidate nearest to two is the best. -/
def nearTwo : Objective Rat := ⟨fun s _ => [.fin s], fun params =>
  match params with
  | [.fin q] => -((q - 2) * (q - 2))
  | _ => 0⟩

/-- The search for the optimum in process. -/
def optimizeExecution : Execution where
  runInIsolation _ _ _ _ _ := .error (.other "")
  runner _ input :=
    match nearTwo.optimize (fun _ => false) input with
    | none => .error (.other "ValueError")
    | some out => .ok (Workloads.searchJson out)

def optimizeFleet : AgentFleet := fun agent x => agent = searchAgent ∧ x = optimizeExecution

theorem optimizeFleet_computes : Computed optimizeFleet (SearchComputes nearTwo) := by
  rintro agent x manifest input output ⟨rfl, rfl⟩ hexec - -
  change optimizeExecution.runner manifest input = .ok output at hexec
  unfold optimizeExecution at hexec
  dsimp only at hexec
  split at hexec
  · cases hexec
  next out hout => exact ⟨out, hout, (Except.ok.inj hexec).symm⟩

/-- The assignment of a tile that is the only one. -/
def tileAssignment (kind : JobKind) (input : Dict) : JobAssignment where
  signedManifest := signManifest fleetConfig
    { jobId := PyText.uuidHex 2
      kind := kind
      inputSha256 := sha256Hex (.obj input)
      issuedAt := 0 }
  input := input

/-- What the agent reports of it. -/
def tileResult (kind : JobKind) (input output : Dict) : ResultRequest :=
  Worker.resultOf searchAgent (tileAssignment kind input).signedManifest.manifest (.fin 1) .completed
    output 1

def hashTile : Dict :=
  [("prefix", .str "onecompute"), ("target_prefix", .str "0"), ("nonce_start", .int 0),
    ("nonce_end", .int 4)]

def hashFound : Dict :=
  Workloads.hashJson (Jobkit.hashOutput "onecompute" "0" 0 4 [⟨some 2, some "0", 3⟩] false)

def optimumTile : Dict :=
  [("idx_start", .int 0), ("idx_end", .int 4), ("dims", .int 1), ("seed", .int 0)]

def optimumFound : Dict := Workloads.searchJson ⟨((0 : Rat) : WithBot Rat), [.fin 2], 2, 4, false⟩

/-- Without a pinned key an unsigned assignment passes, if its input is the hashed one. -/
theorem unsigned_verified {ed25519 : Verify} {manifestBytes : JobManifest → List UInt8}
    {agent : WorkerAgent} {now : Time} {assignment : JobAssignment} (hpinned : agent.pinned = none)
    (hsignature : assignment.signedManifest.signature = "")
    (hlasting : assignment.signedManifest.manifest.expiresAt = none)
    (hhash : assignment.signedManifest.manifest.inputSha256 = sha256Hex (.obj assignment.input)) :
    Worker.verifyAssignment ed25519 manifestBytes agent now assignment = .accepted := by
  unfold Worker.verifyAssignment Worker.checkSignature
  simp [hpinned, hsignature, hlasting, hhash]

/-- An agent that executes the tile to its end reports what came out. -/
theorem tile_reported {x : Execution} {kind : JobKind} {input output : Dict}
    (hunits : Worker.unitsOf input = .ok 1)
    (hexec : Worker.execute searchAgent x (tileAssignment kind input).signedManifest.manifest input =
      .ok output) (hended : yieldedOutput output = false) :
    (runJob fleetConfig.ed25519 fleetConfig.manifestBytes searchAgent x 0 (.fin 1)
      (tileAssignment kind input)).result = .ok (tileResult kind input output) := by
  have hverify : searchAgent.verify = true := rfl
  unfold runJob
  rw [if_pos hverify, unsigned_verified rfl rfl rfl rfl]
  unfold runAccepted
  dsimp only
  rw [show (tileAssignment kind input).input = input from rfl, hunits, hexec]
  dsimp only
  rw [if_neg (by rw [← yieldedOutput, hended]; decide)]
  rfl

theorem hashTile_reported : (runJob fleetConfig.ed25519 fleetConfig.manifestBytes searchAgent
    searchExecution 0 (.fin 1) (tileAssignment .hashcrack hashTile)).result =
      .ok (tileResult .hashcrack hashTile hashFound) :=
  tile_reported rfl rfl rfl

theorem optimumTile_reported : (runJob fleetConfig.ed25519 fleetConfig.manifestBytes searchAgent
    optimizeExecution 0 (.fin 1) (tileAssignment .optimize optimumTile)).result =
      .ok (tileResult .optimize optimumTile optimumFound) := by
  have hfields : (nearTwo.optimize (fun _ => false) optimumTile).map (fun out =>
      (out.bestScore, out.bestParams, out.bestIndex, out.evaluated, out.yielded)) =
        some (((0 : Rat) : WithBot Rat), [.fin 2], 2, 4, false) := by
    decide +kernel
  obtain ⟨⟨score, params, index, evaluated, yielded⟩, hfound, heq⟩ :=
    Option.map_eq_some_iff.mp hfields
  obtain ⟨rfl, rfl, rfl, rfl, rfl⟩ : score = _ ∧ params = _ ∧ index = _ ∧ evaluated = _ ∧ yielded = _ :=
    by simpa only [Prod.mk.injEq] using heq
  refine tile_reported rfl ?_ rfl
  change optimizeExecution.runner _ optimumTile = .ok optimumFound
  unfold optimizeExecution
  dsimp only
  rw [hfound]
  rfl

def bearer : Option String := some ("Bearer " ++ PyText.uuidHex 16)

def launchedAs (kind : String) : WorkloadLaunchResponse where
  workloadId := PyText.uuidHex 1
  kind := kind
  jobIds := [PyText.uuidHex 2]

/-- One launch is served. -/
def launchedRun (req : WorkloadLaunchRequest) : List Move := serve 0 8 (.launchWorkload req none)

/-- A worker is admitted and polls. -/
def polledRun : List Move :=
  serve 1 4 (.register { workerId := "w" } none) ++ serve 2 5 (.setTier "w" "managed" none) ++
    serve 3 4 (.jobsNext "w" bearer none)

/-- The worker reports. -/
def reportedRun (result : ResultRequest) : List Move :=
  serve 4 3 (.results (PyText.uuidHex 2) result bearer none)

/-- The launch, and what follows until the tile is reported. -/
def tileRun (req : WorkloadLaunchRequest) (result : ResultRequest) : List Move :=
  launchedRun req ++ (polledRun ++ reportedRun result)

def hashRun : List Move := tileRun hashLaunch (tileResult .hashcrack hashTile hashFound)

def optimumRun : List Move := tileRun optimumLaunch (tileResult .optimize optimumTile optimumFound)

def pastOf (s : Sys) (i : Nat) : Past := s.threads[i]?.elim [] (·.past)

theorem hashLaunch_returned : (run fleetConfig 0 (launchedRun hashLaunch)).threads[0]? =
    some ⟨.launchWorkload hashLaunch none, pastOf (run fleetConfig 0 (launchedRun hashLaunch)) 0,
      .ret (.launched (launchedAs "hashcrack"))⟩ := by
  rfl

theorem optimumLaunch_returned : (run fleetConfig 0 (launchedRun optimumLaunch)).threads[0]? =
    some ⟨.launchWorkload optimumLaunch none,
      pastOf (run fleetConfig 0 (launchedRun optimumLaunch)) 0,
      .ret (.launched (launchedAs "optimize"))⟩ := by
  rfl

/-- The poll is answered with the tile. -/
def Polled (req : WorkloadLaunchRequest) (assignment : JobAssignment) : Prop :=
  (run fleetConfig 0 (launchedRun req ++ polledRun)).threads[3]? = some ⟨.jobsNext "w" bearer none,
    pastOf (run fleetConfig 0 (launchedRun req ++ polledRun)) 3, .ret (.assignment assignment)⟩

theorem hashLaunch_polled : Polled hashLaunch (tileAssignment .hashcrack hashTile) := by
  rfl

theorem optimumLaunch_polled : Polled optimumLaunch (tileAssignment .optimize optimumTile) := by
  rfl

def Move.isPost : Move → Bool
  | .spawn (.results _ _ _ _) => true
  | _ => false

/-- A run in which one result is posted. -/
theorem agentsReport_once {fleet : AgentFleet} {cfg : Config} {clock : Time}
    {before after : List Move} {jobId : String} {req : ResultRequest} {auth cert : Option String}
    (hbefore : before.all (fun m => !Move.isPost m) = true)
    (hafter : after.all (fun m => !Move.isPost m) = true)
    (h : Posts fleet cfg (run cfg clock before) req) :
    AgentsReport fleet cfg clock (before ++ .spawn (.results jobId req auth cert) :: after) := by
  intro k jobId' req' auth' cert' hk
  rcases Nat.lt_trichotomy k before.length with hlt | rfl | hgt
  · rw [List.getElem?_append_left hlt] at hk
    cases List.all_eq_true.mp hbefore _ (List.mem_of_getElem? hk)
  · rw [List.getElem?_append_right (Nat.le_refl _), Nat.sub_self] at hk
    cases hk
    rw [List.take_left]
    exact h
  · obtain ⟨n, rfl⟩ := Nat.exists_eq_add_of_lt hgt
    rw [List.getElem?_append_right (by omega),
      show before.length + n + 1 - before.length = n + 1 by omega, List.getElem?_cons_succ] at hk
    cases List.all_eq_true.mp hafter _ (List.mem_of_getElem? hk)

theorem tileRun_agents {fleet : AgentFleet} {req : WorkloadLaunchRequest} {x : Execution}
    {assignment : JobAssignment} {result : ResultRequest} (hfleet : fleet searchAgent x)
    (hpolled : Polled req assignment)
    (hreported : (runJob fleetConfig.ed25519 fleetConfig.manifestBytes searchAgent x 0 (.fin 1)
      assignment).result = .ok result) :
    AgentsReport fleet fleetConfig 0 (tileRun req result) := by
  unfold tileRun
  rw [← List.append_assoc]
  exact agentsReport_once rfl rfl ⟨searchAgent, x, 0, .fin 1, assignment, hfleet,
    ⟨3, "w", bearer, none, _, hpolled⟩, hreported⟩

theorem hashRun_agents : AgentsReport searchFleet fleetConfig 0 hashRun :=
  tileRun_agents ⟨rfl, rfl⟩ hashLaunch_polled hashTile_reported

theorem optimumRun_agents : AgentsReport optimizeFleet fleetConfig 0 optimumRun :=
  tileRun_agents ⟨rfl, rfl⟩ optimumLaunch_polled optimumTile_reported

/-- The identifier that was drawn, if the answer tells of one. -/
def drawnId : Interleaving.Answered Cmd Ret → Option String
  | ⟨.uuid4, id⟩ => some id
  | _ => none

theorem drawnOnce_of {cfg : Config} {clock : Time} {ms : List Move} {i : Nat} {workloadId : String}
    (h : (runTrace cfg clock ms).all (fun p => decide (p.thread = i) ||
      !decide (drawnId (p.answered (machine cfg)) = some workloadId)) = true) :
    DrawnOnce cfg clock ms i workloadId := by
  intro p hp hanswered
  have hcheck := List.all_eq_true.mp h p hp
  rw [hanswered] at hcheck
  simpa [drawnId] using hcheck

theorem hashRun_drawn : DrawnOnce fleetConfig 0 hashRun 0 (PyText.uuidHex 1) :=
  drawnOnce_of (by decide +kernel)

theorem optimumRun_drawn : DrawnOnce fleetConfig 0 optimumRun 0 (PyText.uuidHex 1) :=
  drawnOnce_of (by decide +kernel)

def anyPlatform : Platform := ⟨fun _ => none, id, .fin⟩

/-- The one tile of the run is completed. -/
def CompletedView (ms : List Move) : Prop :=
  (workloadView anyPlatform (PyText.uuidHex 1) (run fleetConfig 0 ms).state.db).toOption.map
    (fun view => (view.completed, view.total)) = some (1, 1)

theorem hashRun_view : CompletedView hashRun := by
  unfold CompletedView
  decide +kernel

theorem optimumRun_view : CompletedView optimumRun := by
  unfold CompletedView
  decide +kernel

theorem completed_view {ms : List Move} {view : WorkloadView} (h : CompletedView ms)
    (hview : workloadView anyPlatform (PyText.uuidHex 1) (run fleetConfig 0 ms).state.db = .ok view) :
    view.completed = 1 ∧ view.total = 1 := by
  rw [CompletedView, hview] at h
  exact Prod.mk.inj (Option.some.inj h)

/-- No worker was there when the answers were given. -/
def noWorkers : Interleaving.Answered Cmd Ret → Bool
  | ⟨.activeWorkers, workers⟩ => workers.isEmpty
  | _ => true

theorem fits_of_noWorkers {past : Past} {workers : List WorkerRow} (h : past.all noWorkers = true)
    (hsaw : Saw past .activeWorkers workers) (sum : List PyFloat → PyFloat) (total n : Int) :
    Fits binary64 sum total (capabilityTileWeights workers n) := by
  have hempty : noWorkers ⟨.activeWorkers, workers⟩ = true := List.all_eq_true.mp h _ hsaw
  obtain rfl : workers = [] := List.isEmpty_iff.mp hempty
  intro ws hws
  cases hws

/-! ## A launched workload and its fleet -/

section Launched
variable {cfg : Config} {clock : Time} {ms : List Move} {i : Nat} {req : WorkloadLaunchRequest}
  {auth : Option String} {past : Past} {response : WorkloadLaunchResponse} {fleet : AgentFleet}

/-- At any time after a launch, whatever else is served and whenever the agents report, the
view of its workload shows the tiles that were built for it, and its summary is made of what
the executors put out for the completed ones. -/
theorem fleet_view (F : Platform) (hret : (run cfg clock ms).threads[i]? =
      some ⟨.launchWorkload req auth, past, .ret (.launched response)⟩) (ns : List Move)
    (hdrawn : DrawnOnce cfg clock (ms ++ ns) i response.workloadId)
    (hreport : AgentsReport fleet cfg clock (ms ++ ns))
    {computes : JobKind → Dict → Dict → Prop} (hcomputes : Computed fleet computes) :
    ∃ n workers tiles, Saw past .activeWorkers workers ∧
      cfg.buildWorkloadJobs req.kind n req.params (capabilityTileWeights workers n) =
        .ok (tiles.map .ok) ∧
      response.jobIds.length = tiles.length ∧
      (tiles ≠ [] → ∃ view, workloadView F response.workloadId
        (run cfg clock (ms ++ ns)).state.db = .ok view) ∧
      ∀ view, workloadView F response.workloadId (run cfg clock (ms ++ ns)).state.db = .ok view →
        ∃ shown, view.Shows F computes (response.jobIds.zip tiles) shown :=
  launched_view F hret ns hdrawn (agents_honest response.jobIds hreport hcomputes)

/-- One tile is launched, and what the agent reports of it is shown and in the summary. -/
theorem fleet_view_reported : ∃ (tiles : List SubmitRequest) (view : WorkloadView)
    (job : JobDetail) (tile : SubmitRequest) (output : Dict),
    workloadView anyPlatform (PyText.uuidHex 1) (run fleetConfig 0 hashRun).state.db = .ok view ∧
    tiles.length = 1 ∧ tile ∈ tiles ∧ job ∈ view.jobs ∧ job.state = .completed ∧
    job.jobId = PyText.uuidHex 2 ∧ job.output = some output ∧
    HashComputes digestOf tile.kind tile.input output ∧
    view.summary = aggregateWorkload anyPlatform view.kind.text [output] := by
  obtain ⟨n, workers, tiles, -, -, hlen, hviews, hall⟩ := fleet_view anyPlatform
    hashLaunch_returned (polledRun ++ reportedRun (tileResult .hashcrack hashTile hashFound))
    hashRun_drawn hashRun_agents searchFleet_computes
  obtain ⟨tile, rfl⟩ := List.length_eq_one_iff.mp hlen.symm
  obtain ⟨view, hview⟩ := hviews (List.cons_ne_nil _ _)
  obtain ⟨shown, hshows⟩ := hall view hview
  obtain ⟨hcompleted, -⟩ := completed_view hashRun_view hview
  obtain rfl : shown = [(PyText.uuidHex 2, tile)] := List.perm_singleton.mp hshows.entries
  obtain ⟨job, rest, hjob, hrest, hjobs⟩ := List.forall₂_cons_right_iff.mp hshows.jobs
  obtain rfl := List.forall₂_nil_right_iff.mp hrest
  have hstate : job.isCompleted = true := by
    have hcount := hshows.completed
    rw [hcompleted, hjobs, List.countP_singleton] at hcount
    by_contra hfalse
    rw [if_neg hfalse] at hcount
    cases hcount
  obtain ⟨output, houtput, hcomputes⟩ := hjob.output (of_decide_eq_true hstate)
  refine ⟨[tile], view, job, tile, output, hview, rfl, List.mem_cons_self, ?_,
    of_decide_eq_true hstate, hjob.jobId, houtput, hcomputes, ?_⟩
  · rw [hjobs]
    exact List.mem_cons_self
  · rw [hshows.summary, hjobs, List.filter_cons_of_pos hstate, List.filterMap_cons, houtput]
    rfl

end Launched

section Answered
variable {cfg : Config} {sum : List PyFloat → PyFloat}
  {validate : Dict → Except String SubmitRequest} {clock : Time} {ms : List Move} {i : Nat}
  {req : WorkloadLaunchRequest} {auth : Option String} {past : Past}
  {response : WorkloadLaunchResponse} {fleet : AgentFleet}

/-- A fleet answers the hash search that was launched: once a tile is completed there is a
summary, a nonce it names is a solution, and when all tiles are completed it is the answer. -/
theorem fleet_hashcrack (F : Platform) (hvalidate : Validates validate)
    {keyspace nonceStart : Int} {targetPre pre : String}
    (hret : (run (cfg.building sum validate) clock ms).threads[i]? =
      some ⟨.launchWorkload req auth, past, .ret (.launched response)⟩)
    (hkind : req.kind = "hashcrack")
    (hparams : HashArguments req.params keyspace targetPre pre nonceStart)
    (ns : List Move)
    (hdrawn : DrawnOnce (cfg.building sum validate) clock (ms ++ ns) i response.workloadId)
    (hreport : AgentsReport fleet (cfg.building sum validate) clock (ms ++ ns))
    {digest : String → Int → Except String String}
    (hcomputes : Computed fleet (HashComputes digest)) :
    ∃ n workers, Saw past .activeWorkers workers ∧
      (Fits binary64 sum keyspace (capabilityTileWeights workers n) →
        ∃ view, workloadView F response.workloadId
            (run (cfg.building sum validate) clock (ms ++ ns)).state.db = .ok view ∧
          view.total = response.jobIds.length ∧
          (view.completed = 0 → view.summary = none) ∧
          (0 < view.completed → ∃ w : HashWinner, view.summary = some w.summary ∧
            (w.found = true → ∃ nonce hash, w.nonce = some nonce ∧ w.hash = some hash ∧
              Solves digest targetPre pre nonceStart keyspace nonce hash) ∧
            (view.completed = view.total →
              IsAnswer digest targetPre pre nonceStart keyspace w))) :=
  hashcrack_answered F hvalidate hret hkind hparams ns hdrawn
    (agents_honest response.jobIds hreport hcomputes)

/-- The nonce is found. -/
theorem fleet_hashcrack_reported : ∃ (view : WorkloadView) (w : HashWinner),
    workloadView anyPlatform (PyText.uuidHex 1) (run fleetConfig 0 hashRun).state.db = .ok view ∧
    view.summary = some w.summary ∧ IsAnswer digestOf "0" "onecompute" 0 4 w := by
  obtain ⟨n, workers, hworkers, hfleet⟩ := @fleet_hashcrack
    { ({} : Config) with manifestBytes := JobManifest.dump } binary64.sum takeSpec 0
    (launchedRun hashLaunch) 0 hashLaunch none _ (launchedAs "hashcrack") searchFleet anyPlatform
    takeSpec_validates 4 0 "0" "onecompute" hashLaunch_returned rfl ⟨rfl, rfl, rfl, rfl⟩
    (polledRun ++ reportedRun (tileResult .hashcrack hashTile hashFound)) hashRun_drawn
    hashRun_agents digestOf searchFleet_computes
  obtain ⟨view, hview, -, -, hanswer⟩ := hfleet (fits_of_noWorkers (by rfl) hworkers _ _ _)
  obtain ⟨hcompleted, htotal⟩ := completed_view hashRun_view hview
  obtain ⟨w, hsummary, -, hdone⟩ := hanswer (by rw [hcompleted]; decide)
  exact ⟨view, w, hview, hsummary, hdone (hcompleted.trans htotal.symm)⟩

/-- A fleet answers the search that was launched: once a tile is completed the summary names a
candidate with its own score, and when all tiles are completed it is the optimum. -/
theorem fleet_optimize (F : Platform) (hvalidate : Validates validate)
    {nCandidates dims seed : Int}
    (hret : (run (cfg.building sum validate) clock ms).threads[i]? =
      some ⟨.launchWorkload req auth, past, .ret (.launched response)⟩)
    (hkind : req.kind = "optimize")
    (hparams : OptimumArguments req.params nCandidates dims seed)
    (ns : List Move)
    (hdrawn : DrawnOnce (cfg.building sum validate) clock (ms ++ ns) i response.workloadId)
    (hreport : AgentsReport fleet (cfg.building sum validate) clock (ms ++ ns))
    {o : Objective Rat} (hcomputes : Computed fleet (SearchComputes o)) :
    ∃ n workers, Saw past .activeWorkers workers ∧
      (Fits binary64 sum nCandidates (capabilityTileWeights workers n) →
        ∃ view, workloadView F response.workloadId
            (run (cfg.building sum validate) clock (ms ++ ns)).state.db = .ok view ∧
          view.total = response.jobIds.length ∧
          (view.completed = 0 → view.summary = none) ∧
          (0 < view.completed → ∃ w : Winner Rat, view.summary = some w.summary ∧
            (0 ≤ w.bestIndex ∧ w.bestIndex < nCandidates ∧
              w.bestScore = Workloads.scoreOf o dims seed w.bestIndex ∧
              w.bestParams = o.config w.bestIndex dims seed) ∧
            (view.completed = view.total → IsOptimum o dims seed nCandidates w))) :=
  optimize_answered F hvalidate hret hkind hparams ns hdrawn
    (agents_honest response.jobIds hreport hcomputes)

/-- The optimum is reported. -/
theorem fleet_optimize_reported : ∃ (view : WorkloadView) (w : Winner Rat),
    workloadView anyPlatform (PyText.uuidHex 1) (run fleetConfig 0 optimumRun).state.db = .ok view ∧
    view.summary = some w.summary ∧ IsOptimum nearTwo 1 0 4 w := by
  obtain ⟨n, workers, hworkers, hfleet⟩ := @fleet_optimize
    { ({} : Config) with manifestBytes := JobManifest.dump } binary64.sum takeSpec 0
    (launchedRun optimumLaunch) 0 optimumLaunch none _ (launchedAs "optimize") optimizeFleet
    anyPlatform takeSpec_validates 4 1 0 optimumLaunch_returned rfl ⟨rfl, rfl, rfl⟩
    (polledRun ++ reportedRun (tileResult .optimize optimumTile optimumFound)) optimumRun_drawn
    optimumRun_agents nearTwo optimizeFleet_computes
  obtain ⟨view, hview, -, -, hanswer⟩ := hfleet (fits_of_noWorkers (by rfl) hworkers _ _ _)
  obtain ⟨hcompleted, htotal⟩ := completed_view optimumRun_view hview
  obtain ⟨w, hsummary, -, hdone⟩ := hanswer (by rw [hcompleted]; decide)
  exact ⟨view, w, hview, hsummary, hdone (hcompleted.trans htotal.symm)⟩

end Answered

end OneCompute
