import OneCompute.Orchestrator.Launch
import OneCompute.Workloads.Specs

/-!
How many jobs one launch enqueues. The number of tiles is capped before a builder
is called, and every builder that is given it keeps to it. The builder of prompt
jobs is not given it: it cuts the prompts of the request into slices.
-/

namespace OneCompute
open Interleaving (Prog Surroundings serveAlone)
open Workloads (buildWorkloadSpecs buildWorkloadSpecs_atMost buildPromptSpecs_length Sliced)

/-- What a builder raises, to the endpoint that catches `TypeError` and `ValueError`. -/
def failureOf : PyException → Failure
  | .typeError message | .valueError message => .valueError message
  | .overflowError _ => .uncaught "OverflowError"
  | .memoryError => .uncaught "MemoryError"
  | .lookupError => .uncaught "LookupError"
  | .attributeError => .uncaught "AttributeError"
  | .zeroDivisionError => .uncaught "ZeroDivisionError"

/-- The builders of the repository; `validate` is the validation of a specification. -/
def buildAndValidate (sum : List PyFloat → PyFloat) (validate : Dict → Except String SubmitRequest)
    (kind : String) (nTiles : Int) (params : Dict) (weights : Option (List PyFloat)) :
    Except Failure Tiles :=
  ((buildWorkloadSpecs sum kind nTiles params weights).mapError failureOf).map
    (List.map validate)

def Config.building (cfg : Config) (sum : List PyFloat → PyFloat)
    (validate : Dict → Except String SubmitRequest) : Config :=
  { cfg with buildWorkloadJobs := buildAndValidate sum validate }

/-- An accepted launch enqueues a number of jobs within `bound`, and reports them. -/
def EnqueuesWithin (cfg : Config) (req : WorkloadLaunchRequest) (auth : Option String)
    (env : Surroundings Nat Time) (w : World) (bound : Nat → Prop) : Prop :=
  let served := serveAlone (machine cfg) (handle cfg (.launchWorkload req auth)) env w
  ∀ response, served.2 = .ok (.launched response) → ∃ rows,
    served.1.db.jobs.rows = w.db.jobs.rows ++ rows ∧ response.jobIds = rows.map (·.jobId) ∧
      bound rows.length

/-- Every tile count is capped, whatever the request and the fleet. -/
theorem tileCount_le (req : WorkloadLaunchRequest) (db : Db) :
    (tileCount req db).toNat ≤ maxWorkloadTiles := by
  unfold tileCount oversubscribedTiles maxWorkloadTiles
  cases req.nTiles with
  | some n =>
      dsimp only
      omega
  | none =>
      dsimp only
      split <;> omega

section Accepted
variable {cfg : Config} {req : WorkloadLaunchRequest} {auth : Option String}
  {env : Surroundings Nat Time} {w : World} {response : WorkloadLaunchResponse}

/-- An accepted launch has built its tiles, and enqueued one job for each. -/
theorem accepted_tiles (h : (serveAlone (machine cfg) (handle cfg (.launchWorkload req auth)) env w).2 =
      .ok (.launched response)) :
    ∃ tiles rows, builtTiles cfg req w.db = .ok tiles ∧ rows.length = tiles.length ∧
      (serveAlone (machine cfg) (handle cfg (.launchWorkload req auth)) env w).1.db.jobs.rows =
        w.db.jobs.rows ++ rows ∧ response.jobIds = rows.map (·.jobId) := by
  change (serveAlone (machine cfg) (launchWorkload cfg req auth) env w).2 = _ at h
  change ∃ tiles rows, _ ∧ _ ∧ (serveAlone (machine cfg) (launchWorkload cfg req auth) env w).1.db.jobs.rows
    = _ ∧ _
  by_cases hadmitted : LaunchAdmitted cfg req auth
  · have hserved := serve_admitted hadmitted env w
    cases hbuilt : builtTiles cfg req w.db with
    | error e =>
        rw [hbuilt] at hserved
        obtain ⟨w', e, -, hserved⟩ := hserved
        rw [hserved] at h
        cases h
    | ok tiles =>
        rw [hbuilt] at hserved
        obtain ⟨workloadId, w₀, hdb, hserved⟩ := hserved
        obtain ⟨rows, answer, w', htiles, hrows, hends⟩ := serve_launchTiles cfg req.kind workloadId
          tiles (fun jobIds => .launched
            { workloadId := workloadId, kind := req.kind, jobIds := jobIds })
          (fun n => env ((if countsWorkers req then 3 else 2) + n)) w₀
        rw [hserved, htiles] at h ⊢
        obtain ⟨-, hanswer, subs, rfl, hqueued⟩ | ⟨-, -, e, hanswer⟩ := hends
        · rw [hanswer] at h
          cases h
          refine ⟨_, rows, rfl, ?_, ?_, rfl⟩
          · rw [List.length_map]
            exact hqueued.length_eq.symm
          · rw [← hdb]
            exact hrows
        · rw [hanswer] at h
          cases h
  · obtain ⟨w', e, hserved, -⟩ := serve_notAdmitted hadmitted env w
    rw [hserved] at h
    cases h

end Accepted

/-- The tiles of a launch are the validated specifications of its builder. -/
theorem builtTiles_specs {cfg : Config} {sum : List PyFloat → PyFloat}
    {validate : Dict → Except String SubmitRequest} {req : WorkloadLaunchRequest} {db : Db}
    {tiles : Tiles} (h : builtTiles (cfg.building sum validate) req db = .ok tiles) :
    ∃ specs, buildWorkloadSpecs sum req.kind (tileCount req db) req.params
        (capabilityTileWeights (activeWorkers db) (tileCount req db)) = .ok specs ∧
      tiles = specs.map validate := by
  change ((buildWorkloadSpecs sum req.kind (tileCount req db) req.params
    (capabilityTileWeights (activeWorkers db) (tileCount req db))).mapError failureOf).map _ = _ at h
  cases hspecs : buildWorkloadSpecs sum req.kind (tileCount req db) req.params
      (capabilityTileWeights (activeWorkers db) (tileCount req db)) with
  | error e =>
      rw [hspecs] at h
      cases h
  | ok specs =>
      rw [hspecs] at h
      exact ⟨specs, rfl, (Except.ok.inj h).symm⟩

/-- The number of jobs a request is good for: the cap on its tiles, except that
prompts become one job for each slice of them. -/
def SizedAs (req : WorkloadLaunchRequest) (jobs : Nat) : Prop :=
  (req.kind ≠ "ai.batch_infer" → jobs ≤ maxWorkloadTiles) ∧
  (req.kind = "ai.batch_infer" → ∃ prompts size, Sliced req.params prompts size ∧
    jobs = (prompts.length + size - 1) / size)

theorem launch_sized (cfg : Config) (sum : List PyFloat → PyFloat)
    (validate : Dict → Except String SubmitRequest) (req : WorkloadLaunchRequest)
    (auth : Option String) (env : Surroundings Nat Time) (w : World) :
    EnqueuesWithin (cfg.building sum validate) req auth env w (SizedAs req) := by
  intro response hresponse
  obtain ⟨tiles, rows, hbuilt, hlength, hrows, hids⟩ := accepted_tiles hresponse
  obtain ⟨specs, hspecs, rfl⟩ := builtTiles_specs hbuilt
  rw [List.length_map] at hlength
  refine ⟨rows, hrows, hids, ?_, ?_⟩
  · intro hkind
    rw [hlength]
    exact (buildWorkloadSpecs_atMost hkind specs hspecs).trans (tileCount_le req w.db)
  · intro hkind
    rw [hkind] at hspecs
    rw [hlength]
    exact buildPromptSpecs_length hspecs

/-! ## A launch of many prompts -/

/-- The validation of a specification that is well-formed. -/
def acceptSpec (spec : Dict) : Except String SubmitRequest :=
  match Json.lookup spec "kind", Json.lookup spec "input", Json.lookup spec "units" with
  | some (.str "ai.batch_infer"), some (.obj input), some (.int units) =>
      .ok { kind := .aiBatchInfer, input := input, units := units }
  | _, _, _ => .error "validation error"

/-- So many prompts, in slices of one. -/
def promptLaunch (n : Nat) : WorkloadLaunchRequest :=
  { kind := "ai.batch_infer"
    params := [("prompts", .arr (List.replicate n (.str "x"))), ("slice_size", .int 1)] }

def promptConfig : Config := ({} : Config).building PyNumber.binary64.sum acceptSpec

def promptTile : SubmitRequest :=
  { kind := .aiBatchInfer
    input := [("prompts", .arr [.str "x"]), ("model", .str ""), ("max_tokens", .int 48)]
    units := 1 }

theorem promptLaunch_built (n : Nat) (db : Db) :
    builtTiles promptConfig (promptLaunch n) db = .ok (List.replicate n (.ok promptTile)) := by
  have hspecs : Workloads.buildPromptSpecs (promptLaunch n).params =
      .ok ((Workloads.steps (List.replicate n (Json.str "x")).length 1).map fun start =>
        Workloads.spec "ai.batch_infer"
          [("prompts", .arr (((List.replicate n (Json.str "x")).drop start).take 1)),
            ("model", .str ""), ("max_tokens", .int 48)]
          (.int (((List.replicate n (Json.str "x")).drop start).take 1).length)) := by
    rfl
  have hbuilt : builtTiles promptConfig (promptLaunch n) db =
      ((Workloads.buildPromptSpecs (promptLaunch n).params).mapError failureOf).map
        (List.map acceptSpec) := rfl
  rw [hbuilt, hspecs]
  refine congrArg Except.ok (List.eq_replicate_iff.mpr ⟨by simp [Workloads.steps], ?_⟩)
  intro tile htile
  simp only [Workloads.steps, List.map_map, List.mem_map, List.mem_range, Function.comp_apply,
    Nat.mul_one, List.length_replicate] at htile
  obtain ⟨start, hstart, rfl⟩ := htile
  have hone : ((List.replicate n (Json.str "x")).drop start).take 1 = [.str "x"] := by
    rw [List.drop_replicate, List.take_replicate, Nat.min_eq_left (by omega)]
    rfl
  rw [hone]
  rfl

theorem promptTile_accepted (db : Db) (jobId : String) (h : ¬ ∃ row ∈ db.jobs, row.jobId = jobId) :
    ¬ Refused promptConfig db jobId promptTile := by
  rintro (hunits | hunits | hencode | htaken)
  · exact absurd hunits (by decide)
  · exact absurd hunits (by decide)
  · exact hencode rfl
  · exact h htaken

/-- A launch of `n` prompts enqueues `n` jobs on an empty database. -/
theorem promptLaunch_accepted {n : Nat} (hn : n ≤ 2 ^ 64)
    (hparsed : Json.withinDigits (.obj (promptLaunch n).params) = true) :
    ∃ response, (serveAlone (machine promptConfig)
      (handle promptConfig (.launchWorkload (promptLaunch n) none)) (fun n => ([], n))
        (World.fresh 0)).2 = .ok (.launched response) ∧ response.jobIds.length = n := by
  have hadmitted : LaunchAdmitted promptConfig (promptLaunch n) none := ⟨hparsed, .inl rfl, rfl⟩
  have hserved := serve_admitted hadmitted (fun n => ([], n)) (World.fresh 0)
  rw [promptLaunch_built] at hserved
  obtain ⟨workloadId, w₀, hdb, hserved⟩ := hserved
  obtain ⟨rows, answer, w', htiles, hrows, hends⟩ := serve_launchTiles promptConfig
    (promptLaunch n).kind workloadId (List.replicate n (.ok promptTile)) (fun jobIds => .launched
      { workloadId := workloadId, kind := (promptLaunch n).kind, jobIds := jobIds })
    (fun k => ([], 2 + k)) w₀
  have hfresh : ∀ k, ¬ TileFails promptConfig w₀.db
      (fun n => PyText.uuidHex (2 + 5 * n)) (List.replicate n (.ok promptTile)) k := by
    rintro k ⟨tile, htile, hfails⟩
    obtain ⟨hk, hget⟩ := List.getElem?_eq_some_iff.mp htile
    rw [List.getElem_replicate] at hget
    rw [List.length_replicate] at hk
    obtain hrefused | ⟨j, hj, hsame⟩ := hfails promptTile hget.symm
    · refine promptTile_accepted w₀.db _ ?_ hrefused
      rw [hdb]
      rintro ⟨row, hrow, -⟩
      cases hrow
    · have := PyText.uuidHex_inj (by omega) (by omega) hsame
      omega
  obtain ⟨-, hanswer, subs, hsubs, hqueued⟩ | ⟨hfails, -⟩ := hends
  · have hsecond := (congrArg Prod.snd hserved).trans ((congrArg Prod.snd htiles).trans hanswer)
    refine ⟨_, hsecond, ?_⟩
    rw [List.length_map, ← hqueued.length_eq]
    simpa using (congrArg List.length hsubs).symm
  · exact absurd hfails (hfresh _)

/-- 513 prompts in slices of one are 513 jobs, whatever the number of tiles. -/
theorem promptLaunch_exceeds : ¬ EnqueuesWithin promptConfig (promptLaunch 513) none
    (fun n => ([], n)) (World.fresh 0) (· ≤ maxWorkloadTiles) := by
  intro hbounded
  obtain ⟨response, hresponse, hlength⟩ := @promptLaunch_accepted 513 (by decide) (by decide +kernel)
  obtain ⟨rows, -, hids, hrows⟩ := hbounded response hresponse
  rw [hids, List.length_map] at hlength
  rw [hlength] at hrows
  exact absurd hrows (by decide)

end OneCompute
