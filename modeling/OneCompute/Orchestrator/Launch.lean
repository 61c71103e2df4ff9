import OneCompute.Lib.Sequential
import OneCompute.Orchestrator.App
import OneCompute.Workloads.Optimize

/-!
A launch commits its tiles one by one: when it is all or nothing.
-/

namespace OneCompute
open Interleaving (Prog Surroundings serveAlone)

/-- The tiles of a workload, as they are validated one by one. -/
abbrev Tiles := List (Except String SubmitRequest)

/-- The job cannot be stored under this identifier: its units are not a positive
number the database stores, its input has no encoding, or the identifier is taken. -/
def Refused (cfg : Config) (db : Db) (jobId : String) (sub : SubmitRequest) : Prop :=
  sub.units ≤ 0 ∨ maxSqlInteger < sub.units ∨ cfg.encodingError sub.input ≠ none ∨
    ∃ row ∈ db.jobs, row.jobId = jobId

/-- Tile `k` is no job, or cannot be stored under the identifier it draws, which an
earlier tile may have drawn already. -/
def TileFails (cfg : Config) (db : Db) (ids : Nat → String) (tiles : Tiles) (k : Nat) : Prop :=
  ∃ tile, tiles[k]? = some tile ∧
    ∀ sub, tile = .ok sub → Refused cfg db (ids k) sub ∨ ∃ j < k, ids j = ids k

/-- The queued job of a tile. -/
structure Enqueued (workloadId : String) (sub : SubmitRequest) (row : JobRow) : Prop where
  kind : row.kind = sub.kind
  input : row.inputJson = sub.input
  units : row.units = sub.units
  state : row.state = .queued
  workload : row.workloadId = some workloadId

/-! ## One tile -/

section Tile
variable {cfg : Config} {sub : SubmitRequest} {workloadId : String}

theorem disturbAll_db (cfg : Config) (ts : List Time) (w : World) :
    ((machine cfg).disturbAll ts w).db = w.db := by
  induction ts generalizing w with
  | nil => rfl
  | cons t ts ih => exact ih _

theorem exec_insertJob_refused {s : Submission} (input : Nat) {w : World}
    (h : maxSqlInteger < s.units ∨ ∃ row ∈ w.db.jobs, row.jobId = s.manifest.jobId) :
    ∃ e, (exec (.insertJob s) input w).2 = .error e ∧
      (exec (.insertJob s) input w).1.db.jobs = w.db.jobs := by
  simp only [exec, runCommand, emitAll_jobs, insertJob]
  split
  · exact ⟨_, rfl, rfl⟩
  next hrange =>
    obtain hbig | htaken := h
    · exact absurd (.inr hbig) hrange
    · rw [Table.insert?_eq_none.mpr htaken]
      exact ⟨_, rfl, rfl⟩

theorem exec_insertJob_stored {s : Submission} (input : Nat) {w : World} (hpos : 0 < s.units)
    (hmax : ¬ maxSqlInteger < s.units) (hfresh : ¬ ∃ row ∈ w.db.jobs, row.jobId = s.manifest.jobId) :
    (exec (.insertJob s) input w).2 = .ok () ∧
      (exec (.insertJob s) input w).1.db.jobs.rows = w.db.jobs.rows ++ [.submitted s] := by
  have hrange : ¬ (s.units < minSqlInteger ∨ maxSqlInteger < s.units) := by
    unfold minSqlInteger
    omega
  simp only [exec, runCommand, emitAll_jobs, insertJob, if_neg hrange]
  cases hinsert : w.db.jobs.insert? (.submitted s) with
  | none => exact absurd (Table.insert?_eq_none.mp hinsert) hfresh
  | some jobs => exact ⟨rfl, Table.rows_insert? hinsert⟩

/-- What is inserted for a tile. -/
def tileSubmission (sub : SubmitRequest) (workloadId jobId : String) (issuedAt now : Time) :
    Submission where
  manifest :=
    { jobId := jobId
      kind := sub.kind
      inputSha256 := sha256Hex (.obj sub.input)
      requires := sub.requires
      limits := sub.limits
      dataClassification := sub.dataClassification
      issuedAt := issuedAt }
  input := sub.input
  units := sub.units
  workloadId := some workloadId
  now := now

theorem enqueued_tile (sub : SubmitRequest) (workloadId jobId : String) (issuedAt now : Time) :
    Enqueued workloadId sub (.submitted (tileSubmission sub workloadId jobId issuedAt now)) :=
  ⟨rfl, rfl, rfl, rfl, rfl⟩

theorem submitJob_bind (hpos : ¬ sub.units ≤ 0) (hencode : cfg.encodingError sub.input = none)
    (f : String → Handler Reply) :
    submitJob cfg sub (some workloadId) none >>= f =
      .call .uuid4 fun jobId => .call .now fun issuedAt => .call .now fun now =>
        .call (.insertJob (tileSubmission sub workloadId jobId issuedAt now)) fun stored =>
          Prog.ofExcept stored >>= fun _ => f jobId := by
  unfold submitJob requireEncodes
  rw [if_neg hpos, hencode]
  refine congrArg (Prog.call _) (funext fun jobId => congrArg (Prog.call _)
    (funext fun issuedAt => congrArg (Prog.call _) (funext fun now => congrArg (Prog.call _)
      (funext fun stored => ?_))))
  exact Prog.bind_bind (Prog.ofExcept stored) (fun _ => .ret jobId) f

/-- A job with an encoding gets as far as the insert, on the database the request found. -/
theorem serve_submitJob (workloadId : String) (env : Surroundings Nat Time) (w : World)
    (hpos : ¬ sub.units ≤ 0) (hencode : cfg.encodingError sub.input = none) (f : String → Handler Reply) :
    ∃ s w', Enqueued workloadId sub (.submitted s) ∧ s.manifest.jobId = PyText.uuidHex (env 0).2 ∧
      w'.db = w.db ∧
      serveAlone (machine cfg) (submitJob cfg sub (some workloadId) none >>= f) env w =
        serveAlone (machine cfg)
          (Prog.ofExcept (exec (.insertJob s) (env 3).2 w').2 >>= fun _ => f s.manifest.jobId)
          (fun n => env (n + 4)) (exec (.insertJob s) (env 3).2 w').1 := by
  rw [submitJob_bind hpos hencode]
  refine ⟨_, _, enqueued_tile sub workloadId (PyText.uuidHex (env 0).2) _ _, rfl, ?_, rfl⟩
  rw [disturbAll_db]
  show ((machine cfg).disturbAll _ _).db = _
  rw [disturbAll_db]
  show ((machine cfg).disturbAll _ _).db = _
  rw [disturbAll_db]
  exact disturbAll_db cfg _ w

/-- A refused job leaves the jobs as they are, and the request fails. -/
theorem serve_refused {env : Surroundings Nat Time} {w : World}
    (h : Refused cfg w.db (PyText.uuidHex (env 0).2) sub) (f : String → Handler Reply) :
    ∃ e w', serveAlone (machine cfg) (submitJob cfg sub (some workloadId) none >>= f) env w =
      (w', .error e) ∧ w'.db.jobs = w.db.jobs := by
  by_cases hpos : sub.units ≤ 0
  · unfold submitJob
    rw [if_pos hpos]
    exact ⟨_, _, rfl, rfl⟩
  · cases hencode : cfg.encodingError sub.input with
    | some failure =>
        unfold submitJob requireEncodes
        rw [if_neg hpos, hencode]
        refine ⟨_, _, rfl, ?_⟩
        exact congrArg Db.jobs (disturbAll_db cfg (env 0).1 w)
    | none =>
        obtain ⟨s, w', hrow, hid, hdb, hserved⟩ :=
          serve_submitJob workloadId env w hpos hencode f
        have hinsert : maxSqlInteger < s.units ∨
            ∃ row ∈ w'.db.jobs, row.jobId = s.manifest.jobId := by
          rw [hdb, hid, show s.units = sub.units from hrow.units]
          obtain hneg | hbig | hbad | htaken := h
          · exact absurd hneg hpos
          · exact .inl hbig
          · exact absurd hencode hbad
          · exact .inr htaken
        obtain ⟨e, hanswer, hjobs⟩ := exec_insertJob_refused (env 3).2 hinsert
        rw [hserved, hanswer]
        exact ⟨e, _, rfl, by rw [hjobs, hdb]⟩

/-- A job that is not refused is queued, and the request goes on. -/
theorem serve_stored (workloadId : String) {env : Surroundings Nat Time} {w : World}
    (h : ¬ Refused cfg w.db (PyText.uuidHex (env 0).2) sub) (f : String → Handler Reply) :
    ∃ row w', Enqueued workloadId sub row ∧ row.jobId = PyText.uuidHex (env 0).2 ∧
      w'.db.jobs.rows = w.db.jobs.rows ++ [row] ∧
      serveAlone (machine cfg) (submitJob cfg sub (some workloadId) none >>= f) env w =
        serveAlone (machine cfg) (f row.jobId) (fun n => env (n + 4)) w' := by
  unfold Refused at h
  push Not at h
  obtain ⟨hpos, hmax, hencode, hfresh⟩ := h
  obtain ⟨s, w', hrow, hid, hdb, hserved⟩ := serve_submitJob workloadId env w (by omega) hencode f
  have hunits : s.units = sub.units := hrow.units
  obtain ⟨hanswer, hrows⟩ := exec_insertJob_stored (env 3).2 (by rw [hunits]; exact hpos)
    (by rw [hunits]; exact not_lt.mpr hmax) (by rw [hdb, hid]; push Not; exact hfresh)
  refine ⟨.submitted s, _, hrow, hid, by rw [hrows, hdb], ?_⟩
  rw [hserved, hanswer]
  rfl

/-- An event leaves the jobs as they are. -/
theorem serve_emitEvent (type : String) (w j d : Option String) (f : Unit → Handler Reply)
    (env : Surroundings Nat Time) (s : World) :
    ∃ s', s'.db.jobs = s.db.jobs ∧ serveAlone (machine cfg) (emitEvent type w j d >>= f) env s =
      serveAlone (machine cfg) (f ()) (fun n => env (n + 1)) s' := by
  refine ⟨_, ?_, rfl⟩
  show (emitAll _ _ [_]).jobs = _
  rw [emitAll_jobs]
  exact congrArg Db.jobs (disturbAll_db cfg (env 0).1 s)

end Tile

/-! ## The tiles of a launch -/

section Tiles
variable {cfg : Config} {db : Db} {ids : Nat → String}

theorem tileFails_head {tile : Except String SubmitRequest} {tiles : Tiles} :
    TileFails cfg db ids (tile :: tiles) 0 ↔
      ∀ sub, tile = .ok sub → Refused cfg db (ids 0) sub := by
  unfold TileFails
  simp

/-- A later tile fails as it does in a launch of the later tiles, once the first
has been stored. -/
theorem tileFails_tail {stored : Db} {row : JobRow} {tile : Except String SubmitRequest}
    {tiles : Tiles} {k : Nat} (hrows : stored.jobs.rows = db.jobs.rows ++ [row])
    (hid : row.jobId = ids 0) :
    TileFails cfg db ids (tile :: tiles) (k + 1) ↔
      TileFails cfg stored (fun n => ids (n + 1)) tiles k := by
  have htaken : ∀ sub, (Refused cfg db (ids (k + 1)) sub ∨ ∃ j < k + 1, ids j = ids (k + 1)) ↔
      (Refused cfg stored (ids (k + 1)) sub ∨ ∃ j < k, ids (j + 1) = ids (k + 1)) := by
    intro sub
    have hstored : (∃ r ∈ stored.jobs, r.jobId = ids (k + 1)) ↔
        (∃ r ∈ db.jobs, r.jobId = ids (k + 1)) ∨ ids 0 = ids (k + 1) := by
      simp only [Table.mem_iff, hrows, List.mem_append, List.mem_singleton]
      constructor
      · rintro ⟨r, hr | rfl, hk⟩
        · exact .inl ⟨r, hr, hk⟩
        · exact .inr (hid.symm.trans hk)
      · rintro (⟨r, hr, hk⟩ | hk)
        · exact ⟨r, .inl hr, hk⟩
        · exact ⟨row, .inr rfl, hid.trans hk⟩
    have hearlier : (∃ j < k + 1, ids j = ids (k + 1)) ↔
        ids 0 = ids (k + 1) ∨ ∃ j < k, ids (j + 1) = ids (k + 1) := Nat.exists_lt_succ_left
    unfold Refused
    rw [hstored, hearlier]
    simp only [or_assoc]
  unfold TileFails
  simp only [List.getElem?_cons_succ, htaken]

/-- How a launch ends that queues the jobs `rows`: well if no tile fails, and
otherwise in an error, before the first that does. -/
def LaunchEnds (workloadId : String) (reply : List String → Reply) (tiles : Tiles)
    (fails : Nat → Prop) (rows : List JobRow) (answer : Except Failure Reply) : Prop :=
  ((∀ k, ¬ fails k) ∧ answer = .ok (reply (rows.map (·.jobId))) ∧
    ∃ subs, tiles = subs.map .ok ∧ List.Forall₂ (Enqueued workloadId) subs rows) ∨
  (fails rows.length ∧ (∀ k < rows.length, ¬ fails k) ∧ ∃ e, answer = .error e)

theorem LaunchEnds.cons {workloadId : String} {reply : List String → Reply} {sub : SubmitRequest}
    {tiles : Tiles} {fails : Nat → Prop} {row : JobRow} {rows : List JobRow}
    {answer : Except Failure Reply} (hrow : Enqueued workloadId sub row) (hhead : ¬ fails 0)
    (h : LaunchEnds workloadId (fun jobIds => reply (row.jobId :: jobIds)) tiles
      (fun k => fails (k + 1)) rows answer) :
    LaunchEnds workloadId reply (.ok sub :: tiles) fails (row :: rows) answer := by
  obtain ⟨hnone, hanswer, subs, rfl, hrows⟩ | ⟨hfails, hbefore, hanswer⟩ := h
  · refine .inl ⟨?_, hanswer, sub :: subs, rfl, .cons hrow hrows⟩
    intro k
    cases k with
    | zero => exact hhead
    | succ k => exact hnone k
  · refine .inr ⟨hfails, ?_, hanswer⟩
    intro k hk
    cases k with
    | zero => exact hhead
    | succ k => exact hbefore k (by simpa using hk)

theorem serve_launchTiles (cfg : Config) (kind workloadId : String) (tiles : Tiles)
    (reply : List String → Reply) (env : Surroundings Nat Time) (w : World) :
    ∃ rows answer w', serveAlone (machine cfg)
        (launchTiles cfg kind workloadId tiles >>= fun jobIds => .ret (reply jobIds)) env w =
        (w', answer) ∧
      w'.db.jobs.rows = w.db.jobs.rows ++ rows ∧
      LaunchEnds workloadId reply tiles
        (TileFails cfg w.db (fun n => PyText.uuidHex (env (5 * n)).2) tiles) rows answer := by
  induction tiles generalizing reply env w with
  | nil =>
      refine ⟨[], _, w, rfl, by simp, .inl ⟨?_, rfl, [], rfl, .nil⟩⟩
      rintro k ⟨tile, htile, -⟩
      cases htile
  | cons tile tiles ih =>
      cases tile with
      | error text =>
          refine ⟨[], _, w, rfl, by simp, .inr ⟨?_, by simp, _, rfl⟩⟩
          rw [List.length_nil, tileFails_head]
          rintro sub ⟨⟩
      | ok sub =>
          simp only [launchTiles, Prog.bind_bind]
          by_cases hrefused : Refused cfg w.db (PyText.uuidHex (env 0).2) sub
          · obtain ⟨e, w', hserved, hjobs⟩ := serve_refused hrefused
              (fun jobId => emitEvent "submitted" none (some jobId) (some kind) >>= fun _ =>
                launchTiles cfg kind workloadId tiles >>= fun jobIds =>
                  Prog.ret (jobId :: jobIds) >>= fun jobIds => .ret (reply jobIds))
            refine ⟨[], _, w', hserved, by simp [hjobs], .inr ⟨?_, by simp, e, rfl⟩⟩
            rw [List.length_nil, tileFails_head]
            rintro _ ⟨⟩
            exact hrefused
          · obtain ⟨row, stored, hrow, hid, hrows, hserved⟩ := serve_stored workloadId hrefused
              (fun jobId => emitEvent "submitted" none (some jobId) (some kind) >>= fun _ =>
                launchTiles cfg kind workloadId tiles >>= fun jobIds =>
                  Prog.ret (jobId :: jobIds) >>= fun jobIds => .ret (reply jobIds))
            obtain ⟨logged, hlogged, hemitted⟩ := serve_emitEvent "submitted" none (some row.jobId)
              (some kind) (fun _ => launchTiles cfg kind workloadId tiles >>= fun jobIds =>
                  Prog.ret (row.jobId :: jobIds) >>= fun jobIds => .ret (reply jobIds))
              (fun n => env (n + 4)) stored
            obtain ⟨rows, answer, w', hrest, hqueued, hends⟩ :=
              ih (fun jobIds => reply (row.jobId :: jobIds)) (fun n => env (n + 5)) logged
            refine ⟨row :: rows, answer, w', ?_, ?_, LaunchEnds.cons hrow ?_ ?_⟩
            · rw [← hrest]
              exact hserved.trans hemitted
            · rw [hqueued, hlogged, hrows]
              simp
            · rw [tileFails_head]
              exact fun h => hrefused (h sub rfl)
            · have htail : ∀ k, TileFails cfg w.db (fun n => PyText.uuidHex (env (5 * n)).2)
                  (.ok sub :: tiles) (k + 1) ↔ TileFails cfg logged.db
                    (fun n => PyText.uuidHex (env (5 * (n + 1))).2) tiles k := by
                intro k
                exact tileFails_tail (by rw [hlogged, hrows]) hid
              simp only [htail]
              exact hends

end Tiles

/-! ## The launch -/

section Launch
variable {cfg : Config} {req : WorkloadLaunchRequest} {auth : Option String}

/-- The call passes the gate of submissions. -/
def SubmitAdmits (cfg : Config) (auth : Option String) : Prop :=
  cfg.submitToken.getD "" = "" ∨
    checkBearer "submit" (cfg.submitToken.getD "") "invalid submit token" auth = .ok ()

/-- The request passes the checks that come before its workload is built. -/
structure LaunchAdmitted (cfg : Config) (req : WorkloadLaunchRequest) (auth : Option String) :
    Prop where
  parsed : Json.withinDigits (.obj req.params) = true
  token : SubmitAdmits cfg auth
  kind : launchableKinds.contains req.kind = true

/-- Whether the workers are counted to choose the number of tiles. -/
def countsWorkers (req : WorkloadLaunchRequest) : Bool :=
  req.nTiles = none && decide (1 < req.oversubscribe)

def tileCount (req : WorkloadLaunchRequest) (db : Db) : Int :=
  match req.nTiles with
  | some n => max 1 (min n maxWorkloadTiles)
  | none =>
      if 1 < req.oversubscribe then oversubscribedTiles (activeWorkers db).length req.oversubscribe
      else 3

def builtTiles (cfg : Config) (req : WorkloadLaunchRequest) (db : Db) : Except Failure Tiles :=
  cfg.buildWorkloadJobs req.kind (tileCount req db) req.params
    (capabilityTileWeights (activeWorkers db) (tileCount req db))

/-- The identifier drawn for tile `k`: after the reads and the identifier of the
workload, each tile takes five commands. -/
def tileId (req : WorkloadLaunchRequest) (env : Surroundings Nat Time) (k : Nat) : String :=
  PyText.uuidHex (env ((if countsWorkers req then 3 else 2) + 5 * k)).2

/-- Every tile of the workload is queued under one workload, or the request fails
and leaves the jobs as they were. -/
def AllOrNothing (cfg : Config) (req : WorkloadLaunchRequest) (auth : Option String)
    (env : Surroundings Nat Time) (w : World) : Prop :=
  let served := serveAlone (machine cfg) (handle cfg (.launchWorkload req auth)) env w
  (∃ subs rows response, builtTiles cfg req w.db = .ok (subs.map .ok) ∧
    served.2 = .ok (.launched response) ∧ served.1.db.jobs.rows = w.db.jobs.rows ++ rows ∧
    List.Forall₂ (Enqueued response.workloadId) subs rows ∧
    response.jobIds = rows.map (·.jobId)) ∨
  (∃ e, served.2 = .error e) ∧ served.1.db.jobs.rows = w.db.jobs.rows

/-- What is raised at a gate leaves the jobs as they are. -/
theorem serve_refuse (r : Refusal) (f : Unit → Handler Reply) (env : Surroundings Nat Time)
    (w : World) : ∃ w', serveAlone (machine cfg) (refuse none r >>= f) env w =
      (w', .error r.failure) ∧ w'.db.jobs = w.db.jobs := by
  unfold refuse
  cases r.audit with
  | none => exact ⟨w, rfl, rfl⟩
  | some detail =>
      obtain ⟨w', hjobs, hserved⟩ := serve_emitEvent "auth_failed" none none (some detail)
        (fun _ => .raise r.failure) env w
      exact ⟨w', hserved, hjobs⟩

theorem requireSubmitToken_admits (h : SubmitAdmits cfg auth) :
    requireSubmitToken cfg auth = pure () := by
  unfold requireSubmitToken requireBearer
  split
  · rfl
  next hclosed =>
    rw [h.resolve_left hclosed]

theorem requireSubmitToken_refuses (h : ¬ SubmitAdmits cfg auth) :
    ∃ r, requireSubmitToken cfg auth = refuse none r := by
  unfold requireSubmitToken requireBearer
  unfold SubmitAdmits at h
  rw [not_or] at h
  rw [if_neg h.1]
  split
  next hok => exact absurd hok h.2
  next r _ => exact ⟨r, rfl⟩

/-- A launch that is not admitted fails. -/
theorem serve_notAdmitted (h : ¬ LaunchAdmitted cfg req auth) (env : Surroundings Nat Time)
    (w : World) : ∃ w' e, serveAlone (machine cfg) (launchWorkload cfg req auth) env w =
      (w', .error e) ∧ w'.db.jobs = w.db.jobs := by
  unfold launchWorkload requireParsed
  by_cases hparsed : Json.withinDigits (.obj req.params) = true
  · rw [if_pos hparsed, Prog.pure_eq, Prog.ret_bind]
    by_cases htoken : SubmitAdmits cfg auth
    · have hkind : ¬ launchableKinds.contains req.kind = true := fun hk => h ⟨hparsed, htoken, hk⟩
      rw [requireSubmitToken_admits htoken, Prog.pure_eq, Prog.ret_bind, Bool.not_eq_true] at *
      rw [hkind]
      exact ⟨w, _, rfl, rfl⟩
    · obtain ⟨r, hgate⟩ := requireSubmitToken_refuses htoken
      rw [hgate]
      obtain ⟨w', hserved, hjobs⟩ := serve_refuse r _ env w
      exact ⟨w', _, hserved, hjobs⟩
  · rw [if_neg hparsed]
    exact ⟨w, _, rfl, rfl⟩

/-- The tile count is resolved from the database the call found. -/
theorem serve_resolveTileCount (req : WorkloadLaunchRequest) (f : Int → Handler Reply)
    (env : Surroundings Nat Time) (w : World) :
    ∃ w', w'.db = w.db ∧ serveAlone (machine cfg) (resolveTileCount req >>= f) env w =
      serveAlone (machine cfg) (f (tileCount req w.db))
        (fun n => env ((if countsWorkers req then 1 else 0) + n)) w' := by
  unfold resolveTileCount tileCount countsWorkers
  cases req.nTiles with
  | some n => exact ⟨w, rfl, by simp⟩
  | none =>
      by_cases hover : 1 < req.oversubscribe
      · simp only [if_pos hover]
        refine ⟨_, disturbAll_db cfg (env 0).1 w, ?_⟩
        show serveAlone _ (f (oversubscribedTiles
          (activeWorkers ((machine cfg).disturbAll (env 0).1 w).db).length _)) _ _ = _
        rw [disturbAll_db]
        simp only [hover, decide_true, Bool.and_self, if_true, Nat.add_comm 1]
        rfl
      · simp only [if_neg hover]
        exact ⟨w, rfl, by simp [hover]⟩

/-- What a launch does once its tiles are counted. -/
def launchCounted (cfg : Config) (req : WorkloadLaunchRequest) (nTiles : Int) : Handler Reply := do
  let workers ← Prog.perform Cmd.activeWorkers
  let built := cfg.buildWorkloadJobs req.kind nTiles req.params
    (capabilityTileWeights workers nTiles)
  let specs ← (Prog.ofExcept built : Handler _).mapError buildErrorAs400
  let workloadId ← Prog.perform Cmd.uuid4
  let jobIds ← launchTiles cfg req.kind workloadId specs
  return .launched { workloadId := workloadId, kind := req.kind, jobIds := jobIds }

theorem launchWorkload_admitted (h : LaunchAdmitted cfg req auth) :
    launchWorkload cfg req auth = resolveTileCount req >>= launchCounted cfg req := by
  unfold launchWorkload requireParsed
  rw [if_pos h.parsed, requireSubmitToken_admits h.token, h.kind]
  rfl

/-- The workload is built from the database the call found. -/
theorem serve_launchCounted (cfg : Config) (req : WorkloadLaunchRequest)
    (env : Surroundings Nat Time) (w : World) :
    match builtTiles cfg req w.db with
    | .error _ => ∃ w' e, w'.db = w.db ∧
        serveAlone (machine cfg) (launchCounted cfg req (tileCount req w.db)) env w = (w', .error e)
    | .ok tiles => ∃ workloadId w', w'.db = w.db ∧
        serveAlone (machine cfg) (launchCounted cfg req (tileCount req w.db)) env w =
          serveAlone (machine cfg) (launchTiles cfg req.kind workloadId tiles >>= fun jobIds =>
            .ret (.launched { workloadId := workloadId, kind := req.kind, jobIds := jobIds }))
            (fun n => env (n + 2)) w' := by
  have hread : serveAlone (machine cfg) (launchCounted cfg req (tileCount req w.db)) env w =
      serveAlone (machine cfg) ((Prog.ofExcept (builtTiles cfg req w.db)).mapError buildErrorAs400 >>=
        fun specs => Prog.perform Cmd.uuid4 >>= fun workloadId =>
          launchTiles cfg req.kind workloadId specs >>= fun jobIds =>
            .ret (.launched { workloadId := workloadId, kind := req.kind, jobIds := jobIds }))
        (fun n => env (n + 1)) ((machine cfg).disturbAll (env 0).1 w) := by
    unfold builtTiles
    rw [← disturbAll_db cfg (env 0).1 w]
    rfl
  cases hbuilt : builtTiles cfg req w.db with
  | error e =>
      rw [hread, hbuilt]
      exact ⟨_, _, disturbAll_db cfg (env 0).1 w, rfl⟩
  | ok tiles =>
      rw [hread, hbuilt]
      have hdb := (disturbAll_db cfg (env 1).1 ((machine cfg).disturbAll (env 0).1 w)).trans
        (disturbAll_db cfg (env 0).1 w)
      exact ⟨PyText.uuidHex (env 1).2, _, hdb, rfl⟩

/-- An admitted launch builds its workload from the database it found, and then
queues the tiles. -/
theorem serve_admitted (h : LaunchAdmitted cfg req auth) (env : Surroundings Nat Time)
    (w : World) :
    match builtTiles cfg req w.db with
    | .error _ => ∃ w' e, w'.db = w.db ∧
        serveAlone (machine cfg) (launchWorkload cfg req auth) env w = (w', .error e)
    | .ok tiles => ∃ workloadId w', w'.db = w.db ∧
        serveAlone (machine cfg) (launchWorkload cfg req auth) env w =
          serveAlone (machine cfg) (launchTiles cfg req.kind workloadId tiles >>= fun jobIds =>
            .ret (.launched { workloadId := workloadId, kind := req.kind, jobIds := jobIds }))
            (fun n => env ((if countsWorkers req then 3 else 2) + n)) w' := by
  rw [launchWorkload_admitted h]
  obtain ⟨w₁, hdb, hcounted⟩ := serve_resolveTileCount req (launchCounted cfg req) env w
  have hbuilt := serve_launchCounted cfg req
    (fun n => env ((if countsWorkers req then 1 else 0) + n)) w₁
  rw [hcounted]
  rw [hdb] at hbuilt
  cases hb : builtTiles cfg req w.db with
  | error e =>
      rw [hb] at hbuilt
      exact hbuilt
  | ok tiles =>
      rw [hb] at hbuilt
      obtain ⟨workloadId, w', hdb', hserved⟩ := hbuilt
      refine ⟨workloadId, w', hdb', hserved.trans ?_⟩
      congr 1
      funext n
      congr 1
      split <;> omega

/-- A launch is all or nothing exactly when none of its tiles fails, or the first does. -/
theorem launch_allOrNothing_iff (cfg : Config) (req : WorkloadLaunchRequest)
    (auth : Option String) (env : Surroundings Nat Time) (w : World) :
    AllOrNothing cfg req auth env w ↔
      ∀ tiles, LaunchAdmitted cfg req auth → builtTiles cfg req w.db = .ok tiles →
        TileFails cfg w.db (tileId req env) tiles 0 ∨
          ∀ k, ¬ TileFails cfg w.db (tileId req env) tiles k := by
  by_cases hadmitted : LaunchAdmitted cfg req auth
  · have hserved := serve_admitted hadmitted env w
    cases hbuilt : builtTiles cfg req w.db with
    | error e =>
        rw [hbuilt] at hserved
        obtain ⟨w', e, hdb, hserved⟩ := hserved
        refine iff_of_true (.inr ⟨⟨e, ?_⟩, ?_⟩) ?_
        · exact congrArg Prod.snd hserved
        · rw [← hdb]
          exact congrArg (·.1.db.jobs.rows) hserved
        · rintro tiles - ⟨⟩
    | ok tiles =>
        rw [hbuilt] at hserved
        obtain ⟨workloadId, w₀, hdb, hserved⟩ := hserved
        obtain ⟨rows, answer, w', htiles, hrows, hends⟩ := serve_launchTiles cfg req.kind workloadId
          tiles (fun jobIds => .launched
            { workloadId := workloadId, kind := req.kind, jobIds := jobIds })
          (fun n => env ((if countsWorkers req then 3 else 2) + n)) w₀
        rw [htiles] at hserved
        rw [hdb] at hrows hends
        have hids : (fun n => PyText.uuidHex (env ((if countsWorkers req then 3 else 2) + 5 * n)).2) =
            tileId req env := rfl
        rw [hids] at hends
        obtain ⟨hnone, rfl, subs, rfl, hqueued⟩ | ⟨hfails, hbefore, e, rfl⟩ := hends
        · refine iff_of_true (.inl ⟨subs, rows, _, hbuilt, congrArg Prod.snd hserved, ?_, hqueued, rfl⟩) ?_
          · rw [← hrows]
            exact congrArg (·.1.db.jobs.rows) hserved
          · rintro _ - ⟨⟩
            exact .inr hnone
        · have hleft : (serveAlone (machine cfg) (handle cfg (.launchWorkload req auth)) env w).1 = w' :=
            congrArg Prod.fst hserved
          have hanswer : (serveAlone (machine cfg) (handle cfg (.launchWorkload req auth)) env w).2 =
            .error e := congrArg Prod.snd hserved
          unfold AllOrNothing
          simp only [hleft, hanswer, hrows]
          cases rows with
          | nil =>
              refine iff_of_true (.inr ⟨⟨e, rfl⟩, List.append_nil _⟩) ?_
              rintro _ - ⟨⟩
              exact .inl hfails
          | cons row rows =>
              refine iff_of_false ?_ ?_
              · rintro (⟨subs, rows', response, -, hok, -⟩ | ⟨-, hunchanged⟩)
                · cases hok
                · have hlength := congrArg List.length hunchanged
                  simp at hlength
              · intro hcond
                obtain hfirst | hnone := hcond tiles hadmitted rfl
                · exact hbefore 0 (by simp) hfirst
                · exact hnone _ hfails
  · obtain ⟨w', e, hserved, hjobs⟩ := serve_notAdmitted hadmitted env w
    refine iff_of_true (.inr ⟨⟨e, congrArg Prod.snd hserved⟩, ?_⟩) ?_
    · rw [← hjobs]
      exact congrArg (·.1.db.jobs.rows) hserved
    · exact fun tiles h => absurd h hadmitted

end Launch

/-! ## A launch that stops halfway -/

/-- The builder of searches, given their number of candidates. -/
def launchSearch : String → Int → Dict → Option (List PyFloat) → Except Failure Tiles
  | "optimize", nTiles, [("n_candidates", .int n)], weights =>
      match Workloads.buildOptimizeJobs PyNumber.binary64.sum nTiles n 8 0 weights with
      | .ok jobs => .ok (jobs.map .ok)
      | .error (.valueError message) => .error (.valueError message)
      | .error (.overflowError _) => .error (.uncaught "OverflowError")
  | _, _, _, _ => .ok []

def searchConfig : Config := { buildWorkloadJobs := launchSearch }

/-- A worker without and one with a GPU, whose tile is five times as large. -/
def mixedFleet : World :=
  (run searchConfig 0
    (serve 0 5 (.register { workerId := "a" } none) ++
      serve 1 5 (.register { workerId := "b", hasGpu := true } none))).state

def hugeLaunch : WorkloadLaunchRequest :=
  { kind := "optimize", nTiles := some 2, params := [("n_candidates", .int (2 ^ 64))] }

/-- The jobs stored when the request has failed. -/
def storedAtFailure (served : World × Except Failure Reply) : Option (List String) :=
  match served.2 with
  | .error _ => some (served.1.db.jobs.rows.map (·.jobId))
  | .ok _ => none

set_option maxRecDepth 20000 in
theorem hugeLaunch_stores : storedAtFailure (serveAlone (machine searchConfig)
    (handle searchConfig (.launchWorkload hugeLaunch none)) (fun n => ([], n)) mixedFleet) =
      some [PyText.uuidHex 2] := by
  decide +kernel

set_option maxRecDepth 20000 in
theorem mixedFleet_jobs : mixedFleet.db.jobs.rows.map (·.jobId) = [] := by
  decide +kernel

/-- The second tile overflows when the first is queued. -/
theorem hugeLaunch_partial : ¬ AllOrNothing searchConfig hugeLaunch none (fun n => ([], n)) mixedFleet := by
  have hstored := hugeLaunch_stores
  rintro (⟨subs, rows, response, -, hok, -⟩ | ⟨-, hjobs⟩)
  · unfold storedAtFailure at hstored
    rw [hok] at hstored
    cases hstored
  · unfold storedAtFailure at hstored
    rw [hjobs, mixedFleet_jobs] at hstored
    split at hstored
    · cases hstored
    · cases hstored

end OneCompute
