import Mathlib.Data.List.Forall2
import OneCompute.Orchestrator.LaunchSize
import OneCompute.Orchestrator.WorkloadRuns
import OneCompute.Workloads.Outputs
import OneCompute.Workloads.TypedSpecs

/-!
From the launch of a workload to the answer on the dashboard, through any run: when the
results that were taken are what the executors compute, the summary of a workload is the
answer to what was launched.
-/

namespace OneCompute
open Jobkit (Objective SearchOutput)
open PyNumber (binary64)
open Workloads (Platform Summary HashWinner IsAnswer IsOptimum Solves TileRan Winner
  aggregateWorkload aggregateHashcrack aggregateOptimize buildHashcrackJobs buildOptimizeJobs
  hashcrackJob optimizeJob hashJson searchJson specified split_spec Fits HashArguments
  OptimumArguments)
open Spans (spans nonempty)

/-! ## The view of a launched workload -/

/-- Every result that was taken for one of the jobs is what comes of the job's input. -/
def HonestResults (cfg : Config) (clock : Time) (ms : List Move) (jobIds : List String)
    (Computes : JobKind → Dict → Dict → Prop) : Prop :=
  ∀ p ∈ runTrace cfg clock ms, ∀ (jobId : String) (req : ResultRequest) (now : Time)
    (response : ResultResponse),
    p.answered (machine cfg) = ⟨.settle jobId req now, .ok response⟩ → response.accepted = true →
    jobId ∈ jobIds → ∀ job ∈ p.pre.db.jobs, job.jobId = jobId →
      Computes job.kind job.inputJson req.outputOrEmpty

theorem HonestResults.output {cfg : Config} {clock : Time} {ms : List Move}
    {jobIds : List String} {Computes : JobKind → Dict → Dict → Prop}
    (h : HonestResults cfg clock ms jobIds Computes) {row : JobRow}
    (hrow : row ∈ (run cfg clock ms).state.db.jobs) (hid : row.jobId ∈ jobIds)
    (hc : row.state = .completed) :
    ∃ out, row.resultJson = some out ∧ Computes row.kind row.inputJson out := by
  obtain ⟨p, hp, req, now, job, htook⟩ := run_completed cfg clock ms row hrow hc
  obtain ⟨response, haccepted, hanswered⟩ := htook.accepted
  obtain ⟨hjob, hjobId⟩ := Table.find?_eq_some.mp htook.held.found
  have hout := h p hp _ req now response hanswered haccepted hid job hjob hjobId
  refine ⟨req.outputOrEmpty, ?_, ?_⟩
  · exact congrArg JobRow.resultJson htook.row
  · rw [htook.row]
    exact hout

theorem workloadView_error {F : Platform} {workloadId : String} {db : Db} {e : Failure}
    (h : workloadView F workloadId db = .error e) : workloadRows workloadId db = [] := by
  unfold workloadView at h
  split at h
  next hrows => exact hrows
  · cases h

def JobDetail.isCompleted (job : JobDetail) : Bool := decide (job.state = .completed)

/-- What a job of a view shows of the tile that was stored under its identifier. -/
structure JobDetail.Shows (job : JobDetail) (Computes : JobKind → Dict → Dict → Prop)
    (entry : String × SubmitRequest) : Prop where
  jobId : job.jobId = entry.1
  kind : job.kind = entry.2.kind
  units : job.units = entry.2.units
  output : job.state = .completed →
    ∃ out, job.output = some out ∧ Computes entry.2.kind entry.2.input out

/-- The view shows each of the tiles once, under the identifier it was stored under, and sums
up the outputs of the jobs it shows as completed. -/
structure WorkloadView.Shows (view : WorkloadView) (F : Platform)
    (Computes : JobKind → Dict → Dict → Prop) (entries shown : List (String × SubmitRequest)) :
    Prop where
  entries : shown.Perm entries
  jobs : List.Forall₂ (fun job entry => JobDetail.Shows job Computes entry) view.jobs shown
  total : view.total = view.jobs.length
  completed : view.completed = view.jobs.countP JobDetail.isCompleted
  kind : ∃ job ∈ view.jobs, view.kind = job.kind
  summary : view.summary = aggregateWorkload F view.kind.text
    ((view.jobs.filter JobDetail.isCompleted).filterMap (·.output))

theorem workloadView_shows {F : Platform} {workloadId : String} {db : Db} {view : WorkloadView}
    {Computes : JobKind → Dict → Dict → Prop} {entries shown : List (String × SubmitRequest)}
    (h : workloadView F workloadId db = .ok view) (hentries : shown.Perm entries)
    (hshown : List.Forall₂ (fun row entry => (jobDetail row).Shows Computes entry)
      (workloadRows workloadId db) shown) :
    view.Shows F Computes entries shown := by
  unfold workloadView at h
  split at h
  · cases h
  next first rest hrows =>
    cases h
    rw [hrows] at hshown
    refine ⟨hentries, List.forall₂_map_left_iff.mpr hshown, ?_, ?_, ?_, ?_⟩
    · exact (List.length_map _).symm
    · dsimp only
      rw [List.countP_map]
      rfl
    · exact ⟨jobDetail first, List.mem_cons_self, rfl⟩
    · dsimp only
      rw [List.filter_map, List.filterMap_map]
      rfl

/-- The outputs of the jobs that are shown as completed, and the tiles they belong to. -/
theorem shown_outputs {Computes : JobKind → Dict → Dict → Prop} {jobs : List JobDetail}
    {shown : List (String × SubmitRequest)}
    (h : List.Forall₂ (fun job entry => JobDetail.Shows job Computes entry) jobs shown) :
    ∃ done, List.Sublist done (shown.map Prod.snd) ∧
      done.length = jobs.countP JobDetail.isCompleted ∧
      List.Forall₂ (fun tile out => Computes tile.kind tile.input out) done
        ((jobs.filter JobDetail.isCompleted).filterMap (·.output)) := by
  induction h with
  | nil => exact ⟨[], .refl _, rfl, .nil⟩
  | @cons job entry jobs shown hshows _ ih =>
      obtain ⟨done, hdone, hlen, houtputs⟩ := ih
      by_cases hc : job.state = .completed
      · obtain ⟨out, houtput, hcomputes⟩ := hshows.output hc
        have hjob : job.isCompleted = true := decide_eq_true hc
        refine ⟨entry.2 :: done, hdone.cons_cons entry.2, ?_, ?_⟩
        · rw [List.length_cons, hlen, List.countP_cons_of_pos hjob]
        · rw [List.filter_cons_of_pos hjob, List.filterMap_cons, houtput]
          exact .cons hcomputes houtputs
      · have hjob : ¬ job.isCompleted = true := fun h => hc (of_decide_eq_true h)
        refine ⟨done, hdone.cons entry.2, ?_, ?_⟩
        · rw [hlen, List.countP_cons_of_neg hjob]
        · rw [List.filter_cons_of_neg hjob]
          exact houtputs

section Shown
variable {view : WorkloadView} {F : Platform} {Computes : JobKind → Dict → Dict → Prop}
  {jobIds : List String} {tiles : List SubmitRequest} {shown : List (String × SubmitRequest)}

theorem WorkloadView.Shows.length (h : view.Shows F Computes (jobIds.zip tiles) shown)
    (hlen : jobIds.length = tiles.length) : view.total = tiles.length := by
  rw [h.total, h.jobs.length_eq, h.entries.length_eq, List.length_zip, hlen, Nat.min_self]

theorem WorkloadView.Shows.tile (h : view.Shows F Computes (jobIds.zip tiles) shown) :
    ∃ tile ∈ tiles, view.kind = tile.kind := by
  obtain ⟨job, hjob, hkind⟩ := h.kind
  obtain ⟨entry, hentry, hshows⟩ := Results.forall₂_mem_left h.jobs hjob
  exact ⟨entry.2, (List.of_mem_zip (h.entries.mem_iff.mp hentry)).2, hkind.trans hshows.kind⟩

/-- The summary is made of outputs for some of the tiles, as many as are completed. -/
theorem WorkloadView.Shows.done (h : view.Shows F Computes (jobIds.zip tiles) shown)
    (hlen : jobIds.length = tiles.length) :
    ∃ done outputs, List.Subperm done tiles ∧ done.length = view.completed ∧
      List.Forall₂ (fun tile out => Computes tile.kind tile.input out) done outputs ∧
      view.summary = aggregateWorkload F view.kind.text outputs := by
  obtain ⟨done, hdone, hdoneLen, houtputs⟩ := shown_outputs h.jobs
  refine ⟨done, _, hdone.subperm.trans ?_, hdoneLen.trans h.completed.symm, houtputs, h.summary⟩
  have htiles := h.entries.map Prod.snd
  rw [List.map_snd_zip hlen.ge] at htiles
  exact htiles.subperm

end Shown

/-! ## A launched workload later on -/

section Launch
variable {cfg : Config} {clock : Time} {ms : List Move} {i : Nat} {req : WorkloadLaunchRequest}
  {auth : Option String} {past : Past} {response : WorkloadLaunchResponse}

/-- The rows of a workload, each with the identifier and the tile it was stored for. -/
theorem zipped_rows {Computes : JobKind → Dict → Dict → Prop} {tiles : List SubmitRequest}
    {rows : List JobRow} (h : List.Forall₂ (fun tile row => JobRow.Holds row tile) tiles rows)
    (hout : ∀ row ∈ rows, row.state = .completed →
      ∃ out, row.resultJson = some out ∧ Computes row.kind row.inputJson out) :
    List.Forall₂ (fun row entry => (jobDetail row).Shows Computes entry) rows
      ((rows.map (·.jobId)).zip tiles) := by
  induction h with
  | nil => exact .nil
  | @cons tile row tiles rows hholds _ ih =>
      refine .cons ⟨rfl, hholds.kind, hholds.units, fun hc => ?_⟩
        (ih fun r hr => hout r (List.mem_cons_of_mem _ hr))
      obtain ⟨out, hresult, hcomputes⟩ := hout row List.mem_cons_self hc
      exact ⟨out, hresult, hholds.kind ▸ hholds.input ▸ hcomputes⟩

/-- At any time after a launch, and whatever else is served, the view of its workload
shows the tiles that were built for it, and its summary is made of the outputs of the
completed ones. -/
theorem launched_view (F : Platform) (hret : (run cfg clock ms).threads[i]? =
      some ⟨.launchWorkload req auth, past, .ret (.launched response)⟩) (ns : List Move)
    (hdrawn : DrawnOnce cfg clock (ms ++ ns) i response.workloadId)
    {Computes : JobKind → Dict → Dict → Prop}
    (honest : HonestResults cfg clock (ms ++ ns) response.jobIds Computes) :
    ∃ n workers tiles, Saw past .activeWorkers workers ∧
      cfg.buildWorkloadJobs req.kind n req.params (capabilityTileWeights workers n) =
        .ok (tiles.map .ok) ∧
      response.jobIds.length = tiles.length ∧
      (tiles ≠ [] → ∃ view, workloadView F response.workloadId
        (run cfg clock (ms ++ ns)).state.db = .ok view) ∧
      ∀ view, workloadView F response.workloadId (run cfg clock (ms ++ ns)).state.db = .ok view →
        ∃ shown, view.Shows F Computes (response.jobIds.zip tiles) shown := by
  obtain ⟨n, workers, tiles, hworkers, hbuilt, rows, hrows, hids, hholds⟩ :=
    run_workload hret ns hdrawn
  have hperm := workloadRows_perm response.workloadId (run cfg clock (ms ++ ns)).state.db
  rw [← hrows] at hperm
  have hlen : response.jobIds.length = tiles.length := by
    rw [← hids, List.length_map]
    exact hholds.length_eq.symm
  refine ⟨n, workers, tiles, hworkers, hbuilt, hlen, fun hne => ?_, fun view hview => ?_⟩
  · cases hview : workloadView F response.workloadId (run cfg clock (ms ++ ns)).state.db with
    | ok view => exact ⟨view, rfl⟩
    | error e =>
        rw [workloadView_error hview] at hperm
        have hnil := hholds.length_eq
        rw [List.nil_perm.mp hperm] at hnil
        exact absurd (List.eq_nil_of_length_eq_zero hnil) hne
  · have hout : ∀ row ∈ rows, row.state = .completed →
        ∃ out, row.resultJson = some out ∧ Computes row.kind row.inputJson out := by
      intro row hrow hc
      refine honest.output (mem_workloadRows.mp (hperm.mem_iff.mpr hrow)).1 ?_ hc
      rw [← hids]
      exact List.mem_map_of_mem hrow
    have hzipped := zipped_rows hholds hout
    rw [hids] at hzipped
    -- the view lists the rows by age, so the tiles are shown in that order
    obtain ⟨shown, hshown, hentries⟩ := List.perm_comp_forall₂ hperm hzipped
    exact ⟨shown, workloadView_shows hview hentries hshown⟩

end Launch

/-! ## What the builders of the repository specify -/

/-- The validation takes a specification of the builders as it is. -/
def Validates (validate : Dict → Except String SubmitRequest) : Prop :=
  ∀ (kind : JobKind) (input : Dict) (units : Int),
    validate (Workloads.spec kind.text input (.int units)) =
      .ok { kind := kind, input := input, units := units }

section Typed
variable {sum : List PyFloat → PyFloat} {validate : Dict → Except String SubmitRequest}
  {kind : String} {n : Int} {params : Dict} {weights : Option (List PyFloat)}
  {tiles : List SubmitRequest}

/-- What was built from typed parameters are the jobs of the typed builder. -/
theorem built_typed (hvalidate : Validates validate)
    {jobs : Except Workloads.Raised (List SubmitRequest)}
    (hspecs : ∀ specs, Workloads.buildWorkloadSpecs sum kind n params weights = .ok specs →
      specified jobs = .ok specs)
    (hplain : ∀ js, jobs = .ok js → ∀ job ∈ js,
      job = { kind := job.kind, input := job.input, units := job.units })
    (h : buildAndValidate sum validate kind n params weights = .ok (tiles.map .ok)) :
    jobs = .ok tiles := by
  unfold buildAndValidate at h
  cases hbuilt : Workloads.buildWorkloadSpecs sum kind n params weights with
  | error e =>
      rw [hbuilt] at h
      cases h
  | ok specs =>
      rw [hbuilt] at h
      have hvalidated : specs.map validate = tiles.map .ok := Except.ok.inj h
      have hspecified := hspecs specs hbuilt
      cases jobs with
      | error e => cases hspecified
      | ok js =>
          obtain rfl : js.map Workloads.specOf = specs := Except.ok.inj hspecified
          have hvalid : (js.map Workloads.specOf).map validate = js.map .ok := by
            rw [List.map_map]
            refine List.map_congr_left fun job hjob => ?_
            rw [hplain js rfl job hjob]
            exact hvalidate job.kind job.input job.units
          rw [hvalid] at hvalidated
          exact congrArg Except.ok (List.map_injective_iff.mpr (fun _ _ => Except.ok.inj) hvalidated)

variable {keyspace nonceStart nCandidates dims seed : Int} {targetPre pre : String}

theorem hashcrack_spans {jobs : List SubmitRequest}
    (h : buildHashcrackJobs sum n keyspace targetPre pre nonceStart weights = .ok jobs) :
    ∃ sizes, jobs = (nonempty (spans 0 sizes)).map (hashcrackJob targetPre pre nonceStart) ∧
      (∀ s ∈ sizes, 0 ≤ s) ∧ (sizes.sum = keyspace ↔ Fits binary64 sum keyspace weights) ∧
      0 < keyspace := by
  unfold buildHashcrackJobs at h
  split at h
  · cases h
  split at h
  · cases h
  next hpos =>
    split at h
    · cases h
    obtain ⟨ranges, hranges, h⟩ := Results.bind_eq_ok.mp h
    cases h
    obtain ⟨sizes, rfl, hsizes, hfits, -⟩ := split_spec PyNumber.binary64_keepsSign hranges
    exact ⟨sizes, rfl, hsizes, hfits, by omega⟩

theorem optimize_spans {jobs : List SubmitRequest}
    (h : buildOptimizeJobs sum n nCandidates dims seed weights = .ok jobs) :
    ∃ sizes, jobs = (nonempty (spans 0 sizes)).map (optimizeJob dims seed) ∧
      (∀ s ∈ sizes, 0 ≤ s) ∧ (sizes.sum = nCandidates ↔ Fits binary64 sum nCandidates weights) ∧
      0 < nCandidates := by
  unfold buildOptimizeJobs at h
  split at h
  · cases h
  split at h
  · cases h
  next hpos =>
    split at h
    · cases h
    obtain ⟨ranges, hranges, h⟩ := Results.bind_eq_ok.mp h
    cases h
    obtain ⟨sizes, rfl, hsizes, hfits, -⟩ := split_spec PyNumber.binary64_keepsSign hranges
    exact ⟨sizes, rfl, hsizes, hfits, by omega⟩

theorem built_hashcrack (hvalidate : Validates validate)
    (hparams : HashArguments params keyspace targetPre pre nonceStart)
    (h : buildAndValidate sum validate "hashcrack" n params weights = .ok (tiles.map .ok)) :
    buildHashcrackJobs sum n keyspace targetPre pre nonceStart weights = .ok tiles := by
  refine built_typed hvalidate (fun specs hspecs => ?_) ?_ h
  · change Workloads.buildHashcrackSpecs sum n params weights = .ok specs at hspecs
    rw [Workloads.buildHashcrackSpecs_typed hparams] at hspecs
    exact (Results.bind_eq_ok.mp hspecs).choose_spec.2
  intro js hjs job hjob
  obtain ⟨sizes, rfl, -⟩ := hashcrack_spans hjs
  obtain ⟨r, -, rfl⟩ := List.mem_map.mp hjob
  rfl

theorem built_optimize (hvalidate : Validates validate)
    (hparams : OptimumArguments params nCandidates dims seed)
    (h : buildAndValidate sum validate "optimize" n params weights = .ok (tiles.map .ok)) :
    buildOptimizeJobs sum n nCandidates dims seed weights = .ok tiles := by
  refine built_typed hvalidate (fun specs hspecs => ?_) ?_ h
  · change Workloads.buildOptimizeSpecs sum n params weights = .ok specs at hspecs
    rw [Workloads.buildOptimizeSpecs_typed hparams] at hspecs
    exact (Results.bind_eq_ok.mp hspecs).choose_spec.2
  intro js hjs job hjob
  obtain ⟨sizes, rfl, -⟩ := optimize_spans hjs
  obtain ⟨r, -, rfl⟩ := List.mem_map.mp hjob
  rfl

end Typed

theorem nonempty_ne_nil {sizes : List Int} (hsizes : ∀ s ∈ sizes, 0 ≤ s) (hpos : 0 < sizes.sum) :
    nonempty (spans 0 sizes) ≠ [] := by
  intro hnil
  have hcover := @Spans.spans_flatMap 0 sizes hsizes
  rw [← Spans.nonempty_flatMap, hnil] at hcover
  have hlen := congrArg List.length hcover
  rw [Spans.length_range, List.flatMap_nil, List.length_nil] at hlen
  omega

/-! ## The answer to a hash search -/

/-- What comes of a tile of a hash search, on some machine. -/
def HashComputes (digest : String → Int → Except String String) (kind : JobKind)
    (input out : Dict) : Prop :=
  kind = .hashcrack →
    ∃ tile, TileRan digest { kind := .hashcrack, input := input } tile ∧ out = hashJson tile

theorem hashComputes_outputs {digest : String → Int → Except String String}
    {done : List SubmitRequest} {outputs : List Dict}
    (h : List.Forall₂ (fun tile out => HashComputes digest tile.kind tile.input out) done outputs)
    (hkind : ∀ tile ∈ done, tile.kind = .hashcrack) :
    ∃ outs, List.Forall₂ (TileRan digest) done outs ∧ outputs = outs.map hashJson := by
  induction h with
  | nil => exact ⟨[], .nil, rfl⟩
  | cons hcomputes _ ih =>
      obtain ⟨out, hran, rfl⟩ := hcomputes (hkind _ List.mem_cons_self)
      obtain ⟨outs, houts, rfl⟩ := ih fun tile htile => hkind tile (List.mem_cons_of_mem _ htile)
      exact ⟨out :: outs, .cons hran houts, rfl⟩

section Hashcrack
variable {cfg : Config} {sum : List PyFloat → PyFloat}
  {validate : Dict → Except String SubmitRequest} {clock : Time} {ms : List Move} {i : Nat}
  {req : WorkloadLaunchRequest} {auth : Option String} {past : Past}
  {response : WorkloadLaunchResponse} {keyspace nonceStart : Int} {targetPre pre : String}

/-- From the launch of a hash search on, in any run whose results are honest: once a tile
is completed there is a summary, a nonce it names is a solution, and when all tiles are
completed it is the answer. -/
theorem hashcrack_answered (F : Platform) (hvalidate : Validates validate)
    (hret : (run (cfg.building sum validate) clock ms).threads[i]? =
      some ⟨.launchWorkload req auth, past, .ret (.launched response)⟩)
    (hkind : req.kind = "hashcrack")
    (hparams : HashArguments req.params keyspace targetPre pre nonceStart)
    (ns : List Move)
    (hdrawn : DrawnOnce (cfg.building sum validate) clock (ms ++ ns) i response.workloadId)
    {digest : String → Int → Except String String}
    (honest : HonestResults (cfg.building sum validate) clock (ms ++ ns) response.jobIds
      (HashComputes digest)) :
    ∃ n workers, Saw past .activeWorkers workers ∧
      (Fits binary64 sum keyspace (capabilityTileWeights workers n) →
        ∃ view, workloadView F response.workloadId
            (run (cfg.building sum validate) clock (ms ++ ns)).state.db = .ok view ∧
          view.total = response.jobIds.length ∧
          (view.completed = 0 → view.summary = none) ∧
          (0 < view.completed → ∃ w : HashWinner, view.summary = some w.summary ∧
            (w.found = true → ∃ nonce hash, w.nonce = some nonce ∧ w.hash = some hash ∧
              Solves digest targetPre pre nonceStart keyspace nonce hash) ∧
            (view.completed = view.total →
              IsAnswer digest targetPre pre nonceStart keyspace w))) := by
  obtain ⟨n, workers, tiles, hworkers, hbuilt, hlen, hviews, hall⟩ :=
    launched_view F hret ns hdrawn honest
  rw [hkind] at hbuilt
  obtain ⟨sizes, rfl, hsizes, hfitsIff, hpos⟩ :=
    hashcrack_spans (built_hashcrack hvalidate hparams hbuilt)
  refine ⟨n, workers, hworkers, fun hfits => ?_⟩
  have hsum := hfitsIff.mpr hfits
  have hne : nonempty (spans 0 sizes) ≠ [] := nonempty_ne_nil hsizes (by omega)
  obtain ⟨view, hview⟩ := hviews fun hnil => hne (List.map_eq_nil_iff.mp hnil)
  obtain ⟨shown, hshown⟩ := hall view hview
  have htotal := hshown.length hlen
  obtain ⟨tile, htile, hkindView⟩ := hshown.tile
  obtain ⟨done, outputs, hdone, hdoneLen, houtputs, hsummary⟩ := hshown.done hlen
  obtain ⟨r, -, rfl⟩ := List.mem_map.mp htile
  have hkinds : ∀ tile ∈ done, tile.kind = .hashcrack := by
    intro tile htile
    obtain ⟨r, -, rfl⟩ := List.mem_map.mp (hdone.subset htile)
    rfl
  obtain ⟨outs, hran, rfl⟩ := hashComputes_outputs houtputs hkinds
  rw [hkindView] at hsummary
  refine ⟨view, hview, htotal.trans hlen.symm, fun hzero => ?_, fun hsome => ?_⟩
  · obtain rfl := List.eq_nil_of_length_eq_zero (hdoneLen.trans hzero)
    cases hran
    exact hsummary
  · have houts : outs.map hashJson ≠ [] := by
      intro hnil
      have := hran.length_eq
      rw [List.map_eq_nil_iff.mp hnil, List.length_nil] at this
      omega
    refine ⟨aggregateHashcrack (outs.map some), ?_, fun hfound => ?_, fun hcompleted => ?_⟩
    · rw [hsummary, ← Workloads.aggregateHashcrackOutputs_typed]
      exact if_neg houts
    · rw [← hsum]
      exact Workloads.found_solves hsizes (fun tile htile => hdone.subset htile) hran hfound
    · have hperm := hdone.perm_of_length_le (by omega)
      obtain ⟨ordered, hordered, horder⟩ := List.perm_comp_forall₂ hperm.symm hran
      apply Workloads.isAnswer_of_searched (by omega)
      rw [← hsum]
      refine Workloads.aggregate_searched hsizes hordered ?_
      rw [Results.reduceOption_map_some]
      exact horder.symm

end Hashcrack

/-! ## The answer to a search for an optimum -/

/-- What comes of a tile of a search for an optimum. -/
def SearchComputes (o : Objective Rat) (kind : JobKind) (input out : Dict) : Prop :=
  kind = .optimize → ∃ tile, o.optimize (fun _ => false) input = some tile ∧ out = searchJson tile

theorem searchComputes_outputs {o : Objective Rat} {done : List SubmitRequest}
    {outputs : List Dict}
    (h : List.Forall₂ (fun tile out => SearchComputes o tile.kind tile.input out) done outputs)
    (hkind : ∀ tile ∈ done, tile.kind = .optimize) :
    ∃ outs, List.Forall₂ (fun (tile : SubmitRequest) out =>
      o.optimize (fun _ => false) tile.input = some out) done outs ∧
        outputs = outs.map searchJson := by
  induction h with
  | nil => exact ⟨[], .nil, rfl⟩
  | cons hcomputes _ ih =>
      obtain ⟨out, hran, rfl⟩ := hcomputes (hkind _ List.mem_cons_self)
      obtain ⟨outs, houts, rfl⟩ := ih fun tile htile => hkind tile (List.mem_cons_of_mem _ htile)
      exact ⟨out :: outs, .cons hran houts, rfl⟩

section Optimize
variable {cfg : Config} {sum : List PyFloat → PyFloat}
  {validate : Dict → Except String SubmitRequest} {clock : Time} {ms : List Move} {i : Nat}
  {req : WorkloadLaunchRequest} {auth : Option String} {past : Past}
  {response : WorkloadLaunchResponse} {nCandidates dims seed : Int}

/-- From the launch of a search on, in any run whose results are honest: once a tile is
completed the summary names a candidate with its own score, and when all tiles are
completed it is the optimum. -/
theorem optimize_answered (F : Platform) (hvalidate : Validates validate)
    (hret : (run (cfg.building sum validate) clock ms).threads[i]? =
      some ⟨.launchWorkload req auth, past, .ret (.launched response)⟩)
    (hkind : req.kind = "optimize")
    (hparams : OptimumArguments req.params nCandidates dims seed)
    (ns : List Move)
    (hdrawn : DrawnOnce (cfg.building sum validate) clock (ms ++ ns) i response.workloadId)
    {o : Objective Rat}
    (honest : HonestResults (cfg.building sum validate) clock (ms ++ ns) response.jobIds
      (SearchComputes o)) :
    ∃ n workers, Saw past .activeWorkers workers ∧
      (Fits binary64 sum nCandidates (capabilityTileWeights workers n) →
        ∃ view, workloadView F response.workloadId
            (run (cfg.building sum validate) clock (ms ++ ns)).state.db = .ok view ∧
          view.total = response.jobIds.length ∧
          (view.completed = 0 → view.summary = none) ∧
          (0 < view.completed → ∃ w : Winner Rat, view.summary = some w.summary ∧
            (0 ≤ w.bestIndex ∧ w.bestIndex < nCandidates ∧
              w.bestScore = Workloads.scoreOf o dims seed w.bestIndex ∧
              w.bestParams = o.config w.bestIndex dims seed) ∧
            (view.completed = view.total → IsOptimum o dims seed nCandidates w))) := by
  obtain ⟨n, workers, tiles, hworkers, hbuilt, hlen, hviews, hall⟩ :=
    launched_view F hret ns hdrawn honest
  rw [hkind] at hbuilt
  obtain ⟨sizes, rfl, hsizes, hfitsIff, hpos⟩ :=
    optimize_spans (built_optimize hvalidate hparams hbuilt)
  refine ⟨n, workers, hworkers, fun hfits => ?_⟩
  have hsum := hfitsIff.mpr hfits
  have hne : nonempty (spans 0 sizes) ≠ [] := nonempty_ne_nil hsizes (by omega)
  obtain ⟨view, hview⟩ := hviews fun hnil => hne (List.map_eq_nil_iff.mp hnil)
  obtain ⟨shown, hshown⟩ := hall view hview
  have htotal := hshown.length hlen
  obtain ⟨tile, htile, hkindView⟩ := hshown.tile
  obtain ⟨done, outputs, hdone, hdoneLen, houtputs, hsummary⟩ := hshown.done hlen
  obtain ⟨r, -, rfl⟩ := List.mem_map.mp htile
  have hkinds : ∀ tile ∈ done, tile.kind = .optimize := by
    intro tile htile
    obtain ⟨r, -, rfl⟩ := List.mem_map.mp (hdone.subset htile)
    rfl
  obtain ⟨outs, hran, rfl⟩ := searchComputes_outputs houtputs hkinds
  rw [hkindView] at hsummary
  refine ⟨view, hview, htotal.trans hlen.symm, fun hzero => ?_, fun hsome => ?_⟩
  · obtain rfl := List.eq_nil_of_length_eq_zero (hdoneLen.trans hzero)
    cases hran
    exact hsummary
  · have houts : outs.map searchJson ≠ [] := by
      intro hnil
      have := hran.length_eq
      rw [List.map_eq_nil_iff.mp hnil, List.length_nil] at this
      omega
    have hdoneNe : done ≠ [] := List.ne_nil_of_length_pos (by omega)
    refine ⟨aggregateOptimize outs, ?_, ?_, fun hcompleted => ?_⟩
    · rw [hsummary, ← Workloads.aggregateOptimizeOutputs_typed]
      exact if_neg houts
    · rw [← hsum]
      exact Workloads.leader_inside hsizes hdoneNe (fun tile htile => hdone.subset htile) hran
    · have hperm := hdone.perm_of_length_le (by omega)
      obtain ⟨ordered, hordered, horder⟩ := List.perm_comp_forall₂ hperm.symm hran
      obtain ⟨outs', houts', hopt⟩ :=
        Workloads.aggregate_slices o dims seed nCandidates hpos hsizes
      obtain rfl := List.right_unique_forall₂' (fun _ _ _ h h' => Option.some.inj (h.symm.trans h'))
        (Results.mapM_some_forall₂ houts') hordered
      exact (hopt outs horder.symm).2 hsum

end Optimize

end OneCompute
