import OneCompute.Isolation.RunsOnce
import OneCompute.Lib.JsonRoundTrip
import OneCompute.Worker.Agent

/-!
The files between the worker and `python -m jobkit`: whatever boundary a job runs behind,
an output that comes back is what the executor puts out in process.
-/

namespace OneCompute.Isolation
open Worker (Execution RunFailure)

/-- The executors: a kind, an input, and the output unless one raises. -/
abbrev Executors := Json → Json → Except String Dict

/-- `json.dump(value, fh)`; an integer that is too long to print raises. -/
def dumpFile (value : Json) : Option String :=
  if value.withinDigits then some (String.ofList (Json.spaced true [' '] value)) else none

/-- `json.load(fh)` -/
def loadFile (text : String) : OutFile :=
  match Json.loads text with
  | some value => .json value
  | none => .malformed

def specJson (kind : JobKind) (input : Dict) : Json :=
  .obj [("kind", .str kind.text), ("input", .obj input)]

/-! ## The child process -/

/-- `spec["kind"]` and `spec.get("input", {})` of the input file. -/
def readSpec (inFile : String) : Except String (Json × Json) :=
  match Json.loads inFile with
  | none => .error "json.decoder.JSONDecodeError\n"
  | some (.obj spec) =>
      match Json.lookup spec "kind" with
      | some kind => .ok (kind, (Json.lookup spec "input").getD (.obj []))
      | none => .error "KeyError: 'kind'\n"
  | some _ => .error "TypeError\n"

def digitLimitMessage : String :=
  "ValueError: Exceeds the limit (4300 digits) for integer string conversion\n"

/-- The process of a job that ran to its end, with the files it read and wrote. The output
file is there when writing to it raises, but not all of the text is in it. -/
def jobkitProcess (ticks : List Tick) (execute : Executors) (inFile : String) : Process :=
  let exit := Jobkit.main ["jobkit", "in.json", "out.json"] (readSpec inFile)
    fun spec => execute spec.1 spec.2
  match exit.output with
  | none => Process.ofExit ticks exit
  | some output =>
      match dumpFile (.obj output) with
      | some text => { Process.ofExit ticks exit with outFile := loadFile text }
      | none =>
          { ticks, returncode := 1
            pipes := some ("", Jobkit.tracebackHead ++ digitLimitMessage)
            outFile := .malformed, ranJob := true }

/-- A process behind a boundary may fail, be killed or never come to run the job; where it
exits with 0 and leaves an output file, it is what the job left. -/
def RunsJobkit (execute : Executors) (inFile : String) (start : Start) : Prop :=
  ∀ p, start = .started p → p.returncode = 0 → p.outFile = .absent ∨
    ((jobkitProcess p.ticks execute inFile).returncode = 0 ∧
      p.outFile = (jobkitProcess p.ticks execute inFile).outFile)

structure Machine.RunsJobs (m : Machine) (execute : Executors) (inFile : String) : Prop where
  mxc : RunsJobkit execute inFile m.mxc
  docker : RunsJobkit execute inFile m.docker
  host : RunsJobkit execute inFile m.host

/-! ## The worker -/

/-- `run_in_isolation`; what happens behind the boundaries depends on the input file. -/
def runFiles (m : String → Machine) (kind : JobKind) (input : Dict)
    (hostSide allowUnsandboxed : Bool) : Except Raised JobEnd :=
  match dumpFile (specJson kind input) with
  | none => .error (.other "ValueError")
  | some inFile => (runInIsolation (m inFile) hostSide allowUnsandboxed).2

def raisedMessage : Raised → String
  | .infra message | .runtime message | .timeout message | .unavailable message => message
  | .other exception => exception

def yieldMarker : Dict := [("yielded", .bool true), ("results", .arr [])]

/-- What an agent executes jobs with: behind the boundaries, or in process. -/
def execution (m : Limits → String → Machine) (execute : Executors) : Execution where
  runInIsolation kind input limits hostSide allowUnsandboxed :=
    match runFiles (m limits) kind input hostSide allowUnsandboxed with
    | .ok .yielded => .ok yieldMarker
    | .ok (.output (.obj output)) => .ok output
    | .ok (.output _) => .error (.other "AttributeError")
    | .error (.unavailable message) => .error (.isolationUnavailable message)
    | .error raised => .error (.other (raisedMessage raised))
  runner manifest input :=
    (execute (.str manifest.kind.text) (.obj input)).mapError RunFailure.other

/-- The boundary that is tried first, and what happens behind it. -/
def Machine.first (m : Machine) (hostSide : Bool) : Boundary × Start :=
  if !hostSide && m.mxcAvailable then (.mxc, m.mxc)
  else if !hostSide && m.dockerAvailable then
    (.docker, if (ensureImage m.image).isOk then m.docker else .failed "image")
  else (.host, m.host)

/-! ## What is written is read -/

theorem dumpFile_eq_some {value : Json} {text : String} (h : dumpFile value = some text)
    (hheld : value.held = true) : Json.loads text = some value := by
  unfold dumpFile at h
  split at h
  next hdigits =>
    obtain rfl := Option.some.inj h
    have hgap : ∀ c ∈ [' '], Json.isBlank c = true := List.forall_mem_singleton.mpr rfl
    have hread := @Json.loads_spaced true _ hgap value
      ((Json.storable_iff value).trans (by rw [hheld, hdigits]; rfl)) [] (by simp)
    rwa [List.append_nil] at hread
  · cases h

theorem readSpec_dumpFile {kind : JobKind} {input : Dict} {inFile : String}
    (hinput : (Json.obj input).held = true) (h : dumpFile (specJson kind input) = some inFile) :
    readSpec inFile = .ok (.str kind.text, .obj input) := by
  have hheld : (specJson kind input).held = true := by
    have hfields : (Json.obj input).held = true := hinput
    simp [specJson, Json.held, Json.fieldsHeld] at hfields ⊢
    exact hfields
  unfold readSpec
  rw [dumpFile_eq_some h hheld]
  rfl

section Jobkit
variable {execute : Executors} {kind : JobKind} {input : Dict} {inFile : String}

theorem jobkitProcess_ticks (ticks : List Tick) :
    (jobkitProcess ticks execute inFile).ticks = ticks := by
  unfold jobkitProcess
  dsimp only
  split
  · rfl
  · split <;> rfl

theorem jobkitProcess_error {e : String} (ticks : List Tick)
    (hspec : readSpec inFile = .ok (.str kind.text, .obj input))
    (h : execute (.str kind.text) (.obj input) = .error e) :
    (jobkitProcess ticks execute inFile).returncode ≠ 0 := by
  unfold jobkitProcess Jobkit.main
  simp [hspec, h, bind, Except.bind, Process.ofExit]

theorem jobkitProcess_ok {output : Dict} (ticks : List Tick)
    (hspec : readSpec inFile = .ok (.str kind.text, .obj input))
    (h : execute (.str kind.text) (.obj input) = .ok output)
    (hheld : (Json.obj output).held = true) :
    if (Json.obj output).withinDigits then
      jobkitProcess ticks execute inFile = Process.ofExit ticks ⟨0, "", some output⟩
    else (jobkitProcess ticks execute inFile).returncode ≠ 0 := by
  have hexit : Jobkit.main ["jobkit", "in.json", "out.json"] (readSpec inFile)
      (fun spec => execute spec.1 spec.2) = ⟨0, "", some output⟩ := by
    simp [Jobkit.main, hspec, h, bind, Except.bind]
  unfold jobkitProcess
  rw [hexit]
  by_cases hdigits : (Json.obj output).withinDigits = true
  · have hdump : dumpFile (.obj output) =
        some (String.ofList (Json.spaced true [' '] (.obj output))) := if_pos hdigits
    have hload : loadFile (String.ofList (Json.spaced true [' '] (.obj output))) =
        .json (.obj output) := by
      unfold loadFile
      rw [dumpFile_eq_some hdump hheld]
    rw [if_pos hdigits]
    simp only [hdump, hload]
    rfl
  · have hdump : dumpFile (.obj output) = none := if_neg hdigits
    rw [if_neg hdigits]
    simp [hdump]

/-- An output file that jobkit has left with success holds what the executor has put out. -/
theorem jobkitProcess_output (hexec : ∀ k i o, execute k i = .ok o → (Json.obj o).held = true)
    (hspec : readSpec inFile = .ok (.str kind.text, .obj input)) {ticks : List Tick}
    (hrc : (jobkitProcess ticks execute inFile).returncode = 0) :
    ∃ output, execute (.str kind.text) (.obj input) = .ok output ∧
      (Json.obj output).withinDigits = true ∧
      (jobkitProcess ticks execute inFile).outFile = .json (.obj output) := by
  cases h : execute (.str kind.text) (.obj input) with
  | error e => exact absurd hrc (jobkitProcess_error ticks hspec h)
  | ok output =>
      have hok := jobkitProcess_ok ticks hspec h (hexec _ _ _ h)
      split at hok
      next hdigits => exact ⟨output, rfl, hdigits, by rw [hok]; rfl⟩
      next => exact absurd hrc hok

end Jobkit

/-! ## Through the boundaries -/

/-- The value is in the file of a process that has exited with 0. -/
def LeftBy (start : Start) (value : Json) : Prop :=
  ∃ p, start = .started p ∧ p.returncode = 0 ∧ p.outFile = .json value

theorem loadOutput_output {file : OutFile} {value : Json}
    (h : loadOutput file = .ok (.output value)) : file = .json value := by
  cases file with
  | absent => cases h
  | malformed => cases h
  | json v =>
      cases h
      rfl

theorem runMxc_output {start : Start} {value : Json}
    (h : runMxc start = .ok (.output value)) : LeftBy start value := by
  cases start with
  | failed message => cases h
  | started p =>
      simp only [runMxc] at h
      split at h
      · cases h
      · cases h
      · cases h
      · split at h
        · split at h
          · cases h
          · split at h <;> cases h
        next hrc =>
          split at h
          · cases h
          · exact ⟨p, rfl, not_not.mp hrc, loadOutput_output h⟩

theorem runContainer_output {start : Start} {value : Json}
    (h : runContainer start = .ok (.output value)) : LeftBy start value := by
  cases start with
  | failed message => cases h
  | started p =>
      simp only [runContainer] at h
      split at h
      · cases h
      · cases h
      · cases h
      · by_cases hrc : p.returncode ≠ 0
        · rw [if_pos hrc, ← apply_ite Except.error] at h
          cases h
        · rw [if_neg hrc] at h
          exact ⟨p, rfl, not_not.mp hrc, loadOutput_output h⟩

theorem runDocker_output {image : ImageState} {start : Start} {value : Json}
    (h : runDocker image start = .ok (.output value)) : LeftBy start value := by
  unfold runDocker at h
  cases himage : ensureImage image with
  | error e => simp [himage, bind, Except.bind] at h
  | ok u => exact runContainer_output (by simpa [himage, bind, Except.bind] using h)

theorem runSubprocess_output {start : Start} {value : Json}
    (h : runSubprocess start = .ok (.output value)) : LeftBy start value := by
  cases start with
  | failed message => cases h
  | started p =>
      simp only [runSubprocess] at h
      split at h
      · cases h
      · cases h
      · cases h
      · split at h
        · cases h
        next hrc => exact ⟨p, rfl, not_not.mp hrc, loadOutput_output h⟩

theorem runHost_output {m : Machine} {hostSide allow : Bool} {tried : List Attempt} {value : Json}
    (h : (runHost m hostSide allow tried).2 = .ok (.output value)) : LeftBy m.host value := by
  unfold runHost at h
  split at h
  · cases h
  · exact runSubprocess_output h

theorem runDockerOrHost_output {m : Machine} {hostSide allow : Bool} {tried : List Attempt}
    {value : Json} (h : (runDockerOrHost m hostSide allow tried).2 = .ok (.output value)) :
    LeftBy m.docker value ∨ LeftBy m.host value := by
  unfold runDockerOrHost at h
  split at h
  · split at h
    · exact .inr (runHost_output h)
    · exact .inl (runDocker_output h)
  · exact .inr (runHost_output h)

theorem runInIsolation_output {m : Machine} {hostSide allow : Bool} {value : Json}
    (h : (runInIsolation m hostSide allow).2 = .ok (.output value)) :
    LeftBy m.mxc value ∨ LeftBy m.docker value ∨ LeftBy m.host value := by
  unfold runInIsolation at h
  split at h
  · split at h
    · exact .inr (runDockerOrHost_output h)
    · exact .inl (runMxc_output h)
  · exact .inr (runDockerOrHost_output h)

section Finished
variable {ticks : List Tick} (hexit : pollLoop ticks = .exited) {output : Dict}
include hexit

theorem runMxc_finished : runMxc (.started (Process.ofExit ticks ⟨0, "", some output⟩)) =
    .ok (.output (.obj output)) := by
  simp [runMxc, Process.ofExit, hexit, loadOutput]

theorem runDocker_finished {image : ImageState} (himage : (ensureImage image).isOk = true) :
    runDocker image (.started (Process.ofExit ticks ⟨0, "", some output⟩)) =
      .ok (.output (.obj output)) := by
  unfold runDocker
  cases hensure : ensureImage image with
  | error e =>
      rw [hensure] at himage
      cases himage
  | ok u => simp [bind, Except.bind, runContainer, Process.ofExit, hexit, loadOutput]

theorem runSubprocess_finished :
    runSubprocess (.started (Process.ofExit ticks ⟨0, "", some output⟩)) =
      .ok (.output (.obj output)) := by
  simp [runSubprocess, Process.ofExit, hexit, loadOutput]

end Finished

section Same
variable {execute : Executors} (hexec : ∀ k i o, execute k i = .ok o → (Json.obj o).held = true)
  {kind : JobKind} {input : Dict} (hinput : (Json.obj input).held = true)
include hexec

theorem LeftBy.executed {inFile : String} (hspec : readSpec inFile = .ok (.str kind.text, .obj input))
    {start : Start} (hruns : RunsJobkit execute inFile start) {value : Json}
    (h : LeftBy start value) :
    ∃ output, execute (.str kind.text) (.obj input) = .ok output ∧
      (Json.obj output).withinDigits = true ∧ value = .obj output := by
  obtain ⟨p, hp, hrc, hfile⟩ := h
  rcases hruns p hp hrc with habsent | ⟨hzero, hsame⟩
  · rw [hfile] at habsent
    cases habsent
  · obtain ⟨output, hok, hdigits, hout⟩ := jobkitProcess_output hexec hspec hzero
    rw [hfile, hout] at hsame
    exact ⟨output, hok, hdigits, OutFile.json.inj hsame⟩

include hinput

/-- An output that comes back through the files is that of the executor. -/
theorem runFiles_output {m : String → Machine}
    (hm : ∀ inFile, (m inFile).RunsJobs execute inFile) {hostSide allow : Bool} {value : Json}
    (h : runFiles m kind input hostSide allow = .ok (.output value)) :
    ∃ output, execute (.str kind.text) (.obj input) = .ok output ∧
      (Json.obj output).withinDigits = true ∧ value = .obj output := by
  unfold runFiles at h
  cases hdump : dumpFile (specJson kind input) with
  | none =>
      rw [hdump] at h
      cases h
  | some inFile =>
      rw [hdump] at h
      have hspec := readSpec_dumpFile hinput hdump
      rcases runInIsolation_output h with hleft | hleft | hleft
      · exact hleft.executed hexec hspec (hm inFile).mxc
      · exact hleft.executed hexec hspec (hm inFile).docker
      · exact hleft.executed hexec hspec (hm inFile).host

/-- Behind a first boundary that lets the job run to its end, an output comes back exactly
when its integers can be printed. -/
theorem runFiles_first {m : String → Machine}
    (hm : ∀ inFile, (m inFile).RunsJobs execute inFile) {hostSide allow : Bool}
    {inFile : String} (hspec : dumpFile (specJson kind input) = some inFile)
    {boundary : Boundary} {ticks : List Tick} (hexit : pollLoop ticks = .exited)
    (hfirst : (m inFile).first hostSide =
      (boundary, .started (jobkitProcess ticks execute inFile)))
    (hallow : boundary = .host → allow = true)
    {output : Dict} (hok : execute (.str kind.text) (.obj input) = .ok output) :
    runFiles m kind input hostSide allow = .ok (.output (.obj output)) ↔
      (Json.obj output).withinDigits = true := by
  constructor
  · intro h
    obtain ⟨other, hother, hdigits, -⟩ := runFiles_output hexec hinput hm h
    rw [hok] at hother
    rwa [Except.ok.inj hother]
  · intro hdigits
    have hrun := jobkitProcess_ok ticks (readSpec_dumpFile hinput hspec) hok (hexec _ _ _ hok)
    rw [if_pos hdigits] at hrun
    rw [hrun] at hfirst
    simp only [runFiles, hspec]
    generalize m inFile = machine at hfirst
    unfold Machine.first at hfirst
    unfold runInIsolation runDockerOrHost
    by_cases hmxc : (!hostSide && machine.mxcAvailable) = true
    · rw [if_pos hmxc] at hfirst ⊢
      rw [(Prod.mk.inj hfirst).2, runMxc_finished hexit]
    · rw [if_neg hmxc] at hfirst ⊢
      by_cases hdocker : (!hostSide && machine.dockerAvailable) = true
      · rw [if_pos hdocker] at hfirst ⊢
        by_cases himage : (ensureImage machine.image).isOk = true
        · rw [if_pos himage] at hfirst
          rw [(Prod.mk.inj hfirst).2, runDocker_finished hexit himage]
        · rw [if_neg himage] at hfirst
          cases (Prod.mk.inj hfirst).2
      · rw [if_neg hdocker] at hfirst ⊢
        obtain ⟨hname, hstart⟩ := Prod.mk.inj hfirst
        rw [runHost, hallow hname.symm, hstart, runSubprocess_finished hexit]
        rfl

end Same

/-! ## The same job run in process -/

theorem execution_isolated {m : Limits → String → Machine} {execute : Executors}
    {kind : JobKind} {input : Dict} {limits : Limits} {hostSide allow : Bool} {output : Dict}
    (h : (execution m execute).runInIsolation kind input limits hostSide allow = .ok output) :
    output = yieldMarker ∨
      runFiles (m limits) kind input hostSide allow = .ok (.output (.obj output)) := by
  simp only [execution] at h
  split at h
  · cases h
    exact .inl rfl
  next hrun =>
    cases h
    exact .inr hrun
  all_goals cases h

/-- A job has the same output whether it is run in process or behind a boundary: what comes
back from isolation is the output of the executor, and behind a boundary that lets the job
run to its end it does come back unless it holds an integer too long to print. -/
theorem isolation_transparent {execute : Executors}
    (hexec : ∀ k i o, execute k i = .ok o → (Json.obj o).held = true)
    {m : Limits → String → Machine}
    (hm : ∀ limits inFile, (m limits inFile).RunsJobs execute inFile)
    (agent : Worker.WorkerAgent) (manifest : JobManifest) (input : Dict)
    (hinput : (Json.obj input).held = true) :
    (∀ output, Worker.execute agent (execution m execute) manifest input = .ok output →
      output = yieldMarker ∨ execute (.str manifest.kind.text) (.obj input) = .ok output) ∧
    (∀ (inFile : String) (boundary : Boundary) (ticks : List Tick) (output : Dict),
      agent.isolated = true → dumpFile (specJson manifest.kind input) = some inFile →
      pollLoop ticks = .exited →
      (m manifest.limits inFile).first (Worker.hostSide manifest) =
        (boundary, .started (jobkitProcess ticks execute inFile)) →
      (boundary = .host → agent.requireIsolation = false) →
      execute (.str manifest.kind.text) (.obj input) = .ok output →
      (Worker.execute agent (execution m execute) manifest input = .ok output ↔
        (Json.obj output).withinDigits = true)) := by
  refine ⟨?_, ?_⟩
  · intro output h
    unfold Worker.execute at h
    split at h
    · rcases execution_isolated h with hyield | hrun
      · exact .inl hyield
      · obtain ⟨other, hok, -, heq⟩ := runFiles_output hexec hinput (hm manifest.limits) hrun
        exact .inr (by rw [hok, Json.obj.inj heq])
    · right
      cases hok : execute (.str manifest.kind.text) (.obj input) with
      | error e => simp [execution, hok, Except.mapError] at h
      | ok other => simpa [execution, hok, Except.mapError] using h
  · intro inFile boundary ticks output hisolated hspec hexit hfirst hallow hok
    have hopen : boundary = .host → (!agent.requireIsolation) = true :=
      fun hhost => by rw [hallow hhost]; rfl
    have hiff := runFiles_first hexec hinput (hm manifest.limits) hspec hexit hfirst hopen hok
    unfold Worker.execute
    rw [if_pos hisolated]
    constructor
    · intro h
      rcases execution_isolated h with rfl | hrun
      · decide
      · exact hiff.mp hrun
    · intro hdigits
      simp only [execution, hiff.mpr hdigits]

/-! The challenge kind on a machine without MXC and Docker. -/

def challengeExecutors : Executors := fun _ input =>
  match input with
  | .obj fields => (Jobkit.challenge fields).elim (.error "KeyError: 'x'\n") .ok
  | _ => .error "AttributeError\n"

def hostOnly (_ : Limits) (inFile : String) : Machine where
  mxcAvailable := false
  mxc := .failed ""
  dockerAvailable := false
  image := ⟨false, .error "", false⟩
  docker := .failed ""
  host := .started (jobkitProcess [⟨some false, false⟩] challengeExecutors inFile)

theorem challengeExecutors_held (k i : Json) (o : Dict) (h : challengeExecutors k i = .ok o) :
    (Json.obj o).held = true := by
  unfold challengeExecutors at h
  split at h
  next fields =>
    cases hchallenge : Jobkit.challenge fields with
    | none =>
        rw [hchallenge] at h
        cases h
    | some output =>
        rw [hchallenge] at h
        obtain ⟨v, x, -, -, rfl⟩ := Jobkit.challenge_eq_some.mp hchallenge
        cases h
        simp [Json.held, Json.fieldsHeld]
  · cases h

theorem hostOnly_runs (limits : Limits) (inFile : String) :
    (hostOnly limits inFile).RunsJobs challengeExecutors inFile := by
  refine ⟨?_, ?_, ?_⟩
  · intro p hp
    cases hp
  · intro p hp
    cases hp
  · intro p hp hrc
    cases hp
    rw [jobkitProcess_ticks]
    exact .inr ⟨hrc, rfl⟩

theorem isolation_transparent_challenge :
    Worker.execute { workerId := "w", isolated := true } (execution hostOnly challengeExecutors)
      { jobId := "j", kind := .challenge, issuedAt := 0 } [("x", .int 7)] =
        .ok [("y", .int 50)] := by
  obtain ⟨inFile, hspec⟩ : ∃ inFile,
      dumpFile (specJson .challenge [("x", .int 7)]) = some inFile := ⟨_, rfl⟩
  exact ((isolation_transparent challengeExecutors_held hostOnly_runs
    { workerId := "w", isolated := true } { jobId := "j", kind := .challenge, issuedAt := 0 }
    [("x", .int 7)] (by decide)).2 inFile .host [⟨some false, false⟩] [("y", .int 50)]
      rfl hspec rfl rfl (fun _ => rfl) rfl).mpr (by decide +kernel)

end OneCompute.Isolation
