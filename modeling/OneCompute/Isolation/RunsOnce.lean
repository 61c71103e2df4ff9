import OneCompute.Isolation.Runner
import OneCompute.Jobkit.Execute

/-!
When `run_in_isolation` runs a job on one boundary only: when no process that
has run the job leaves what is read as a failure of its boundary. A failed
`python -m jobkit` leaves no output file, and that is what Docker reads so.
-/

namespace OneCompute.Isolation
open Fallback (Stage Once Clean)

/-- The boundary gives the job up, having run it or not. -/
def FallsBack (readsInfra : Process → Prop) : Start → Prop
  | .failed _ => True
  | .started p => readsInfra p

/-- No process that has run the job is read as a failure of its boundary. -/
def ToldApart (readsInfra : Process → Prop) (start : Start) : Prop :=
  ∀ p, start = .started p → p.ranJob = true → ¬ readsInfra p

/-- Wherever another boundary follows, the failures before it are told apart. -/
structure SafeToFallBack (m : Machine) (hostSide allowUnsandboxed : Bool) : Prop where
  mxc : hostSide = false → m.mxcAvailable = true →
    m.dockerAvailable = true ∨ allowUnsandboxed = true → ToldApart MxcReadsInfra m.mxc
  docker : hostSide = false → (m.mxcAvailable = true → FallsBack MxcReadsInfra m.mxc) →
    m.dockerAvailable = true → (ensureImage m.image).isOk = true → allowUnsandboxed = true →
    ToldApart DockerReadsInfra m.docker

theorem mxcStage_answer (m : Machine) :
    (mxcStage m).answer = none ↔ FallsBack MxcReadsInfra m.mxc := by
  unfold mxcStage
  rw [answerOf_eq_none]
  cases m.mxc with
  | failed message => simp [runMxc, FallsBack]
  | started p => exact runMxc_infra_iff p

theorem mxcStage_clean (m : Machine) :
    ((mxcStage m).answer = none → (mxcStage m).ran = false) ↔ ToldApart MxcReadsInfra m.mxc := by
  rw [mxcStage_answer]
  unfold mxcStage ToldApart
  cases m.mxc with
  | failed message => simp [Start.ranJob]
  | started p =>
      cases hran : p.ranJob <;> simp [FallsBack, Start.ranJob, hran]

theorem dockerStage_clean (m : Machine) :
    ((dockerStage m).answer = none → (dockerStage m).ran = false) ↔
      ((ensureImage m.image).isOk = true → ToldApart DockerReadsInfra m.docker) := by
  unfold dockerStage ToldApart
  rw [answerOf_eq_none]
  cases himage : ensureImage m.image with
  | error e => simp [Except.isOk, Except.toBool]
  | ok u =>
      have hrun : runDocker m.image m.docker = runContainer m.docker := by
        simp [runDocker, himage, bind, Except.bind]
      rw [hrun]
      cases m.docker with
      | failed message => simp [Start.ranJob]
      | started p =>
          rw [runContainer_infra_iff]
          cases hran : p.ranJob <;> simp [Start.ranJob, Except.isOk, Except.toBool, hran]

theorem hostStages_clean (m : Machine) (allowUnsandboxed : Bool) :
    Clean (hostStages m allowUnsandboxed) := by
  unfold hostStages
  split
  · simp [Clean, hostStage]
  · trivial

theorem dockerStages_clean (m : Machine) (hostSide allowUnsandboxed : Bool) :
    Clean (dockerStages m hostSide allowUnsandboxed) ↔
      (hostSide = false → m.dockerAvailable = true → (ensureImage m.image).isOk = true →
        allowUnsandboxed = true → ToldApart DockerReadsInfra m.docker) := by
  have hhost : hostStages m allowUnsandboxed ≠ [] ↔ allowUnsandboxed = true := by
    cases allowUnsandboxed <;> simp [hostStages]
  have hdocker := dockerStage_clean m
  have hclean := hostStages_clean m allowUnsandboxed
  unfold dockerStages
  split
  · next h =>
      simp only [Bool.and_eq_true, Bool.not_eq_true'] at h
      simp only [Clean, hhost, hclean, and_true, h.1, h.2, true_imp_iff]
      constructor
      · intro hrun himage hallow
        exact hdocker.mp (fun hnone => hrun hnone hallow) himage
      · intro htold hnone hallow
        exact hdocker.mpr (fun himage => htold himage hallow) hnone
  · next h =>
      refine iff_of_true hclean (fun hside havail => ?_)
      simp [hside, havail] at h

theorem stages_clean (m : Machine) (hostSide allowUnsandboxed : Bool) :
    Clean (stages m hostSide allowUnsandboxed) ↔ SafeToFallBack m hostSide allowUnsandboxed := by
  have hdocker := dockerStages_clean m hostSide allowUnsandboxed
  have hmxc := mxcStage_clean m
  unfold stages
  split
  · next h =>
      simp only [Bool.and_eq_true, Bool.not_eq_true'] at h
      have hrest : dockerStages m hostSide allowUnsandboxed ≠ [] ↔
          m.dockerAvailable = true ∨ allowUnsandboxed = true := by
        unfold dockerStages hostStages
        rw [h.1]
        cases m.dockerAvailable <;> cases allowUnsandboxed <;> simp
      simp only [Clean, hrest, hdocker]
      constructor
      · intro hclean
        refine ⟨fun _ _ hnext => hmxc.mp (fun hnone => (hclean hnone).1 hnext), ?_⟩
        intro hside hfalls havail himage hallow
        have hnone := (mxcStage_answer m).mpr (hfalls h.2)
        exact (hclean hnone).2 hside havail himage hallow
      · intro hsafe hnone
        refine ⟨fun hnext => hmxc.mpr (hsafe.mxc h.1 h.2 hnext) hnone, ?_⟩
        intro hside havail himage hallow
        have hfalls := (mxcStage_answer m).mp hnone
        exact hsafe.docker hside (fun _ => hfalls) havail himage hallow
  · next h =>
      have hskip : hostSide = false → m.mxcAvailable = false := by
        intro hside
        simpa [hside] using h
      rw [hdocker]
      constructor
      · intro hclean
        refine ⟨fun hside havail => ?_, fun hside _ => hclean hside⟩
        rw [hskip hside] at havail
        cases havail
      · intro hsafe hside
        refine hsafe.docker hside (fun havail => ?_)
        rw [hskip hside] at havail
        cases havail

/-- The host is a stage of the chain only where it is allowed. -/
theorem stages_host (m : Machine) (hostSide allowUnsandboxed : Bool)
    {s : Stage Boundary (Except Raised JobEnd)} (hs : s ∈ stages m hostSide allowUnsandboxed)
    (hname : s.name = .host) : allowUnsandboxed = true := by
  have hhost : s ∈ hostStages m allowUnsandboxed → allowUnsandboxed = true := by
    intro hmem
    cases allowUnsandboxed with
    | true => rfl
    | false => simp [hostStages] at hmem
  have hdocker : s ∈ dockerStages m hostSide allowUnsandboxed → allowUnsandboxed = true := by
    intro hmem
    unfold dockerStages at hmem
    split at hmem
    · cases List.mem_cons.mp hmem with
      | inl heq => simp [heq, dockerStage] at hname
      | inr hmem => exact hhost hmem
    · exact hhost hmem
  unfold stages at hs
  split at hs
  · cases List.mem_cons.mp hs with
    | inl heq => simp [heq, mxcStage] at hname
    | inr hmem => exact hdocker hmem
  · exact hdocker hs

/-! ## What `python -m jobkit` leaves -/

/-- The process of a job that ran to its end. -/
def Process.ofExit (ticks : List Tick) (e : Jobkit.Exit) : Process :=
  { ticks, returncode := e.returncode, pipes := some ("", e.stderr),
    outFile := match e.output with
      | none => .absent
      | some output => .json (.obj output)
    ranJob := true }

section Exit
variable {Spec : Type} (ticks : List Tick) (argv : List String) (spec : Except String Spec)
  (execute : Spec → Except String Dict)

/-- Every failure of a job is read as one of Docker. -/
theorem dockerReadsInfra_ofExit (hexit : pollLoop ticks = .exited) :
    DockerReadsInfra (Process.ofExit ticks (Jobkit.main argv spec execute)) ↔
      (Jobkit.main argv spec execute).returncode ≠ 0 := by
  constructor
  · exact fun h => h.2.1
  · intro hfail
    have hnone := (Jobkit.main_output_iff argv spec execute).mpr hfail
    refine ⟨hexit, hfail, Or.inr ?_⟩
    simp only [Process.ofExit, hnone]

theorem strip_traceback (traceback : String) :
    PyText.strip (Jobkit.tracebackHead ++ traceback) = "Traceback (most recent call last):" ++
      String.ofList (('\n' :: traceback.toList).rdropWhile PyText.isSpace) := by
  have hne : "Traceback (most recent call last):".toList ≠ [] := by decide +kernel
  have hcore := PyText.stripBy_append PyText.isSpace hne (by decide +kernel +revert)
    (by decide +kernel +revert) ('\n' :: traceback.toList)
  have htext : (Jobkit.tracebackHead ++ traceback).toList =
      "Traceback (most recent call last):".toList ++ '\n' :: traceback.toList := by
    simp [Jobkit.tracebackHead, String.toList_append]
  unfold PyText.strip
  rw [htext, hcore, String.ofList_append, String.ofList_toList]

theorem looksLikeJobFailure_traceback (traceback : String) :
    looksLikeJobFailure (PyText.strip (Jobkit.tracebackHead ++ traceback)) = true := by
  have hlower : PyText.lower "Traceback (most recent call last):" =
      "traceback (most recent call last)" ++ ":" := by decide +kernel
  unfold looksLikeJobFailure hasMarker
  rw [strip_traceback, PyText.lower_append, hlower]
  refine List.any_eq_true.mpr ⟨"traceback (most recent call last)", by decide +kernel, ?_⟩
  unfold PyText.contains
  rw [String.append_assoc, String.toList_append]
  exact PyText.containsChars_append _ _

/-- MXC tells a job that ran to its end from one that could not be run. -/
theorem not_mxcReadsInfra_ofExit :
    ¬ MxcReadsInfra (Process.ofExit ticks (Jobkit.main argv spec execute)) := by
  rintro ⟨-, ⟨hrc, hjob, hinfra⟩ | ⟨hrc, hfile⟩⟩
  · unfold Jobkit.main at hrc hjob hinfra
    split at hinfra
    · next h =>
        have husage : looksLikeMxcInfraError (PyText.strip
            "usage: python -m jobkit <in.json> <out.json>\n") = false := by decide +kernel
        simp only [mxcMessage, Process.ofExit, Process.stderr, Process.stdout] at hinfra
        simp [orText, husage] at hinfra
    · next h =>
        simp only [h] at hrc hjob hinfra
        cases hrun : spec >>= execute with
        | error traceback =>
            have hne : Jobkit.tracebackHead ++ traceback ≠ "" := by
              intro he
              have := congrArg String.toList he
              simp [Jobkit.tracebackHead, String.toList_append] at this
            have hmark := looksLikeJobFailure_traceback traceback
            simp [hrun, mxcMessage, Process.ofExit, Process.stderr, orText, hne, hmark] at hjob
        | ok output => simp [hrun, Process.ofExit] at hrc
  · have hsome : (Jobkit.main argv spec execute).output ≠ none := by
      rw [ne_eq, Jobkit.main_output_iff]
      exact not_not_intro hrc
    cases hout : (Jobkit.main argv spec execute).output with
    | none => exact hsome hout
    | some output => simp [Process.ofExit, hout] at hfile

end Exit

/-! ## Once -/

theorem runsOnce_iff (m : Machine) (hostSide allowUnsandboxed : Bool) :
    RunsOnce allowUnsandboxed (runInIsolation m hostSide allowUnsandboxed).1 ↔
      SafeToFallBack m hostSide allowUnsandboxed := by
  rw [← stages_clean, ← Fallback.once_run_iff, runInIsolation_eq]
  have honce : (∀ a ∈ ((Fallback.run (stages m hostSide allowUnsandboxed)).1.map
      attempt).dropLast, a.ranJob = false) ↔
        Once (Fallback.run (stages m hostSide allowUnsandboxed)).1 := by
    rw [← List.map_dropLast, List.forall_mem_map]
    exact Iff.rfl
  unfold RunsOnce outcome
  rw [List.nil_append, honce]
  refine and_iff_left ?_
  intro a ha hhost
  obtain ⟨s, hs, rfl⟩ := List.mem_map.mp ha
  exact stages_host m hostSide allowUnsandboxed (Fallback.run_subset _ hs) hhost

/-- The challenge kind on an input without `x`: a `KeyError` and its traceback. -/
def failingJob : Jobkit.Exit :=
  Jobkit.main ["jobkit", "in.json", "out.json"] (.ok []) fun input =>
    match Jobkit.challenge input with
    | none => .error "KeyError: 'x'\n"
    | some output => .ok output

def dockerHost : Machine where
  mxcAvailable := false
  mxc := .failed ""
  dockerAvailable := true
  image := ⟨true, .error "", true⟩
  docker := .started (Process.ofExit [⟨some false, false⟩] failingJob)
  host := .started (Process.ofExit [⟨some false, false⟩] failingJob)

end OneCompute.Isolation
