import OneCompute.Isolation.Mxc
import OneCompute.Jobkit.Main
import OneCompute.Lib.Fallback

/-!
`run_in_isolation`: MXC, then Docker, then the host. A boundary that could not
run the job passes it on to the next. Whether it could is read off what its
process left, and that is sometimes also what a job leaves that has run.
-/

namespace OneCompute.Isolation
open Fallback (Stage Once Clean)

def dockerInfraMarkers : List String :=
  ["cannot connect to the docker daemon", "error during connect", "request returned 500",
    "is the docker daemon running", "dial unix", "open //./pipe", "no such image",
    "unable to find image", "pull access denied", "docker: error response from daemon"]

def looksLikeDockerInfraError (stderr : String) : Bool := hasMarker dockerInfraMarkers stderr

/-! ## Docker -/

def image : String := "python:3.12-slim"

/-- The image: whether it is there, what a pull returns and writes to standard
error, and whether it is there afterwards. -/
structure ImageState where
  presentBefore : Bool
  pull : Except String (Int × String)
  presentAfter : Bool

def ensureImage (i : ImageState) : Except Raised Unit :=
  if i.presentBefore then .ok ()
  else
    match i.pull with
    | .error exc => .error (.infra ("docker pull " ++ image ++ " failed: " ++ exc))
    | .ok (returncode, stderr) =>
        if returncode ≠ 0 || !i.presentAfter then
          .error (.infra (PyText.strip (orText stderr ("docker pull " ++ image ++ " failed"))))
        else .ok ()

def dockerMessage (p : Process) : String :=
  PyText.strip (orText p.stderr "docker isolated job failed")

def runContainer : Start → Except Raised JobEnd
  | .failed message => .error (.other message)
  | .started p =>
      match pollLoop p.ticks with
      | .raised => .error (.other "should_yield")
      | .yielded => .ok .yielded
      | .timedOut => .error (.timeout "isolated docker job timed out")
      | .exited =>
          if p.returncode ≠ 0 then
            if looksLikeDockerInfraError (dockerMessage p) || (p.outFile matches .absent) then
              .error (.infra (dockerMessage p))
            else .error (.runtime (dockerMessage p))
          else loadOutput p.outFile

def runDocker (i : ImageState) (start : Start) : Except Raised JobEnd := do
  ensureImage i
  runContainer start

/-- The process exited and what it left is read as a failure of Docker. -/
def DockerReadsInfra (p : Process) : Prop :=
  pollLoop p.ticks = .exited ∧ p.returncode ≠ 0 ∧
    (looksLikeDockerInfraError (dockerMessage p) = true ∨ p.outFile = .absent)

theorem runContainer_infra_iff (p : Process) :
    (∃ message, runContainer (.started p) = .error (.infra message)) ↔ DockerReadsInfra p := by
  unfold runContainer DockerReadsInfra
  cases hloop : pollLoop p.ticks with
  | raised => simp [hloop]
  | yielded => simp [hloop]
  | timedOut => simp [hloop]
  | exited =>
      by_cases hrc : p.returncode = 0
      · cases hfile : p.outFile <;> simp [hloop, hrc, hfile, loadOutput]
      · cases hinfra : looksLikeDockerInfraError (dockerMessage p) <;>
          cases hfile : p.outFile <;> simp [hloop, hrc, hinfra, hfile]

/-! ## The host -/

def runSubprocess : Start → Except Raised JobEnd
  | .failed message => .error (.other message)
  | .started p =>
      match pollLoop p.ticks with
      | .raised => .error (.other "should_yield")
      | .yielded => .ok .yielded
      | .timedOut => .error (.runtime "isolated job timed out")
      | .exited =>
          if p.returncode ≠ 0 then
            .error (.runtime (PyText.strip (orText p.stderr "isolated job failed")))
          else loadOutput p.outFile

/-! ## The chain -/

inductive Boundary where
  | mxc | docker | host
  deriving DecidableEq

/-- What the machine is like, and what would happen behind each boundary. -/
structure Machine where
  mxcAvailable : Bool
  mxc : Start
  dockerAvailable : Bool
  image : ImageState
  docker : Start
  host : Start

/-- A boundary that was tried, and whether the job's code started to execute there. -/
structure Attempt where
  boundary : Boundary
  ranJob : Bool

def Machine.tryMxc (m : Machine) : Attempt := ⟨.mxc, m.mxc.ranJob⟩

/-- Without the image no container is started. -/
def Machine.tryDocker (m : Machine) : Attempt :=
  ⟨.docker, (ensureImage m.image).isOk && m.docker.ranJob⟩

def Machine.tryHost (m : Machine) : Attempt := ⟨.host, m.host.ranJob⟩

def unavailableMessage (hostSide : Bool) : String :=
  (if hostSide then
    "host-side execution required (GPU/AI job) but no OS-enforced sandbox is available"
  else "no OS-enforced sandbox (MXC or Docker) is available") ++
    "; refusing to run untrusted job code unsandboxed (require-isolation)."

/-- The last resort of `run_in_isolation`. -/
def runHost (m : Machine) (hostSide allowUnsandboxed : Bool) (tried : List Attempt) :
    List Attempt × Except Raised JobEnd :=
  if !allowUnsandboxed then (tried, .error (.unavailable (unavailableMessage hostSide)))
  else (tried ++ [m.tryHost], runSubprocess m.host)

def runDockerOrHost (m : Machine) (hostSide allowUnsandboxed : Bool) (tried : List Attempt) :
    List Attempt × Except Raised JobEnd :=
  if !hostSide && m.dockerAvailable then
    match runDocker m.image m.docker with
    | .error (.infra _) => runHost m hostSide allowUnsandboxed (tried ++ [m.tryDocker])
    | result => (tried ++ [m.tryDocker], result)
  else runHost m hostSide allowUnsandboxed tried

/-- The boundaries that were tried, in order, and how the job ended. -/
def runInIsolation (m : Machine) (hostSide allowUnsandboxed : Bool) :
    List Attempt × Except Raised JobEnd :=
  if !hostSide && m.mxcAvailable then
    match runMxc m.mxc with
    | .error (.infra _) => runDockerOrHost m hostSide allowUnsandboxed [m.tryMxc]
    | result => ([m.tryMxc], result)
  else runDockerOrHost m hostSide allowUnsandboxed []

/-- Nothing is run twice: a boundary is left only before the job's code has
started there, and the host is tried only where that is allowed. -/
def RunsOnce (allowUnsandboxed : Bool) (tried : List Attempt) : Prop :=
  (∀ a ∈ tried.dropLast, a.ranJob = false) ∧
    (∀ a ∈ tried, a.boundary = .host → allowUnsandboxed = true)

/-! ## The chain as stages -/

/-- An infrastructure failure is the one result that is passed on. -/
def answerOf : Except Raised JobEnd → Option (Except Raised JobEnd)
  | .error (.infra _) => none
  | result => some result

theorem answerOf_eq_none (result : Except Raised JobEnd) :
    answerOf result = none ↔ ∃ message, result = .error (.infra message) := by
  unfold answerOf
  split
  · simp
  · next h => simpa using h

def mxcStage (m : Machine) : Stage Boundary (Except Raised JobEnd) :=
  ⟨.mxc, m.mxc.ranJob, answerOf (runMxc m.mxc)⟩

def dockerStage (m : Machine) : Stage Boundary (Except Raised JobEnd) :=
  ⟨.docker, (ensureImage m.image).isOk && m.docker.ranJob, answerOf (runDocker m.image m.docker)⟩

def hostStage (m : Machine) : Stage Boundary (Except Raised JobEnd) :=
  ⟨.host, m.host.ranJob, some (runSubprocess m.host)⟩

def hostStages (m : Machine) (allowUnsandboxed : Bool) :
    List (Stage Boundary (Except Raised JobEnd)) :=
  if allowUnsandboxed then [hostStage m] else []

def dockerStages (m : Machine) (hostSide allowUnsandboxed : Bool) :
    List (Stage Boundary (Except Raised JobEnd)) :=
  if !hostSide && m.dockerAvailable then dockerStage m :: hostStages m allowUnsandboxed
  else hostStages m allowUnsandboxed

def stages (m : Machine) (hostSide allowUnsandboxed : Bool) :
    List (Stage Boundary (Except Raised JobEnd)) :=
  if !hostSide && m.mxcAvailable then mxcStage m :: dockerStages m hostSide allowUnsandboxed
  else dockerStages m hostSide allowUnsandboxed

def attempt (s : Stage Boundary (Except Raised JobEnd)) : Attempt := ⟨s.name, s.ran⟩

/-- What a chain of stages makes of `tried`. -/
def outcome (hostSide : Bool) (tried : List Attempt)
    (chain : List (Stage Boundary (Except Raised JobEnd))) :
    List Attempt × Except Raised JobEnd :=
  (tried ++ (Fallback.run chain).1.map attempt,
    (Fallback.run chain).2.getD (.error (.unavailable (unavailableMessage hostSide))))

/-- One step of the chain, as `run_in_isolation` writes it. -/
theorem outcome_cons (hostSide : Bool) (tried : List Attempt) (name : Boundary) (ran : Bool)
    (result : Except Raised JobEnd) (rest : List (Stage Boundary (Except Raised JobEnd))) :
    outcome hostSide tried (⟨name, ran, answerOf result⟩ :: rest) =
      match result with
      | .error (.infra _) => outcome hostSide (tried ++ [⟨name, ran⟩]) rest
      | result => (tried ++ [⟨name, ran⟩], result) := by
  unfold outcome answerOf
  split
  · simp [Fallback.run, attempt, List.append_assoc]
  · simp [Fallback.run, attempt]

theorem runHost_eq (m : Machine) (hostSide allowUnsandboxed : Bool) (tried : List Attempt) :
    runHost m hostSide allowUnsandboxed tried =
      outcome hostSide tried (hostStages m allowUnsandboxed) := by
  unfold runHost outcome hostStages
  cases allowUnsandboxed with
  | true => simp [Fallback.run, attempt, hostStage, Machine.tryHost]
  | false => simp [Fallback.run]

theorem runDockerOrHost_eq (m : Machine) (hostSide allowUnsandboxed : Bool)
    (tried : List Attempt) :
    runDockerOrHost m hostSide allowUnsandboxed tried =
      outcome hostSide tried (dockerStages m hostSide allowUnsandboxed) := by
  unfold runDockerOrHost dockerStages
  split
  · rw [dockerStage, outcome_cons]
    simp only [runHost_eq, Machine.tryDocker]
  · exact runHost_eq m hostSide allowUnsandboxed tried

/-- The code is a chain of stages, in the order of their strength. -/
theorem runInIsolation_eq (m : Machine) (hostSide allowUnsandboxed : Bool) :
    runInIsolation m hostSide allowUnsandboxed =
      outcome hostSide [] (stages m hostSide allowUnsandboxed) := by
  unfold runInIsolation stages
  split
  · rw [mxcStage, outcome_cons]
    simp only [runDockerOrHost_eq, Machine.tryMxc, List.nil_append]
  · exact runDockerOrHost_eq m hostSide allowUnsandboxed []

end OneCompute.Isolation
