import OneCompute.Isolation.Process

/-!
The MXC backend. The texts that a failed process leaves are searched for the
marks of a failed job first, then for those of a failed runtime.
-/

namespace OneCompute.Isolation

def mxcInfraMarkers : List String :=
  ["wxc-exec", "execution container", "processcontainer", "process container", "probe",
    "host preparation", "host prep", "container failed to start", "runtime failed"]

def jobFailureMarkers : List String :=
  ["traceback (most recent call last)", "valueerror", "runtimeerror", "isolated job failed"]

def hasMarker (markers : List String) (text : String) : Bool :=
  markers.any (PyText.contains (PyText.lower text))

def looksLikeMxcInfraError (stderr : String) : Bool := hasMarker mxcInfraMarkers stderr

def looksLikeJobFailure (stderr : String) : Bool := hasMarker jobFailureMarkers stderr

def mxcMessage (p : Process) : String :=
  PyText.strip (orText p.stderr (orText p.stdout "mxc isolated job failed"))

def runMxc : Start → Except Raised JobEnd
  | .failed message => .error (.infra ("mxc runtime failed to start: " ++ message))
  | .started p =>
      match pollLoop p.ticks with
      | .raised => .error (.other "should_yield")
      | .yielded => .ok .yielded
      | .timedOut => .error (.timeout "isolated MXC job timed out")
      | .exited =>
          if p.returncode ≠ 0 then
            if looksLikeJobFailure (mxcMessage p) then .error (.runtime (mxcMessage p))
            else if looksLikeMxcInfraError (mxcMessage p) then .error (.infra (mxcMessage p))
            else .error (.runtime (mxcMessage p))
          else
            match p.outFile with
            | .absent => .error (.infra "mxc job completed without producing an output file")
            | file => loadOutput file

/-- The process exited and what it left is read as a failure of the runtime. -/
def MxcReadsInfra (p : Process) : Prop :=
  pollLoop p.ticks = .exited ∧
    ((p.returncode ≠ 0 ∧ looksLikeJobFailure (mxcMessage p) = false ∧
        looksLikeMxcInfraError (mxcMessage p) = true) ∨
      (p.returncode = 0 ∧ p.outFile = .absent))

theorem runMxc_infra_iff (p : Process) :
    (∃ message, runMxc (.started p) = .error (.infra message)) ↔ MxcReadsInfra p := by
  unfold runMxc MxcReadsInfra
  cases hloop : pollLoop p.ticks with
  | raised => simp [hloop]
  | yielded => simp [hloop]
  | timedOut => simp [hloop]
  | exited =>
      by_cases hrc : p.returncode = 0
      · cases hfile : p.outFile with
        | absent => simp [hloop, hrc, hfile]
        | malformed => simp [hloop, hrc, hfile, loadOutput]
        | json value => simp [hloop, hrc, hfile, loadOutput]
      · cases hjob : looksLikeJobFailure (mxcMessage p) with
        | true => simp [hloop, hrc, hjob]
        | false =>
            cases hinfra : looksLikeMxcInfraError (mxcMessage p) with
            | true => simp [hloop, hrc, hjob, hinfra]
            | false => simp [hloop, hrc, hjob, hinfra]

end OneCompute.Isolation
