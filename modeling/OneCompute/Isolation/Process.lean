import OneCompute.Contracts.Models

/-!
A child process as the isolation backends see it: what each round of their
polling loop finds while it runs, and what it leaves behind.
-/

namespace OneCompute.Isolation

/-- One round of a polling loop that finds the process alive. -/
structure Tick where
  /-- What `should_yield()` returns; `none` when it raises. -/
  shouldYield : Option Bool
  pastDeadline : Bool

inductive LoopEnd where
  | exited | yielded | timedOut | raised
  deriving DecidableEq

/-- `while proc.poll() is None`: yields are looked for before the deadline. -/
def pollLoop : List Tick → LoopEnd
  | [] => .exited
  | t :: rest =>
      match t.shouldYield with
      | none => .raised
      | some true => .yielded
      | some false => if t.pastDeadline then .timedOut else pollLoop rest

inductive OutFile where
  | absent
  | malformed
  | json (output : Json)

structure Process where
  ticks : List Tick
  returncode : Int
  /-- Standard output and error; `none` when `communicate` raises. -/
  pipes : Option (String × String)
  outFile : OutFile
  /-- Whether the job's code has started to execute; nobody can observe this. -/
  ranJob : Bool

def Process.stdout (p : Process) : String := (p.pipes.getD ("", "")).1

def Process.stderr (p : Process) : String := (p.pipes.getD ("", "")).2

/-- `subprocess.Popen`. -/
inductive Start where
  | failed (message : String)
  | started (p : Process)

def Start.ranJob : Start → Bool
  | .failed _ => false
  | .started p => p.ranJob

inductive Raised where
  /-- The boundary could not run the job. -/
  | infra (message : String)
  | runtime (message : String)
  | timeout (message : String)
  | unavailable (message : String)
  | other (exception : String)
  deriving DecidableEq

/-- How a boundary ends: the job yielded, or it has an output. -/
inductive JobEnd where
  | yielded
  | output (value : Json)

/-- `a or b` on strings. -/
def orText (a b : String) : String := if a = "" then b else a

def loadOutput : OutFile → Except Raised JobEnd
  | .absent => .error (.other "FileNotFoundError")
  | .malformed => .error (.other "JSONDecodeError")
  | .json value => .ok (.output value)

end OneCompute.Isolation
