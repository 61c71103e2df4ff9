import OneCompute.Contracts.Models

/-!
`python -m jobkit`: what the process that runs a job leaves behind.
-/

namespace OneCompute.Jobkit

structure Exit where
  returncode : Int
  stderr : String
  /-- The output file, if it was written. -/
  output : Option Dict

def tracebackHead : String := "Traceback (most recent call last):\n"

/-- `spec` is what reading the input file gives. An exception, which carries the
rest of its traceback, is caught nowhere, and the output file is opened last. -/
def main {Spec : Type} (argv : List String) (spec : Except String Spec)
    (execute : Spec → Except String Dict) : Exit :=
  if argv.length ≠ 3 then ⟨2, "usage: python -m jobkit <in.json> <out.json>\n", none⟩
  else
    match spec >>= execute with
    | .error traceback => ⟨1, tracebackHead ++ traceback, none⟩
    | .ok output => ⟨0, "", some output⟩

theorem main_output_iff {Spec : Type} (argv : List String) (spec : Except String Spec)
    (execute : Spec → Except String Dict) :
    (main argv spec execute).output = none ↔ (main argv spec execute).returncode ≠ 0 := by
  unfold main
  split
  · simp
  · split <;> simp

end OneCompute.Jobkit
