import OneCompute.Contracts.Models

/-!
The job kinds of the worker's executor; here the challenge kind.
-/

namespace OneCompute.Jobkit

/-- `int(value)`; `none` is any exception. -/
def pyInt : Json → Option Int
  | .bool b => some (if b then 1 else 0)
  | .int i => some i
  | .float (.fin q) => some (if q < 0 then -((-q).floor) else q.floor)
  | .str s => PyText.intOfText s
  | _ => none

/-- `_challenge`; `none` is any exception. -/
def challenge (input : Dict) : Option Dict := do
  let x ← pyInt (← Json.lookup input "x")
  return [("y", .int (x * x + 1))]

theorem challenge_eq_some {input output : Dict} :
    challenge input = some output ↔ ∃ v x, Json.lookup input "x" = some v ∧ pyInt v = some x ∧
      output = [("y", .int (x * x + 1))] := by
  simp only [challenge, Option.bind_eq_bind, Option.pure_def, Option.bind_eq_some_iff,
    Option.some.injEq]
  constructor
  · rintro ⟨v, hv, x, hx, rfl⟩
    exact ⟨v, x, hv, hx, rfl⟩
  · rintro ⟨v, x, hv, hx, rfl⟩
    exact ⟨v, hv, x, hx, rfl⟩

end OneCompute.Jobkit
