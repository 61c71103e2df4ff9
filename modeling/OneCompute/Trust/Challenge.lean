import OneCompute.Contracts.Models

/-!
Challenges with a known answer: how one is made, and how an answer is checked.
-/

namespace OneCompute

/-- `random` is what `secrets.randbelow(9998)` returned. -/
def makeChallenge (random : Fin 9998) : Dict × Dict :=
  let x : Int := (random : Int) + 2
  ([("x", .int x)], [("y", .int (x * x + 1))])

/-- A value whose type is exactly `int`; `bool` is a subclass and does not count. -/
def exactInt : Json → Option Int
  | .int i => some i
  | _ => none

def checkChallenge (output expected : Dict) : Bool :=
  match Json.lookup output "y", Json.lookup expected "y" with
  | some actual, some expected =>
      match exactInt actual, exactInt expected with
      | some a, some b => a == b
      | _, _ => false
  | _, _ => false

theorem exactInt_eq_some {v : Json} {i : Int} : exactInt v = some i ↔ v = .int i := by
  cases v <;> simp [exactInt]

theorem checkChallenge_iff (output : Dict) (expected : Json) :
    checkChallenge output [("y", expected)] = true ↔
      ∃ y : Int, Json.lookup output "y" = some (.int y) ∧ expected = .int y := by
  have hexp : Json.lookup [("y", expected)] "y" = some expected := rfl
  rw [checkChallenge, hexp]
  cases Json.lookup output "y" with
  | none => simp
  | some actual =>
      cases ha : exactInt actual with
      | none =>
          have : ∀ y, actual ≠ .int y := fun y hy => by simp [hy, exactInt] at ha
          simp [ha, this]
      | some a =>
          obtain rfl := exactInt_eq_some.mp ha
          cases he : exactInt expected with
          | none =>
              have : ∀ y, expected ≠ .int y := fun y hy => by simp [hy, exactInt] at he
              simp [exactInt, this]
          | some e =>
              obtain rfl := exactInt_eq_some.mp he
              simp only [exactInt, beq_iff_eq, Option.some.injEq, Json.int.injEq,
                exists_eq_left']
              exact eq_comm

end OneCompute
