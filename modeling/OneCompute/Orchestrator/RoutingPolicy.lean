import Mathlib.Data.List.Basic

/-!
Classification-aware routing: which device tier may run a job of which
classification. An unknown tier or classification denies the route.
-/

namespace OneCompute

/-- Device trust tiers, low to high; the rank of a tier is its position. -/
def tiers : List String := ["untrusted", "managed", "sanctioned", "confidential_compute"]

/-- Data classifications, low to high sensitivity. -/
def classifications : List String := ["public", "internal", "confidential", "restricted"]

def defaultTrustTier : String := "untrusted"

def minTierForClassification : List (String × String) :=
  [("public", "untrusted"), ("internal", "managed"), ("confidential", "sanctioned"),
    ("restricted", "confidential_compute")]

def isValidTier (trustTier : String) : Bool := tiers.contains trustTier

def requiredTierFor (classification : String) : Option String :=
  (minTierForClassification.find? (fun p => p.1 == classification)).map (·.2)

def classificationCleared (requested ceiling : String) : Bool :=
  if classifications.contains requested && classifications.contains ceiling then
    classifications.idxOf requested ≤ classifications.idxOf ceiling
  else false

def mayRoute (classification trustTier : String) : Bool :=
  match requiredTierFor classification with
  | none => false
  | some required =>
      if tiers.contains trustTier then tiers.idxOf required ≤ tiers.idxOf trustTier else false

end OneCompute
