import Mathlib.Data.Prod.Lex
import OneCompute.Jobkit.Tiles
import OneCompute.Workloads.Partition

/-!
The distributed synthetic dataset: its tiles, and the dataset merged from them.
-/

namespace OneCompute.Workloads
open Jobkit (Choice SynthOutput aiSynth)
open PyNumber (binary64)
open Spans (range spans nonempty)

def defaultFields : List String := ["name", "role", "team", "summary"]

def synthJob (fields : List String) (model spec : String) (r : Int × Int) : SubmitRequest where
  kind := .aiSynth
  input := [("n_rows", .int (r.2 - r.1)), ("spec", .str spec),
    ("fields", .arr (fields.map .str)), ("model", .str model), ("start_index", .int r.1)]
  units := r.2 - r.1

/-- One job for each slice with a row in it. -/
def buildSynthJobs (sum : List PyFloat → PyFloat) (nTiles totalRows : Int)
    (fields : Option (List String)) (model spec : String) (weights : Option (List PyFloat)) :
    Except Raised (List SubmitRequest) :=
  if nTiles ≤ 0 then .error (.valueError "n_tiles must be positive")
  else if totalRows ≤ 0 then .error (.valueError "total_rows must be positive")
  else do
    let slices ← split binary64 sum totalRows nTiles weights
    return (nonempty slices).map (synthJob (fields.getD defaultFields) model spec)

def sortKey (p : SynthOutput × Nat) : Int ×ₗ Nat := toLex (p.1.startIndex, p.2)

/-- The rows of the tiles by their first index, and by their place where it is the same. -/
def mergeSynth (results : List SynthOutput) : List Dict :=
  (results.zipIdx.insertionSort fun p q => sortKey p ≤ sortKey q).flatMap (·.1.rows)

/-- Tiles that begin at different indices are merged in that order, wherever they stand. -/
theorem mergeSynth_perm {outputs order : List SynthOutput} (h : order.Perm outputs)
    (hsorted : outputs.Pairwise (fun a b => a.startIndex < b.startIndex)) :
    mergeSynth order = outputs.flatMap (·.rows) := by
  have htotal : Std.Total (fun p q : SynthOutput × Nat => sortKey p ≤ sortKey q) :=
    ⟨fun p q => le_total _ _⟩
  have htrans : IsTrans (SynthOutput × Nat) (fun p q => sortKey p ≤ sortKey q) :=
    ⟨fun p q r hpq hqr => le_trans hpq hqr⟩
  have hkeys := List.pairwise_insertionSort
    (fun p q : SynthOutput × Nat => sortKey p ≤ sortKey q) order.zipIdx
  have hperm := List.perm_insertionSort
    (fun p q : SynthOutput × Nat => sortKey p ≤ sortKey q) order.zipIdx
  unfold mergeSynth
  generalize order.zipIdx.insertionSort (fun p q => sortKey p ≤ sortKey q) = ranked at hkeys hperm ⊢
  have htiles : (ranked.map Prod.fst).Perm outputs := by
    have := hperm.map Prod.fst
    rw [List.zipIdx_map_fst] at this
    exact this.trans h
  have hle : (ranked.map Prod.fst).Pairwise (fun a b => a.startIndex ≤ b.startIndex) := by
    rw [List.pairwise_map]
    refine hkeys.imp ?_
    intro p q hpq
    rcases Prod.Lex.toLex_le_toLex.mp hpq with hlt | ⟨heq, -⟩
    · exact hlt.le
    · exact heq.le
  have hdistinct : (outputs.map (·.startIndex)).Nodup := by
    unfold List.Nodup
    rw [List.pairwise_map]
    exact hsorted.imp Int.ne_of_lt
  have heq : ranked.map Prod.fst = outputs := by
    refine List.Perm.eq_of_pairwise ?_ hle (hsorted.imp Int.le_of_lt) htiles
    intro a b ha hb hab hba
    exact List.inj_on_of_nodup_map hdistinct (htiles.mem_iff.mp ha) hb (Int.le_antisymm hab hba)
  rw [← heq, List.flatMap_map]

section Records
variable (choice : Choice) (fields : List String) (model spec : String)

/-- The record of the row `index`. -/
def synthRecord (index : Int) : Dict :=
  fields.foldl (fun record name =>
    Json.assign record name (.str (Jobkit.synthField choice index spec name))) []

/-- What a tile without a model that never yields reports: the records of its slice. -/
def synthTile (r : Int × Int) : SynthOutput :=
  ⟨(range r.1 r.2).map (synthRecord choice fields spec), "fallback", r.1, false⟩

theorem aiSynth_tile (r : Int × Int) :
    aiSynth choice none (fun _ => false) (synthJob fields model spec r).input =
      some (synthTile choice fields spec r) := by
  have hrows := Jobkit.synthRows_never
    (fun i => Jobkit.synthFallbackRow_strings choice i spec fields) 0 (range r.1 r.2)
  have hend : r.1 + (r.2 - r.1) = r.2 := by omega
  change (do
    let scanned ← Jobkit.synthRows
      (fun i => Jobkit.synthFallbackRow choice i spec (fields.map .str)) (fun _ => false) 0
      (range r.1 (r.1 + (r.2 - r.1)))
    return (⟨scanned.1, "fallback", r.1, scanned.2⟩ : SynthOutput)) = _
  rw [hend, hrows]
  rfl

/-- The tiles of a split, merged in any order, have the rows that their sizes count. -/
theorem mergeSynth_slices {sizes : List Int} (hsizes : ∀ s ∈ sizes, 0 ≤ s) :
    ∃ outputs, ((nonempty (spans 0 sizes)).map (synthJob fields model spec)).mapM
        (fun job => aiSynth choice none (fun _ => false) job.input) = some outputs ∧
      ∀ order, order.Perm outputs →
        mergeSynth order = (range 0 sizes.sum).map (synthRecord choice fields spec) := by
  refine ⟨(nonempty (spans 0 sizes)).map (synthTile choice fields spec), ?_, ?_⟩
  · rw [List.mapM_map]
    exact Results.mapM_some fun r _ => aiSynth_tile choice fields model spec r
  intro order horder
  have hsorted : ((nonempty (spans 0 sizes)).map (synthTile choice fields spec)).Pairwise
      (fun a b => a.startIndex < b.startIndex) := by
    rw [List.pairwise_map]
    exact Spans.nonempty_pairwise hsizes
  rw [mergeSynth_perm horder hsorted, List.flatMap_map]
  unfold synthTile
  rw [← List.map_flatMap, Spans.nonempty_flatMap, Spans.spans_flatMap hsizes, Int.zero_add]

end Records

/-- How the dataset of a split compares with the dataset of one tile. -/
theorem mergeSynth_split (choice : Choice) (sum : List PyFloat → PyFloat) {nTiles totalRows : Int}
    {fields : Option (List String)} {model spec : String} {weights : Option (List PyFloat)}
    {jobs : List SubmitRequest}
    (h : buildSynthJobs sum nTiles totalRows fields model spec weights = .ok jobs) :
    ∃ single whole outputs,
      buildSynthJobs sum 1 totalRows fields model spec none = .ok single ∧
      single.mapM (fun job => aiSynth choice none (fun _ => false) job.input) = some whole ∧
      jobs.mapM (fun job => aiSynth choice none (fun _ => false) job.input) = some outputs ∧
      ∀ order, order.Perm outputs →
        (mergeSynth order = mergeSynth whole ↔ Fits binary64 sum totalRows weights) := by
  unfold buildSynthJobs at h
  split at h
  · cases h
  split at h
  · cases h
  next htotal =>
    obtain ⟨slices, hslices, h⟩ := Results.bind_eq_ok.mp h
    cases h
    obtain ⟨sizes, rfl, hsizes, hfits, -⟩ := split_spec PyNumber.binary64_keepsSign hslices
    have hone : split binary64 sum totalRows 1 none = .ok (spans 0 (evenSizes totalRows 1)) := by
      rw [split, evenRanges, if_neg (by decide), if_neg (by omega)]
    have honeSum : (evenSizes totalRows 1).sum = totalRows := evenSizes_sum (by decide)
    obtain ⟨whole, hwhole, hmerge⟩ := mergeSynth_slices choice (fields.getD defaultFields) model
      spec (evenSizes_nonneg (by decide : (0 : Int) < 1) (by omega : 0 ≤ totalRows))
    obtain ⟨outputs, hrun, hall⟩ := mergeSynth_slices choice (fields.getD defaultFields) model
      spec hsizes
    refine ⟨_, whole, outputs, ?_, hwhole, hrun, ?_⟩
    · rw [buildSynthJobs, if_neg (by decide), if_neg htotal, hone]
      rfl
    intro order horder
    rw [hall order horder, hmerge whole (List.Perm.refl _), honeSum, ← hfits]
    constructor
    · intro heq
      have hlen := congrArg List.length heq
      rw [List.length_map, List.length_map, Spans.length_range, Spans.length_range] at hlen
      have := Spans.le_sum hsizes
      omega
    · intro heq
      rw [heq]

end OneCompute.Workloads
