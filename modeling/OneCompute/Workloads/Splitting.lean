import OneCompute.Workloads.Fractal
import OneCompute.Workloads.Synth

/-!
How the answer of a split workload compares with the answer of the workload as one
tile, for images and for synthetic datasets.
-/

namespace OneCompute.Workloads
open Jobkit (View Choice fractal aiSynth mandelbrot)
open PyNumber (binary64)

/-- A split dataset is the dataset of one tile exactly when the weights let their
shares be made up to the rows; a split image is the image of one tile exactly when the
rows that even one more to each band would leave over are dark. -/
theorem split_answer_iff (sum : List PyFloat → PyFloat) (pow : PyFloat → PyFloat → PyFloat)
    (escape : View → Int → Int → Int) (choice : Choice) :
    (∀ nTiles width height maxIter weights colors jobs, ramp pow maxIter = .ok colors →
      buildFractalJobs sum nTiles width height maxIter weights = .ok jobs →
      ∃ single whole outputs,
        buildFractalJobs sum 1 width height maxIter none = .ok single ∧
        single.mapM (fun job => fractal escape (fun _ => false) job.input) = some whole ∧
        jobs.mapM (fun job => fractal escape (fun _ => false) job.input) = some outputs ∧
        ∀ order, order.Perm outputs →
          (assembleTiles pow order width height maxIter =
              assembleTiles pow whole width height maxIter ↔
            ∀ y, height - unassigned binary64 sum height weights ≤ y → 0 ≤ y → y < height →
              Dark (rampAt colors maxIter) (escape (fractalView width height maxIter)) width y)) ∧
    (∀ nTiles totalRows fields model spec weights jobs,
      buildSynthJobs sum nTiles totalRows fields model spec weights = .ok jobs →
      ∃ single whole outputs,
        buildSynthJobs sum 1 totalRows fields model spec none = .ok single ∧
        single.mapM (fun job => aiSynth choice none (fun _ => false) job.input) = some whole ∧
        jobs.mapM (fun job => aiSynth choice none (fun _ => false) job.input) = some outputs ∧
        ∀ order, order.Perm outputs →
          (mergeSynth order = mergeSynth whole ↔ Fits binary64 sum totalRows weights)) := by
  constructor
  · intro nTiles width height maxIter weights colors jobs hramp hjobs
    exact assembleTiles_split escape sum hramp hjobs
  · intro nTiles totalRows fields model spec weights jobs hjobs
    exact mergeSynth_split choice sum hjobs

theorem buildFractalJobs_uneven :
    buildFractalJobs binary64.sum 2 1 4 1 (some [.fin 1, .fin 2]) =
      .ok ([(0, 1), (1, 4)].map (fractalJob 1 4 1)) := by
  rw [buildFractalJobs, unevenSplit]
  rfl

theorem buildSynthJobs_uneven :
    buildSynthJobs binary64.sum 2 4 none "" "a record" (some [.fin 1, .fin 2]) =
      .ok ([(0, 1), (1, 4)].map (synthJob defaultFields "" "a record")) := by
  rw [buildSynthJobs, unevenSplit]
  rfl

set_option maxRecDepth 20000 in
theorem split_answer_uneven :
    (∃ bands single whole pictures,
      buildFractalJobs binary64.sum 2 1 4 1 (some [.fin 1, .fin 2]) = .ok bands ∧
      buildFractalJobs binary64.sum 1 1 4 1 none = .ok single ∧
      single.mapM (fun job => fractal mandelbrot (fun _ => false) job.input) = some whole ∧
      bands.mapM (fun job => fractal mandelbrot (fun _ => false) job.input) = some pictures ∧
      assembleTiles (fun t _ => t) pictures.reverse 1 4 1 =
        assembleTiles (fun t _ => t) whole 1 4 1) ∧
    ∃ slices single total rows,
      buildSynthJobs binary64.sum 2 4 none "" "a record" (some [.fin 1, .fin 2]) = .ok slices ∧
      buildSynthJobs binary64.sum 1 4 none "" "a record" none = .ok single ∧
      single.mapM (fun job => aiSynth (fun _ _ _ => 0) none (fun _ => false) job.input) =
        some total ∧
      slices.mapM (fun job => aiSynth (fun _ _ _ => 0) none (fun _ => false) job.input) =
        some rows ∧
      mergeSynth rows.reverse = mergeSynth total := by
  have hramp : ramp (fun t _ => t) 1 = .ok [(0, 0, 102), black] := by decide +kernel
  have hleftover : leftover binary64 binary64.sum 4 [.fin 1, .fin 2] = 1 := by decide +kernel
  have hbands := buildFractalJobs_uneven
  have hslices := buildSynthJobs_uneven
  obtain ⟨himage, hdata⟩ := split_answer_iff binary64.sum (fun t _ => t) mandelbrot (fun _ _ _ => 0)
  obtain ⟨single, whole, pictures, hsingle, hwhole, hpictures, hp⟩ := himage _ _ _ _ _ _ _ hramp hbands
  obtain ⟨one, total, rows, hone, htotal, hrows, hr⟩ := hdata _ _ _ _ _ _ _ hslices
  refine ⟨⟨_, single, whole, pictures, hbands, hsingle, hwhole, hpictures, ?_⟩,
    _, one, total, rows, hslices, hone, htotal, hrows, ?_⟩
  · apply (hp _ (List.reverse_perm _)).mpr
    intro y hfrom _ hlt
    simp only [unassigned, hleftover, List.length_cons, List.length_nil] at hfrom
    omega
  · exact (hr _ (List.reverse_perm _)).mpr unevenSplit_fits

/-- The only tile of 2 ^ 54 + 3 rows is one row too long. -/
theorem hugeDataset_differs : ∃ single whole jobs outputs,
    buildSynthJobs binary64.sum 1 (2 ^ 54 + 3) none "" "a record" none = .ok single ∧
      single.mapM (fun job => aiSynth (fun _ _ _ => 0) none (fun _ => false) job.input) =
        some whole ∧
      buildSynthJobs binary64.sum 1 (2 ^ 54 + 3) none "" "a record" (some [.fin 1]) = .ok jobs ∧
      jobs.mapM (fun job => aiSynth (fun _ _ _ => 0) none (fun _ => false) job.input) =
        some outputs ∧
      mergeSynth outputs ≠ mergeSynth whole := by
  have hone : ∀ s ∈ [(2 ^ 54 + 3 : Int)], 0 ≤ s := by simp
  have hlong : ∀ s ∈ [(2 ^ 54 + 4 : Int)], 0 ≤ s := by simp
  obtain ⟨whole, hwhole, hmerge⟩ :=
    mergeSynth_slices (fun _ _ _ => 0) defaultFields "" "a record" hone
  obtain ⟨outputs, hrun, hall⟩ :=
    mergeSynth_slices (fun _ _ _ => 0) defaultFields "" "a record" hlong
  refine ⟨_, whole, _, outputs, ?_, hwhole, ?_, hrun, ?_⟩
  · rfl
  · rw [buildSynthJobs, hugeSplit]
    rfl
  · rw [hall _ (List.Perm.refl _), hmerge _ (List.Perm.refl _)]
    intro heq
    have hlen := congrArg List.length heq
    simp at hlen

end OneCompute.Workloads
