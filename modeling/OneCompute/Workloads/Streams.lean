import OneCompute.Jobkit.MonteCarlo

/-!
The tiles of a Monte-Carlo run and the random streams of their chunks: the builder seeds a
tile by its index, and the executor a chunk by its tile's seed and its own number.
-/

namespace OneCompute.Workloads
open Jobkit (McInput McTask montecarloInput montecarloTasks)
open PyNumber (binary64)
open Spans (spans)

def montecarloJob (horizonDays : Int) (mu sigma histLo histHi : PyFloat) (histBins : Int)
    (slice : (Int × Int) × Nat) : SubmitRequest where
  kind := .montecarlo
  input := [("n_paths", .int (slice.1.2 - slice.1.1)), ("horizon_days", .int horizonDays),
    ("mu", .float mu), ("sigma", .float sigma), ("seed", .int (slice.2 + 1)),
    ("hist_lo", .float histLo), ("hist_hi", .float histHi), ("hist_bins", .int histBins)]
  units := slice.1.2 - slice.1.1

/-- One job for each slice with a path in it, which keeps the number of the slice. -/
def buildMontecarloJobs (sum : List PyFloat → PyFloat) (nTiles totalPaths horizonDays : Int)
    (mu sigma histLo histHi : PyFloat) (histBins : Int) (weights : Option (List PyFloat)) :
    Except Raised (List SubmitRequest) :=
  if nTiles ≤ 0 then .error (.valueError "n_tiles must be positive")
  else if totalPaths ≤ 0 then .error (.valueError "total_paths must be positive")
  else if horizonDays ≤ 0 then .error (.valueError "horizon_days must be positive")
  else do
    let ranges ← split binary64 sum totalPaths nTiles weights
    return (ranges.zipIdx.filter fun slice => slice.1.1 < slice.1.2).map
      (montecarloJob horizonDays mu sigma histLo histHi histBins)

/-- What the executor steps a tile's seed by. -/
def seedStride : Nat := 1000003

/-- The chunks of the tiles on machines with so many cores each. -/
def chunksOf (cores : List Nat) (tiles : List McInput) : List (List McTask) :=
  List.zipWith montecarloTasks cores tiles

/-- No two chunks share a seed, and together they simulate every path once. -/
structure Streams (totalPaths : Int) (jobs : List SubmitRequest) (chunks : List (List McTask)) :
    Prop where
  seeds : (chunks.flatten.map McTask.seed).Nodup
  nonempty : ∀ task ∈ chunks.flatten, 0 < task.nPaths
  tiles : List.Forall₂ (fun job tasks => (tasks.map McTask.nPaths).sum = job.units) jobs chunks
  total : (chunks.flatten.map McTask.nPaths).sum = totalPaths

/-! ## Chunks of a tile -/

theorem montecarloTasks_seed {cores : Nat} {tile : McInput} (hcores : cores < seedStride) :
    ∀ task ∈ montecarloTasks cores tile,
      tile.seed * seedStride ≤ task.seed ∧ task.seed < (tile.seed + 1) * seedStride := by
  intro task htask
  obtain ⟨chunk, hchunk, rfl⟩ := List.mem_map.mp htask
  have hmem := (List.mem_filter.mp hchunk).1
  have hlt := (List.mem_zipIdx hmem).2.1
  rw [evenSizes, List.length_map, List.length_range] at hlt
  simp only [seedStride] at hcores ⊢
  push_cast
  omega

theorem montecarloTasks_nodup (cores : Nat) (tile : McInput) :
    ((montecarloTasks cores tile).map McTask.seed).Nodup := by
  have hindex : (((evenSizes tile.nPaths (max (cores : Int) (min 2048 ((tile.nPaths + 1999) / 2000)))
      ).zipIdx.filter fun chunk => 0 < chunk.1).map Prod.snd).Nodup := by
    refine List.Nodup.sublist (List.filter_sublist.map _) ?_
    rw [List.zipIdx_map_snd]
    exact List.nodup_range'
  have hseeds := hindex.map (f := fun n : Nat => tile.seed * 1000003 + (n : Int))
    (fun a b hab => by simpa using hab)
  rw [List.map_map] at hseeds
  rw [montecarloTasks, List.map_map]
  exact hseeds

/-! ## All tiles -/

theorem chunks_disjoint {cores : List Nat} {tiles : List McInput}
    (hcores : ∀ n ∈ cores, n < seedStride) (hseeds : tiles.Pairwise fun s t => s.seed < t.seed) :
    ((chunksOf cores tiles).map (List.map McTask.seed)).Pairwise List.Disjoint := by
  induction cores generalizing tiles with
  | nil => simp [chunksOf]
  | cons n cores ih =>
      cases tiles with
      | nil => simp [chunksOf]
      | cons tile tiles =>
          obtain ⟨hn, hcores⟩ := List.forall_mem_cons.mp hcores
          obtain ⟨hfirst, hrest⟩ := List.pairwise_cons.mp hseeds
          refine List.pairwise_cons.mpr ⟨?_, ih hcores hrest⟩
          intro seeds hmem seed hseed hother
          obtain ⟨tasks, htasks, rfl⟩ := List.mem_map.mp hmem
          obtain ⟨task, htask, rfl⟩ := List.mem_map.mp hseed
          obtain ⟨later, hlater, hsame⟩ := List.mem_map.mp hother
          rw [← List.map_uncurry_zip_eq_zipWith] at htasks
          obtain ⟨⟨m, tile'⟩, hzip, rfl⟩ := List.mem_map.mp htasks
          obtain ⟨hm, htile'⟩ := List.of_mem_zip hzip
          have hbound := montecarloTasks_seed hn task htask
          have hbound' := montecarloTasks_seed (hcores m hm) later hlater
          have hlt := hfirst tile' htile'
          nlinarith

theorem spans_sum {sizes : List Int} (h : ∀ s ∈ sizes, 0 ≤ s) (start : Int) (k : Nat) :
    ((((spans start sizes).zipIdx k).filter fun slice => slice.1.1 < slice.1.2).map
      fun slice => slice.1.2 - slice.1.1).sum = sizes.sum := by
  induction sizes generalizing start k with
  | nil => rfl
  | cons size sizes ih =>
      obtain ⟨hsize, hsizes⟩ := List.forall_mem_cons.mp h
      have hrest := ih hsizes (start + size) (k + 1)
      rw [spans, List.zipIdx_cons, List.sum_cons]
      by_cases hpos : 0 < size
      · rw [List.filter_cons_of_pos (by simpa using hpos), List.map_cons, List.sum_cons, hrest]
        dsimp only
        omega
      · rw [List.filter_cons_of_neg (by simpa using hpos), hrest]
        omega

section Build
variable (horizonDays : Int) (mu sigma histLo histHi : PyFloat) (histBins : Int)

/-- What the executor reads of a tile. -/
def tileOf (slice : (Int × Int) × Nat) : McInput :=
  ⟨slice.1.2 - slice.1.1, max 1 horizonDays, mu, sigma, slice.2 + 1, histLo, histHi, histBins⟩

theorem montecarloJob_input (slice : (Int × Int) × Nat) :
    montecarloInput (montecarloJob horizonDays mu sigma histLo histHi histBins slice).input =
      some (tileOf horizonDays mu sigma histLo histHi histBins slice) :=
  rfl

variable {horizonDays mu sigma histLo histHi histBins} in
theorem tiles_eq {slices : List ((Int × Int) × Nat)} {tiles : List McInput}
    (h : List.Forall₂ (fun job tile => montecarloInput job.input = some tile)
      (slices.map (montecarloJob horizonDays mu sigma histLo histHi histBins)) tiles) :
    tiles = slices.map (tileOf horizonDays mu sigma histLo histHi histBins) := by
  induction slices generalizing tiles with
  | nil =>
      cases h
      rfl
  | cons slice slices ih =>
      cases h with
      | cons hhead htail =>
          rw [montecarloJob_input, Option.some.injEq] at hhead
          rw [List.map_cons, hhead, ih htail]

theorem tiles_seeds (rs : List (Int × Int)) :
    ((rs.zipIdx.filter fun slice => slice.1.1 < slice.1.2).map
      (tileOf horizonDays mu sigma histLo histHi histBins)).Pairwise fun s t => s.seed < t.seed := by
  have hindex : (rs.zipIdx.map Prod.snd).Pairwise (· < ·) := by
    rw [List.zipIdx_map_snd]
    exact List.pairwise_lt_range'
  rw [List.pairwise_map] at hindex ⊢
  refine (hindex.sublist List.filter_sublist).imp fun {s t} hst => ?_
  simp only [tileOf]
  omega

/-- The chunks of each tile, and of all tiles, simulate the paths they are given. -/
theorem chunks_paths {slices : List ((Int × Int) × Nat)} (hslices : ∀ s ∈ slices, s.1.1 < s.1.2)
    {cores : List Nat} (hcores : cores.length = slices.length) :
    List.Forall₂ (fun job tasks => (tasks.map McTask.nPaths).sum = job.units)
        (slices.map (montecarloJob horizonDays mu sigma histLo histHi histBins))
        (chunksOf cores (slices.map (tileOf horizonDays mu sigma histLo histHi histBins))) ∧
      ((chunksOf cores (slices.map (tileOf horizonDays mu sigma histLo histHi histBins))).flatten.map
        McTask.nPaths).sum = (slices.map fun slice => slice.1.2 - slice.1.1).sum := by
  induction slices generalizing cores with
  | nil =>
      cases cores with
      | nil => exact ⟨.nil, rfl⟩
      | cons n cores => cases hcores
  | cons slice slices ih =>
      cases cores with
      | nil => cases hcores
      | cons n cores =>
          obtain ⟨hslice, hslices⟩ := List.forall_mem_cons.mp hslices
          obtain ⟨htiles, htotal⟩ := ih hslices (Nat.succ.inj hcores)
          have hpaths := Jobkit.Simulator.montecarloTasks_sum n
            (tileOf horizonDays mu sigma histLo histHi histBins slice)
          rw [max_eq_right (by simp only [tileOf]; omega)] at hpaths
          refine ⟨.cons hpaths htiles, ?_⟩
          simp only [chunksOf, List.map_cons, List.zipWith_cons_cons, List.flatten_cons, List.map_append,
            List.sum_append, List.sum_cons] at htotal ⊢
          rw [htotal, hpaths]
          rfl

end Build

/-- The chunks of all tiles have streams of their own and simulate the requested paths,
exactly when the weights let their shares be made up to the paths. -/
theorem montecarlo_streams_iff (sum : List PyFloat → PyFloat)
    {nTiles totalPaths horizonDays histBins : Int} {mu sigma histLo histHi : PyFloat}
    {weights : Option (List PyFloat)} {jobs : List SubmitRequest}
    (h : buildMontecarloJobs sum nTiles totalPaths horizonDays mu sigma histLo histHi histBins weights =
      .ok jobs) :
    (∀ tiles cores, List.Forall₂ (fun job tile => montecarloInput job.input = some tile) jobs tiles →
        cores.length = jobs.length → (∀ n ∈ cores, n < seedStride) →
        Streams totalPaths jobs (chunksOf cores tiles)) ↔
      Fits binary64 sum totalPaths weights := by
  unfold buildMontecarloJobs at h
  split at h
  · cases h
  split at h
  · cases h
  split at h
  · cases h
  obtain ⟨ranges, hranges, h⟩ := Results.bind_eq_ok.mp h
  cases h
  obtain ⟨sizes, rfl, hsizes, hfits, -⟩ := split_spec PyNumber.binary64_keepsSign hranges
  have htotal := spans_sum hsizes 0 0
  have hslices : ∀ s ∈ (spans 0 sizes).zipIdx.filter (fun slice => slice.1.1 < slice.1.2),
      s.1.1 < s.1.2 := fun s hs => by simpa using (List.mem_filter.mp hs).2
  have hseeds := tiles_seeds horizonDays mu sigma histLo histHi histBins (spans 0 sizes)
  generalize ((spans 0 sizes).zipIdx.filter fun slice => slice.1.1 < slice.1.2) = slices at *
  rw [← hfits]
  constructor
  · intro hall
    have hstreams := hall (slices.map (tileOf horizonDays mu sigma histLo histHi histBins))
      (List.replicate slices.length 1) ?_ (by simp) ?_
    · have hone : (List.replicate slices.length 1).length = slices.length := by simp
      have hpaths := (chunks_paths horizonDays mu sigma histLo histHi histBins hslices hone).2
      rw [← htotal, ← hpaths]
      exact hstreams.total
    · rw [List.forall₂_map_left_iff, List.forall₂_map_right_iff]
      exact List.forall₂_same.mpr fun slice _ => rfl
    · intro n hn
      rw [List.eq_of_mem_replicate hn]
      decide
  · intro hsum tiles cores htiles hlen hcores
    rw [List.length_map] at hlen
    obtain rfl := tiles_eq htiles
    obtain ⟨htile, hpaths⟩ := chunks_paths horizonDays mu sigma histLo histHi histBins hslices hlen
    refine ⟨?_, ?_, htile, by rw [hpaths, htotal, hsum]⟩
    · rw [List.map_flatten, List.nodup_flatten]
      refine ⟨?_, chunks_disjoint hcores hseeds⟩
      intro seeds hmem
      obtain ⟨tasks, htasks, rfl⟩ := List.mem_map.mp hmem
      rw [chunksOf, ← List.map_uncurry_zip_eq_zipWith] at htasks
      obtain ⟨⟨n, tile⟩, -, rfl⟩ := List.mem_map.mp htasks
      exact montecarloTasks_nodup n tile
    · intro task htask
      obtain ⟨tasks, htasks, htask⟩ := List.mem_flatten.mp htask
      rw [chunksOf, ← List.map_uncurry_zip_eq_zipWith] at htasks
      obtain ⟨⟨n, tile⟩, -, rfl⟩ := List.mem_map.mp htasks
      exact Jobkit.Simulator.montecarloTasks_pos htask

theorem montecarlo_streams_uneven : ∃ jobs,
    buildMontecarloJobs binary64.sum 2 4 1 (.fin 0) (.fin 0) (.fin (-1)) (.fin 2) 2
      (some [.fin 1, .fin 2]) = .ok jobs ∧
    ∀ tiles, List.Forall₂ (fun job tile => montecarloInput job.input = some tile) jobs tiles →
      Streams 4 jobs (chunksOf [1, 3] tiles) := by
  have h : buildMontecarloJobs binary64.sum 2 4 1 (.fin 0) (.fin 0) (.fin (-1)) (.fin 2) 2
      (some [.fin 1, .fin 2]) = .ok ([((0, 1), 0), ((1, 4), 1)].map
        (montecarloJob 1 (.fin 0) (.fin 0) (.fin (-1)) (.fin 2) 2)) := by
    rw [buildMontecarloJobs, unevenSplit]
    rfl
  refine ⟨_, h, ?_⟩
  intro tiles htiles
  exact (montecarlo_streams_iff binary64.sum h).mpr unevenSplit_fits tiles [1, 3] htiles rfl
    (by decide)

/-- The only tile of 2 ^ 54 + 3 paths simulates one more. -/
theorem hugeRun_overshoots : ∃ jobs tiles,
    buildMontecarloJobs binary64.sum 1 (2 ^ 54 + 3) 1 (.fin 0) (.fin 0) (.fin (-1)) (.fin 2) 2
      (some [.fin 1]) = .ok jobs ∧
    List.Forall₂ (fun job tile => montecarloInput job.input = some tile) jobs tiles ∧
    ¬ Streams (2 ^ 54 + 3) jobs (chunksOf [1] tiles) := by
  refine ⟨[montecarloJob 1 (.fin 0) (.fin 0) (.fin (-1)) (.fin 2) 2 ((0, 2 ^ 54 + 4), 0)],
    [tileOf 1 (.fin 0) (.fin 0) (.fin (-1)) (.fin 2) 2 ((0, 2 ^ 54 + 4), 0)], ?_, .cons rfl .nil, ?_⟩
  · unfold buildMontecarloJobs
    rw [hugeSplit]
    rfl
  · intro hstreams
    have hlong : ∀ s ∈ [(((0, 2 ^ 54 + 4), 0) : (Int × Int) × Nat)], s.1.1 < s.1.2 := by simp
    have hone : [1].length = [(((0, 2 ^ 54 + 4), 0) : (Int × Int) × Nat)].length := rfl
    have hpaths := (chunks_paths 1 (.fin 0) (.fin 0) (.fin (-1)) (.fin 2) 2 hlong hone).2
    have htotal := hstreams.total
    rw [List.map_singleton] at hpaths
    rw [hpaths] at htotal
    simp at htotal

end OneCompute.Workloads
