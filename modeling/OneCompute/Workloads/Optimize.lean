import OneCompute.Jobkit.Tiles
import OneCompute.Lib.Leader
import OneCompute.Workloads.Partition

/-!
The distributed search: its tiles, and the reduction of what they report to the
single best candidate.
-/

namespace OneCompute.Workloads
open Jobkit (SearchOutput Objective)
open Leader (Leads Beats)
open PyNumber (binary64)
open Spans (range spans nonempty)

def optimizeJob (dims seed : Int) (r : Int × Int) : SubmitRequest where
  kind := .optimize
  input := [("idx_start", .int r.1), ("idx_end", .int r.2), ("dims", .int dims),
    ("seed", .int seed)]
  units := r.2 - r.1

/-- One job for each slice with a candidate in it. -/
def buildOptimizeJobs (sum : List PyFloat → PyFloat) (nTiles nCandidates dims seed : Int)
    (weights : Option (List PyFloat)) : Except Raised (List SubmitRequest) :=
  if nTiles ≤ 0 then .error (.valueError "n_tiles must be positive")
  else if nCandidates ≤ 0 then .error (.valueError "n_candidates must be positive")
  else if dims ≤ 0 then .error (.valueError "dims must be positive")
  else do
    let slices ← split binary64 sum nCandidates nTiles weights
    return (nonempty slices).map (optimizeJob dims seed)

section Search
variable {σ : Type} [LinearOrder σ]

structure Winner (σ : Type) where
  bestScore : WithBot σ
  bestParams : List PyFloat
  bestIndex : Int
  evaluated : Int

/-- The best tile so far, and the candidates counted so far. -/
def aggregateTile (acc : Option (SearchOutput σ) × Int) (tile : SearchOutput σ) :
    Option (SearchOutput σ) × Int :=
  let evaluated := acc.2 + tile.evaluated
  -- a tile that evaluated nothing has no best
  if tile.bestIndex < 0 then (acc.1, evaluated)
  else
    match acc.1 with
    | none => (some tile, evaluated)
    | some best =>
        if best.bestScore < tile.bestScore ∨
            tile.bestScore = best.bestScore ∧ tile.bestIndex < best.bestIndex then
          (some tile, evaluated)
        else (some best, evaluated)

def aggregateOptimize (results : List (SearchOutput σ)) : Winner σ :=
  match results.foldl aggregateTile (none, 0) with
  | (none, evaluated) => ⟨⊥, [], -1, evaluated⟩
  | (some best, evaluated) => ⟨best.bestScore, best.bestParams, best.bestIndex, evaluated⟩

/-- The score of a candidate. -/
def scoreOf (o : Objective σ) (dims seed i : Int) : σ := o.score (o.config i dims seed)

/-! ## One tile -/

/-- `out` names the leader of the candidates `s`. -/
structure Names (o : Objective σ) (dims seed : Int) (s : List Int) (out : SearchOutput σ) :
    Prop where
  leads : Leads (scoreOf o dims seed) s (some out.bestIndex)
  score : out.bestScore = scoreOf o dims seed out.bestIndex
  params : out.bestParams = o.config out.bestIndex dims seed

/-- What a tile knows once it has scored the candidates `s`. -/
def Scored (o : Objective σ) (dims seed : Int) (s : List Int) (out : SearchOutput σ) : Prop :=
  out.evaluated = s.length ∧
    (s = [] ∧ out.bestIndex = -1 ∧ out.bestScore = ⊥ ∨ Names o dims seed s out)

variable {o : Objective σ} {dims seed : Int}

/-- A later candidate takes the lead only if it scores higher. -/
theorem Scored.consider {s : List Int} {best : SearchOutput σ} {i : Int}
    (h : Scored o dims seed s best) (hi : ∀ j ∈ s, j < i) :
    Scored o dims seed (s ++ [i]) (o.consider dims seed best i) := by
  obtain ⟨hcount, hlead⟩ := h
  have halone : Leads (scoreOf o dims seed) [i] (some i) := by
    refine ⟨List.mem_singleton_self i, ?_⟩
    intro j hj
    rw [List.mem_singleton.mp hj]
    exact Beats.refl i
  unfold Objective.consider
  simp only
  split
  next hlt =>
    refine ⟨by simp [hcount], .inr ⟨?_, rfl, rfl⟩⟩
    rcases hlead with ⟨rfl, -, -⟩ | hnames
    · exact halone
    · rw [hnames.score, WithBot.coe_lt_coe] at hlt
      exact (halone.append hnames.leads (.inl hlt)).swap
  next hge =>
    refine ⟨by simp [hcount], .inr ?_⟩
    rcases hlead with ⟨rfl, -, hbot⟩ | hnames
    · rw [hbot] at hge
      exact absurd (WithBot.bot_lt_coe _) hge
    · rw [hnames.score, WithBot.coe_lt_coe] at hge
      have hbeats : Beats (scoreOf o dims seed) best.bestIndex i := by
        rcases (not_lt.mp hge).lt_or_eq with hlt | heq
        · exact .inl hlt
        · exact .inr ⟨heq, (hi _ hnames.leads.1).le⟩
      exact ⟨hnames.leads.append halone hbeats, hnames.score, hnames.params⟩

theorem Scored.foldl {s later : List Int} {best : SearchOutput σ}
    (h : Scored o dims seed s best) (hs : (s ++ later).Pairwise (· < ·)) :
    Scored o dims seed (s ++ later) (later.foldl (o.consider dims seed) best) := by
  induction later generalizing s best with
  | nil => simpa using h
  | cons i later ih =>
      have hi : ∀ j ∈ s, j < i := by
        intro j hj
        exact (List.pairwise_append.mp hs).2.2 j hj i List.mem_cons_self
      have hstep := h.consider hi
      have hsplit : s ++ i :: later = (s ++ [i]) ++ later := by simp
      rw [hsplit] at hs ⊢
      exact ih hstep hs

/-- A tile that never yields has scored its whole slice. -/
theorem optimize_scored (o : Objective σ) (dims seed : Int) (r : Int × Int) :
    ∃ out, o.optimize (fun _ => false) (optimizeJob dims seed r).input = some out ∧
      Scored o dims seed (range r.1 r.2) out := by
  refine ⟨_, rfl, ?_⟩
  rw [Objective.search_never]
  have hstart : Scored o dims seed [] ⟨⊥, [], -1, 0, false⟩ := ⟨rfl, .inl ⟨rfl, rfl, rfl⟩⟩
  exact hstart.foldl (Spans.range_pairwise r.1 r.2)

/-! ## The reduction -/

/-- What the reduction knows once the tiles have scored the candidates `s`. -/
def Reduced (o : Objective σ) (dims seed : Int) (s : List Int)
    (acc : Option (SearchOutput σ) × Int) : Prop :=
  acc.2 = s.length ∧
    match acc.1 with
    | none => s = []
    | some best => Names o dims seed s best

/-- Whichever of two leaders is kept, it leads both their parts. -/
theorem Reduced.aggregateTile {s t : List Int} {acc : Option (SearchOutput σ) × Int}
    {tile : SearchOutput σ} (h : Reduced o dims seed s acc) (ht : Scored o dims seed t tile)
    (hpos : ∀ i ∈ t, 0 ≤ i) : Reduced o dims seed (s ++ t) (aggregateTile acc tile) := by
  obtain ⟨hcount, hbest⟩ := h
  obtain ⟨htile, hlead⟩ := ht
  have hsum : acc.2 + tile.evaluated = ((s ++ t).length : Int) := by
    rw [hcount, htile, List.length_append]
    push_cast
    rfl
  unfold Workloads.aggregateTile
  simp only
  rcases hlead with ⟨rfl, hneg, -⟩ | hnames
  · rw [if_pos (by omega), List.append_nil]
    exact ⟨by simpa using hsum, hbest⟩
  · have hindex := hpos _ hnames.leads.1
    rw [if_neg (by omega)]
    cases hacc : acc.1 with
    | none =>
        rw [hacc] at hbest
        have hnil : s = [] := hbest
        subst hnil
        exact ⟨hsum, hnames⟩
    | some best =>
        rw [hacc] at hbest
        have hold : Names o dims seed s best := hbest
        simp only
        split
        next hwin =>
          rw [hold.score, hnames.score, WithBot.coe_lt_coe, WithBot.coe_inj] at hwin
          have hbeats : Beats (scoreOf o dims seed) tile.bestIndex best.bestIndex := by
            rcases hwin with hlt | ⟨heq, hlt⟩
            · exact .inl hlt
            · exact .inr ⟨heq.symm, hlt.le⟩
          exact ⟨hsum, (hnames.leads.append hold.leads hbeats).swap, hnames.score, hnames.params⟩
        next hlose =>
          rw [hold.score, hnames.score, WithBot.coe_lt_coe, WithBot.coe_inj] at hlose
          have hbeats : Beats (scoreOf o dims seed) best.bestIndex tile.bestIndex := by
            rcases lt_trichotomy (scoreOf o dims seed tile.bestIndex)
              (scoreOf o dims seed best.bestIndex) with hlt | heq | hlt
            · exact .inl hlt
            · exact .inr ⟨heq, not_lt.mp fun hlt => hlose (.inr ⟨heq, hlt⟩)⟩
            · exact absurd (.inl hlt) hlose
          exact ⟨hsum, hold.leads.append hnames.leads hbeats, hold.score, hold.params⟩

theorem reduced_foldl {slices : List (Int × Int)} {outputs : List (SearchOutput σ)}
    (h : List.Forall₂ (fun r out => Scored o dims seed (range r.1 r.2) out) slices outputs)
    (hpos : ∀ r ∈ slices, 0 ≤ r.1) {s : List Int} {acc : Option (SearchOutput σ) × Int}
    (hacc : Reduced o dims seed s acc) :
    Reduced o dims seed (s ++ slices.flatMap fun r => range r.1 r.2)
      (outputs.foldl aggregateTile acc) := by
  induction h generalizing s acc with
  | nil => simpa using hacc
  | cons hout _ ih =>
      rw [List.flatMap_cons, ← List.append_assoc, List.foldl_cons]
      apply ih (fun r hr => hpos r (List.mem_cons_of_mem _ hr))
      apply hacc.aggregateTile hout
      intro i hi
      have := hpos _ List.mem_cons_self
      exact this.trans (Spans.mem_range.mp hi).1

/-! ## The whole search -/

/-- `w` is the lowest candidate of `[0, n)` that scores highest, and says that all
of them were scored. -/
structure IsOptimum (o : Objective σ) (dims seed n : Int) (w : Winner σ) : Prop where
  inside : 0 ≤ w.bestIndex ∧ w.bestIndex < n
  score : w.bestScore = scoreOf o dims seed w.bestIndex
  params : w.bestParams = o.config w.bestIndex dims seed
  highest : ∀ i, 0 ≤ i → i < n → scoreOf o dims seed i ≤ scoreOf o dims seed w.bestIndex
  lowest : ∀ i, 0 ≤ i → i < w.bestIndex → scoreOf o dims seed i < scoreOf o dims seed w.bestIndex
  evaluated : w.evaluated = n

/-- What is reduced from the slices of a split, in any order, counts their sizes. It
is the optimum when they add up to the number of candidates. -/
theorem aggregate_slices (o : Objective σ) (dims seed n : Int) {sizes : List Int} (hn : 0 < n)
    (hsizes : ∀ s ∈ sizes, 0 ≤ s) :
    ∃ outputs, ((nonempty (spans 0 sizes)).map (optimizeJob dims seed)).mapM
        (fun job => o.optimize (fun _ => false) job.input) = some outputs ∧
      ∀ order, order.Perm outputs → (aggregateOptimize order).evaluated = sizes.sum ∧
        (sizes.sum = n → IsOptimum o dims seed n (aggregateOptimize order)) := by
  choose run hrun hscored using optimize_scored o dims seed
  refine ⟨(nonempty (spans 0 sizes)).map run, ?_, ?_⟩
  · rw [List.mapM_map]
    exact Results.mapM_some fun r _ => hrun r
  intro order horder
  have hall : List.Forall₂ (fun out r => Scored o dims seed (range r.1 r.2) out)
      ((nonempty (spans 0 sizes)).map run) (nonempty (spans 0 sizes)) := by
    rw [List.forall₂_map_left_iff, List.forall₂_same]
    exact fun r _ => hscored r
  obtain ⟨slices, hslices, hperm⟩ := List.perm_comp_forall₂ horder hall
  have hcover := (hperm.flatMap_right fun r => range r.1 r.2)
  rw [Spans.nonempty_flatMap, Spans.spans_flatMap hsizes, Int.zero_add] at hcover
  have hpos : ∀ r ∈ slices, 0 ≤ r.1 := by
    intro r hr
    exact Spans.spans_bound hsizes r (List.mem_filter.mp (hperm.mem_iff.mp hr)).1
  have hstart : Reduced o dims seed [] (none, 0) := ⟨rfl, rfl⟩
  have hreduced := reduced_foldl hslices.flip hpos hstart
  rw [List.nil_append] at hreduced
  obtain ⟨hcount, hbest⟩ := hreduced
  rw [hcover.length_eq, Spans.length_range] at hcount
  have hsum := Spans.le_sum hsizes
  unfold aggregateOptimize
  generalize order.foldl aggregateTile (none, 0) = acc at hcount hbest ⊢
  obtain ⟨best, evaluated⟩ := acc
  cases best with
  | none =>
      refine ⟨?_, ?_⟩
      · simp only at hcount ⊢
        omega
      · intro heq
        have hlen := hcover.length_eq
        rw [show slices.flatMap _ = [] from hbest, Spans.length_range] at hlen
        simp only [List.length_nil] at hlen
        omega
  | some best =>
      refine ⟨?_, ?_⟩
      · simp only at hcount ⊢
        omega
      · intro heq
        have hnames : Names o dims seed _ best := hbest
        have hmem : ∀ i, i ∈ slices.flatMap (fun r => range r.1 r.2) ↔ 0 ≤ i ∧ i < n := by
          intro i
          rw [hcover.mem_iff, Spans.mem_range, heq]
        have hin := (hmem _).mp hnames.leads.1
        refine ⟨hin, hnames.score, hnames.params, ?_, ?_, by simp only at hcount ⊢; omega⟩
        · intro i hi hlt
          rcases hnames.leads.2 i ((hmem i).mpr ⟨hi, hlt⟩) with h | h
          · exact h.le
          · exact h.1.le
        · intro i hi hlt
          rcases hnames.leads.2 i ((hmem i).mpr ⟨hi, hlt.trans hin.2⟩) with h | h
          · exact h
          · exact absurd hlt (not_lt.mpr h.2)

/-- The search finds the optimum, in whatever order its tiles report, exactly when
the weights let their shares be made up to the number of candidates. -/
theorem aggregate_optimum_iff (o : Objective σ) (sum : List PyFloat → PyFloat)
    {nTiles n dims seed : Int} {weights : Option (List PyFloat)} {jobs : List SubmitRequest}
    (h : buildOptimizeJobs sum nTiles n dims seed weights = .ok jobs) :
    ∃ outputs, jobs.mapM (fun job => o.optimize (fun _ => false) job.input) = some outputs ∧
      ∀ order, order.Perm outputs →
        (IsOptimum o dims seed n (aggregateOptimize order) ↔ Fits binary64 sum n weights) := by
  unfold buildOptimizeJobs at h
  split at h
  · cases h
  split at h
  · cases h
  next hn =>
    split at h
    · cases h
    obtain ⟨slices, hslices, h⟩ := Results.bind_eq_ok.mp h
    cases h
    obtain ⟨sizes, rfl, hsizes, hfits, -⟩ := split_spec PyNumber.binary64_keepsSign hslices
    obtain ⟨outputs, hrun, hall⟩ := aggregate_slices o dims seed n (by omega) hsizes
    refine ⟨outputs, hrun, ?_⟩
    intro order horder
    obtain ⟨hcount, hopt⟩ := hall order horder
    rw [← hfits]
    constructor
    · intro hw
      rw [← hcount, hw.evaluated]
    · exact hopt

end Search

/-- The score of a candidate is minus its index, which is the only draw. -/
def countdown : Objective Int where
  uniform s _ := [.fin s]
  score params := match params with
    | [.fin q] => -q.floor
    | _ => 0

theorem aggregate_optimum_uneven : ∃ jobs outputs,
    buildOptimizeJobs binary64.sum 2 4 1 0 (some [.fin 1, .fin 2]) = .ok jobs ∧
      jobs.mapM (fun job => countdown.optimize (fun _ => false) job.input) = some outputs ∧
      IsOptimum countdown 1 0 4 (aggregateOptimize outputs.reverse) := by
  have h : buildOptimizeJobs binary64.sum 2 4 1 0 (some [.fin 1, .fin 2]) =
      .ok ([(0, 1), (1, 4)].map (optimizeJob 1 0)) := by
    rw [buildOptimizeJobs, unevenSplit]
    rfl
  obtain ⟨outputs, hrun, hall⟩ := aggregate_optimum_iff countdown binary64.sum h
  exact ⟨_, outputs, h, hrun, (hall _ (List.reverse_perm _)).mpr unevenSplit_fits⟩

theorem hugeSearch_overshoots : ∃ jobs outputs,
    buildOptimizeJobs binary64.sum 1 (2 ^ 54 + 3) 1 0 (some [.fin 1]) = .ok jobs ∧
      jobs.mapM (fun job => countdown.optimize (fun _ => false) job.input) = some outputs ∧
      ¬ IsOptimum countdown 1 0 (2 ^ 54 + 3) (aggregateOptimize outputs) := by
  have hsizes : ∀ s ∈ [(2 ^ 54 + 4 : Int)], 0 ≤ s := by simp
  obtain ⟨outputs, hrun, hall⟩ := aggregate_slices countdown 1 0 (2 ^ 54 + 3) (by decide) hsizes
  refine ⟨_, outputs, ?_, hrun, ?_⟩
  · unfold buildOptimizeJobs
    rw [hugeSplit]
    rfl
  · intro hw
    have hcount := (hall outputs (List.Perm.refl _)).1
    rw [hw.evaluated] at hcount
    simp at hcount

end OneCompute.Workloads
