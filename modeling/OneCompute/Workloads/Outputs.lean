import OneCompute.Workloads.Hashcrack
import OneCompute.Workloads.Optimize
import OneCompute.Workloads.Summaries

/-!
What an executor reports as JSON, and that the reducers of JSON outputs make of it what
the reducers of typed outputs make; and what they make of some of the tiles.
-/

namespace OneCompute.Workloads
open Jobkit (HashOutput SearchOutput Objective pyInt)
open Spans (range spans nonempty)
open Worker (truthy)

/-! ## The hash search -/

def hashJson (out : HashOutput) : Dict :=
  [("prefix", .str out.pre), ("target_prefix", .str out.targetPre), ("found", .bool out.found),
    ("nonce", out.nonce.elim .null .int), ("hash", out.hash.elim .null .str),
    ("hashes_tried", .int out.hashesTried), ("nonce_start", .int out.nonceStart),
    ("nonce_end", .int out.nonceEnd), ("yielded", .bool out.yielded)]

def HashWinner.summary (w : HashWinner) : Summary :=
  fields [("found", .bool w.found), ("target_prefix", w.targetPre.elim .null .str),
    ("nonce", w.nonce.elim .null .int), ("hash", w.hash.elim .null .str),
    ("hashes_tried", .int w.hashesTried), ("tiles", .int w.tiles)]

theorem hashJson_tried (outs : List HashOutput) :
    (outs.map hashJson).mapM (fun r => pyInt (getOr r "hashes_tried" (.int 0))) =
      some (outs.map (·.hashesTried)) := by
  rw [List.mapM_map]
  exact Results.mapM_some fun _ _ => rfl

theorem hashJson_found (outs : List HashOutput) :
    (outs.map hashJson).find? (fun r => truthy (getOr r "found" .null)) =
      (outs.find? (·.found)).map hashJson := by
  rw [List.find?_map]
  rfl

theorem hashJson_target (outs : List HashOutput) :
    (outs.map hashJson).find? (fun r => truthy (getOr r "target_prefix" .null)) =
      (outs.find? (·.targetPre ≠ "")).map hashJson := by
  rw [List.find?_map]
  rfl

theorem aggregateHashcrackOutputs_typed (outs : List HashOutput) :
    aggregateHashcrackOutputs (outs.map hashJson) =
      some (aggregateHashcrack (outs.map some)).summary := by
  have hparts : (outs.map hashJson).filter (fun r => !r.isEmpty) = outs.map hashJson := by
    rw [List.filter_eq_self]
    intro r hr
    obtain ⟨out, -, rfl⟩ := List.mem_map.mp hr
    rfl
  have hresults := Results.reduceOption_map_some outs
  unfold aggregateHashcrackOutputs aggregateHashcrack
  dsimp only
  rw [hparts, hashJson_tried, hashJson_found, hashJson_target, hresults]
  cases outs.find? (·.found) <;> cases outs.find? (·.targetPre ≠ "") <;>
    simp [HashWinner.summary, getOr, hashJson, Json.lookup]

/-- What is found in some tiles of a split solves the whole search. -/
theorem found_solves {digest : String → Int → Except String String} {targetPre pre : String}
    {nonceStart : Int} {sizes : List Int} (hsizes : ∀ s ∈ sizes, 0 ≤ s)
    {done : List SubmitRequest} {outs : List HashOutput}
    (hdone : ∀ tile ∈ done,
      tile ∈ (nonempty (spans 0 sizes)).map (hashcrackJob targetPre pre nonceStart))
    (hran : List.Forall₂ (TileRan digest) done outs)
    (hfound : (aggregateHashcrack (outs.map some)).found = true) :
    ∃ nonce hash, (aggregateHashcrack (outs.map some)).nonce = some nonce ∧
      (aggregateHashcrack (outs.map some)).hash = some hash ∧
      Solves digest targetPre pre nonceStart sizes.sum nonce hash := by
  have hresults := Results.reduceOption_map_some outs
  unfold aggregateHashcrack at hfound ⊢
  rw [hresults] at hfound ⊢
  obtain ⟨out, hout⟩ := Option.isSome_iff_exists.mp hfound
  obtain ⟨tile, htile, host, task, htask, hhost, hchunks, hrun⟩ :=
    Results.forall₂_mem_right hran (List.mem_of_find?_eq_some hout)
  obtain ⟨r, hr, rfl⟩ := List.mem_map.mp (hdone tile htile)
  rw [hashcrackJob_input] at htask
  cases htask
  have hsearched := (Jobkit.hashcrack_searched (hashcrackJob_input _ _ _ _) hhost hchunks hrun).1
  have hwinner : out.report.winner = some (out.nonce, out.hash) := by
    unfold HashOutput.report
    rw [if_pos (List.find?_some hout)]
  obtain ⟨nonce, hmem, hash, hdigest, hstarts, heq⟩ := hsearched.hit _ hwinner
  obtain ⟨hnonce, hhash⟩ := Prod.mk.inj heq
  have hspan : nonce - nonceStart ∈ range 0 (0 + sizes.sum) := by
    rw [← Spans.spans_flatMap hsizes, List.mem_flatMap]
    refine ⟨r, (List.mem_filter.mp hr).1, ?_⟩
    rw [Spans.mem_range] at hmem ⊢
    dsimp only at hmem
    omega
  rw [Spans.mem_range] at hspan
  dsimp only
  rw [hout]
  exact ⟨nonce, hash, hnonce, hhash, by omega, by omega, hdigest, hstarts⟩

/-! ## The search for an optimum -/

/-- The score as a float; before any candidate it is −∞. -/
def scoreFloat : WithBot Rat → PyFloat
  | none => .inf true
  | some q => .fin q

def searchJson (out : SearchOutput Rat) : Dict :=
  [("best_score", .float (scoreFloat out.bestScore)),
    ("best_params", .arr (out.bestParams.map .float)), ("best_index", .int out.bestIndex),
    ("evaluated", .int out.evaluated), ("yielded", .bool out.yielded)]

def Winner.summary (w : Winner Rat) : Summary :=
  fields [("best_score", .float (scoreFloat w.bestScore)),
    ("best_params", .arr (w.bestParams.map .float)), ("best_index", .int w.bestIndex),
    ("evaluated", .int w.evaluated)]

theorem scoreFloat_lt (a b : WithBot Rat) :
    PyFloat.lt (scoreFloat a) (scoreFloat b) = true ↔ a < b := by
  cases a using WithBot.recBotCoe with
  | bot =>
      cases b using WithBot.recBotCoe with
      | bot => exact iff_of_false (by decide) (lt_irrefl _)
      | coe b => exact iff_of_true rfl (WithBot.bot_lt_coe b)
  | coe a =>
      cases b using WithBot.recBotCoe with
      | bot => exact iff_of_false (by simp [scoreFloat, PyFloat.lt]) not_lt_bot
      | coe b =>
          rw [WithBot.coe_lt_coe]
          exact decide_eq_true_iff

theorem scoreFloat_inj {a b : WithBot Rat} : scoreFloat a = scoreFloat b ↔ a = b := by
  refine ⟨fun h => ?_, fun h => by rw [h]⟩
  rcases lt_trichotomy a b with hlt | heq | hlt
  · rw [← scoreFloat_lt, h] at hlt
    cases b using WithBot.recBotCoe <;> simp [scoreFloat, PyFloat.lt] at hlt
  · exact heq
  · rw [← scoreFloat_lt, h] at hlt
    cases b using WithBot.recBotCoe <;> simp [scoreFloat, PyFloat.lt] at hlt

theorem scoreFloat_number (a : WithBot Rat) : scoreFloat a ≠ .nan := by
  cases a using WithBot.recBotCoe <;> simp [scoreFloat]

theorem isBetter_typed (tile best : SearchOutput Rat) :
    isBetter (searchJson tile) (searchJson best) (scoreFloat tile.bestScore)
        (scoreFloat best.bestScore) =
      some (decide (best.bestScore < tile.bestScore ∨
        tile.bestScore = best.bestScore ∧ tile.bestIndex < best.bestIndex)) := by
  unfold isBetter
  by_cases hlt : best.bestScore < tile.bestScore
  · rw [if_pos ((scoreFloat_lt _ _).mpr hlt)]
    simp [hlt]
  · rw [if_neg (fun h => hlt ((scoreFloat_lt _ _).mp h))]
    by_cases heq : tile.bestScore = best.bestScore
    · rw [if_pos ⟨scoreFloat_inj.mpr heq, scoreFloat_number _⟩]
      simp [heq, jsonLt, getOr, searchJson, Json.lookup, PyValue.Num.ofJson, PyValue.Num.lt,
        PyValue.Num.value, PyFloat.lt]
    · rw [if_neg (fun h => heq (scoreFloat_inj.mp h.1))]
      simp [hlt, heq]

theorem optimizeStep_typed (acc : Option (SearchOutput Rat) × Int) (tile : SearchOutput Rat) :
    optimizeStep (acc.1.map searchJson, acc.2) (searchJson tile) =
      some ((aggregateTile acc tile).1.map searchJson, (aggregateTile acc tile).2) := by
  obtain ⟨best, evaluated⟩ := acc
  change (if tile.bestIndex < 0 then some (best.map searchJson, evaluated + tile.evaluated) else _) = _
  unfold aggregateTile
  by_cases hindex : tile.bestIndex < 0
  · rw [if_pos hindex, if_pos hindex]
  · rw [if_neg hindex, if_neg hindex]
    cases best with
    | none => rfl
    | some best =>
        change (isBetter (searchJson tile) (searchJson best) (scoreFloat tile.bestScore)
          (scoreFloat best.bestScore) >>= fun better =>
            some (some (if better then searchJson tile else searchJson best), _)) = _
        rw [isBetter_typed]
        dsimp only
        split
        next h => simp [h]
        next h => simp [h]

theorem aggregateOptimizeOutputs_typed (outs : List (SearchOutput Rat)) :
    aggregateOptimizeOutputs (outs.map searchJson) = some (aggregateOptimize outs).summary := by
  have hfold : ∀ acc : Option (SearchOutput Rat) × Int,
      (outs.map searchJson).foldlM optimizeStep (acc.1.map searchJson, acc.2) =
        some ((outs.foldl aggregateTile acc).1.map searchJson, (outs.foldl aggregateTile acc).2) := by
    induction outs with
    | nil => exact fun _ => rfl
    | cons tile outs ih =>
        intro acc
        rw [List.map_cons, List.foldlM_cons, optimizeStep_typed]
        exact ih _
  have hstart := hfold (none, 0)
  unfold aggregateOptimizeOutputs aggregateOptimize
  change (outs.map searchJson).foldlM optimizeStep (none, 0) = _ at hstart
  rw [hstart]
  generalize outs.foldl aggregateTile (none, 0) = acc
  obtain ⟨best, evaluated⟩ := acc
  cases best with
  | none => rfl
  | some best => rfl

/-- The best of some tiles of a split is one of the candidates, with its own score. -/
theorem leader_inside {o : Objective Rat} {dims seed : Int} {sizes : List Int}
    (hsizes : ∀ s ∈ sizes, 0 ≤ s) {done : List SubmitRequest} {outs : List (SearchOutput Rat)}
    (hne : done ≠ [])
    (hdone : ∀ tile ∈ done, tile ∈ (nonempty (spans 0 sizes)).map (optimizeJob dims seed))
    (hran : List.Forall₂ (fun tile out => o.optimize (fun _ => false) tile.input = some out)
      done outs) :
    0 ≤ (aggregateOptimize outs).bestIndex ∧ (aggregateOptimize outs).bestIndex < sizes.sum ∧
      (aggregateOptimize outs).bestScore = scoreOf o dims seed (aggregateOptimize outs).bestIndex ∧
      (aggregateOptimize outs).bestParams =
        o.config (aggregateOptimize outs).bestIndex dims seed := by
  obtain ⟨slices, hslices, rfl⟩ : ∃ slices : List (Int × Int),
      (∀ r ∈ slices, r ∈ nonempty (spans 0 sizes)) ∧ slices.map (optimizeJob dims seed) = done := by
    have hmem : done ∈ Set.range (List.map fun r : {r // r ∈ nonempty (spans 0 sizes)} =>
        optimizeJob dims seed r.1) := by
      rw [Set.range_list_map]
      intro tile htile
      obtain ⟨r, hr, rfl⟩ := List.mem_map.mp (hdone tile htile)
      exact ⟨⟨r, hr⟩, rfl⟩
    obtain ⟨chosen, rfl⟩ := hmem
    refine ⟨chosen.map Subtype.val, fun r hr => ?_, by simp⟩
    obtain ⟨r', -, rfl⟩ := List.mem_map.mp hr
    exact r'.2
  have hscored : List.Forall₂ (fun r out => Scored o dims seed (range r.1 r.2) out) slices outs := by
    rw [List.forall₂_map_left_iff] at hran
    refine hran.imp fun r out hout => ?_
    obtain ⟨out', hout', hscored⟩ := optimize_scored o dims seed r
    rw [hout'] at hout
    cases hout
    exact hscored
  have hpos : ∀ r ∈ slices, 0 ≤ r.1 := fun r hr =>
    Spans.spans_bound hsizes r (List.mem_filter.mp (hslices r hr)).1
  have hstart : Reduced o dims seed [] (none, 0) := ⟨rfl, rfl⟩
  have hreduced := reduced_foldl hscored hpos hstart
  rw [List.nil_append] at hreduced
  obtain ⟨-, hbest⟩ := hreduced
  unfold aggregateOptimize
  generalize outs.foldl aggregateTile (none, 0) = acc at hbest ⊢
  obtain ⟨best, evaluated⟩ := acc
  cases best with
  | none =>
      obtain ⟨r, rest, rfl⟩ := List.exists_cons_of_ne_nil (fun h => hne (List.map_eq_nil_iff.mpr h))
      have hlt : r.1 < r.2 := by
        simpa using (List.mem_filter.mp (hslices r List.mem_cons_self)).2
      have hnil := (List.append_eq_nil_iff.mp hbest).1
      have hlen := congrArg List.length hnil
      rw [Spans.length_range, List.length_nil] at hlen
      omega
  | some best =>
      have hnames : Names o dims seed _ best := hbest
      obtain ⟨r, hr, hmem⟩ := List.mem_flatMap.mp hnames.leads.1
      have hspan : best.bestIndex ∈ range 0 (0 + sizes.sum) := by
        rw [← Spans.spans_flatMap hsizes, List.mem_flatMap]
        exact ⟨r, (List.mem_filter.mp (hslices r hr)).1, hmem⟩
      rw [Spans.mem_range, Int.zero_add] at hspan
      exact ⟨hspan.1, hspan.2, hnames.score, hnames.params⟩

end OneCompute.Workloads
