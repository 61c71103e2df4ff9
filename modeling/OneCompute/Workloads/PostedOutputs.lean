import OneCompute.Workloads.TailBounds

/-!
The summary of a workload as a response: what has to be posted so that it is standard JSON.
-/

namespace OneCompute.Workloads
open Jobkit (pyInt)
open PyFloat (pow2 pow2_pos pow2_mono pow2_add slack Below Ranged)
open PyNumber (binary64)

/-! ## Scores -/

/-- The scores that were posted for rows are whole numbers, or not too large for their number. -/
def PostedScores (outputs : List Dict) : Prop :=
  ∀ rows scores, evalRows outputs = some rows → rawScores rows = some scores →
    (∃ is : List Int, scores = is.map .int) ∨ rows.length ≤ 2 ^ 50 ∧ ∃ b : Rat, 1 ≤ b ∧
      rows.length * b ≤ pow2 1020 ∧ ∀ x ∈ scores, ∃ p, x.value = .fin p ∧ |p| ≤ b

theorem posted_mean {F : Platform} {outputs : List Dict} (hF : F.Sound)
    (h : PostedScores outputs) : MeanFinite F outputs := by
  intro rows mean hrows _ hmean
  obtain ⟨scores, hscores, hmean⟩ := Option.bind_eq_some_iff.mp hmean
  obtain ⟨total, htotal, hmean⟩ := Option.bind_eq_some_iff.mp hmean
  rcases h rows scores hrows hscores with ⟨is, rfl⟩ | ⟨hlen, b, hb, hsmall, hbound⟩
  · rw [hF.counts] at htotal
    cases htotal
    exact trueDiv_int_finite hmean
  · have hsame : rows.length = scores.length := (Results.mapM_some_forall₂ hscores).length_eq
    rw [hsame] at hlen hsmall
    obtain ⟨t, ht, ht'⟩ := hF.sum scores b total hlen hb hsmall hbound htotal
    exact trueDiv_finite ht ht' hmean

/-! ## Candidates -/

/-- The scores that were posted for candidates name a best one. -/
def PostedCandidates (outputs : List Dict) : Prop :=
  ∀ scores, candidateScores outputs = some scores → Decided scores

/-- The scores of the candidates can be read when there is a summary. -/
theorem optimize_reads {outputs : List Dict} {s : Summary}
    (h : aggregateOptimizeOutputs outputs = some s) :
    ∃ scores, candidateScores outputs = some scores := by
  obtain ⟨⟨best, evaluated⟩, hbest, h⟩ := Option.bind_eq_some_iff.mp h
  have hkept := optimize_kept hbest
  cases best with
  | none =>
      have hnone : candidates outputs = [] := hkept
      exact ⟨[], by rw [candidateScores, hnone]; rfl⟩
  | some best =>
      obtain ⟨score, hscore, -⟩ := Option.bind_eq_some_iff.mp h
      obtain ⟨scores, hscores, -⟩ := Keeps.score hkept score hscore
      exact ⟨scores, hscores⟩

/-- What an executor posts for a tile: numbers where numbers are read, and parameters with
every candidate. -/
structure ReadableTile (tile : Dict) : Prop where
  evaluated : ∃ n, pyInt (getOr tile "evaluated" (.int 0)) = some n
  index : ∃ n, pyInt (getOr tile "best_index" (.int (-1))) = some n
  number : isCandidate tile = true → ∃ value x, Json.lookup tile "best_index" = some value ∧
    PyValue.Num.ofJson value = some x
  score : isCandidate tile = true → ∃ x, floatAt tile "best_score" = some x
  params : isCandidate tile = true → ∃ value items, Json.lookup tile "best_params" = some value ∧
    value.pyList = some items

theorem isBetter_reads {tile best : Dict} {score bestScore : PyFloat}
    (ht : ReadableTile tile) (htile : isCandidate tile = true) (hb : ReadableTile best)
    (hbest : isCandidate best = true) : ∃ better, isBetter tile best score bestScore = some better := by
  obtain ⟨value, x, hvalue, hx⟩ := ht.number htile
  obtain ⟨value', x', hvalue', hx'⟩ := hb.number hbest
  unfold isBetter
  split
  · exact ⟨_, rfl⟩
  · split
    · refine ⟨x.lt x', ?_⟩
      unfold getOr jsonLt
      rw [hvalue, hvalue', Option.getD_some, Option.getD_some, hx, hx']
    · exact ⟨_, rfl⟩

/-- The tile that is kept, if one is, is a candidate that can be read. -/
def ReadableBest : Option Dict → Prop
  | none => True
  | some best => ReadableTile best ∧ isCandidate best = true

theorem optimizeStep_reads {tile : Dict} {acc : Option Dict × Int} (ht : ReadableTile tile)
    (hacc : ReadableBest acc.1) :
    ∃ next, optimizeStep acc tile = some next ∧ ReadableBest next.1 := by
  obtain ⟨best, total⟩ := acc
  obtain ⟨evaluated, hevaluated⟩ := ht.evaluated
  obtain ⟨index, hindex⟩ := ht.index
  unfold optimizeStep
  rw [hevaluated, hindex]
  change ∃ next, (if index < 0 then some (best, total + evaluated) else _) = some next ∧ _
  split
  · exact ⟨_, rfl, hacc⟩
  next hpos =>
    have htile : isCandidate tile = true := by
      rw [isCandidate, hindex]
      exact decide_eq_true (not_lt.mp hpos)
    cases best with
    | none => exact ⟨_, rfl, ht, htile⟩
    | some best =>
        obtain ⟨hb, hbest⟩ := hacc
        obtain ⟨score, hscore⟩ := ht.score htile
        obtain ⟨bestScore, hbestScore⟩ := hb.score hbest
        obtain ⟨better, hbetter⟩ := @isBetter_reads tile best score bestScore ht htile hb hbest
        refine ⟨(some (if better then tile else best), total + evaluated), ?_, ?_⟩
        · dsimp only
          rw [hscore, hbestScore]
          change (isBetter tile best score bestScore >>= _) = _
          rw [hbetter]
          rfl
        · cases better
          · exact ⟨hb, hbest⟩
          · exact ⟨ht, htile⟩

theorem optimizeSteps_read {tiles : List Dict} {acc : Option Dict × Int}
    (h : ∀ tile ∈ tiles, ReadableTile tile) (hacc : ReadableBest acc.1) :
    ∃ last, tiles.foldlM optimizeStep acc = some last ∧ ReadableBest last.1 := by
  induction tiles generalizing acc with
  | nil => exact ⟨acc, rfl, hacc⟩
  | cons tile tiles ih =>
      obtain ⟨next, hnext, hbest⟩ := optimizeStep_reads (h tile List.mem_cons_self) hacc
      rw [List.foldlM_cons, hnext]
      exact ih (fun t ht => h t (List.mem_cons_of_mem _ ht)) hbest

/-- There is a summary of tiles that can be read. -/
theorem optimize_summary {outputs : List Dict} (h : ∀ tile ∈ outputs, ReadableTile tile) :
    ∃ s, aggregateOptimizeOutputs outputs = some s := by
  obtain ⟨⟨best, evaluated⟩, hlast, hbest⟩ := @optimizeSteps_read outputs (none, 0) h trivial
  unfold aggregateOptimizeOutputs
  rw [hlast]
  cases best with
  | none => exact ⟨_, rfl⟩
  | some best =>
      obtain ⟨hb, hcandidate⟩ := hbest
      obtain ⟨score, hscore⟩ := hb.score hcandidate
      obtain ⟨value, items, hvalue, hitems⟩ := hb.params hcandidate
      obtain ⟨raw, x, hraw, -⟩ := hb.number hcandidate
      obtain ⟨n, hn⟩ := hb.index
      rw [getOr, hraw, Option.getD_some] at hn
      refine ⟨fields [("best_score", .float score), ("best_params", .arr items),
        ("best_index", .int n), ("evaluated", .int evaluated)], ?_⟩
      change (floatAt best "best_score" >>= _) = _
      rw [hscore]
      change (Json.lookup best "best_params" >>= _) = _
      rw [hvalue]
      change (value.pyList >>= _) = _
      rw [hitems]
      change (Json.lookup best "best_index" >>= _) = _
      rw [hraw]
      change (pyInt raw >>= _) = _
      rw [hn]
      rfl

/-! ## All kinds -/

/-- What the posted outputs of a workload have to meet. -/
structure Posted (kind : String) (outputs : List Dict) : Prop where
  optimize : kind = "optimize" → PostedCandidates outputs
  eval : kind = "ai.eval" → PostedScores outputs
  montecarlo : kind = "montecarlo" → PostedReturns outputs

theorem posted_renders {F : Platform} (hF : F.Sound) {kind : String} {outputs : List Dict}
    (hfinite : ∀ out ∈ outputs, Json.finite (.obj out) = true) (h : Posted kind outputs) :
    Renders (aggregateWorkload F kind outputs) := by
  intro s hsummary
  unfold aggregateWorkload at hsummary
  split at hsummary
  · cases hsummary
  split at hsummary
  next hkind => exact (montecarlo_encodes hF.root hsummary).mpr (posted_risk hF (h.montecarlo hkind))
  split at hsummary
  · exact hashcrack_encodes hfinite hsummary
  split at hsummary
  next hkind =>
    obtain ⟨scores, hscores⟩ := optimize_reads hsummary
    exact (optimize_encodes hfinite hsummary).mpr ⟨scores, hscores, h.optimize hkind scores hscores⟩
  split at hsummary
  next hkind => exact (eval_encodes hsummary).mpr (posted_mean hF (h.eval hkind))
  split at hsummary
  · exact graph_encodes hsummary
  split at hsummary
  · exact infer_encodes hfinite hsummary
  split at hsummary
  · exact synth_encodes hfinite hsummary
  · cases hsummary

/-- For tiles that can be read the condition on the candidates is needed as well. -/
theorem renders_candidates {F : Platform} {outputs : List Dict} (hne : outputs ≠ [])
    (hfinite : ∀ out ∈ outputs, Json.finite (.obj out) = true)
    (hreadable : ∀ tile ∈ outputs, ReadableTile tile)
    (h : Renders (aggregateWorkload F "optimize" outputs)) : PostedCandidates outputs := by
  obtain ⟨s, hs⟩ := optimize_summary hreadable
  have hsummary : aggregateWorkload F "optimize" outputs = some s := by
    unfold aggregateWorkload
    rw [if_neg hne, if_neg (by decide), if_neg (by decide), if_pos rfl]
    exact hs
  obtain ⟨scores, hscores, hdecided⟩ := (optimize_encodes hfinite hs).mp (h s hsummary)
  intro scores' hscores'
  obtain rfl : scores = scores' := Option.some.inj (hscores.symm.trans hscores')
  exact hdecided

/-- What the interpreter computes, rounding every sum; the root is that of 0 and 1. -/
def plainPlatform : Platform where
  sum xs := xs.foldlM (fun total x => (total.add x).toOption) (.int 0)
  square x := PyNumber.binary64.mul x x
  root q := .fin q

/-- A rounded number is off by a unit in the last place at most. -/
theorem nearest_off (q : Rat) (hq : 0 ≤ q) :
    |PyFloat.nearest q - q| ≤ q / 2 ^ 52 + pow2 (-1074) := by
  rcases hq.eq_or_lt with rfl | hpos
  · simpa using (pow2_pos (-1074)).le
  have hnear := PyFloat.nearest_near q
  have hunit : pow2 (PyFloat.binade q - 53) ≤ q / 2 ^ 52 + pow2 (-1074) := by
    by_cases hbig : pow2 (-1022) ≤ q
    · have hulp := PyFloat.half_ulp_le hbig
      have hstep : q / 2 ^ 53 ≤ q / 2 ^ 52 := by
        rw [div_le_div_iff₀ (by norm_num) (by norm_num)]
        linarith
      linarith [pow2_pos (-1074)]
    · have hbinade : PyFloat.binade q ≤ -1022 := by
        refine max_le ?_ (le_refl _)
        by_contra hlog
        exact hbig ((pow2_mono (by omega)).trans (PyFloat.log2_spec hpos).1)
      have hmono : pow2 (PyFloat.binade q - 53) ≤ pow2 (-1074) := pow2_mono (by omega)
      linarith [div_nonneg hq (by norm_num : (0 : Rat) ≤ 2 ^ 52)]
  rw [abs_le]
  constructor <;> linarith

theorem plain_counts (a : Int) (is : List Int) :
    (is.map PyValue.Num.int).foldlM (fun total x => (total.add x).toOption) (PyValue.Num.int a) =
      some (.int (a + is.sum)) := by
  induction is generalizing a with
  | nil => simp
  | cons i is ih =>
      rw [List.map_cons, List.foldlM_cons, PyValue.Num.add_int]
      refine (ih (a + i)).trans ?_
      rw [List.sum_cons, add_assoc]

/-- A number of magnitude `a` at most, rounded `m` times if it is a float. -/
def NumBelow (m : Nat) (a : Rat) : PyValue.Num → Prop
  | .int i => |(i : Rat)| ≤ a
  | .float x => Below m a x

theorem NumBelow.toFloat {m : Nat} {a : Rat} {x : PyValue.Num} {y : PyFloat} (h : NumBelow m a x)
    (hm : 1 ≤ m) (hr : Ranged a) (hy : x.toFloat = .ok y) : Below m a y := by
  cases x with
  | float z =>
      cases hy
      exact h
  | int i =>
      obtain ⟨q, hq, rfl⟩ := PyValue.Num.toFloat_int hy
      have hi : |(i : Rat)| ≤ a := h
      rw [← hq]
      exact (@Below.round 0 a i (by simpa [slack] using hi) hr (by norm_num)).later hm

theorem NumBelow.later {m n : Nat} {a : Rat} {x : PyValue.Num} (h : NumBelow m a x) (hmn : m ≤ n) :
    NumBelow n a x := by
  cases x with
  | int i => exact h
  | float y => exact Below.later h hmn

theorem NumBelow.add {m : Nat} {a b : Rat} {x y total : PyValue.Num} (hx : NumBelow m a x)
    (hy : NumBelow m b y) (hm : 1 ≤ m) (hm' : m ≤ 2 ^ 52) (ha : Ranged a) (hb : Ranged b)
    (hr : Ranged (a + b)) (h : x.add y = .ok total) : NumBelow (m + 1) (a + b) total := by
  have hfloat : ∀ {u v : PyFloat}, x.toFloat = .ok u → y.toFloat = .ok v →
      Below (m + 1) (a + b) (binary64.add u v) := fun hu hv =>
    Below.add (hx.toFloat hm ha hu) (hy.toFloat hm hb hv) hr hm'
  unfold PyValue.Num.add PyValue.Num.arith at h
  split at h
  next i j =>
    cases h
    change |((i + j : Int) : Rat)| ≤ a + b
    rw [Int.cast_add]
    exact (abs_add_le _ _).trans (add_le_add hx hy)
  next =>
    obtain ⟨u, hu, h⟩ := Results.bind_eq_ok.mp h
    obtain ⟨v, hv, h⟩ := Results.bind_eq_ok.mp h
    cases h
    exact hfloat hu hv

/-- A running sum of numbers of magnitude `b` at most. -/
theorem plain_sum {b : Rat} (hb : 1 ≤ b) {xs : List PyValue.Num} {k : Nat}
    {start total : PyValue.Num} (hstart : NumBelow (k + 1) (k * b) start)
    (hxs : ∀ x ∈ xs, NumBelow 0 b x) (hlen : k + xs.length ≤ 2 ^ 50)
    (hsmall : ((k + xs.length : Nat) : Rat) * b ≤ pow2 1020)
    (h : xs.foldlM (fun total x => (total.add x).toOption) start = some total) :
    NumBelow (k + xs.length + 1) ((k + xs.length : Nat) * b) total := by
  have hone : pow2 (-1021) ≤ 1 := (pow2_mono (by norm_num : (-1021 : Int) ≤ 0)).trans_eq rfl
  have hbig : pow2 1020 ≤ pow2 1022 := pow2_mono (by norm_num)
  have hranged : ∀ j : Nat, j ≤ k + xs.length → Ranged (j * b) := by
    intro j hj
    have hjr : (j : Rat) ≤ (k + xs.length : Nat) := by exact_mod_cast hj
    rcases Nat.eq_zero_or_pos j with rfl | hpos
    · exact .inl (by rw [Nat.cast_zero, zero_mul])
    · have hj1 : (1 : Rat) ≤ j := by exact_mod_cast hpos
      exact .inr ⟨by nlinarith, by nlinarith⟩
  induction xs generalizing k start with
  | nil =>
      cases h
      exact hstart
  | cons x xs ih =>
      rw [List.length_cons] at hlen hsmall hranged ⊢
      rw [List.foldlM_cons] at h
      obtain ⟨next, hnext, h⟩ := Option.bind_eq_some_iff.mp h
      have hx : NumBelow (k + 1) b x := (hxs x List.mem_cons_self).later (Nat.zero_le _)
      have hsucc : (k : Rat) * b + b = ((k + 1 : Nat) : Rat) * b := by
        push_cast
        ring
      have hb1 : Ranged b := by
        have h1 := hranged 1 (by omega)
        rwa [Nat.cast_one, one_mul] at h1
      have hadd : NumBelow (k + 1 + 1) (k * b + b) next := by
        cases hsum : start.add x with
        | error e =>
            rw [hsum] at hnext
            cases hnext
        | ok value =>
            rw [hsum] at hnext
            cases hnext
            exact hstart.add hx (by omega) (by omega) (hranged k (by omega)) hb1
              (by rw [hsucc]; exact hranged (k + 1) (by omega)) hsum
      rw [hsucc] at hadd
      have hshift : k + (xs.length + 1) = k + 1 + xs.length := by omega
      rw [hshift] at hlen hsmall hranged ⊢
      exact ih hadd (fun y hy => hxs y (List.mem_cons_of_mem _ hy)) hlen hsmall h hranged

theorem plainPlatform_sound : plainPlatform.Sound where
  root _ _ := rfl
  square p r h := by
    have hsq : 0 ≤ p * p := mul_self_nonneg p
    obtain ⟨rfl, -⟩ := PyNumber.binary64_round_fin hsq h
    refine ⟨PyNumber.nearest_nonneg hsq, ?_⟩
    rw [sq]
    exact nearest_off (p * p) hsq
  counts is := by
    have h := plain_counts 0 is
    rwa [zero_add] at h
  sum xs b total hlen hb hsmall hbound h := by
    have hxs : ∀ x ∈ xs, NumBelow 0 b x := by
      intro x hx
      obtain ⟨p, hp, hle⟩ := hbound x hx
      cases x with
      | int i =>
          cases hp
          exact hle
      | float y =>
          cases hp
          exact Below.of_abs hle
    have hsum := plain_sum (k := 0) hb (by simp [NumBelow]) hxs (by omega) (by simpa using hsmall) h
    rw [Nat.zero_add] at hsum
    have htwice : pow2 1021 = 2 * pow2 1020 := by
      rw [show (1021 : Int) = 1020 + 1 by norm_num, PyFloat.pow2_succ]
    cases total with
    | int i => exact ⟨i, rfl, hsum.trans (hsmall.trans (pow2_mono (by norm_num)))⟩
    | float y =>
        obtain ⟨t, rfl, ht⟩ := Below.abs_le hsum (by omega)
        exact ⟨t, rfl, ht.trans (by linarith)⟩

/-! ## Outputs that are rendered, and outputs that are not -/

/-- What a tile of `n` paths posts, with a mean and a deviation of one. -/
def riskTile (n : Int) : Dict :=
  [("paths", .int n), ("mean_return", .float (.fin 1)), ("stdev", .float (.fin 1)),
    ("worst_return", .float (.fin (-2))), ("hist", .arr [.int 1, .int (n - 1)]),
    ("hist_lo", .float (.fin (-2))), ("hist_hi", .float (.fin 4))]

theorem small_le {p : Rat} {e : Int} (hp : |p| ≤ 8) (he : 3 ≤ e) : |p| ≤ pow2 e :=
  hp.trans ((show (8 : Rat) = pow2 3 by rw [PyFloat.pow2_eq]; norm_num).trans_le (pow2_mono he))

theorem riskTile_posted {n : Int} (hn : 1 ≤ n) (hn8 : n ≤ 8) : TileReturns 2 (riskTile n) where
  paths m hm := by
    obtain rfl : n = m := Option.some.inj hm
    have hcast : (1 : Rat) ≤ n ∧ (n : Rat) ≤ 8 := ⟨by exact_mod_cast hn, by exact_mod_cast hn8⟩
    exact ⟨hn, (le_abs_self _).trans
      (small_le (abs_le.mpr ⟨by linarith, hcast.2⟩) (by norm_num))⟩
  mean x hx := by
    obtain rfl : PyFloat.fin 1 = x := Option.some.inj hx
    exact ⟨1, rfl, small_le (by norm_num) (by norm_num)⟩
  stdev x hx := by
    obtain rfl : PyFloat.fin 1 = x := Option.some.inj hx
    exact ⟨1, rfl, small_le (by norm_num) (by norm_num)⟩
  spread p q hp hq := by
    obtain rfl : 1 = p := PyFloat.fin.inj (Option.some.inj hp)
    obtain rfl : 1 = q := PyFloat.fin.inj (Option.some.inj hq)
    refine .inr ⟨?_, by norm_num⟩
    rw [abs_one]
    exact (pow2_mono (by norm_num : (-200 : Int) ≤ 0)).trans_eq rfl
  worst h := by cases h
  counts values hvalues value hvalue x hx := by
    obtain rfl : [Json.int 1, .int (n - 1)] = values := Option.some.inj hvalues
    have hcast : (1 : Rat) ≤ n ∧ (n : Rat) ≤ 8 := ⟨by exact_mod_cast hn, by exact_mod_cast hn8⟩
    rcases List.mem_cons.mp hvalue with rfl | hvalue
    · cases hx
      exact ⟨1, rfl, small_le (by norm_num) (by norm_num)⟩
    · obtain rfl := List.mem_singleton.mp hvalue
      cases hx
      refine ⟨n - 1, rfl, small_le (abs_le.mpr ?_) (by norm_num)⟩
      push_cast
      exact ⟨by linarith, by linarith⟩

theorem riskTiles_posted : PostedReturns [riskTile 4, riskTile 6] where
  length := by decide
  tiles part hpart := by
    rcases List.mem_cons.mp hpart with rfl | hpart
    · exact riskTile_posted (by decide) (by decide)
    · obtain rfl := List.mem_singleton.mp hpart
      exact riskTile_posted (by decide) (by decide)
  lo first hfirst x hx := by
    obtain rfl : riskTile 4 = first := Option.some.inj hfirst
    obtain rfl : PyFloat.fin (-2) = x := Option.some.inj hx
    exact ⟨-2, rfl, small_le (by norm_num) (by norm_num)⟩
  hi first hfirst x hx := by
    obtain rfl : riskTile 4 = first := Option.some.inj hfirst
    obtain rfl : PyFloat.fin 4 = x := Option.some.inj hx
    exact ⟨4, rfl, small_le (by norm_num) (by norm_num)⟩
  bins first hfirst values hvalues := by
    obtain rfl : riskTile 4 = first := Option.some.inj hfirst
    obtain rfl : [Json.int 1, .int 3] = values := Option.some.inj hvalues
    decide

/-- A candidate whose score is posted as a text. -/
def textTile : Dict :=
  [("best_index", .int 0), ("best_score", .str "-inf"), ("best_params", .arr []),
    ("evaluated", .int 1)]

theorem textTile_readable : ReadableTile textTile :=
  ⟨⟨1, rfl⟩, ⟨0, rfl⟩, fun _ => ⟨.int 0, .int 0, rfl, rfl⟩, fun _ => ⟨.inf true, by decide +kernel⟩,
    fun _ => ⟨.arr [], [], rfl, rfl⟩⟩

/-- The output of a tile that was interrupted before its first candidate. -/
def yieldedTile : Dict := [("best_index", .int (-1)), ("evaluated", .int 0)]

end OneCompute.Workloads
