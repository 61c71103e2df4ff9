import OneCompute.Lib.PyMean
import OneCompute.Workloads.Summaries

/-!
Which summaries have a JSON text. The reducers that only count and collect make
standard JSON of any outputs; three compute floats, and make infinities, NaN or a
complex number of some.
-/

namespace OneCompute.Workloads
open Jobkit (pyInt)
open PyFloat (pyMax pyMin)
open PyNumber (binary64 maxOf maxOf_concat foldl_pyMax_isFinite foldl_pyMin_isFinite)
open Worker (truthy)

def Out.Standard : Out → Prop
  | .json value => value.finite = true
  | .complex => False

/-- Every value of the summary is standard JSON. -/
def Encodes (s : Summary) : Prop := ∀ p ∈ s, p.2.Standard

/-- There is nothing to render, or it is standard JSON. -/
def Renders (r : Option Summary) : Prop := ∀ s, r = some s → Encodes s

/-! ## The largest score -/

/-- The largest of the scores is a number: the first is not NaN, which nothing
replaces, none is positive infinity and some are finite. -/
structure Decided (scores : List PyFloat) : Prop where
  first : scores.head? ≠ some .nan
  bounded : .inf false ∉ scores
  finite : ∃ x ∈ scores, x.isFinite = true

theorem maxOf_isFinite {scores : List PyFloat} (hne : scores ≠ []) :
    (maxOf scores).isFinite = true ↔ Decided scores := by
  cases scores with
  | nil => exact absurd rfl hne
  | cons x xs =>
      refine (foldl_pyMax_isFinite x xs).trans ⟨?_, ?_⟩
      · rintro ⟨hfirst, hbounded, hfinite⟩
        exact ⟨by simpa using hfirst, hbounded, hfinite⟩
      · rintro ⟨hfirst, hbounded, hfinite⟩
        exact ⟨by simpa using hfirst, hbounded, hfinite⟩

/-! ## Values of finite objects -/

section Finite
variable {d : Dict} {outputs : List Dict}

theorem lookup_finite (h : Json.fieldsFinite d = true) {key : String} {value : Json}
    (hv : Json.lookup d key = some value) : value.finite = true := by
  obtain ⟨p, hp, rfl⟩ := Option.map_eq_some_iff.mp hv
  exact Json.fieldsFinite_iff.mp h p (List.mem_of_find?_eq_some hp)

theorem getOr_finite (h : Json.fieldsFinite d = true) (key : String) {default : Json}
    (hdefault : default.finite = true) : (getOr d key default).finite = true := by
  unfold getOr
  cases hv : Json.lookup d key with
  | none => exact hdefault
  | some value => exact lookup_finite h hv

theorem pyList_finite {value : Json} (h : value.finite = true) {items : List Json}
    (hitems : value.pyList = some items) : ∀ x ∈ items, x.finite = true := by
  cases value with
  | arr xs =>
      cases hitems
      exact Json.itemsFinite_iff.mp h
  | str s =>
      cases hitems
      intro x hx
      obtain ⟨c, -, rfl⟩ := List.mem_map.mp hx
      rfl
  | obj fields =>
      cases hitems
      intro x hx
      obtain ⟨p, -, rfl⟩ := List.mem_map.mp hx
      rfl
  | null => cases hitems
  | bool b => cases hitems
  | int i => cases hitems
  | float x => cases hitems

theorem gathered_finite {read : Dict → Json} (h : ∀ out ∈ outputs, (read out).finite = true)
    {items : List Json} (hitems : gathered read outputs = some items) :
    ∀ x ∈ items, x.finite = true := by
  obtain ⟨lists, hlists, hflat⟩ := Option.bind_eq_some_iff.mp hitems
  cases hflat
  intro x hx
  obtain ⟨list, hlist, hx⟩ := List.mem_flatten.mp hx
  obtain ⟨out, hout, hread⟩ := Results.forall₂_mem_right (Results.mapM_some_forall₂ hlists) hlist
  exact pyList_finite (h out hout) hread x hx

theorem encodes_fields {d : List (String × Json)} :
    Encodes (fields d) ↔ ∀ p ∈ d, p.2.finite = true := by
  unfold Encodes fields
  rw [List.forall_mem_map]
  rfl

end Finite

/-! ## Counting and collecting -/

section Collected
variable {outputs : List Dict} {s : Summary}

theorem hashcrack_encodes (hfinite : ∀ out ∈ outputs, Json.fieldsFinite out = true)
    (h : aggregateHashcrackOutputs outputs = some s) : Encodes s := by
  obtain ⟨tried, -, hs⟩ := Option.bind_eq_some_iff.mp h
  cases hs
  have hfield : ∀ (p : Dict → Bool) (key : String), (((outputs.filter fun r => !r.isEmpty).find? p).elim
      Json.null (getOr · key .null)).finite = true := by
    intro p key
    cases hfound : (outputs.filter fun r => !r.isEmpty).find? p with
    | none => rfl
    | some r =>
        have hmem := (List.mem_filter.mp (List.mem_of_find?_eq_some hfound)).1
        exact getOr_finite (hfinite r hmem) key rfl
  rw [encodes_fields]
  simp only [List.forall_mem_cons]
  exact ⟨rfl, hfield _ _, hfield _ _, hfield _ _, rfl, rfl, List.forall_mem_nil _⟩

theorem headField_finite (hfinite : ∀ out ∈ outputs, Json.fieldsFinite out = true) {first : Dict}
    (h : outputs.head? = some first) (key : String) : (getOr first key .null).finite = true :=
  getOr_finite (hfinite first (List.mem_of_head? h)) key rfl

theorem infer_encodes (hfinite : ∀ out ∈ outputs, Json.fieldsFinite out = true)
    (h : inferSummary outputs = some s) : Encodes s := by
  obtain ⟨results, hresults, h⟩ := Option.bind_eq_some_iff.mp h
  obtain ⟨first, hfirst, h⟩ := Option.bind_eq_some_iff.mp h
  cases h
  have hall : ∀ x ∈ results, x.finite = true := by
    refine gathered_finite ?_ hresults
    intro out hout
    unfold orEmpty
    split
    · exact getOr_finite (hfinite out hout) "results" rfl
    · rfl
  have htake : (Json.arr (results.take 200)).finite = true :=
    Json.itemsFinite_iff.mpr fun x hx => hall x (List.mem_of_mem_take hx)
  rw [encodes_fields]
  simp only [List.forall_mem_cons]
  exact ⟨rfl, headField_finite hfinite hfirst _, htake, List.forall_mem_nil _⟩

theorem synth_encodes (hfinite : ∀ out ∈ outputs, Json.fieldsFinite out = true)
    (h : synthSummary outputs = some s) : Encodes s := by
  obtain ⟨rows, hrows, h⟩ := Option.bind_eq_some_iff.mp h
  obtain ⟨first, hfirst, h⟩ := Option.bind_eq_some_iff.mp h
  cases h
  obtain ⟨keys, -, hmerged⟩ := Option.bind_eq_some_iff.mp hrows
  have hall : ∀ x ∈ rows, x.finite = true := by
    refine gathered_finite ?_ hmerged
    intro tile htile
    obtain ⟨p, hp, rfl⟩ := List.mem_map.mp htile
    have hzip := List.fst_mem_of_mem_zipIdx ((List.mem_insertionSort _).mp hp)
    exact getOr_finite (hfinite _ (List.of_mem_zip hzip).2) "rows" rfl
  have htake : (Json.arr (rows.take 500)).finite = true :=
    Json.itemsFinite_iff.mpr fun x hx => hall x (List.mem_of_mem_take hx)
  rw [encodes_fields]
  simp only [List.forall_mem_cons]
  exact ⟨rfl, headField_finite hfinite hfirst _, htake, List.forall_mem_nil _⟩

theorem graph_encodes (h : aggregateGraphOutputs outputs = some s) : Encodes s := by
  obtain ⟨g, -, h⟩ := Option.bind_eq_some_iff.mp h
  cases h
  have hnodes : (Json.arr (g.nodes.map .str)).finite = true := by
    refine Json.itemsFinite_iff.mpr (List.forall_mem_map.mpr ?_)
    intro name _
    rfl
  have hedges : (Json.arr (g.edges.map fun e => .obj [("source", .str e.1),
      ("relation", .str e.2.1), ("target", .str e.2.2)])).finite = true := by
    refine Json.itemsFinite_iff.mpr (List.forall_mem_map.mpr ?_)
    intro e _
    rfl
  rw [encodes_fields]
  simp only [List.forall_mem_cons]
  exact ⟨hnodes, hedges, rfl, rfl, List.forall_mem_nil _⟩

end Collected

/-! ## The best candidate -/

section Optimize
variable {outputs : List Dict}

/-- The tile names a candidate. -/
def isCandidate (tile : Dict) : Bool :=
  match pyInt (getOr tile "best_index" (.int (-1))) with
  | some index => 0 ≤ index
  | none => false

def candidates (outputs : List Dict) : List Dict := outputs.filter isCandidate

def candidateScores (outputs : List Dict) : Option (List PyFloat) :=
  (candidates outputs).mapM fun tile => floatAt tile "best_score"

theorem candidateScores_concat {tile : Dict} {scores : List PyFloat} {score : PyFloat}
    (htile : isCandidate tile = true) (hscores : candidateScores outputs = some scores)
    (hscore : floatAt tile "best_score" = some score) :
    candidateScores (outputs ++ [tile]) = some (scores ++ [score]) := by
  unfold candidateScores candidates at *
  rw [List.filter_append, List.mapM_append, hscores]
  simp [htile, hscore]

/-- The tile that is kept is a candidate, and its score the largest so far. -/
structure Keeps (outputs : List Dict) (best : Dict) : Prop where
  posted : best ∈ outputs
  candidate : candidates outputs ≠ []
  score : ∀ x, floatAt best "best_score" = some x →
    ∃ scores, candidateScores outputs = some scores ∧ maxOf scores = x

/-- What is known of the tile that is kept, if one is. -/
def Kept (outputs : List Dict) : Option Dict → Prop
  | none => candidates outputs = []
  | some best => Keeps outputs best

theorem candidates_concat (tile : Dict) : candidates (outputs ++ [tile]) =
    candidates outputs ++ if isCandidate tile then [tile] else [] := by
  unfold candidates
  rw [List.filter_append]
  cases htile : isCandidate tile <;> simp [htile]

theorem kept_skip {tile : Dict} {best : Option Dict} (htile : isCandidate tile = false)
    (h : Kept outputs best) : Kept (outputs ++ [tile]) best := by
  have hsame : candidates (outputs ++ [tile]) = candidates outputs := by
    rw [candidates_concat, htile]
    exact List.append_nil _
  cases best with
  | none => exact hsame.trans h
  | some b =>
      refine ⟨List.mem_append_left _ h.posted, by rw [hsame]; exact h.candidate, ?_⟩
      unfold candidateScores
      rw [hsame]
      exact h.score

theorem kept_first {tile : Dict} (htile : isCandidate tile = true)
    (h : candidates outputs = []) : Keeps (outputs ++ [tile]) tile := by
  have honly : candidates (outputs ++ [tile]) = [tile] := by
    rw [candidates_concat, htile, h]
    rfl
  refine ⟨by simp, by simp [honly], fun x hx => ⟨[x], ?_, rfl⟩⟩
  unfold candidateScores
  simp [honly, hx]

/-- A later candidate takes the place of the one that is kept if its score is larger,
or the same. -/
theorem kept_later {tile best : Dict} {score bestScore : PyFloat} {better : Bool}
    (htile : isCandidate tile = true) (h : Keeps outputs best)
    (hscore : floatAt tile "best_score" = some score)
    (hbest : floatAt best "best_score" = some bestScore)
    (hbetter : PyFloat.lt bestScore score = true → better = true)
    (hsame : PyFloat.lt bestScore score = false → better = true → score = bestScore) :
    Keeps (outputs ++ [tile]) (if better then tile else best) := by
  obtain ⟨scores, hscores, hmax⟩ := h.score bestScore hbest
  have hne : scores ≠ [] := by
    rintro rfl
    have hlength := (Results.mapM_some_forall₂ hscores).length_eq
    exact h.candidate (List.eq_nil_of_length_eq_zero hlength)
  constructor
  · have := h.posted
    cases better <;> simp [this]
  · rw [candidates_concat]
    simp [h.candidate]
  · intro x hx
    refine ⟨scores ++ [score], candidateScores_concat htile hscores hscore, ?_⟩
    rw [maxOf_concat hne, hmax]
    unfold pyMax
    cases hlt : PyFloat.lt bestScore score with
    | true =>
        rw [hbetter hlt, if_pos rfl, hscore] at hx
        simpa using hx
    | false =>
        cases better with
        | true =>
            rw [if_pos rfl, hscore] at hx
            simpa [hsame hlt rfl] using hx
        | false =>
            rw [if_neg (by decide), hbest] at hx
            simpa using hx

/-- One more tile. -/
theorem optimizeStep_kept {tile : Dict} {acc next : Option Dict × Int}
    (hacc : Kept outputs acc.1) (h : optimizeStep acc tile = some next) :
    Kept (outputs ++ [tile]) next.1 := by
  obtain ⟨evaluated, -, h⟩ := Option.bind_eq_some_iff.mp h
  obtain ⟨index, hindex, h⟩ := Option.bind_eq_some_iff.mp h
  split at h
  next hneg =>
    cases h
    exact kept_skip (by simp [isCandidate, hindex, hneg]) hacc
  next hpos =>
    have htile : isCandidate tile = true := by
      simpa [isCandidate, hindex] using hpos
    split at h
    next hnone =>
      cases h
      rw [hnone] at hacc
      exact kept_first htile hacc
    next best hbest =>
      rw [hbest] at hacc
      obtain ⟨score, hscore, h⟩ := Option.bind_eq_some_iff.mp h
      obtain ⟨bestScore, hbestScore, h⟩ := Option.bind_eq_some_iff.mp h
      obtain ⟨better, hbetter, h⟩ := Option.bind_eq_some_iff.mp h
      cases h
      refine kept_later htile hacc hscore hbestScore ?_ ?_
      · intro hlt
        rw [isBetter, if_pos hlt] at hbetter
        exact (Option.some.inj hbetter).symm
      · rintro hlt rfl
        rw [isBetter, hlt, if_neg (by decide)] at hbetter
        split at hbetter
        next heq => exact heq.1
        next => cases hbetter

theorem optimize_kept {best : Option Dict} {evaluated : Int}
    (h : outputs.foldlM optimizeStep (none, 0) = some (best, evaluated)) : Kept outputs best := by
  induction outputs using List.reverseRecOn generalizing best evaluated with
  | nil =>
      cases h
      rfl
  | append_singleton tiles tile ih =>
      rw [List.foldlM_append] at h
      obtain ⟨acc, hacc, h⟩ := Option.bind_eq_some_iff.mp h
      rw [List.foldlM_cons] at h
      obtain ⟨next, hnext, h⟩ := Option.bind_eq_some_iff.mp h
      cases h
      exact optimizeStep_kept (ih hacc) hnext

/-- The best score is a number exactly when the scores of the candidates decide it. -/
theorem optimize_encodes {s : Summary} (hfinite : ∀ out ∈ outputs, Json.fieldsFinite out = true)
    (h : aggregateOptimizeOutputs outputs = some s) :
    Encodes s ↔ ∃ scores, candidateScores outputs = some scores ∧ Decided scores := by
  obtain ⟨⟨best, evaluated⟩, hbest, h⟩ := Option.bind_eq_some_iff.mp h
  have hkept := optimize_kept hbest
  cases best with
  | none =>
      cases h
      refine iff_of_false ?_ ?_
      · rw [encodes_fields]
        intro hall
        exact absurd (hall _ List.mem_cons_self) (by decide)
      · rintro ⟨scores, hscores, -, -, x, hx, -⟩
        have hnone : candidates outputs = [] := hkept
        rw [candidateScores, hnone] at hscores
        cases hscores
        cases hx
  | some best =>
      have hkept : Keeps outputs best := hkept
      obtain ⟨score, hscore, h⟩ := Option.bind_eq_some_iff.mp h
      obtain ⟨value, hvalue, h⟩ := Option.bind_eq_some_iff.mp h
      obtain ⟨params, hparams, h⟩ := Option.bind_eq_some_iff.mp h
      obtain ⟨raw, -, h⟩ := Option.bind_eq_some_iff.mp h
      obtain ⟨index, -, h⟩ := Option.bind_eq_some_iff.mp h
      cases h
      obtain ⟨scores, hscores, hmax⟩ := hkept.score score hscore
      have hne : scores ≠ [] := by
        rintro rfl
        have hlength := (Results.mapM_some_forall₂ hscores).length_eq
        exact hkept.candidate (List.eq_nil_of_length_eq_zero hlength)
      have hlist : (Json.arr params).finite = true :=
        Json.itemsFinite_iff.mpr
          (pyList_finite (lookup_finite (hfinite best hkept.posted) hvalue) hparams)
      have hencodes : Encodes (fields [("best_score", .float score), ("best_params", .arr params),
          ("best_index", .int index), ("evaluated", .int evaluated)]) ↔ score.isFinite = true := by
        rw [encodes_fields]
        simp only [List.forall_mem_cons]
        exact ⟨fun hall => hall.1, fun hfin => ⟨hfin, hlist, rfl, rfl, List.forall_mem_nil _⟩⟩
      refine hencodes.trans ?_
      rw [← hmax, maxOf_isFinite hne, hscores]
      simp

end Optimize

/-! ## The mean score -/

section Eval
variable {F : Platform} {outputs : List Dict} {s : Summary}

/-- A quotient of ints is finite, or it raises. -/
theorem trueDiv_int_finite {i j : Int} {x : PyFloat} (h : trueDiv (.int i) (.int j) = some x) :
    x.isFinite = true := by
  unfold trueDiv at h
  dsimp only at h
  split at h
  · cases h
  · split at h
    · cases h
      rfl
    · cases h

theorem leaderboard_finite {groups : List (String × List Int)}
    {board : List (String × PyFloat × Nat)} (h : leaderboard groups = some board) :
    ∀ entry ∈ board, entry.2.1.isFinite = true := by
  obtain ⟨entries, hentries, hsorted⟩ := Option.bind_eq_some_iff.mp h
  cases hsorted
  intro entry hentry
  have hmem := (List.mem_insertionSort _).mp hentry
  obtain ⟨g, -, hg⟩ := Results.forall₂_mem_right (Results.mapM_some_forall₂ hentries) hmem
  obtain ⟨mean, hmean, hg⟩ := Option.bind_eq_some_iff.mp hg
  cases hg
  exact trueDiv_int_finite hmean

theorem itemsFinite_ints {α : Type} (f : α → Int) (xs : List α) :
    (Json.arr (xs.map fun x => .int (f x))).finite = true := by
  refine Json.itemsFinite_iff.mpr (List.forall_mem_map.mpr ?_)
  intro x _
  rfl

/-- The mean of the scores, if there are any, is a number. -/
def MeanFinite (F : Platform) (outputs : List Dict) : Prop :=
  ∀ rows mean, evalRows outputs = some rows → rows ≠ [] → evalMean F rows = some mean →
    mean.isFinite = true

theorem eval_encodes (h : aggregateEvalOutputs F outputs = some s) :
    Encodes s ↔ MeanFinite F outputs := by
  obtain ⟨rows, hrows, h⟩ := Option.bind_eq_some_iff.mp h
  split at h
  next hempty =>
    cases h
    refine iff_of_true ?_ ?_
    · rw [encodes_fields]
      decide
    · intro rows' mean hrows' hne
      rw [hrows] at hrows'
      cases hrows'
      exact absurd hempty hne
  next hne =>
    obtain ⟨graded, -, h⟩ := Option.bind_eq_some_iff.mp h
    obtain ⟨board, hboard, h⟩ := Option.bind_eq_some_iff.mp h
    obtain ⟨mean, hmean, h⟩ := Option.bind_eq_some_iff.mp h
    cases h
    have hentries : (Json.arr (board.map fun entry => .obj [("label", .str entry.1),
        ("mean_score", .float entry.2.1), ("n", .int entry.2.2)])).finite = true := by
      refine Json.itemsFinite_iff.mpr (List.forall_mem_map.mpr ?_)
      intro entry hentry
      simp [Json.finite, Json.fieldsFinite, leaderboard_finite hboard entry hentry]
    rw [encodes_fields]
    simp only [List.forall_mem_cons]
    constructor
    · rintro ⟨-, hfin, -⟩ rows' mean' hrows' - hmean'
      rw [hrows] at hrows'
      cases hrows'
      rw [hmean] at hmean'
      cases hmean'
      exact hfin
    · intro hall
      exact ⟨rfl, hall rows mean hrows hne hmean, hentries, itemsFinite_ints _ _,
        List.forall_mem_nil _⟩

end Eval

/-! ## Risk -/

section Risk
variable {F : Platform} {outputs : List Dict} {s : Summary}

/-- The statistics are numbers, and the variance is not negative. -/
structure Stats.Sound (s : Stats) : Prop where
  mean : s.mean.isFinite = true
  variance : ∃ q, s.variance = .fin q ∧ 0 ≤ q
  worst : s.worst.isFinite = true
  hist : ∀ count ∈ s.hist, count.value.isFinite = true
  axis : s.lo.isFinite = true ∧ s.hi.isFinite = true
  risk95 : s.risk95.1.isFinite = true ∧ s.risk95.2.isFinite = true
  risk99 : s.risk99.1.isFinite = true ∧ s.risk99.2.isFinite = true

theorem toJson_finite (x : PyValue.Num) : x.toJson.finite = x.value.isFinite := by
  cases x <;> rfl

theorem halfPower_standard (hroot : ∀ q, 0 ≤ q → (F.root q).isFinite = true) (x : PyFloat) :
    (halfPower F x).Standard ↔ ∃ q, x = .fin q ∧ 0 ≤ q := by
  cases x with
  | nan => simp [halfPower, Out.Standard, Json.finite, PyFloat.isFinite]
  | inf n => simp [halfPower, Out.Standard, Json.finite, PyFloat.isFinite]
  | fin q =>
      unfold halfPower
      by_cases hneg : q < 0
      · simp [hneg, Out.Standard]
      · have hq : 0 ≤ q := not_lt.mp hneg
        simp [hneg, Out.Standard, Json.finite, hroot q hq, hq]

theorem stats_encodes (hroot : ∀ q, 0 ≤ q → (F.root q).isFinite = true) (s : Stats) :
    Encodes (s.summary F) ↔ s.Sound := by
  have hhist : (Json.arr (s.hist.map PyValue.Num.toJson)).finite = true ↔
      ∀ count ∈ s.hist, count.value.isFinite = true := by
    refine Json.itemsFinite_iff.trans ?_
    rw [List.forall_mem_map]
    simp only [toJson_finite]
  unfold Encodes Stats.summary
  simp only [List.forall_mem_cons]
  constructor
  · rintro ⟨-, hmean, hstdev, hworst, hcounts, hlo, hhi, hvar95, hcvar95, hvar99, hcvar99, -⟩
    exact ⟨hmean, (halfPower_standard hroot _).mp hstdev, hworst, hhist.mp hcounts, ⟨hlo, hhi⟩,
      ⟨hvar95, hcvar95⟩, ⟨hvar99, hcvar99⟩⟩
  · intro hs
    exact ⟨rfl, hs.mean, (halfPower_standard hroot _).mpr hs.variance, hs.worst,
      hhist.mpr hs.hist, hs.axis.1, hs.axis.2, hs.risk95.1, hs.risk95.2, hs.risk99.1, hs.risk99.2,
      List.forall_mem_nil _⟩

/-! What the tiles contribute, and the sums over them. -/

/-- The pool of all tiles, which have been read. -/
structure Pooled (F : Platform) (parts : List Dict) (start pool : Pool) (ms : List Moments) :
    Prop where
  read : parts.mapM (momentsOf F) = some ms
  paths : pool.paths = start.paths + (ms.map (·.n)).sum
  mean : pool.weightedMean = (ms.map (·.share)).foldl binary64.add start.weightedMean
  second : pool.weightedSq = (ms.map (·.second)).foldl binary64.add start.weightedSq
  worst : pool.worst = (ms.map (·.worst)).foldl pyMin start.worst
  hist : (ms.map (·.values)).foldlM addHist start.hist = some pool.hist

theorem pool_moments {parts : List Dict} {start pool : Pool}
    (h : parts.foldlM (Pool.add F) start = some pool) : ∃ ms, Pooled F parts start pool ms := by
  induction parts generalizing start with
  | nil =>
      cases h
      exact ⟨[], rfl, by simp, rfl, rfl, rfl, rfl⟩
  | cons part parts ih =>
      rw [List.foldlM_cons] at h
      obtain ⟨next, hnext, h⟩ := Option.bind_eq_some_iff.mp h
      obtain ⟨m, hm, hnext⟩ := Option.bind_eq_some_iff.mp hnext
      obtain ⟨hist, hhist, hnext⟩ := Option.bind_eq_some_iff.mp hnext
      cases hnext
      obtain ⟨ms, hms⟩ := ih h
      refine ⟨m :: ms, ?_, ?_, hms.mean, hms.second, hms.worst, ?_⟩
      · rw [List.mapM_cons, hm, hms.read]
        rfl
      · rw [hms.paths, List.map_cons, List.sum_cons]
        exact Int.add_assoc _ _ _
      · rw [List.map_cons, List.foldlM_cons, hhist]
        exact hms.hist

/-- The mean of the shares and that of the second moments are numbers, and the second
one is at least the square of the first. -/
def Spread (paths : Int) (shares seconds : List PyFloat) : Prop :=
  ∀ mean second, paths ≠ 0 → overInt (shares.foldl binary64.add (.fin 0)) paths = some mean →
    overInt (seconds.foldl binary64.add (.fin 0)) paths = some second →
      mean.isFinite = true ∧ ∃ q, binary64.sub second (binary64.mul mean mean) = .fin q ∧ 0 ≤ q

/-- The loss at a level and the mean loss beyond it are numbers. -/
def TailFinite (F : Platform) (axis : Axis) (counts : List PyValue.Num) (paths : Int) (level : Rat) :
    Prop :=
  ∀ risk, riskOf F axis counts paths (binary64.ofRat level) = some risk →
    risk.1.isFinite = true ∧ risk.2.isFinite = true

/-- What the tiles report: the axis of the first one, returns of which none is minus
infinity, counts that add up to numbers, and moments and tails that are numbers. -/
structure Reported (F : Platform) (axis : Axis) (tiles : List Moments) (counts : List PyValue.Num) :
    Prop where
  ends : axis.lo.isFinite = true ∧ axis.hi.isFinite = true
  worst : ∀ m ∈ tiles, m.worst ≠ .inf true
  bins : ∀ count ∈ counts, count.value.isFinite = true
  spread : Spread (tiles.map (·.n)).sum (tiles.map (·.share)) (tiles.map (·.second))
  tail95 : TailFinite F axis counts (tiles.map (·.n)).sum (95 / 100)
  tail99 : TailFinite F axis counts (tiles.map (·.n)).sum (99 / 100)

/-- What the usable tiles report, if there are any. -/
def RiskSound (F : Platform) (outputs : List Dict) : Prop :=
  ∀ first rest axis tiles counts, usableParts outputs = first :: rest →
    axisOf first = some axis → (first :: rest).mapM (momentsOf F) = some tiles →
    (tiles.map (·.values)).foldlM addHist (List.replicate axis.nbins (.int 0)) = some counts →
      Reported F axis tiles counts

theorem poolStats_sound {first : Dict} {parts : List Dict} {axis : Axis} {tiles : List Moments}
    {counts : List PyValue.Num} {stats : Stats} (h : poolStats F first parts = some stats)
    (haxis : axisOf first = some axis) (htiles : parts.mapM (momentsOf F) = some tiles)
    (hcounts : (tiles.map (·.values)).foldlM addHist (List.replicate axis.nbins (.int 0)) =
      some counts) : stats.Sound ↔ Reported F axis tiles counts := by
  obtain ⟨axis', haxis', h⟩ := Option.bind_eq_some_iff.mp h
  have heq : some axis' = some axis := haxis'.symm.trans haxis
  cases heq
  obtain ⟨pool, hpool, h⟩ := Option.bind_eq_some_iff.mp h
  obtain ⟨mean, hmean, h⟩ := Option.bind_eq_some_iff.mp h
  obtain ⟨second, hsecond, h⟩ := Option.bind_eq_some_iff.mp h
  obtain ⟨risk95, hrisk95, h⟩ := Option.bind_eq_some_iff.mp h
  obtain ⟨risk99, hrisk99, h⟩ := Option.bind_eq_some_iff.mp h
  cases h
  obtain ⟨ms, hms⟩ := pool_moments hpool
  have hread : some ms = some tiles := hms.read.symm.trans htiles
  cases hread
  have hhist : some pool.hist = some counts := hms.hist.symm.trans hcounts
  cases hhist
  have hpaths : pool.paths = (tiles.map (·.n)).sum := by simpa using hms.paths
  have hworst : pool.worst.isFinite = true ↔ ∀ m ∈ tiles, m.worst ≠ .inf true := by
    rw [hms.worst, foldl_pyMin_isFinite _ _ rfl]
    simp
  have htail : ∀ {level : Rat} {risk : PyFloat × PyFloat},
      riskOf F axis pool.hist pool.paths (binary64.ofRat level) = some risk →
      (TailFinite F axis pool.hist (tiles.map (·.n)).sum level ↔
        risk.1.isFinite = true ∧ risk.2.isFinite = true) := by
    intro level risk hrisk
    unfold TailFinite
    rw [← hpaths, hrisk]
    simp
  have hspread : Spread (tiles.map (·.n)).sum (tiles.map (·.share)) (tiles.map (·.second)) ↔
      mean.isFinite = true ∧ ∃ q, (if pool.paths = 0 then PyFloat.fin 0
        else binary64.sub second (binary64.mul mean mean)) = .fin q ∧ 0 ≤ q := by
    unfold Spread
    rw [← hpaths, ← hms.mean, ← hms.second]
    unfold perPath at hmean hsecond
    by_cases hzero : pool.paths = 0
    · rw [if_pos hzero] at hmean ⊢
      cases hmean
      refine iff_of_true ?_ ⟨rfl, 0, rfl, le_refl 0⟩
      intro mean second hne
      exact absurd hzero hne
    · rw [if_neg hzero] at hmean hsecond ⊢
      rw [hmean, hsecond]
      simp [hzero]
  constructor
  · intro hs
    exact ⟨hs.axis, hworst.mp hs.worst, hs.hist, hspread.mpr ⟨hs.mean, hs.variance⟩,
      (htail hrisk95).mpr hs.risk95, (htail hrisk99).mpr hs.risk99⟩
  · intro hr
    exact ⟨(hspread.mp hr.spread).1, (hspread.mp hr.spread).2, hworst.mpr hr.worst, hr.bins,
      hr.ends, (htail hrisk95).mp hr.tail95, (htail hrisk99).mp hr.tail99⟩

/-- Statistics are there only when all that the tiles report could be read. -/
theorem poolStats_reads {first : Dict} {parts : List Dict} {stats : Stats}
    (h : poolStats F first parts = some stats) :
    ∃ axis tiles counts, axisOf first = some axis ∧ parts.mapM (momentsOf F) = some tiles ∧
      (tiles.map (·.values)).foldlM addHist (List.replicate axis.nbins (.int 0)) =
        some counts := by
  obtain ⟨axis, haxis, h⟩ := Option.bind_eq_some_iff.mp h
  obtain ⟨pool, hpool, -⟩ := Option.bind_eq_some_iff.mp h
  obtain ⟨ms, hms⟩ := pool_moments hpool
  exact ⟨axis, ms, pool.hist, haxis, hms.read, hms.hist⟩

theorem montecarlo_encodes (hroot : ∀ q, 0 ≤ q → (F.root q).isFinite = true)
    (h : aggregateMontecarloOutputs F outputs = some s) : Encodes s ↔ RiskSound F outputs := by
  unfold aggregateMontecarloOutputs at h
  unfold RiskSound
  cases hparts : usableParts outputs with
  | nil =>
      rw [hparts] at h
      cases h
      refine iff_of_true ?_ ?_
      · rw [encodes_fields]
        decide
      · rintro first rest axis tiles counts ⟨⟩
  | cons first rest =>
      rw [hparts] at h
      obtain ⟨stats, hstats, rfl⟩ := Option.map_eq_some_iff.mp h
      rw [stats_encodes hroot]
      constructor
      · rintro hsound _ _ axis tiles counts ⟨⟩ haxis htiles hcounts
        exact (poolStats_sound hstats haxis htiles hcounts).mp hsound
      · intro hall
        obtain ⟨axis, tiles, counts, haxis, htiles, hcounts⟩ := poolStats_reads hstats
        exact (poolStats_sound hstats haxis htiles hcounts).mpr
          (hall first rest axis tiles counts rfl haxis htiles hcounts)

end Risk

end OneCompute.Workloads
