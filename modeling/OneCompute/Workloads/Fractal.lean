import OneCompute.Jobkit.Tiles
import OneCompute.Workloads.Partition

/-!
The distributed image: its bands of rows, and the picture assembled from their
escape counts.
-/

namespace OneCompute.Workloads
open Jobkit (View FractalOutput fractal)
open PyNumber (binary64)
open Spans (range spans nonempty)

def fractalJob (width height maxIter : Int) (r : Int × Int) : SubmitRequest where
  kind := .fractal
  input := [("width", .int width), ("height", .int height), ("row_start", .int r.1),
    ("row_end", .int r.2), ("max_iter", .int maxIter), ("x_min", .float (.fin (-5 / 2))),
    ("x_max", .float (.fin 1)), ("y_min", .float (.fin (-5 / 4))),
    ("y_max", .float (.fin (5 / 4)))]
  units := r.2 - r.1

/-- One job for each band with a row in it. -/
def buildFractalJobs (sum : List PyFloat → PyFloat) (nTiles width height maxIter : Int)
    (weights : Option (List PyFloat)) : Except Raised (List SubmitRequest) :=
  if nTiles ≤ 0 then .error (.valueError "n_tiles must be positive")
  else if width ≤ 0 ∨ height ≤ 0 then .error (.valueError "width and height must be positive")
  else if maxIter ≤ 0 then .error (.valueError "max_iter must be positive")
  else do
    let bands ← split binary64 sum height nTiles weights
    return (nonempty bands).map (fractalJob width height maxIter)

/-! ## Colours -/

abbrev Color := Int × Int × Int

def black : Color := (0, 0, 0)

/-- `pow t e` is the float `t ** e`. -/
def colorize (pow : PyFloat → PyFloat → PyFloat) (maxIter count : Int) : Except Raised Color :=
  if maxIter ≤ count then .ok black
  else do
    let t := PyFloat.ofRat (count / maxIter)
    let r ← truncate (PyFloat.mul (.fin 255) (pow t (.fin (1 / 2))))
    let g ← truncate (PyFloat.mul (.fin 255) (pow t (PyFloat.ofRat (9 / 10))))
    let b ← truncate (PyFloat.mul (.fin 255)
      (PyFloat.add (PyFloat.ofRat (4 / 10)) (PyFloat.mul (PyFloat.ofRat (6 / 10)) t)))
    return (min r 255, min g 255, min b 255)

def ramp (pow : PyFloat → PyFloat → PyFloat) (maxIter : Int) : Except Raised (List Color) :=
  (range 0 (maxIter + 1)).mapM (colorize pow maxIter)

/-- The colour of an escape count, clipped to the ramp. -/
def rampAt (colors : List Color) (maxIter count : Int) : Color :=
  colors.getD (min (max count 0) maxIter).toNat black

/-! ## Assembly -/

abbrev Canvas := List (List Color)

/-- `canvas[y, :len(row)] = ramp[idx]` -/
def paintLine (colors line : List Color) : Except Raised (List Color) :=
  if line.length < colors.length then .error (.valueError s!"could not broadcast input array
    from shape ({colors.length},3) into shape ({line.length},3)")
  else .ok (colors ++ line.drop colors.length)

def paintRow (color : Int → Color) (canvas : Canvas) (y : Int) (row : List Int) :
    Except Raised Canvas :=
  if 0 ≤ y ∧ y < canvas.length ∧ row ≠ [] then do
    let line ← paintLine (row.map color) (canvas.getD y.toNat [])
    return canvas.set y.toNat line
  else return canvas

def paintRows (color : Int → Color) : Canvas → Int → List (List Int) → Except Raised Canvas
  | canvas, _, [] => return canvas
  | canvas, y, row :: rows => do
      let canvas ← paintRow color canvas y row
      paintRows color canvas (y + 1) rows

def paintTiles (color : Int → Color) : Canvas → List FractalOutput → Except Raised Canvas
  | canvas, [] => return canvas
  | canvas, tile :: tiles => do
      let canvas ← paintRows color canvas tile.rowStart tile.rows
      paintTiles color canvas tiles

/-- `assemble_tiles` for a `max_iter` that is not negative. -/
def assembleTiles (pow : PyFloat → PyFloat → PyFloat) (results : List FractalOutput)
    (width height maxIter : Int) : Except Raised Canvas := do
  let colors ← ramp pow maxIter
  paintTiles (rampAt colors maxIter)
    (List.replicate height.toNat (List.replicate width.toNat black)) results

section Picture
variable (color : Int → Color) (escape : Int → Int → Int) (width height : Int)

/-- The escape counts of the row `y`. -/
def countsOf (y : Int) : List Int := (range 0 width).map fun px => escape px y

/-- The picture in which the rows of `painted` have been painted. -/
def picture (painted : List Int) : Canvas :=
  (List.range height.toNat).map fun (y : Nat) =>
    if (y : Int) ∈ painted then (countsOf escape width y).map color
    else List.replicate width.toNat black

variable {color escape width height}

@[simp] theorem length_countsOf (y : Int) : (countsOf escape width y).length = width.toNat := by
  simp [countsOf]

theorem picture_congr {p q : List Int} (h : ∀ y, y ∈ p ↔ y ∈ q) :
    picture color escape width height p = picture color escape width height q := by
  unfold picture
  simp only [h]

private theorem set_map_range {α : Type} (f : Nat → α) {n i : Nat} (hi : i < n) (a : α) :
    ((List.range n).map f).set i a = (List.range n).map fun j => if j = i then a else f j := by
  apply List.ext_getElem?
  intro j
  rw [List.getElem?_set, List.getElem?_map, List.length_map, List.length_range]
  by_cases hji : i = j
  · subst hji
    simp [hi]
  · by_cases hj : j < n
    · simp [hji, hj, Ne.symm hji]
    · simp [hji, List.getElem?_eq_none (by simpa using hj : (List.range n).length ≤ j)]

/-- Painting the row `y` of the image adds it to what has been painted. -/
theorem paintRow_picture (hw : 0 < width) (painted : List Int) (y : Int) :
    paintRow color (picture color escape width height painted) y (countsOf escape width y) =
      .ok (picture color escape width height (y :: painted)) := by
  have hrow : countsOf escape width y ≠ [] := by
    intro hnil
    have hlen : (countsOf escape width y).length = width.toNat := length_countsOf y
    rw [hnil, List.length_nil] at hlen
    omega
  have hheight : (picture color escape width height painted).length = height.toNat := by
    simp [picture]
  unfold paintRow
  rw [hheight]
  split
  next hy =>
    have hi : y.toNat < height.toNat := by omega
    have hline : ((picture color escape width height painted).getD y.toNat []).length =
        width.toNat := by
      simp only [picture, List.getD_eq_getElem?_getD, List.getElem?_map, List.getElem?_range hi,
        Option.map_some, Option.getD_some]
      split <;> simp
    unfold paintLine
    rw [hline, List.length_map, length_countsOf, if_neg (by omega)]
    change Except.ok _ = _
    rw [List.drop_of_length_le (by rw [hline]), List.append_nil, picture, set_map_range _ hi]
    congr 1
    apply List.map_congr_left
    intro j _
    by_cases hj : j = y.toNat
    · have hcast : (j : Int) = y := by omega
      have hmem : (j : Int) ∈ y :: painted := by simp [hcast]
      rw [if_pos hj, if_pos hmem, hcast]
    · have hne : (j : Int) ≠ y := by omega
      simp [hne, hj]
  next hy =>
    change Except.ok _ = _
    congr 1
    unfold picture
    apply List.map_congr_left
    intro j hj
    have hne : (j : Int) ≠ y := by
      have := List.mem_range.mp hj
      intro heq
      exact hy ⟨by omega, by omega, hrow⟩
    simp [hne]

theorem paintRows_picture (hw : 0 < width) (painted : List Int) (a : Int) (n : Nat) :
    paintRows color (picture color escape width height painted) a
        ((range a (a + n)).map (countsOf escape width)) =
      .ok (picture color escape width height (range a (a + n) ++ painted)) := by
  induction n generalizing a painted with
  | zero => simp [Spans.range_nil, paintRows, Except.pure, pure]
  | succ n ih =>
      have hhead : range a (a + (n + 1 : Nat)) = a :: range (a + 1) (a + 1 + n) := by
        have hone : range a (a + 1) = [a] := by simp [range]
        have happ := Spans.range_append (a := a) (b := a + 1) (c := a + 1 + n) (by omega) (by omega)
        rw [hone] at happ
        rw [show a + ((n + 1 : Nat) : Int) = a + 1 + n by push_cast; omega, ← happ]
        rfl
      rw [hhead, List.map_cons, paintRows, paintRow_picture hw]
      change paintRows _ _ _ _ = _
      rw [ih]
      congr 1
      apply picture_congr
      intro y
      simp only [List.mem_append, List.mem_cons]
      tauto

/-- The tile that reports the band `r`. -/
def Reports (escape : Int → Int → Int) (width : Int) (r : Int × Int) (tile : FractalOutput) :
    Prop :=
  tile.rowStart = r.1 ∧ tile.rows = (range r.1 r.2).map (countsOf escape width)

theorem paintTiles_picture (hw : 0 < width) {bands : List (Int × Int)}
    {tiles : List FractalOutput} (h : List.Forall₂ (Reports escape width) bands tiles)
    (hbands : ∀ r ∈ bands, r.1 < r.2) (painted : List Int) :
    paintTiles color (picture color escape width height painted) tiles =
      .ok (picture color escape width height
        ((bands.flatMap fun r => range r.1 r.2) ++ painted)) := by
  induction h generalizing painted with
  | nil => rfl
  | @cons r tile bands tiles hr _ ih =>
      have hpos := hbands r List.mem_cons_self
      have hend : r.2 = r.1 + (r.2 - r.1).toNat := by omega
      rw [paintTiles, hr.1, hr.2, hend, paintRows_picture hw, ← hend]
      change paintTiles _ _ _ = _
      rw [ih fun r hr => hbands r (List.mem_cons_of_mem _ hr)]
      congr 1
      apply picture_congr
      intro y
      simp only [List.flatMap_cons, List.mem_append]
      tauto

/-- A canvas without paint. -/
theorem picture_nil (color : Int → Color) (escape : Int → Int → Int) : picture color escape width height [] =
    List.replicate height.toNat (List.replicate width.toNat black) := by
  apply List.eq_replicate_iff.mpr
  refine ⟨by simp [picture], ?_⟩
  intro line hline
  obtain ⟨y, -, rfl⟩ := List.mem_map.mp hline
  simp

/-- Painting a row of the image leaves it black. -/
def Dark (color : Int → Color) (escape : Int → Int → Int) (width y : Int) : Prop :=
  ∀ px, 0 ≤ px → px < width → color (escape px y) = black

theorem dark_iff (y : Int) : Dark color escape width y ↔
    (countsOf escape width y).map color = List.replicate width.toNat black := by
  rw [List.eq_replicate_iff, List.length_map, length_countsOf]
  constructor
  · intro h
    refine ⟨rfl, ?_⟩
    intro c hc
    obtain ⟨count, hcount, rfl⟩ := List.mem_map.mp hc
    obtain ⟨px, hpx, rfl⟩ := List.mem_map.mp hcount
    have := Spans.mem_range.mp hpx
    exact h px this.1 this.2
  · intro h px hpos hlt
    apply h.2
    exact List.mem_map_of_mem (List.mem_map_of_mem (Spans.mem_range.mpr ⟨hpos, hlt⟩))

/-- A picture is complete when only dark rows are missing. -/
theorem picture_complete_iff (painted : List Int) :
    picture color escape width height painted = picture color escape width height (range 0 height) ↔
      ∀ y, 0 ≤ y → y < height → y ∉ painted → Dark color escape width y := by
  unfold picture
  rw [List.map_inj_left]
  constructor
  · intro h y hpos hlt hnot
    have heq := h y.toNat (List.mem_range.mpr (by omega))
    have hcast : ((y.toNat : Nat) : Int) = y := by omega
    rw [hcast, if_neg hnot, if_pos (Spans.mem_range.mpr ⟨hpos, hlt⟩)] at heq
    exact (dark_iff y).mpr heq.symm
  · intro h j hj
    have hlt := List.mem_range.mp hj
    have hin : (j : Int) ∈ range 0 height := Spans.mem_range.mpr ⟨by omega, by omega⟩
    by_cases hjp : (j : Int) ∈ painted
    · rw [if_pos hjp, if_pos hin]
    · rw [if_neg hjp, if_pos hin]
      exact ((dark_iff _).mp (h j (by omega) (by omega) hjp)).symm

end Picture

/-! ## The whole image -/

/-- The window of every tile of a request. -/
def fractalView (width height maxIter : Int) : View :=
  ⟨width, height, maxIter, .fin (-5 / 2), .fin 1, .fin (-5 / 4), .fin (5 / 4)⟩

/-- A tile that never yields reports the rows of its band. -/
theorem fractal_reports (escape : View → Int → Int → Int) (width height maxIter : Int)
    (r : Int × Int) :
    ∃ out, fractal escape (fun _ => false) (fractalJob width height maxIter r).input = some out ∧
      Reports (escape (fractalView width height maxIter)) width r out := by
  refine ⟨_, rfl, rfl, ?_⟩
  rw [Jobkit.fractalRows_never]
  rfl

/-- The tiles of a split, in any order, make the picture of the rows that their sizes
count. -/
theorem assembleTiles_slices (escape : View → Int → Int → Int)
    {pow : PyFloat → PyFloat → PyFloat} {width maxIter : Int} (height : Int)
    {colors : List Color} (hw : 0 < width) (hramp : ramp pow maxIter = .ok colors) {sizes : List Int}
    (hsizes : ∀ s ∈ sizes, 0 ≤ s) :
    ∃ outputs, ((nonempty (spans 0 sizes)).map (fractalJob width height maxIter)).mapM
        (fun job => fractal escape (fun _ => false) job.input) = some outputs ∧
      ∀ order, order.Perm outputs → assembleTiles pow order width height maxIter =
        .ok (picture (rampAt colors maxIter) (escape (fractalView width height maxIter)) width
          height (range 0 sizes.sum)) := by
  choose run hrun hreports using fractal_reports escape width height maxIter
  refine ⟨(nonempty (spans 0 sizes)).map run, ?_, ?_⟩
  · rw [List.mapM_map]
    exact Results.mapM_some fun r _ => hrun r
  intro order horder
  have hall : List.Forall₂ (fun out r => Reports (escape (fractalView width height maxIter))
      width r out) ((nonempty (spans 0 sizes)).map run) (nonempty (spans 0 sizes)) := by
    rw [List.forall₂_map_left_iff, List.forall₂_same]
    exact fun r _ => hreports r
  obtain ⟨bands, hbands, hperm⟩ := List.perm_comp_forall₂ horder hall
  have hcover := hperm.flatMap_right fun r => range r.1 r.2
  rw [Spans.nonempty_flatMap, Spans.spans_flatMap hsizes, Int.zero_add] at hcover
  have hpos : ∀ r ∈ bands, r.1 < r.2 := by
    intro r hr
    simpa using (List.mem_filter.mp (hperm.mem_iff.mp hr)).2
  rw [assembleTiles, hramp]
  change paintTiles _ _ _ = _
  rw [← picture_nil (rampAt colors maxIter) (escape (fractalView width height maxIter)),
    paintTiles_picture hw hbands.flip hpos]
  congr 1
  apply picture_congr
  intro y
  rw [List.append_nil, hcover.mem_iff]

/-- How the image of a split compares with the image of one tile. -/
theorem assembleTiles_split (escape : View → Int → Int → Int) (sum : List PyFloat → PyFloat)
    {pow : PyFloat → PyFloat → PyFloat} {nTiles width height maxIter : Int}
    {weights : Option (List PyFloat)} {colors : List Color} {jobs : List SubmitRequest}
    (hramp : ramp pow maxIter = .ok colors)
    (h : buildFractalJobs sum nTiles width height maxIter weights = .ok jobs) :
    ∃ single whole outputs,
      buildFractalJobs sum 1 width height maxIter none = .ok single ∧
      single.mapM (fun job => fractal escape (fun _ => false) job.input) = some whole ∧
      jobs.mapM (fun job => fractal escape (fun _ => false) job.input) = some outputs ∧
      ∀ order, order.Perm outputs →
        (assembleTiles pow order width height maxIter =
            assembleTiles pow whole width height maxIter ↔
          ∀ y, height - unassigned binary64 sum height weights ≤ y → 0 ≤ y → y < height →
            Dark (rampAt colors maxIter) (escape (fractalView width height maxIter)) width y) := by
  unfold buildFractalJobs at h
  split at h
  · cases h
  split at h
  · cases h
  next hsides =>
    split at h
    · cases h
    next hiter =>
      obtain ⟨bands, hbands, h⟩ := Results.bind_eq_ok.mp h
      cases h
      have hw : 0 < width := by omega
      obtain ⟨sizes, rfl, hsizes, -, hcovered⟩ := split_spec PyNumber.binary64_keepsSign hbands
      have hone : split binary64 sum height 1 none = .ok (spans 0 (evenSizes height 1)) := by
        rw [split, evenRanges, if_neg (by decide), if_neg (by omega)]
      have honeSum : (evenSizes height 1).sum = height := evenSizes_sum (by decide)
      obtain ⟨whole, hwhole, hpicture⟩ := assembleTiles_slices escape height hw hramp
        (evenSizes_nonneg (by decide : (0 : Int) < 1) (by omega : 0 ≤ height))
      obtain ⟨outputs, hrun, hall⟩ := assembleTiles_slices escape height hw hramp hsizes
      refine ⟨_, whole, outputs, ?_, hwhole, hrun, ?_⟩
      · rw [buildFractalJobs, if_neg (by decide), if_neg hsides, if_neg hiter, hone]
        rfl
      intro order horder
      rw [hall order horder, hpicture whole (List.Perm.refl _), honeSum, Except.ok.injEq,
        picture_complete_iff]
      constructor
      · intro hdark y hfrom hpos hlt
        apply hdark y hpos hlt
        have hbeyond := (hcovered y hlt).mpr hfrom
        rw [Spans.mem_range]
        omega
      · intro hdark y hpos hlt hnot
        refine hdark y ((hcovered y hlt).mp ?_) hpos hlt
        rw [Spans.mem_range] at hnot
        omega

end OneCompute.Workloads
