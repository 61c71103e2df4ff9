import OneCompute.Worker.ProfileFile

/-!
When the offline report can read a profile file, and what a corrupt file does to the
profiler and to the report.
-/

namespace OneCompute.Worker
open PyNumber (Rounding)
open Jobkit (pyInt)
open Measurement
open Results (Returns returns_ok returns_bind)

/-! ## The offline report -/

section Report
variable {R : Rounding}

/-- A decoded file of which every number that the report reads has a float, and so have
the sums of its columns. -/
def Reports (R : Rounding) (data : Json) : Prop :=
  ∀ fields raws, data = .obj fields → Json.lookup fields "buckets" = some (.arr raws) →
    (∀ value ∈ raws.take bucketsPerWeek,
      ∀ raw, value = .obj raw → Populated raw → Fields R reportFields raw) ∧
    ObjFields R timingFields (getField fields "availability") ∧
    ∀ bs, normalizeBuckets R (.arr raws) = .ok bs →
      ColumnsFit R
        { populated := bs
          gpuSupported := getField fields "gpu_supported"
          availability := getField fields "availability" }

theorem reportFile_returns {file : ProfileFile} :
    Returns (reportFile R file) ↔ ∀ data, file = .decoded data → Reports R data := by
  cases file with
  | decoded data =>
      have hone : (∀ data', ProfileFile.decoded data = .decoded data' → Reports R data') ↔
          Reports R data :=
        ⟨fun h => h data rfl, fun h data' heq => by cases heq; exact h⟩
      rw [hone]
      unfold reportFile loadProfile Reports
      cases data with
      | obj fields =>
          dsimp only
          cases hraws : Json.lookup fields "buckets" with
          | none =>
              refine iff_of_true (returns_ok _) fun fields' raws' heq hraws' => ?_
              cases heq
              rw [hraws] at hraws'
              cases hraws'
          | some value =>
              cases value with
              | arr raws =>
                  dsimp only
                  have hobj : ∀ P : List Json → Dict → Prop,
                      (∀ fields' raws', Json.obj fields = .obj fields' →
                        Json.lookup fields' "buckets" = some (.arr raws') → P raws' fields') ↔
                      P raws fields := by
                    intro P
                    constructor
                    · intro h
                      exact h fields raws rfl hraws
                    · intro h fields' raws' heq hraws'
                      cases heq
                      rw [hraws] at hraws'
                      cases hraws'
                      exact h
                  rw [hobj fun raws fields => _, ← normalizeBuckets_returns]
                  constructor
                  · rintro ⟨s, hs⟩
                    obtain ⟨profile, hprofile, hs⟩ := Results.bind_eq_ok.mp hs
                    obtain ⟨bs, hbs, hprofile⟩ := Results.bind_eq_ok.mp hprofile
                    cases hprofile
                    obtain ⟨summary, hsummary, -⟩ := Results.bind_eq_ok.mp hs
                    have hboth := (summarizeProfile_returns
                      (normalizeBuckets_finite hbs)).mp ⟨summary, hsummary⟩
                    refine ⟨⟨bs, hbs⟩, hboth.1, fun bs' hbs' => ?_⟩
                    rw [hbs] at hbs'
                    cases hbs'
                    exact hboth.2
                  · rintro ⟨⟨bs, hbs⟩, havail, hfit⟩
                    obtain ⟨summary, hsummary⟩ := (summarizeProfile_returns
                      (normalizeBuckets_finite hbs)).mpr ⟨havail, hfit bs hbs⟩
                    have hload : (do
                        let populated ← normalizeBuckets R (.arr raws)
                        return some (Profile.mk populated (getField fields "gpu_supported")
                          (getField fields "availability")) : Except String (Option Profile)) =
                        .ok (some ⟨bs, _, _⟩) := Results.bind_eq_ok.mpr ⟨bs, hbs, rfl⟩
                    exact ⟨some summary, Results.bind_eq_ok.mpr
                      ⟨_, hload, Results.bind_eq_ok.mpr ⟨summary, hsummary, rfl⟩⟩⟩
              | _ =>
                  refine iff_of_true (returns_ok _) fun fields' raws' heq hraws' => ?_
                  cases heq
                  rw [hraws] at hraws'
                  cases hraws'
      | _ => exact iff_of_true (returns_ok _) nofun
  | _ => exact iff_of_true (returns_ok _) nofun

end Report

/-! ## Corrupt files -/

/-- Whatever the file holds, a profiler that starts is within the loader's bounds; and both
the profiler and the report return unless an integer, or the sum of a column of the report,
is beyond the floats. -/
theorem profile_survives (movable : Bool) (file : ProfileFile) :
    (∀ s, startUp PyNumber.binary64 movable file = .ok s → s.Bounded PyNumber.binary64 file) ∧
    ((∀ data, file = .decoded data → Loads PyNumber.binary64 data) →
      ∃ s, startUp PyNumber.binary64 movable file = .ok s) ∧
    ((∀ data, file = .decoded data → Reports PyNumber.binary64 data) →
      ∃ r, reportFile PyNumber.binary64 file = .ok r) := by
  refine ⟨fun s hs => ?_, startUp_returns.mpr, reportFile_returns.mpr⟩
  obtain ⟨e, he, -, hhigh⟩ := PyNumber.binary64_sound.near (1 / 1000) (by norm_num) (by norm_num)
  exact startUp_bounded he (by linarith) hs

/-- A bucket with numbers beyond its bounds, one that is not finite, and a number of
samples that is none. -/
def hostileBucket : Dict :=
  [("n", .str "many"), ("cpu_mean", .int 150), ("cpu_max", .int (-10)), ("cpu_min", .str "bad"),
    ("gpu_mean", .float .nan), ("ram_mean", .int 45)]

def hostileFile : ProfileFile :=
  .decoded (.obj [("buckets", .arr [.obj hostileBucket])])

theorem profile_survives_hostile :
    (∃ s, startUp PyNumber.binary64 true hostileFile = .ok s ∧
      s.Bounded PyNumber.binary64 hostileFile) ∧
    ∃ r, reportFile PyNumber.binary64 hostileFile = .ok r := by
  obtain ⟨hbounded, hstart, hreport⟩ := profile_survives true hostileFile
  have hfields : Fields PyNumber.binary64 bucketFields hostileBucket := by
    unfold Fields
    decide +kernel
  have hnone : pyInt ((Json.lookup hostileBucket "n").getD (.int 0)) = none := by decide +kernel
  have hempty : normalizeBuckets PyNumber.binary64 (.arr [.obj hostileBucket]) = .ok [] := by
    have hbucket : normalizeBucket PyNumber.binary64 (.obj hostileBucket) = .ok none := by
      simp only [normalizeBucket, hnone]
    simp only [normalizeBuckets, bucketsPerWeek, List.take_succ_cons, List.take_nil, List.mapM_cons,
      List.mapM_nil, hbucket]
    rfl
  have hloads : ∀ data, hostileFile = .decoded data → Loads PyNumber.binary64 data := by
    intro data hdata fields raws hobj harr
    cases hdata
    cases hobj
    cases harr
    refine ⟨fun value hvalue raw hraw => ?_, nofun⟩
    cases List.mem_singleton.mp hvalue
    cases hraw
    exact hfields
  have hreports : ∀ data, hostileFile = .decoded data → Reports PyNumber.binary64 data := by
    intro data hdata fields raws hobj harr
    cases hdata
    cases hobj
    cases harr
    refine ⟨fun value hvalue raw hraw hpop => ?_, nofun, fun bs hbs => ?_⟩
    · cases List.mem_singleton.mp hvalue
      cases hraw
      obtain ⟨n, hn, -⟩ := hpop
      cases hnone.symm.trans hn
    · cases hempty.symm.trans hbs
      have hsum : Sums PyNumber.binary64 [] := returns_ok _
      exact ⟨hsum, hsum, hsum, hsum, hsum, hsum, hsum⟩
  obtain ⟨s, hs⟩ := hstart hloads
  exact ⟨⟨s, hs, hbounded s hs⟩, hreport hreports⟩

/-- An integer that is too large for a float. -/
def hugeFile : ProfileFile :=
  .decoded (.obj [("buckets", .arr [.obj [("n", .int 1), ("cpu_mean", .int (10 ^ 400))]])])

/-- The profiler and the report raise at such an integer; and the empty buckets of a
profiler that found no file have a lowest reading above their mean. -/
theorem hugeFile_raises :
    (¬ ∃ s, startUp PyNumber.binary64 true hugeFile = .ok s) ∧
    (¬ ∃ r, reportFile PyNumber.binary64 hugeFile = .ok r) ∧
    ∃ s, startUp PyNumber.binary64 true .absent = .ok s ∧
      ∀ b ∈ s.profiler.buckets, ¬ b.LowFirst := by
  have hhuge : beyondFloat PyNumber.binary64 (.int (10 ^ 400)) = true := by decide +kernel
  refine ⟨fun h => ?_, fun h => ?_, _, rfl, fun b hb => ?_⟩
  · have hfields := ((startUp_returns.mp h _ rfl) _ _ rfl rfl).1 _ (List.mem_singleton.mpr rfl) _ rfl
    have hmean := hfields "cpu_mean" (by decide)
    exact absurd (hhuge.symm.trans hmean) (by decide)
  · have hreports := reportFile_returns.mp h _ rfl
    have hfields := (hreports _ _ rfl rfl).1 _ (List.mem_singleton.mpr rfl) _ rfl ⟨1, rfl, by decide⟩
    have hmean := hfields "cpu_mean" (by decide)
    exact absurd (hhuge.symm.trans hmean) (by decide)
  · rw [List.eq_of_mem_replicate hb]
    norm_num [BucketStat.LowFirst]

end OneCompute.Worker
