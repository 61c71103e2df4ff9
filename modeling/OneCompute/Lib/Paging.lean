import Mathlib.Data.List.Basic
import Mathlib.Order.Basic
import Mathlib.Order.Lattice

/-!
A log that only grows is read in pages, each from where the last one ended. What was
read is the beginning of the log, whatever was appended in between.
-/

namespace Paging
variable {ρ : Type} {ι : Type}

/-- Where the next page begins: after the last row, or where this one did. -/
def cursor (ident : ρ → ι) (since : ι) (rows : List ρ) : ι := (rows.getLast?).elim since ident

theorem cursor_append {ident : ρ → ι} {start : ι} (xs ys : List ρ) :
    cursor ident start (xs ++ ys) = cursor ident (cursor ident start xs) ys := by
  unfold cursor
  rw [List.getLast?_append]
  cases ys.getLast? <;> rfl

variable [LinearOrder ι] (ident : ρ → ι) (limit : Nat)

/-- The first rows after a cursor. -/
def page (since : ι) (log : List ρ) : List ρ :=
  (log.filter fun row => decide (since < ident row)).take limit

/-- The pages of a reader that finds these logs one after the other. -/
def pages (since : ι) : List (List ρ) → List (List ρ)
  | [] => []
  | log :: logs =>
      page ident limit since log :: pages (cursor ident since (page ident limit since log)) logs

variable {ident limit} {start : ι} {seen log : List ρ}

/-- After the rows that were seen come the others. -/
theorem filter_after {rest : List ρ} (hsorted : ((seen ++ rest).map ident).Pairwise (· < ·))
    (hstart : ∀ row ∈ rest, start < ident row) :
    (seen ++ rest).filter (fun row => decide (cursor ident start seen < ident row)) = rest := by
  rw [List.map_append, List.pairwise_append] at hsorted
  obtain ⟨hseen, -, hbetween⟩ := hsorted
  have hrest : rest.filter (fun row => decide (cursor ident start seen < ident row)) = rest := by
    refine List.filter_eq_self.mpr fun row hrow => ?_
    unfold cursor
    cases hlast : seen.getLast? with
    | none => exact decide_eq_true (hstart row hrow)
    | some last =>
        have hmem : last ∈ seen := List.mem_of_getLast? hlast
        exact decide_eq_true
          (hbetween _ (List.mem_map_of_mem hmem) _ (List.mem_map_of_mem hrow))
  have hnone : seen.filter (fun row => decide (cursor ident start seen < ident row)) = [] := by
    rcases List.eq_nil_or_concat seen with rfl | ⟨above, last, rfl⟩
    · rfl
    · rw [List.concat_eq_append] at hseen ⊢
      rw [List.map_append, List.pairwise_append] at hseen
      have hcursor : cursor ident start (above ++ [last]) = ident last := by simp [cursor]
      rw [hcursor, List.filter_eq_nil_iff]
      intro row hrow
      rcases List.mem_append.mp hrow with habove | hlast
      · have hlt := hseen.2.2 _ (List.mem_map_of_mem habove) (ident last) (by simp)
        simpa using hlt.le
      · cases List.mem_singleton.mp hlast
        simp
  rw [List.filter_append, hnone, hrest, List.nil_append]

/-- A log as a reader may find it that has seen some rows. -/
structure Extends (ident : ρ → ι) (start : ι) (seen log : List ρ) : Prop where
  seen : seen <+: log
  sorted : (log.map ident).Pairwise (· < ·)
  start : ∀ row ∈ log, start < ident row

/-- The page is the next part of the log, and nothing only at its end. -/
theorem page_extends (h : Extends ident start seen log) (hlimit : 0 < limit) :
    seen ++ page ident limit (cursor ident start seen) log <+: log ∧
      (page ident limit (cursor ident start seen) log = [] → seen = log) := by
  obtain ⟨rest, rfl⟩ := h.seen
  have hpage : page ident limit (cursor ident start seen) (seen ++ rest) = rest.take limit := by
    unfold page
    rw [filter_after h.sorted fun row hrow => h.start row (List.mem_append_right _ hrow)]
  rw [hpage]
  refine ⟨(List.prefix_append_right_inj seen).mpr (List.take_prefix limit rest), ?_⟩
  intro hnil
  have hrest : rest = [] := by
    rcases List.take_eq_nil_iff.mp hnil with hzero | hrest
    · omega
    · exact hrest
  rw [hrest, List.append_nil]

/-- Logs that are found one after the other, the first after some rows were seen. -/
structure Grows (ident : ρ → ι) (start : ι) (seen : List ρ) (logs : List (List ρ)) : Prop where
  extended : ∀ log ∈ logs, Extends ident start seen log
  grows : logs.Pairwise (· <+: ·)

theorem Grows.tail {logs : List (List ρ)} (h : Grows ident start seen (log :: logs))
    (hlimit : 0 < limit) :
    Grows ident start (seen ++ page ident limit (cursor ident start seen) log) logs := by
  have hpage := (page_extends (h.extended log List.mem_cons_self) hlimit).1
  have hgrows := List.pairwise_cons.mp h.grows
  refine ⟨fun later hlater => ?_, hgrows.2⟩
  have hlog := h.extended later (List.mem_cons_of_mem _ hlater)
  exact ⟨hpage.trans (hgrows.1 later hlater), hlog.sorted, hlog.start⟩

/-- What was read is the beginning of the log at each time, and all of it when a page
is empty. -/
theorem pages_spec {logs : List (List ρ)} (h : Grows ident start seen logs) (hlimit : 0 < limit)
    {k : Nat} {rows : List ρ} (hrows : (pages ident limit (cursor ident start seen) logs)[k]? = some rows) :
    ∃ log, logs[k]? = some log ∧
      seen ++ ((pages ident limit (cursor ident start seen) logs).take (k + 1)).flatten <+: log ∧
      (rows = [] →
        seen ++ ((pages ident limit (cursor ident start seen) logs).take k).flatten = log) := by
  induction logs generalizing seen k with
  | nil => cases hrows
  | cons log logs ih =>
      cases k with
      | zero =>
          cases hrows
          obtain ⟨hpage, hend⟩ := page_extends (h.extended log List.mem_cons_self) hlimit
          exact ⟨log, rfl, by simpa [pages] using hpage, by simpa [pages] using hend⟩
      | succ k =>
          have htail := h.tail hlimit
          simp only [pages, ← cursor_append, List.getElem?_cons_succ] at hrows
          obtain ⟨later, hlater, hread, hend⟩ := ih htail hrows
          refine ⟨later, hlater, ?_, ?_⟩
          · simpa [pages, ← cursor_append] using hread
          · simpa [pages, ← cursor_append] using hend

theorem pages_flatten {logs : List (List ρ)} {final : List ρ} (h : Grows ident start seen logs)
    (hlimit : 0 < limit) (hseen : seen <+: final) (hfinal : ∀ log ∈ logs, log <+: final) :
    seen ++ (pages ident limit (cursor ident start seen) logs).flatten <+: final := by
  induction logs generalizing seen with
  | nil => simpa [pages] using hseen
  | cons log logs ih =>
      rw [List.forall_mem_cons] at hfinal
      have hpage := (page_extends (h.extended log List.mem_cons_self) hlimit).1
      have hrest := ih (h.tail hlimit) (hpage.trans hfinal.1) hfinal.2
      simpa [pages, ← cursor_append] using hrest

/-- A page that is read while rows are unseen that were there before has one of them. -/
theorem exists_unseen {xs rows earlier : List ρ} (hread : xs ++ rows <+: log)
    (hend : rows = [] → xs = log) (hearlier : earlier <+: log) (hnodup : log.Nodup)
    (hunseen : ∃ row ∈ earlier, row ∉ xs) : ∃ row ∈ rows, row ∈ earlier ∧ row ∉ xs := by
  obtain ⟨row, hrow, hnew⟩ := hunseen
  rcases List.prefix_or_prefix_of_prefix hread hearlier with hbelow | habove
  · cases rows with
    | nil =>
        rw [hend rfl] at hnew
        exact absurd (hearlier.subset hrow) hnew
    | cons first rest =>
        have hparts := (List.nodup_append.mp (hnodup.sublist hread.sublist)).2.2
        refine ⟨first, List.mem_cons_self, hbelow.subset (by simp), fun hfirst => ?_⟩
        exact hparts first hfirst first List.mem_cons_self rfl
  · rcases List.mem_append.mp (habove.subset hrow) with hold | hmem
    · exact absurd hold hnew
    · exact ⟨row, hmem, hrow, hnew⟩

end Paging
