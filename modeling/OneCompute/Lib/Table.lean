import Mathlib.Data.List.Nodup
import Mathlib.Tactic.Tauto

/-!
Tables of rows under a primary key, and append-only tables under an
automatically incremented identifier. Both carry their key constraint as a
field, so a table with a duplicate key or an out-of-order identifier cannot be
written down. Operations follow the SQL statements of the same name.
-/

/-- The rows of a table whose column `key` is its primary key. -/
structure Table {ρ κ : Type} (key : ρ → κ) where
  rows : List ρ
  nodup : (rows.map key).Nodup

namespace Table
variable {ρ κ : Type} {key : ρ → κ}

instance : Membership ρ (Table key) where
  mem t r := r ∈ t.rows

theorem mem_iff {t : Table key} {r : ρ} : r ∈ t ↔ r ∈ t.rows := Iff.rfl

def empty : Table key := ⟨[], List.nodup_nil⟩

@[simp] theorem not_mem_empty (r : ρ) : ¬ r ∈ (empty : Table key) := List.not_mem_nil

theorem eq_of_key_eq {t : Table key} {r s : ρ} (hr : r ∈ t) (hs : s ∈ t)
    (h : key r = key s) : r = s :=
  List.inj_on_of_nodup_map t.nodup hr hs h

/-- `SELECT ... WHERE key = k`. -/
def find? [DecidableEq κ] (t : Table key) (k : κ) : Option ρ :=
  t.rows.find? (fun r => decide (key r = k))

theorem find?_eq_some [DecidableEq κ] {t : Table key} {k : κ} {r : ρ} :
    t.find? k = some r ↔ r ∈ t ∧ key r = k := by
  constructor
  · intro h
    exact ⟨List.mem_of_find?_eq_some h, by simpa using List.find?_some h⟩
  · rintro ⟨hr, rfl⟩
    cases h : t.find? (key r) with
    | none =>
        have := List.find?_eq_none.mp h r hr
        simp at this
    | some s =>
        have hs : s ∈ t := List.mem_of_find?_eq_some h
        have hk : key s = key r := by simpa using List.find?_some h
        exact congrArg some (eq_of_key_eq hs hr hk)

theorem find?_eq_none [DecidableEq κ] {t : Table key} {k : κ} :
    t.find? k = none ↔ ∀ r ∈ t, key r ≠ k := by
  simp [find?, List.find?_eq_none, mem_iff]

theorem find?_of_mem [DecidableEq κ] {t : Table key} {r : ρ} (h : r ∈ t) :
    t.find? (key r) = some r :=
  find?_eq_some.mpr ⟨h, rfl⟩

/-- `INSERT`; `none` is the integrity error on a duplicate key. -/
def insert? [DecidableEq κ] (t : Table key) (r : ρ) : Option (Table key) :=
  if h : key r ∈ t.rows.map key then none
  else some ⟨t.rows ++ [r], by
    rw [List.map_append, List.nodup_append]
    refine ⟨t.nodup, by simp, ?_⟩
    intro a ha b hb hab
    obtain rfl : b = key r := by simpa using hb
    exact h (hab ▸ ha)⟩

theorem insert?_eq_none [DecidableEq κ] {t : Table key} {r : ρ} :
    t.insert? r = none ↔ ∃ s ∈ t, key s = key r := by
  unfold insert?
  split <;> rename_i h
  · simpa [mem_iff] using h
  · simpa [mem_iff] using h

theorem rows_insert? [DecidableEq κ] {t u : Table key} {r : ρ} (h : t.insert? r = some u) :
    u.rows = t.rows ++ [r] := by
  unfold insert? at h
  split at h
  · cases h
  · cases h
    rfl

theorem mem_insert? [DecidableEq κ] {t u : Table key} {r s : ρ} (h : t.insert? r = some u) :
    s ∈ u ↔ s ∈ t ∨ s = r := by
  simp [mem_iff, rows_insert? h]

theorem fresh_of_insert? [DecidableEq κ] {t u : Table key} {r s : ρ}
    (h : t.insert? r = some u) (hs : s ∈ t) : key s ≠ key r := by
  intro hk
  have := insert?_eq_none.mpr ⟨s, hs, hk⟩
  rw [this] at h
  cases h

theorem find?_insert? [DecidableEq κ] {t u : Table key} {r : ρ} (h : t.insert? r = some u)
    (k : κ) : u.find? k = if key r = k then some r else t.find? k := by
  by_cases hk : key r = k
  · rw [if_pos hk, find?_eq_some]
    exact ⟨(mem_insert? h).mpr (.inr rfl), hk⟩
  · rw [if_neg hk]
    apply Option.ext
    intro s
    rw [find?_eq_some, find?_eq_some, mem_insert? h]
    constructor
    · rintro ⟨hs | rfl, hsk⟩
      · exact ⟨hs, hsk⟩
      · exact absurd hsk hk
    · exact fun hs => ⟨.inl hs.1, hs.2⟩

/-- `UPDATE ... SET f WHERE p`, for an assignment that leaves the key alone. -/
def update (t : Table key) (p : ρ → Bool) (f : ρ → ρ) (hf : ∀ r, key (f r) = key r) :
    Table key where
  rows := t.rows.map (fun r => if p r then f r else r)
  nodup := by
    have hk : (key ∘ fun r => if p r then f r else r) = key := by
      funext r
      by_cases hp : p r <;> simp [hp, hf]
    rw [List.map_map, hk]
    exact t.nodup

/-- Only what the condition says of the rows of the table matters. -/
theorem update_congr {t : Table key} {p q : ρ → Bool} {f : ρ → ρ} (hf : ∀ r, key (f r) = key r)
    (h : ∀ r ∈ t, p r = q r) : t.update p f hf = t.update q f hf := by
  have hrows : t.rows.map (fun r => if p r then f r else r) =
      t.rows.map fun r => if q r then f r else r :=
    List.map_congr_left fun r hr => by rw [h r hr]
  unfold update
  congr 1

theorem mem_update {t : Table key} {p : ρ → Bool} {f : ρ → ρ} (hf : ∀ r, key (f r) = key r)
    {r : ρ} : r ∈ t.update p f hf ↔ ∃ s ∈ t, (if p s then f s else s) = r := by
  simp [mem_iff, update]

theorem mem_update_of {t : Table key} {p : ρ → Bool} {f : ρ → ρ} (hf : ∀ r, key (f r) = key r)
    {r s : ρ} (hs : s ∈ t) (h : (if p s then f s else s) = r) : r ∈ t.update p f hf :=
  (mem_update hf).mpr ⟨s, hs, h⟩

theorem find?_update [DecidableEq κ] (t : Table key) (p : ρ → Bool) (f : ρ → ρ)
    (hf : ∀ r, key (f r) = key r) (k : κ) :
    (t.update p f hf).find? k = (t.find? k).map (fun r => if p r then f r else r) := by
  have hk : ∀ r, key (if p r then f r else r) = key r := by
    intro r
    by_cases hp : p r <;> simp [hp, hf]
  simp only [find?, update, List.find?_map, Function.comp_def, hk]

/-- `DELETE ... WHERE p`. -/
def delete (t : Table key) (p : ρ → Bool) : Table key where
  rows := t.rows.filter (fun r => !p r)
  nodup := t.nodup.sublist (List.filter_sublist.map key)

theorem mem_delete {t : Table key} {p : ρ → Bool} {r : ρ} :
    r ∈ t.delete p ↔ r ∈ t ∧ p r = false := by
  simp [mem_iff, delete]

theorem find?_delete [DecidableEq κ] (t : Table key) (p : ρ → Bool) (k : κ) :
    (t.delete p).find? k = (t.find? k).filter (fun r => !p r) := by
  apply Option.ext
  intro r
  rw [find?_eq_some, mem_delete, Option.filter_eq_some_iff, find?_eq_some]
  simp only [Bool.not_eq_true']
  tauto

/-- `INSERT ... ON CONFLICT(key) DO UPDATE SET f`. -/
def upsert [DecidableEq κ] (t : Table key) (r : ρ) (f : ρ → ρ) (hf : ∀ r, key (f r) = key r) :
    Table key :=
  match t.insert? r with
  | some u => u
  | none => t.update (fun s => decide (key s = key r)) f hf

theorem rows_upsert_fresh [DecidableEq κ] {t : Table key} {r : ρ} {f : ρ → ρ}
    (hf : ∀ r, key (f r) = key r) (h : ∀ s ∈ t, key s ≠ key r) :
    (t.upsert r f hf).rows = t.rows ++ [r] := by
  unfold upsert
  split
  next u hu => exact rows_insert? hu
  next hnone =>
    obtain ⟨s, hs, hkey⟩ := insert?_eq_none.mp hnone
    exact absurd hkey (h s hs)

theorem find?_upsert [DecidableEq κ] (t : Table key) (r : ρ) (f : ρ → ρ)
    (hf : ∀ r, key (f r) = key r) (k : κ) :
    (t.upsert r f hf).find? k =
      if key r = k then some ((t.find? k).elim r f) else t.find? k := by
  unfold upsert
  cases h : t.insert? r with
  | some u =>
      rw [find?_insert? h]
      by_cases hk : key r = k
      · have hnone : t.find? k = none := by
          rw [find?_eq_none]
          intro s hs
          rw [← hk]
          exact fresh_of_insert? h hs
        simp [hk, hnone]
      · rw [if_neg hk, if_neg hk]
  | none =>
      obtain ⟨s, hs, hsk⟩ := insert?_eq_none.mp h
      rw [find?_update]
      by_cases hk : key r = k
      · have hfind : t.find? k = some s := find?_eq_some.mpr ⟨hs, hsk.trans hk⟩
        simp [hk, hfind, hsk]
      · rw [if_neg hk]
        cases hfind : t.find? k with
        | none => rfl
        | some s' =>
            have hs' : key s' ≠ key r := by
              rw [(find?_eq_some.mp hfind).2]
              exact Ne.symm hk
            simp [hs']

end Table

/-- An append-only table whose column `ident` is filled from an increasing counter. -/
structure AutoTable {ρ : Type} (ident : ρ → Nat) where
  rows : List ρ
  seq : Nat
  sorted : (rows.map ident).Pairwise (· < ·)
  bounded : ∀ r ∈ rows, ident r ≤ seq

namespace AutoTable
variable {ρ : Type} {ident : ρ → Nat}

def empty : AutoTable ident := ⟨[], 0, List.Pairwise.nil, by simp⟩

/-- `INSERT` of a row that takes the next identifier. -/
def insert (t : AutoTable ident) (mk : Nat → ρ) (hmk : ∀ n, ident (mk n) = n) :
    AutoTable ident where
  rows := t.rows ++ [mk (t.seq + 1)]
  seq := t.seq + 1
  sorted := by
    rw [List.map_append, List.pairwise_append]
    refine ⟨t.sorted, by simp, ?_⟩
    intro a ha b hb
    obtain ⟨r, hr, rfl⟩ := List.mem_map.mp ha
    obtain rfl : b = t.seq + 1 := by simpa [hmk] using hb
    exact Nat.lt_succ_of_le (t.bounded r hr)
  bounded := by
    intro r hr
    rcases List.mem_append.mp hr with hr | hr
    · exact Nat.le_succ_of_le (t.bounded r hr)
    · obtain rfl : r = mk (t.seq + 1) := by simpa using hr
      exact Nat.le_of_eq (hmk _)

end AutoTable
