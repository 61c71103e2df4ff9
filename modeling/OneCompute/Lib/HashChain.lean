import Mathlib.Data.List.Induction

/-!
Chains of links in which every link carries the hash of its predecessor and a
hash of that value together with its own body. The results assume collision
freedom only of the records that occur, so they can be used with a real digest.
-/

namespace HashChain
variable {H B : Type}

structure Link (H B : Type) where
  prev : H
  hash : H
  body : B

def Chained (f : H → B → H) : H → List (Link H B) → Prop
  | _, [] => True
  | p, l :: ls => l.prev = p ∧ l.hash = f p l.body ∧ Chained f l.hash ls

/-- The hash a chain from `p` ends in. -/
def head (p : H) : List (Link H B) → H
  | [] => p
  | l :: ls => head l.hash ls

theorem head_append (p : H) (ls ms : List (Link H B)) :
    head p (ls ++ ms) = head (head p ls) ms := by
  induction ls generalizing p with
  | nil => rfl
  | cons l ls ih => exact ih l.hash

@[simp] theorem head_snoc (p : H) (ls : List (Link H B)) (l : Link H B) :
    head p (ls ++ [l]) = l.hash := by
  simp [head_append, head]

theorem chained_append {f : H → B → H} {p : H} {ls ms : List (Link H B)} :
    Chained f p (ls ++ ms) ↔ Chained f p ls ∧ Chained f (head p ls) ms := by
  induction ls generalizing p with
  | nil => simp [Chained, head]
  | cons l ls ih => simp only [List.cons_append, Chained, head, ih, and_assoc]

theorem chained_snoc {f : H → B → H} {p : H} {ls : List (Link H B)} {l : Link H B} :
    Chained f p (ls ++ [l]) ↔
      Chained f p ls ∧ l.prev = head p ls ∧ l.hash = f (head p ls) l.body := by
  simp [chained_append, Chained]

theorem Chained.of_initial {f : H → B → H} {p : H} {ls ms : List (Link H B)}
    (h : Chained f p ms) (hp : ls <+: ms) : Chained f p ls := by
  obtain ⟨rest, rfl⟩ := hp
  exact (chained_append.mp h).1

theorem Chained.hash_eq {f : H → B → H} {p : H} {ls : List (Link H B)} (h : Chained f p ls) :
    ∀ l ∈ ls, l.hash = f l.prev l.body := by
  induction ls generalizing p with
  | nil => simp
  | cons l ls ih =>
      obtain ⟨hp, hh, hrest⟩ := h
      intro m hm
      rcases List.mem_cons.mp hm with rfl | hm
      · rw [hp, hh]
      · exact ih hrest m hm

theorem Chained.first {f : H → B → H} {p : H} {ls : List (Link H B)} (h : Chained f p ls)
    {l : Link H B} (hl : ls[0]? = some l) : l.prev = p := by
  cases ls with
  | nil => cases hl
  | cons k ls =>
      cases hl
      exact h.1

/-- Every later link refers to the hash of the link before it. -/
theorem Chained.next {f : H → B → H} {p : H} {ls : List (Link H B)} (h : Chained f p ls)
    {i : Nat} {l m : Link H B} (hl : ls[i]? = some l) (hm : ls[i + 1]? = some m) :
    m.prev = l.hash := by
  induction ls generalizing p i with
  | nil => cases hl
  | cons k ls ih =>
      cases i with
      | zero =>
          cases hl
          exact h.2.2.first (by simpa using hm)
      | succ i => exact ih h.2.2 (by simpa using hl) (by simpa using hm)

/-- No two of these records have the same hash. -/
def CollisionFree (f : H → B → H) (ls : List (Link H B)) : Prop :=
  ∀ a ∈ ls, ∀ b ∈ ls, f a.prev a.body = f b.prev b.body → a.prev = b.prev ∧ a.body = b.body

theorem CollisionFree.mono {f : H → B → H} {ls ms : List (Link H B)} (h : CollisionFree f ms)
    (hs : ls ⊆ ms) : CollisionFree f ls :=
  fun a ha b hb => h a (hs ha) b (hs hb)

/-- The head of a chain commits to every body in it. The induction is from the
tails: equal last hashes give equal last bodies and equal hashes before them,
and a chain that is exhausted first would have to hash to its own origin. -/
theorem commit {f : H → B → H} {g : H} {as bs : List (Link H B)}
    (ha : Chained f g as) (hb : Chained f g bs) (hf : CollisionFree f (as ++ bs))
    (hg : ∀ l ∈ as ++ bs, f l.prev l.body ≠ g) (hh : head g as = head g bs) :
    as.map Link.body = bs.map Link.body := by
  induction as using List.reverseRecOn generalizing bs with
  | nil =>
      rcases List.eq_nil_or_concat bs with rfl | ⟨bs, b, rfl⟩
      · rfl
      · rw [List.concat_eq_append] at *
        have hbh := hb.hash_eq b (by simp)
        rw [head_snoc, hbh] at hh
        exact absurd hh.symm (hg b (by simp))
  | append_singleton as a ih =>
      have hah := ha.hash_eq a (by simp)
      rcases List.eq_nil_or_concat bs with rfl | ⟨bs, b, rfl⟩
      · rw [head_snoc, hah] at hh
        exact absurd hh (hg a (by simp))
      · rw [List.concat_eq_append] at *
        have hbh := hb.hash_eq b (by simp)
        rw [head_snoc, head_snoc, hah, hbh] at hh
        obtain ⟨hprev, hbody⟩ := hf a (by simp) b (by simp) hh
        obtain ⟨ha', hap, -⟩ := chained_snoc.mp ha
        obtain ⟨hb', hbp, -⟩ := chained_snoc.mp hb
        have hsub : as ++ bs ⊆ as ++ [a] ++ (bs ++ [b]) := by
          intro l hl
          simp only [List.mem_append] at hl ⊢
          tauto
        have hrest := ih ha' hb' (hf.mono hsub) (fun l hl => hg l (hsub hl))
          (by rw [← hap, ← hbp, hprev])
        simp [hrest, hbody]

section Rows
variable {ρ : Type} {link : ρ → Link H B}

/-- Inside one chain the hash before a row determines where the row stands. -/
theorem split_unique {f : H → B → H} {g : H} {ls as bs cs ds : List ρ}
    (h : Chained f g (ls.map link)) (hf : CollisionFree f (ls.map link))
    (hg : ∀ l ∈ ls.map link, f l.prev l.body ≠ g) (hac : ls = as ++ cs) (hbd : ls = bs ++ ds)
    (hh : head g (as.map link) = head g (bs.map link)) : as = bs ∧ cs = ds := by
  have hpa : as.map link <+: ls.map link := by
    rw [hac, List.map_append]
    exact List.prefix_append _ _
  have hpb : bs.map link <+: ls.map link := by
    rw [hbd, List.map_append]
    exact List.prefix_append _ _
  have hsub : as.map link ++ bs.map link ⊆ ls.map link :=
    List.append_subset.mpr ⟨hpa.subset, hpb.subset⟩
  have hbody := commit (h.of_initial hpa) (h.of_initial hpb) (hf.mono hsub)
    (fun l hl => hg l (hsub hl)) hh
  have hlen : as.length = bs.length := by simpa using congrArg List.length hbody
  exact List.append_inj (hac.symm.trans hbd) hlen

/-- Rows whose stored hashes were taken over from rows of a chain, in any
selection and order, are again a chain only when they are the beginning of it,
with the bodies it had. -/
theorem survivors_initial {f : H → B → H} {g : H} {ls os ts : List ρ}
    (h : Chained f g (ls.map link)) (hf : CollisionFree f ((ls ++ ts).map link))
    (hg : ∀ l ∈ ls.map link, f l.prev l.body ≠ g) (hos : os ⊆ ls)
    (hst : List.Forall₂ (fun o t => (link t).prev = (link o).prev ∧ (link t).hash = (link o).hash)
      os ts)
    (ht : Chained f g (ts.map link)) :
    os <+: ls ∧ List.Forall₂ (fun o t => (link t).body = (link o).body) os ts := by
  -- invariant: the part of the chain already matched, and what is left of it
  suffices key : ∀ done rest : List ρ, ls = done ++ rest →
      Chained f (head g (done.map link)) (ts.map link) →
      os <+: rest ∧ List.Forall₂ (fun o t => (link t).body = (link o).body) os ts from
    key [] ls rfl ht
  clear ht
  induction hst with
  | nil => exact fun _ _ _ _ => ⟨List.nil_prefix, List.Forall₂.nil⟩
  | @cons o t os ts hot hst ih =>
      intro done rest hls hts
      obtain ⟨hprev, hhash, hrest⟩ := hts
      obtain ⟨before, after, hsplit⟩ := List.append_of_mem (hos List.mem_cons_self)
      have hchain : (link o).prev = head g (before.map link) := by
        rw [hsplit, List.map_append] at h
        exact (chained_append.mp h).2.1
      have hfl : CollisionFree f (ls.map link) :=
        hf.mono (List.map_subset _ (List.subset_append_left _ _))
      have hpos : head g (before.map link) = head g (done.map link) := by
        rw [← hprev, hot.1]
        exact hchain.symm
      obtain ⟨-, rfl⟩ := split_unique h hfl hg hsplit hls hpos
      have hol : o ∈ ls := hos List.mem_cons_self
      have hoh : (link o).hash = f (link o).prev (link o).body :=
        h.hash_eq _ (List.mem_map_of_mem hol)
      have hth : (link t).hash = f (link t).prev (link t).body := by rw [hhash, hprev]
      have hbody : (link t).body = (link o).body :=
        (hf (link t) (List.mem_map_of_mem (by simp)) (link o) (List.mem_map_of_mem (by simp [hol]))
          (by rw [← hth, ← hoh, hot.2])).2
      have hnext : head g ((done ++ [o]).map link) = (link t).hash := by
        rw [List.map_append, List.map_singleton, head_snoc, hot.2]
      have hih := ih (hf.mono (List.map_subset _ (List.append_subset.mpr
          ⟨List.subset_append_left _ _, fun x hx => List.mem_append_right _
            (List.mem_cons_of_mem _ hx)⟩)))
        (fun l hl => hos (List.mem_cons_of_mem _ hl))
        (done ++ [o]) after (by rw [hls, List.append_assoc]; rfl) (by rw [hnext]; exact hrest)
      exact ⟨List.cons_prefix_cons.mpr ⟨rfl, hih.1⟩, List.Forall₂.cons hbody hih.2⟩

end Rows
end HashChain
