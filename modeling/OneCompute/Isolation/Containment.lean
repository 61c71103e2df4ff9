import OneCompute.Lib.Lists
import OneCompute.Isolation.MxcPolicy

/-!
Whether the payload stays in the work directory and the job out of the payload. The
text of a directory is compared without the backslashes at its end, which on this
platform belong to its name.
-/

namespace OneCompute.Isolation
open PosixPath

/-! ## Directories mistaken for another -/

/-- The other directory that is left of the path without separators and backslashes at
its end. -/
def Alias (d e : FullPath) : Prop := e ≠ d ∧ e.body = trimmed d

/-- What `_is_same_or_child` takes for the directory or a path below it. -/
def Inside (p d : FullPath) : Prop := p.Within d ∨ ∃ e, Alias d e ∧ p.Within e

section Alias
variable {p d e q w : FullPath}

theorem trimmed_eq (d : FullPath) : trimmed d = d.body.rdropWhile isSeparator := by
  unfold trimmed FullPath.text
  by_cases h : d.names = []
  · rw [if_pos h]
    simp [FullPath.body, h, isSeparator, List.rdropWhile]
  · rw [if_neg h]

theorem trimmed_start (d : FullPath) : trimmed d <+: d.body := by
  rw [trimmed_eq]
  exact List.rdropWhile_prefix _ _

theorem trimmed_ne_slash (d : FullPath) {x : List Char} : trimmed d ≠ x ++ ['/'] := by
  intro h
  have hne : trimmed d ≠ [] := by simp [h]
  have hlast := List.rdropWhile_last_not isSeparator d.text hne
  have hslash : (trimmed d).getLast hne = '/' := by simp [h]
  exact hlast (by rw [show (List.rdropWhile isSeparator d.text).getLast hne = '/' from hslash]; rfl)

/-- A directory above the one that is meant is not reached by cutting off its text. -/
theorem Alias.not_within (h : Alias d e) : ¬ e.Within d := by
  intro hed
  have hprefix : e.body <+: d.body := by
    rw [h.2]
    exact trimmed_start d
  have hbody : e.body = d.body :=
    hprefix.eq_of_length (Nat.le_antisymm hprefix.length_le hed.body_start.length_le)
  exact h.1 (FullPath.body_injective hbody)

theorem trimmed_within (h : q.Within w) : trimmed w <+: trimmed q := by
  obtain ⟨rest, hrest⟩ := h.body_start
  rw [trimmed_eq, trimmed_eq, ← hrest]
  exact Lists.rdropWhile_append_start isSeparator w.body rest

/-- Below the directory, nothing shorter is left than for the directory. -/
theorem Alias.eq_of_within (hq : q.Within w) (he : Alias w e) (hd : Alias q d)
    (hed : e.Within d) : e = d := by
  have hbody : e.body <+: d.body := by
    rw [he.2, hd.2]
    exact trimmed_within hq
  exact FullPath.body_injective
    (hbody.eq_of_length (Nat.le_antisymm hbody.length_le hed.body_start.length_le))

/-- What the text test accepts lies below what is left of the directory. -/
theorem exists_left (h : p.text = trimmed d ∨ trimmed d ++ ['/'] <+: p.text) :
    ∃ e : FullPath, e.body = trimmed d ∧ p.Within e := by
  by_cases hroot : p.names = []
  · have htext : p.text = ['/'] := if_pos hroot
    rw [htext] at h
    cases h with
    | inl heq => exact absurd heq.symm (trimmed_ne_slash d (x := []))
    | inr hstart =>
        have hlength := hstart.length_le
        rw [List.length_append] at hlength
        have hempty : trimmed d = [] := by simpa using hlength
        exact ⟨FullPath.root, hempty.symm, p.within_root⟩
  · have htext : p.text = p.body := if_neg hroot
    rw [htext] at h
    cases h with
    | inl heq => exact ⟨p, heq, p.within_refl⟩
    | inr hstart =>
        obtain ⟨rest, hrest⟩ := hstart
        rw [List.append_assoc] at hrest
        obtain ⟨above, habove, hbody⟩ := FullPath.body_split hrest.symm
        exact ⟨⟨above, fun name hname => p.noUp name (habove.subset hname)⟩, hbody.symm, habove⟩

theorem text_left {e : FullPath} (he : e.body = trimmed d) (hp : p.Within e) :
    p.text = trimmed d ∨ trimmed d ++ ['/'] <+: p.text := by
  obtain ⟨rest, hrest⟩ := hp
  unfold FullPath.text
  rw [← he]
  cases rest with
  | nil =>
      rw [List.append_nil] at hrest
      have heq : e = p := FullPath.ext hrest
      rw [heq]
      split
      next hroot =>
        refine .inr ?_
        simp [FullPath.body, hroot]
      next => exact .inl rfl
  | cons name rest =>
      have hne : p.names ≠ [] := by simp [← hrest]
      have hbody : p.body = e.body ++ ['/'] ++ (name.1 ++ rest.flatMap fun n => '/' :: n.1) := by
        simp [FullPath.body, ← hrest]
      rw [if_neg hne, hbody]
      exact .inr (List.prefix_append _ _)

theorem isSameOrChild_iff : isSameOrChild p d = true ↔ Inside p d := by
  unfold isSameOrChild Inside
  by_cases hwithin : p.Within d
  · simp [hwithin]
  · simp only [hwithin, if_false, Bool.or_eq_true, beq_iff_eq, List.isPrefixOf_iff_prefix,
      false_or]
    constructor
    · intro h
      obtain ⟨e, he, hp⟩ := exists_left h
      refine ⟨e, ⟨?_, he⟩, hp⟩
      rintro rfl
      exact hwithin hp
    · rintro ⟨e, he, hp⟩
      exact text_left he.2 hp

end Alias

/-! ## Payloads that are kept apart -/

/-- Backslashes at the end of names do no harm: the payload is the work directory, or
what the work directory is mistaken for the payload is mistaken for too, and that is
neither above nor below the work directory. -/
def Quiet (w q : FullPath) : Prop :=
  q = w ∨ (∀ e, Alias w e → Alias q e) ∧ ∀ e, Alias q e → ¬ e.Within w ∧ ¬ w.Within e

/-- Paths that do not end in a backslash are mistaken for no other. -/
theorem quiet_of_whole {w q : FullPath} (hw : trimmed w = w.body) (hq : trimmed q = q.body) :
    Quiet w q := by
  have hnone : ∀ d : FullPath, trimmed d = d.body → ∀ e, ¬ Alias d e := by
    intro d hd e he
    exact he.1 (FullPath.body_injective (he.2.trans hd))
  exact .inr ⟨fun e he => absurd he (hnone w hw e), fun e he => absurd he (hnone q hq e)⟩

theorem quiet_iff {w q : FullPath} (hq : q.Within w) :
    (∀ r : FullPath, (Inside r w ∧ ¬ Inside r q) ↔ (r.Within w ∧ ¬ r.Within q)) ↔ Quiet w q := by
  constructor
  · intro h
    by_cases heq : q = w
    · exact .inl heq
    refine .inr ⟨?_, ?_⟩
    · intro e he
      have hin : Inside e q := by
        by_contra hout
        exact he.not_within ((h e).mp ⟨.inr ⟨e, he, e.within_refl⟩, hout⟩).1
      cases hin with
      | inl hwithin => exact absurd (hwithin.trans hq) he.not_within
      | inr halias =>
          obtain ⟨d, hd, hed⟩ := halias
          rw [he.eq_of_within hq hd hed]
          exact hd
    · intro e he
      have hin : Inside e q := .inr ⟨e, he, e.within_refl⟩
      refine ⟨?_, ?_⟩
      · intro hew
        exact ((h e).mpr ⟨hew, he.not_within⟩).2 hin
      · intro hwe
        have hapart : ¬ w.Within q := fun hwq => heq (hq.antisymm hwq)
        exact ((h w).mpr ⟨w.within_refl, hapart⟩).2 (.inr ⟨e, he, hwe⟩)
  · rintro (rfl | ⟨hshared, hapart⟩) r
    · exact iff_of_false (fun h => h.2 h.1) (fun h => h.2 h.1)
    · constructor
      · rintro ⟨hin, hout⟩
        refine ⟨?_, fun hrq => hout (.inl hrq)⟩
        cases hin with
        | inl hwithin => exact hwithin
        | inr halias =>
            obtain ⟨e, he, hre⟩ := halias
            exact absurd (.inr ⟨e, hshared e he, hre⟩) hout
      · rintro ⟨hwithin, hout⟩
        refine ⟨.inl hwithin, ?_⟩
        rintro (hrq | ⟨e, he, hre⟩)
        · exact hout hrq
        · cases hwithin.comparable hre with
          | inl hwe => exact (hapart e he).2 hwe
          | inr hew => exact (hapart e he).1 hew

/-! ## The policy that was built -/

section Built
variable (S : Surroundings)

theorem resolvePath_absolute {path : PurePath} (h : path.absolute = true) :
    resolvePath S path = some (FullPath.root.walk path.parts) := by
  unfold resolvePath expandHome normalise
  rw [h]
  simp [h]

theorem resolvePath_pure (d : FullPath) : resolvePath S d.pure = some d :=
  (resolvePath_absolute S rfl).trans (congrArg some (FullPath.walk_root d))

theorem resolvePath_text (d : FullPath) : resolvePath S (parse d.text) = some d := by
  rw [FullPath.parse_text]
  exact resolvePath_pure S d

/-- The directory that is asked for, wherever it is. -/
def requestedDir (work : FullPath) (payloadSubdir : String) : FullPath :=
  (if (requestedPath payloadSubdir).absolute then FullPath.root else work).walk
    (requestedPath payloadSubdir).parts

/-- The last name that is asked for. -/
def fallbackName (payloadSubdir : String) : Part := (requestedPath payloadSubdir).name.getD src

theorem resolvePath_join (work : FullPath) (path : PurePath) :
    resolvePath S (work.pure.join path) =
      some ((if path.absolute then FullPath.root else work).walk path.parts) := by
  unfold PurePath.join
  by_cases habsolute : path.absolute = true
  · rw [if_pos habsolute, if_pos habsolute]
    exact resolvePath_absolute S habsolute
  · rw [if_neg habsolute, if_neg habsolute, resolvePath_absolute S rfl]
    exact congrArg some (FullPath.walk_append _ _ |>.trans (by rw [FullPath.pure, FullPath.walk_root]))

theorem payloadPath_eq (work : FullPath) (payloadSubdir : String) :
    payloadPath S work payloadSubdir =
      some (if isSameOrChild (requestedDir work payloadSubdir) work then
        requestedDir work payloadSubdir else work.enter (fallbackName payloadSubdir)) := by
  unfold payloadPath
  dsimp only
  rw [resolvePath_join, resolvePath_join]
  change (if isSameOrChild (requestedDir work payloadSubdir) work then _ else _) = _
  split <;> rfl

/-- The filesystem rules of a policy that was built. -/
structure Built (work payload : FullPath) (policy : List (String × Json)) : Prop where
  rules : ∃ locations, Json.lookup policy "filesystem" =
    some (filesystemJson work payload locations)

theorem buildPolicy_built {workDir payloadSubdir : String} {limits : Limits}
    {allowNetwork : Option Bool} {jobId : Option String} {policy : List (String × Json)}
    (h : buildPolicy S workDir limits payloadSubdir allowNetwork jobId = some policy) :
    ∃ work payload, resolvePath S (parse workDir.toList) = some work ∧
      payloadPath S work payloadSubdir = some payload ∧ Built work payload policy := by
  obtain ⟨work, hwork, h⟩ := Option.bind_eq_some_iff.mp h
  obtain ⟨payload, hpayload, h⟩ := Option.bind_eq_some_iff.mp h
  obtain ⟨locations, -, h⟩ := Option.bind_eq_some_iff.mp h
  cases h
  exact ⟨work, payload, hwork, hpayload, ⟨locations, rfl⟩⟩

theorem rulePath_accessRule (d : FullPath) (access : List String) (allowDelete allowRename : Bool) :
    rulePath (accessRule d access allowDelete allowRename) = some d.text := by
  change some (String.ofList d.text).toList = _
  rw [String.toList_ofList]

theorem matchedRules_cons (r d : FullPath) (access : List String) (allowDelete allowRename : Bool)
    (rules : List Json) :
    matchedRules S r (.obj (accessRule d access allowDelete allowRename) :: rules) =
      (matchedRules S r rules).map fun matched =>
        if isSameOrChild r d then
          (d.text.length, accessRule d access allowDelete allowRename) :: matched
        else matched := by
  simp only [matchedRules, rulePath_accessRule, resolvePath_text]
  cases matchedRules S r rules <;> rfl

/-- The rule of the payload is the better one of the two, at equal lengths the first. -/
theorem rulesPermit_two {w q : FullPath} (hq : q.Within w) (r : FullPath) :
    rulesPermit S r [.obj (accessRule q ["read"] false false),
      .obj (accessRule w ["read", "write"] true true)] =
      some (isSameOrChild r w && !isSameOrChild r q) := by
  have hlength : ¬ q.text.length < w.text.length := Nat.not_lt.mpr hq.text_length_le
  unfold rulesPermit
  rw [matchedRules_cons, matchedRules_cons]
  cases hw : isSameOrChild r w <;> cases hp : isSameOrChild r q
  · rfl
  · rfl
  · rfl
  · simp only [matchedRules, Option.map_some, if_true, Option.bind_eq_bind, Option.bind_some,
      bestRule, List.foldl_cons, List.foldl_nil, if_neg hlength]
    rfl

theorem permitsWrite_built {w q : FullPath} {policy : List (String × Json)}
    (h : Built w q policy) (hq : q.Within w) (somePath : String) :
    permitsWrite S policy somePath = (resolvePath S (parse somePath.toList)).map fun r =>
      isSameOrChild r w && !isSameOrChild r q := by
  obtain ⟨locations, hfs⟩ := h.rules
  have hpermits : permitsWrite S policy somePath =
      (resolvePath S (parse somePath.toList)).bind fun r =>
        rulesPermit S r [.obj (accessRule q ["read"] false false),
          .obj (accessRule w ["read", "write"] true true)] := by
    unfold permitsWrite
    rw [hfs]
    rfl
  rw [hpermits]
  cases resolvePath S (parse somePath.toList) with
  | none => rfl
  | some r => exact rulesPermit_two S hq r

theorem policyDir_payload {w q : FullPath} {policy : List (String × Json)}
    (h : Built w q policy) : policyDir S policy "payload_dir" = some q := by
  obtain ⟨locations, hfs⟩ := h.rules
  unfold policyDir
  rw [hfs]
  change resolvePath S (parse (String.ofList q.text).toList) = some q
  rw [String.toList_ofList, resolvePath_text]

/-- The payload lies in the work directory, and exactly what is in the work directory
and not in the payload may be written. -/
def Contained (work : FullPath) (policy : List (String × Json)) : Prop :=
  ∃ payload, policyDir S policy "payload_dir" = some payload ∧ payload.Within work ∧
    ∀ somePath : String, permitsWrite S policy somePath = some true ↔
      ∃ r, resolvePath S (parse somePath.toList) = some r ∧ r.Within work ∧ ¬ r.Within payload

theorem contained_iff {w q : FullPath} {policy : List (String × Json)} (h : Built w q policy) :
    Contained S w policy ↔ q.Within w ∧ Quiet w q := by
  have hpermits (hq : q.Within w) (r : FullPath) :
      (permitsWrite S policy (String.ofList r.text) = some true ↔ Inside r w ∧ ¬ Inside r q) := by
    rw [permitsWrite_built S h hq, String.toList_ofList, resolvePath_text, Option.map_some,
      ← isSameOrChild_iff, ← isSameOrChild_iff]
    simp
  unfold Contained
  rw [policyDir_payload S h]
  constructor
  · rintro ⟨_, ⟨⟩, hq, hall⟩
    refine ⟨hq, (quiet_iff hq).mp ?_⟩
    intro r
    rw [← hpermits hq r, hall, String.toList_ofList, resolvePath_text]
    simp
  · rintro ⟨hq, hquiet⟩
    refine ⟨q, rfl, hq, ?_⟩
    intro somePath
    rw [permitsWrite_built S h hq]
    cases resolvePath S (parse somePath.toList) with
    | none => simp
    | some r =>
        simp only [Option.map_some, Option.some.injEq, Bool.and_eq_true, Bool.not_eq_true',
          exists_eq_left', ← Bool.not_eq_true, isSameOrChild_iff]
        exact (quiet_iff hq).mpr hquiet r

/-- What is asked for lies in the work directory, or its last name is no step up; and
names that end in backslashes do no harm. -/
def Confined (work : FullPath) (payloadSubdir : String) : Prop :=
  if isSameOrChild (requestedDir work payloadSubdir) work then
    (requestedDir work payloadSubdir).Within work ∧ Quiet work (requestedDir work payloadSubdir)
  else
    (fallbackName payloadSubdir).1 ≠ up ∧ Quiet work (work.enter (fallbackName payloadSubdir))

theorem enter_within_iff {work p : FullPath} (houtside : isSameOrChild p work = false)
    (name : Part) : (work.enter name).Within work ↔ name.1 ≠ up := by
  unfold FullPath.enter
  by_cases hup : name.1 = up
  · rw [dif_pos hup]
    refine iff_of_false ?_ (fun h => h hup)
    intro hparent
    have hlength : work.names.length ≤ work.names.dropLast.length := hparent.length_le
    rw [List.length_dropLast] at hlength
    have hroot : work = FullPath.root := by
      refine FullPath.ext (List.eq_nil_of_length_eq_zero ?_)
      omega
    rw [hroot, isSameOrChild, if_pos p.within_root] at houtside
    cases houtside
  · rw [dif_neg hup]
    exact iff_of_true (work.child_within hup) hup

/-- The work directory that is given as an absolute path. -/
def workPath (workDir : String) : FullPath := FullPath.root.walk (parse workDir.toList).parts

theorem payload_contained_iff {workDir payloadSubdir : String} {limits : Limits}
    {allowNetwork : Option Bool} {jobId : Option String} {policy : List (String × Json)}
    (habsolute : (parse workDir.toList).absolute = true)
    (h : buildPolicy S workDir limits payloadSubdir allowNetwork jobId = some policy) :
    Contained S (workPath workDir) policy ↔ Confined (workPath workDir) payloadSubdir := by
  obtain ⟨work, payload, hwork, hpayload, hbuilt⟩ := buildPolicy_built S h
  have hwork : some (workPath workDir) = some work :=
    (resolvePath_absolute S habsolute).symm.trans hwork
  cases hwork
  rw [payloadPath_eq] at hpayload
  cases hpayload
  rw [contained_iff S hbuilt]
  unfold Confined
  cases hinside : isSameOrChild (requestedDir (workPath workDir) payloadSubdir) (workPath workDir)
  · simp only [Bool.false_eq_true, if_false, enter_within_iff hinside]
  · simp only [if_true]

end Built

/-! ## A step up -/

/-- Every user has the home directory of the administrator. -/
def plainSurroundings : Surroundings where
  cwd := FullPath.root
  expandUser _ := ['/', 'r', 'o', 'o', 't']
  stableJobId _ := "onecompute-job-0"

theorem payload_contained_src : ∃ policy,
    buildPolicy plainSurroundings "/work" {} "app/src" none none = some policy ∧
      Contained plainSurroundings (workPath "/work") policy := by
  have hbuilt : (buildPolicy plainSurroundings "/work" {} "app/src" none none).isSome = true := by
    decide
  have hconfined : Confined (workPath "/work") "app/src" := by
    rw [Confined, if_pos (by decide)]
    exact ⟨by decide, quiet_of_whole (by decide) (by decide)⟩
  obtain ⟨policy, h⟩ := Option.isSome_iff_exists.mp hbuilt
  exact ⟨policy, h, (payload_contained_iff plainSurroundings (by decide) h).mpr hconfined⟩

/-- The fallback for a name that escapes is its last part, which escapes too when it is a
step up. -/
theorem payload_escapes : ∃ policy,
    buildPolicy plainSurroundings "/work" {} ".." none none = some policy ∧
      policyDir plainSurroundings policy "payload_dir" = some FullPath.root ∧
        ¬ Contained plainSurroundings (workPath "/work") policy := by
  refine ⟨_, rfl, ?_⟩
  have hroot : policyDir plainSurroundings
      ((buildPolicy plainSurroundings "/work" {} ".." none none).getD []) "payload_dir" =
        some FullPath.root := by
    decide
  refine ⟨hroot, ?_⟩
  rintro ⟨payload, hpayload, hwithin, -⟩
  have heq : some FullPath.root = some payload := hroot.symm.trans hpayload
  cases heq
  exact absurd hwithin (by decide)

end OneCompute.Isolation
