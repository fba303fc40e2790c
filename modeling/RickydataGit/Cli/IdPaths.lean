/-
  The paths that are made from ids.

  An attempt or a patch names its work tree, its review directory and its temporary files
  by the first twelve bytes of what stands behind `sha256:` in its id. Nothing else of an
  id is looked at: the bytes may be a path of several parts, they may end inside a
  character, and ids that differ later share them.

  `id_paths_iff`: exactly when two ids have paths that stay where they belong and apart.
-/
import RickydataGit.Cli.Outside
import RickydataGit.Core.NumberText

namespace RickydataGit.Cli

open RickydataGit.Lib RickydataGit.Core RickydataGit.Git

/-! ## The parts of a path -/

/-- The parts between the separators. Empty ones and dots stand for nothing. -/
def pathParts (path : List Char) : List (List Char) :=
  (path.splitOn '/').filter fun part => part ≠ [] && part ≠ ['.']

/-- `Path::components`, where a leading dot is left out too. -/
def components (path : String) : List (List Char) :=
  (if path.toList.head? = some '/' then [['/']] else []) ++ pathParts path.toList

/-- A path that has one more part than a directory, which is a name. -/
def DirectChild (dir path : String) : Prop :=
  ∃ name : List Char, '/' ∉ name ∧ name ≠ ['.', '.'] ∧
    components path = components dir ++ [name]

theorem pathParts_append (a b : List Char) :
    pathParts (a ++ '/' :: b) = pathParts a ++ pathParts b := by
  rw [pathParts, List.splitOn_append_cons_self, List.filter_append]
  rfl

/-- A name is one part. -/
theorem pathParts_name {name : List Char} (h : '/' ∉ name) (hne : name ≠ []) (hdot : name ≠ ['.']) :
    pathParts name = [name] := by
  rw [pathParts, List.splitOn_eq_singleton h, List.filter_cons_of_pos (by simp [hne, hdot]),
    List.filter_nil]

theorem pathParts_slash (path : List Char) : pathParts (path ++ ['/']) = pathParts path := by
  rw [pathParts_append]
  exact List.append_nil _

/-- A path keeps having parts when characters come in front. -/
theorem pathParts_cons_ne_nil {path : List Char} (c : Char) (h : pathParts path ≠ []) :
    pathParts (c :: path) ≠ [] := by
  obtain ⟨part, hpart⟩ := List.exists_mem_of_ne_nil _ h
  obtain ⟨hmem, hgood⟩ := List.mem_filter.mp hpart
  unfold pathParts
  rw [List.splitOn_cons_eq_if_modifyHead]
  split
  · exact List.ne_nil_of_mem (List.mem_filter.mpr ⟨List.mem_cons_of_mem _ hmem, hgood⟩)
  · rcases hsplit : path.splitOn '/' with _ | ⟨first, rest⟩
    · exact absurd hsplit (List.splitOn_ne_nil _ _)
    · rw [hsplit] at hmem
      rw [List.modifyHead_cons]
      rcases List.mem_cons.mp hmem with rfl | hmem
      · refine List.ne_nil_of_mem (List.mem_filter.mpr ⟨List.mem_cons_self, ?_⟩)
        simp only [ne_eq, reduceCtorEq, not_false_eq_true, decide_true, Bool.true_and,
          decide_eq_true_eq, List.cons.injEq, not_and]
        rintro - rfl
        simp at hgood
      · exact List.ne_nil_of_mem (List.mem_filter.mpr ⟨List.mem_cons_of_mem _ hmem, hgood⟩)

theorem pathParts_append_ne_nil (front : List Char) {path : List Char} (h : pathParts path ≠ []) :
    pathParts (front ++ path) ≠ [] := by
  induction front with
  | nil => exact h
  | cons c front ih => exact pathParts_cons_ne_nil c ih

/-- A first character that is no dot makes a part. -/
theorem pathParts_head_ne_nil {c : Char} (path : List Char) (hslash : c ≠ '/') (hdot : c ≠ '.') :
    pathParts (c :: path) ≠ [] := by
  rcases hsplit : path.splitOn '/' with _ | ⟨first, rest⟩
  · exact absurd hsplit (List.splitOn_ne_nil _ _)
  · unfold pathParts
    rw [List.splitOn_cons_eq_if_modifyHead, if_neg (by simpa using hslash), hsplit,
      List.modifyHead_cons]
    exact List.ne_nil_of_mem (List.mem_filter.mpr ⟨List.mem_cons_self, by simp [hdot]⟩)

theorem toList_slash : "/".toList = ['/'] := rfl

/-- A relative path is a continuation of the base. -/
theorem components_joinPath {base path : String} (h : path.toList.head? ≠ some '/') :
    components (joinPath base path) = components base ++ pathParts path.toList := by
  unfold joinPath
  by_cases hbase : base = ""
  · rw [if_pos (.inr hbase), hbase, components, if_neg h]
    rfl
  · have hne : base.toList ≠ [] := fun hnil => hbase (String.toList_inj.mp hnil)
    rw [if_neg (not_or.mpr ⟨h, hbase⟩)]
    have hhead : ∀ rest : List Char, (base.toList ++ rest).head? = base.toList.head? := fun rest => by
      rcases hlist : base.toList with _ | ⟨c, cs⟩
      · exact absurd hlist hne
      · rfl
    split
    · next hlast =>
        obtain ⟨front, hfront⟩ := List.getLast?_eq_some_iff.mp hlast
        rw [components, components, String.toList_append, hhead, List.append_assoc,
          List.append_cancel_left_eq, hfront, List.append_assoc, List.singleton_append, pathParts_append, pathParts_slash]
    · rw [components, components, String.toList_append, String.toList_append, toList_slash,
        List.append_assoc, hhead, List.append_assoc, List.append_cancel_left_eq,
        List.singleton_append, pathParts_append]

/-- A name in a directory. -/
theorem directChild_joinPath {name : String} (dir : String) (h : '/' ∉ name.toList)
    (hne : name.toList ≠ []) (hdot : name.toList ≠ ['.']) (hup : name.toList ≠ ['.', '.']) :
    DirectChild dir (joinPath dir name) := by
  have hrel : name.toList.head? ≠ some '/' := fun hhead => h (List.mem_of_mem_head? hhead)
  exact ⟨name.toList, h, hup, by rw [components_joinPath hrel, pathParts_name h hne hdot]⟩

/-- With a separator between them, two parts make no child. -/
theorem not_directChild_joinPath {dir path : String} {a b : List Char}
    (hrel : path.toList.head? ≠ some '/') (hpath : path.toList = a ++ '/' :: b)
    (ha : pathParts a ≠ []) (hb : pathParts b ≠ []) : ¬ DirectChild dir (joinPath dir path) := by
  rintro ⟨name, -, -, hparts⟩
  rw [components_joinPath hrel, List.append_cancel_left_eq, hpath, pathParts_append] at hparts
  have hlength := congrArg List.length hparts
  have hpos := List.length_pos_iff.mpr ha
  have hpos' := List.length_pos_iff.mpr hb
  rw [List.length_append, List.length_singleton] at hlength
  omega

/-! ## The paths -/

section Paths

variable (site : Site)

def attemptWorktreePath (attemptId : String) : Except CliError String := do
  let gitDir ← foundGitDir site
  let digits ← idDigits "attempt" attemptId
  return joinPath (joinPath (joinPath gitDir "rickydata") "worktrees") digits

/-- `TempGitIndex::new`. -/
def tempGitIndex (attemptId : String) : PatchCommand String := do
  let gitDir ← foundGitDir site
  let hex ← idHex "attempt" attemptId
  let tempDir := joinPath (joinPath gitDir "rickydata") "tmp"
  createDirAll tempDir
  let digits ← firstDigits hex
  let nowMs ← site.tempFileMs
  return joinPath tempDir s!"change-{digits}-{nowMs.toNat}.index"

end Paths

/-- The file system and the clock fail, at worst. -/
structure Calm (site : Site) (answers : Answers) : Prop where
  gitDir : site.gitDir ≠ .error .panic
  clock : site.tempFileMs ≠ .error .panic
  createDirAll : ∀ log path, answers log (.createDirAll path) ≠ .error .panic
  writeFile : ∀ log path bytes, answers log (.writeFile path bytes) ≠ .error .panic

/-- No panic, and a path that is a child of the directory of its own. -/
def StaysIn (site : Site) (directory : String) (result : Except CliError String) : Prop :=
  result ≠ .error .panic ∧ ∀ path, result = .ok path → ∃ gitDir, foundGitDir site = .ok gitDir ∧
    DirectChild (joinPath (joinPath gitDir "rickydata") directory) path

/-- All four kinds of paths stay where they belong. -/
structure PathsStay (id : String) : Prop where
  worktree : ∀ site answers, Calm site answers →
    StaysIn site "worktrees" (attemptWorktreePath site id)
  review : ∀ site answers, Calm site answers →
    StaysIn site "reviews" (reviewCheckoutPath site id none)
  index : ∀ site answers, Calm site answers → ∀ w, StaysIn site "tmp"
    ((tempGitIndex site id).run (Prog.execPlus exec (outsideExec answers)) w).1
  patchFile : ∀ site answers, Calm site answers → ∀ bytes w, StaysIn site "tmp"
    ((tempPatchFile site id bytes).run (Prog.execPlus exec (outsideExec answers)) w).1

/-- Two ids share no work tree and no review directory. -/
structure PathsApart (a b : String) : Prop where
  worktrees : ∀ site p q, attemptWorktreePath site a = .ok p → attemptWorktreePath site b = .ok q →
    components p ≠ components q
  reviews : ∀ site p q, reviewCheckoutPath site a none = .ok p →
    reviewCheckoutPath site b none = .ok q → components p ≠ components q

/-! ## Digits -/

/-- `sha256:` and twelve bytes at least. -/
def Accepted (id : String) (hex : List Char) : Prop :=
  stripSha256 id = some hex ∧ 12 ≤ (String.ofList hex).utf8ByteSize

/-- If the id is accepted, its first twelve bytes are whole characters and no separator. -/
def PlainDigits (id : String) : Prop :=
  ∀ hex, Accepted id hex → ∃ digits, takeBytes 12 hex = some digits ∧ '/' ∉ digits

/-- If both ids are accepted, they differ in their first twelve bytes. -/
def DigitsDiffer (a b : String) : Prop :=
  ∀ hex hex', Accepted a hex → Accepted b hex' → takeBytes 12 hex ≠ takeBytes 12 hex'

theorem idHex_ok_iff {name id : String} {hex : List Char} :
    idHex name id = .ok hex ↔ Accepted id hex := by
  unfold idHex Accepted
  rcases stripSha256 id with _ | hex'
  · exact iff_of_false (fun h => nomatch h) fun h => nomatch h.1
  · dsimp only
    split
    · next hshort =>
        refine iff_of_false (fun h => nomatch h) ?_
        rintro ⟨hhex, hlong⟩
        obtain rfl := Option.some.inj hhex
        omega
    · next hlong =>
        constructor
        · intro h
          obtain rfl := Except.ok.inj h
          exact ⟨rfl, by omega⟩
        · rintro ⟨hhex, -⟩
          rw [Option.some.inj hhex]

theorem idHex_ne_panic (name id : String) : idHex name id ≠ .error .panic := by
  unfold idHex
  split
  · nofun
  · split <;> nofun

theorem size_takeBytes {n : Nat} {cs digits : List Char} (h : takeBytes n cs = some digits) :
    (digits.map Char.utf8Size).sum = n := by
  induction cs generalizing n digits with
  | nil =>
    unfold takeBytes at h
    split at h
    · next hn =>
        cases h
        exact hn.symm
    · cases h
  | cons c cs ih =>
    unfold takeBytes at h
    split at h
    · next hn =>
        cases h
        exact hn.symm
    · split at h
      · next hle =>
          obtain ⟨rest, hrest, rfl⟩ := Option.map_eq_some_iff.mp h
          rw [List.map_cons, List.sum_cons, ih hrest]
          omega
      · cases h

/-- Twelve bytes are no short name. -/
theorem digits_ne {hex digits : List Char} (h : takeBytes 12 hex = some digits) :
    digits ≠ [] ∧ digits ≠ ['.'] ∧ digits ≠ ['.', '.'] := by
  have hsize := size_takeBytes h
  refine ⟨?_, ?_, ?_⟩
  all_goals
    rintro rfl
    revert hsize
    decide

/-! ## Plain digits -/

section Plain

variable {site : Site} {answers : Answers} {directory name id : String}

theorem staysIn_error {e : CliError} (h : e ≠ .panic) : StaysIn site directory (.error e) := by
  refine ⟨fun he => ?_, fun path he => nomatch he⟩
  injection he with he
  exact h he

theorem foundGitDir_ne_panic (h : site.gitDir ≠ .error .panic) : foundGitDir site ≠ .error .panic := by
  unfold foundGitDir
  rcases hgit : site.gitDir with e | _ | gitDir
  · intro he
    exact h (hgit.trans (congrArg Except.error (Except.error.inj he)))
  · nofun
  · nofun

/-- The digits of a plain id. -/
theorem idDigits_plain (h : PlainDigits id) :
    idDigits name id ≠ .error .panic ∧ ∀ digits, idDigits name id = .ok digits →
      '/' ∉ digits.toList ∧ digits.toList ≠ [] ∧ digits.toList ≠ ['.'] ∧
        digits.toList ≠ ['.', '.'] := by
  unfold idDigits
  rcases hhex : idHex name id with e | hex
  · refine ⟨fun he => idHex_ne_panic name id ?_, nofun⟩
    rw [hhex, Except.error.inj he]
  · obtain ⟨digits, hdigits, hslash⟩ := h hex (idHex_ok_iff.mp hhex)
    have hfirst : firstDigits hex = .ok (.ofList digits) := by
      rw [firstDigits, hdigits]
    refine ⟨fun he => ?_, fun digits' hd => ?_⟩
    · cases hfirst.symm.trans he
    obtain rfl := Except.ok.inj (hfirst.symm.trans hd)
    rw [String.toList_ofList]
    exact ⟨hslash, digits_ne hdigits⟩

theorem firstDigits_plain {hex : List Char} (h : PlainDigits id) (hhex : idHex name id = .ok hex) :
    ∃ digits, firstDigits hex = .ok digits ∧ '/' ∉ digits.toList := by
  obtain ⟨digits, hdigits, hslash⟩ := h hex (idHex_ok_iff.mp hhex)
  exact ⟨.ofList digits, by rw [firstDigits, hdigits], by rwa [String.toList_ofList]⟩

/-- A temporary name with plain digits. -/
theorem tempName_child {before digits after : String} {c : Char} {cs : List Char} (dir : String)
    (n : Nat) (hbefore : before.toList = c :: cs) (hdot : c ≠ '.') (hb : '/' ∉ before.toList)
    (hd : '/' ∉ digits.toList) (ha : '/' ∉ after.toList) :
    DirectChild dir (joinPath dir (before ++ digits ++ "-" ++ toString n ++ after)) := by
  have hdash : '/' ∉ "-".toList := by decide
  have hnumber : '/' ∉ (toString n).toList := by
    show '/' ∉ n.repr.toList
    rw [Nat.toList_repr]
    intro hmem
    exact absurd (isDigit_of_mem_toDigits hmem) (by decide)
  have hhead : (before ++ digits ++ "-" ++ toString n ++ after).toList =
      c :: (cs ++ digits.toList ++ "-".toList ++ (toString n).toList ++ after.toList) := by
    simp only [String.toList_append, hbefore, List.cons_append]
  refine directChild_joinPath dir ?_ ?_ ?_ ?_
  · simp only [String.toList_append, List.mem_append, not_or]
    exact ⟨⟨⟨⟨hb, hd⟩, hdash⟩, hnumber⟩, ha⟩
  · rw [hhead]
    nofun
  · rw [hhead]
    exact fun he => hdot (List.cons.inj he).1
  · rw [hhead]
    exact fun he => hdot (List.cons.inj he).1

theorem staysIn_bind_ofExcept {α : Type} {x : Except CliError α} {f : α → PatchCommand String}
    {w : ObjectStore × List OutsideOp} (hx : x ≠ .error .panic)
    (hf : ∀ a, x = .ok a →
      StaysIn site directory ((f a).run (Prog.execPlus exec (outsideExec answers)) w).1) :
    StaysIn site directory
      (((liftM x : PatchCommand α) >>= f).run (Prog.execPlus exec (outsideExec answers)) w).1 := by
  rcases x with e | a
  · exact staysIn_error fun he => hx (congrArg Except.error he)
  · exact hf a rfl

theorem staysIn_ok {gitDir path : String} (hgit : foundGitDir site = .ok gitDir)
    (h : DirectChild (joinPath (joinPath gitDir "rickydata") directory) path) :
    StaysIn site directory (.ok path) := by
  refine ⟨nofun, fun path' he => ⟨gitDir, hgit, ?_⟩⟩
  rwa [← Except.ok.inj he]

theorem staysIn_worktree (h : PlainDigits id) (hgit : site.gitDir ≠ .error .panic) :
    StaysIn site "worktrees" (attemptWorktreePath site id) := by
  have hfound := foundGitDir_ne_panic hgit
  have hplain := @idDigits_plain "attempt" id h
  unfold attemptWorktreePath
  rcases hdir : foundGitDir site with e | gitDir
  · exact staysIn_error fun he => hfound (hdir.trans (congrArg Except.error he))
  · rcases hdigits : idDigits "attempt" id with e | digits
    · exact staysIn_error fun he => hplain.1 (hdigits.trans (congrArg Except.error he))
    · obtain ⟨hslash, hne, hdot, hup⟩ := hplain.2 digits hdigits
      exact staysIn_ok hdir (directChild_joinPath _ hslash hne hdot hup)

theorem staysIn_review (h : PlainDigits id) (hgit : site.gitDir ≠ .error .panic) :
    StaysIn site "reviews" (reviewCheckoutPath site id none) := by
  have hfound := foundGitDir_ne_panic hgit
  have hplain := @idDigits_plain "patch" id h
  unfold reviewCheckoutPath
  rcases hdir : foundGitDir site with e | gitDir
  · exact staysIn_error fun he => hfound (hdir.trans (congrArg Except.error he))
  · rcases hdigits : idDigits "patch" id with e | digits
    · exact staysIn_error fun he => hplain.1 (hdigits.trans (congrArg Except.error he))
    · obtain ⟨hslash, hne, hdot, hup⟩ := hplain.2 digits hdigits
      exact staysIn_ok hdir (directChild_joinPath _ hslash hne hdot hup)

theorem pathsStay_of_plain (h : PlainDigits id) : PathsStay id where
  worktree _ _ hcalm := staysIn_worktree h hcalm.gitDir
  review _ _ hcalm := staysIn_review h hcalm.gitDir
  index site answers hcalm w := by
    refine staysIn_bind_ofExcept (foundGitDir_ne_panic hcalm.gitDir) fun gitDir hdir => ?_
    refine staysIn_bind_ofExcept (idHex_ne_panic _ _) fun hex hhex => ?_
    refine staysIn_bind_ofExcept (hcalm.createDirAll _ _) fun _ _ => ?_
    obtain ⟨digits, hfirst, hslash⟩ := firstDigits_plain h hhex
    rw [hfirst]
    refine staysIn_bind_ofExcept nofun fun digits' hdigits => ?_
    obtain rfl := Except.ok.inj hdigits
    refine staysIn_bind_ofExcept hcalm.clock fun nowMs _ => staysIn_ok hdir ?_
    exact @tempName_child "change-" _ ".index" _ _ _ _ rfl (by decide) (by decide) hslash (by decide)
  patchFile site answers hcalm bytes w := by
    refine staysIn_bind_ofExcept (foundGitDir_ne_panic hcalm.gitDir) fun gitDir hdir => ?_
    refine staysIn_bind_ofExcept (idHex_ne_panic _ _) fun hex hhex => ?_
    refine staysIn_bind_ofExcept (hcalm.createDirAll _ _) fun _ _ => ?_
    obtain ⟨digits, hfirst, hslash⟩ := firstDigits_plain h hhex
    rw [hfirst]
    refine staysIn_bind_ofExcept nofun fun digits' hdigits => ?_
    obtain rfl := Except.ok.inj hdigits
    refine staysIn_bind_ofExcept hcalm.clock fun nowMs _ => ?_
    refine staysIn_bind_ofExcept (hcalm.writeFile _ _ _) fun _ _ => staysIn_ok hdir ?_
    exact @tempName_child "apply-" _ ".patch" _ _ _ _ rfl (by decide) (by decide) hslash (by decide)

/-- A site where everything outside goes well. -/
def quietSite : Site := ⟨"", .ok (some "/.git"), .ok 0⟩

theorem calm_quietSite : Calm quietSite willing where
  gitDir := nofun
  clock := nofun
  createDirAll _ _ := nofun
  writeFile _ _ _ := nofun

/-- What the quiet site makes of an accepted id. -/
theorem attemptWorktreePath_quietSite {hex : List Char} (h : Accepted id hex) :
    attemptWorktreePath quietSite id =
      (firstDigits hex).map (joinPath (joinPath (joinPath "/.git" "rickydata") "worktrees")) := by
  have hdigits : idDigits "attempt" id = firstDigits hex := by
    rw [idDigits, idHex_ok_iff.mpr h]
    rfl
  unfold attemptWorktreePath
  rw [hdigits]
  rcases firstDigits hex with e | digits
  · rfl
  · rfl

theorem tempPatchFile_quietSite {hex digits : List Char} (h : Accepted id hex)
    (hdigits : takeBytes 12 hex = some digits) (bytes : Bytes) (w : ObjectStore × List OutsideOp) :
    ((tempPatchFile quietSite id bytes).run (Prog.execPlus exec (outsideExec willing)) w).1 =
      .ok (joinPath (joinPath (joinPath "/.git" "rickydata") "tmp")
        ("apply-" ++ .ofList digits ++ "-" ++ toString 0 ++ ".patch")) := by
  have hfirst : firstDigits hex = .ok (.ofList digits) := by
    rw [firstDigits, hdigits]
  have hdir : foundGitDir quietSite = .ok "/.git" := rfl
  have hcreate : ∀ path, (createDirAll path).run (Prog.execPlus exec (outsideExec willing)) w =
      (.ok (), w.1, w.2 ++ [.createDirAll path]) := fun _ => rfl
  unfold tempPatchFile
  rw [hdir, idHex_ok_iff.mpr h]
  simp only [Prog.liftM_ok, Prog.ret_bind]
  rw [Prog.run_bind_ok _ (hcreate _), hfirst]
  rfl

/-- Paths that stay are of plain ids. -/
theorem plain_of_pathsStay (h : PathsStay id) : PlainDigits id := by
  intro hex hhex
  rcases hdigits : takeBytes 12 hex with _ | digits
  · refine absurd ?_ (h.worktree quietSite willing calm_quietSite).1
    rw [attemptWorktreePath_quietSite hhex, firstDigits, hdigits]
    rfl
  · refine ⟨digits, rfl, fun hslash => ?_⟩
    obtain ⟨a, b, rfl⟩ := List.append_of_mem hslash
    obtain ⟨-, hpath⟩ := h.patchFile quietSite willing calm_quietSite [] (.empty, [])
    obtain ⟨gitDir, hgit, hchild⟩ := hpath _ (tempPatchFile_quietSite hhex hdigits _ _)
    obtain rfl := Except.ok.inj hgit
    -- the name is cut at the separator, and something stands on both sides
    have hname : ("apply-" ++ String.ofList (a ++ '/' :: b) ++ "-" ++ toString 0 ++
        ".patch").toList = ("apply-".toList ++ a) ++ '/' :: (b ++ "-0.patch".toList) := by
      simp only [String.toList_append, String.toList_ofList, List.append_assoc, List.cons_append]
      rfl
    refine not_directChild_joinPath ?_ hname ?_ ?_ hchild
    · rw [hname]
      exact fun hhead => absurd (Option.some.inj hhead) (by decide)
    · exact pathParts_head_ne_nil _ (by decide) (by decide)
    · exact pathParts_append_ne_nil b (by decide)

/-- The path of a plain id has its digits as the last part. -/
theorem components_child {gitDir digits : String} (h : '/' ∉ digits.toList)
    (hne : digits.toList ≠ []) (hdot : digits.toList ≠ ['.']) (dir : String) :
    components (joinPath (joinPath (joinPath gitDir "rickydata") dir) digits) =
      components (joinPath (joinPath gitDir "rickydata") dir) ++ [digits.toList] := by
  rw [components_joinPath fun hhead => h (List.mem_of_mem_head? hhead), pathParts_name h hne hdot]

theorem pathsApart_iff {a b : String} (ha : PlainDigits a) (hb : PlainDigits b) :
    PathsApart a b ↔ DigitsDiffer a b := by
  constructor
  · intro hapart hex hex' hhex hhex' heq
    have hpath := attemptWorktreePath_quietSite hhex
    have hpath' := attemptWorktreePath_quietSite hhex'
    obtain ⟨digits, hdigits, -⟩ := ha hex hhex
    rw [firstDigits, hdigits] at hpath
    rw [firstDigits, ← heq, hdigits] at hpath'
    exact hapart.worktrees quietSite _ _ hpath hpath' rfl
  · intro hdiffer
    -- equal parts are equal digits
    have hparts : ∀ {name gitDir dir digits digits'}, idDigits name a = .ok digits →
        idDigits name b = .ok digits' →
        components (joinPath (joinPath (joinPath gitDir "rickydata") dir) digits) ≠
          components (joinPath (joinPath (joinPath gitDir "rickydata") dir) digits') := by
      intro name gitDir dir digits digits' hd hd' hsame
      obtain ⟨hslash, hne, hdot, -⟩ := (idDigits_plain ha).2 digits hd
      obtain ⟨hslash', hne', hdot', -⟩ := (idDigits_plain hb).2 digits' hd'
      rw [components_child hslash hne hdot, components_child hslash' hne' hdot',
        List.append_cancel_left_eq, List.cons.injEq] at hsame
      obtain ⟨hex, hhex, hfirst⟩ := idDigits_ok_iff.mp hd
      obtain ⟨hex', hhex', hfirst'⟩ := idDigits_ok_iff.mp hd'
      obtain ⟨cs, hcs, -⟩ := ha hex (idHex_ok_iff.mp hhex)
      obtain ⟨cs', hcs', -⟩ := hb hex' (idHex_ok_iff.mp hhex')
      rw [firstDigits, hcs] at hfirst
      rw [firstDigits, hcs'] at hfirst'
      rw [← Except.ok.inj hfirst, ← Except.ok.inj hfirst', String.toList_ofList,
        String.toList_ofList] at hsame
      exact hdiffer hex hex' (idHex_ok_iff.mp hhex) (idHex_ok_iff.mp hhex')
        (by rw [hcs, hcs', hsame.1])
    constructor
    · intro site p q hp hq
      unfold attemptWorktreePath at hp hq
      rcases hdir : foundGitDir site with e | gitDir
      · rw [hdir] at hp
        cases hp
      · rw [hdir] at hp hq
        rcases hd : idDigits "attempt" a with e | digits
        · rw [hd] at hp
          cases hp
        · rcases hd' : idDigits "attempt" b with e | digits'
          · rw [hd'] at hq
            cases hq
          · rw [hd] at hp
            rw [hd'] at hq
            cases hp
            cases hq
            exact hparts hd hd'
    · intro site p q hp hq
      unfold reviewCheckoutPath at hp hq
      dsimp only at hp hq
      rcases hdir : foundGitDir site with e | gitDir
      · rw [hdir] at hp
        cases hp
      · rw [hdir] at hp hq
        rcases hd : idDigits "patch" a with e | digits
        · rw [hd] at hp
          cases hp
        · rcases hd' : idDigits "patch" b with e | digits'
          · rw [hd'] at hq
            cases hq
          · rw [hd] at hp
            rw [hd'] at hq
            cases hp
            cases hq
            exact hparts hd hd'

end Plain

/-- Two ids have paths that stay where they belong and apart exactly when the first twelve bytes
    of each, if it has them, are whole characters without a separator, and differ. -/
theorem id_paths_iff (a b : String) :
    (PathsStay a ∧ PathsStay b ∧ (a ≠ b → PathsApart a b)) ↔
      PlainDigits a ∧ PlainDigits b ∧ (a ≠ b → DigitsDiffer a b) := by
  constructor
  · rintro ⟨ha, hb, hapart⟩
    have hplain := plain_of_pathsStay ha
    have hplain' := plain_of_pathsStay hb
    exact ⟨hplain, hplain', fun hne => (pathsApart_iff hplain hplain').mp (hapart hne)⟩
  · rintro ⟨ha, hb, hdiffer⟩
    exact ⟨pathsStay_of_plain ha, pathsStay_of_plain hb,
      fun hne => (pathsApart_iff ha hb).mpr (hdiffer hne)⟩

/-- An id that is a path, one that is cut inside a character, and two that are cut alike. -/
theorem ids_misused :
    ¬ PathsStay "sha256:../../../../" ∧ ¬ PathsStay "sha256:0123456789aé" ∧
      ¬ PathsApart "sha256:0123456789ab0" "sha256:0123456789ab1" := by
  refine ⟨fun h => ?_, fun h => ?_, fun h => ?_⟩
  · obtain ⟨digits, hdigits, hslash⟩ := plain_of_pathsStay h "../../../../".toList
      ⟨by decide +kernel, by decide +kernel⟩
    have hcut : takeBytes 12 "../../../../".toList = some "../../../../".toList := by decide +kernel
    rw [← Option.some.inj (hcut.symm.trans hdigits)] at hslash
    exact hslash (by decide +kernel)
  · obtain ⟨digits, hdigits, -⟩ := plain_of_pathsStay h "0123456789aé".toList
      ⟨by decide +kernel, by decide +kernel⟩
    have hcut : takeBytes 12 "0123456789aé".toList = none := by decide +kernel
    rw [hcut] at hdigits
    cases hdigits
  · have hpath := @attemptWorktreePath_quietSite "sha256:0123456789ab0" "0123456789ab0".toList
      ⟨by decide +kernel, by decide +kernel⟩
    have hpath' := @attemptWorktreePath_quietSite "sha256:0123456789ab1" "0123456789ab1".toList
      ⟨by decide +kernel, by decide +kernel⟩
    have hfirst : firstDigits "0123456789ab0".toList = .ok "0123456789ab" := rfl
    have hfirst' : firstDigits "0123456789ab1".toList = .ok "0123456789ab" := rfl
    rw [hfirst] at hpath
    rw [hfirst'] at hpath'
    exact h.worktrees quietSite _ _ hpath hpath' rfl

end RickydataGit.Cli
