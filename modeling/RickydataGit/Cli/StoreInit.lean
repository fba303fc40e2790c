/-
  `init_rickydata_repository` and `open_initialized_store`.

  What is under the git directory is a tree of directories and files. Initialisation
  makes twelve directories, and only then looks at the `VERSION` file; the opener looks
  at the file first. `init_laws_iff`: a refusal of the version leaves the tree alone
  exactly when the file holds no foreign version or all directories are there; a success
  is always complete, and a second call finds everything in place.
-/
import RickydataGit.Cli.AgentState

namespace RickydataGit.Cli

open RickydataGit.Lib RickydataGit.Core RickydataGit.Git

/-! ## The tree under the git directory -/

theorem blocked_eq_false_iff {place : Place} {d : KeyDisk} :
    blocked place d = false ↔ ∀ p, p <+: place → ∀ bytes, d p ≠ some (.file bytes) := by
  rw [blocked, List.any_eq_false]
  constructor
  · intro h p hp bytes hfile
    have hb := h p ((List.mem_inits p place).mpr hp)
    rw [hfile] at hb
    exact hb rfl
  · intro h p hp hb
    have hfree := h p ((List.mem_inits p place).mp hp)
    split at hb
    · next bytes hfile => exact hfree bytes hfile
    · cases hb

theorem makeDirs_of_some {place p : Place} {d : KeyDisk} {node : Node} (h : d p = some node) :
    makeDirs place d p = some node := by
  rw [makeDirs, if_neg (by rw [h]; simp), h]

theorem makeDirs_above {place p : Place} {d : KeyDisk} (hp : p <+: place) (h : d p = none) :
    makeDirs place d p = some .directory :=
  if_pos ⟨hp, h⟩

theorem makeDirs_elsewhere {place p : Place} {d : KeyDisk} (hp : ¬ p <+: place) :
    makeDirs place d p = d p :=
  if_neg fun h => hp h.1

/-- What is below a place is in a directory. -/
structure GitTree where
  disk : KeyDisk
  root : disk [] = some .directory
  parent : ∀ place part, (disk (place ++ [part])).isSome = true → disk place = some .directory

namespace GitTree

@[ext] theorem ext {t t' : GitTree} (h : ∀ place, t.disk place = t'.disk place) : t = t' := by
  obtain ⟨disk, _, _⟩ := t
  obtain ⟨disk', _, _⟩ := t'
  obtain rfl : disk = disk' := funext h
  rfl

theorem parent_makeDirs (t : GitTree) {place : Place} (h : blocked place t.disk = false)
    (p : Place) (part : List Char) (hp : (makeDirs place t.disk (p ++ [part])).isSome = true) :
    makeDirs place t.disk p = some .directory := by
  by_cases hold : (t.disk (p ++ [part])).isSome = true
  · exact makeDirs_of_some (t.parent p part hold)
  · have hprefix : p ++ [part] <+: place := by
      by_contra hn
      rw [makeDirs_elsewhere hn] at hp
      exact hold hp
    have hpp : p <+: place := (List.prefix_append p [part]).trans hprefix
    rcases hd : t.disk p with _ | _ | bytes
    · exact makeDirs_above hpp hd
    · exact makeDirs_of_some hd
    · exact absurd hd (blocked_eq_false_iff.mp h p hpp bytes)

/-- `std::fs::create_dir_all`; a file on the way is an error, and then nothing is made. -/
def createDirAll (t : GitTree) (place : Place) : Option GitTree :=
  if h : blocked place t.disk = false then
    some {
      disk := makeDirs place t.disk
      root := makeDirs_of_some t.root
      parent := t.parent_makeDirs h }
  else none

/-- A file can be written at the place. -/
def Writable (t : GitTree) (place : Place) : Prop :=
  place ≠ [] ∧ t.disk place.dropLast = some .directory ∧ t.disk place ≠ some .directory

instance (t : GitTree) (place : Place) : Decidable (t.Writable place) :=
  inferInstanceAs (Decidable (_ ∧ _))

theorem parent_write (t : GitTree) {place : Place} (h : t.Writable place) (bytes : Bytes)
    (p : Place) (part : List Char)
    (hp : (Function.update t.disk place (some (.file bytes)) (p ++ [part])).isSome = true) :
    Function.update t.disk place (some (.file bytes)) p = some .directory := by
  have hdir : t.disk p = some .directory := by
    by_cases hpl : p ++ [part] = place
    · have hdrop : place.dropLast = p := by rw [← hpl, List.dropLast_concat]
      rw [← hdrop]
      exact h.2.1
    · rw [Function.update_of_ne hpl] at hp
      exact t.parent p part hp
  have hne : p ≠ place := fun hpl => h.2.2 (hpl ▸ hdir)
  rw [Function.update_of_ne hne, hdir]

/-- `std::fs::write`. -/
def write (t : GitTree) (place : Place) (bytes : Bytes) : Option GitTree :=
  if h : t.Writable place then
    some {
      disk := Function.update t.disk place (some (.file bytes))
      root := (Function.update_of_ne h.1.symm ..).trans t.root
      parent := t.parent_write h bytes }
  else none

theorem createDirAll_eq (t : GitTree) {place : Place} (h : blocked place t.disk = false) :
    ∃ t', t.createDirAll place = some t' ∧ t'.disk = makeDirs place t.disk :=
  ⟨_, dif_pos h, rfl⟩

theorem write_eq (t : GitTree) {place : Place} (h : t.Writable place) (bytes : Bytes) :
    ∃ t', t.write place bytes = some t' ∧
      t'.disk = Function.update t.disk place (some (.file bytes)) :=
  ⟨_, dif_pos h, rfl⟩

end GitTree

/-! ## Accesses -/

inductive InitOp where
  | exists (place : Place)
  | createDirAll (place : Place)
  | readToString (place : Place)
  | write (place : Place) (bytes : Bytes)

@[reducible] def initOps : Ops where
  Op := InitOp
  Ans
    | .exists _ => Bool
    | .createDirAll _ => Except String Unit
    | .readToString _ => Except String String
    | .write _ _ => Except String Unit

/-- The text of what is at a place. -/
def readText : Option Node → Except String String
  | none => .error "No such file or directory (os error 2)"
  | some .directory => .error "Is a directory (os error 21)"
  | some (.file bytes) =>
    match fromUtf8 bytes with
    | none => .error "stream did not contain valid UTF-8"
    | some text => .ok text

/-- An access that changes the tree, or fails and leaves it. -/
def changed (t : GitTree) (message : String) : Option GitTree → Except String Unit × GitTree
  | none => (.error message, t)
  | some t' => (.ok (), t')

def GitTree.exec : (o : initOps.Op) → GitTree → initOps.Ans o × GitTree
  | .exists place, t => ((t.disk place).isSome, t)
  | .createDirAll place, t => changed t "Not a directory (os error 20)" (t.createDirAll place)
  | .readToString place, t => (readText (t.disk place), t)
  | .write place bytes, t => changed t "Is a directory (os error 21)" (t.write place bytes)

/-- `GitInspectError`, as far as these functions raise it. -/
inductive InitError where
  | discover (message : String)
  | notGitRepository (path : String)
  | initIo (message : String)
  | storeNotInitialized (place : Place)
  | storeVersionMismatch (place : Place) (found expected : String)
  deriving DecidableEq

abbrev InitProg := Prog initOps InitError

def initResult {α : Type} : Except String α → InitProg α
  | .ok a => .ret a
  | .error message => .fail (.initIo message)

def fsExists (place : Place) : InitProg Bool := .op (.exists place) .ret

def fsCreateDirAll (place : Place) : InitProg Unit := .op (.createDirAll place) initResult

def fsReadToString (place : Place) : InitProg String := .op (.readToString place) initResult

def fsWrite (place : Place) (bytes : Bytes) : InitProg Unit :=
  .op (.write place bytes) initResult

/-! ## The store -/

/-- A path below the git directory. -/
def below (parts : List String) : Place := parts.map String.toList

def metadataDir : Place := below ["rickydata"]
def cacheDir : Place := below ["rickydata", "cache"]
def objectDir : Place := below ["rickydata", "cache", "objects", "sha256"]
def bundleDir : Place := below ["rickydata", "cache", "bundles"]
def tempDir : Place := below ["rickydata", "tmp"]
def refsDir : Place := below ["refs", "rickydata"]
def versionFile : Place := below ["rickydata", "VERSION"]

/-- The directories, in the order in which they are made. -/
def storeDirs : List Place :=
  [metadataDir, cacheDir, objectDir, bundleDir, tempDir, refsDir,
    refsDir ++ below ["objects"], refsDir ++ below ["discovery"], refsDir ++ below ["intents"],
    refsDir ++ below ["attempts"], refsDir ++ below ["runs"], refsDir ++ below ["policies"]]

def storePaths : List Place := storeDirs ++ [versionFile]

def storeVersion : String := "rickydata.git.store.v1"

/-- What `gix::discover` finds. -/
inductive Discovery where
  | repository (gitDir : String) (workdir : Option String)
  /-- The error, and `has_git_marker`. -/
  | error (message : String) (hasGitMarker : Bool)

inductive InitStatus where
  | created
  | alreadyInitialized
  deriving DecidableEq

/-- The paths are those below the git directory. -/
structure RickydataInitReport where
  status : InitStatus
  repoRoot : Option String
  gitDir : String
  metadataDir : Place
  objectDir : Place
  bundleDir : Place
  tempDir : Place
  refsDir : Place
  storeVersion : String
  createdPaths : List Place
  existingPaths : List Place

structure RickydataStore where
  gitDir : String
  tempDir : Place
  deriving DecidableEq

def discovered (path : String) : Discovery → Except InitError (String × Option String)
  | .repository gitDir workdir => .ok (gitDir, workdir)
  | .error message true => .error (.discover message)
  | .error _ false => .error (.notGitRepository path)

/-- The paths that were created and those that were there, so far. -/
abbrev PathLists := List Place × List Place

def ensureDir (place : Place) (paths : PathLists) : InitProg PathLists := do
  if ← fsExists place then return (paths.1, paths.2 ++ [place])
  else
    fsCreateDirAll place
    return (paths.1 ++ [place], paths.2)

def ensureDirs : List Place → PathLists → InitProg PathLists
  | [], paths => return paths
  | place :: rest, paths => do
    let paths ← ensureDir place paths
    ensureDirs rest paths

def ensureVersionMatches (place : Place) : InitProg Unit := do
  let found ← fsReadToString place
  let found := trim found
  if found ≠ storeVersion then .fail (.storeVersionMismatch place found storeVersion)
  else return ()

def ensureVersionFile (place : Place) (paths : PathLists) : InitProg PathLists := do
  if ← fsExists place then
    ensureVersionMatches place
    return (paths.1, paths.2 ++ [place])
  else
    fsWrite place (utf8 (storeVersion ++ "\n"))
    return (paths.1 ++ [place], paths.2)

def initReport (repo : String × Option String) (paths : PathLists) : RickydataInitReport where
  status := if paths.1.isEmpty then .alreadyInitialized else .created
  repoRoot := repo.2
  gitDir := repo.1
  metadataDir := metadataDir
  objectDir := objectDir
  bundleDir := bundleDir
  tempDir := tempDir
  refsDir := refsDir
  storeVersion := storeVersion
  createdPaths := paths.1
  existingPaths := paths.2

def initRickydataRepository (path : String) (discovery : Discovery) :
    InitProg RickydataInitReport := do
  let repo ← discovered path discovery
  let paths ← ensureDirs storeDirs ([], [])
  let paths ← ensureVersionFile versionFile paths
  return initReport repo paths

def openInitializedStore (path : String) (discovery : Discovery) : InitProg RickydataStore := do
  let repo ← discovered path discovery
  if !(← fsExists versionFile) then .fail (.storeNotInitialized metadataDir)
  else
    ensureVersionMatches versionFile
    if !(← fsExists tempDir) then .fail (.storeNotInitialized metadataDir)
    else return { gitDir := repo.1, tempDir := tempDir }

/-! ## The directories -/

theorem blocked_iff {place : Place} {d : KeyDisk} :
    blocked place d = true ↔ ∃ p, p <+: place ∧ ∃ bytes, d p = some (.file bytes) := by
  rw [← not_iff_not, Bool.not_eq_true, blocked_eq_false_iff]
  push Not
  rfl

/-- Directories were made on the way to some places, and nothing else. -/
structure Made (t t' : GitTree) (dirs : List Place) : Prop where
  kept : ∀ place node, t.disk place = some node → t'.disk place = some node
  fresh : ∀ place, t.disk place = none →
    t'.disk place = none ∨ t'.disk place = some .directory ∧ ∃ dir ∈ dirs, place <+: dir
  all : ∀ dir ∈ dirs, (t'.disk dir).isSome = true

namespace Made

variable {t t₁ t' : GitTree} {dir : Place} {dirs : List Place}

theorem nil (t : GitTree) : Made t t [] :=
  ⟨fun _ _ h => h, fun _ h => .inl h, fun _ h => nomatch h⟩

theorem isSome (h : Made t t' dirs) {place : Place} (hp : (t.disk place).isSome = true) :
    (t'.disk place).isSome = true := by
  obtain ⟨node, hnode⟩ := Option.isSome_iff_exists.mp hp
  rw [h.kept place node hnode]
  rfl

theorem cons (h : Made t t₁ [dir]) (h' : Made t₁ t' dirs) : Made t t' (dir :: dirs) where
  kept place node hnode := h'.kept place node (h.kept place node hnode)
  fresh place hnone := by
    rcases h.fresh place hnone with h₁ | ⟨h₁, dir', hmem, hp⟩
    · rcases h'.fresh place h₁ with h₂ | ⟨h₂, dir', hmem, hp⟩
      · exact .inl h₂
      · exact .inr ⟨h₂, dir', .tail _ hmem, hp⟩
    · obtain rfl := List.mem_singleton.mp hmem
      exact .inr ⟨h'.kept place _ h₁, dir', .head _, hp⟩
  all dir' hmem := by
    rcases List.mem_cons.mp hmem with rfl | hmem
    · exact h'.isSome (h.all dir' (.head _))
    · exact h'.all dir' hmem

/-- What is not on the way stays as it is, absent or not. -/
theorem disk_eq (h : Made t t' dirs) {place : Place} (hp : ∀ dir ∈ dirs, ¬ place <+: dir) :
    t'.disk place = t.disk place := by
  rcases hd : t.disk place with _ | node
  · rcases h.fresh place hd with hn | ⟨-, dir, hmem, hprefix⟩
    · exact hn
    · exact absurd hprefix (hp dir hmem)
  · exact h.kept place node hd

theorem blocked_eq (h : Made t t' dirs) (place : Place) :
    blocked place t'.disk = blocked place t.disk := by
  rw [Bool.eq_iff_iff, blocked_iff, blocked_iff]
  constructor
  · rintro ⟨p, hp, bytes, hfile⟩
    rcases hd : t.disk p with _ | node
    · rcases h.fresh p hd with hn | ⟨hn, -⟩
      · rw [hn] at hfile
        cases hfile
      · rw [hn] at hfile
        cases hfile
    · rw [h.kept p node hd] at hfile
      exact ⟨p, hp, bytes, hd.trans hfile⟩
  · rintro ⟨p, hp, bytes, hfile⟩
    exact ⟨p, hp, bytes, h.kept p _ hfile⟩

end Made

section Ensure

variable {t : GitTree} {dir : Place} {dirs : List Place}

theorem ensureDir_present (h : (t.disk dir).isSome = true) (paths : PathLists) :
    (ensureDir dir paths).run GitTree.exec t = (.ok (paths.1, paths.2 ++ [dir]), t) := by
  have hrun : (ensureDir dir paths).run GitTree.exec t =
      (if (t.disk dir).isSome then .ret (paths.1, paths.2 ++ [dir]) else do
        fsCreateDirAll dir
        return (paths.1 ++ [dir], paths.2) : InitProg PathLists).run GitTree.exec t := rfl
  rw [hrun, if_pos h]
  rfl

theorem ensureDir_missing (h : t.disk dir = none) (paths : PathLists) :
    (ensureDir dir paths).run GitTree.exec t =
      (fsCreateDirAll dir >>= fun _ => .ret (paths.1 ++ [dir], paths.2)).run GitTree.exec t := by
  have hrun : (ensureDir dir paths).run GitTree.exec t =
      (if (t.disk dir).isSome then .ret (paths.1, paths.2 ++ [dir]) else do
        fsCreateDirAll dir
        return (paths.1 ++ [dir], paths.2) : InitProg PathLists).run GitTree.exec t := rfl
  rw [hrun, if_neg (by rw [h]; simp)]
  rfl

theorem fsCreateDirAll_run (dir : Place) (t : GitTree) :
    (fsCreateDirAll dir).run GitTree.exec t =
      ((changed t "Not a directory (os error 20)" (t.createDirAll dir)).1.mapError .initIo,
        (changed t "Not a directory (os error 20)" (t.createDirAll dir)).2) := by
  show (initResult (changed t _ (t.createDirAll dir)).1).run GitTree.exec _ = _
  rcases (changed t "Not a directory (os error 20)" (t.createDirAll dir)).1 with e | a
  · rfl
  · rfl

theorem ensureDir_made (h : t.disk dir = none) (hb : blocked dir t.disk = false)
    (paths : PathLists) : ∃ t', Made t t' [dir] ∧
      (ensureDir dir paths).run GitTree.exec t = (.ok (paths.1 ++ [dir], paths.2), t') := by
  obtain ⟨t', htree, hdisk⟩ := t.createDirAll_eq hb
  have hcreate := fsCreateDirAll_run dir t
  rw [htree] at hcreate
  refine ⟨t', ?_, (ensureDir_missing h paths).trans (Prog.run_bind_ok _ hcreate _)⟩
  refine ⟨fun place node hnode => ?_, fun place hnone => ?_, fun dir' hmem => ?_⟩
  · rw [hdisk]
    exact makeDirs_of_some hnode
  · rw [hdisk]
    by_cases hp : place <+: dir
    · exact .inr ⟨makeDirs_above hp hnone, dir, .head _, hp⟩
    · exact .inl ((makeDirs_elsewhere hp).trans hnone)
  · obtain rfl := List.mem_singleton.mp hmem
    rw [hdisk, makeDirs_above (List.prefix_refl _) h]
    rfl

theorem ensureDir_blocked (h : t.disk dir = none) (hb : blocked dir t.disk = true)
    (paths : PathLists) : ∃ message,
      (ensureDir dir paths).run GitTree.exec t = (.error (.initIo message), t) := by
  have hcreate := fsCreateDirAll_run dir t
  rw [GitTree.createDirAll, dif_neg (by rw [hb]; simp)] at hcreate
  exact ⟨_, (ensureDir_missing h paths).trans (Prog.run_bind_error _ hcreate _)⟩

/-- The directories that are not there, and those that are. -/
def missing (t : GitTree) (dirs : List Place) : List Place :=
  dirs.filter fun dir => (t.disk dir).isNone

def present (t : GitTree) (dirs : List Place) : List Place :=
  dirs.filter fun dir => (t.disk dir).isSome

theorem missing_congr {t t₁ : GitTree} (h : ∀ dir ∈ dirs, t₁.disk dir = t.disk dir) :
    missing t₁ dirs = missing t dirs :=
  List.filter_congr fun dir hmem => by rw [h dir hmem]

theorem present_congr {t t₁ : GitTree} (h : ∀ dir ∈ dirs, t₁.disk dir = t.disk dir) :
    present t₁ dirs = present t dirs :=
  List.filter_congr fun dir hmem => by rw [h dir hmem]

/-- Parents come before what is in them, so a directory is reported as the tree had it. -/
theorem ensureDirs_made (hp : dirs.Pairwise fun a b => ¬ b <+: a)
    (hfree : ∀ dir ∈ dirs, t.disk dir = none → blocked dir t.disk = false) (paths : PathLists) :
    ∃ t', Made t t' dirs ∧ ((∀ dir ∈ dirs, (t.disk dir).isSome = true) → t' = t) ∧
      (ensureDirs dirs paths).run GitTree.exec t =
        (.ok (paths.1 ++ missing t dirs, paths.2 ++ present t dirs), t') := by
  induction dirs generalizing t paths with
  | nil => exact ⟨t, .nil t, fun _ => rfl, by simp [missing, present, ensureDirs]⟩
  | cons dir dirs ih =>
    obtain ⟨hdir, hdirs⟩ := List.pairwise_cons.mp hp
    rw [ensureDirs]
    rcases hd : t.disk dir with _ | node
    · obtain ⟨t₁, hmade, hrun⟩ := ensureDir_made hd (hfree dir (.head _) hd) paths
      have hsame : ∀ dir' ∈ dirs, t₁.disk dir' = t.disk dir' := by
        intro dir' hmem
        refine hmade.disk_eq fun d hd' => ?_
        obtain rfl := List.mem_singleton.mp hd'
        exact hdir dir' hmem
      have hfree₁ : ∀ dir' ∈ dirs, t₁.disk dir' = none → blocked dir' t₁.disk = false := by
        intro dir' hmem hnone
        rw [hmade.blocked_eq]
        exact hfree dir' (.tail _ hmem) ((hsame dir' hmem).symm.trans hnone)
      obtain ⟨t', hmade', -, hrun'⟩ := ih hdirs hfree₁ (paths.1 ++ [dir], paths.2)
      refine ⟨t', hmade.cons hmade', fun hall => ?_, ?_⟩
      · have habsent := hall dir (.head _)
        rw [hd] at habsent
        cases habsent
      · rw [Prog.run_bind_ok _ hrun, hrun', missing_congr hsame, present_congr hsame]
        simp [missing, present, hd]
    · have hsome : (t.disk dir).isSome = true := by rw [hd]; rfl
      have hrun := ensureDir_present hsome paths
      obtain ⟨t', hmade', hsame, hrun'⟩ :=
        ih hdirs (fun dir' hmem => hfree dir' (.tail _ hmem)) (paths.1, paths.2 ++ [dir])
      have hmade : Made t t [dir] := by
        refine ⟨fun _ _ h => h, fun _ h => .inl h, fun dir' hmem => ?_⟩
        obtain rfl := List.mem_singleton.mp hmem
        exact hsome
      refine ⟨t', hmade.cons hmade', fun hall => hsame fun dir' hmem => hall dir' (.tail _ hmem), ?_⟩
      rw [Prog.run_bind_ok _ hrun, hrun']
      simp [missing, present, hd]

theorem ensureDirs_blocked (hp : dirs.Pairwise fun a b => ¬ b <+: a)
    (hb : ∃ dir ∈ dirs, t.disk dir = none ∧ blocked dir t.disk = true) (paths : PathLists) :
    ∃ message t', (ensureDirs dirs paths).run GitTree.exec t = (.error (.initIo message), t') := by
  induction dirs generalizing t paths with
  | nil =>
    obtain ⟨_, hmem, -⟩ := hb
    cases hmem
  | cons dir dirs ih =>
    obtain ⟨hdir, hdirs⟩ := List.pairwise_cons.mp hp
    obtain ⟨dir', hmem, hnone, hblocked⟩ := hb
    rw [ensureDirs]
    rcases hd : t.disk dir with _ | node
    · rcases hbd : blocked dir t.disk with _ | _
      · obtain ⟨t₁, hmade, hrun⟩ := ensureDir_made hd hbd paths
        rcases List.mem_cons.mp hmem with rfl | hmem'
        · rw [hbd] at hblocked
          cases hblocked
        have hsame : t₁.disk dir' = t.disk dir' := by
          refine hmade.disk_eq fun d hd' => ?_
          obtain rfl := List.mem_singleton.mp hd'
          exact hdir dir' hmem'
        rw [Prog.run_bind_ok _ hrun]
        exact ih hdirs ⟨dir', hmem', hsame.trans hnone, (hmade.blocked_eq dir').trans hblocked⟩ _
      · obtain ⟨message, hrun⟩ := ensureDir_blocked hd hbd paths
        exact ⟨message, t, Prog.run_bind_error _ hrun _⟩
    · rcases List.mem_cons.mp hmem with rfl | hmem'
      · rw [hnone] at hd
        cases hd
      have hrun := ensureDir_present (by rw [hd]; rfl) paths
      rw [Prog.run_bind_ok _ hrun]
      exact ih hdirs ⟨dir', hmem', hnone, hblocked⟩ _

end Ensure

/-! ## The version -/

/-- The file holds a text that is not the version of the store. -/
def ForeignVersion (t : GitTree) : Prop :=
  ∃ bytes text, t.disk versionFile = some (.file bytes) ∧ fromUtf8 bytes = some text ∧
    trim text ≠ storeVersion

def MatchingVersion (t : GitTree) : Prop :=
  ∃ bytes text, t.disk versionFile = some (.file bytes) ∧ fromUtf8 bytes = some text ∧
    trim text = storeVersion

/-- No file is on the way to a directory that has to be made. -/
def Unobstructed (t : GitTree) : Prop :=
  ∀ dir ∈ storeDirs, t.disk dir = none → blocked dir t.disk = false

/-- All directories and the version are there. -/
structure Complete (t : GitTree) : Prop where
  dirs : ∀ dir ∈ storeDirs, (t.disk dir).isSome = true
  version : MatchingVersion t

theorem storeDirs_pairwise : storeDirs.Pairwise fun a b => ¬ b <+: a := by
  decide

theorem versionFile_not_prefix : ∀ dir ∈ storeDirs, ¬ versionFile <+: dir := by
  decide

theorem trim_storeVersion : trim (storeVersion ++ "\n") = storeVersion := by
  decide

section Version

variable {t t' : GitTree}

theorem fsReadToString_run (place : Place) (t : GitTree) :
    (fsReadToString place).run GitTree.exec t =
      ((readText (t.disk place)).mapError .initIo, t) := by
  show (initResult (readText (t.disk place))).run GitTree.exec t = _
  rcases readText (t.disk place) with e | text
  · rfl
  · rfl

theorem fsWrite_run (place : Place) (bytes : Bytes) (t : GitTree) :
    (fsWrite place bytes).run GitTree.exec t =
      ((changed t "Is a directory (os error 21)" (t.write place bytes)).1.mapError .initIo,
        (changed t "Is a directory (os error 21)" (t.write place bytes)).2) := by
  show (initResult (changed t _ (t.write place bytes)).1).run GitTree.exec _ = _
  rcases (changed t "Is a directory (os error 21)" (t.write place bytes)).1 with e | a
  · rfl
  · rfl

theorem ensureVersionMatches_matching (h : MatchingVersion t) :
    (ensureVersionMatches versionFile).run GitTree.exec t = (.ok (), t) := by
  obtain ⟨bytes, text, hdisk, htext, htrim⟩ := h
  have hread := fsReadToString_run versionFile t
  rw [hdisk, readText, htext] at hread
  rw [ensureVersionMatches, Prog.run_bind_ok _ hread]
  dsimp only
  rw [if_neg (not_not.mpr htrim)]
  rfl

theorem ensureVersionMatches_foreign (h : ForeignVersion t) :
    ∃ found, (ensureVersionMatches versionFile).run GitTree.exec t =
      (.error (.storeVersionMismatch versionFile found storeVersion), t) := by
  obtain ⟨bytes, text, hdisk, htext, htrim⟩ := h
  have hread := fsReadToString_run versionFile t
  rw [hdisk, readText, htext] at hread
  refine ⟨trim text, ?_⟩
  rw [ensureVersionMatches, Prog.run_bind_ok _ hread]
  dsimp only
  rw [if_pos htrim]
  rfl

/-- What is at the place of the version. -/
theorem version_cases (t : GitTree) :
    t.disk versionFile = none ∨ MatchingVersion t ∨ ForeignVersion t ∨
      ((t.disk versionFile).isSome = true ∧ ∃ message,
        (ensureVersionMatches versionFile).run GitTree.exec t = (.error (.initIo message), t)) := by
  have hread := fsReadToString_run versionFile t
  rcases hd : t.disk versionFile with _ | _ | bytes
  · exact .inl rfl
  · rw [hd] at hread
    exact .inr (.inr (.inr ⟨rfl, _, Prog.run_bind_error _ hread _⟩))
  · rcases htext : fromUtf8 bytes with _ | text
    · rw [hd, readText, htext] at hread
      exact .inr (.inr (.inr ⟨rfl, _, Prog.run_bind_error _ hread _⟩))
    · by_cases htrim : trim text = storeVersion
      · exact .inr (.inl ⟨bytes, text, hd, htext, htrim⟩)
      · exact .inr (.inr (.inl ⟨bytes, text, hd, htext, htrim⟩))

theorem MatchingVersion.isSome (h : MatchingVersion t) : (t.disk versionFile).isSome = true := by
  obtain ⟨bytes, _, hdisk, -⟩ := h
  rw [hdisk]
  rfl

theorem ForeignVersion.isSome (h : ForeignVersion t) : (t.disk versionFile).isSome = true := by
  obtain ⟨bytes, _, hdisk, -⟩ := h
  rw [hdisk]
  rfl

/-- A version file that is there is read. -/
theorem ensureVersionFile_present (h : (t.disk versionFile).isSome = true) (paths : PathLists) :
    (ensureVersionFile versionFile paths).run GitTree.exec t =
      (ensureVersionMatches versionFile >>= fun _ =>
        .ret (paths.1, paths.2 ++ [versionFile])).run GitTree.exec t := by
  have hrun : (ensureVersionFile versionFile paths).run GitTree.exec t =
      (if (t.disk versionFile).isSome then do
          ensureVersionMatches versionFile
          return (paths.1, paths.2 ++ [versionFile])
        else do
          fsWrite versionFile (utf8 (storeVersion ++ "\n"))
          return (paths.1 ++ [versionFile], paths.2) : InitProg PathLists).run GitTree.exec t := rfl
  rw [hrun, if_pos h]
  rfl

/-- A version file that is not there is written. -/
theorem ensureVersionFile_absent (h : t.disk versionFile = none) (hw : t.Writable versionFile)
    (paths : PathLists) : ∃ t', MatchingVersion t' ∧
      (∀ place, place ≠ versionFile → t'.disk place = t.disk place) ∧
      (ensureVersionFile versionFile paths).run GitTree.exec t =
        (.ok (paths.1 ++ [versionFile], paths.2), t') := by
  have hrun : (ensureVersionFile versionFile paths).run GitTree.exec t =
      (if (t.disk versionFile).isSome then do
          ensureVersionMatches versionFile
          return (paths.1, paths.2 ++ [versionFile])
        else do
          fsWrite versionFile (utf8 (storeVersion ++ "\n"))
          return (paths.1 ++ [versionFile], paths.2) : InitProg PathLists).run GitTree.exec t := rfl
  obtain ⟨t', htree, hdisk⟩ := t.write_eq hw (utf8 (storeVersion ++ "\n"))
  have hwrite := fsWrite_run versionFile (utf8 (storeVersion ++ "\n")) t
  rw [htree] at hwrite
  refine ⟨t', ?_, fun place hne => ?_, ?_⟩
  · refine ⟨_, _, ?_, fromUtf8_utf8 (storeVersion ++ "\n"), trim_storeVersion⟩
    rw [hdisk, Function.update_self]
  · rw [hdisk, Function.update_of_ne hne]
  · rw [hrun, if_neg (by rw [h]; simp)]
    exact Prog.run_bind_ok _ hwrite _

/-- When all directories are there, the version can be written. -/
theorem writable_versionFile (hdirs : ∀ dir ∈ storeDirs, (t.disk dir).isSome = true)
    (h : t.disk versionFile = none) : t.Writable versionFile := by
  have hcache : cacheDir = metadataDir ++ ["cache".toList] := rfl
  have hmeta : t.disk metadataDir = some .directory := by
    apply t.parent metadataDir "cache".toList
    rw [← hcache]
    exact hdirs cacheDir (by simp [storeDirs])
  have hdrop : versionFile.dropLast = metadataDir := rfl
  refine ⟨by simp [versionFile, below], ?_, by rw [h]; simp⟩
  rw [hdrop, hmeta]

end Version

/-! ## Initialisation -/

section Init

variable {t t₁ : GitTree}

theorem Made.version_eq (h : Made t t₁ storeDirs) : t₁.disk versionFile = t.disk versionFile :=
  h.disk_eq versionFile_not_prefix

theorem MatchingVersion.congr (h : t₁.disk versionFile = t.disk versionFile)
    (hm : MatchingVersion t) : MatchingVersion t₁ := by
  obtain ⟨bytes, text, hdisk, hrest⟩ := hm
  exact ⟨bytes, text, h.trans hdisk, hrest⟩

theorem ForeignVersion.congr (h : t₁.disk versionFile = t.disk versionFile)
    (hm : ForeignVersion t) : ForeignVersion t₁ := by
  obtain ⟨bytes, text, hdisk, hrest⟩ := hm
  exact ⟨bytes, text, h.trans hdisk, hrest⟩

theorem ForeignVersion.not_matching (h : ForeignVersion t) : ¬ MatchingVersion t := by
  rintro ⟨bytes, text, hdisk, htext, htrim⟩
  obtain ⟨bytes', text', hdisk', htext', htrim'⟩ := h
  rw [hdisk] at hdisk'
  obtain rfl : bytes = bytes' := by simpa using hdisk'
  rw [htext] at htext'
  obtain rfl := Option.some.inj htext'
  exact htrim' htrim

theorem missing_append_present (t : GitTree) (dirs : List Place) :
    (missing t dirs ++ present t dirs).Perm dirs := by
  have hnot : present t dirs = dirs.filter fun dir => !(t.disk dir).isNone :=
    List.filter_congr fun dir _ => by cases t.disk dir <;> rfl
  rw [hnot]
  exact List.filter_append_perm ..

/-- What a call that succeeds leaves, with the paths it reports. -/
structure InitDone (t : GitTree) (paths : PathLists) (t' : GitTree) : Prop where
  complete : Complete t'
  kept : ∀ place node, t.disk place = some node → t'.disk place = some node
  perm : (paths.1 ++ paths.2).Perm storePaths
  created : ∀ place ∈ paths.1, t.disk place = none
  existing : ∀ place ∈ paths.2, (t.disk place).isSome = true

theorem mem_missing {dirs : List Place} {dir : Place} (h : dir ∈ missing t dirs) :
    t.disk dir = none := by
  simpa using (List.mem_filter.mp h).2

theorem mem_present {dirs : List Place} {dir : Place} (h : dir ∈ present t dirs) :
    (t.disk dir).isSome = true :=
  (List.mem_filter.mp h).2

section Runs

variable (path gitDir : String) (workdir : Option String)

theorem init_obstructed (h : ¬ Unobstructed t) : ∃ message t',
    (initRickydataRepository path (.repository gitDir workdir)).run GitTree.exec t =
      (.error (.initIo message), t') := by
  have hb : ∃ dir ∈ storeDirs, t.disk dir = none ∧ blocked dir t.disk = true := by
    unfold Unobstructed at h
    push Not at h
    simpa using h
  obtain ⟨message, t', hrun⟩ := ensureDirs_blocked storeDirs_pairwise hb ([], [])
  exact ⟨message, t', Prog.run_bind_error _ hrun _⟩

/-- The directories are made before the version is looked at. -/
theorem init_run (h : Unobstructed t) : ∃ t₁, Made t t₁ storeDirs ∧
    ((∀ dir ∈ storeDirs, (t.disk dir).isSome = true) → t₁ = t) ∧
    (initRickydataRepository path (.repository gitDir workdir)).run GitTree.exec t =
      (ensureVersionFile versionFile (missing t storeDirs, present t storeDirs) >>= fun paths =>
        .ret (initReport (gitDir, workdir) paths)).run GitTree.exec t₁ := by
  obtain ⟨t₁, hmade, hsame, hrun⟩ := ensureDirs_made storeDirs_pairwise h ([], [])
  exact ⟨t₁, hmade, hsame, Prog.run_bind_ok _ hrun _⟩

theorem init_foreign (h : Unobstructed t) (hv : ForeignVersion t) : ∃ found t₁,
    Made t t₁ storeDirs ∧ ((∀ dir ∈ storeDirs, (t.disk dir).isSome = true) → t₁ = t) ∧
    (initRickydataRepository path (.repository gitDir workdir)).run GitTree.exec t =
      (.error (.storeVersionMismatch versionFile found storeVersion), t₁) := by
  obtain ⟨t₁, hmade, hsame, hrun⟩ := init_run path gitDir workdir h
  have hv₁ := hv.congr hmade.version_eq
  obtain ⟨found, hmatch⟩ := ensureVersionMatches_foreign hv₁
  have hfile := (ensureVersionFile_present hv₁.isSome
    (missing t storeDirs, present t storeDirs)).trans (Prog.run_bind_error _ hmatch _)
  exact ⟨found, t₁, hmade, hsame, hrun.trans (Prog.run_bind_error _ hfile _)⟩

theorem init_matching (h : Unobstructed t) (hv : MatchingVersion t) : ∃ paths t₁,
    InitDone t paths t₁ ∧ ((∀ dir ∈ storeDirs, (t.disk dir).isSome = true) → t₁ = t) ∧
    (initRickydataRepository path (.repository gitDir workdir)).run GitTree.exec t =
      (.ok (initReport (gitDir, workdir) paths), t₁) := by
  obtain ⟨t₁, hmade, hsame, hrun⟩ := init_run path gitDir workdir h
  have hv₁ := hv.congr hmade.version_eq
  have hfile := (ensureVersionFile_present hv₁.isSome
    (missing t storeDirs, present t storeDirs)).trans
      (Prog.run_bind_ok _ (ensureVersionMatches_matching hv₁) _)
  refine ⟨_, t₁, ?_, hsame, hrun.trans (Prog.run_bind_ok _ hfile _)⟩
  refine ⟨⟨hmade.all, hv₁⟩, hmade.kept, ?_, fun place hmem => mem_missing hmem, fun place hmem => ?_⟩
  · rw [← List.append_assoc]
    exact (missing_append_present t storeDirs).append_right _
  · rcases List.mem_append.mp hmem with hmem | hmem
    · exact mem_present hmem
    · rw [List.mem_singleton.mp hmem]
      exact hv.isSome

theorem init_absent (h : Unobstructed t) (hv : t.disk versionFile = none) : ∃ paths t',
    InitDone t paths t' ∧
    (initRickydataRepository path (.repository gitDir workdir)).run GitTree.exec t =
      (.ok (initReport (gitDir, workdir) paths), t') := by
  obtain ⟨t₁, hmade, -, hrun⟩ := init_run path gitDir workdir h
  have hv₁ := hmade.version_eq.trans hv
  obtain ⟨t', hm, hothers, hfile⟩ := ensureVersionFile_absent hv₁
    (writable_versionFile hmade.all hv₁) (missing t storeDirs, present t storeDirs)
  refine ⟨_, t', ?_, hrun.trans (Prog.run_bind_ok _ hfile _)⟩
  have hdir : ∀ dir ∈ storeDirs, dir ≠ versionFile := by
    rintro dir hmem rfl
    exact versionFile_not_prefix _ hmem (List.prefix_refl _)
  refine ⟨⟨fun dir hmem => ?_, hm⟩, fun place node hnode => ?_, ?_, fun place hmem => ?_,
    fun place hmem => mem_present hmem⟩
  · rw [hothers dir (hdir dir hmem)]
    exact hmade.all dir hmem
  · have hne : place ≠ versionFile := by
      rintro rfl
      rw [hv] at hnode
      cases hnode
    rw [hothers place hne]
    exact hmade.kept place node hnode
  · have hswap : (missing t storeDirs ++ [versionFile] ++ present t storeDirs).Perm
        (missing t storeDirs ++ present t storeDirs ++ [versionFile]) := by
      rw [List.append_assoc, List.append_assoc]
      exact List.perm_append_comm.append_left _
    exact hswap.trans ((missing_append_present t storeDirs).append_right _)
  · rcases List.mem_append.mp hmem with hmem | hmem
    · exact mem_missing hmem
    · rw [List.mem_singleton.mp hmem]
      exact hv

/-- A call on a complete store changes nothing. -/
theorem init_complete (h : Complete t) : ∃ paths, paths.1 = [] ∧
    (initRickydataRepository path (.repository gitDir workdir)).run GitTree.exec t =
      (.ok (initReport (gitDir, workdir) paths), t) := by
  have hfree : Unobstructed t := by
    intro dir hmem hnone
    have hsome := h.dirs dir hmem
    rw [hnone] at hsome
    cases hsome
  obtain ⟨paths, t₁, hdone, hsame, hrun⟩ := init_matching path gitDir workdir hfree h.version
  obtain rfl := hsame h.dirs
  refine ⟨paths, List.eq_nil_iff_forall_not_mem.mpr fun place hmem => ?_, hrun⟩
  have hnone := hdone.created place hmem
  rcases List.mem_append.mp (hdone.perm.mem_iff.mp (List.mem_append_left _ hmem)) with hd | hv
  · have hsome := h.dirs place hd
    rw [hnone] at hsome
    cases hsome
  · have hsome := h.version.isSome
    rw [List.mem_singleton.mp hv] at hnone
    rw [hnone] at hsome
    cases hsome

/-- A complete store opens. -/
theorem open_complete (h : Complete t) :
    (openInitializedStore path (.repository gitDir workdir)).run GitTree.exec t =
      (.ok { gitDir := gitDir, tempDir := tempDir }, t) := by
  have htemp : (t.disk tempDir).isSome = true := h.dirs tempDir (by simp [storeDirs])
  have hrun : (openInitializedStore path (.repository gitDir workdir)).run GitTree.exec t =
      (if !(t.disk versionFile).isSome then .fail (.storeNotInitialized metadataDir) else do
        ensureVersionMatches versionFile
        if !(← fsExists tempDir) then .fail (.storeNotInitialized metadataDir)
        else return { gitDir := gitDir, tempDir := tempDir } :
          InitProg RickydataStore).run GitTree.exec t := rfl
  rw [hrun, if_neg (by rw [h.version.isSome]; simp),
    Prog.run_bind_ok _ (ensureVersionMatches_matching h.version)]
  have hlast : (fsExists tempDir >>= fun found =>
      if !found then .fail (.storeNotInitialized metadataDir)
      else return { gitDir := gitDir, tempDir := tempDir } :
        InitProg RickydataStore).run GitTree.exec t =
      (if !(t.disk tempDir).isSome then .fail (.storeNotInitialized metadataDir)
      else return { gitDir := gitDir, tempDir := tempDir } :
        InitProg RickydataStore).run GitTree.exec t := rfl
  rw [hlast, if_neg (by rw [htemp]; simp)]
  rfl

/-- How a call ends. -/
theorem init_cases (t : GitTree) :
    (∃ message t', (initRickydataRepository path (.repository gitDir workdir)).run
        GitTree.exec t = (.error (.initIo message), t')) ∨
      (Unobstructed t ∧ ForeignVersion t) ∨
      ∃ paths t', InitDone t paths t' ∧
        (initRickydataRepository path (.repository gitDir workdir)).run GitTree.exec t =
          (.ok (initReport (gitDir, workdir) paths), t') := by
  by_cases hfree : Unobstructed t
  · obtain ⟨t₁, hmade, -, hrun⟩ := init_run path gitDir workdir hfree
    have hversion := hmade.version_eq
    rcases version_cases t₁ with hnone | hm | hv | ⟨hsome, message, hmatch⟩
    · obtain ⟨paths, t', hdone, hrun⟩ :=
        init_absent path gitDir workdir hfree (hversion.symm.trans hnone)
      exact .inr (.inr ⟨paths, t', hdone, hrun⟩)
    · obtain ⟨paths, t', hdone, -, hrun⟩ :=
        init_matching path gitDir workdir hfree (hm.congr hversion.symm)
      exact .inr (.inr ⟨paths, t', hdone, hrun⟩)
    · exact .inr (.inl ⟨hfree, hv.congr hversion.symm⟩)
    · have hfile := (ensureVersionFile_present hsome
        (missing t storeDirs, present t storeDirs)).trans (Prog.run_bind_error _ hmatch _)
      exact .inl ⟨message, t₁, hrun.trans (Prog.run_bind_error _ hfile _)⟩
  · exact .inl (init_obstructed path gitDir workdir hfree)

end Runs

/-! ## The laws of initialisation -/

/-- A refusal of the version changes nothing. A success leaves what was there, completes
    the store and reports each of its paths once, as created or as existing; the store
    opens, and a second call finds everything and changes nothing. -/
structure InitLaws (path gitDir : String) (workdir : Option String) (t : GitTree) : Prop where
  mismatch : ∀ place found expected t',
    (initRickydataRepository path (.repository gitDir workdir)).run GitTree.exec t =
      (.error (.storeVersionMismatch place found expected), t') → t' = t
  opens : ∀ report t',
    (initRickydataRepository path (.repository gitDir workdir)).run GitTree.exec t =
      (.ok report, t') →
    ∃ store, (openInitializedStore path (.repository gitDir workdir)).run GitTree.exec t' =
      (.ok store, t')
  kept : ∀ report t',
    (initRickydataRepository path (.repository gitDir workdir)).run GitTree.exec t =
      (.ok report, t') →
    ∀ place node, t.disk place = some node → t'.disk place = some node
  partition : ∀ report t',
    (initRickydataRepository path (.repository gitDir workdir)).run GitTree.exec t =
      (.ok report, t') →
    (report.createdPaths ++ report.existingPaths).Perm storePaths ∧
      (∀ place ∈ report.createdPaths, t.disk place = none) ∧
      ∀ place ∈ report.existingPaths, (t.disk place).isSome = true
  again : ∀ report t',
    (initRickydataRepository path (.repository gitDir workdir)).run GitTree.exec t =
      (.ok report, t') →
    ∃ report', report'.status = .alreadyInitialized ∧
      (initRickydataRepository path (.repository gitDir workdir)).run GitTree.exec t' =
        (.ok report', t')

/-- The laws hold of a tree exactly when, if its version is foreign and no file is in the
    way of the directories, all the directories are there. -/
theorem init_laws_iff (path gitDir : String) (workdir : Option String) (t : GitTree) :
    InitLaws path gitDir workdir t ↔
      (ForeignVersion t → Unobstructed t → ∀ dir ∈ storeDirs, (t.disk dir).isSome = true) := by
  constructor
  · intro hlaws hv hfree dir hmem
    obtain ⟨found, t₁, hmade, -, hrun⟩ := init_foreign path gitDir workdir hfree hv
    obtain rfl := hlaws.mismatch _ _ _ _ hrun
    exact hmade.all dir hmem
  · intro hdirs
    have hok : ∀ report t',
        (initRickydataRepository path (.repository gitDir workdir)).run GitTree.exec t =
          (.ok report, t') →
        ∃ paths, InitDone t paths t' ∧ report = initReport (gitDir, workdir) paths := by
      intro report t' hrun
      rcases init_cases path gitDir workdir t with ⟨message, t₁, hio⟩ | ⟨hfree, hv⟩ |
        ⟨paths, t₁, hdone, hdrun⟩
      · rw [hrun] at hio
        cases hio
      · obtain ⟨found, t₁, -, -, hmrun⟩ := init_foreign path gitDir workdir hfree hv
        rw [hrun] at hmrun
        cases hmrun
      · rw [hrun] at hdrun
        cases hdrun
        exact ⟨paths, hdone, rfl⟩
    refine ⟨?_, fun report t' hrun => ?_, fun report t' hrun => ?_, fun report t' hrun => ?_,
      fun report t' hrun => ?_⟩
    · intro place found expected t' hrun
      rcases init_cases path gitDir workdir t with ⟨message, t₁, hio⟩ | ⟨hfree, hv⟩ |
        ⟨paths, t₁, hdone, hdrun⟩
      · rw [hrun] at hio
        cases hio
      · obtain ⟨found', t₁, -, hsame, hmrun⟩ := init_foreign path gitDir workdir hfree hv
        rw [hrun] at hmrun
        obtain rfl := congrArg Prod.snd hmrun
        exact hsame (hdirs hv hfree)
      · rw [hrun] at hdrun
        cases hdrun
    · obtain ⟨paths, hdone, -⟩ := hok report t' hrun
      exact ⟨_, open_complete path gitDir workdir hdone.complete⟩
    · obtain ⟨paths, hdone, -⟩ := hok report t' hrun
      exact hdone.kept
    · obtain ⟨paths, hdone, rfl⟩ := hok report t' hrun
      exact ⟨hdone.perm, hdone.created, hdone.existing⟩
    · obtain ⟨paths, hdone, -⟩ := hok report t' hrun
      obtain ⟨paths', hnone, hagain⟩ := init_complete path gitDir workdir hdone.complete
      exact ⟨_, by simp [initReport, hnone], hagain⟩

end Init

/-- A store of a later version: the metadata directory with its `VERSION` file. -/
def laterStore : GitTree where
  disk p :=
    if p = [] ∨ p = metadataDir then some .directory
    else if p = versionFile then some (.file (utf8 "rickydata.git.store.v2\n"))
    else none
  root := rfl
  parent := by
    intro place part h
    have hcases : place ++ [part] = metadataDir ∨ place ++ [part] = versionFile := by
      by_contra hn
      rw [not_or] at hn
      rw [if_neg (by simp [hn.1]), if_neg hn.2] at h
      cases h
    rcases hcases with heq | heq
    · have hplace := congrArg List.dropLast heq
      rw [List.dropLast_concat] at hplace
      exact if_pos (.inl hplace)
    · have hplace := congrArg List.dropLast heq
      rw [List.dropLast_concat] at hplace
      exact if_pos (.inr hplace)

/-- The version of a later store is refused, and the directory of temporary files was made. -/
theorem laterStore_is_changed : ∃ found t',
    (initRickydataRepository "p" (.repository "p/.git" none)).run GitTree.exec laterStore =
        (.error (.storeVersionMismatch versionFile found storeVersion), t') ∧
      laterStore.disk tempDir = none ∧ t'.disk tempDir = some .directory ∧
      ¬ InitLaws "p" "p/.git" none laterStore := by
  have hversion : trim "rickydata.git.store.v2\n" ≠ storeVersion := by decide +kernel
  have hnone : laterStore.disk tempDir = none := by decide +kernel
  have hforeign : ForeignVersion laterStore :=
    ⟨_, _, by decide +kernel, fromUtf8_utf8 "rickydata.git.store.v2\n", hversion⟩
  have hfree : Unobstructed laterStore := by
    unfold Unobstructed
    decide +kernel
  obtain ⟨found, t', hmade, -, hrun⟩ := init_foreign "p" "p/.git" none hfree hforeign
  have htemp : tempDir ∈ storeDirs := by simp [storeDirs]
  have hsome := hmade.all tempDir htemp
  have hdir : t'.disk tempDir = some .directory := by
    rcases hmade.fresh tempDir hnone with habsent | ⟨hdir, -⟩
    · rw [habsent] at hsome
      cases hsome
    · exact hdir
  refine ⟨found, t', hrun, hnone, hdir, fun hlaws => ?_⟩
  obtain rfl := hlaws.mismatch _ _ _ _ hrun
  rw [hnone] at hdir
  cases hdir

end RickydataGit.Cli
