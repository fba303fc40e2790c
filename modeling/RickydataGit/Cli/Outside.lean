/-
  The patch commands with what they do outside the store.

  `patch apply`, `patch checkout` and `patch export` write files and call git. These are
  operations of their own beside those of the store. How they are answered is left open
  and may depend on all that was done before (`Answers`); what was done is kept in a log.

  What a command only reads outside (the clock, `HEAD`, the work tree of an attempt, what
  `git status` prints) comes from the `Environment`. The temporary file of a patch is
  removed when the command ends, which the log leaves out.
-/
import RickydataGit.Cli.Commands

namespace RickydataGit.Cli

open RickydataGit.Lib RickydataGit.Core RickydataGit.Git

/-! ## Operations -/

structure ReviewCheckoutMarker where
  patchId : String
  attemptId : String
  baseCommit : String
  diffHash : String
  createdAtMs : UInt64
  deriving DecidableEq

inductive OutsideOp where
  | pathExists (path : String)
  | createDirAll (path : String)
  /-- The directory a file is in, if it names one. -/
  | createParent (path : String)
  | writeFile (path : String) (bytes : Bytes)
  /-- `git apply`, in a directory, on the file at a path. -/
  | gitApply (directory file : String) (check : Bool)
  | readMarker (path : String)
  | addWorktree (path baseCommit : String)
  | removeWorktree (path : String)
  | writeMarker (path : String) (marker : ReviewCheckoutMarker)
  deriving DecidableEq

@[reducible] def outsideOps : Ops where
  Op := OutsideOp
  Ans
    | .pathExists _ => Bool
    | .createDirAll _ => Except CliError Unit
    | .createParent _ => Except CliError Unit
    | .writeFile _ _ => Except CliError Unit
    | .gitApply _ _ _ => Except CliError Unit
    | .readMarker _ => Except CliError ReviewCheckoutMarker
    | .addWorktree _ _ => Except CliError Unit
    | .removeWorktree _ => Except CliError Unit
    | .writeMarker _ _ => Except CliError Unit

/-- What is answered after what was done so far. -/
abbrev Answers := List OutsideOp → (o : outsideOps.Op) → outsideOps.Ans o

/-- Everything outside goes well, and nothing is there before. -/
def willing : Answers := fun _ o => match o with
  | .pathExists _ => false
  | .createDirAll _ | .createParent _ | .writeFile _ _ | .gitApply _ _ _ | .addWorktree _ _
  | .removeWorktree _ | .writeMarker _ _ => .ok ()
  | .readMarker _ => .error (.bail "no marker")

def outsideExec (answers : Answers) (o : outsideOps.Op) (log : List OutsideOp) :
    outsideOps.Ans o × List OutsideOp :=
  (answers log o, log ++ [o])

abbrev PatchCommand := Prog (storeOps.plus outsideOps) CliError

/-- A command of the store among the others. -/
def inStore {α : Type} (command : Command α) : PatchCommand α := command.liftLeft outsideOps

section Operations

variable {α : Type}

def outside (o : OutsideOp) : PatchCommand (outsideOps.Ans o) := .op (.inr o) .ret

def createDirAll (path : String) : PatchCommand Unit :=
  .op (.inr (.createDirAll path)) Prog.ofExcept

def createParent (path : String) : PatchCommand Unit :=
  .op (.inr (.createParent path)) Prog.ofExcept

def writeFile (path : String) (bytes : Bytes) : PatchCommand Unit :=
  .op (.inr (.writeFile path bytes)) Prog.ofExcept

def gitApplyFile (directory file : String) (check : Bool) : PatchCommand Unit :=
  .op (.inr (.gitApply directory file check)) Prog.ofExcept

def readReviewCheckoutMarker (path : String) : PatchCommand ReviewCheckoutMarker :=
  .op (.inr (.readMarker path)) Prog.ofExcept

def removeReviewWorktree (path : String) : PatchCommand Unit :=
  .op (.inr (.removeWorktree path)) Prog.ofExcept

def writeReviewCheckoutMarker (path : String) (marker : ReviewCheckoutMarker) :
    PatchCommand Unit :=
  .op (.inr (.writeMarker path marker)) Prog.ofExcept

def addReviewWorktree (path baseCommit : String) : PatchCommand Unit := do
  createParent path
  .op (.inr (.addWorktree path baseCommit)) Prog.ofExcept

end Operations

/-! ## Paths -/

/-- Where the repository is. -/
structure Site where
  repo : String
  /-- The directory `inspect_repository` finds. -/
  gitDir : Except CliError (Option String)
  /-- The clock when the temporary file is named. -/
  tempFileMs : Except CliError UInt64

/-- `Path::join`: an absolute path replaces the base. -/
def joinPath (base path : String) : String :=
  if path.toList.head? = some '/' ∨ base = "" then path
  else if base.toList.getLast? = some '/' then base ++ path
  else base ++ "/" ++ path

/-- `&s[0..n]`, where the slice ends between two characters. -/
def takeBytes (n : Nat) : List Char → Option (List Char)
  | [] => if n = 0 then some [] else none
  | c :: cs =>
    if n = 0 then some []
    else if c.utf8Size ≤ n then (takeBytes (n - c.utf8Size) cs).map (c :: ·)
    else none

/-- The digits of an id, which are twelve bytes at least. -/
def idHex (name id : String) : Except CliError (List Char) :=
  match stripSha256 id with
  | none => .error (.bail s!"{name} id should be a sha256 object id")
  | some hex =>
    if (String.ofList hex).utf8ByteSize < 12 then
      .error (.bail s!"{name} id should include at least 12 hex characters")
    else .ok hex

/-- The first twelve bytes of the digits. -/
def firstDigits (hex : List Char) : Except CliError String :=
  match takeBytes 12 hex with
  | none => .error .panic
  | some digits => .ok (.ofList digits)

/-- The first twelve bytes of the digits of an id, which name its files. -/
def idDigits (name id : String) : Except CliError String := do
  firstDigits (← idHex name id)

theorem idDigits_ok_iff {name id digits : String} :
    idDigits name id = .ok digits ↔ ∃ hex, idHex name id = .ok hex ∧ firstDigits hex = .ok digits := by
  unfold idDigits
  rcases idHex name id with e | hex
  · exact iff_of_false (fun h => nomatch h) fun ⟨_, h, _⟩ => nomatch h
  · exact ⟨fun h => ⟨hex, rfl, h⟩, fun ⟨_, h, hfirst⟩ => Except.ok.inj h ▸ hfirst⟩

section Site

variable (site : Site)

def foundGitDir : Except CliError String := do
  match ← site.gitDir with
  | none => .error (.bail "repository has no .git directory")
  | some gitDir => .ok gitDir

/-- `TempPatchFile::new`. -/
def tempPatchFile (patchId : String) (patchBytes : Bytes) : PatchCommand String := do
  let gitDir ← foundGitDir site
  let hex ← idHex "patch" patchId
  let tempDir := joinPath (joinPath gitDir "rickydata") "tmp"
  createDirAll tempDir
  let digits ← firstDigits hex
  let nowMs ← site.tempFileMs
  let path := joinPath tempDir s!"apply-{digits}-{nowMs.toNat}.patch"
  writeFile path patchBytes
  return path

def reviewCheckoutPath (patchId : String) : Option String → Except CliError String
  | some path => .ok (joinPath site.repo path)
  | none => do
    let gitDir ← foundGitDir site
    let digits ← idDigits "patch" patchId
    return joinPath (joinPath (joinPath gitDir "rickydata") "reviews") digits

end Site

def prepareReviewCheckoutPath (checkoutPath patchId : String) (force : Bool) :
    PatchCommand Bool := do
  if ← outside (.pathExists checkoutPath) then
    if force = false then
      .fail (.bail s!"checkout path {checkoutPath} already exists; pass --force to replace a Rickydata-owned checkout")
    else
      let marker ← readReviewCheckoutMarker checkoutPath
      if marker.patchId ≠ patchId then
        .fail (.bail s!"checkout path {checkoutPath} belongs to patch {marker.patchId}, expected {patchId}")
      else
        removeReviewWorktree checkoutPath
        return true
  else return false

/-! ## Commands -/

section Commands

variable (T : Tools) (env : Environment) (site : Site)

/-- What the three commands begin with: the patch, and its attempt on the same base. -/
def selectPatch (patchId : String) : Command (PreparedPatch × AgentAttempt) := do
  let patches ← listPatches T
  match patches.find? fun entry => entry.body.patchId == patchId with
  | none => .fail (.bail s!"patch {patchId} was not found")
  | some entry =>
    let attempt ← findAttempt T entry.body.attemptId
    if attempt.baseCommit ≠ entry.body.baseCommit then
      .fail (.bail s!"attempt {attempt.attemptId} base commit {attempt.baseCommit} does not match prepared patch base commit {entry.body.baseCommit}")
    else return (entry.body, attempt)

/-- `HEAD`, which is the base commit of the patch unless drift is allowed. -/
def headFor (patch : PreparedPatch) (allowBaseDrift : Bool) : Except CliError String := do
  match ← env.headCommit with
  | none => .error (.bail "repository HEAD does not point to a commit")
  | some headCommit =>
    if allowBaseDrift = false ∧ headCommit ≠ patch.baseCommit then
      .error (.bail s!"repository HEAD {headCommit} does not match prepared patch base commit {patch.baseCommit}; pass --allow-base-drift to override")
    else return headCommit

/-- The diff of a patch, which is not empty. -/
def diffFor (patch : PreparedPatch) (attempt : AgentAttempt) (purpose : String) :
    Command ResolvedPatchDiff := do
  let resolved ← resolvePatchDiff (toolsIn T env) patch attempt
  if resolved.rawDiff.isEmpty then
    .fail (.bail s!"patch {patch.patchId} has no diff bytes to {purpose}")
  else return resolved

structure PatchApplyReport where
  patchId : String
  attemptId : String
  baseCommit : String
  headCommit : String
  applied : Bool
  diffHash : String
  diffBytes : UInt64
  fileCount : Nat
  filePaths : List String
  application : PatchApplication
  object : ObjectWriteReport
  replayed : Bool

/-- The loop of `find_patch_application_by_idempotency`, with the object it found. -/
def findRecordedApplication (patchId idempotencyKey : String) :
    List ObjectListEntry → Command (Option (PatchApplication × ObjectWriteReport))
  | [] => return none
  | entry :: rest => do
    let report ← (readCachedObject T.toCrates entry.objectId).mapFail .git
    let application ← bodyOf T "PatchApplication" PatchApplication.ofValue report.object
    if application.patchId = patchId ∧ application.idempotencyKey = some idempotencyKey then
      return some (application, {
        status := .alreadyExists, objectId := entry.objectId, bodyHash := entry.bodyHash
        kind := entry.kind, schemaVersion := report.object.schemaVersion
        cachePath := report.cachePath, refName := entry.refName
        gitObjectId := entry.gitObjectId, bytesWritten := 0 })
    else findRecordedApplication patchId idempotencyKey rest

def findRecorded (patchId : String) :
    Option String → Command (Option (PatchApplication × ObjectWriteReport))
  | none => return none
  | some idempotencyKey => do
    let entries ← (listRefBackedObjects T.toCrates (some "agent.patch_application")).mapFail .git
    findRecordedApplication T patchId idempotencyKey entries

/-- The end of `patch apply`: the file, an earlier application or a new one. -/
def applyResolved (input : PatchApplyInput) (patch : PreparedPatch) (attempt : AgentAttempt)
    (headCommit : String) (resolved : ResolvedPatchDiff) : PatchCommand PatchApplyReport := do
  let patchFile ← tempPatchFile site patch.patchId resolved.rawDiff
  let report (applied : Bool) (application : PatchApplication) (object : ObjectWriteReport) :
      PatchApplyReport := {
    patchId := patch.patchId, attemptId := attempt.attemptId, baseCommit := attempt.baseCommit
    headCommit, applied, diffHash := resolved.diffHash, diffBytes := resolved.diffBytes
    fileCount := resolved.filePaths.length, filePaths := resolved.filePaths, application, object
    replayed := !applied }
  match ← inStore (findRecorded T patch.patchId input.idempotencyKey) with
  | some (application, object) => return report false application object
  | none =>
    skipIf input.allowDirty env.ensureCleanWorktree
    gitApplyFile site.repo patchFile true
    gitApplyFile site.repo patchFile false
    let appliedAtMs ← env.nowMs
    let application : PatchApplication := {
      patchId := patch.patchId, attemptId := attempt.attemptId
      baseCommit := attempt.baseCommit, headCommit, diffHash := resolved.diffHash
      diffBytes := resolved.diffBytes, filePaths := resolved.filePaths
      appliedBy := input.appliedBy, reason := input.reason
      idempotencyKey := input.idempotencyKey, appliedAtMs }
    let object ← inStore (writeRecord T "agent.patch_application" application.toValue none)
    return report true application object

/-- `patch apply`. -/
def applyPatch (input : PatchApplyInput) : PatchCommand PatchApplyReport := do
  let (patch, attempt) ← inStore (selectPatch T input.patchId)
  let headCommit ← headFor env patch input.allowBaseDrift
  let resolved ← inStore (diffFor T env patch attempt "apply")
  applyResolved T env site input patch attempt headCommit resolved

structure PatchExportInput where
  patchId : String
  output : String
  force : Bool

structure PatchExportReport where
  patchId : String
  attemptId : String
  baseCommit : String
  outputPath : String
  diffHash : String
  diffBytes : UInt64
  fileCount : Nat
  filePaths : List String
  overwritten : Bool

/-- `patch export`. -/
def exportPatch (input : PatchExportInput) : PatchCommand PatchExportReport := do
  let (patch, attempt) ← inStore (selectPatch T input.patchId)
  let resolved ← inStore (diffFor T env patch attempt "export")
  let overwritten ← outside (.pathExists input.output)
  if overwritten = true ∧ input.force = false then
    .fail (.bail s!"output file {input.output} already exists; pass --force to overwrite")
  else
    createParent input.output
    writeFile input.output resolved.rawDiff
    return {
      patchId := patch.patchId, attemptId := attempt.attemptId, baseCommit := attempt.baseCommit
      outputPath := input.output, diffHash := resolved.diffHash, diffBytes := resolved.diffBytes
      fileCount := resolved.filePaths.length, filePaths := resolved.filePaths, overwritten }

structure PatchCheckoutInput where
  patchId : String
  path : Option String
  force : Bool
  allowBaseDrift : Bool

structure PatchCheckoutReport where
  patchId : String
  attemptId : String
  baseCommit : String
  headCommit : String
  checkoutPath : String
  applied : Bool
  diffHash : String
  diffBytes : UInt64
  fileCount : Nat
  filePaths : List String
  replaced : Bool

/-- The diff in a fresh work tree, and the marker of it. -/
def fillCheckout (patch : PreparedPatch) (attempt : AgentAttempt) (resolved : ResolvedPatchDiff)
    (checkoutPath patchFile : String) : PatchCommand Unit := do
  gitApplyFile checkoutPath patchFile true
  gitApplyFile checkoutPath patchFile false
  let createdAtMs ← env.nowMs
  writeReviewCheckoutMarker checkoutPath {
    patchId := patch.patchId, attemptId := attempt.attemptId, baseCommit := attempt.baseCommit
    diffHash := resolved.diffHash, createdAtMs }

/-- `patch checkout`. A work tree that could not be filled is removed again. -/
def checkoutPatch (input : PatchCheckoutInput) : PatchCommand PatchCheckoutReport := do
  let (patch, attempt) ← inStore (selectPatch T input.patchId)
  let headCommit ← headFor env patch input.allowBaseDrift
  let resolved ← inStore (diffFor T env patch attempt "check out")
  let checkoutPath ← reviewCheckoutPath site patch.patchId input.path
  let replaced ← prepareReviewCheckoutPath checkoutPath patch.patchId input.force
  addReviewWorktree checkoutPath patch.baseCommit
  let patchFile ← tempPatchFile site patch.patchId resolved.rawDiff
  match ← (fillCheckout env patch attempt resolved checkoutPath patchFile).attempt with
  | .error e =>
    let _ ← outside (.removeWorktree checkoutPath)
    .fail e
  | .ok () =>
    return {
      patchId := patch.patchId, attemptId := attempt.attemptId, baseCommit := attempt.baseCommit
      headCommit, checkoutPath, applied := true, diffHash := resolved.diffHash
      diffBytes := resolved.diffBytes, fileCount := resolved.filePaths.length
      filePaths := resolved.filePaths, replaced }

end Commands

end RickydataGit.Cli
