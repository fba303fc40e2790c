/-
  The commands that write records.

  A command is a program over the store. What it finds elsewhere (the clock, `HEAD`, the
  work tree of the attempt, the process it runs, `git apply`) is an `Environment`, and
  may be anything; it is asked where the source asks it, so that a failure there leaves
  written what was written before.

  `TypedCommand` is one call with its arguments, `runAll` a sequence of them.
-/
import RickydataGit.Cli.Records
import RickydataGit.Cli.Write
import Mathlib.Data.List.Destutter

namespace RickydataGit.Cli

open RickydataGit.Lib RickydataGit.Core RickydataGit.Git

/-! ## Texts -/

/-- `char::is_whitespace`. -/
def isWhitespace (c : Char) : Bool :=
  let n := c.toNat
  (9 ≤ n && n ≤ 13) || n == 0x20 || n == 0x85 || n == 0xA0 || n == 0x1680 ||
    (0x2000 ≤ n && n ≤ 0x200A) || n == 0x2028 || n == 0x2029 || n == 0x202F || n == 0x205F ||
    n == 0x3000

/-- `s.trim().is_empty()`. -/
def isBlank (s : String) : Bool := s.toList.all isWhitespace

/-- `str::split` at a character. -/
def splitAt (separator : Char) (text : String) : List String :=
  (text.toList.splitOn separator).map .ofList

/-- `str::lines`: a carriage return belongs to the end of a line only before a line feed. -/
def linesOf (text : String) : List String :=
  match (splitAt '\n' text).reverse with
  | [] => []
  | last :: ended =>
    let lines := ended.reverse.map fun line =>
      if line.toList.getLast? = some '\r' then .ofList line.toList.dropLast else line
    if last = "" then lines else lines ++ [last]

example : linesOf "a\r\n\nb\r" = ["a", "", "b\r"] := by decide

/-- `str::parse::<u64>`. -/
def parseU64 (text : String) : Option UInt64 :=
  let digits := match text.toList with
    | '+' :: rest => rest
    | cs => cs
  if digits.isEmpty || !digits.all Char.isDigit then none
  else
    let n := digits.foldl (fun n c => n * 10 + (c.toNat - '0'.toNat)) 0
    if n < 2 ^ 64 then some (.ofNat n) else none

/-- `values.sort(); values.dedup()`. -/
def sortedDedup (values : List String) : List String :=
  (values.mergeSort fun a b => decide (a ≤ b)).destutter (· ≠ ·)

theorem sorted_mergeSort (values : List String) :
    (values.mergeSort fun a b => decide (a ≤ b)).Pairwise (· ≤ ·) := by
  have hsorted := @List.pairwise_mergeSort _ (fun a b : String => decide (a ≤ b))
    (fun a b c hab hbc => decide_eq_true (le_trans (of_decide_eq_true hab) (of_decide_eq_true hbc)))
    (fun a b => by simpa using le_total a b) values
  exact hsorted.imp of_decide_eq_true

theorem sortedDedup_eq (values : List String) :
    sortedDedup values = (values.mergeSort fun a b => decide (a ≤ b)).dedup :=
  (sorted_mergeSort values).destutter_eq_dedup

theorem sortedDedup_nil : sortedDedup [] = [] := by
  rw [sortedDedup_eq, List.mergeSort_nil, List.dedup_nil]

/-- Sorting and removing repetitions keeps the members. -/
theorem mem_sortedDedup {values : List String} {value : String} :
    value ∈ sortedDedup values ↔ value ∈ values := by
  rw [sortedDedup_eq, List.mem_dedup, List.mem_mergeSort]

theorem pairwise_sortedDedup (values : List String) : (sortedDedup values).Pairwise (· < ·) := by
  have hsorted := (sorted_mergeSort values).sublist (List.dedup_sublist _)
  rw [sortedDedup_eq]
  exact hsorted.imp₂ (fun a b hle hne => lt_of_le_of_ne hle hne) (List.nodup_dedup _)

/-- The members determine the list. -/
theorem sortedDedup_eq_of_mem {values sorted : List String} (hsorted : sorted.Pairwise (· < ·))
    (h : ∀ value, value ∈ values ↔ value ∈ sorted) : sortedDedup values = sorted := by
  have hnodup : ∀ {values : List String}, values.Pairwise (· < ·) → values.Nodup :=
    fun hvalues => hvalues.imp ne_of_lt
  have hperm : (sortedDedup values).Perm sorted := by
    refine (List.perm_ext_iff_of_nodup (hnodup (pairwise_sortedDedup _)) (hnodup hsorted)).mpr
      fun value => ?_
    rw [mem_sortedDedup, h]
  exact hperm.eq_of_pairwise' ((pairwise_sortedDedup values).imp le_of_lt) (hsorted.imp le_of_lt)

theorem sortedDedup_congr {values values' : List String}
    (h : ∀ value, value ∈ values ↔ value ∈ values') : sortedDedup values = sortedDedup values' :=
  sortedDedup_eq_of_mem (pairwise_sortedDedup values') fun value => by rw [mem_sortedDedup, h]

/-! ## Intents -/

def looksLikeGitObjectId (value : String) : Bool :=
  (value.utf8ByteSize == 40 || value.utf8ByteSize == 64) && value.toList.all isAsciiHexdigit

structure IntentDiagnostic where
  code : String
  message : String

def validateWorkIntent (intent : WorkIntent) : List IntentDiagnostic :=
  (if isBlank intent.objective then [⟨"INTENT001", "objective must not be empty"⟩] else []) ++
  (if intent.issueRefs.isEmpty && intent.taskRefs.isEmpty then
    [⟨"INTENT002", "at least one issue_refs or task_refs entry is required"⟩] else []) ++
  match intent.baseCommit with
  | none => []
  | some baseCommit =>
    if looksLikeGitObjectId baseCommit then []
    else [⟨"INTENT003",
      "base_commit must be a 40- or 64-character hex object id when present"⟩]

def parsePrivacyClass (value : String) : Except CliError PrivacyClass :=
  match value with
  | "public_metadata" => .ok .publicMetadata
  | "private_body" => .ok .privateBody
  | "secret" => .ok .secret
  | "encrypted" => .ok .encrypted
  | other => .error (.bail s!"unsupported privacy class `{other}`")

structure IssueIntentFields where
  platform : String
  repository : Option String
  issueId : Option String
  url : Option String
  objective : String
  baseCommit : Option String
  createdBy : Option String
  privacy : PrivacyClass

/-- The task of an intent without an issue is named after the time, zero if there is none. -/
def issueImportIntent (fields : IssueIntentFields) (nowMs : Except CliError UInt64) : WorkIntent :=
  let issueRefs := match fields.repository, fields.issueId with
    | some repository, some id => [⟨fields.platform, repository, id, fields.url⟩]
    | _, _ => []
  let taskRefs :=
    if issueRefs.isEmpty then
      [⟨"agent", s!"work-{(nowMs.toOption.getD 0).toNat}", some fields.objective⟩]
    else []
  { objective := fields.objective, issueRefs, taskRefs, baseCommit := fields.baseCommit
    allowedCapabilities := [], privacy := fields.privacy, teePolicy := none, releaseGuard := none
    createdBy := fields.createdBy }

/-! ## Surroundings -/

/-- What git prints about a work tree. -/
structure GitDiff where
  diff : Bytes
  numstat : String
  nameStatus : String
  names : List String

/-- What a process leaves. -/
structure Output where
  success : Bool
  code : Option Int32
  stdout : Bytes
  stderr : Bytes

/-- What a command finds outside the store. -/
structure Environment where
  signing : Except CliError (Option (Bytes × Option String))
  /-- The hashes of the manifests named `run_exec`. -/
  runExecManifestHashes : List String
  nowMs : Except CliError UInt64
  headCommit : Except CliError (Option String)
  ensureAttemptWorktree : (attemptId baseCommit : String) → Except CliError Unit
  gitDiff : AgentAttempt → Except CliError GitDiff
  /-- The process, and the clock after it. -/
  output : List String → Except CliError Output
  finishedAtMs : Except CliError UInt64
  tempPatchFile : (patchId : String) → Bytes → Except CliError Unit
  ensureCleanWorktree : Except CliError Unit
  gitApplyFile : (check : Bool) → Bytes → Except CliError Unit

/-- Nothing fails, nothing changed, and there is no key. -/
def quietEnvironment : Environment where
  signing := .ok none
  runExecManifestHashes := []
  nowMs := .ok 0
  headCommit := .ok none
  ensureAttemptWorktree _ _ := .ok ()
  gitDiff _ := .ok ⟨[], "", "", []⟩
  output _ := .ok ⟨true, some 0, [], []⟩
  finishedAtMs := .ok 0
  tempPatchFile _ _ := .ok ()
  ensureCleanWorktree := .ok ()
  gitApplyFile _ _ := .ok ()

/-- The diff of a work tree as it is recorded. -/
structure WorktreeDiff extends DetectedDiff where
  changed : Bool
  diffSummary : DiffSummary

def summarizeDiff (filePaths : List String) (numstat nameStatus : String) : DiffSummary :=
  let counted := (linesOf numstat).foldl (fun summary line =>
    match splitAt '\t' line with
    | insertions :: deletions :: _ =>
      if insertions = "-" ∨ deletions = "-" then
        { summary with binaryFileCount := summary.binaryFileCount + 1 }
      else
        { summary with
          insertions := summary.insertions + (parseU64 insertions).getD 0
          deletions := summary.deletions + (parseU64 deletions).getD 0 }
    | _ => summary) { DiffSummary.empty with fileCount := .ofNat filePaths.length }
  (linesOf nameStatus).foldl (fun summary line =>
    match line.toList.head? with
    | some 'A' => { summary with filesAdded := summary.filesAdded + 1 }
    | some 'D' => { summary with filesDeleted := summary.filesDeleted + 1 }
    | some 'R' => { summary with filesRenamed := summary.filesRenamed + 1 }
    | some 'M' | some 'T' | some 'C' =>
      { summary with filesModified := summary.filesModified + 1 }
    | _ => summary) counted

section Commands

variable (T : Tools) (env : Environment)

/-- What is recorded of what git prints. -/
def worktreeDiff (git : GitDiff) : WorktreeDiff :=
  let filePaths := sortedDedup (git.names.filter fun name => !name.isEmpty)
  { changed := !git.diff.isEmpty, diffHash := hashText T.toCrates git.diff
    diffBytes := .ofNat git.diff.length, filePaths
    diffSummary := summarizeDiff filePaths git.numstat git.nameStatus, rawDiff := git.diff }

def detectAttemptDiff (attempt : AgentAttempt) : Except CliError WorktreeDiff :=
  (env.gitDiff attempt).map (worktreeDiff T)

/-- The tools where the work trees are those of the environment. -/
def toolsIn : Tools :=
  { T with
    detectAttemptDiff := fun attempt =>
      (detectAttemptDiff T env attempt).map WorktreeDiff.toDetectedDiff }

/-- A record of a kind, signed when there is a key. -/
def writeRecord (kind : String) (body : Value) (signing : Option (Bytes × Option String)) :
    Command ObjectWriteReport :=
  (writeSignedOrCached T.toCrates kind body signing).mapFail .git

/-- A check that is left out on a condition. -/
def skipIf (skip : Bool) (check : Except CliError Unit) : Except CliError Unit :=
  if skip then .ok () else check

/-! ## Intents and attempts -/

def intentWrite (intent : Except CliError WorkIntent) : Command (Option ObjectWriteReport) := do
  let signing ← env.signing
  let intent ← intent
  if (validateWorkIntent intent).isEmpty then
    return some (← writeRecord T "agent.intent" intent.toValue signing)
  else return none

structure IssueImportArgs where
  platform : String
  issueRepository : String
  issueId : String
  url : Option String
  objective : String
  baseCommit : Option String
  createdBy : Option String
  privacy : String

def issueImport (args : IssueImportArgs) : Command (Option ObjectWriteReport) := do
  let signing ← env.signing
  let privacy ← parsePrivacyClass args.privacy
  let intent := issueImportIntent {
    platform := args.platform, repository := some args.issueRepository
    issueId := some args.issueId, url := args.url, objective := args.objective
    baseCommit := args.baseCommit, createdBy := args.createdBy, privacy } env.nowMs
  if (validateWorkIntent intent).isEmpty then
    return some (← writeRecord T "agent.intent" intent.toValue signing)
  else return none

structure AttemptStartInput where
  intentId : String
  agentId : String
  idempotencyKey : Option String
  baseCommit : Option String
  leaseExpiresAtMs : Option UInt64

def computeAttemptId (input : AttemptStartInput) (baseCommit : String) : String :=
  stableJsonHash T.toCrates (.obj [("intent_id", .str input.intentId),
    ("agent_id", .str input.agentId), ("base_commit", .str baseCommit),
    ("idempotency_key", .str (input.idempotencyKey.getD "default"))] (by simp))

/-- The end of `work start` and of `attempt start`: the attempt on the base commit. -/
def startAttempt (input : AttemptStartInput) (inPlace : Bool)
    (signing : Option (Bytes × Option String)) : Command (AgentAttempt × ObjectWriteReport) := do
  let headCommit ← env.headCommit
  match input.baseCommit <|> headCommit with
  | none => .fail (.bail "repository HEAD is unborn; pass --base-commit explicitly")
  | some baseCommit =>
    let attempt : AgentAttempt := {
      attemptId := computeAttemptId T input baseCommit, intentId := input.intentId, baseCommit
      agentId := input.agentId, leaseExpiresAtMs := input.leaseExpiresAtMs
      status := .running, inPlace }
    skipIf inPlace (env.ensureAttemptWorktree attempt.attemptId baseCommit)
    let object ← writeRecord T "agent.attempt" attempt.toValue signing
    return (attempt, object)

def attemptStart (input : AttemptStartInput) (inPlace : Bool) :
    Command (AgentAttempt × ObjectWriteReport) := do
  let signing ← env.signing
  let intentReport ← (readCachedObject T.toCrates input.intentId).mapFail .git
  if intentReport.object.kind ≠ "agent.intent" then
    .fail (.bail s!"object {input.intentId} is kind `{intentReport.object.kind}`, expected `agent.intent`")
  else
    let intent ← bodyOf T "WorkIntent" WorkIntent.ofValue intentReport.object
    if (validateWorkIntent intent).isEmpty then
      startAttempt T env input inPlace signing
    else .fail (.bail s!"intent {input.intentId} is invalid")

structure WorkStartArgs where
  platform : String
  issueRepository : Option String
  issueId : Option String
  url : Option String
  objective : String
  baseCommit : Option String
  createdBy : Option String
  privacy : String
  agentId : String
  idempotencyKey : Option String
  leaseExpiresAtMs : Option UInt64
  inPlace : Bool

def workStart (args : WorkStartArgs) : Command (AgentAttempt × ObjectWriteReport) := do
  let signing ← env.signing
  let privacy ← parsePrivacyClass args.privacy
  let intent := issueImportIntent {
    platform := args.platform, repository := args.issueRepository, issueId := args.issueId
    url := args.url, objective := args.objective, baseCommit := args.baseCommit
    createdBy := args.createdBy, privacy } env.nowMs
  if (validateWorkIntent intent).isEmpty then
    let intentObject ← writeRecord T "agent.intent" intent.toValue signing
    startAttempt T env {
      intentId := intentObject.objectId, agentId := args.agentId
      idempotencyKey := args.idempotencyKey, baseCommit := args.baseCommit
      leaseExpiresAtMs := args.leaseExpiresAtMs } args.inPlace signing
  else .fail (.bail "generated work intent is invalid")

def AttemptStatus.debug : AttemptStatus → String
  | planned => "Planned"
  | running => "Running"
  | submitted => "Submitted"
  | abandoned => "Abandoned"
  | integrated => "Integrated"

structure AttemptTransitionInput where
  attemptId : String
  reason : Option String
  createdBy : Option String

def writeAttemptTransition (input : AttemptTransitionInput) (status : AttemptStatus)
    (signing : Option (Bytes × Option String)) :
    Command (AttemptStatusTransition × ObjectWriteReport) := do
  let attempt ← findAttempt T input.attemptId
  let current ← effectiveAttemptStatus T attempt.attemptId
  if current.1 ≠ .running ∧ current.1 ≠ .planned then
    .fail (.bail s!"attempt {attempt.attemptId} is {current.1.debug}, expected running or planned")
  else
    let createdAtMs ← env.nowMs
    let transition : AttemptStatusTransition := {
      attemptId := attempt.attemptId, status, reason := input.reason
      createdBy := input.createdBy, createdAtMs }
    let object ← writeRecord T "agent.attempt_status" transition.toValue signing
    return (transition, object)

def attemptAbandon (input : AttemptTransitionInput) :
    Command (AttemptStatusTransition × ObjectWriteReport) := do
  let signing ← env.signing
  writeAttemptTransition T env input .abandoned signing

def attemptSubmit (input : AttemptTransitionInput) :
    Command (AttemptStatusTransition × ObjectWriteReport) := do
  let signing ← env.signing
  let patches ← listPatches T
  if patches.any fun entry => entry.body.attemptId == input.attemptId then
    writeAttemptTransition T env input .submitted signing
  else
    .fail (.bail s!"attempt {input.attemptId} has no prepared patch; run `rickygit patch prepare` first")

/-! ## Runs and changes -/

def listRuns : Command (List (Listed AgentRun)) := do
  let runs ← listBodies T "agent.run" "AgentRun" AgentRun.ofValue
  return runs.mergeSort fun left right => decide (left.body.runId ≤ right.body.runId)

structure RunExecInput where
  attemptId : String
  command : List String
  recordCommandArgv : Bool

/-- The trace and the run of a process that ran. -/
def runOf (input : RunExecInput) (attempt : AgentAttempt) (startedAtMs finishedAtMs : UInt64)
    (output : Output) : AgentRunTrace × AgentRun :=
  let X := T.toCrates
  let commandHash := stableJsonHash X (.obj [("argv", listValue .str input.command)] (by simp))
  let stdoutHash := hashText X output.stdout
  let stderrHash := hashText X output.stderr
  let result := if output.success then AgentRunResult.succeeded else .failed
  let traceId := stableJsonHash X (.obj [("attempt_id", .str attempt.attemptId),
    ("command_hash", .str commandHash), ("exit_code", optionValue i32Value output.code),
    ("stdout_hash", .str stdoutHash), ("stderr_hash", .str stderrHash),
    ("started_at_ms", .ofU64 startedAtMs), ("finished_at_ms", .ofU64 finishedAtMs)] (by simp))
  let runId := stableJsonHash X (.obj [("attempt_id", .str attempt.attemptId),
    ("trace_hash", .str traceId)] (by simp))
  ({ traceId, attemptId := attempt.attemptId, commandHash
     commandArgv := if input.recordCommandArgv then some input.command else none
     executable := input.command.head?, argCount := .ofNat input.command.length
     exitCode := output.code, stdoutHash, stderrHash
     stdoutBytes := .ofNat output.stdout.length, stderrBytes := .ofNat output.stderr.length
     startedAtMs, finishedAtMs, result
     privacy := if input.recordCommandArgv then .privateBody else .publicMetadata },
   { runId, attemptId := attempt.attemptId, traceHash := some traceId
     commandHashes := [commandHash], rdlManifestHashes := env.runExecManifestHashes, startedAtMs
     finishedAtMs := some finishedAtMs, result := some result })

def runExec (input : RunExecInput) : Command (AgentRun × ObjectWriteReport) := do
  let signing ← env.signing
  let attempt ← findAttempt T input.attemptId
  let effective ← effectiveAttemptStatus T input.attemptId
  if effective.1 ≠ .running then
    .fail (.bail s!"attempt {attempt.attemptId} is {effective.1.debug}, expected running")
  else
    skipIf attempt.inPlace (env.ensureAttemptWorktree attempt.attemptId attempt.baseCommit)
    let startedAtMs ← env.nowMs
    let output ← env.output input.command
    let finishedAtMs ← env.finishedAtMs
    let (trace, run) := runOf T env input attempt startedAtMs finishedAtMs output
    let _ ← writeRecord T "agent.run_trace" trace.toValue signing
    let object ← writeRecord T "agent.run" run.toValue signing
    return (run, object)

def listChanges : Command (List (Listed ChangeEvidence)) := do
  let changes ← listBodies T "agent.change" "ChangeEvidence" ChangeEvidence.ofValue
  return changes.mergeSort fun left right => decide (left.body.changeId ≤ right.body.changeId)

/-- The runs that were asked for, each the first of its id. -/
def requestedRuns (allRuns : List AgentRun) (attemptId : String) :
    List String → Except CliError (List AgentRun)
  | [] => .ok []
  | runId :: rest =>
    match allRuns.find? fun run => run.runId == runId with
    | none => .error (.bail s!"run {runId} was not found")
    | some run =>
      if run.attemptId ≠ attemptId then
        .error (.bail s!"run {runId} belongs to attempt {run.attemptId}")
      else (requestedRuns allRuns attemptId rest).map (run :: ·)

def selectChangeRuns (attemptId : String) (requestedRunIds : List String) :
    Command (List AgentRun) := do
  let listed ← listRuns T
  let allRuns := listed.map Listed.body
  let selected ← (if requestedRunIds.isEmpty then
      .ok (allRuns.filter fun run => run.attemptId == attemptId)
    else requestedRuns allRuns attemptId requestedRunIds : Except CliError (List AgentRun))
  let sorted := selected.mergeSort fun left right => decide (left.runId ≤ right.runId)
  return sorted.destutter fun left right => left.runId ≠ right.runId

def relatedContractHashes (runs : List AgentRun) : List String :=
  sortedDedup (runs.flatMap AgentRun.rdlManifestHashes)

/-- The evidence of the diff that is found in the work tree of the attempt. -/
def changeOf (attempt : AgentAttempt) (detected : WorktreeDiff) (selectedRuns : List AgentRun) :
    ChangeEvidence :=
  let runIds := selectedRuns.map AgentRun.runId
  { changeId := stableJsonHash T.toCrates (.obj [("attempt_id", .str attempt.attemptId),
      ("diff_hash", .str detected.diffHash), ("run_ids", listValue .str runIds)] (by simp))
    intentId := attempt.intentId, attemptId := attempt.attemptId, runIds
    baseCommit := attempt.baseCommit, filePaths := detected.filePaths
    diffSummary := detected.diffSummary, symbols := [], diffHash := detected.diffHash
    relatedContractHashes := relatedContractHashes selectedRuns, diagnostics := [] }

structure ChangeDetectInput where
  attemptId : String
  runIds : List String

def changeDetect (input : ChangeDetectInput) : Command (ChangeEvidence × ObjectWriteReport) := do
  let signing ← env.signing
  let attempt ← findAttempt T input.attemptId
  let detected ← detectAttemptDiff T env attempt
  if detected.changed = false then
    .fail (.bail s!"no worktree changes detected for attempt {attempt.attemptId}; refusing to write empty agent.change evidence")
  else
    let selectedRuns ← selectChangeRuns T attempt.attemptId input.runIds
    let change := changeOf T attempt detected selectedRuns
    let object ← writeRecord T "agent.change" change.toValue signing
    return (change, object)

/-! ## Patches -/

/-- The id of the patch of these changes. -/
def patchIdOf (attemptId : String) (changeIds : List String) : String :=
  stableJsonHash T.toCrates (.obj [("attempt_id", .str attemptId),
    ("change_ids", listValue .str changeIds)] (by simp))

/-- The record of the diff that is found in the work tree of the attempt. -/
def patchDiffOf (patchId : String) (attempt : AgentAttempt) (detected : WorktreeDiff) : PatchDiff :=
  { patchId, attemptId := attempt.attemptId, baseCommit := attempt.baseCommit
    diffHash := detected.diffHash, diffBytes := detected.diffBytes
    filePaths := detected.filePaths, encoding := "hex"
    encodedDiff := hexEncode detected.rawDiff }

/-- The patch of all changes of the attempt, with the diff object just written. -/
def preparedPatchOf (attempt : AgentAttempt) (changes : List ChangeEvidence)
    (diffObjectId : String) : PreparedPatch :=
  let changeIds := sortedDedup (changes.map ChangeEvidence.changeId)
  { patchId := patchIdOf T attempt.attemptId changeIds, intentId := attempt.intentId
    attemptId := attempt.attemptId, baseCommit := attempt.baseCommit, changeIds
    runIds := sortedDedup (changes.flatMap ChangeEvidence.runIds)
    filePaths := sortedDedup (changes.flatMap ChangeEvidence.filePaths)
    diffHashes := sortedDedup (changes.map ChangeEvidence.diffHash)
    diffObjectIds := [diffObjectId]
    relatedContractHashes := sortedDedup (changes.flatMap ChangeEvidence.relatedContractHashes)
    diagnostics := [] }

def patchPrepare (attemptId : String) : Command (PreparedPatch × ObjectWriteReport) := do
  let signing ← env.signing
  let attempt ← findAttempt T attemptId
  let listed ← listChanges T
  let changes := (listed.map Listed.body).filter fun change =>
    change.attemptId == attempt.attemptId
  if changes.isEmpty then
    .fail (.bail s!"no change evidence found for attempt {attempt.attemptId}")
  else
    let detected ← detectAttemptDiff T env attempt
    if changes.any fun change => change.diffHash == detected.diffHash then
      let changeIds := sortedDedup (changes.map ChangeEvidence.changeId)
      let patchDiff := patchDiffOf (patchIdOf T attempt.attemptId changeIds) attempt detected
      let diffObject ← writeRecord T "agent.patch_diff" patchDiff.toValue signing
      let patch := preparedPatchOf T attempt changes diffObject.objectId
      let object ← writeRecord T "agent.patch" patch.toValue signing
      return (patch, object)
    else
      .fail (.bail s!"current attempt worktree diff hash {detected.diffHash} does not match change evidence for attempt {attempt.attemptId}")

structure PatchApplyInput where
  patchId : String
  allowDirty : Bool
  allowBaseDrift : Bool
  appliedBy : Option String
  reason : Option String
  idempotencyKey : Option String

/-- The loop of `find_patch_application_by_idempotency`. -/
def findPatchApplication (patchId idempotencyKey : String) :
    List ObjectListEntry → Command (Option PatchApplication)
  | [] => return none
  | entry :: rest => do
    let report ← (readCachedObject T.toCrates entry.objectId).mapFail .git
    let application ← bodyOf T "PatchApplication" PatchApplication.ofValue report.object
    if application.patchId = patchId ∧ application.idempotencyKey = some idempotencyKey then
      return some application
    else findPatchApplication patchId idempotencyKey rest

/-- An earlier application of the patch under the key of the call, if it has one. -/
def findReplay (patchId : String) : Option String → Command (Option PatchApplication)
  | none => return none
  | some idempotencyKey => do
    let entries ← (listRefBackedObjects T.toCrates (some "agent.patch_application")).mapFail .git
    findPatchApplication T patchId idempotencyKey entries

/-- The application, and the object if this call wrote it. -/
def patchApply (input : PatchApplyInput) :
    Command (PatchApplication × Option ObjectWriteReport) := do
  let patches ← listPatches T
  match patches.find? fun entry => entry.body.patchId == input.patchId with
  | none => .fail (.bail s!"patch {input.patchId} was not found")
  | some entry =>
    let patch := entry.body
    let attempt ← findAttempt T patch.attemptId
    if attempt.baseCommit ≠ patch.baseCommit then
      .fail (.bail s!"attempt {attempt.attemptId} base commit {attempt.baseCommit} does not match prepared patch base commit {patch.baseCommit}")
    else
      match ← env.headCommit with
      | none => .fail (.bail "repository HEAD does not point to a commit")
      | some headCommit =>
        if input.allowBaseDrift = false ∧ headCommit ≠ patch.baseCommit then
          .fail (.bail s!"repository HEAD {headCommit} does not match prepared patch base commit {patch.baseCommit}; pass --allow-base-drift to override")
        else
          let resolved ← resolvePatchDiff (toolsIn T env) patch attempt
          if resolved.rawDiff.isEmpty then
            .fail (.bail s!"patch {patch.patchId} has no diff bytes to apply")
          else
            env.tempPatchFile patch.patchId resolved.rawDiff
            match ← findReplay T patch.patchId input.idempotencyKey with
            | some application => return (application, none)
            | none =>
              skipIf input.allowDirty env.ensureCleanWorktree
              env.gitApplyFile true resolved.rawDiff
              env.gitApplyFile false resolved.rawDiff
              let appliedAtMs ← env.nowMs
              let application : PatchApplication := {
                patchId := patch.patchId, attemptId := attempt.attemptId
                baseCommit := attempt.baseCommit, headCommit, diffHash := resolved.diffHash
                diffBytes := resolved.diffBytes, filePaths := resolved.filePaths
                appliedBy := input.appliedBy, reason := input.reason
                idempotencyKey := input.idempotencyKey, appliedAtMs }
              let object ← writeRecord T "agent.patch_application" application.toValue none
              return (application, some object)

structure PatchRetireInput where
  patchId : String
  reason : String
  retiredBy : Option String
  idempotencyKey : Option String

def patchRetire (input : PatchRetireInput) : Command (PatchRetirement × ObjectWriteReport) := do
  let patches ← listPatches T
  if patches.any fun entry => entry.body.patchId == input.patchId then
    if isBlank input.reason then
      .fail (.bail "patch retirement reason must be non-empty")
    else
      let retiredAtMs ← env.nowMs
      let retirement : PatchRetirement := {
        patchId := input.patchId, reason := input.reason, retiredBy := input.retiredBy
        idempotencyKey := input.idempotencyKey, retiredAtMs }
      let object ← writeRecord T "agent.patch_retirement" retirement.toValue none
      return (retirement, object)
  else .fail (.bail s!"patch {input.patchId} was not found")

end Commands

/-! ## Sequences of commands -/

inductive TypedCommand where
  | intentWrite (env : Environment) (intent : Except CliError WorkIntent)
  | issueImport (env : Environment) (args : IssueImportArgs)
  | workStart (env : Environment) (args : WorkStartArgs)
  | attemptStart (env : Environment) (input : AttemptStartInput) (inPlace : Bool)
  | runExec (env : Environment) (input : RunExecInput)
  | changeDetect (env : Environment) (input : ChangeDetectInput)
  | patchPrepare (env : Environment) (attemptId : String)
  | attemptSubmit (env : Environment) (input : AttemptTransitionInput)
  | attemptAbandon (env : Environment) (input : AttemptTransitionInput)
  | patchApply (env : Environment) (input : PatchApplyInput)
  | patchRetire (env : Environment) (input : PatchRetireInput)

/-- The program of a call, its report left out. -/
def TypedCommand.prog (T : Tools) : TypedCommand → Command Unit
  | intentWrite env intent => do let _ ← Cli.intentWrite T env intent
  | issueImport env args => do let _ ← Cli.issueImport T env args
  | workStart env args => do let _ ← Cli.workStart T env args
  | attemptStart env input inPlace => do let _ ← Cli.attemptStart T env input inPlace
  | runExec env input => do let _ ← Cli.runExec T env input
  | changeDetect env input => do let _ ← Cli.changeDetect T env input
  | patchPrepare env attemptId => do let _ ← Cli.patchPrepare T env attemptId
  | attemptSubmit env input => do let _ ← Cli.attemptSubmit T env input
  | attemptAbandon env input => do let _ ← Cli.attemptAbandon T env input
  | patchApply env input => do let _ ← Cli.patchApply T env input
  | patchRetire env input => do let _ ← Cli.patchRetire T env input

/-- The store after the calls, one after another, failed ones included. -/
def runAll (T : Tools) (s : ObjectStore) : List TypedCommand → ObjectStore
  | [] => s
  | call :: rest => runAll T ((call.prog T).run exec s).2 rest

end RickydataGit.Cli
