/-
  The records the commands write.

  Every record has a writer (`toValue`, what `serde_json::to_value` gives) and most have
  a reader (`ofValue`). `ReadBack read write` : what was written is read back from its
  canonical form. It holds of strings, integers, lists and options, and from these of
  every record that a command reads after another has written it
  (`AgentAttempt.readBack` .. `PatchRetirement.readBack`).
-/
import RickydataGit.Cli.Attempts

namespace RickydataGit.Cli

open RickydataGit.Lib RickydataGit.Core RickydataGit.Git

/-! ## Fields -/

/-- `null` or the value, as an `Option` field is written. -/
def optionValue {α : Type} (write : α → Value) : Option α → Value
  | none => .null
  | some a => write a

def listValue {α : Type} (write : α → Value) (as : List α) : Value := .arr (as.map write)

/-- What was written is read back from its canonical form. -/
def ReadBack {α : Type} (read : Value → Option α) (write : α → Value) : Prop :=
  ∀ a, read (canonicalJson (write a)) = some a

section ReadBack

variable {α : Type} {read : Value → Option α} {write : α → Value}

theorem readBack_str : ReadBack readStr .str := fun _ => rfl

theorem readBack_u64 : ReadBack readU64 .ofU64 := fun n => by
  rw [canonicalJson_ofU64, readU64_ofU64]

@[simp] theorem readBool_bool (b : Bool) : readBool (.bool b) = some b := rfl

theorem ReadBack.list (h : ReadBack read write) : ReadBack (readList read) (listValue write) := by
  intro as
  have hm : ((as.map write).map canonicalJson).mapM read = some as := by
    induction as with
    | nil => rfl
    | cons a as ih =>
      simp only [List.map_cons, List.mapM_cons, h a, ih]
      rfl
  rw [listValue, canonicalJson_arr, readList, Value.elems_arr]
  exact hm

/-- An `Option` field, whose values are not written as `null`. -/
theorem ReadBack.option (h : ReadBack read write) (hnull : read .null = none) (o : Option α) :
    readOption read (some (canonicalJson (optionValue write o))) = some o := by
  cases o with
  | none => rfl
  | some a =>
    have ha := h a
    rw [optionValue, readOption]
    split
    · next htree =>
        rw [Value.ext_tree (v := canonicalJson (write a)) (w := .null) htree, hnull] at ha
        cases ha
    · rw [ha]
      rfl

end ReadBack

/-! ## Intents -/

inductive PrivacyClass where
  | publicMetadata
  | privateBody
  | secret
  | encrypted
  deriving DecidableEq

def PrivacyClass.ofValue (v : Value) : Option PrivacyClass := do
  match ← readVariant v with
  | "public_metadata" => some .publicMetadata
  | "private_body" => some .privateBody
  | "secret" => some .secret
  | "encrypted" => some .encrypted
  | _ => none

def PrivacyClass.toValue : PrivacyClass → Value
  | publicMetadata => .str "public_metadata"
  | privateBody => .str "private_body"
  | secret => .str "secret"
  | encrypted => .str "encrypted"

structure IssueRef where
  platform : String
  repository : String
  id : String
  url : Option String
  deriving DecidableEq

def IssueRef.ofValue (v : Value) : Option IssueRef := do
  let field ← asStruct ["platform", "repository", "id", "url"] v
  let platform ← (field "platform").bind readStr
  let repository ← (field "repository").bind readStr
  let id ← (field "id").bind readStr
  let url ← readOption readStr (field "url")
  return { platform, repository, id, url }

def IssueRef.toValue (issue : IssueRef) : Value :=
  .obj [("platform", .str issue.platform), ("repository", .str issue.repository),
    ("id", .str issue.id), ("url", optionValue .str issue.url)] (by simp)

structure TaskRef where
  system : String
  id : String
  title : Option String
  deriving DecidableEq

def TaskRef.ofValue (v : Value) : Option TaskRef := do
  let field ← asStruct ["system", "id", "title"] v
  let system ← (field "system").bind readStr
  let id ← (field "id").bind readStr
  let title ← readOption readStr (field "title")
  return { system, id, title }

def TaskRef.toValue (task : TaskRef) : Value :=
  .obj [("system", .str task.system), ("id", .str task.id),
    ("title", optionValue .str task.title)] (by simp)

structure TeePolicy where
  required : Bool
  acceptedTrustBundleHashes : List String
  acceptedOperations : List String
  deriving DecidableEq

def TeePolicy.ofValue (v : Value) : Option TeePolicy := do
  let field ← asStruct ["required", "accepted_trust_bundle_hashes", "accepted_operations"] v
  let required ← (field "required").bind readBool
  let acceptedTrustBundleHashes ← (field "accepted_trust_bundle_hashes").bind (readList readStr)
  let acceptedOperations ← (field "accepted_operations").bind (readList readStr)
  return { required, acceptedTrustBundleHashes, acceptedOperations }

def TeePolicy.toValue (policy : TeePolicy) : Value :=
  .obj [("required", .bool policy.required),
    ("accepted_trust_bundle_hashes", listValue .str policy.acceptedTrustBundleHashes),
    ("accepted_operations", listValue .str policy.acceptedOperations)] (by simp)

structure SignerReceiptRef where
  receiptHash : String
  operation : String
  trustBundleHash : String
  counterNamespace : String
  counterValue : UInt64
  deriving DecidableEq

def SignerReceiptRef.ofValue (v : Value) : Option SignerReceiptRef := do
  let field ← asStruct ["receipt_hash", "operation", "trust_bundle_hash", "counter_namespace",
    "counter_value"] v
  let receiptHash ← (field "receipt_hash").bind readStr
  let operation ← (field "operation").bind readStr
  let trustBundleHash ← (field "trust_bundle_hash").bind readStr
  let counterNamespace ← (field "counter_namespace").bind readStr
  let counterValue ← (field "counter_value").bind readU64
  return { receiptHash, operation, trustBundleHash, counterNamespace, counterValue }

def SignerReceiptRef.toValue (receipt : SignerReceiptRef) : Value :=
  .obj [("receipt_hash", .str receipt.receiptHash), ("operation", .str receipt.operation),
    ("trust_bundle_hash", .str receipt.trustBundleHash),
    ("counter_namespace", .str receipt.counterNamespace),
    ("counter_value", .ofU64 receipt.counterValue)] (by simp)

structure ReleaseGuardPolicy where
  required : Bool
  reason : String
  signerReceipt : Option SignerReceiptRef
  deriving DecidableEq

def ReleaseGuardPolicy.ofValue (v : Value) : Option ReleaseGuardPolicy := do
  let field ← asStruct ["required", "reason", "signer_receipt"] v
  let required ← (field "required").bind readBool
  let reason ← (field "reason").bind readStr
  let signerReceipt ← readOption SignerReceiptRef.ofValue (field "signer_receipt")
  return { required, reason, signerReceipt }

def ReleaseGuardPolicy.toValue (policy : ReleaseGuardPolicy) : Value :=
  .obj [("required", .bool policy.required), ("reason", .str policy.reason),
    ("signer_receipt", optionValue SignerReceiptRef.toValue policy.signerReceipt)] (by simp)

structure WorkIntent where
  objective : String
  issueRefs : List IssueRef
  taskRefs : List TaskRef
  baseCommit : Option String
  allowedCapabilities : List String
  privacy : PrivacyClass
  teePolicy : Option TeePolicy
  releaseGuard : Option ReleaseGuardPolicy
  createdBy : Option String
  deriving DecidableEq

def WorkIntent.ofValue (v : Value) : Option WorkIntent := do
  let field ← asStruct ["objective", "issue_refs", "task_refs", "base_commit",
    "allowed_capabilities", "privacy", "tee_policy", "release_guard", "created_by"] v
  let objective ← (field "objective").bind readStr
  let issueRefs ← (field "issue_refs").bind (readList IssueRef.ofValue)
  let taskRefs ← (field "task_refs").bind (readList TaskRef.ofValue)
  let baseCommit ← readOption readStr (field "base_commit")
  let allowedCapabilities ← (field "allowed_capabilities").bind (readList readStr)
  let privacy ← (field "privacy").bind PrivacyClass.ofValue
  let teePolicy ← readOption TeePolicy.ofValue (field "tee_policy")
  let releaseGuard ← readOption ReleaseGuardPolicy.ofValue (field "release_guard")
  let createdBy ← readOption readStr (field "created_by")
  return {
    objective, issueRefs, taskRefs, baseCommit, allowedCapabilities, privacy, teePolicy
    releaseGuard, createdBy }

def WorkIntent.toValue (intent : WorkIntent) : Value :=
  .obj [("objective", .str intent.objective),
    ("issue_refs", listValue IssueRef.toValue intent.issueRefs),
    ("task_refs", listValue TaskRef.toValue intent.taskRefs),
    ("base_commit", optionValue .str intent.baseCommit),
    ("allowed_capabilities", listValue .str intent.allowedCapabilities),
    ("privacy", intent.privacy.toValue),
    ("tee_policy", optionValue TeePolicy.toValue intent.teePolicy),
    ("release_guard", optionValue ReleaseGuardPolicy.toValue intent.releaseGuard),
    ("created_by", optionValue .str intent.createdBy)] (by simp)

theorem PrivacyClass.readBack : ReadBack PrivacyClass.ofValue PrivacyClass.toValue := by
  intro privacy
  cases privacy <;> rfl

theorem IssueRef.readBack : ReadBack IssueRef.ofValue IssueRef.toValue := by
  intro issue
  simp [IssueRef.ofValue, IssueRef.toValue, asStruct_canonicalJson_obj, Value.get_obj,
    readBack_str.option rfl]

theorem TaskRef.readBack : ReadBack TaskRef.ofValue TaskRef.toValue := by
  intro task
  simp [TaskRef.ofValue, TaskRef.toValue, asStruct_canonicalJson_obj, Value.get_obj,
    readBack_str.option rfl]

theorem TeePolicy.readBack : ReadBack TeePolicy.ofValue TeePolicy.toValue := by
  intro policy
  simp [TeePolicy.ofValue, TeePolicy.toValue, asStruct_canonicalJson_obj, Value.get_obj,
    readBack_str.list _]

theorem SignerReceiptRef.readBack :
    ReadBack SignerReceiptRef.ofValue SignerReceiptRef.toValue := by
  intro receipt
  simp [SignerReceiptRef.ofValue, SignerReceiptRef.toValue, asStruct_canonicalJson_obj,
    Value.get_obj]

theorem ReleaseGuardPolicy.readBack :
    ReadBack ReleaseGuardPolicy.ofValue ReleaseGuardPolicy.toValue := by
  intro policy
  simp [ReleaseGuardPolicy.ofValue, ReleaseGuardPolicy.toValue, asStruct_canonicalJson_obj,
    Value.get_obj, SignerReceiptRef.readBack.option rfl]

theorem WorkIntent.readBack : ReadBack WorkIntent.ofValue WorkIntent.toValue := by
  intro intent
  have hissues := IssueRef.readBack.list intent.issueRefs
  have htasks := TaskRef.readBack.list intent.taskRefs
  have hcapabilities := readBack_str.list intent.allowedCapabilities
  have hprivacy := PrivacyClass.readBack intent.privacy
  have htee := TeePolicy.readBack.option rfl intent.teePolicy
  have hguard := ReleaseGuardPolicy.readBack.option rfl intent.releaseGuard
  simp [WorkIntent.ofValue, WorkIntent.toValue, asStruct_canonicalJson_obj, Value.get_obj,
    readBack_str.option rfl, hissues, htasks, hcapabilities, hprivacy, htee, hguard]

/-! ## Attempts -/

def AttemptStatus.name : AttemptStatus → String
  | planned => "planned"
  | running => "running"
  | submitted => "submitted"
  | abandoned => "abandoned"
  | integrated => "integrated"

def AttemptStatus.toValue (status : AttemptStatus) : Value := .str status.name

theorem AttemptStatus.readBack : ReadBack AttemptStatus.ofValue AttemptStatus.toValue := by
  intro status
  cases status <;> rfl

/-- `in_place` is left out when it is false. -/
def AgentAttempt.toValue (attempt : AgentAttempt) : Value :=
  .obj ([("attempt_id", .str attempt.attemptId), ("intent_id", .str attempt.intentId),
      ("base_commit", .str attempt.baseCommit), ("agent_id", .str attempt.agentId),
      ("lease_expires_at_ms", optionValue .ofU64 attempt.leaseExpiresAtMs),
      ("status", attempt.status.toValue)] ++
    optionalMember "in_place" (if attempt.inPlace then some (.bool true) else none)) (by
      cases attempt.inPlace <;> simp [optionalMember])

theorem AgentAttempt.readBack : ReadBack AgentAttempt.ofValue AgentAttempt.toValue := by
  rintro ⟨attemptId, intentId, baseCommit, agentId, leaseExpiresAtMs, status, inPlace⟩
  have hlease := readBack_u64.option rfl leaseExpiresAtMs
  have hstatus := AttemptStatus.readBack status
  cases inPlace <;>
    simp [AgentAttempt.ofValue, AgentAttempt.toValue, asStruct_canonicalJson_obj, Value.get_obj,
      optionalMember, hlease, hstatus, readDefault]

def AttemptStatusTransition.toValue (transition : AttemptStatusTransition) : Value :=
  .obj [("attempt_id", .str transition.attemptId), ("status", transition.status.toValue),
    ("reason", optionValue .str transition.reason),
    ("created_by", optionValue .str transition.createdBy),
    ("created_at_ms", .ofU64 transition.createdAtMs)] (by simp)

theorem AttemptStatusTransition.readBack :
    ReadBack AttemptStatusTransition.ofValue AttemptStatusTransition.toValue := by
  rintro ⟨attemptId, status, reason, createdBy, createdAtMs⟩
  have hstatus := AttemptStatus.readBack status
  have hreason := readBack_str.option rfl reason
  have hby := readBack_str.option rfl createdBy
  simp [AttemptStatusTransition.ofValue, AttemptStatusTransition.toValue,
    asStruct_canonicalJson_obj, Value.get_obj, hstatus, hreason, hby]

/-! ## Runs -/

inductive AgentRunResult where
  | succeeded
  | failed
  | cancelled
  deriving DecidableEq

def AgentRunResult.ofValue (v : Value) : Option AgentRunResult := do
  match ← readVariant v with
  | "succeeded" => some .succeeded
  | "failed" => some .failed
  | "cancelled" => some .cancelled
  | _ => none

def AgentRunResult.toValue : AgentRunResult → Value
  | succeeded => .str "succeeded"
  | failed => .str "failed"
  | cancelled => .str "cancelled"

theorem AgentRunResult.readBack : ReadBack AgentRunResult.ofValue AgentRunResult.toValue := by
  intro result
  cases result <;> rfl

structure AgentRun where
  runId : String
  attemptId : String
  traceHash : Option String
  commandHashes : List String
  rdlManifestHashes : List String
  startedAtMs : UInt64
  finishedAtMs : Option UInt64
  result : Option AgentRunResult
  deriving DecidableEq

def AgentRun.ofValue (v : Value) : Option AgentRun := do
  let field ← asStruct ["run_id", "attempt_id", "trace_hash", "command_hashes",
    "rdl_manifest_hashes", "started_at_ms", "finished_at_ms", "result"] v
  let runId ← (field "run_id").bind readStr
  let attemptId ← (field "attempt_id").bind readStr
  let traceHash ← readOption readStr (field "trace_hash")
  let commandHashes ← (field "command_hashes").bind (readList readStr)
  let rdlManifestHashes ← (field "rdl_manifest_hashes").bind (readList readStr)
  let startedAtMs ← (field "started_at_ms").bind readU64
  let finishedAtMs ← readOption readU64 (field "finished_at_ms")
  let result ← readOption AgentRunResult.ofValue (field "result")
  return {
    runId, attemptId, traceHash, commandHashes, rdlManifestHashes, startedAtMs, finishedAtMs
    result }

def AgentRun.toValue (run : AgentRun) : Value :=
  .obj [("run_id", .str run.runId), ("attempt_id", .str run.attemptId),
    ("trace_hash", optionValue .str run.traceHash),
    ("command_hashes", listValue .str run.commandHashes),
    ("rdl_manifest_hashes", listValue .str run.rdlManifestHashes),
    ("started_at_ms", .ofU64 run.startedAtMs),
    ("finished_at_ms", optionValue .ofU64 run.finishedAtMs),
    ("result", optionValue AgentRunResult.toValue run.result)] (by simp)

theorem AgentRun.readBack : ReadBack AgentRun.ofValue AgentRun.toValue := by
  rintro ⟨runId, attemptId, traceHash, commandHashes, rdlManifestHashes, startedAtMs,
    finishedAtMs, result⟩
  have htrace := readBack_str.option rfl traceHash
  have hcommands := readBack_str.list commandHashes
  have hmanifests := readBack_str.list rdlManifestHashes
  have hfinished := readBack_u64.option rfl finishedAtMs
  have hresult := AgentRunResult.readBack.option rfl result
  simp [AgentRun.ofValue, AgentRun.toValue, asStruct_canonicalJson_obj, Value.get_obj, htrace,
    hcommands, hmanifests, hfinished, hresult]

/-- The commands write no `encrypted_body`, and none is left out. -/
structure AgentRunTrace where
  traceId : String
  attemptId : String
  commandHash : String
  commandArgv : Option (List String)
  executable : Option String
  argCount : UInt64
  exitCode : Option Int32
  stdoutHash : String
  stderrHash : String
  stdoutBytes : UInt64
  stderrBytes : UInt64
  startedAtMs : UInt64
  finishedAtMs : UInt64
  result : AgentRunResult
  privacy : PrivacyClass

/-- `Number::from(i32)`. -/
def i32Value (i : Int32) : Value := .num (.ofI64 i.toInt64)

def AgentRunTrace.toValue (trace : AgentRunTrace) : Value :=
  .obj [("trace_id", .str trace.traceId), ("attempt_id", .str trace.attemptId),
    ("command_hash", .str trace.commandHash),
    ("command_argv", optionValue (listValue .str) trace.commandArgv),
    ("executable", optionValue .str trace.executable), ("arg_count", .ofU64 trace.argCount),
    ("exit_code", optionValue i32Value trace.exitCode), ("stdout_hash", .str trace.stdoutHash),
    ("stderr_hash", .str trace.stderrHash), ("stdout_bytes", .ofU64 trace.stdoutBytes),
    ("stderr_bytes", .ofU64 trace.stderrBytes), ("started_at_ms", .ofU64 trace.startedAtMs),
    ("finished_at_ms", .ofU64 trace.finishedAtMs), ("result", trace.result.toValue),
    ("privacy", trace.privacy.toValue)] (by simp)

/-! ## Changes -/

structure DiffSummary where
  fileCount : UInt64
  filesAdded : UInt64
  filesModified : UInt64
  filesDeleted : UInt64
  filesRenamed : UInt64
  binaryFileCount : UInt64
  insertions : UInt64
  deletions : UInt64
  deriving DecidableEq

/-- `#[derive(Default)]`. -/
def DiffSummary.empty : DiffSummary := ⟨0, 0, 0, 0, 0, 0, 0, 0⟩

def DiffSummary.ofValue (v : Value) : Option DiffSummary := do
  let field ← asStruct ["file_count", "files_added", "files_modified", "files_deleted",
    "files_renamed", "binary_file_count", "insertions", "deletions"] v
  let fileCount ← (field "file_count").bind readU64
  let filesAdded ← (field "files_added").bind readU64
  let filesModified ← (field "files_modified").bind readU64
  let filesDeleted ← (field "files_deleted").bind readU64
  let filesRenamed ← (field "files_renamed").bind readU64
  let binaryFileCount ← (field "binary_file_count").bind readU64
  let insertions ← (field "insertions").bind readU64
  let deletions ← (field "deletions").bind readU64
  return {
    fileCount, filesAdded, filesModified, filesDeleted, filesRenamed, binaryFileCount, insertions
    deletions }

def DiffSummary.toValue (summary : DiffSummary) : Value :=
  .obj [("file_count", .ofU64 summary.fileCount), ("files_added", .ofU64 summary.filesAdded),
    ("files_modified", .ofU64 summary.filesModified),
    ("files_deleted", .ofU64 summary.filesDeleted), ("files_renamed", .ofU64 summary.filesRenamed),
    ("binary_file_count", .ofU64 summary.binaryFileCount),
    ("insertions", .ofU64 summary.insertions), ("deletions", .ofU64 summary.deletions)] (by simp)

theorem DiffSummary.readBack : ReadBack DiffSummary.ofValue DiffSummary.toValue := by
  intro summary
  simp [DiffSummary.ofValue, DiffSummary.toValue, asStruct_canonicalJson_obj, Value.get_obj]

structure SymbolRef where
  language : String
  filePath : String
  symbolName : String
  range : Option SourceSpan
  contentHash : String
  deriving DecidableEq

def SymbolRef.ofValue (v : Value) : Option SymbolRef := do
  let field ← asStruct ["language", "file_path", "symbol_name", "range", "content_hash"] v
  let language ← (field "language").bind readStr
  let filePath ← (field "file_path").bind readStr
  let symbolName ← (field "symbol_name").bind readStr
  let range ← readOption SourceSpan.ofValue (field "range")
  let contentHash ← (field "content_hash").bind readStr
  return { language, filePath, symbolName, range, contentHash }

/-- `Number::from(u32)`. -/
def u32Value (n : UInt32) : Value := .ofU64 n.toUInt64

theorem readBack_u32 : ReadBack readU32 u32Value := by
  intro n
  have hlt : n.toUInt64.toNat < 2 ^ 32 := by
    rw [UInt32.toNat_toUInt64]
    exact n.toNat_lt
  rw [u32Value, canonicalJson_ofU64, readU32, readU64_ofU64, Option.bind_some, if_pos hlt]
  simp

def SourceSpan.toValue (span : SourceSpan) : Value :=
  .obj [("file_path", .str span.filePath), ("start_line", u32Value span.startLine),
    ("start_column", u32Value span.startColumn), ("end_line", u32Value span.endLine),
    ("end_column", u32Value span.endColumn)] (by simp)

theorem SourceSpan.readBack : ReadBack SourceSpan.ofValue SourceSpan.toValue := by
  intro span
  simp [SourceSpan.ofValue, SourceSpan.toValue, asStruct_canonicalJson_obj, Value.get_obj,
    readBack_u32 _]

def SymbolRef.toValue (symbol : SymbolRef) : Value :=
  .obj [("language", .str symbol.language), ("file_path", .str symbol.filePath),
    ("symbol_name", .str symbol.symbolName),
    ("range", optionValue SourceSpan.toValue symbol.range),
    ("content_hash", .str symbol.contentHash)] (by simp)

theorem SymbolRef.readBack : ReadBack SymbolRef.ofValue SymbolRef.toValue := by
  rintro ⟨language, filePath, symbolName, range, contentHash⟩
  have hrange := SourceSpan.readBack.option rfl range
  simp [SymbolRef.ofValue, SymbolRef.toValue, asStruct_canonicalJson_obj, Value.get_obj, hrange]

def DiagnosticEvidence.toValue (diagnostic : DiagnosticEvidence) : Value :=
  .obj [("code", .str diagnostic.code), ("severity", .str diagnostic.severity),
    ("message", .str diagnostic.message),
    ("span", optionValue SourceSpan.toValue diagnostic.span)] (by simp)

theorem DiagnosticEvidence.readBack :
    ReadBack DiagnosticEvidence.ofValue DiagnosticEvidence.toValue := by
  rintro ⟨code, severity, message, span⟩
  have hspan := SourceSpan.readBack.option rfl span
  simp [DiagnosticEvidence.ofValue, DiagnosticEvidence.toValue, asStruct_canonicalJson_obj,
    Value.get_obj, hspan]

structure ChangeEvidence where
  changeId : String
  intentId : String
  attemptId : String
  runIds : List String
  baseCommit : String
  filePaths : List String
  diffSummary : DiffSummary
  symbols : List SymbolRef
  diffHash : String
  relatedContractHashes : List String
  diagnostics : List DiagnosticEvidence
  deriving DecidableEq

def ChangeEvidence.ofValue (v : Value) : Option ChangeEvidence := do
  let field ← asStruct ["change_id", "intent_id", "attempt_id", "run_ids", "base_commit",
    "file_paths", "diff_summary", "symbols", "diff_hash", "related_contract_hashes",
    "diagnostics"] v
  let changeId ← (field "change_id").bind readStr
  let intentId ← (field "intent_id").bind readStr
  let attemptId ← (field "attempt_id").bind readStr
  let runIds ← (field "run_ids").bind (readList readStr)
  let baseCommit ← (field "base_commit").bind readStr
  let filePaths ← (field "file_paths").bind (readList readStr)
  let diffSummary ← readDefault DiffSummary.empty DiffSummary.ofValue (field "diff_summary")
  let symbols ← (field "symbols").bind (readList SymbolRef.ofValue)
  let diffHash ← (field "diff_hash").bind readStr
  let relatedContractHashes ← (field "related_contract_hashes").bind (readList readStr)
  let diagnostics ← (field "diagnostics").bind (readList DiagnosticEvidence.ofValue)
  return {
    changeId, intentId, attemptId, runIds, baseCommit, filePaths, diffSummary, symbols, diffHash
    relatedContractHashes, diagnostics }

def ChangeEvidence.toValue (change : ChangeEvidence) : Value :=
  .obj [("change_id", .str change.changeId), ("intent_id", .str change.intentId),
    ("attempt_id", .str change.attemptId), ("run_ids", listValue .str change.runIds),
    ("base_commit", .str change.baseCommit), ("file_paths", listValue .str change.filePaths),
    ("diff_summary", change.diffSummary.toValue),
    ("symbols", listValue SymbolRef.toValue change.symbols), ("diff_hash", .str change.diffHash),
    ("related_contract_hashes", listValue .str change.relatedContractHashes),
    ("diagnostics", listValue DiagnosticEvidence.toValue change.diagnostics)] (by simp)

theorem ChangeEvidence.readBack : ReadBack ChangeEvidence.ofValue ChangeEvidence.toValue := by
  rintro ⟨changeId, intentId, attemptId, runIds, baseCommit, filePaths, diffSummary, symbols,
    diffHash, relatedContractHashes, diagnostics⟩
  have hstrings := readBack_str.list
  have hsummary := DiffSummary.readBack diffSummary
  have hsymbols := SymbolRef.readBack.list symbols
  have hdiagnostics := DiagnosticEvidence.readBack.list diagnostics
  simp [ChangeEvidence.ofValue, ChangeEvidence.toValue, asStruct_canonicalJson_obj, Value.get_obj,
    hstrings _, hsummary, hsymbols, hdiagnostics, readDefault]

/-! ## Patches -/

def PreparedPatch.toValue (patch : PreparedPatch) : Value :=
  .obj [("patch_id", .str patch.patchId), ("intent_id", .str patch.intentId),
    ("attempt_id", .str patch.attemptId), ("base_commit", .str patch.baseCommit),
    ("change_ids", listValue .str patch.changeIds), ("run_ids", listValue .str patch.runIds),
    ("file_paths", listValue .str patch.filePaths),
    ("diff_hashes", listValue .str patch.diffHashes),
    ("diff_object_ids", listValue .str patch.diffObjectIds),
    ("related_contract_hashes", listValue .str patch.relatedContractHashes),
    ("diagnostics", listValue DiagnosticEvidence.toValue patch.diagnostics)] (by simp)

theorem PreparedPatch.readBack : ReadBack PreparedPatch.ofValue PreparedPatch.toValue := by
  intro patch
  have hstrings := readBack_str.list
  have hdiagnostics := DiagnosticEvidence.readBack.list patch.diagnostics
  simp [PreparedPatch.ofValue, PreparedPatch.toValue, asStruct_canonicalJson_obj, Value.get_obj,
    hstrings _, hdiagnostics, readDefault]

def PatchDiff.toValue (patchDiff : PatchDiff) : Value :=
  .obj [("patch_id", .str patchDiff.patchId), ("attempt_id", .str patchDiff.attemptId),
    ("base_commit", .str patchDiff.baseCommit), ("diff_hash", .str patchDiff.diffHash),
    ("diff_bytes", .ofU64 patchDiff.diffBytes),
    ("file_paths", listValue .str patchDiff.filePaths), ("encoding", .str patchDiff.encoding),
    ("encoded_diff", .str patchDiff.encodedDiff)] (by simp)

theorem PatchDiff.readBack : ReadBack PatchDiff.ofValue PatchDiff.toValue := by
  intro patchDiff
  have hpaths := readBack_str.list patchDiff.filePaths
  simp [PatchDiff.ofValue, PatchDiff.toValue, asStruct_canonicalJson_obj, Value.get_obj, hpaths]

structure PatchApplication where
  patchId : String
  attemptId : String
  baseCommit : String
  headCommit : String
  diffHash : String
  diffBytes : UInt64
  filePaths : List String
  appliedBy : Option String
  reason : Option String
  idempotencyKey : Option String
  appliedAtMs : UInt64
  deriving DecidableEq

def PatchApplication.ofValue (v : Value) : Option PatchApplication := do
  let field ← asStruct ["patch_id", "attempt_id", "base_commit", "head_commit", "diff_hash",
    "diff_bytes", "file_paths", "applied_by", "reason", "idempotency_key", "applied_at_ms"] v
  let patchId ← (field "patch_id").bind readStr
  let attemptId ← (field "attempt_id").bind readStr
  let baseCommit ← (field "base_commit").bind readStr
  let headCommit ← (field "head_commit").bind readStr
  let diffHash ← (field "diff_hash").bind readStr
  let diffBytes ← (field "diff_bytes").bind readU64
  let filePaths ← (field "file_paths").bind (readList readStr)
  let appliedBy ← readOption readStr (field "applied_by")
  let reason ← readOption readStr (field "reason")
  let idempotencyKey ← readOption readStr (field "idempotency_key")
  let appliedAtMs ← (field "applied_at_ms").bind readU64
  return {
    patchId, attemptId, baseCommit, headCommit, diffHash, diffBytes, filePaths, appliedBy, reason
    idempotencyKey, appliedAtMs }

def PatchApplication.toValue (application : PatchApplication) : Value :=
  .obj [("patch_id", .str application.patchId), ("attempt_id", .str application.attemptId),
    ("base_commit", .str application.baseCommit), ("head_commit", .str application.headCommit),
    ("diff_hash", .str application.diffHash), ("diff_bytes", .ofU64 application.diffBytes),
    ("file_paths", listValue .str application.filePaths),
    ("applied_by", optionValue .str application.appliedBy),
    ("reason", optionValue .str application.reason),
    ("idempotency_key", optionValue .str application.idempotencyKey),
    ("applied_at_ms", .ofU64 application.appliedAtMs)] (by simp)

theorem PatchApplication.readBack :
    ReadBack PatchApplication.ofValue PatchApplication.toValue := by
  intro application
  have hpaths := readBack_str.list application.filePaths
  have hoptions := readBack_str.option rfl
  simp [PatchApplication.ofValue, PatchApplication.toValue, asStruct_canonicalJson_obj,
    Value.get_obj, hpaths, hoptions _]

def PatchRetirement.toValue (retirement : PatchRetirement) : Value :=
  .obj [("patch_id", .str retirement.patchId), ("reason", .str retirement.reason),
    ("retired_by", optionValue .str retirement.retiredBy),
    ("idempotency_key", optionValue .str retirement.idempotencyKey),
    ("retired_at_ms", .ofU64 retirement.retiredAtMs)] (by simp)

theorem PatchRetirement.readBack : ReadBack PatchRetirement.ofValue PatchRetirement.toValue := by
  intro retirement
  have hoptions := readBack_str.option rfl
  simp [PatchRetirement.ofValue, PatchRetirement.toValue, asStruct_canonicalJson_obj,
    Value.get_obj, hoptions _]

end RickydataGit.Cli
