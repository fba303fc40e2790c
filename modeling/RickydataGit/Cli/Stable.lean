/-
  Records of canonical bodies.

  A store keeps some bodies as they were sent and some in canonical form, and two copies of
  one object agree on the canonical form alone. `CanonStable` readers find in the canonical
  form what they found in the body, so two copies that can be read say the same
  (`CanonStable.agree`). The readers of all fields are stable, and so are those of the five
  records that a graph is made of.
-/
import RickydataGit.Cli.Records

namespace RickydataGit.Cli

open RickydataGit.Lib RickydataGit.Core RickydataGit.Git

section Fields

variable {α : Type} {read : Value → Option α}

/-- Two spellings of one value, both read, give one record. -/
theorem CanonStable.agree (h : CanonStable read) {v v' : Value} {a a' : α}
    (hv : canonicalJson v = canonicalJson v') (ha : read v = some a) (ha' : read v' = some a') :
    a = a' := by
  have hcanonical := h v a ha
  rw [hv, h v' a' ha'] at hcanonical
  exact (Option.some.inj hcanonical).symm

theorem readBool_stable : CanonStable readBool := by
  rintro ⟨tree, unique⟩ b h
  cases tree with
  | bool b' => exact h
  | _ => cases h

theorem readU32_stable : CanonStable readU32 := by
  intro v n h
  obtain ⟨m, hm, hn⟩ := Option.bind_eq_some_iff.mp h
  rw [readU32, readU64_stable v m hm]
  exact hn

theorem readVariant_stable : CanonStable readVariant := by
  rintro ⟨tree, unique⟩ name h
  unfold readVariant at h
  split at h
  · next name' htree =>
      obtain rfl := htree
      exact h
  · next name' htree =>
      obtain rfl := htree
      exact h
  · cases h

/-- Only `null` is `null` in canonical form. -/
theorem canonicalJson_null_iff {v : Value} : (canonicalJson v).tree = .null ↔ v.tree = .null := by
  obtain ⟨tree, unique⟩ := v
  cases tree with
  | obj ms =>
    have htree : (canonicalJson ⟨.obj ms, unique⟩).tree = Json.normalize canonicalNumber (.obj ms) :=
      rfl
    rw [htree, Json.normalize_obj]
    exact iff_of_false (by simp) (by simp)
  | null => exact Iff.rfl
  | arr vs =>
    have htree : (canonicalJson ⟨.arr vs, unique⟩).tree = Json.normalize canonicalNumber (.arr vs) :=
      rfl
    rw [htree, Json.normalize]
    exact iff_of_false (by simp) (by simp)
  | _ => exact iff_of_false (fun h => by cases h) (fun h => by cases h)

theorem readOption_some_of_ne {v : Value} (h : v.tree ≠ .null) :
    readOption read (some v) = (read v).map some := by
  rw [readOption]
  split
  · next htree => exact absurd htree h
  · rfl

theorem CanonStable.option (h : CanonStable read) {field : Option Value} {o : Option α}
    (hf : readOption read field = some o) :
    readOption read (field.map canonicalJson) = some o := by
  rcases field with _ | v
  · exact hf
  · by_cases hnull : v.tree = .null
    · obtain rfl := Value.ext_tree (v := v) (w := .null) hnull
      exact hf
    · rw [readOption_some_of_ne hnull] at hf
      obtain ⟨a, ha, rfl⟩ := Option.map_eq_some_iff.mp hf
      rw [Option.map_some, readOption_some_of_ne (mt canonicalJson_null_iff.mp hnull), h v a ha]
      rfl

theorem CanonStable.default (h : CanonStable read) {a b : α} {field : Option Value}
    (hf : readDefault a read field = some b) :
    readDefault a read (field.map canonicalJson) = some b := by
  rcases field with _ | v
  · exact hf
  · exact h v b hf

end Fields

/-! ## Names -/

theorem AttemptStatus.ofValue_stable : CanonStable AttemptStatus.ofValue := by
  intro v status h
  obtain ⟨name, hname, hstatus⟩ := Option.bind_eq_some_iff.mp h
  exact Option.bind_eq_some_iff.mpr ⟨name, readVariant_stable v name hname, hstatus⟩

theorem AgentRunResult.ofValue_stable : CanonStable AgentRunResult.ofValue := by
  intro v result h
  obtain ⟨name, hname, hresult⟩ := Option.bind_eq_some_iff.mp h
  exact Option.bind_eq_some_iff.mpr ⟨name, readVariant_stable v name hname, hresult⟩

theorem PrivacyClass.ofValue_stable : CanonStable PrivacyClass.ofValue := by
  intro v privacy h
  obtain ⟨name, hname, hprivacy⟩ := Option.bind_eq_some_iff.mp h
  exact Option.bind_eq_some_iff.mpr ⟨name, readVariant_stable v name hname, hprivacy⟩

/-! ## Intents -/

theorem IssueRef.ofValue_stable : CanonStable IssueRef.ofValue := by
  intro v issue h
  simp only [IssueRef.ofValue, Option.bind_eq_bind, Option.bind_eq_some_iff] at h
  obtain ⟨field, hfield, platform, h1, repository, h2, id, h3, url, h4, h⟩ := h
  simp only [IssueRef.ofValue, asStruct_stable hfield, Option.bind_eq_bind, Option.bind_some,
    readStr_stable.field h1, readStr_stable.field h2, readStr_stable.field h3,
    readStr_stable.option h4, h]

theorem TaskRef.ofValue_stable : CanonStable TaskRef.ofValue := by
  intro v task h
  simp only [TaskRef.ofValue, Option.bind_eq_bind, Option.bind_eq_some_iff] at h
  obtain ⟨field, hfield, system, h1, id, h2, title, h3, h⟩ := h
  simp only [TaskRef.ofValue, asStruct_stable hfield, Option.bind_eq_bind, Option.bind_some,
    readStr_stable.field h1, readStr_stable.field h2, readStr_stable.option h3, h]

theorem TeePolicy.ofValue_stable : CanonStable TeePolicy.ofValue := by
  intro v policy h
  simp only [TeePolicy.ofValue, Option.bind_eq_bind, Option.bind_eq_some_iff] at h
  obtain ⟨field, hfield, required, h1, hashes, h2, operations, h3, h⟩ := h
  simp only [TeePolicy.ofValue, asStruct_stable hfield, Option.bind_eq_bind, Option.bind_some,
    readBool_stable.field h1, (readList_stable readStr_stable).field h2,
    (readList_stable readStr_stable).field h3, h]

theorem SignerReceiptRef.ofValue_stable : CanonStable SignerReceiptRef.ofValue := by
  intro v receipt h
  simp only [SignerReceiptRef.ofValue, Option.bind_eq_bind, Option.bind_eq_some_iff] at h
  obtain ⟨field, hfield, receiptHash, h1, operation, h2, trustBundleHash, h3, space, h4, count, h5,
    h⟩ := h
  simp only [SignerReceiptRef.ofValue, asStruct_stable hfield, Option.bind_eq_bind,
    Option.bind_some, readStr_stable.field h1, readStr_stable.field h2, readStr_stable.field h3,
    readStr_stable.field h4, readU64_stable.field h5, h]

theorem ReleaseGuardPolicy.ofValue_stable : CanonStable ReleaseGuardPolicy.ofValue := by
  intro v policy h
  simp only [ReleaseGuardPolicy.ofValue, Option.bind_eq_bind, Option.bind_eq_some_iff] at h
  obtain ⟨field, hfield, required, h1, reason, h2, signerReceipt, h3, h⟩ := h
  simp only [ReleaseGuardPolicy.ofValue, asStruct_stable hfield, Option.bind_eq_bind,
    Option.bind_some, readBool_stable.field h1, readStr_stable.field h2,
    SignerReceiptRef.ofValue_stable.option h3, h]

theorem WorkIntent.ofValue_stable : CanonStable WorkIntent.ofValue := by
  intro v intent h
  simp only [WorkIntent.ofValue, Option.bind_eq_bind, Option.bind_eq_some_iff] at h
  obtain ⟨field, hfield, objective, h1, issueRefs, h2, taskRefs, h3, baseCommit, h4, capabilities,
    h5, privacy, h6, teePolicy, h7, releaseGuard, h8, createdBy, h9, h⟩ := h
  simp only [WorkIntent.ofValue, asStruct_stable hfield, Option.bind_eq_bind, Option.bind_some,
    readStr_stable.field h1, (readList_stable IssueRef.ofValue_stable).field h2,
    (readList_stable TaskRef.ofValue_stable).field h3, readStr_stable.option h4,
    (readList_stable readStr_stable).field h5, PrivacyClass.ofValue_stable.field h6,
    TeePolicy.ofValue_stable.option h7, ReleaseGuardPolicy.ofValue_stable.option h8,
    readStr_stable.option h9, h]

/-! ## Attempts and runs -/

theorem AgentAttempt.ofValue_stable : CanonStable AgentAttempt.ofValue := by
  intro v attempt h
  simp only [AgentAttempt.ofValue, Option.bind_eq_bind, Option.bind_eq_some_iff] at h
  obtain ⟨field, hfield, attemptId, h1, intentId, h2, baseCommit, h3, agentId, h4, lease, h5,
    status, h6, inPlace, h7, h⟩ := h
  simp only [AgentAttempt.ofValue, asStruct_stable hfield, Option.bind_eq_bind, Option.bind_some,
    readStr_stable.field h1, readStr_stable.field h2, readStr_stable.field h3,
    readStr_stable.field h4, readU64_stable.option h5, AttemptStatus.ofValue_stable.field h6,
    readBool_stable.default h7, h]

theorem AgentRun.ofValue_stable : CanonStable AgentRun.ofValue := by
  intro v run h
  simp only [AgentRun.ofValue, Option.bind_eq_bind, Option.bind_eq_some_iff] at h
  obtain ⟨field, hfield, runId, h1, attemptId, h2, traceHash, h3, commands, h4, manifests, h5,
    started, h6, finished, h7, result, h8, h⟩ := h
  simp only [AgentRun.ofValue, asStruct_stable hfield, Option.bind_eq_bind, Option.bind_some,
    readStr_stable.field h1, readStr_stable.field h2, readStr_stable.option h3,
    (readList_stable readStr_stable).field h4, (readList_stable readStr_stable).field h5,
    readU64_stable.field h6, readU64_stable.option h7, AgentRunResult.ofValue_stable.option h8, h]

/-! ## Changes and patches -/

theorem DiffSummary.ofValue_stable : CanonStable DiffSummary.ofValue := by
  intro v summary h
  simp only [DiffSummary.ofValue, Option.bind_eq_bind, Option.bind_eq_some_iff] at h
  obtain ⟨field, hfield, fileCount, h1, filesAdded, h2, filesModified, h3, filesDeleted, h4,
    filesRenamed, h5, binaryFileCount, h6, insertions, h7, deletions, h8, h⟩ := h
  simp only [DiffSummary.ofValue, asStruct_stable hfield, Option.bind_eq_bind, Option.bind_some,
    readU64_stable.field h1, readU64_stable.field h2, readU64_stable.field h3,
    readU64_stable.field h4, readU64_stable.field h5, readU64_stable.field h6,
    readU64_stable.field h7, readU64_stable.field h8, h]

theorem SourceSpan.ofValue_stable : CanonStable SourceSpan.ofValue := by
  intro v span h
  simp only [SourceSpan.ofValue, Option.bind_eq_bind, Option.bind_eq_some_iff] at h
  obtain ⟨field, hfield, filePath, h1, startLine, h2, startColumn, h3, endLine, h4, endColumn, h5,
    h⟩ := h
  simp only [SourceSpan.ofValue, asStruct_stable hfield, Option.bind_eq_bind, Option.bind_some,
    readStr_stable.field h1, readU32_stable.field h2, readU32_stable.field h3,
    readU32_stable.field h4, readU32_stable.field h5, h]

theorem SymbolRef.ofValue_stable : CanonStable SymbolRef.ofValue := by
  intro v symbol h
  simp only [SymbolRef.ofValue, Option.bind_eq_bind, Option.bind_eq_some_iff] at h
  obtain ⟨field, hfield, language, h1, filePath, h2, symbolName, h3, range, h4, contentHash, h5,
    h⟩ := h
  simp only [SymbolRef.ofValue, asStruct_stable hfield, Option.bind_eq_bind, Option.bind_some,
    readStr_stable.field h1, readStr_stable.field h2, readStr_stable.field h3,
    SourceSpan.ofValue_stable.option h4, readStr_stable.field h5, h]

theorem DiagnosticEvidence.ofValue_stable : CanonStable DiagnosticEvidence.ofValue := by
  intro v diagnostic h
  simp only [DiagnosticEvidence.ofValue, Option.bind_eq_bind, Option.bind_eq_some_iff] at h
  obtain ⟨field, hfield, code, h1, severity, h2, message, h3, span, h4, h⟩ := h
  simp only [DiagnosticEvidence.ofValue, asStruct_stable hfield, Option.bind_eq_bind,
    Option.bind_some, readStr_stable.field h1, readStr_stable.field h2, readStr_stable.field h3,
    SourceSpan.ofValue_stable.option h4, h]

theorem ChangeEvidence.ofValue_stable : CanonStable ChangeEvidence.ofValue := by
  intro v change h
  simp only [ChangeEvidence.ofValue, Option.bind_eq_bind, Option.bind_eq_some_iff] at h
  obtain ⟨field, hfield, changeId, h1, intentId, h2, attemptId, h3, runIds, h4, baseCommit, h5,
    filePaths, h6, diffSummary, h7, symbols, h8, diffHash, h9, hashes, h10, diagnostics, h11, h⟩ := h
  have hstrings := readList_stable readStr_stable
  simp only [ChangeEvidence.ofValue, asStruct_stable hfield, Option.bind_eq_bind, Option.bind_some,
    readStr_stable.field h1, readStr_stable.field h2, readStr_stable.field h3, hstrings.field h4,
    readStr_stable.field h5, hstrings.field h6, DiffSummary.ofValue_stable.default h7,
    (readList_stable SymbolRef.ofValue_stable).field h8, readStr_stable.field h9,
    hstrings.field h10, (readList_stable DiagnosticEvidence.ofValue_stable).field h11, h]

theorem PreparedPatch.ofValue_stable : CanonStable PreparedPatch.ofValue := by
  intro v patch h
  simp only [PreparedPatch.ofValue, Option.bind_eq_bind, Option.bind_eq_some_iff] at h
  obtain ⟨field, hfield, patchId, h1, intentId, h2, attemptId, h3, baseCommit, h4, changeIds, h5,
    runIds, h6, filePaths, h7, diffHashes, h8, diffObjectIds, h9, hashes, h10, diagnostics, h11,
    h⟩ := h
  have hstrings := readList_stable readStr_stable
  simp only [PreparedPatch.ofValue, asStruct_stable hfield, Option.bind_eq_bind, Option.bind_some,
    readStr_stable.field h1, readStr_stable.field h2, readStr_stable.field h3,
    readStr_stable.field h4, hstrings.field h5, hstrings.field h6, hstrings.field h7,
    hstrings.field h8, hstrings.default h9, hstrings.field h10,
    (readList_stable DiagnosticEvidence.ofValue_stable).field h11, h]

end RickydataGit.Cli
