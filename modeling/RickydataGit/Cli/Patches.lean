/-
  The records of attempts and patches, and the diff a prepared patch stands for.

  `listBodies` lists the objects of a kind and reads the body of each:
  `list_attempts`, `list_patches` and `retired_patch_ids` are three uses of it.
  `resolve_patch_diff` takes the first diff object of the patch, checks it against
  the patch and decodes it; a patch without diff objects is compared with the work
  tree of its attempt.

  Commands that read keep the content of a store, and on sound objects they do not
  depend on what is cached (`listBodies_same`, `resolvePatchDiff_run`). The canonical
  form of a diff object says the same (`checkedPatchDiff_canonical`).
-/
import RickydataGit.Git.Content

namespace RickydataGit.Cli

open RickydataGit.Lib RickydataGit.Core RickydataGit.Git

/-! ## Fields -/

def readList {α : Type} (read : Value → Option α) (v : Value) : Option (List α) :=
  v.elems.bind fun vs => vs.mapM read

def readBool (v : Value) : Option Bool :=
  match v.tree with
  | .bool b => some b
  | _ => none

def readU32 (v : Value) : Option UInt32 :=
  (readU64 v).bind fun n => if n.toNat < 2 ^ 32 then some n.toUInt32 else none

/-- A field with a default: `#[serde(default)]`. -/
def readDefault {α : Type} (default : α) (read : Value → Option α) : Option Value → Option α
  | none => some default
  | some v => read v

/-- A unit variant, by its name or as an object with `null` under its name. -/
def readVariant (v : Value) : Option String :=
  match v.tree with
  | .str name => some name
  | .obj [(name, .null)] => some name
  | _ => none

/-! ## Records -/

inductive AttemptStatus where
  | planned
  | running
  | submitted
  | abandoned
  | integrated
  deriving DecidableEq

def AttemptStatus.ofValue (v : Value) : Option AttemptStatus := do
  match ← readVariant v with
  | "planned" => some .planned
  | "running" => some .running
  | "submitted" => some .submitted
  | "abandoned" => some .abandoned
  | "integrated" => some .integrated
  | _ => none

structure AgentAttempt where
  attemptId : String
  intentId : String
  baseCommit : String
  agentId : String
  leaseExpiresAtMs : Option UInt64
  status : AttemptStatus
  inPlace : Bool
  deriving DecidableEq

def AgentAttempt.ofValue (v : Value) : Option AgentAttempt := do
  let field ← asStruct ["attempt_id", "intent_id", "base_commit", "agent_id",
    "lease_expires_at_ms", "status", "in_place"] v
  let attemptId ← (field "attempt_id").bind readStr
  let intentId ← (field "intent_id").bind readStr
  let baseCommit ← (field "base_commit").bind readStr
  let agentId ← (field "agent_id").bind readStr
  let leaseExpiresAtMs ← readOption readU64 (field "lease_expires_at_ms")
  let status ← (field "status").bind AttemptStatus.ofValue
  let inPlace ← readDefault false readBool (field "in_place")
  return { attemptId, intentId, baseCommit, agentId, leaseExpiresAtMs, status, inPlace }

structure SourceSpan where
  filePath : String
  startLine : UInt32
  startColumn : UInt32
  endLine : UInt32
  endColumn : UInt32
  deriving DecidableEq

def SourceSpan.ofValue (v : Value) : Option SourceSpan := do
  let field ← asStruct ["file_path", "start_line", "start_column", "end_line", "end_column"] v
  let filePath ← (field "file_path").bind readStr
  let startLine ← (field "start_line").bind readU32
  let startColumn ← (field "start_column").bind readU32
  let endLine ← (field "end_line").bind readU32
  let endColumn ← (field "end_column").bind readU32
  return { filePath, startLine, startColumn, endLine, endColumn }

structure DiagnosticEvidence where
  code : String
  severity : String
  message : String
  span : Option SourceSpan
  deriving DecidableEq

def DiagnosticEvidence.ofValue (v : Value) : Option DiagnosticEvidence := do
  let field ← asStruct ["code", "severity", "message", "span"] v
  let code ← (field "code").bind readStr
  let severity ← (field "severity").bind readStr
  let message ← (field "message").bind readStr
  let span ← readOption SourceSpan.ofValue (field "span")
  return { code, severity, message, span }

structure PreparedPatch where
  patchId : String
  intentId : String
  attemptId : String
  baseCommit : String
  changeIds : List String
  runIds : List String
  filePaths : List String
  diffHashes : List String
  diffObjectIds : List String
  relatedContractHashes : List String
  diagnostics : List DiagnosticEvidence
  deriving DecidableEq

def PreparedPatch.ofValue (v : Value) : Option PreparedPatch := do
  let field ← asStruct ["patch_id", "intent_id", "attempt_id", "base_commit", "change_ids",
    "run_ids", "file_paths", "diff_hashes", "diff_object_ids", "related_contract_hashes",
    "diagnostics"] v
  let patchId ← (field "patch_id").bind readStr
  let intentId ← (field "intent_id").bind readStr
  let attemptId ← (field "attempt_id").bind readStr
  let baseCommit ← (field "base_commit").bind readStr
  let changeIds ← (field "change_ids").bind (readList readStr)
  let runIds ← (field "run_ids").bind (readList readStr)
  let filePaths ← (field "file_paths").bind (readList readStr)
  let diffHashes ← (field "diff_hashes").bind (readList readStr)
  let diffObjectIds ← readDefault [] (readList readStr) (field "diff_object_ids")
  let relatedContractHashes ← (field "related_contract_hashes").bind (readList readStr)
  let diagnostics ← (field "diagnostics").bind (readList DiagnosticEvidence.ofValue)
  return {
    patchId, intentId, attemptId, baseCommit, changeIds, runIds, filePaths, diffHashes
    diffObjectIds, relatedContractHashes, diagnostics }

structure PatchDiff where
  patchId : String
  attemptId : String
  baseCommit : String
  diffHash : String
  diffBytes : UInt64
  filePaths : List String
  encoding : String
  encodedDiff : String
  deriving DecidableEq

def PatchDiff.ofValue (v : Value) : Option PatchDiff := do
  let field ← asStruct ["patch_id", "attempt_id", "base_commit", "diff_hash", "diff_bytes",
    "file_paths", "encoding", "encoded_diff"] v
  let patchId ← (field "patch_id").bind readStr
  let attemptId ← (field "attempt_id").bind readStr
  let baseCommit ← (field "base_commit").bind readStr
  let diffHash ← (field "diff_hash").bind readStr
  let diffBytes ← (field "diff_bytes").bind readU64
  let filePaths ← (field "file_paths").bind (readList readStr)
  let encoding ← (field "encoding").bind readStr
  let encodedDiff ← (field "encoded_diff").bind readStr
  return {
    patchId, attemptId, baseCommit, diffHash, diffBytes, filePaths, encoding, encodedDiff }

structure PatchRetirement where
  patchId : String
  reason : String
  retiredBy : Option String
  idempotencyKey : Option String
  retiredAtMs : UInt64
  deriving DecidableEq

def PatchRetirement.ofValue (v : Value) : Option PatchRetirement := do
  let field ← asStruct ["patch_id", "reason", "retired_by", "idempotency_key", "retired_at_ms"] v
  let patchId ← (field "patch_id").bind readStr
  let reason ← (field "reason").bind readStr
  let retiredBy ← readOption readStr (field "retired_by")
  let idempotencyKey ← readOption readStr (field "idempotency_key")
  let retiredAtMs ← (field "retired_at_ms").bind readU64
  return { patchId, reason, retiredBy, idempotencyKey, retiredAtMs }

/-! ## Errors -/

/-- What a command can fail with. -/
inductive CliError where
  | git (error : GitInspectError)
  | json (message : String)
  | bail (message : String)
  /-- A slice that does not start and end between two characters. -/
  | panic
  deriving DecidableEq

def CliError.text : CliError → String
  | .git error => error.text
  | .json message => message
  | .bail message => message
  | .panic => ""

abbrev Command := Prog storeOps CliError

/-- The diff of a work tree, as far as it is compared with a patch. -/
structure DetectedDiff where
  diffHash : String
  diffBytes : UInt64
  filePaths : List String
  rawDiff : Bytes

/-- The crates, the texts of serde_json and of `{:?}`, and git on a work tree. -/
structure Tools extends Crates where
  bodyError : String → Value → String
  debugText : List String → String
  detectAttemptDiff : AgentAttempt → Except CliError DetectedDiff

/-- The reference crates, in a repository without work trees. -/
def Tools.reference : Tools where
  toCrates := .reference
  bodyError name _ := "invalid " ++ name
  debugText := ", ".intercalate
  detectAttemptDiff attempt := .error (.bail s!"attempt {attempt.attemptId} has no work tree")

/-! ## Lists -/

/-- An object of a list command: its entry and what its body says. -/
structure Listed (α : Type) where
  objectId : String
  refName : String
  gitObjectId : String
  body : α

section Lists

variable (T : Tools)

/-- The body of a listed object, as a record of this name. -/
def bodyOf {α : Type} (name : String) (read : Value → Option α) (object : CanonicalObject) :
    Except CliError α :=
  match read object.body with
  | none => .error (.json (T.bodyError name object.body))
  | some body => .ok body

def readBodies {α : Type} (name : String) (read : Value → Option α) :
    List ObjectListEntry → Command (List (Listed α))
  | [] => return []
  | entry :: rest => do
    let report ← (readCachedObject T.toCrates entry.objectId).mapFail .git
    let body ← bodyOf T name read report.object
    let listed ← readBodies name read rest
    return ⟨entry.objectId, entry.refName, entry.gitObjectId, body⟩ :: listed

def listBodies {α : Type} (kind name : String) (read : Value → Option α) :
    Command (List (Listed α)) := do
  let objectEntries ← (listRefBackedObjects T.toCrates (some kind)).mapFail .git
  readBodies T name read objectEntries

def listAttempts : Command (List (Listed AgentAttempt)) := do
  let attempts ← listBodies T "agent.attempt" "AgentAttempt" AgentAttempt.ofValue
  return attempts.mergeSort fun left right => decide (left.body.attemptId ≤ right.body.attemptId)

def listPatches : Command (List (Listed PreparedPatch)) := do
  let patches ← listBodies T "agent.patch" "PreparedPatch" PreparedPatch.ofValue
  return patches.mergeSort fun left right => decide (left.body.patchId ≤ right.body.patchId)

def retiredPatchIds : Command (List String) := do
  let retirements ← listBodies T "agent.patch_retirement" "PatchRetirement" PatchRetirement.ofValue
  return retirements.map fun entry => entry.body.patchId

def findAttempt (attemptId : String) : Command AgentAttempt := do
  let attempts ← listAttempts T
  match attempts.find? fun entry => entry.body.attemptId == attemptId with
  | none => .fail (.bail s!"attempt {attemptId} was not found")
  | some entry => return entry.body

end Lists

/-! ## Diffs -/

/-- `u8::from_str_radix` on two ASCII characters; a sign may come first. -/
def byteOfHex (a b : Char) : Option UInt8 :=
  if a = '+' then (hexDigitValue b).map .ofNat
  else do
    let high ← hexDigitValue a
    let low ← hexDigitValue b
    return .ofNat (high * 16 + low)

/-- The loop of `decode_hex`. It steps by two bytes, so a character of two bytes is a
    slice of its own and longer ones are cut. -/
def decodeHexFrom (index : Nat) : List Char → Except CliError Bytes
  | [] => return []
  | a :: rest =>
    if a.utf8Size = 2 then .error (.bail s!"invalid hex byte at offset {index}")
    else
      match rest with
      | [] => .error .panic
      | b :: rest =>
        if a.utf8Size ≠ 1 ∨ b.utf8Size ≠ 1 then .error .panic
        else
          match byteOfHex a b with
          | none => .error (.bail s!"invalid hex byte at offset {index}")
          | some byte => return byte :: (← decodeHexFrom (index + 2) rest)

def decodeHex (encoded : String) : Except CliError Bytes :=
  if encoded.utf8ByteSize % 2 ≠ 0 then .error (.bail "hex-encoded patch diff has odd length")
  else decodeHexFrom 0 encoded.toList

structure ResolvedPatchDiff where
  diffHash : String
  diffBytes : UInt64
  filePaths : List String
  rawDiff : Bytes
  deriving DecidableEq

section Resolve

variable (T : Tools)

/-- The checks of a diff object that was read. -/
def checkedPatchDiff (patch : PreparedPatch) (diffObjectId : String) (object : CanonicalObject) :
    Except CliError ResolvedPatchDiff := do
  if object.kind ≠ "agent.patch_diff" then
    .error (.bail s!"object {diffObjectId} is kind `{object.kind}`, expected `agent.patch_diff`")
  else
    let patchDiff ← bodyOf T "PatchDiff" PatchDiff.ofValue object
    if patchDiff.patchId ≠ patch.patchId then
      .error (.bail s!"patch diff object {diffObjectId} belongs to patch {patchDiff.patchId}, expected {patch.patchId}")
    else if patchDiff.attemptId ≠ patch.attemptId then
      .error (.bail s!"patch diff object {diffObjectId} belongs to attempt {patchDiff.attemptId}, expected {patch.attemptId}")
    else if patchDiff.baseCommit ≠ patch.baseCommit then
      .error (.bail s!"patch diff object {diffObjectId} has base commit {patchDiff.baseCommit}, expected {patch.baseCommit}")
    else if patchDiff.encoding ≠ "hex" then
      .error (.bail s!"patch diff object {diffObjectId} uses unsupported encoding `{patchDiff.encoding}`")
    else if patchDiff.diffHash ∉ patch.diffHashes then
      .error (.bail s!"patch diff object {diffObjectId} hash {patchDiff.diffHash} is not listed in prepared patch hashes {T.debugText patch.diffHashes}")
    else
      let rawDiff ← decodeHex patchDiff.encodedDiff
      let computedDiffHash := hashText T.toCrates rawDiff
      if computedDiffHash ≠ patchDiff.diffHash then
        .error (.bail s!"patch diff object {diffObjectId} decoded hash {computedDiffHash} does not match recorded {patchDiff.diffHash}")
      else if UInt64.ofNat rawDiff.length ≠ patchDiff.diffBytes then
        .error (.bail s!"patch diff object {diffObjectId} decoded byte length {rawDiff.length} does not match recorded {patchDiff.diffBytes}")
      else
        return {
          diffHash := patchDiff.diffHash, diffBytes := patchDiff.diffBytes
          filePaths := patchDiff.filePaths, rawDiff }

/-- A patch without diff objects, against the work tree. -/
def worktreePatchDiff (patch : PreparedPatch) (attempt : AgentAttempt) :
    Except CliError ResolvedPatchDiff := do
  let detected ← T.detectAttemptDiff attempt
  if detected.diffHash ∉ patch.diffHashes then
    .error (.bail s!"current attempt worktree diff hash {detected.diffHash} does not match prepared patch hashes {T.debugText patch.diffHashes}")
  else
    return {
      diffHash := detected.diffHash, diffBytes := detected.diffBytes
      filePaths := detected.filePaths, rawDiff := detected.rawDiff }

def resolvePatchDiff (patch : PreparedPatch) (attempt : AgentAttempt) : Command ResolvedPatchDiff :=
  match patch.diffObjectIds.head? with
  | some diffObjectId => do
    let report ← (readCachedObject T.toCrates diffObjectId).mapFail .git
    checkedPatchDiff T patch diffObjectId report.object
  | none => liftM (worktreePatchDiff T patch attempt)

end Resolve

/-! ## Canonical bodies -/

/-- What is read of a value is read of its canonical form too. -/
def CanonStable {α : Type} (read : Value → Option α) : Prop :=
  ∀ v a, read v = some a → read (canonicalJson v) = some a

section Stable

variable {α : Type} {read : Value → Option α}

theorem eq_arr_of_elems {v : Value} {vs : List Value} (h : v.elems = some vs) : v = .arr vs := by
  obtain ⟨tree, unique⟩ := v
  cases tree with
  | arr xs =>
    obtain rfl := Option.some.inj h
    exact Value.ext_tree (congrArg Json.arr (Value.map_tree_elems ..).symm)
  | _ => cases h

theorem elems_canonicalJson (v : Value) :
    (canonicalJson v).elems = v.elems.map (List.map canonicalJson) := by
  rcases hv : v.elems with _ | vs
  · obtain ⟨tree, unique⟩ := v
    cases tree with
    | arr xs => cases hv
    | obj ms => simp [canonicalJson, Value.elems]
    | _ => rfl
  · obtain rfl := eq_arr_of_elems hv
    rw [canonicalJson_arr, Value.elems_arr]
    rfl

theorem readStr_stable : CanonStable readStr := by
  rintro ⟨tree, unique⟩ t h
  cases tree with
  | str s => exact h
  | _ => cases h

theorem readU64_stable : CanonStable readU64 := by
  rintro ⟨tree, unique⟩ n h
  unfold readU64 at h
  split at h
  · next m hm =>
      obtain rfl := Option.some.inj h
      have hv : (⟨tree, unique⟩ : Value) = .ofU64 m := Value.ext_tree hm
      rw [hv, canonicalJson_ofU64]
      rfl
  · cases h

theorem mapM_stable (h : CanonStable read) {vs : List Value} {as : List α}
    (hm : vs.mapM read = some as) : (vs.map canonicalJson).mapM read = some as := by
  induction vs generalizing as with
  | nil => exact hm
  | cons v vs ih =>
    simp only [List.mapM_cons, Option.bind_eq_bind, Option.bind_eq_some_iff] at hm
    obtain ⟨a, ha, as', has', hpure⟩ := hm
    obtain rfl := Option.some.inj hpure
    simp [h v a ha, ih has']

theorem readList_stable (h : CanonStable read) : CanonStable (readList read) := by
  intro v as hv
  obtain ⟨vs, hvs, hm⟩ := Option.bind_eq_some_iff.mp hv
  rw [readList, elems_canonicalJson, hvs]
  exact mapM_stable h hm

/-- A field of the canonical form. -/
theorem CanonStable.field (h : CanonStable read) {field : Option Value} {a : α}
    (hf : ∃ v, field = some v ∧ read v = some a) :
    (field.map canonicalJson).bind read = some a := by
  obtain ⟨v, rfl, hv⟩ := hf
  exact h v a hv

theorem asStruct_stable {names : List String} {v : Value} {field : String → Option Value}
    (h : asStruct names v = some field) :
    asStruct names (canonicalJson v) = some fun name => (field name).map canonicalJson := by
  unfold asStruct at h ⊢
  rw [elems_canonicalJson]
  rcases hv : v.elems with _ | vs
  · rw [hv] at h
    obtain ⟨tree, unique⟩ := v
    cases tree with
    | obj ms =>
      obtain rfl := Option.some.inj h
      have htree := Json.normalize_obj canonicalNumber ms
      rw [show Json.normalize canonicalNumber (.obj ms) =
        (canonicalJson ⟨.obj ms, unique⟩).tree from rfl] at htree
      simp only [Option.map_none, htree]
      exact congrArg some (funext fun name => get_canonicalJson ⟨.obj ms, unique⟩ name)
    | _ => cases h
  · rw [hv] at h
    simp only [Option.map_some, List.length_map] at h ⊢
    split at h
    · next hl =>
        obtain rfl := Option.some.inj h
        rw [if_pos hl]
        simp only [List.getElem?_map]
    · cases h

theorem PatchDiff.ofValue_stable : CanonStable PatchDiff.ofValue := by
  intro v patchDiff h
  simp only [PatchDiff.ofValue, Option.bind_eq_bind, Option.bind_eq_some_iff] at h
  obtain ⟨field, hfield, patchId, h1, attemptId, h2, baseCommit, h3, diffHash, h4, diffBytes, h5,
    filePaths, h6, encoding, h7, encodedDiff, h8, hd⟩ := h
  simp only [PatchDiff.ofValue, asStruct_stable hfield, Option.bind_eq_bind, Option.bind_some,
    readStr_stable.field h1, readStr_stable.field h2, readStr_stable.field h3,
    readStr_stable.field h4, readU64_stable.field h5, (readList_stable readStr_stable).field h6,
    readStr_stable.field h7, readStr_stable.field h8, hd]

/-- What the checks find of a diff object they find of its canonical form. -/
theorem checkedPatchDiff_canonical {T : Tools} {patch : PreparedPatch} {diffObjectId : String}
    {o : CanonicalObject} {resolved : ResolvedPatchDiff}
    (h : checkedPatchDiff T patch diffObjectId o = .ok resolved) :
    checkedPatchDiff T patch diffObjectId o.canonical = .ok resolved := by
  have hbody : ∀ patchDiff, bodyOf T "PatchDiff" PatchDiff.ofValue o = .ok patchDiff →
      bodyOf T "PatchDiff" PatchDiff.ofValue o.canonical = .ok patchDiff := by
    intro patchDiff hd
    unfold bodyOf at hd ⊢
    split at hd
    · cases hd
    · next body hread =>
        have hcanonical := PatchDiff.ofValue_stable o.body body hread
        have hb : o.canonical.body = canonicalJson o.body := rfl
        rw [hb, hcanonical]
        exact hd
  unfold checkedPatchDiff at h ⊢
  have hk : o.canonical.kind = o.kind := rfl
  rw [hk]
  split at h
  · cases h
  · next hkind =>
      rw [if_neg hkind]
      rcases hd : bodyOf T "PatchDiff" PatchDiff.ofValue o with e | patchDiff
      · rw [hd] at h
        cases h
      · rw [hd] at h
        rw [hbody patchDiff hd]
        exact h

end Stable

/-! ## Runs on sound objects -/

section Sound

variable {T : Tools} {s t : ObjectStore}

/-! A command that reads changes no content. -/

theorem readBodies_keeps {α : Type} (T : Tools) (name : String) (read : Value → Option α)
    (entries : List ObjectListEntry) : Keeps (readBodies T name read entries) := by
  induction entries with
  | nil => exact keeps_ret _
  | cons entry rest ih =>
    exact ((readCachedObject_keeps _ _).mapFail _).bind fun _ =>
      (keeps_ofExcept _).bind fun _ => ih.bind fun _ => keeps_ret _

theorem listBodies_keeps {α : Type} (T : Tools) (kind name : String) (read : Value → Option α) :
    Keeps (listBodies T kind name read) :=
  ((listRefBackedObjects_keeps _ _).mapFail _).bind fun _ => readBodies_keeps T name read _

theorem listPatches_keeps (T : Tools) : Keeps (listPatches T) :=
  (listBodies_keeps T _ _ _).bind fun _ => keeps_ret _

theorem retiredPatchIds_keeps (T : Tools) : Keeps (retiredPatchIds T) :=
  (listBodies_keeps T _ _ _).bind fun _ => keeps_ret _

theorem findAttempt_keeps (T : Tools) (attemptId : String) : Keeps (findAttempt T attemptId) := by
  refine ((listBodies_keeps T _ _ _).bind fun _ => keeps_ret _).bind fun attempts => ?_
  split
  · exact keeps_fail _
  · exact keeps_ret _

theorem resolvePatchDiff_keeps (T : Tools) (patch : PreparedPatch) (attempt : AgentAttempt) :
    Keeps (resolvePatchDiff T patch attempt) := by
  unfold resolvePatchDiff
  rcases patch.diffObjectIds.head? with _ | diffObjectId
  · exact keeps_ofExcept _
  · exact ((readCachedObject_keeps _ _).mapFail _).bind fun _ => keeps_ofExcept _

/-- Over the references of valid objects whose bodies are records of the kind. -/
theorem readBodies_run {α : Type} {os : List CanonicalObject} (hX : ReadsBack T.toCrates)
    (h : RefsOf T.toCrates os s) (kind name : String) (read : Value → Option α)
    {entries : List ObjectListEntry}
    (hentries : ∀ entry ∈ entries, ∃ o ∈ os, o.kind = kind ∧ o.objectId = entry.objectId ∧
      (read o.canonical.body).isSome) :
    ∃ listed, ((readBodies T name read entries).run exec s).1 = .ok listed ∧
      listed.map Listed.objectId = entries.map ObjectListEntry.objectId ∧
      ∀ e ∈ listed, ∃ o ∈ os, o.kind = kind ∧ o.objectId = e.objectId ∧
        read o.canonical.body = some e.body := by
  induction entries generalizing s with
  | nil => exact ⟨[], rfl, rfl, by simp⟩
  | cons entry rest ih =>
    obtain ⟨⟨o, ho, hkind, hid, hread⟩, hrest⟩ := List.forall_mem_cons.mp hentries
    obtain ⟨body, hbody⟩ := Option.isSome_iff_exists.mp hread
    obtain ⟨report, s₁, hrun, hobject, hrefs⟩ := h.read hX ho
    rw [hid] at hrun
    obtain ⟨listed, hlisted, hids, hall⟩ := ih hrefs hrest
    have hbodyOf : bodyOf T name read report.object = .ok body := by
      rw [bodyOf, hobject, hbody]
    refine ⟨⟨entry.objectId, entry.refName, entry.gitObjectId, body⟩ :: listed, ?_, ?_,
      List.forall_mem_cons.mpr ⟨⟨o, ho, hkind, hid, hbody⟩, hall⟩⟩
    · rw [readBodies, Prog.run_bind_ok exec ((Prog.run_mapFail_ok_iff exec _).mpr hrun), hbodyOf,
        Prog.liftM_ok, Prog.ret_bind, Prog.run_bind_ok exec (Prod.ext hlisted rfl)]
      rfl
    · rw [List.map_cons, List.map_cons, hids]

/-- The records of a kind, when all its objects are such records. -/
theorem listBodies_run {α : Type} {os : List CanonicalObject} (hX : ReadsBack T.toCrates)
    (h : RefsOf T.toCrates os s) (kind name : String) (read : Value → Option α)
    (hread : ∀ o ∈ os, o.kind = kind → (read o.canonical.body).isSome) :
    ∃ listed, ((listBodies T kind name read).run exec s).1 = .ok listed ∧
      (∀ o ∈ os, o.kind = kind → ∃ e ∈ listed, e.objectId = o.objectId) ∧
      ∀ e ∈ listed, ∃ o ∈ os, o.kind = kind ∧ o.objectId = e.objectId ∧
        read o.canonical.body = some e.body := by
  obtain ⟨entries, hlist, hmem⟩ := h.list hX (some kind)
  obtain ⟨listed, hlisted, hids, hall⟩ := readBodies_run hX h kind name read fun entry he => by
    obtain ⟨o, ho, hex, -, hk, rfl⟩ := (hmem entry).mp he
    exact ⟨o, ho, hk kind rfl, rfl, hread o ho (hk kind rfl)⟩
  refine ⟨listed, ?_, fun o ho hk => ?_, hall⟩
  · rw [listBodies, Prog.run_bind_ok exec ((Prog.run_mapFail_ok_iff exec _).mpr hlist), hlisted]
  · obtain ⟨m, -, hhex⟩ := objectHex_of_valid (h.stored o ho).valid
    have he := (hmem _).mpr ⟨o, ho, _, hhex, fun expected hexpected => by
      rw [hk, Option.some.inj hexpected], rfl⟩
    have hid := List.mem_map_of_mem (f := ObjectListEntry.objectId) he
    rw [← hids] at hid
    obtain ⟨e, hemem, heid⟩ := List.mem_map.mp hid
    exact ⟨e, hemem, heid⟩

/-- Two stores with one content give one list. -/
theorem readBodies_same {α : Type} (name : String) (read : Value → Option α)
    {entries : List ObjectListEntry} (hs : SameContent s t)
    (h : ∀ entry ∈ entries, ∃ o, Sound T.toCrates entry.objectId o s) :
    ((readBodies T name read entries).run exec t).1 =
      ((readBodies T name read entries).run exec s).1 := by
  induction entries generalizing s t with
  | nil => rfl
  | cons entry rest ih =>
    obtain ⟨⟨o, ho⟩, hrest⟩ := List.forall_mem_cons.mp h
    -- both reads return the sound object
    have hread : ∀ u, Sound T.toCrates entry.objectId o u → ∃ report u', SameContent u u' ∧
        ((readCachedObject T.toCrates entry.objectId).mapFail CliError.git).run exec u =
          (.ok report, u') ∧ report.object = o := by
      intro u hu
      obtain ⟨report, u', hrun, hobject, -, hsame⟩ := hu.read
      exact ⟨report, u', hsame, (Prog.run_mapFail_ok_iff exec _).mpr hrun, hobject⟩
    obtain ⟨report, s', hs', hrun, hobject⟩ := hread s ho
    obtain ⟨report', t', ht', hrun', hobject'⟩ := hread t (ho.same hs)
    have hresult := ih (hs'.symm.trans (hs.trans ht')) fun e he => by
      obtain ⟨o', ho'⟩ := hrest e he
      exact ⟨o', ho'.same hs'⟩
    rw [readBodies, Prog.run_bind_ok exec hrun, Prog.run_bind_ok exec hrun', hobject, hobject',
      Prog.run_bind, Prog.run_bind, Prog.run_ofExcept, Prog.run_ofExcept]
    rcases bodyOf T name read o with e | body
    · rfl
    · exact Prog.run_map_result exec hresult _

/-- What a store lists is sound. -/
def AllSound (X : Crates) (s : ObjectStore) : Prop :=
  ∀ entries, ((listRefBackedObjects X none).run exec s).1 = .ok entries →
    ∀ entry ∈ entries, ∃ o, Sound X entry.objectId o s

theorem listBodies_same {α : Type} (kind name : String) (read : Value → Option α)
    (hs : SameContent s t) (h : AllSound T.toCrates s) :
    ((listBodies T kind name read).run exec t).1 = ((listBodies T kind name read).run exec s).1 := by
  have hlist := listRefBackedObjects_same (X := T.toCrates) (some kind) hs
  have hkeep : ∀ u, ((listRefBackedObjects T.toCrates (some kind)).run exec u).2 = u := fun u => by
    rw [listRefBackedObjects_run]
  rw [listBodies, Prog.run_bind, Prog.run_bind, Prog.run_mapFail, Prog.run_mapFail, hlist, hkeep,
    hkeep]
  rcases hl : ((listRefBackedObjects T.toCrates (some kind)).run exec s).1 with e | entries
  · rfl
  · obtain ⟨all, hall, hsub⟩ := listRefBackedObjects_subset hl
    exact readBodies_same name read hs fun entry he => h all hall entry (hsub he)

theorem listPatches_same (hs : SameContent s t) (h : AllSound T.toCrates s) :
    ((listPatches T).run exec t).1 = ((listPatches T).run exec s).1 := by
  have hlist := listBodies_same (T := T) "agent.patch" "PreparedPatch" PreparedPatch.ofValue hs h
  exact Prog.run_map_result exec hlist _

theorem retiredPatchIds_same (hs : SameContent s t) (h : AllSound T.toCrates s) :
    ((retiredPatchIds T).run exec t).1 = ((retiredPatchIds T).run exec s).1 := by
  have hlist := listBodies_same (T := T) "agent.patch_retirement" "PatchRetirement"
    PatchRetirement.ofValue hs h
  exact Prog.run_map_result exec hlist _

/-- The diff of a patch whose first diff object is sound. -/
theorem resolvePatchDiff_run {patch : PreparedPatch} {diffObjectId : String}
    {o : CanonicalObject} (hhead : patch.diffObjectIds.head? = some diffObjectId)
    (h : Sound T.toCrates diffObjectId o s) (attempt : AgentAttempt) :
    ((resolvePatchDiff T patch attempt).run exec s).1 = checkedPatchDiff T patch diffObjectId o := by
  obtain ⟨report, s', hrun, hobject, -, -⟩ := h.read
  have hrun' := (Prog.run_mapFail_ok_iff exec CliError.git).mpr hrun
  rw [resolvePatchDiff, hhead]
  dsimp only
  rw [Prog.run_bind_ok exec hrun', hobject, Prog.run_ofExcept]

end Sound

end RickydataGit.Cli
