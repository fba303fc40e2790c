/-
  `build_graph_scan`: the execution graph of a repository.

  The nodes of the repository and its commit, of its Rust files and their symbols, of the
  stored intents, attempts, runs, changes and patches, and of the files that changes and
  patches touch. Ids are version 5 UUIDs of texts. Edges are made of ids alone: an attempt
  computes the id of its intent from the intent id in its record, and a run that of its
  attempt. `dedupe_graph` keeps the first node and the first edge of each id and sorts.

  `graphPieces` is what the loops push, as a function of what they read.
-/
import RickydataGit.Lib.Graph
import RickydataGit.Cli.Commands
import RickydataGit.Relay.Kfdb

namespace RickydataGit.Cli

open RickydataGit.Lib RickydataGit.Core RickydataGit.Git
open RickydataGit.Relay (uuidText nameText)

/-! ## Nodes and edges -/

structure GraphNode where
  id : String
  label : String
  sourceObjectId : Option String
  properties : Std.ExtTreeMap String Value compare

structure GraphEdge where
  id : String
  fromId : String
  toId : String
  edgeType : String
  properties : Std.ExtTreeMap String Value compare

abbrev GraphNet := Net GraphNode GraphEdge

def graphSchemaVersion : String := "rickydata.repo_execution_graph.v1"

/-- 2f3e8ab8-8684-5c6a-9fd2-c5467b94251d. -/
def graphNamespace : Bytes :=
  [0x2f, 0x3e, 0x8a, 0xb8, 0x86, 0x84, 0x5c, 0x6a, 0x9f, 0xd2, 0xc5, 0x46, 0x7b, 0x94, 0x25, 0x1d]

@[irreducible] def graphId (kind : String) (parts : List String) : String :=
  uuidText (uuidV5 graphNamespace (utf8 (graphSchemaVersion ++ ":" ++ nameText (kind :: parts))))

@[irreducible] def graphEdgeId (fromId edgeType toId : String) : String :=
  uuidText (uuidV5 graphNamespace
    (utf8 (graphSchemaVersion ++ ":edge:" ++ nameText [fromId, edgeType, toId])))

/-- The later one of two properties of a name stays. -/
def graphNode (label id : String) (sourceObjectId : Option String)
    (props : List (String × Value)) : GraphNode where
  id
  label
  sourceObjectId
  properties :=
    (("rickydata_graph_schema_version", .str graphSchemaVersion) ::
      ("rickydata_graph_kind", .str label) :: props).foldl (fun m p => m.insert p.1 p.2) ∅

def graphEdge (fromId edgeType toId : String) : GraphEdge where
  id := graphEdgeId fromId edgeType toId
  fromId
  toId
  edgeType
  properties := (∅ : Std.ExtTreeMap String Value compare).insert "rickydata_graph_schema_version"
    (.str graphSchemaVersion)

/-- A map as a JSON object. -/
def propertiesValue (properties : Std.ExtTreeMap String Value compare) : Value :=
  .obj properties.toList (by
    rw [List.Nodup, List.pairwise_map]
    refine properties.distinct_keys_toList.imp fun hne heq => hne ?_
    rw [heq]
    exact Std.ReflCmp.compare_self)

def GraphNode.toValue (node : GraphNode) : Value :=
  .obj [("id", .str node.id), ("label", .str node.label),
    ("source_object_id", optionValue .str node.sourceObjectId),
    ("properties", propertiesValue node.properties)] (by simp)

def GraphEdge.toValue (edge : GraphEdge) : Value :=
  .obj [("id", .str edge.id), ("from", .str edge.fromId), ("to", .str edge.toId),
    ("edge_type", .str edge.edgeType), ("properties", propertiesValue edge.properties)] (by simp)

/-- `dedupe_graph`. -/
def dedupeGraph (net : GraphNet) : GraphNet :=
  ⟨firstByKey GraphNode.id net.nodes, firstByKey GraphEdge.id net.edges⟩

/-! ## Source files -/

/-- What `read_dir` gives of a directory, in its order. A file comes with its text, if it can
    be read as one, and `other` is neither a file nor a directory (a symbolic link). -/
inductive SourceTree where
  | done
  | failed (error : CliError)
  | file (name : Bytes) (text : Option String) (rest : SourceTree)
  | directory (name : Bytes) (entries rest : SourceTree)
  | other (name : Bytes) (rest : SourceTree)

/-- The names in a directory. -/
def SourceTree.names : SourceTree → List Bytes
  | done => []
  | failed _ => []
  | file name _ rest => name :: rest.names
  | directory name _ rest => name :: rest.names
  | other name rest => name :: rest.names

/-- No directory has a name twice. -/
def SourceTree.Distinct : SourceTree → Prop
  | done => True
  | failed _ => True
  | file name _ rest => name ∉ rest.names ∧ rest.Distinct
  | directory name entries rest => name ∉ rest.names ∧ entries.Distinct ∧ rest.Distinct
  | other name rest => name ∉ rest.names ∧ rest.Distinct

/-- The ranges of the bytes that follow a leading byte in UTF-8. -/
def continuationRanges (lead : UInt8) : List (UInt8 × UInt8) :=
  if 0xC2 ≤ lead ∧ lead ≤ 0xDF then [(0x80, 0xBF)]
  else if lead = 0xE0 then [(0xA0, 0xBF), (0x80, 0xBF)]
  else if lead = 0xED then [(0x80, 0x9F), (0x80, 0xBF)]
  else if 0xE1 ≤ lead ∧ lead ≤ 0xEF then [(0x80, 0xBF), (0x80, 0xBF)]
  else if lead = 0xF0 then [(0x90, 0xBF), (0x80, 0xBF), (0x80, 0xBF)]
  else if 0xF1 ≤ lead ∧ lead ≤ 0xF3 then [(0x80, 0xBF), (0x80, 0xBF), (0x80, 0xBF)]
  else if lead = 0xF4 then [(0x80, 0x8F), (0x80, 0xBF), (0x80, 0xBF)]
  else []

/-- How many bytes lie in the ranges, one in each. -/
def continuationLength : List (UInt8 × UInt8) → Bytes → Nat
  | (low, high) :: ranges, b :: bytes =>
    if low ≤ b ∧ b ≤ high then continuationLength ranges bytes + 1 else 0
  | _, _ => 0

/-- The characters after the bytes to skip: the start of a character that goes wrong is one
    replacement character. -/
def lossyChars : Nat → Bytes → List Char
  | _, [] => []
  | skip + 1, _ :: bytes => lossyChars skip bytes
  | 0, b :: bytes =>
    let length := continuationLength (continuationRanges b) bytes
    ((fromUtf8 (b :: bytes.take length)).getD "\uFFFD").toList ++ lossyChars length bytes

/-- `to_string_lossy`. -/
def toStringLossy (bytes : Bytes) : String := .ofList (lossyChars 0 bytes)

example : toStringLossy [0x61, 0xE2, 0x82, 0x62, 0xC3, 0xBC, 0xFF] = "a\uFFFDbü\uFFFD" := by
  decide

/-- The entries that are left out, whatever they are. -/
def isSkipped (name : Bytes) : Bool :=
  toStringLossy name ∈ [".git", "target", ".rickygit-worktrees"]

/-- The extension is `rs`: there is a name before the last dot. -/
def isRustFile (name : Bytes) : Bool :=
  (utf8 ".rs").isSuffixOf name && decide (3 < name.length)

structure SourceFile where
  /-- The names on the way from the repository. -/
  path : List Bytes
  text : Option String

/-- `visit`, from a directory on. -/
def visitSources (dir : List Bytes) : SourceTree → Except CliError (List SourceFile)
  | .done => return []
  | .failed error => .error error
  | .file name text rest => do
    let files ← visitSources dir rest
    if isSkipped name = false && isRustFile name then return ⟨dir ++ [name], text⟩ :: files
    else return files
  | .directory name entries rest => do
    if isSkipped name then visitSources dir rest
    else
      let inside ← visitSources (dir ++ [name]) entries
      let files ← visitSources dir rest
      return inside ++ files
  | .other _ rest => visitSources dir rest

/-- Paths are compared by their names, and names by their bytes. -/
def SourceFile.key (file : SourceFile) : List (List Nat) := file.path.map (List.map UInt8.toNat)

/-- `collect_rust_source_files`. -/
def collectRustSourceFiles (tree : SourceTree) : Except CliError (List SourceFile) := do
  let files ← visitSources [] tree
  return files.mergeSort fun left right => decide (left.key ≤ right.key)

/-- The path of a file below the repository, as it is displayed. -/
def displayPath (path : List Bytes) : String := toStringLossy ((utf8 "/").intercalate path)

/-- The same with slashes only. -/
def relativePath (path : List Bytes) : String :=
  .ofList ((displayPath path).toList.map fun c => if c = '\\' then '/' else c)

/-- `Path::join` on the path of the repository. -/
def joinedPath (repo : String) (path : List Bytes) : String :=
  if repo = "" ∨ repo.toList.getLast? = some '/' then repo ++ displayPath path
  else repo ++ "/" ++ displayPath path

/-! ## Symbols -/

/-- What follows the first occurrence of the token. -/
def afterToken (token : List Char) : List Char → Option (List Char)
  | [] => none
  | c :: text =>
    if token.isPrefixOf (c :: text) then some ((c :: text).drop token.length)
    else afterToken token text

def rustSymbolName (line : List Char) (keyword : String) : Option String := do
  let rest ← afterToken (keyword ++ " ").toList line
  let name := (rest.dropWhile isWhitespace).takeWhile fun c => c.isAlphanum || c == '_'
  if name.isEmpty then none else some (.ofList name)

section Symbols

variable (relPath repoNodeId fileId : String)

/-- A function, or a test, on this line. -/
def functionSymbol (isTest : Bool) (name : String) (lineNumber : Nat) : GraphNet :=
  let label := if isTest then "TestCase" else "Function"
  let symbolId := graphId label [repoNodeId, relPath, name, toString lineNumber]
  { nodes := [graphNode label symbolId none [("name", .str name), ("path", .str relPath),
      ("language", .str "rust"), ("start_line", .ofU64 (.ofNat lineNumber))]]
    edges := graphEdge fileId "DEFINES" symbolId ::
      (if isTest then [graphEdge fileId "TESTS" symbolId] else []) }

def typeSymbol (kind name : String) (lineNumber : Nat) : GraphNet :=
  let symbolId := graphId "TypeDefinition" [repoNodeId, relPath, name, toString lineNumber]
  { nodes := [graphNode "TypeDefinition" symbolId none [("name", .str name), ("kind", .str kind),
      ("path", .str relPath), ("language", .str "rust"), ("start_line", .ofU64 (.ofNat lineNumber))]]
    edges := [graphEdge fileId "DEFINES" symbolId] }

/-- `append_rust_symbols`, on the lines from this number on. -/
def rustSymbols (nextFnIsTest : Bool) (lineNumber : Nat) : List String → GraphNet
  | [] => .empty
  | line :: lines =>
    let trimmed := line.toList.dropWhile isWhitespace
    if "#[test]".toList.isPrefixOf trimmed then rustSymbols true (lineNumber + 1) lines
    else
      match rustSymbolName trimmed "fn" with
      | some name =>
        functionSymbol relPath repoNodeId fileId nextFnIsTest name lineNumber ++
          rustSymbols false (lineNumber + 1) lines
      | none =>
        match ["struct", "enum", "trait"].findSome? fun kind =>
            (rustSymbolName trimmed kind).map fun name => (kind, name) with
        | some (kind, name) =>
          typeSymbol relPath repoNodeId fileId kind name lineNumber ++
            rustSymbols false (lineNumber + 1) lines
        | none => rustSymbols false (lineNumber + 1) lines

end Symbols

section Code

variable (X : Crates) (repoNodeId commit : String)

/-- A file and its symbols. -/
def sourceFileNet (path : List Bytes) (content : String) : GraphNet :=
  let relPath := relativePath path
  let contentHash := stableJsonHash X (.obj [("content", .str content)] (by simp))
  let fileId := graphId "File" [repoNodeId, commit, relPath, contentHash]
  { nodes := [graphNode "File" fileId none [("path", .str relPath), ("language", .str "rust"),
      ("content_hash", .str contentHash)]]
    edges := [graphEdge repoNodeId "CONTAINS" fileId] } ++
    rustSymbols relPath repoNodeId fileId false 1 (linesOf content)

/-- The loop over the files. -/
def sourceFileNets (repo : String) : List SourceFile → Except CliError GraphNet
  | [] => return .empty
  | file :: files => do
    let content ← match file.text with
      | none => .error (.bail s!"failed to read Rust source file {joinedPath repo file.path}")
      | some content => .ok content
    let net ← sourceFileNets repo files
    return sourceFileNet X repoNodeId commit file.path content ++ net

/-- `append_code_structure_graph`. -/
def codeStructureGraph (repo : String) (tree : SourceTree) : Except CliError GraphNet := do
  let files ← collectRustSourceFiles tree
  sourceFileNets X repoNodeId commit repo files

end Code

/-! ## Evidence -/

section Evidence

variable (repoNodeId commit : String)

def intentNet (entry : String × WorkIntent) : GraphNet :=
  let nodeId := graphId "RickydataWorkIntent" [repoNodeId, entry.1]
  { nodes := [graphNode "RickydataWorkIntent" nodeId (some entry.1)
      [("objective", .str entry.2.objective), ("object_id", .str entry.1)]]
    edges := [graphEdge repoNodeId "CONTAINS" nodeId] }

def attemptNet (entry : String × AgentAttempt) : GraphNet :=
  let nodeId := graphId "RickydataAttempt" [repoNodeId, entry.2.attemptId]
  let intentId := graphId "RickydataWorkIntent" [repoNodeId, entry.2.intentId]
  { nodes := [graphNode "RickydataAttempt" nodeId (some entry.1)
      [("attempt_id", .str entry.2.attemptId), ("intent_id", .str entry.2.intentId),
        ("agent_id", .str entry.2.agentId), ("status", entry.2.status.toValue)]]
    edges := [graphEdge repoNodeId "CONTAINS" nodeId,
      graphEdge nodeId "DERIVED_FROM_ISSUE" intentId] }

def runNet (entry : String × AgentRun) : GraphNet :=
  let nodeId := graphId "RickydataRun" [repoNodeId, entry.2.runId]
  let attemptId := graphId "RickydataAttempt" [repoNodeId, entry.2.attemptId]
  { nodes := [graphNode "RickydataRun" nodeId (some entry.1)
      [("run_id", .str entry.2.runId), ("attempt_id", .str entry.2.attemptId),
        ("result", optionValue AgentRunResult.toValue entry.2.result)]]
    edges := [graphEdge attemptId "HAS_RUN" nodeId] }

/-- A file that a change or a patch touches; `version` tells its versions apart. -/
def touchedFileNet (nodeId version file : String) : GraphNet :=
  let fileId := graphId "File" [repoNodeId, commit, file, version]
  { nodes := [graphNode "File" fileId none [("path", .str file)]]
    edges := [graphEdge nodeId "TOUCHES" fileId] }

def changeNet (entry : String × ChangeEvidence) : GraphNet :=
  let changeNodeId := graphId "RickydataProof" [repoNodeId, entry.2.changeId]
  let attemptId := graphId "RickydataAttempt" [repoNodeId, entry.2.attemptId]
  { nodes := [graphNode "RickydataProof" changeNodeId (some entry.1)
      [("change_id", .str entry.2.changeId), ("attempt_id", .str entry.2.attemptId),
        ("diff_hash", .str entry.2.diffHash)]]
    edges := [graphEdge attemptId "PROVES" changeNodeId] } ++
    .flatMap entry.2.filePaths (touchedFileNet repoNodeId commit changeNodeId entry.2.diffHash)

def patchNet (entry : String × PreparedPatch) : GraphNet :=
  let nodeId := graphId "RickydataPatch" [repoNodeId, entry.2.patchId]
  let attemptId := graphId "RickydataAttempt" [repoNodeId, entry.2.attemptId]
  { nodes := [graphNode "RickydataPatch" nodeId (some entry.1)
      [("patch_id", .str entry.2.patchId), ("attempt_id", .str entry.2.attemptId)]]
    edges := [graphEdge attemptId "PRODUCED_BY" nodeId] } ++
    .flatMap entry.2.filePaths (touchedFileNet repoNodeId commit nodeId "patch")

end Evidence

/-! ## The scan -/

/-- The repository around the store, as the scan sees it. -/
structure GraphPlace where
  /-- The path, as it is displayed. -/
  repo : String
  /-- The path without symbolic links, if it can be found. -/
  canonicalRepo : Option String
  /-- `str::to_lowercase`. -/
  toLowercase : String → String
  /-- The head commit, if `inspect_repository` succeeds. -/
  inspection : Except GitInspectError (Option String)
  sources : SourceTree
  distinct : sources.Distinct

/-- `canonical_repo_id`. -/
def GraphPlace.repoId (place : GraphPlace) : String :=
  place.toLowercase
    (.ofList ((place.canonicalRepo.getD place.repo).toList.rdropWhile fun c => c == '/'))

/-- What the loops read. -/
structure GraphEvidence where
  intents : List (String × WorkIntent)
  attempts : List (String × AgentAttempt)
  runs : List (String × AgentRun)
  changes : List (String × ChangeEvidence)
  patches : List (String × PreparedPatch)

def repositoryNet (repo repoId : String) (commit : Option String) : GraphNet :=
  { nodes := [graphNode "Repository" (graphId "Repository" [repoId]) none [("repo", .str repo),
      ("repo_id", .str repoId), ("head_commit", optionValue .str commit)]]
    edges := [] }

def commitNet (repoNodeId : String) : Option String → GraphNet
  | none => .empty
  | some head =>
    let commitId := graphId "Commit" [repoNodeId, head]
    { nodes := [graphNode "Commit" commitId none [("commit_sha", .str head)]]
      edges := [graphEdge repoNodeId "HAS_COMMIT" commitId] }

/-- Everything that is pushed, in this order. -/
def graphPieces (repo repoId : String) (commit : Option String) (code : GraphNet)
    (evidence : GraphEvidence) : GraphNet :=
  let repoNodeId := graphId "Repository" [repoId]
  let commitText := commit.getD "unknown"
  repositoryNet repo repoId commit ++ commitNet repoNodeId commit ++ code ++
    .flatMap evidence.intents (intentNet repoNodeId) ++
    .flatMap evidence.attempts (attemptNet repoNodeId) ++
    .flatMap evidence.runs (runNet repoNodeId) ++
    .flatMap evidence.changes (changeNet repoNodeId commitText) ++
    .flatMap evidence.patches (patchNet repoNodeId commitText)

structure GraphScanReport where
  status : String
  schemaVersion : String
  repo : String
  repoId : String
  commit : Option String
  includeCodeStructure : Bool
  nodeCount : Nat
  edgeCount : Nat
  graphHash : String
  nodes : List GraphNode
  edges : List GraphEdge

/-- The value that `graph_hash` is the hash of. -/
def graphValue (net : GraphNet) : Value :=
  .obj [("nodes", listValue GraphNode.toValue net.nodes),
    ("edges", listValue GraphEdge.toValue net.edges)] (by simp)

def graphReport (X : Crates) (repo repoId : String) (commit : Option String)
    (includeCodeStructure : Bool) (net : GraphNet) : GraphScanReport where
  status := "ok"
  schemaVersion := graphSchemaVersion
  repo
  repoId
  commit
  includeCodeStructure
  nodeCount := net.nodes.length
  edgeCount := net.edges.length
  graphHash := stableJsonHash X (graphValue net)
  nodes := net.nodes
  edges := net.edges

section Scan

variable (T : Tools)

/-- The five loops over the store. -/
def graphEvidence : Command GraphEvidence := do
  let intents ← listBodies T "agent.intent" "WorkIntent" WorkIntent.ofValue
  let attempts ← listAttempts T
  let runs ← listRuns T
  let changes ← listChanges T
  let patches ← listPatches T
  return ⟨intents.map Listed.view, attempts.map Listed.view, runs.map Listed.view,
    changes.map Listed.view, patches.map Listed.view⟩

def buildGraphScan (place : GraphPlace) (commit : Option String) (includeCodeStructure : Bool) :
    Command GraphScanReport := do
  let headCommit ← liftM (place.inspection.mapError CliError.git)
  let commit := commit.or headCommit
  let repoNodeId := graphId "Repository" [place.repoId]
  let code ← liftM (if includeCodeStructure then
    codeStructureGraph T.toCrates repoNodeId (commit.getD "unknown") place.repo place.sources
    else .ok .empty)
  let evidence ← graphEvidence T
  let net := dedupeGraph (graphPieces place.repo place.repoId commit code evidence)
  return graphReport T.toCrates place.repo place.repoId commit includeCodeStructure net

end Scan

end RickydataGit.Cli
