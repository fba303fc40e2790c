/-
  `FileRelayStore`: one file for an object, one for the record of a push, under a
  directory that is named by the hash of the repository id.

  A path is the list of its components below the root. A directory exists when a
  file lies below it, so the files are the whole state. `exec` is what an access does
  when nothing fails; `FileStep` also allows reads and writes that fail, a failed
  write with or without its effect.
-/
import RickydataGit.Lib.Keyed
import RickydataGit.Relay.Store

namespace RickydataGit.Relay

open RickydataGit.Lib RickydataGit.Core

/-! ## Files -/

abbrev Path := List String

abbrev Files := Std.ExtTreeMap Path Bytes compare

structure DirEntry where
  name : String
  isDir : Bool
  deriving DecidableEq

namespace Files

/-- The entry of a directory that a path below it goes through. -/
def entryOf (dir path : Path) : Option DirEntry :=
  if dir.isPrefixOf path then
    match path.drop dir.length with
    | [] => none
    | [name] => some ⟨name, false⟩
    | name :: _ => some ⟨name, true⟩
  else none

def entries (s : Files) (dir : Path) : List DirEntry := (s.keys.filterMap (entryOf dir)).dedup

end Files

inductive FileOp where
  | fileExists (path : Path)
  | readFile (path : Path)
  /-- `create_dir_all` of the parent, then the whole file. -/
  | writeFile (path : Path) (bytes : Bytes)
  | dirExists (path : Path)
  | readDir (path : Path)

@[reducible] def fileOps : Ops where
  Op := FileOp
  Ans
    | .fileExists _ => Bool
    | .readFile _ => Except String Bytes
    | .writeFile _ _ => Except String Unit
    | .dirExists _ => Bool
    | .readDir _ => Except String (List DirEntry)

def notFound : String := "No such file or directory (os error 2)"

/-- The answer of a read that finds this. -/
def foundFile : Option Bytes → Except String Bytes
  | some bytes => .ok bytes
  | none => .error notFound

def Files.exec : (o : fileOps.Op) → Files → fileOps.Ans o × Files
  | .fileExists path, s => ((s[path]?).isSome, s)
  | .readFile path, s => (foundFile s[path]?, s)
  | .writeFile path bytes, s => (.ok (), s.insert path bytes)
  | .dirExists path, s => (!(s.entries path).isEmpty, s)
  | .readDir path, s => (.ok (s.entries path), s)

def FileStep (s : Files) : (o : fileOps.Op) → fileOps.Ans o → Files → Prop
  | .fileExists path, a, s' => a = (s[path]?).isSome ∧ s' = s
  | .readFile path, a, s' => (∀ bytes, a = .ok bytes → s[path]? = some bytes) ∧ s' = s
  | .writeFile path bytes, a, s' => s' = s.insert path bytes ∨ (∃ m, a = .error m) ∧ s' = s
  | .dirExists path, a, s' => a = !(s.entries path).isEmpty ∧ s' = s
  | .readDir path, a, s' => (∀ es, a = .ok es → es = s.entries path) ∧ s' = s

theorem fileStep_exec (s : Files) (o : fileOps.Op) :
    FileStep s o (Files.exec o s).1 (Files.exec o s).2 := by
  rcases o with path | path | ⟨path, bytes⟩ | path | path
  · exact ⟨rfl, rfl⟩
  · refine ⟨fun bytes h => ?_, rfl⟩
    have hf : foundFile s[path]? = .ok bytes := h
    rcases hb : s[path]? with _ | b
    · rw [hb] at hf
      cases hf
    · rw [hb] at hf
      rw [Except.ok.inj hf]
  · exact .inl rfl
  · exact ⟨rfl, rfl⟩
  · exact ⟨fun es h => (Except.ok.inj h).symm, rfl⟩

/-- An access that writes nothing. -/
def FileOp.Reads : FileOp → Prop
  | .writeFile _ _ => False
  | _ => True

theorem FileStep.eq_of_reads {s s' : Files} {o : fileOps.Op} {a : fileOps.Ans o}
    (h : FileStep s o a s') (ho : o.Reads) : s' = s := by
  rcases o with path | path | ⟨path, bytes⟩ | path | path
  · exact h.2
  · exact h.2
  · exact ho.elim
  · exact h.2
  · exact h.2

abbrev FileProg := Prog fileOps RelayError

def pathExists (path : Path) : FileProg Bool := .op (.fileExists path) .ret

/-- The answer of an access that may fail. -/
def ioResult {O : Ops} {α : Type} : Except String α → Prog O RelayError α
  | .ok a => .ret a
  | .error message => .fail (.io message)

/-- `std::fs::read`. -/
def fsRead (path : Path) : FileProg Bytes := .op (.readFile path) ioResult

def writeBytes (path : Path) (bytes : Bytes) : FileProg Unit :=
  .op (.writeFile path bytes) ioResult

def dirExists (path : Path) : FileProg Bool := .op (.dirExists path) .ret

def readDir (path : Path) : FileProg (List DirEntry) := .op (.readDir path) ioResult

section Accesses

variable {α : Type} (s : Files)

@[simp] theorem run_pathExists (path : Path) (f : Bool → FileProg α) :
    (pathExists path >>= f).run Files.exec s = (f (s[path]?).isSome).run Files.exec s := rfl

@[simp] theorem run_writeBytes (path : Path) (bytes : Bytes) (f : Unit → FileProg α) :
    (writeBytes path bytes >>= f).run Files.exec s =
      (f ()).run Files.exec (s.insert path bytes) := rfl

@[simp] theorem run_dirExists (path : Path) (f : Bool → FileProg α) :
    (dirExists path >>= f).run Files.exec s = (f (!(s.entries path).isEmpty)).run Files.exec s :=
  rfl

@[simp] theorem run_readDir (path : Path) (f : List DirEntry → FileProg α) :
    (readDir path >>= f).run Files.exec s = (f (s.entries path)).run Files.exec s := rfl

theorem run_fsRead (path : Path) :
    (fsRead path).run Files.exec s = ((foundFile s[path]?).mapError .io, s) := by
  show (ioResult (foundFile s[path]?)).run Files.exec s = _
  rcases s[path]? with _ | b
  · rfl
  · rfl

end Accesses

/-! ## Names -/

section Names

variable (X : Crates)

def repoDir (repoId : String) : Path := ["repos", keyHash X repoId]

def idempotencyPath (repoId idempotencyKey : String) : Path :=
  repoDir X repoId ++ ["idempotency", keyHash X idempotencyKey ++ ".json"]

def objectsDir (repoId : String) : Path := repoDir X repoId ++ ["objects", "sha256"]

/-- `ch.is_ascii_hexdigit() && !ch.is_ascii_uppercase()`. -/
def isLowerHexdigit (c : Char) : Bool := (hexDigitValue c).isSome && !c.isUpper

/-- The digits of an object id, as far as `object_path` checks them. -/
def objectDigits (objectId : String) : Except RelayError (List Char) :=
  match stripSha256 objectId with
  | none => .error (.invalidObject objectId "expected sha256:<64 lowercase hex chars>")
  | some hex =>
    if hex.length ≠ 64 ∨ hex.all isLowerHexdigit = false then
      .error (.invalidObject objectId "expected sha256:<64 lowercase hex chars>")
    else .ok hex

def objectFile (repoId : String) (hex : List Char) : Path :=
  objectsDir X repoId ++ [.ofList (hex.take 2), .ofList hex ++ ".json"]

def objectPath (repoId objectId : String) : Except RelayError Path := do
  let hex ← objectDigits objectId
  return objectFile X repoId hex

end Names

/-! ## The store -/

namespace FileRelayStore

section Programs

variable (X : Crates)

def readReport (path : Path) : FileProg BundlePushReport := do
  let bytes ← fsRead path
  reportFromSlice X bytes

def readObjectFile (path : Path) : FileProg CanonicalObject := do
  let bytes ← fsRead path
  storedObjectFromSlice X bytes

/-- The first loop of a push: no object differs from the file it has. -/
def checkObjects (repoId : String) : List CanonicalObject → FileProg Unit
  | [] => return ()
  | object :: rest => do
    let path ← objectPath X repoId object.objectId
    if ← pathExists path then
      let existing ← fsRead path
      if existing ≠ canonicalObjectBytes X object then .fail (.objectConflict object.objectId)
      else checkObjects repoId rest
    else checkObjects repoId rest

/-- The second loop: objects without a file get one. The counts are those so far of
    accepted objects and of duplicates. -/
def writeObjects (repoId : String) :
    UInt64 → UInt64 → List CanonicalObject → FileProg (UInt64 × UInt64)
  | accepted, duplicate, [] => return (accepted, duplicate)
  | accepted, duplicate, object :: rest => do
    let path ← objectPath X repoId object.objectId
    if ← pathExists path then writeObjects repoId accepted (duplicate + 1) rest
    else
      writeBytes path (canonicalObjectBytes X object)
      writeObjects repoId (accepted + 1) duplicate rest

/-- `push_bundle` of a request that passed validation. -/
def pushValidated (request : BundlePushRequest) (validation : BundleValidationReport) :
    FileProg BundlePushReport := do
  let recordPath := idempotencyPath X request.repoId request.idempotencyKey
  if ← pathExists recordPath then readReport X recordPath
  else
    checkObjects X request.repoId request.objects
    let (accepted, duplicate) ← writeObjects X request.repoId 0 0 request.objects
    let report :=
      pushReport request accepted duplicate validation.objectIds validation.bundleHash
    writeBytes recordPath (recordBytes X report)
    return report

/-- The id a directory entry stands for. -/
def entryObjectId (entry : DirEntry) : Option String :=
  if entry.isDir then none
  else if ".json".toList.isSuffixOf entry.name.toList then
    some ("sha256:" ++ .ofList (entry.name.toList.take (entry.name.length - 5)))
  else none

/-- The loop over the directories of one object directory each. -/
def listShards (dir : Path) : List DirEntry → FileProg (List String)
  | [] => return []
  | shard :: rest =>
    if !shard.isDir then listShards dir rest
    else do
      let entries ← readDir (dir ++ [shard.name])
      let objectIds ← listShards dir rest
      return entries.filterMap entryObjectId ++ objectIds

def listObjectIds (repoId : String) : FileProg (List String) := do
  let dir := objectsDir X repoId
  if !(← dirExists dir) then return []
  else
    let shards ← readDir dir
    let objectIds ← listShards dir shards
    return sorted objectIds

def readObject (repoId objectId : String) : FileProg CanonicalObject := do
  let path ← objectPath X repoId objectId
  readObjectFile X path

/-- `read_object` of each id. -/
def readObjects (repoId : String) : List String → FileProg (List CanonicalObject)
  | [] => return []
  | objectId :: rest => do
    let object ← readObject X repoId objectId
    let objects ← readObjects repoId rest
    return object :: objects

def pullBundle (request : BundlePullRequest) : FileProg BundlePullReport := do
  let objectIds ← listObjectIds X request.repoId
  let missing := objectIds.filter fun objectId => !request.knownObjectIds.contains objectId
  let objects ← readObjects X request.repoId (selected request.limit missing)
  return pullReport request missing objects

variable (policy : Policy)

def pushBundle (request : BundlePushRequest) : FileProg BundlePushReport := do
  let validation ← bundleValidationReport X policy request
  pushValidated X request validation

end Programs

end FileRelayStore

def fileRelayStore (X : Crates) (policy : Policy) : RelayStore fileOps where
  validateBundle request := liftM (bundleValidationReport X policy request)
  pushBundle := FileRelayStore.pushBundle X policy
  pullBundle := FileRelayStore.pullBundle X
  readObject := FileRelayStore.readObject X
  listObjectIds := FileRelayStore.listObjectIds X
  repoStatus repoId := do
    return repoStatusReport X repoId (← FileRelayStore.listObjectIds X repoId)

/-! ## Paths of objects and records -/

section Paths

variable {X : Crates}

theorem objectDigits_length {objectId : String} {hex : List Char}
    (h : objectDigits objectId = .ok hex) : hex.length = 64 := by
  unfold objectDigits at h
  split at h
  · cases h
  · split at h
    · cases h
    · next hc =>
        cases h
        exact not_not.mp fun hl => hc (.inl hl)

/-- The digits of an id are the rest of it. -/
theorem eq_of_objectDigits {objectId : String} {hex : List Char}
    (h : objectDigits objectId = .ok hex) : objectId = "sha256:" ++ .ofList hex := by
  unfold objectDigits at h
  split at h
  · cases h
  · next hs =>
      split at h
      · cases h
      · rw [← Except.ok.inj h]
        exact eq_of_stripSha256 hs

theorem objectDigits_inj {objectId objectId' : String} {hex : List Char}
    (h : objectDigits objectId = .ok hex) (h' : objectDigits objectId' = .ok hex) :
    objectId = objectId' := by
  rw [eq_of_objectDigits h, eq_of_objectDigits h']

theorem isLowerHexdigit_digitChar : ∀ d < 16, isLowerHexdigit d.digitChar = true := by
  decide

theorem objectDigits_hashText (m : Bytes) :
    objectDigits (hashText X m) = .ok (hexEncode (X.sha256 m)).toList := by
  have hall : (hexEncode (X.sha256 m)).toList.all isLowerHexdigit = true := by
    rw [List.all_eq_true]
    intro c hc
    obtain ⟨d, hd, rfl⟩ := mem_hexEncode hc
    exact isLowerHexdigit_digitChar d hd
  simp only [objectDigits, stripSha256_hashText, length_hexEncode_sha256, hall, ne_eq,
    not_true_eq_false, Bool.true_eq_false, or_self, if_false]

/-- A valid object has a path. -/
theorem objectDigits_of_valid {o : CanonicalObject} (h : o.Valid X) :
    ∃ hex, objectDigits o.objectId = .ok hex := by
  rw [h.objectId, canonicalObjectId_eq]
  exact ⟨_, objectDigits_hashText _⟩

theorem objectPath_eq {repoId objectId : String} {hex : List Char}
    (h : objectDigits objectId = .ok hex) :
    objectPath X repoId objectId = .ok (objectFile X repoId hex) := by
  rw [objectPath, h]
  rfl

theorem objectPath_ok {repoId objectId : String} {path : Path}
    (h : objectPath X repoId objectId = .ok path) :
    ∃ hex, objectDigits objectId = .ok hex ∧ path = objectFile X repoId hex := by
  unfold objectPath at h
  rcases hd : objectDigits objectId with e | hex
  · rw [hd] at h
    cases h
  · rw [hd] at h
    exact ⟨hex, rfl, (Except.ok.inj h).symm⟩

theorem objectFile_inj {r r' : String} {hex hex' : List Char}
    (h : objectFile X r hex = objectFile X r' hex') : keyHash X r = keyHash X r' ∧ hex = hex' := by
  simp only [objectFile, objectsDir, repoDir, List.cons_append, List.nil_append, List.cons.injEq,
    true_and, and_true] at h
  exact ⟨h.1, ofList_inj (String.append_left_inj _ |>.mp h.2.2)⟩

theorem objectFile_ne_idempotencyPath (r r' key : String) (hex : List Char) :
    objectFile X r hex ≠ idempotencyPath X r' key := by
  intro h
  simp [objectFile, objectsDir, repoDir, idempotencyPath] at h

theorem idempotencyPath_inj {r r' key key' : String}
    (h : idempotencyPath X r key = idempotencyPath X r' key') :
    keyHash X r = keyHash X r' ∧ keyHash X key = keyHash X key' := by
  simp only [idempotencyPath, repoDir, List.cons_append, List.nil_append, List.cons.injEq,
    true_and, and_true] at h
  exact ⟨h.1, String.append_left_inj _ |>.mp h.2⟩

/-- Repositories of one directory have the same paths. -/
theorem objectPath_congr {r r' : String} (h : keyHash X r = keyHash X r') (objectId : String) :
    objectPath X r objectId = objectPath X r' objectId := by
  simp only [objectPath, objectFile, objectsDir, repoDir, h]

theorem keyHash_inj {a b : String} (hc : NoCollision X (utf8 a) (utf8 b))
    (h : keyHash X a = keyHash X b) : a = b :=
  utf8_inj (hc (hexEncode_inj h))

end Paths

end RickydataGit.Relay
