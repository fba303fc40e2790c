/-
  The local object store of an initialised repository: a cache of files and the
  references under `refs/rickydata/objects`, each one pointing to a blob.

  A write stores the canonical bytes of an object in the cache first and then
  under its reference, each with a conflict check of its own. A read takes the
  cache file if there is one; otherwise it takes the referenced blob, checks it and
  puts it back into the cache. File paths are relative to the git directory.

  The functions are programs over the accesses of `StoreOp`; `exec` is what an access
  does when nothing fails.
-/
import RickydataGit.Lib.Prog
import RickydataGit.Core.Object

namespace RickydataGit.Git

open RickydataGit.Lib RickydataGit.Core

/-! ## The store -/

structure ObjectStore where
  /-- Cache files by path. -/
  cache : Std.ExtTreeMap String Bytes
  /-- References by name, with the bytes of the blob they point to. -/
  refs : Std.ExtTreeMap String Bytes

namespace ObjectStore

/-- The store as `init` leaves it. -/
def empty : ObjectStore := ⟨∅, ∅⟩

def writeCache (s : ObjectStore) (path : String) (bytes : Bytes) : ObjectStore :=
  { s with cache := s.cache.insert path bytes }

def writeRef (s : ObjectStore) (name : String) (bytes : Bytes) : ObjectStore :=
  { s with refs := s.refs.insert name bytes }

/-- A cache file is removed from outside. -/
def deleteCache (s : ObjectStore) (path : String) : ObjectStore :=
  { s with cache := s.cache.erase path }

@[simp] theorem cache_writeCache (s : ObjectStore) (path p : String) (bytes : Bytes) :
    (s.writeCache path bytes).cache[p]? = if path = p then some bytes else s.cache[p]? := by
  simp [writeCache, Std.ExtTreeMap.getElem?_insert]

@[simp] theorem refs_writeCache (s : ObjectStore) (path : String) (bytes : Bytes) :
    (s.writeCache path bytes).refs = s.refs := rfl

@[simp] theorem cache_writeRef (s : ObjectStore) (name : String) (bytes : Bytes) :
    (s.writeRef name bytes).cache = s.cache := rfl

@[simp] theorem refs_writeRef (s : ObjectStore) (name n : String) (bytes : Bytes) :
    (s.writeRef name bytes).refs[n]? = if name = n then some bytes else s.refs[n]? := by
  simp [writeRef, Std.ExtTreeMap.getElem?_insert]

@[simp] theorem cache_deleteCache (s : ObjectStore) (path p : String) :
    (s.deleteCache path).cache[p]? = if path = p then none else s.cache[p]? := by
  simp [deleteCache, Std.ExtTreeMap.getElem?_erase]

@[simp] theorem refs_deleteCache (s : ObjectStore) (path : String) :
    (s.deleteCache path).refs = s.refs := rfl

end ObjectStore

inductive StoreOp where
  | cacheExists (path : String)
  | cacheRead (path : String)
  /-- Written beside the cache and renamed into it. -/
  | cacheWrite (path : String) (bytes : Bytes)
  | findReference (name : String)
  | createReference (name : String) (bytes : Bytes)
  /-- The references with this prefix, by name, and the blobs they point to. -/
  | listReferences (namePrefix : String)

@[reducible] def storeOps : Ops where
  Op := StoreOp
  Ans
    | .cacheExists _ => Bool
    | .cacheRead _ => Option Bytes
    | .cacheWrite _ _ => Unit
    | .findReference _ => Option Bytes
    | .createReference _ _ => Unit
    | .listReferences _ => List (String × Bytes)

def exec : (o : storeOps.Op) → ObjectStore → storeOps.Ans o × ObjectStore
  | .cacheExists path, s => ((s.cache[path]?).isSome, s)
  | .cacheRead path, s => (s.cache[path]?, s)
  | .cacheWrite path bytes, s => ((), s.writeCache path bytes)
  | .findReference name, s => (s.refs[name]?, s)
  | .createReference name bytes, s => ((), s.writeRef name bytes)
  | .listReferences namePrefix, s =>
    (s.refs.toList.filter fun r => namePrefix.toList.isPrefixOf r.1.toList, s)

/-! ## Errors and reports -/

/-- `GitInspectError`, as far as object access raises it. -/
inductive GitInspectError where
  | invalidObjectId (objectId : String)
  | objectNotFound (path : String)
  | objectConflict (objectId path : String)
  | objectIo (message : String)
  | objectParse (message : String)
  | objectGitWrite (message : String)
  | objectGitRead (message : String)
  deriving DecidableEq

/-- Its `Display`. -/
def GitInspectError.text : GitInspectError → String
  | .invalidObjectId objectId =>
    s!"invalid object id `{objectId}`; expected sha256:<64 lowercase hex chars>"
  | .objectNotFound path => s!"cached object does not exist: {path}"
  | .objectConflict objectId path => s!"cached object bytes conflict for {objectId} at {path}"
  | .objectIo message => s!"failed to read or write cached object: {message}"
  | .objectParse message => s!"failed to parse cached object JSON: {message}"
  | .objectGitWrite message =>
    s!"failed to write Rickydata object to Git object database or refs: {message}"
  | .objectGitRead message =>
    s!"failed to read Rickydata object from Git object database or refs: {message}"

inductive ObjectWriteStatus where
  | written
  | alreadyExists
  deriving DecidableEq

structure ObjectWriteReport where
  status : ObjectWriteStatus
  objectId : String
  bodyHash : String
  kind : String
  schemaVersion : String
  cachePath : String
  refName : String
  gitObjectId : String
  bytesWritten : UInt64
  deriving DecidableEq

inductive ObjectReadSource where
  | cache
  | gitRef
  deriving DecidableEq

structure ObjectReadReport where
  objectId : String
  cachePath : String
  source : ObjectReadSource
  object : CanonicalObject

structure ObjectDiagnostic where
  code : String
  message : String
  deriving DecidableEq

structure ObjectVerifyReport where
  objectId : String
  cachePath : String
  source : ObjectReadSource
  valid : Bool
  diagnostics : List ObjectDiagnostic
  computedObjectId : Option String
  computedBodyHash : Option String
  signatureCount : UInt32
  validSignatureCount : UInt32
  deriving DecidableEq

abbrev Store := Prog storeOps GitInspectError

def cacheExists (path : String) : Store Bool := .op (.cacheExists path) .ret

/-- The bytes of a file, or the error of one that is not there. -/
def foundBytes : Option Bytes → Store Bytes
  | some bytes => .ret bytes
  | none => .fail (.objectIo "No such file or directory (os error 2)")

/-- `std::fs::read`. -/
def cacheRead (path : String) : Store Bytes := .op (.cacheRead path) foundBytes

def cacheWrite (path : String) (bytes : Bytes) : Store Unit := .op (.cacheWrite path bytes) .ret

/-- `read_git_object_ref`: the bytes of the blob the reference points to. -/
def readGitObjectRef (name : String) : Store (Option Bytes) := .op (.findReference name) .ret

def createReference (name : String) (bytes : Bytes) : Store Unit :=
  .op (.createReference name bytes) .ret

section Accesses

variable {α : Type} (s : ObjectStore)

@[simp] theorem run_cacheExists (path : String) (f : Bool → Store α) :
    (cacheExists path >>= f).run exec s = (f (s.cache[path]?).isSome).run exec s := rfl

@[simp] theorem run_cacheWrite (path : String) (bytes : Bytes) (f : Unit → Store α) :
    (cacheWrite path bytes >>= f).run exec s = (f ()).run exec (s.writeCache path bytes) := rfl

@[simp] theorem run_readGitObjectRef (name : String) (f : Option Bytes → Store α) :
    (readGitObjectRef name >>= f).run exec s = (f s.refs[name]?).run exec s := rfl

@[simp] theorem run_createReference (name : String) (bytes : Bytes) (f : Unit → Store α) :
    (createReference name bytes >>= f).run exec s = (f ()).run exec (s.writeRef name bytes) := rfl

theorem run_cacheRead {path : String} {bytes : Bytes} (h : s.cache[path]? = some bytes)
    (f : Bytes → Store α) : (cacheRead path >>= f).run exec s = (f bytes).run exec s := by
  have hr : (cacheRead path).run exec s = (.ok bytes, s) := by
    have hf : (cacheRead path).run exec s = (foundBytes s.cache[path]?).run exec s := rfl
    rw [hf, h]
    rfl
  exact Prog.run_bind_ok exec hr f

end Accesses

/-! ## Names -/

def isAsciiHexdigit (c : Char) : Bool := (hexDigitValue c).isSome

def objectHex (objectId : String) : Except GitInspectError (List Char) :=
  match stripSha256 objectId with
  | none => .error (.invalidObjectId objectId)
  | some hex =>
    if hex.length ≠ 64 ∨ hex.all isAsciiHexdigit = false then .error (.invalidObjectId objectId)
    else .ok (hex.map Char.toLower)

/-- `{hex[0..2]}/{hex}`. -/
def sharded (hex : List Char) : String := .ofList (hex.take 2 ++ '/' :: hex)

def cachePathOf (hex : List Char) : String :=
  "rickydata/cache/objects/sha256/" ++ sharded hex ++ ".json"

def refNameOf (hex : List Char) : String := "refs/rickydata/objects/sha256/" ++ sharded hex

def objectCachePath (objectId : String) : Except GitInspectError String := do
  let hex ← objectHex objectId
  return cachePathOf hex

def objectRefName (objectId : String) : Except GitInspectError String := do
  let hex ← objectHex objectId
  return refNameOf hex

theorem objectHex_length {objectId : String} {hex : List Char}
    (h : objectHex objectId = .ok hex) : hex.length = 64 := by
  unfold objectHex at h
  split at h
  · cases h
  · split at h
    · cases h
    · next hc =>
        cases h
        rw [List.length_map]
        exact not_not.mp fun hl => hc (.inl hl)

theorem sharded_inj {hex hex' : List Char} (hl : hex.length = hex'.length)
    (h : sharded hex = sharded hex') : hex = hex' := by
  have hs := ofList_inj h
  have ht : (hex.take 2).length = (hex'.take 2).length := by rw [List.length_take, List.length_take, hl]
  simpa using (List.append_inj hs ht).2

theorem cachePathOf_inj {hex hex' : List Char} (hl : hex.length = hex'.length)
    (h : cachePathOf hex = cachePathOf hex') : hex = hex' :=
  sharded_inj hl ((String.append_right_inj _).mp ((String.append_left_inj _).mp h))

theorem refNameOf_inj {hex hex' : List Char} (hl : hex.length = hex'.length)
    (h : refNameOf hex = refNameOf hex') : hex = hex' :=
  sharded_inj hl ((String.append_right_inj _).mp h)

theorem objectCachePath_eq {objectId : String} {hex : List Char} (h : objectHex objectId = .ok hex) :
    objectCachePath objectId = .ok (cachePathOf hex) := by
  rw [objectCachePath, h]
  rfl

theorem objectRefName_eq {objectId : String} {hex : List Char} (h : objectHex objectId = .ok hex) :
    objectRefName objectId = .ok (refNameOf hex) := by
  rw [objectRefName, h]
  rfl

theorem objectCachePath_error {objectId : String} {e : GitInspectError}
    (h : objectHex objectId = .error e) : objectCachePath objectId = .error e := by
  rw [objectCachePath, h]
  rfl

/-! ## Ids of valid objects -/

theorem toLower_digitChar : ∀ d < 16, d.digitChar.toLower = d.digitChar := by
  decide

/-- The digits of a hash text are its own, in lower case already. -/
theorem objectHex_hashText (X : Crates) (m : Bytes) :
    objectHex (hashText X m) = .ok (hexEncode (X.sha256 m)).toList := by
  have hstrip := stripSha256_hashText X m
  have hlen := length_hexEncode_sha256 X m
  have hall : (hexEncode (X.sha256 m)).toList.all isAsciiHexdigit = true := by
    rw [List.all_eq_true]
    intro c hc
    obtain ⟨d, hd, rfl⟩ := mem_hexEncode hc
    rw [isAsciiHexdigit, hexDigitValue_digitChar d hd]
    rfl
  have hlower : (hexEncode (X.sha256 m)).toList.map Char.toLower = (hexEncode (X.sha256 m)).toList := by
    refine (List.map_congr_left fun c hc => ?_).trans (List.map_id _)
    obtain ⟨d, hd, rfl⟩ := mem_hexEncode hc
    exact toLower_digitChar d hd
  simp only [objectHex, hstrip, hlen, hall, hlower, ne_eq, not_true_eq_false, reduceCtorEq,
    or_self, if_false]

theorem objectHex_of_valid {X : Crates} {o : CanonicalObject} (h : o.Valid X) :
    ∃ m, o.objectId = hashText X m ∧ objectHex o.objectId = .ok (hexEncode (X.sha256 m)).toList := by
  have hid := h.objectId
  rw [canonicalObjectId_eq] at hid
  exact ⟨_, hid, by rw [hid, objectHex_hashText]⟩

/-- Valid objects with the same digits have the same id. -/
theorem objectId_inj {X : Crates} {o o' : CanonicalObject} (h : o.Valid X) (h' : o'.Valid X)
    {hex : List Char} (hh : objectHex o.objectId = .ok hex) (hh' : objectHex o'.objectId = .ok hex) :
    o.objectId = o'.objectId := by
  obtain ⟨m, hm, hx⟩ := objectHex_of_valid h
  obtain ⟨m', hm', hx'⟩ := objectHex_of_valid h'
  have he : (hexEncode (X.sha256 m)).toList = (hexEncode (X.sha256 m')).toList :=
    Except.ok.inj (hx.symm.trans (hh.trans (hh'.symm.trans hx')))
  rw [hm, hm', hashText, hashText, String.toList_inj.mp he]

/-! ## Diagnostics -/

section

variable (X : Crates)

/-- `object_field_diagnostics`: what is wrong, and the computed id and body hash. -/
def objectFieldDiagnostics (objectId : String) (object : CanonicalObject) :
    List ObjectDiagnostic × String × String :=
  let computedBodyHash := stableJsonHash X object.body
  let computedObjectId := canonicalObjectId X object.kind object.schemaVersion object.body
  ((if object.objectId ≠ objectId then
      [⟨"OBJECT003", "object_id field does not match requested object id"⟩] else []) ++
    (if object.objectId ≠ computedObjectId then
      [⟨"OBJECT004", "object_id does not match canonical kind/schema/body hash"⟩] else []) ++
    (if object.bodyHash ≠ computedBodyHash then
      [⟨"OBJECT005", "body_hash does not match canonical body hash"⟩] else []),
    computedObjectId, computedBodyHash)

structure SignatureSummary where
  signatureCount : UInt32
  validSignatureCount : UInt32

/-- What one signature adds: a diagnostic, or one to the count. -/
def signatureDiagnostic (object : CanonicalObject) (index : Nat) (signature : ActorSignature) :
    Option ObjectDiagnostic :=
  if signature.algorithm ≠ signatureAlgorithmEd25519 then
    some ⟨"OBJECT009", s!"signature[{index}] uses unknown algorithm `{signature.algorithm}`"⟩
  else
    match verifySignature X object.kind object.schemaVersion object.body signature with
    | .ok true => none
    | .ok false => some ⟨"OBJECT008",
        s!"signature[{index}] from public_key {signature.publicKey} did not verify against canonical body"⟩
    | .error error => some ⟨"OBJECT008", s!"signature[{index}] verification failed: {error.text}"⟩

/-- The loop of `append_signature_diagnostics`, from position `index` on. -/
def signatureLoop (object : CanonicalObject) :
    Nat → List ActorSignature → SignatureSummary × List ObjectDiagnostic →
      SignatureSummary × List ObjectDiagnostic
  | _, [], acc => acc
  | index, signature :: rest, (summary, diagnostics) =>
    signatureLoop object (index + 1) rest <|
      match signatureDiagnostic X object index signature with
      | none =>
        ({ summary with validSignatureCount := summary.validSignatureCount + 1 }, diagnostics)
      | some diagnostic => (summary, diagnostics ++ [diagnostic])

def appendSignatureDiagnostics (object : CanonicalObject) (diagnostics : List ObjectDiagnostic) :
    SignatureSummary × List ObjectDiagnostic :=
  signatureLoop X object 0 object.signatures (⟨.ofNat object.signatures.length, 0⟩, diagnostics)

def isSignatureWarning (code : String) : Bool := code = "OBJECT008" || code = "OBJECT009"

/-! ## Writing -/

def writeObjectCacheBytes (cachePath objectId : String) (objectBytes : Bytes) :
    Store ObjectWriteStatus := do
  if ← cacheExists cachePath then
    let existing ← cacheRead cachePath
    if existing ≠ objectBytes then .fail (.objectConflict objectId cachePath)
    else return .alreadyExists
  else
    cacheWrite cachePath objectBytes
    return .written

/-- The error on a reference that points elsewhere. -/
def refConflict (refName objectId existingId gitObjectId : String) : GitInspectError :=
  .objectGitWrite s!"{refName} points to {existingId}, expected {gitObjectId} for {objectId}"

def writeGitObjectRef (objectId refName : String) (objectBytes : Bytes) : Store String := do
  let gitObjectId := X.blobId objectBytes
  match ← readGitObjectRef refName with
  | some existing =>
    let existingId := X.blobId existing
    if existingId ≠ gitObjectId then .fail (refConflict refName objectId existingId gitObjectId)
    else return gitObjectId
  | none =>
    createReference refName objectBytes
    return gitObjectId

/-- What both writes do with an object and its bytes: the cache, then the reference. -/
def storeObject (object : CanonicalObject) (objectBytes : Bytes) : Store ObjectWriteReport := do
  let cachePath ← objectCachePath object.objectId
  let status ← writeObjectCacheBytes cachePath object.objectId objectBytes
  let refName ← objectRefName object.objectId
  let gitObjectId ← writeGitObjectRef X object.objectId refName objectBytes
  return {
    status, objectId := object.objectId, bodyHash := object.bodyHash, kind := object.kind,
    schemaVersion := object.schemaVersion, cachePath, refName, gitObjectId,
    bytesWritten := .ofNat objectBytes.length }

/-- The object `write_cached_object` makes of a kind and a body. -/
def cachedObject (kind : String) (body : Value) : CanonicalObject :=
  .new X kind defaultSchemaVersion 0 (canonicalJson body)

def writeCachedObject (kind : String) (body : Value) : Store ObjectWriteReport :=
  let object := cachedObject X kind body
  storeObject X object (canonicalObjectBytes X object)

def diagnosticSummary (diagnostics : List ObjectDiagnostic) : String :=
  "; ".intercalate (diagnostics.map fun diagnostic => s!"{diagnostic.code}: {diagnostic.message}")

def writeCanonicalObject (object : CanonicalObject) : Store ObjectWriteReport := do
  let (diagnostics, _, _) := objectFieldDiagnostics X object.objectId object
  if diagnostics ≠ [] then
    .fail (.objectIo
      s!"canonical object {object.objectId} failed validation: {diagnosticSummary diagnostics}")
  else storeObject X object (canonicalObjectBytes X object)

/-! ## Reading -/

def readObjectBytes (bytes : Bytes) : Except GitInspectError CanonicalObject :=
  (objectFromSlice X bytes).mapError .objectParse

def readObjectFile (path : String) : Store CanonicalObject := do
  let bytes ← cacheRead path
  readObjectBytes X bytes

/-- The error on a referenced blob that is another object. -/
def mismatch (refName objectId : String) (diagnostics : List ObjectDiagnostic) : GitInspectError :=
  let codes := ",".intercalate (diagnostics.map ObjectDiagnostic.code)
  .objectGitRead s!"ref-backed object {refName} does not match requested {objectId}: {codes}"

def readObjectFromCacheOrRef (cachePath objectId : String) :
    Store (ObjectReadSource × CanonicalObject) := do
  if ← cacheExists cachePath then
    let object ← readObjectFile X cachePath
    return (.cache, object)
  else
    let refName ← objectRefName objectId
    match ← readGitObjectRef refName with
    | none => .fail (.objectNotFound cachePath)
    | some bytes =>
      let object ← readObjectBytes X bytes
      let (diagnostics, _, _) := objectFieldDiagnostics X objectId object
      if diagnostics ≠ [] then .fail (mismatch refName objectId diagnostics)
      else
        let _ ← writeObjectCacheBytes cachePath objectId bytes
        return (.gitRef, object)

def readCachedObject (objectId : String) : Store ObjectReadReport := do
  let cachePath ← objectCachePath objectId
  let (source, object) ← readObjectFromCacheOrRef X cachePath objectId
  return { objectId, cachePath, source, object }

/-! ## Verifying -/

def refConsistencyDiagnostics (objectId : String) (object : CanonicalObject) :
    Store (List ObjectDiagnostic) := do
  let refName ← objectRefName objectId
  match ← readGitObjectRef refName with
  | none => return []
  | some refBytes =>
    if refBytes ≠ canonicalObjectBytes X object then
      return [⟨"OBJECT006", "ref-backed object bytes do not match the local cached object"⟩]
    else return []

def verifyObjectFields (objectId cachePath : String) (source : ObjectReadSource)
    (object : CanonicalObject) (diagnostics : List ObjectDiagnostic) : ObjectVerifyReport :=
  let (fieldDiagnostics, computedObjectId, computedBodyHash) :=
    objectFieldDiagnostics X objectId object
  let (signatureSummary, diagnostics) :=
    appendSignatureDiagnostics X object (diagnostics ++ fieldDiagnostics)
  { objectId, cachePath, source
    valid := !diagnostics.any fun d => !isSignatureWarning d.code
    diagnostics
    computedObjectId := some computedObjectId
    computedBodyHash := some computedBodyHash
    signatureCount := signatureSummary.signatureCount
    validSignatureCount := signatureSummary.validSignatureCount }

/-- The report on an object that could not be read. -/
def unreadable (objectId cachePath : String) (source : ObjectReadSource)
    (diagnostic : ObjectDiagnostic) : ObjectVerifyReport :=
  { objectId, cachePath, source, valid := false, diagnostics := [diagnostic]
    computedObjectId := none, computedBodyHash := none
    signatureCount := 0, validSignatureCount := 0 }

def verifyCachedObject (objectId : String) : Store ObjectVerifyReport := do
  let cachePath ← objectCachePath objectId
  if ← cacheExists cachePath then
    match ← (readObjectFile X cachePath).attempt with
    | .error error =>
      return unreadable objectId cachePath .cache ⟨"OBJECT002", error.text⟩
    | .ok object =>
      let diagnostics ← refConsistencyDiagnostics X objectId object
      return verifyObjectFields X objectId cachePath .cache object diagnostics
  else
    match ← (readObjectFromCacheOrRef X cachePath objectId).attempt with
    | .ok (source, object) => return verifyObjectFields X objectId cachePath source object []
    | .error (.objectNotFound _) =>
      return unreadable objectId cachePath .cache
        ⟨"OBJECT001", "cached object file and ref-backed object are missing"⟩
    | .error error => return unreadable objectId cachePath .gitRef ⟨"OBJECT007", error.text⟩

end

/-! ## What a run does -/

section Runs

variable {X : Crates} (s : ObjectStore)

theorem writeObjectCacheBytes_run (path objectId : String) (bytes : Bytes) :
    (writeObjectCacheBytes path objectId bytes).run exec s =
      match s.cache[path]? with
      | some existing =>
        if existing ≠ bytes then (.error (.objectConflict objectId path), s)
        else (.ok .alreadyExists, s)
      | none => (.ok .written, s.writeCache path bytes) := by
  unfold writeObjectCacheBytes
  rw [run_cacheExists]
  cases h : s.cache[path]? with
  | none => rfl
  | some existing =>
    simp only [Option.isSome_some, if_true]
    rw [run_cacheRead s h]
    split <;> rfl

theorem writeGitObjectRef_run (objectId name : String) (bytes : Bytes) :
    (writeGitObjectRef X objectId name bytes).run exec s =
      match s.refs[name]? with
      | some existing =>
        if X.blobId existing ≠ X.blobId bytes then
          (.error (refConflict name objectId (X.blobId existing) (X.blobId bytes)), s)
        else (.ok (X.blobId bytes), s)
      | none => (.ok (X.blobId bytes), s.writeRef name bytes) := by
  unfold writeGitObjectRef
  rw [run_readGitObjectRef]
  cases h : s.refs[name]? with
  | none => rfl
  | some existing =>
    simp only
    split <;> rfl

/-- A write under an id that is none does nothing. -/
theorem storeObject_run_error {o : CanonicalObject} {e : GitInspectError}
    (h : objectHex o.objectId = .error e) (bytes : Bytes) :
    (storeObject X o bytes).run exec s = (.error e, s) := by
  rw [storeObject, objectCachePath_error h]
  rfl

theorem storeObject_run {o : CanonicalObject} {hex : List Char}
    (h : objectHex o.objectId = .ok hex) (bytes : Bytes) :
    (storeObject X o bytes).run exec s =
      match (writeObjectCacheBytes (cachePathOf hex) o.objectId bytes).run exec s with
      | (.error e, s₁) => (.error e, s₁)
      | (.ok status, s₁) =>
        match (writeGitObjectRef X o.objectId (refNameOf hex) bytes).run exec s₁ with
        | (.error e, s₂) => (.error e, s₂)
        | (.ok gitObjectId, s₂) =>
          (.ok { status, objectId := o.objectId, bodyHash := o.bodyHash, kind := o.kind,
                 schemaVersion := o.schemaVersion, cachePath := cachePathOf hex,
                 refName := refNameOf hex, gitObjectId, bytesWritten := .ofNat bytes.length }, s₂) := by
  rw [storeObject, objectCachePath_eq h, objectRefName_eq h, Prog.liftM_ok, Prog.ret_bind,
    Prog.run_bind]
  rcases (writeObjectCacheBytes (cachePathOf hex) o.objectId bytes).run exec s with ⟨_ | status, s₁⟩
  · rfl
  · simp only [Prog.liftM_ok, Prog.ret_bind]
    rw [Prog.run_bind]
    rcases (writeGitObjectRef X o.objectId (refNameOf hex) bytes).run exec s₁ with ⟨_ | id, s₂⟩
    · rfl
    · rfl

/-- The cache holds the bytes afterwards, and held nothing else before. -/
def CacheStep (path : String) (bytes : Bytes) (s s₁ : ObjectStore) : Prop :=
  (s.cache[path]? = some bytes ∧ s₁ = s) ∨
    (s.cache[path]? = none ∧ s₁ = s.writeCache path bytes)

/-- What a write of some bytes can leave behind, and whether it reports success. -/
inductive StoreEffect (X : Crates) (hex : List Char) (bytes : Bytes) (s : ObjectStore) :
    Bool → ObjectStore → Prop where
  /-- The cache holds other bytes; nothing is changed. -/
  | conflict {b : Bytes} : s.cache[cachePathOf hex]? = some b → b ≠ bytes →
      StoreEffect X hex bytes s false s
  /-- The reference points to other bytes, which is noticed after the cache was written. -/
  | refused {s₁ : ObjectStore} {b : Bytes} : CacheStep (cachePathOf hex) bytes s s₁ →
      s.refs[refNameOf hex]? = some b → X.blobId b ≠ X.blobId bytes →
      StoreEffect X hex bytes s false s₁
  | present {s₁ : ObjectStore} {b : Bytes} : CacheStep (cachePathOf hex) bytes s s₁ →
      s.refs[refNameOf hex]? = some b → X.blobId b = X.blobId bytes →
      StoreEffect X hex bytes s true s₁
  | created {s₁ : ObjectStore} : CacheStep (cachePathOf hex) bytes s s₁ →
      s.refs[refNameOf hex]? = none →
      StoreEffect X hex bytes s true (s₁.writeRef (refNameOf hex) bytes)

theorem CacheStep.refs {path : String} {bytes : Bytes} {s s₁ : ObjectStore}
    (h : CacheStep path bytes s s₁) : s₁.refs = s.refs := by
  rcases h with ⟨_, rfl⟩ | ⟨_, rfl⟩ <;> rfl

theorem CacheStep.cache {path : String} {bytes : Bytes} {s s₁ : ObjectStore}
    (h : CacheStep path bytes s s₁) : s₁.cache[path]? = some bytes := by
  rcases h with ⟨hc, rfl⟩ | ⟨_, rfl⟩
  · exact hc
  · simp

theorem CacheStep.cache_ne {path p : String} {bytes : Bytes} {s s₁ : ObjectStore}
    (h : CacheStep path bytes s s₁) (hp : path ≠ p) : s₁.cache[p]? = s.cache[p]? := by
  rcases h with ⟨_, rfl⟩ | ⟨_, rfl⟩
  · rfl
  · simp [hp]

/-- One spec for both writes: the effect on the store, and where the report says the
    object is. -/
theorem storeObject_effect {o : CanonicalObject} {hex : List Char}
    (h : objectHex o.objectId = .ok hex) (bytes : Bytes) :
    StoreEffect X hex bytes s ((storeObject X o bytes).run exec s).1.isOk
        ((storeObject X o bytes).run exec s).2 ∧
      ∀ report, ((storeObject X o bytes).run exec s).1 = .ok report →
        report.objectId = o.objectId ∧ report.cachePath = cachePathOf hex := by
  -- the reference is looked up in the store the cache step left
  have href : ∀ status s₁, CacheStep (cachePathOf hex) bytes s s₁ →
      (writeObjectCacheBytes (cachePathOf hex) o.objectId bytes).run exec s = (.ok status, s₁) →
      StoreEffect X hex bytes s ((storeObject X o bytes).run exec s).1.isOk
          ((storeObject X o bytes).run exec s).2 ∧
        ∀ report, ((storeObject X o bytes).run exec s).1 = .ok report →
          report.objectId = o.objectId ∧ report.cachePath = cachePathOf hex := by
    intro status s₁ hs₁ hrun
    rw [storeObject_run s h, hrun]
    simp only [writeGitObjectRef_run, hs₁.refs]
    cases hr : s.refs[refNameOf hex]? with
    | none => exact ⟨.created hs₁ hr, by rintro _ ⟨rfl⟩; exact ⟨rfl, rfl⟩⟩
    | some b =>
      by_cases hb : X.blobId b = X.blobId bytes
      · simp only [hb, ne_eq, not_true_eq_false, if_false]
        exact ⟨.present hs₁ hr hb, by rintro _ ⟨rfl⟩; exact ⟨rfl, rfl⟩⟩
      · simp only [hb, ne_eq, not_false_eq_true, if_true]
        exact ⟨.refused hs₁ hr hb, by rintro _ ⟨⟩⟩
  cases hc : s.cache[cachePathOf hex]? with
  | none =>
    refine href .written _ (.inr ⟨hc, rfl⟩) ?_
    rw [writeObjectCacheBytes_run, hc]
  | some b =>
    by_cases hb : b = bytes
    · subst hb
      refine href .alreadyExists s (.inl ⟨hc, rfl⟩) ?_
      rw [writeObjectCacheBytes_run, hc]
      simp
    · have hrun : (writeObjectCacheBytes (cachePathOf hex) o.objectId bytes).run exec s =
          (.error (.objectConflict o.objectId (cachePathOf hex)), s) := by
        rw [writeObjectCacheBytes_run, hc]
        simp [hb]
      rw [storeObject_run s h, hrun]
      exact ⟨.conflict hc hb, by rintro _ ⟨⟩⟩

theorem readObjectFile_run {path : String} {bytes : Bytes} (hc : s.cache[path]? = some bytes) :
    (readObjectFile X path).run exec s = (readObjectBytes X bytes, s) := by
  rw [readObjectFile, run_cacheRead s hc]
  cases readObjectBytes X bytes <;> rfl

theorem read_run_of_cache {hex : List Char} {objectId : String} {bytes : Bytes}
    (hc : s.cache[cachePathOf hex]? = some bytes) :
    (readObjectFromCacheOrRef X (cachePathOf hex) objectId).run exec s =
      ((readObjectBytes X bytes).map fun object => (.cache, object), s) := by
  rw [readObjectFromCacheOrRef, run_cacheExists, hc, Option.isSome_some, if_pos rfl, Prog.run_bind,
    readObjectFile_run s hc]
  cases readObjectBytes X bytes <;> rfl

theorem read_run_of_missing {hex : List Char} {objectId : String}
    (h : objectHex objectId = .ok hex) (hc : s.cache[cachePathOf hex]? = none)
    (hr : s.refs[refNameOf hex]? = none) :
    (readObjectFromCacheOrRef X (cachePathOf hex) objectId).run exec s =
      (.error (.objectNotFound (cachePathOf hex)), s) := by
  rw [readObjectFromCacheOrRef, run_cacheExists, hc, objectRefName_eq h]
  simp only [Option.isSome_none, Bool.false_eq_true, if_false, Prog.liftM_ok, Prog.ret_bind,
    run_readGitObjectRef, hr]
  rfl

/-- The referenced blob is used when it parses and matches the id, and is then put
    back into the cache. -/
theorem read_run_of_ref {hex : List Char} {objectId : String} {bytes : Bytes}
    (h : objectHex objectId = .ok hex) (hc : s.cache[cachePathOf hex]? = none)
    (hr : s.refs[refNameOf hex]? = some bytes) :
    (readObjectFromCacheOrRef X (cachePathOf hex) objectId).run exec s =
      match readObjectBytes X bytes with
      | .error e => (.error e, s)
      | .ok object =>
        if (objectFieldDiagnostics X objectId object).1 = [] then
          (.ok (.gitRef, object), s.writeCache (cachePathOf hex) bytes)
        else
          (.error (mismatch (refNameOf hex) objectId (objectFieldDiagnostics X objectId object).1),
            s) := by
  rw [readObjectFromCacheOrRef, run_cacheExists, hc, objectRefName_eq h]
  simp only [Option.isSome_none, Bool.false_eq_true, if_false, Prog.liftM_ok, Prog.ret_bind,
    run_readGitObjectRef, hr]
  cases ho : readObjectBytes X bytes with
  | error e => rfl
  | ok object =>
    simp only [Prog.liftM_ok, Prog.ret_bind]
    by_cases hd : (objectFieldDiagnostics X objectId object).1 = []
    · simp only [hd, ne_eq, not_true_eq_false, if_false, if_true]
      rw [Prog.run_bind, writeObjectCacheBytes_run, hc]
      rfl
    · simp only [ne_eq, hd, not_false_eq_true, if_true, if_false, Prog.run_fail]

/-- All that reading can change: a cache file comes back from its reference. -/
def ReadEffect (hex : List Char) (s s' : ObjectStore) : Prop :=
  s' = s ∨ ∃ bytes, s.cache[cachePathOf hex]? = none ∧ s.refs[refNameOf hex]? = some bytes ∧
    s' = s.writeCache (cachePathOf hex) bytes

theorem read_effect {hex : List Char} {objectId : String} (h : objectHex objectId = .ok hex) :
    ReadEffect hex s ((readObjectFromCacheOrRef X (cachePathOf hex) objectId).run exec s).2 := by
  cases hc : s.cache[cachePathOf hex]? with
  | some bytes => exact .inl (by rw [read_run_of_cache s hc])
  | none =>
    cases hr : s.refs[refNameOf hex]? with
    | none => exact .inl (by rw [read_run_of_missing s h hc hr])
    | some bytes =>
      rw [read_run_of_ref s h hc hr]
      split
      · exact .inl rfl
      · split
        · exact .inr ⟨bytes, hc, hr, rfl⟩
        · exact .inl rfl

theorem readCachedObject_run {hex : List Char} {objectId : String}
    (h : objectHex objectId = .ok hex) :
    (readCachedObject X objectId).run exec s =
      match (readObjectFromCacheOrRef X (cachePathOf hex) objectId).run exec s with
      | (.ok (source, object), s') =>
        (.ok { objectId, cachePath := cachePathOf hex, source, object }, s')
      | (.error e, s') => (.error e, s') := by
  rw [readCachedObject, objectCachePath_eq h, Prog.liftM_ok, Prog.ret_bind, Prog.run_bind]
  rcases (readObjectFromCacheOrRef X (cachePathOf hex) objectId).run exec s with ⟨_ | ⟨_, _⟩, s'⟩
  · rfl
  · rfl

theorem readCachedObject_run_error {objectId : String} {e : GitInspectError}
    (h : objectHex objectId = .error e) :
    (readCachedObject X objectId).run exec s = (.error e, s) := by
  rw [readCachedObject, objectCachePath_error h]
  rfl

theorem readCachedObject_effect {hex : List Char} {objectId : String}
    (h : objectHex objectId = .ok hex) :
    ReadEffect hex s ((readCachedObject X objectId).run exec s).2 := by
  have he := read_effect (X := X) s h
  rw [readCachedObject_run s h]
  generalize (readObjectFromCacheOrRef X (cachePathOf hex) objectId).run exec s = r at he ⊢
  rcases r with ⟨_ | ⟨_, _⟩, s'⟩
  · exact he
  · exact he

theorem refConsistencyDiagnostics_run {hex : List Char} {objectId : String}
    (h : objectHex objectId = .ok hex) (object : CanonicalObject) :
    (refConsistencyDiagnostics X objectId object).run exec s =
      (.ok (match s.refs[refNameOf hex]? with
        | none => []
        | some refBytes =>
          if refBytes ≠ canonicalObjectBytes X object then
            [⟨"OBJECT006", "ref-backed object bytes do not match the local cached object"⟩]
          else []), s) := by
  rw [refConsistencyDiagnostics, objectRefName_eq h, Prog.liftM_ok, Prog.ret_bind,
    run_readGitObjectRef]
  cases s.refs[refNameOf hex]? with
  | none => rfl
  | some refBytes =>
    simp only
    split <;> rfl

theorem verify_run_of_cache {hex : List Char} {objectId : String}
    (h : objectHex objectId = .ok hex) {bytes : Bytes}
    (hc : s.cache[cachePathOf hex]? = some bytes) :
    (verifyCachedObject X objectId).run exec s =
      match readObjectBytes X bytes with
      | .error error =>
        (.ok (unreadable objectId (cachePathOf hex) .cache ⟨"OBJECT002", error.text⟩), s)
      | .ok object =>
        match (refConsistencyDiagnostics X objectId object).run exec s with
        | (.error e, s') => (.error e, s')
        | (.ok diagnostics, s') =>
          (.ok (verifyObjectFields X objectId (cachePathOf hex) .cache object diagnostics), s') := by
  rw [verifyCachedObject, objectCachePath_eq h, Prog.liftM_ok, Prog.ret_bind, run_cacheExists, hc,
    Option.isSome_some, if_pos rfl,
    Prog.run_bind_ok exec (Prog.run_attempt exec (readObjectFile X (cachePathOf hex)) s),
    readObjectFile_run s hc]
  cases readObjectBytes X bytes with
  | error e => rfl
  | ok object =>
    simp only
    rw [Prog.run_bind]
    rcases (refConsistencyDiagnostics X objectId object).run exec s with ⟨_ | _, s'⟩ <;> rfl

theorem verify_run_of_no_cache {hex : List Char} {objectId : String}
    (h : objectHex objectId = .ok hex) (hc : s.cache[cachePathOf hex]? = none) :
    (verifyCachedObject X objectId).run exec s =
      match (readObjectFromCacheOrRef X (cachePathOf hex) objectId).run exec s with
      | (.ok (source, object), s') =>
        (.ok (verifyObjectFields X objectId (cachePathOf hex) source object []), s')
      | (.error (.objectNotFound _), s') =>
        (.ok (unreadable objectId (cachePathOf hex) .cache
          ⟨"OBJECT001", "cached object file and ref-backed object are missing"⟩), s')
      | (.error error, s') =>
        (.ok (unreadable objectId (cachePathOf hex) .gitRef ⟨"OBJECT007", error.text⟩), s') := by
  rw [verifyCachedObject, objectCachePath_eq h, Prog.liftM_ok, Prog.ret_bind, run_cacheExists, hc,
    Option.isSome_none, if_neg Bool.false_ne_true,
    Prog.run_bind_ok exec (Prog.run_attempt exec (readObjectFromCacheOrRef X _ objectId) s)]
  rcases (readObjectFromCacheOrRef X (cachePathOf hex) objectId).run exec s with ⟨e | ⟨_, _⟩, s'⟩
  · cases e <;> rfl
  · rfl

theorem verifyCachedObject_effect {hex : List Char} {objectId : String}
    (h : objectHex objectId = .ok hex) :
    ReadEffect hex s ((verifyCachedObject X objectId).run exec s).2 := by
  cases hc : s.cache[cachePathOf hex]? with
  | some bytes =>
    rw [verify_run_of_cache s h hc]
    cases readObjectBytes X bytes with
    | error e => exact .inl rfl
    | ok object =>
      simp only [refConsistencyDiagnostics_run s h]
      exact .inl rfl
  | none =>
    have he := read_effect (X := X) s h
    rw [verify_run_of_no_cache s h hc]
    generalize (readObjectFromCacheOrRef X (cachePathOf hex) objectId).run exec s = r at he ⊢
    rcases r with ⟨e | ⟨_, _⟩, s'⟩
    · cases e <;> exact he
    · exact he

theorem verifyCachedObject_run_error {objectId : String} {e : GitInspectError}
    (h : objectHex objectId = .error e) :
    (verifyCachedObject X objectId).run exec s = (.error e, s) := by
  rw [verifyCachedObject, objectCachePath_error h]
  rfl

end Runs

end RickydataGit.Git
