/-
  `GcsRelayStore`: the same store in a bucket, one object of the bucket for each
  canonical object and for the record of each push.

  An access to the bucket is one HTTP request: the answer is a response, or the text
  of a transport error. `sendWithRetry` sends up to three times. Uploads carry
  `ifGenerationMatch=0`, so they write a free name only. The pages of a listing are
  one access.

  `Bucket.exec` is a bucket where nothing fails. `BucketStep` also allows requests
  that fail on the way there or on the way back: a failed upload may have happened.
-/
import RickydataGit.Lib.Keyed
import RickydataGit.Relay.Store

namespace RickydataGit.Relay

open RickydataGit.Lib RickydataGit.Core

/-! ## The bucket -/

abbrev Bucket := Std.ExtTreeMap String Bytes compare

namespace Bucket

/-- The names that start like this. -/
def namesUnder (s : Bucket) (listPrefix : String) : List String :=
  s.keys.filter fun name => listPrefix.toList.isPrefixOf name.toList

end Bucket

structure Response (α : Type) where
  status : Nat
  body : α

namespace Response

variable {α : Type} (r : Response α)

def isSuccess : Bool := 200 ≤ r.status && r.status < 300

def isServerError : Bool := 500 ≤ r.status && r.status < 600

/-- What `error_for_status` refuses. -/
def isError : Bool := 400 ≤ r.status && r.status < 600

end Response

inductive BucketOp where
  /-- The bearer token to send along; it may have to be fetched. -/
  | authToken
  | get (name : String)
  | insert (name : String) (bytes : Bytes)
  | list (listPrefix : String)

@[reducible] def bucketOps : Ops where
  Op := BucketOp
  Ans
    | .authToken => Except String Unit
    | .get _ => Except String (Response Bytes)
    | .insert _ _ => Except String (Response Unit)
    | .list _ => Except String (Response (List String))

/-- The answer to a download. -/
def found : Option Bytes → Response Bytes
  | some bytes => ⟨200, bytes⟩
  | none => ⟨404, []⟩

def Bucket.exec : (o : bucketOps.Op) → Bucket → bucketOps.Ans o × Bucket
  | .authToken, s => (.ok (), s)
  | .get name, s => (.ok (found s[name]?), s)
  | .insert name bytes, s =>
    match s[name]? with
    | none => (.ok ⟨200, ()⟩, s.insert name bytes)
    | some _ => (.ok ⟨412, ()⟩, s)
  | .list listPrefix, s => (.ok ⟨200, s.namesUnder listPrefix⟩, s)

/-- A request that did not go through: no response, or one that reports an error
    other than those with a meaning here (404, 409, 412). -/
def Failed {α : Type} : Except String (Response α) → Prop
  | .error _ => True
  | .ok r => r.isError = true ∧ r.status ∉ [404, 409, 412]

def BucketStep (s : Bucket) : (o : bucketOps.Op) → bucketOps.Ans o → Bucket → Prop
  | .authToken, _, s' => s' = s
  | .get name, a, s' => (Failed a ∨ a = .ok (found s[name]?)) ∧ s' = s
  | .insert name bytes, a, s' =>
    (s[name]? = none ∧ (Failed a ∨ a = .ok ⟨200, ()⟩) ∧ s' = s.insert name bytes) ∨
    (s[name]? ≠ none ∧ (a = .ok ⟨412, ()⟩ ∨ a = .ok ⟨409, ()⟩) ∧ s' = s) ∨
    (Failed a ∧ s' = s)
  | .list listPrefix, a, s' =>
    (Failed a ∨ a = .ok ⟨200, s.namesUnder listPrefix⟩) ∧ s' = s

theorem bucketStep_exec (s : Bucket) (o : bucketOps.Op) :
    BucketStep s o (Bucket.exec o s).1 (Bucket.exec o s).2 := by
  rcases o with _ | name | ⟨name, bytes⟩ | listPrefix
  · rfl
  · exact ⟨.inr rfl, rfl⟩
  · rcases hn : s[name]? with _ | b
    · have he : Bucket.exec (.insert name bytes) s = (.ok ⟨200, ()⟩, s.insert name bytes) := by
        rw [Bucket.exec, hn]
      rw [he]
      exact .inl ⟨hn, .inr rfl, rfl⟩
    · have he : Bucket.exec (.insert name bytes) s = (.ok ⟨412, ()⟩, s) := by
        rw [Bucket.exec, hn]
      rw [he]
      exact .inr (.inl ⟨by rw [hn]; exact Option.some_ne_none b, .inl rfl, rfl⟩)
  · exact ⟨.inr rfl, rfl⟩

/-- A request that writes nothing. -/
def BucketOp.Reads : BucketOp → Prop
  | .insert _ _ => False
  | _ => True

theorem BucketStep.eq_of_reads {s s' : Bucket} {o : BucketOp} {a : bucketOps.Ans o}
    (h : BucketStep s o a s') (ho : o.Reads) : s' = s := by
  rcases o with _ | name | ⟨name, bytes⟩ | listPrefix
  · exact h
  · exact h.2
  · exact ho.elim
  · exact h.2

abbrev BucketProg := Prog bucketOps RelayError

inductive GcsPutResult where
  | written
  | alreadyExists
  deriving DecidableEq

/-! ## Names -/

section Names

variable (X : Crates)

/-- The prefix the objects of a repository are listed under. -/
def objectsPrefix (repoId : String) : String := "repos/" ++ repoId ++ "/objects/"

def objectName (repoId objectId : String) : String :=
  objectsPrefix repoId ++ keyHash X objectId ++ ".json"

def idempotencyName (repoId idempotencyKey : String) : String :=
  "repos/" ++ repoId ++ "/idempotency/" ++ keyHash X idempotencyKey ++ ".json"

end Names

/-! ## Requests -/

/-- The error on a response that reports one. -/
def statusError (status : Nat) : RelayError := .io s!"HTTP status error ({status})"

/-- `send_with_retry`, with this many attempts left after the next one. -/
def sendWithRetry {α : Type} (send : BucketProg (Except String (Response α))) :
    Nat → BucketProg (Response α)
  | 0 => do
    match ← send with
    | .ok response => return response
    | .error message => .fail (.io message)
  | attempts + 1 => do
    match ← send with
    | .ok response =>
      if response.isServerError then sendWithRetry send attempts else return response
    | .error _ => sendWithRetry send attempts

def withAuth : BucketProg Unit :=
  .op .authToken fun
    | .ok _ => .ret ()
    | .error message => .fail (.io message)

def getBytes (name : String) : BucketProg Bytes := do
  withAuth
  let response ← sendWithRetry (.op (.get name) .ret) 2
  if response.status = 404 then .fail (.io s!"GCS object `{name}` was not found")
  else if response.isError then .fail (statusError response.status)
  else return response.body

def putBytesIfAbsent (name : String) (bytes : Bytes) : BucketProg GcsPutResult := do
  withAuth
  let response ← sendWithRetry (.op (.insert name bytes) .ret) 2
  if response.isSuccess then return .written
  else if response.status = 412 ∨ response.status = 409 then return .alreadyExists
  else .fail (.io s!"GCS write for `{name}` returned {response.status}")

def listNames (listPrefix : String) : BucketProg (List String) := do
  withAuth
  let response ← sendWithRetry (.op (.list listPrefix) .ret) 2
  if response.isError then .fail (statusError response.status)
  else return response.body

/-! ## The store -/

namespace GcsRelayStore

section Programs

variable (X : Crates)

/-- `read_json_object`, of a record. -/
def readReport (name : String) : BucketProg BundlePushReport := do
  let bytes ← getBytes name
  reportFromSlice X bytes

/-- The loop of a push, with the counts so far. -/
def putObjects (repoId : String) (existingNames : List String) :
    UInt64 → UInt64 → List CanonicalObject → BucketProg (UInt64 × UInt64)
  | accepted, duplicate, [] => return (accepted, duplicate)
  | accepted, duplicate, object :: rest => do
    let name := objectName X repoId object.objectId
    if existingNames.contains name then
      putObjects repoId existingNames accepted (duplicate + 1) rest
    else
      match ← putBytesIfAbsent name (canonicalObjectBytes X object) with
      | .written => putObjects repoId existingNames (accepted + 1) duplicate rest
      | .alreadyExists => putObjects repoId existingNames accepted (duplicate + 1) rest

/-- What a push does once no record was found for its key. -/
def pushObjects (request : BundlePushRequest) : BucketProg BundlePushReport := do
  let existingNames ← listNames (objectsPrefix request.repoId)
  let objectIds := request.objects.map CanonicalObject.objectId
  let (accepted, duplicate) ← putObjects X request.repoId existingNames 0 0 request.objects
  let report := pushReport request accepted duplicate objectIds (bundleHash X objectIds)
  let recordName := idempotencyName X request.repoId request.idempotencyKey
  match ← putBytesIfAbsent recordName (recordBytes X report) with
  | .written => return report
  | .alreadyExists => readReport X recordName

/-- `push_bundle` of a request that passed validation: whatever goes wrong with the
    record of its key, it goes on. -/
def pushValidated (request : BundlePushRequest) : BucketProg BundlePushReport := do
  match ← (readReport X (idempotencyName X request.repoId request.idempotencyKey)).attempt with
  | .ok report => return report
  | .error _ => pushObjects X request

variable (policy : Policy)

def pushBundle (request : BundlePushRequest) : BucketProg BundlePushReport := do
  let _ ← bundleValidationReport X policy request
  pushValidated X request

/-- An object of the bucket, checked again. -/
def readStored (repoId name : String) : BucketProg CanonicalObject := do
  let bytes ← getBytes name
  let object ← storedObjectFromSlice X bytes
  validateStoredObject X policy repoId object
  return object

def readAll (repoId : String) : List String → BucketProg (List CanonicalObject)
  | [] => return []
  | name :: rest => do
    let object ← readStored X policy repoId name
    let objects ← readAll repoId rest
    return object :: objects

def pullBundle (request : BundlePullRequest) : BucketProg BundlePullReport := do
  let knownNames := request.knownObjectIds.map (objectName X request.repoId)
  let names ← listNames (objectsPrefix request.repoId)
  let missingNames := sorted (names.filter fun name => !knownNames.contains name)
  let objects ← readAll X policy request.repoId (selected request.limit missingNames)
  return pullReport request missingNames objects

def readObject (repoId objectId : String) : BucketProg CanonicalObject :=
  readStored X policy repoId (objectName X repoId objectId)

def listObjectIds (repoId : String) : BucketProg (List String) := do
  let names ← listNames (objectsPrefix repoId)
  let objects ← readAll X policy repoId names
  return sorted (objects.map CanonicalObject.objectId)

def repoStatus (repoId : String) : BucketProg RepoRelayStatusReport := do
  let names ← listNames (objectsPrefix repoId)
  return repoStatusReport X repoId (sorted names)

end Programs

end GcsRelayStore

def gcsRelayStore (X : Crates) (policy : Policy) : RelayStore bucketOps where
  validateBundle request := liftM (bundleValidationReport X policy request)
  pushBundle := GcsRelayStore.pushBundle X policy
  pullBundle := GcsRelayStore.pullBundle X policy
  readObject := GcsRelayStore.readObject X policy
  listObjectIds := GcsRelayStore.listObjectIds X policy
  repoStatus := GcsRelayStore.repoStatus X

/-! ## What the requests do -/

section Requests

variable {α β : Type}

theorem every_sendWithRetry {P : BucketOp → Prop} {send : BucketProg (Except String (Response α))}
    (h : send.Every P) (attempts : Nat) : (sendWithRetry send attempts).Every P := by
  induction attempts with
  | zero =>
    refine Prog.every_bind h fun a => ?_
    rcases a with m | r
    · trivial
    · trivial
  | succ attempts ih =>
    refine Prog.every_bind h fun a => ?_
    rcases a with m | r
    · exact ih
    · show (if r.isServerError then sendWithRetry send attempts else .ret r).Every P
      split
      · exact ih
      · trivial

/-- A response that is no server error is not asked for again. -/
theorem run_sendWithRetry {send : BucketProg (Except String (Response α))} {s s' : Bucket}
    {r : Response α} (h : send.run Bucket.exec s = (.ok (.ok r), s')) (hr : r.isServerError = false)
    (attempts : Nat) : (sendWithRetry send attempts).run Bucket.exec s = (.ok r, s') := by
  rcases attempts with _ | attempts
  · exact Prog.run_bind_ok _ h _
  · refine (Prog.run_bind_ok _ h _).trans ?_
    show (if r.isServerError then sendWithRetry send attempts else .ret r).run _ s' = _
    rw [if_neg (by simp [hr])]
    rfl

theorem run_withAuth (f : Unit → BucketProg β) (s : Bucket) :
    (withAuth >>= f).run Bucket.exec s = (f ()).run Bucket.exec s := rfl

/-- What a download comes to. -/
def downloaded (name : String) : Option Bytes → Except RelayError Bytes
  | some bytes => .ok bytes
  | none => .error (.io s!"GCS object `{name}` was not found")

theorem run_getBytes (name : String) (s : Bucket) :
    (getBytes name).run Bucket.exec s = (downloaded name s[name]?, s) := by
  have hs : (.op (.get name) .ret : BucketProg _).run Bucket.exec s =
      (.ok (.ok (found s[name]?)), s) := rfl
  unfold getBytes
  rcases hn : s[name]? with _ | bytes
  · rw [hn] at hs
    rw [run_withAuth, Prog.run_bind_ok _ (run_sendWithRetry hs rfl 2)]
    rfl
  · rw [hn] at hs
    rw [run_withAuth, Prog.run_bind_ok _ (run_sendWithRetry hs rfl 2)]
    rfl

theorem run_putBytesIfAbsent_none {s : Bucket} {name : String} (h : s[name]? = none)
    (bytes : Bytes) :
    (putBytesIfAbsent name bytes).run Bucket.exec s = (.ok .written, s.insert name bytes) := by
  have hs : (.op (.insert name bytes) .ret : BucketProg _).run Bucket.exec s =
      (.ok (.ok ⟨200, ()⟩), s.insert name bytes) := by
    rw [Prog.run_op, Bucket.exec, h]
    rfl
  unfold putBytesIfAbsent
  rw [run_withAuth, Prog.run_bind_ok _ (run_sendWithRetry hs rfl 2)]
  rfl

theorem run_putBytesIfAbsent_some {s : Bucket} {name : String} {b : Bytes} (h : s[name]? = some b)
    (bytes : Bytes) :
    (putBytesIfAbsent name bytes).run Bucket.exec s = (.ok .alreadyExists, s) := by
  have hs : (.op (.insert name bytes) .ret : BucketProg _).run Bucket.exec s =
      (.ok (.ok ⟨412, ()⟩), s) := by
    rw [Prog.run_op, Bucket.exec, h]
    rfl
  unfold putBytesIfAbsent
  rw [run_withAuth, Prog.run_bind_ok _ (run_sendWithRetry hs rfl 2)]
  rfl

theorem run_listNames (listPrefix : String) (s : Bucket) :
    (listNames listPrefix).run Bucket.exec s = (.ok (s.namesUnder listPrefix), s) := by
  have hs : (.op (.list listPrefix) .ret : BucketProg _).run Bucket.exec s =
      (.ok (.ok ⟨200, s.namesUnder listPrefix⟩), s) := rfl
  unfold listNames
  rw [run_withAuth, Prog.run_bind_ok _ (run_sendWithRetry hs rfl 2)]
  rfl

theorem runs_withAuth {f : Unit → BucketProg β} {s s' : Bucket} {b : β}
    (h : (withAuth >>= f).Runs BucketStep s (.ok b) s') : (f ()).Runs BucketStep s (.ok b) s' := by
  obtain ⟨u, s₁, ⟨a, s₂, ha, hu⟩, hf⟩ := Prog.runs_bind h
  rcases a with m | a
  · cases hu.1
  · obtain ⟨-, he⟩ := hu
    rw [he, show s₂ = s from ha] at hf
    exact hf

/-- A request that changes nothing, retried: the response is one that it may get. -/
theorem runs_sendWithRetry (o : BucketOp) (ho : o.Reads) {s s' : Bucket} {r : Response α}
    (wrap : bucketOps.Ans o → Except String (Response α)) {attempts : Nat}
    (h : (sendWithRetry (.op o fun a => .ret (wrap a)) attempts).Runs BucketStep s (.ok r) s') :
    s' = s ∧ ∃ a, BucketStep s o a s ∧ wrap a = .ok r := by
  induction attempts with
  | zero =>
    obtain ⟨x, s₁, ⟨a, s₂, ha, hx⟩, hr⟩ := Prog.runs_bind h
    obtain ⟨hx, rfl⟩ := hx
    obtain rfl := ha.eq_of_reads ho
    cases hx
    rcases hw : wrap a with m | r'
    · rw [hw] at hr
      cases hr.1
    · rw [hw] at hr
      obtain ⟨hr, rfl⟩ := hr
      exact ⟨rfl, a, ha, hw.trans (congrArg _ (Except.ok.inj hr).symm)⟩
  | succ attempts ih =>
    obtain ⟨x, s₁, ⟨a, s₂, ha, hx⟩, hr⟩ := Prog.runs_bind h
    obtain ⟨hx, rfl⟩ := hx
    obtain rfl := ha.eq_of_reads ho
    cases hx
    rcases hw : wrap a with m | r'
    · rw [hw] at hr
      exact ih hr
    · rw [hw] at hr
      replace hr : (if r'.isServerError then _ else _ : BucketProg _).Runs BucketStep _ _ _ := hr
      split at hr
      · exact ih hr
      · obtain ⟨hr, rfl⟩ := hr
        exact ⟨rfl, a, ha, hw.trans (congrArg _ (Except.ok.inj hr).symm)⟩

theorem runs_getBytes {s s' : Bucket} {name : String} {bytes : Bytes}
    (h : (getBytes name).Runs BucketStep s (.ok bytes) s') : s[name]? = some bytes ∧ s' = s := by
  obtain ⟨r, s₁, hsend, hr⟩ := Prog.runs_bind (runs_withAuth h)
  obtain ⟨rfl, a, ⟨ha, -⟩, he⟩ := runs_sendWithRetry (.get name) trivial id hsend
  obtain rfl : a = .ok r := he
  split at hr
  · cases hr.1
  · next h404 =>
      split at hr
      · cases hr.1
      · next herr =>
          obtain ⟨hb, rfl⟩ := hr
          rcases ha with hf | hf
          · exact absurd hf.1 herr
          · refine ⟨?_, rfl⟩
            rw [Except.ok.inj hf] at h404 hb
            rcases hn : s'[name]? with _ | b
            · rw [hn] at h404
              exact absurd rfl h404
            · rw [hn] at hb
              exact congrArg some (Except.ok.inj hb).symm

theorem runs_listNames {s s' : Bucket} {listPrefix : String} {names : List String}
    (h : (listNames listPrefix).Runs BucketStep s (.ok names) s') :
    names = s.namesUnder listPrefix ∧ s' = s := by
  obtain ⟨r, s₁, hsend, hr⟩ := Prog.runs_bind (runs_withAuth h)
  obtain ⟨rfl, a, ⟨ha, -⟩, he⟩ := runs_sendWithRetry (.list listPrefix) trivial id hsend
  obtain rfl : a = .ok r := he
  split at hr
  · cases hr.1
  · next herr =>
      obtain ⟨hb, rfl⟩ := hr
      rcases ha with hf | hf
      · exact absurd hf.1 herr
      · rw [Except.ok.inj hf] at hb
        exact ⟨Except.ok.inj hb, rfl⟩

end Requests

/-! ## Names of objects and records -/

section Names

variable {X : Crates} {r r' a a' : String}

theorem append_keyHash_inj {p p' : String} (h : p ++ keyHash X a ++ ".json" =
    p' ++ keyHash X a' ++ ".json") : p = p' ∧ keyHash X a = keyHash X a' := by
  have hl : (keyHash X a).toList.length = (keyHash X a').toList.length := by
    rw [keyHash, keyHash, length_hexEncode_sha256, length_hexEncode_sha256]
  have ht := congrArg String.toList (String.append_left_inj _ |>.mp h)
  rw [String.toList_append, String.toList_append] at ht
  obtain ⟨hp, hk⟩ := List.append_inj' ht hl
  exact ⟨String.toList_inj.mp hp, String.toList_inj.mp hk⟩

theorem objectName_inj (h : objectName X r a = objectName X r' a') :
    r = r' ∧ keyHash X a = keyHash X a' := by
  obtain ⟨hp, hk⟩ := append_keyHash_inj h
  exact ⟨String.append_right_inj _ |>.mp (String.append_left_inj _ |>.mp hp), hk⟩

theorem idempotencyName_inj (h : idempotencyName X r a = idempotencyName X r' a') :
    r = r' ∧ keyHash X a = keyHash X a' := by
  obtain ⟨hp, hk⟩ := append_keyHash_inj h
  exact ⟨String.append_right_inj _ |>.mp (String.append_left_inj _ |>.mp hp), hk⟩

theorem objectName_ne_idempotencyName : objectName X r a ≠ idempotencyName X r' a' := by
  intro h
  have hp := congrArg (fun s => s.toList.reverse) (append_keyHash_inj h).1
  simp [objectsPrefix] at hp

end Names

end RickydataGit.Relay
