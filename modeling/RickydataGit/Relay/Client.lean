/-
  The client of a relay: `relay push`, `relay pull` and `relay status`.

  A push sends the objects of a clone in chunks, each under a key of its own, and adds up
  what it is answered. A call goes over HTTP: through its URL to the server, with the token
  in a header, and back as a status and a body.

  `sendPush_eq`, `sendPull_eq`, `sendStatus_eq` : where a call arrives and is let in, sending
  it is making it on the store of the relay, with another text for its errors.
-/
import RickydataGit.Lib.Chunks
import RickydataGit.Git.Listing
import RickydataGit.Relay.Server

namespace RickydataGit.Relay

open RickydataGit.Lib RickydataGit.Core RickydataGit.Git

/-! ## Over HTTP -/

/-- `relay_auth_token`, with the variable of the environment. -/
def relayAuthToken (explicit env : Option String) : Option String :=
  (explicit.or env).filter fun token => !token.isEmpty

/-- A relay, as the client is told of it, and where its URLs lead. -/
structure Remote (O : Ops) where
  accepts : List Char → Bool
  mount : List Url.Segment
  server : HttpRequest → Prog O Empty HttpResponse
  baseUrl : String
  explicitToken : Option String
  envToken : Option String

def Remote.authToken {O : Ops} (remote : Remote O) : Option String :=
  relayAuthToken remote.explicitToken remote.envToken

def errorForStatus (rejected : String) (response : HttpResponse) : Except String HttpResponse :=
  if 400 ≤ response.status ∧ response.status < 600 then .error rejected else .ok response

section Sending

variable {O : Ops} (X : Crates) (remote : Remote O)

/-- A URL that leads elsewhere is answered by no relay. -/
def send (failed rejected : String) (method : Method) (url : String) (isJson : Bool)
    (body : Bytes) : Prog O String HttpResponse :=
  let path := (Url.requestPath remote.accepts url.toList).bind (·.dropPrefix? remote.mount)
  match path with
  | none => .fail failed
  | some path => do
    let response ← (remote.server
      ⟨method, path, remote.authToken.map ("Bearer " ++ ·), isJson, body⟩).mapFail Empty.elim
    errorForStatus rejected response

/-- `json`, of a response. -/
def responseJson {α : Type} (format : Format α) (unreadable : String) (response : HttpResponse) :
    Except String α :=
  match format.ofBytes X response.body with
  | some a => .ok a
  | none => .error unreadable

def sendPush (request : BundlePushRequest) : Prog O String BundlePushReport := do
  let url ← relayUrl remote.baseUrl request.repoId "bundles/push"
  let response ← send remote "failed to push bundle to relay" "relay rejected bundle push" .post
    url true (pushRequestFormat.bytes X request)
  responseJson X pushReportFormat "failed to parse relay bundle push response" response

def sendPull (request : BundlePullRequest) : Prog O String BundlePullReport := do
  let url ← relayUrl remote.baseUrl request.repoId "bundles/pull"
  let response ← send remote "failed to pull bundle from relay" "relay rejected bundle pull" .post
    url true (pullRequestFormat.bytes X request)
  responseJson X pullReportFormat "failed to parse relay bundle pull response" response

def sendStatus (repoId : String) : Prog O String RepoRelayStatusReport := do
  let url ← relayUrl remote.baseUrl repoId "status"
  let response ← send remote "failed to fetch relay status" "relay rejected status request" .get
    url false []
  responseJson X statusReportFormat "failed to parse relay status response" response

end Sending

/-! ## The commands -/

/-- `{:04}`. -/
def fourDigits (n : Nat) : String := .ofList ((toString n).toList.leftpad 4 '0')

/-- `relay push`, with the objects of the clone. -/
structure ClientPush where
  repoId : String
  idempotencyKey : Option String
  chunkSize : Nat
  objects : List CanonicalObject

namespace ClientPush

variable (X : Crates) (p : ClientPush)

def objectIds : List String := p.objects.map CanonicalObject.objectId

/-- What the default key hashes. -/
def keyValue : Value :=
  .obj [("object_ids", .arr (p.objectIds.map .str)), ("repo_id", .str p.repoId)] (by simp)

def key : String :=
  match p.idempotencyKey with
  | some value => value
  | none => stableJsonHash X p.keyValue

def size : Nat := max p.chunkSize 1

def chunkCount : Nat := max (p.objects.length ⌈/⌉ p.size) 1

def chunkKey (index : Nat) : String :=
  if p.chunkCount = 1 then p.key X
  else s!"{p.key X}:chunk:{fourDigits (index + 1)}-of-{fourDigits p.chunkCount}"

/-- The request for each chunk. -/
def requests : List BundlePushRequest :=
  (chunks p.size p.objects).mapIdx fun index chunk => ⟨p.repoId, p.chunkKey X index, chunk⟩

end ClientPush

section Commands

variable {O : Ops} {ε : Type} (X : Crates)

/-- The loop over the chunks, with what was counted and pushed so far. -/
def pushChunks (push : BundlePushRequest → Prog O ε BundlePushReport)
    (accepted duplicate : UInt64) (ids : List String) :
    List BundlePushRequest → Prog O ε (UInt64 × UInt64 × List String)
  | [] => return (accepted, duplicate, ids)
  | request :: rest => do
    let report ← push request
    pushChunks push (accepted + report.acceptedObjectCount)
      (duplicate + report.duplicateObjectCount) (ids ++ report.objectIds) rest

def pushObjects (push : BundlePushRequest → Prog O ε BundlePushReport) (p : ClientPush) :
    Prog O ε BundlePushReport := do
  let (accepted, duplicate, ids) ← pushChunks push 0 0 [] (p.requests X)
  return {
    status := "ok", repoId := p.repoId, idempotencyKey := p.key X
    acceptedObjectCount := accepted, duplicateObjectCount := duplicate, objectIds := ids
    bundleHash := bundleHash X p.objectIds }

/-- `relay_repo_id`, with the name of the directory of the clone. -/
def relayRepoId (requested : Option String) (derived : Except String String) :
    Except String String := do
  let repoId ← match requested with
    | some value => .ok value
    | none => derived
  ensureSafeRepoId repoId
  return repoId

/-- The objects of the entries, read one by one. -/
def readEntries : List ObjectListEntry → Store (List CanonicalObject)
  | [] => return []
  | entry :: rest => do
    let report ← readCachedObject X entry.objectId
    return report.object :: (← readEntries rest)

/-- The objects of a clone. -/
def localObjects : Store (List CanonicalObject) := do
  readEntries X (← listRefBackedObjects X none)

/-- The loop over what was pulled, with what was counted so far. -/
def writePulled (written duplicate : UInt64) : List CanonicalObject → Store (UInt64 × UInt64)
  | [] => return (written, duplicate)
  | object :: rest => do
    let report ← writeCanonicalObject X object
    match report.status with
    | .written => writePulled (written + 1) duplicate rest
    | .alreadyExists => writePulled written (duplicate + 1) rest

structure RelayPullCliReport where
  status : String
  repoId : String
  objectCount : UInt64
  remainingObjectCount : UInt64
  writtenObjectCount : UInt64
  duplicateObjectCount : UInt64
  objectIds : List String

structure RelayStatusCliReport where
  status : String
  repoId : String
  localObjectCount : UInt64
  relayObjectCount : UInt64
  relayObjectIdsHash : String

/-- Commands of a client, on its clone and over the network. -/
abbrev ClientProg (O : Ops) := Prog (storeOps.plus O) String

/-- The part of a command that works on the clone. -/
def onClone {α : Type} (p : Store α) : ClientProg O α := (p.mapFail GitInspectError.text).liftLeft O

variable (remote : Remote O) (requested : Option String) (derived : Except String String)

def relayPush (idempotencyKey : Option String) (chunkSize : Nat) :
    ClientProg O BundlePushReport := do
  let repoId ← relayRepoId requested derived
  let objects ← onClone (localObjects X)
  let push : ClientPush := ⟨repoId, idempotencyKey, chunkSize, objects⟩
  (pushObjects X (sendPush X remote) push).liftRight storeOps

def relayPull (limit : Option UInt64) : ClientProg O RelayPullCliReport := do
  let repoId ← relayRepoId requested derived
  let entries ← onClone (listRefBackedObjects X none)
  let known := entries.map ObjectListEntry.objectId
  let report ← (sendPull X remote ⟨repoId, known, limit⟩).liftRight storeOps
  let (written, duplicate) ← onClone (writePulled X 0 0 report.objects)
  return {
    status := report.status, repoId := report.repoId, objectCount := report.objectCount
    remainingObjectCount := report.remainingObjectCount, writtenObjectCount := written
    duplicateObjectCount := duplicate, objectIds := report.objects.map CanonicalObject.objectId }

def relayStatus : ClientProg O RelayStatusCliReport := do
  let repoId ← relayRepoId requested derived
  let entries ← onClone (listRefBackedObjects X none)
  let localCount : UInt64 := .ofNat entries.length
  let report ← (sendStatus X remote repoId).liftRight storeOps
  return {
    status := if localCount = report.objectCount then "ok" else "out_of_sync"
    repoId := report.repoId, localObjectCount := localCount
    relayObjectCount := report.objectCount, relayObjectIdsHash := report.objectIdsHash }

end Commands

/-! ## A call that arrives -/

/-- The calls for a repository arrive at a relay on the store and are let in. -/
structure Reaches {O : Ops} (X : Crates) (remote : Remote O) (store : RelayStore O) (axum : Axum)
    (repoId : String) : Prop where
  arrives : ∀ call, Arrives remote.accepts remote.mount remote.baseUrl repoId call
  served : ∃ token, remote.server = served X store axum token ∧
    (token = none ∨ token = remote.authToken)
  rejects : ∀ request rejected, errorForStatus rejected (axum.rejection request) = .error rejected

section Reaches

variable {O : Ops} {X : Crates} {remote : Remote O} {store : RelayStore O} {axum : Axum}
  {repoId : String}

theorem bearerToken_bearer (token : String) : bearerToken ("Bearer " ++ token) = some token := by
  have hdrop : ("Bearer ".toList ++ token.toList).dropPrefix? "Bearer ".toList =
      some token.toList := List.dropPrefix?_eq_some_iff.mpr ⟨_, rfl, beq_self_eq_true _⟩
  rw [bearerToken, String.toList_append, hdrop, Option.map_some, String.ofList_toList]

theorem admitted_of_token {token authToken : Option String} (h : token = none ∨ token = authToken)
    (method : Method) (path : List Url.Segment) (isJson : Bool) (body : Bytes) :
    admitted token ⟨method, path, authToken.map ("Bearer " ++ ·), isJson, body⟩ = true := by
  rcases h with rfl | rfl
  · rfl
  · rcases token with _ | token
    · rfl
    · show (_ || (bearerToken ("Bearer " ++ token) == some token)) = true
      rw [bearerToken_bearer, beq_self_eq_true, Bool.or_true]

/-- An error of the store is a status that the client refuses. -/
theorem errorForStatus_httpError (rejected : String) (e : RelayError) :
    errorForStatus rejected (httpError X e) = .error rejected := by
  cases e with
  | invalidObject | objectConflict | io | json => rfl

/-- What the client reads of the response to a call that it made. -/
theorem read_answering (hX : ReadsBack X) {α : Type} {format : Format α}
    {reply : α → RelayReply} (hreply : ∀ a, (reply a).bytes X = format.bytes X a)
    (p : Prog O RelayError α) (rejected unreadable : String) :
    ((answering X (do return reply (← p))).mapFail Empty.elim >>= fun response =>
      liftM (errorForStatus rejected response) >>= fun response =>
        liftM (responseJson X format unreadable response)) = p.mapFail fun _ => rejected := by
  induction p with
  | ret a =>
    show (liftM (responseJson X format unreadable ⟨200, (reply a).bytes X⟩) : Prog O String α) =
      .ret a
    rw [responseJson, hreply, format.ofBytes_bytes hX]
    rfl
  | fail e =>
    show (liftM (errorForStatus rejected (httpError X e)) >>= fun response : HttpResponse =>
      liftM (responseJson X format unreadable response) : Prog O String α) = .fail rejected
    rw [errorForStatus_httpError]
    rfl
  | op o k ih => exact congrArg (Prog.op o) (funext ih)

/-- A request that arrives is served for its path. -/
theorem send_eq {failed rejected url : String} {method : Method} {isJson : Bool} {body : Bytes}
    {path : List Url.Segment}
    (hpath : Url.requestPath remote.accepts url.toList = some (remote.mount ++ path)) :
    send remote failed rejected method url isJson body =
      (remote.server ⟨method, path, remote.authToken.map ("Bearer " ++ ·), isJson, body⟩).mapFail
        Empty.elim >>= fun response => liftM (errorForStatus rejected response) := by
  have hdrop : (remote.mount ++ path).dropPrefix? remote.mount = some path :=
    List.dropPrefix?_eq_some_iff.mpr ⟨_, rfl, beq_self_eq_true _⟩
  unfold send
  rw [hpath]
  show (match (remote.mount ++ path).dropPrefix? remote.mount with
    | none => _ | some path => _) = _
  rw [hdrop]

/-- What comes back of a request that makes a call. -/
theorem sent_eq (hX : ReadsBack X) {token : Option String}
    (hserver : remote.server = served X store axum token) {failed rejected unreadable url : String}
    {method : Method} {path : List Url.Segment} {isJson : Bool} {body : Bytes}
    (hpath : Url.requestPath remote.accepts url.toList = some (remote.mount ++ path))
    {α : Type} {p : Prog O RelayError α} {reply : α → RelayReply} {c : RelayCall}
    (hcall : requestCall X axum token
      ⟨method, path, remote.authToken.map ("Bearer " ++ ·), isJson, body⟩ = .ok c)
    (hp : store.call c = (do return reply (← p))) {format : Format α}
    (hreply : ∀ a, (reply a).bytes X = format.bytes X a) :
    (send remote failed rejected method url isJson body >>= fun response =>
      liftM (responseJson X format unreadable response)) = p.mapFail fun _ => rejected := by
  rw [send_eq hpath, hserver, served_eq, hcall, ← read_answering hX hreply p, Prog.bind_assoc,
    ← hp]

/-- A push that arrives, and that is not too long, is a push to the store. -/
theorem sendPush_eq (hX : ReadsBack X) {request : BundlePushRequest}
    (h : Reaches X remote store axum request.repoId)
    (hfits : (pushRequestFormat.bytes X request).length ≤ axum.bodyLimit) :
    sendPush X remote request =
      (store.pushBundle request).mapFail fun _ => "relay rejected bundle push" := by
  obtain ⟨url, path, hurl, hpath, hroute⟩ := h.arrives .push
  obtain ⟨token, hserver, htoken⟩ := h.served
  unfold sendPush
  rw [show relayUrl remote.baseUrl request.repoId "bundles/push" = .ok url from hurl]
  exact sent_eq hX hserver hpath (requestCall_push hX (admitted_of_token htoken _ _ _ _) hroute
    rfl rfl hfits) rfl fun _ => rfl

/-- One that is too long is refused before the store. -/
theorem sendPush_long {request : BundlePushRequest}
    (h : Reaches X remote store axum request.repoId)
    (hlong : axum.bodyLimit < (pushRequestFormat.bytes X request).length) :
    sendPush X remote request = .fail "relay rejected bundle push" := by
  obtain ⟨url, path, hurl, hpath, hroute⟩ := h.arrives .push
  obtain ⟨token, hserver, htoken⟩ := h.served
  let sent : HttpRequest := ⟨.post, path, remote.authToken.map ("Bearer " ++ ·), true,
    pushRequestFormat.bytes X request⟩
  have hcall : requestCall X axum token sent = .error (axum.rejection sent) := by
    rw [requestCall, if_pos (admitted_of_token htoken _ _ _ _), routedCall,
      show route sent.method sent.path = _ from hroute]
    show (do let bundle ← extractJson X axum pushRequestFormat sent; _) = _
    rw [extractJson, if_pos (by simpa [sent] using hlong)]
    rfl
  unfold sendPush
  rw [show relayUrl remote.baseUrl request.repoId "bundles/push" = .ok url from hurl]
  show (send remote _ _ .post url true _ >>= _) = _
  rw [send_eq hpath, hserver, served_eq,
    show requestCall X axum token ⟨_, _, _, _, _⟩ = _ from hcall]
  show ((liftM (errorForStatus "relay rejected bundle push" (axum.rejection sent)) :
    Prog O String HttpResponse) >>= _) = _
  rw [h.rejects]
  rfl

/-- A pull that arrives is a pull of the store. -/
theorem sendPull_eq (hX : ReadsBack X) {request : BundlePullRequest}
    (h : Reaches X remote store axum request.repoId)
    (hfits : (pullRequestFormat.bytes X request).length ≤ axum.bodyLimit) :
    sendPull X remote request =
      (store.pullBundle request).mapFail fun _ => "relay rejected bundle pull" := by
  obtain ⟨url, path, hurl, hpath, hroute⟩ := h.arrives .pull
  obtain ⟨token, hserver, htoken⟩ := h.served
  unfold sendPull
  rw [show relayUrl remote.baseUrl request.repoId "bundles/pull" = .ok url from hurl]
  exact sent_eq hX hserver hpath (requestCall_pull hX (admitted_of_token htoken _ _ _ _) hroute
    rfl rfl hfits) rfl fun _ => rfl

/-- A status that arrives is the status of the store. -/
theorem sendStatus_eq (hX : ReadsBack X) (h : Reaches X remote store axum repoId) :
    sendStatus X remote repoId =
      (store.repoStatus repoId).mapFail fun _ => "relay rejected status request" := by
  obtain ⟨url, path, hurl, hpath, hroute⟩ := h.arrives .status
  obtain ⟨token, hserver, htoken⟩ := h.served
  have hcall : requestCall X axum token
      ⟨.get, path, remote.authToken.map ("Bearer " ++ ·), false, []⟩ = .ok (.status repoId) := by
    rw [requestCall, if_pos (admitted_of_token htoken _ _ _ _), routedCall,
      show route .get path = _ from hroute]
    rfl
  unfold sendStatus
  rw [show relayUrl remote.baseUrl repoId "status" = .ok url from hurl]
  exact sent_eq hX hserver hpath hcall rfl fun _ => rfl

end Reaches

end RickydataGit.Relay
