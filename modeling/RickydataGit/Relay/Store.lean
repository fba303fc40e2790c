/-
  What a relay store offers, and how it is used.

  A `RelayStore` is the trait the HTTP handlers call. A `RelayCall` is one request
  to it with its reply as a value. `Pushed` are the stores that a finite sequence of
  pushes leads to, with whatever faults `step` allows on the way; `answer` is what
  one call does on a store without faults.
-/
import RickydataGit.Lib.Prog
import RickydataGit.Relay.Bundle

namespace RickydataGit.Relay

open RickydataGit.Lib RickydataGit.Core

/-- `trait RelayStore`. -/
structure RelayStore (O : Ops) where
  validateBundle : BundlePushRequest → Prog O RelayError BundleValidationReport
  pushBundle : BundlePushRequest → Prog O RelayError BundlePushReport
  pullBundle : BundlePullRequest → Prog O RelayError BundlePullReport
  readObject : String → String → Prog O RelayError CanonicalObject
  listObjectIds : String → Prog O RelayError (List String)
  repoStatus : String → Prog O RelayError RepoRelayStatusReport

/-- The report of `repo_status` on the ids or names it counts. -/
def repoStatusReport (X : Crates) (repoId : String) (ids : List String) :
    RepoRelayStatusReport where
  status := "ok"
  repoId := repoId
  objectCount := .ofNat ids.length
  objectIdsHash := bundleHash X ids

/-- The objects of a bundle to pull: those listed and not known, up to the limit. -/
def selected (limit : Option UInt64) (missing : List String) : List String :=
  missing.take (limit.elim missing.length UInt64.toNat)

def pullReport (request : BundlePullRequest) (missing : List String)
    (objects : List CanonicalObject) : BundlePullReport where
  status := "ok"
  repoId := request.repoId
  objectCount := .ofNat objects.length
  remainingObjectCount := .ofNat (missing.length - request.limit.elim missing.length UInt64.toNat)
  objects := objects

/-- The report of a push that stored its objects. -/
def pushReport (request : BundlePushRequest) (accepted duplicate : UInt64)
    (objectIds : List String) (bundleHash : String) : BundlePushReport where
  status := "ok"
  repoId := request.repoId
  idempotencyKey := request.idempotencyKey
  acceptedObjectCount := accepted
  duplicateObjectCount := duplicate
  objectIds := objectIds
  bundleHash := bundleHash

/-- `sort`, of ids or of names. -/
def sorted (names : List String) : List String := names.mergeSort fun a b => decide (a ≤ b)

/-! ## Calls -/

inductive RelayCall where
  | validate (request : BundlePushRequest)
  | push (request : BundlePushRequest)
  | pull (request : BundlePullRequest)
  | read (repoId objectId : String)
  | list (repoId : String)
  | status (repoId : String)

/-- The repository a call is addressed to. -/
def RelayCall.repoId : RelayCall → String
  | .validate request => request.repoId
  | .push request => request.repoId
  | .pull request => request.repoId
  | .read repoId _ => repoId
  | .list repoId => repoId
  | .status repoId => repoId

/-- The call is a push to the repository. -/
def RelayCall.IsPushTo (repoId : String) : RelayCall → Prop
  | .push request => request.repoId = repoId
  | _ => False

instance (repoId : String) : DecidablePred (RelayCall.IsPushTo repoId) := fun c =>
  match c with
  | .push request => inferInstanceAs (Decidable (request.repoId = repoId))
  | .validate _ | .pull _ | .read _ _ | .list _ | .status _ => inferInstanceAs (Decidable False)

inductive RelayReply where
  | validated (report : BundleValidationReport)
  | pushed (report : BundlePushReport)
  | pulled (report : BundlePullReport)
  | object (object : CanonicalObject)
  | ids (objectIds : List String)
  | status (report : RepoRelayStatusReport)

namespace RelayStore

variable {O : Ops} {σ : Type} (store : RelayStore O)

def call : RelayCall → Prog O RelayError RelayReply
  | .validate request => do return .validated (← store.validateBundle request)
  | .push request => do return .pushed (← store.pushBundle request)
  | .pull request => do return .pulled (← store.pullBundle request)
  | .read repoId objectId => do return .object (← store.readObject repoId objectId)
  | .list repoId => do return .ids (← store.listObjectIds repoId)
  | .status repoId => do return .status (← store.repoStatus repoId)

/-- What a call is answered, and the store it leaves. -/
def answer (exec : (o : O.Op) → σ → O.Ans o × σ) (c : RelayCall) (s : σ) :
    Except RelayError RelayReply × σ :=
  (store.call c).run exec s

/-- The store after these pushes, one after another, whatever became of each. -/
inductive Pushed (step : σ → (o : O.Op) → O.Ans o → σ → Prop) (empty : σ) :
    List BundlePushRequest → σ → Prop where
  | none : Pushed step empty [] empty
  | push {requests : List BundlePushRequest} {s s' : σ} (request : BundlePushRequest)
      (result : Except RelayError BundlePushReport) : Pushed step empty requests s →
      (store.pushBundle request).Runs step s result s' →
      Pushed step empty (requests ++ [request]) s'

/-- The store after these pushes, each of which met a condition when it was made. -/
inductive PushedIf (step : σ → (o : O.Op) → O.Ans o → σ → Prop)
    (cond : σ → BundlePushRequest → Prop) (empty : σ) : List BundlePushRequest → σ → Prop where
  | none : PushedIf step cond empty [] empty
  | push {requests : List BundlePushRequest} {s s' : σ} (request : BundlePushRequest)
      (result : Except RelayError BundlePushReport) : PushedIf step cond empty requests s →
      cond s request → (store.pushBundle request).Runs step s result s' →
      PushedIf step cond empty (requests ++ [request]) s'

/-- A push without faults is one way a push can go. -/
theorem Pushed.run {store : RelayStore O} {step : σ → (o : O.Op) → O.Ans o → σ → Prop}
    {exec : (o : O.Op) → σ → O.Ans o × σ} (hexec : ∀ s o, step s o (exec o s).1 (exec o s).2)
    {empty s : σ} {requests : List BundlePushRequest} (h : store.Pushed step empty requests s)
    (request : BundlePushRequest) :
    store.Pushed step empty (requests ++ [request]) ((store.pushBundle request).run exec s).2 :=
  .push request _ h (Prog.runs_run hexec _ _)

end RelayStore

end RickydataGit.Relay
