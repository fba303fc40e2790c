/-
  The index is invisible to clients.

  `Transparent`: whatever the operations of the inner store do, faults included, and
  however the sink answers, every call to the indexed store has the reply of the inner
  store and leaves it as the inner call does. The sink has a state of its own, so it may
  fail in any pattern. A push that the inner store takes can be indexed: both stores
  validate the objects first, and the index asks for less (`Validating`).
-/
import RickydataGit.Relay.Indexed

namespace RickydataGit.Relay

open RickydataGit.Lib RickydataGit.Core

/-- No call shows that the store is indexed. -/
structure Transparent {O : Ops} (X : Crates) (inner : RelayStore O) : Prop where
  answers : ∀ {σ τ : Type} (exec : (o : O.Op) → σ → O.Ans o × σ)
    (sink : (batch : sinkOps.Op) → τ → sinkOps.Ans batch × τ) (c : RelayCall) (s : σ) (t : τ),
    ∃ t', (indexedRelayStore X inner).answer (Prog.execPlus exec sink) c (s, t) =
      ((inner.answer exec c s).1, (inner.answer exec c s).2, t')
  indexed : ∀ {σ : Type} (exec : (o : O.Op) → σ → O.Ans o × σ) (request : BundlePushRequest) (s : σ)
    (report : BundlePushReport), ((inner.pushBundle request).run exec s).1 = .ok report →
    ∃ batch, kfdbIndexBatch X request.repoId report.bundleHash request.objects = .ok batch

/-- A push that the store takes has valid objects only. -/
def Validating {O : Ops} (X : Crates) (inner : RelayStore O) : Prop :=
  ∀ {σ : Type} (exec : (o : O.Op) → σ → O.Ans o × σ) (request : BundlePushRequest) (s : σ)
    (report : BundlePushReport), ((inner.pushBundle request).run exec s).1 = .ok report →
    ∀ object ∈ request.objects, object.Valid X

section Lifted

variable {O P : Ops} {ε α β σ τ : Type} (exec : (o : O.Op) → σ → O.Ans o × σ)
  (exec' : (p : P.Op) → τ → P.Ans p × τ)

/-- A reply made of what a program of the first family gives. -/
theorem run_liftLeft_map (p : Prog O ε α) (f : α → β) (s : σ) (t : τ) :
    (p.liftLeft P >>= fun a => (.ret (f a) : Prog (O.plus P) ε β)).run
        (Prog.execPlus exec exec') (s, t) =
      (((p >>= fun a => (.ret (f a) : Prog O ε β)).run exec s).1,
        ((p >>= fun a => (.ret (f a) : Prog O ε β)).run exec s).2, t) := by
  rw [Prog.run_bind, Prog.run_bind, Prog.run_liftLeft]
  rcases p.run exec s with ⟨e | a, s'⟩
  · rfl
  · rfl

end Lifted

namespace IndexedRelayStore

section Sinks

variable {O : Ops} {σ τ : Type} {X : Crates} {inner : RelayStore O}
  (exec : (o : O.Op) → σ → O.Ans o × σ) (sink : (batch : sinkOps.Op) → τ → sinkOps.Ans batch × τ)

/-- Delivery ends well and leaves the inner store alone. -/
theorem run_deliver_sink (skipEmbedding : Bool) (pieces : List (List KfdbOperation)) (s : σ)
    (t : τ) : ∃ t', (deliver skipEmbedding pieces).run (Prog.execPlus exec sink) (s, t) =
      (.ok (), s, t') := by
  induction pieces generalizing t with
  | nil => exact ⟨t, rfl⟩
  | cons operations rest ih =>
    rcases hsink : sink ⟨operations, skipEmbedding⟩ t with ⟨m | u, t₁⟩
    · have hexec : Prog.execPlus exec sink (.inr ⟨operations, skipEmbedding⟩) (s, t) =
          (.error m, s, t₁) := by
        rw [Prog.execPlus, hsink]
      refine ⟨t₁, ?_⟩
      unfold deliver
      rw [Prog.run, hexec]
      rfl
    · have hexec : Prog.execPlus exec sink (.inr ⟨operations, skipEmbedding⟩) (s, t) =
          (.ok u, s, t₁) := by
        rw [Prog.execPlus, hsink]
      obtain ⟨t', hrest⟩ := ih t₁
      refine ⟨t', ?_⟩
      unfold deliver
      rw [Prog.run, hexec]
      exact hrest

/-- A push is answered as by the inner store. -/
theorem run_push_sink (hinner : Validating X inner) (request : BundlePushRequest) (s : σ) (t : τ) :
    ∃ t', (pushBundle X inner request).run (Prog.execPlus exec sink) (s, t) =
      (((inner.pushBundle request).run exec s).1, ((inner.pushBundle request).run exec s).2, t') := by
  have hlift := Prog.run_liftLeft exec sink (inner.pushBundle request) (s, t)
  have hvalid := hinner exec request s
  unfold pushBundle
  rcases hrun : (inner.pushBundle request).run exec s with ⟨e | report, s'⟩
  · rw [hrun] at hlift
    exact ⟨t, Prog.run_bind_error _ hlift _⟩
  · rw [hrun] at hlift hvalid
    have hbatch : kfdbIndexBatch X request.repoId report.bundleHash request.objects = .ok _ :=
      kfdbIndexBatch_ok_iff.mpr ⟨hvalid report rfl, rfl⟩
    rw [Prog.run_bind_ok _ hlift, hbatch, Prog.liftM_ok, Prog.ret_bind]
    obtain ⟨t', hdeliver⟩ := run_deliver_sink exec sink true (chunks kfdbIndexBatchOperationLimit
      (bundleOperations request.repoId report.bundleHash request.objects.length ++
        request.objects.flatMap (objectOperations X request.repoId report.bundleHash))) s' t
    exact ⟨t', Prog.run_bind_ok _ hdeliver _⟩

end Sinks

end IndexedRelayStore

/-- Over a store that validates its pushes, the index is invisible. -/
theorem transparent_of_validating {O : Ops} {X : Crates} {inner : RelayStore O}
    (hinner : Validating X inner) : Transparent X inner where
  answers {σ τ} exec sink c s t := by
    unfold RelayStore.answer
    cases c with
    | validate request => exact ⟨t, run_liftLeft_map exec sink _ _ s t⟩
    | pull request => exact ⟨t, run_liftLeft_map exec sink _ _ s t⟩
    | read repoId objectId => exact ⟨t, run_liftLeft_map exec sink _ _ s t⟩
    | list repoId => exact ⟨t, run_liftLeft_map exec sink _ _ s t⟩
    | status repoId => exact ⟨t, run_liftLeft_map exec sink _ _ s t⟩
    | push request =>
      obtain ⟨t', hpush⟩ := IndexedRelayStore.run_push_sink exec sink hinner request s t
      refine ⟨t', ?_⟩
      show ((IndexedRelayStore.pushBundle X inner request >>= fun report =>
          (.ret (.pushed report) : Prog (O.plus sinkOps) RelayError RelayReply)).run
            (Prog.execPlus exec sink) (s, t)) =
        (((inner.pushBundle request >>= fun report =>
            (.ret (.pushed report) : Prog O RelayError RelayReply)).run exec s).1,
          ((inner.pushBundle request >>= fun report =>
            (.ret (.pushed report) : Prog O RelayError RelayReply)).run exec s).2, t')
      rw [Prog.run_bind, Prog.run_bind, hpush]
      rcases (inner.pushBundle request).run exec s with ⟨e | report, s'⟩
      · rfl
      · rfl
  indexed exec request s report hrun :=
    ⟨_, kfdbIndexBatch_ok_iff.mpr ⟨hinner exec request s report hrun, rfl⟩⟩

/-! ## The two stores -/

section Stores

variable {O : Ops} {X : Crates} {policy : Policy} {request : BundlePushRequest} {σ α : Type}

/-- Behind the validation of a bundle there are valid objects only. -/
theorem valid_of_run_validated {f : BundleValidationReport → Prog O RelayError α} {a : α}
    (exec : (o : O.Op) → σ → O.Ans o × σ) (s : σ)
    (h : ((liftM (bundleValidationReport X policy request) >>= f).run exec s).1 = .ok a) :
    ∀ object ∈ request.objects, object.Valid X := by
  rcases hv : bundleValidationReport X policy request with e | validation
  · rw [hv] at h
    cases h
  · exact fun object ho => ((bundleValidationReport_ok hv).1 object ho).valid

theorem validating_fileRelayStore (X : Crates) (policy : Policy) :
    Validating X (fileRelayStore X policy) :=
  fun exec _ s _ h => valid_of_run_validated exec s h

theorem validating_gcsRelayStore (X : Crates) (policy : Policy) :
    Validating X (gcsRelayStore X policy) :=
  fun exec _ s _ h => valid_of_run_validated exec s h

end Stores

/-- Over either store the index is transparent to clients. -/
theorem indexed_transparent (X : Crates) (policy : Policy) :
    Transparent X (fileRelayStore X policy) ∧ Transparent X (gcsRelayStore X policy) :=
  ⟨transparent_of_validating (validating_fileRelayStore X policy),
    transparent_of_validating (validating_gcsRelayStore X policy)⟩

end RickydataGit.Relay
