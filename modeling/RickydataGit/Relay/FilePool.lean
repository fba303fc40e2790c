/-
  Pushes to one file store at the same time.

  A push looks for a file and writes it in separate accesses, so another push may come
  in between, and what is there is written over. `OneEnvelopeEach` is what it takes for
  this to do no harm: among the requests that are made, an object id of a repository
  stands for one text. Then `pushes_safe`: in every interleaving, with reads and writes
  that fail and calls that are killed, no object file changes once it is written, and
  a push that returns has the objects of its report stored, each to the byte.

  Records are written over, by the record of a push with the same key. `Filed` is the
  invariant: a record is that of a request made under this key, all of whose objects
  are stored.
-/
import RickydataGit.Lib.RelyGuarantee
import RickydataGit.Relay.AllOrNothing

namespace RickydataGit.Relay.FileRelayStore

open RickydataGit.Lib RickydataGit.Core

variable {X : Crates} {policy : Policy} {P : BundlePushRequest → Prop}

/-- Every object of the request is stored as it was sent. -/
def AllStored (X : Crates) (request : BundlePushRequest) (s : Files) : Prop :=
  ∀ object ∈ request.objects,
    storedBytes X request.repoId s object.objectId = some (canonicalObjectBytes X object)

/-- The requests have one text for an object id of a repository. -/
def OneEnvelopeEach (X : Crates) (P : BundlePushRequest → Prop) : Prop :=
  ∀ request request', P request → P request' → keyHash X request.repoId = keyHash X request'.repoId →
    ∀ object ∈ request.objects, ∀ object' ∈ request'.objects, object.objectId = object'.objectId →
      canonicalObjectBytes X object = canonicalObjectBytes X object'

/-- The record of a request, that names its objects. -/
structure RecordOf (X : Crates) (request : BundlePushRequest) (path : Path)
    (report : BundlePushReport) : Prop where
  path : path = idempotencyPath X request.repoId request.idempotencyKey
  ids : ∀ id, id ∈ report.objectIds ↔ ∃ object ∈ request.objects, object.objectId = id

/-- A file holds an object of a request at its path, or the record of a request that is
    stored. -/
inductive FiledAs (X : Crates) (P : BundlePushRequest → Prop) (s : Files) (path : Path)
    (bytes : Bytes) : Prop where
  | object (request : BundlePushRequest) (object : CanonicalObject) : P request →
      object ∈ request.objects → objectPath X request.repoId object.objectId = .ok path →
      bytes = canonicalObjectBytes X object → FiledAs X P s path bytes
  | record (request : BundlePushRequest) (report : BundlePushReport) : P request →
      RecordOf X request path report → bytes = recordBytes X report → AllStored X request s →
      FiledAs X P s path bytes

def Filed (X : Crates) (P : BundlePushRequest → Prop) (s : Files) : Prop :=
  ∀ path bytes, s[path]? = some bytes → FiledAs X P s path bytes

/-- No object file changes, and the invariant stays. -/
def Keeps (X : Crates) (P : BundlePushRequest → Prop) (s s' : Files) : Prop :=
  (∀ repoId objectId bytes, storedBytes X repoId s objectId = some bytes →
    storedBytes X repoId s' objectId = some bytes) ∧ (Filed X P s → Filed X P s')

section Keeps

variable {s s' s'' : Files} {request : BundlePushRequest} {path : Path} {bytes : Bytes}

theorem Keeps.refl (s : Files) : Keeps X P s s := ⟨fun _ _ _ h => h, id⟩

theorem Keeps.trans (h : Keeps X P s s') (h' : Keeps X P s' s'') : Keeps X P s s'' :=
  ⟨fun r id b hb => h'.1 r id b (h.1 r id b hb), fun hs => h'.2 (h.2 hs)⟩

theorem AllStored.keeps (h : AllStored X request s) (hs : Keeps X P s s') :
    AllStored X request s' :=
  fun object ho => hs.1 _ _ _ (h object ho)

theorem filed_empty : Filed X P ∅ := by
  intro path bytes h
  rw [Std.ExtTreeMap.getElem?_empty] at h
  cases h

/-- What is at the path of an object of a request is that object. -/
theorem Filed.eq_object (hs : Filed X P s) (hP : OneEnvelopeEach X P) (hr : P request)
    {object : CanonicalObject} (ho : object ∈ request.objects)
    (hpath : objectPath X request.repoId object.objectId = .ok path) (hb : s[path]? = some bytes) :
    bytes = canonicalObjectBytes X object := by
  obtain ⟨hex, hd, rfl⟩ := objectPath_ok hpath
  cases hs _ _ hb with
  | object request' object' hr' ho' hpath' hbytes =>
    obtain ⟨hex', hd', he⟩ := objectPath_ok hpath'
    obtain ⟨hrepo, rfl⟩ := objectFile_inj he
    exact hbytes.trans (hP _ _ hr' hr hrepo.symm _ ho' _ ho (objectDigits_inj hd' hd))
  | record request' report _ hrec _ _ =>
    exact absurd hrec.path (objectFile_ne_idempotencyPath _ _ _ _)

/-- An object of a request may be written at its path, whatever is there. -/
theorem keeps_object (hP : OneEnvelopeEach X P) (hr : P request) {object : CanonicalObject}
    (ho : object ∈ request.objects)
    (hpath : objectPath X request.repoId object.objectId = .ok path) (hs : Filed X P s) :
    Keeps X P s (s.insert path (canonicalObjectBytes X object)) := by
  have hstored : ∀ repoId objectId bytes, storedBytes X repoId s objectId = some bytes →
      storedBytes X repoId (s.insert path (canonicalObjectBytes X object)) objectId =
        some bytes := by
    intro repoId objectId bytes hb
    rcases hp : objectPath X repoId objectId with e | p
    · rw [storedBytes, hp] at hb
      cases hb
    · rw [storedBytes_eq hp] at hb ⊢
      rw [getElem?_insert_eq]
      split
      · next he => exact congrArg some (hs.eq_object hP hr ho hpath (he ▸ hb)).symm
      · exact hb
  refine ⟨hstored, fun _ p b hb => ?_⟩
  rw [getElem?_insert_eq] at hb
  split at hb
  · next he => exact .object request object hr ho (he ▸ hpath) (Option.some.inj hb).symm
  · cases hs p b hb with
    | object request' object' hr' ho' hpath' hbytes =>
      exact .object request' object' hr' ho' hpath' hbytes
    | record request' report hr' hrec hbytes hall =>
      exact .record request' report hr' hrec hbytes fun o ho => hstored _ _ _ (hall o ho)

/-- A record may be written once the objects are stored. -/
theorem keeps_record (hr : P request) {report : BundlePushReport}
    (hrec : RecordOf X request path report) (hall : AllStored X request s) :
    Keeps X P s (s.insert path (recordBytes X report)) := by
  have hstored : ∀ repoId objectId bytes, storedBytes X repoId s objectId = some bytes →
      storedBytes X repoId (s.insert path (recordBytes X report)) objectId = some bytes := by
    intro repoId objectId bytes hb
    rw [hrec.path, storedBytes_insert_record, hb]
  refine ⟨hstored, fun hs p b hb => ?_⟩
  rw [getElem?_insert_eq] at hb
  split at hb
  · next he =>
      exact .record request report hr (he ▸ hrec) (Option.some.inj hb).symm
        fun o ho => hstored _ _ _ (hall o ho)
  · cases hs p b hb with
    | object request' object' hr' ho' hpath' hbytes =>
      exact .object request' object' hr' ho' hpath' hbytes
    | record request' report' hr' hrec' hbytes hall' =>
      exact .record request' report' hr' hrec' hbytes fun o ho => hstored _ _ _ (hall' o ho)

end Keeps

/-! ## Accesses amid those of others -/

/-- The judgement for a call of the pool. -/
abbrev Safe {α : Type} (X : Crates) (P : BundlePushRequest → Prop) (p : FileProg α)
    (Q : Except RelayError α → Files → Prop) (t : List (Prog.Event fileOps)) (s : Files) : Prop :=
  p.Sound FileStep (Keeps X P) (Keeps X P) (fun _ => Q) t s

section Accesses

variable {t : List (Prog.Event fileOps)} {s : Files} {request : BundlePushRequest} {α : Type}

theorem safe_pathExists {path : Path} {f : Bool → FileProg α} {I : Files → Prop}
    {Q : Except RelayError α → Files → Prop} (hI : ∀ s s', Keeps X P s s' → I s → I s')
    (hf : ∀ t s, I s → Safe X P (f (s[path]?).isSome) Q t s) (hs : I s) :
    Safe X P (pathExists path >>= f) Q t s := by
  rintro s₁ h₁ a s₂ ⟨rfl, rfl⟩
  exact ⟨Keeps.refl _, hf _ _ (hI _ _ h₁ hs)⟩

/-- What is read is what some state held, and `S` says what follows from that. -/
theorem safe_fsRead {path : Path} {I : Files → Prop} {S : Bytes → Files → Prop}
    (hI : ∀ s s', Keeps X P s s' → I s → I s')
    (hS : ∀ s bytes, I s → s[path]? = some bytes → S bytes s) (hs : I s) :
    Safe X P (fsRead path) (fun r s => I s ∧ ∀ bytes, r = .ok bytes → S bytes s) t s := by
  rintro s₁ h₁ a s₂ ⟨hread, rfl⟩
  have hs₂ := hI _ _ h₁ hs
  refine ⟨Keeps.refl _, ?_⟩
  rcases a with m | bytes
  · exact ⟨hs₂, nofun⟩
  · refine ⟨hs₂, ?_⟩
    rintro _ ⟨⟩
    exact hS _ _ hs₂ (hread bytes rfl)

/-- A write that may be made is made, or fails and leaves the files as they were. -/
theorem safe_writeBytes {path : Path} {bytes : Bytes} {I : Files → Prop}
    (hI : ∀ s s', Keeps X P s s' → I s → I s')
    (hput : ∀ s, I s → Keeps X P s (s.insert path bytes)) (hs : I s) :
    Safe X P (writeBytes path bytes)
      (fun r s => I s ∧ (r = .ok () → s[path]? = some bytes)) t s := by
  intro s₁ h₁ a s₂ h₂
  have hs₁ := hI _ _ h₁ hs
  have hwritten : (s₁.insert path bytes)[path]? = some bytes := by
    rw [getElem?_insert_eq, if_pos rfl]
  rcases h₂ with rfl | ⟨⟨m, rfl⟩, rfl⟩
  · have hkeep := hput _ hs₁
    refine ⟨hkeep, ?_⟩
    rcases a with m | u
    · exact ⟨hI _ _ hkeep hs₁, nofun⟩
    · exact ⟨hI _ _ hkeep hs₁, fun _ => hwritten⟩
  · exact ⟨Keeps.refl _, hs₁, nofun⟩

end Accesses

/-! ## The parts of a push -/

section Push

variable {t : List (Prog.Event fileOps)} {s : Files} {request : BundlePushRequest}

/-- What a push may answer: a report that names the objects of a request, made under its
    key, all of which are stored. -/
def Answered (X : Crates) (P : BundlePushRequest → Prop) (request : BundlePushRequest)
    (report : BundlePushReport) (s : Files) : Prop :=
  ∃ request', P request' ∧
    RecordOf X request' (idempotencyPath X request.repoId request.idempotencyKey) report ∧
    AllStored X request' s

theorem filed_keeps (s s' : Files) (h : Keeps X P s s') (hs : Filed X P s) : Filed X P s' := h.2 hs

theorem safe_readReport (hX : ReadsBack X) (hs : Filed X P s) :
    Safe X P (readReport X (idempotencyPath X request.repoId request.idempotencyKey))
      (fun r s => Filed X P s ∧ ∀ report, r = .ok report → Answered X P request report s) t s := by
  let S : Bytes → Files → Prop := fun bytes s => ∃ report, bytes = recordBytes X report ∧
    Answered X P request report s
  refine Prog.Sound.bind (safe_fsRead (S := S) filed_keeps ?_ hs) ?_
    (fun t e s ⟨hs, _⟩ => ⟨hs, nofun⟩)
  · intro s bytes hs hb
    cases hs _ _ hb with
    | object request' object _ _ hpath _ =>
      obtain ⟨hex, -, he⟩ := objectPath_ok hpath
      exact absurd he.symm (objectFile_ne_idempotencyPath _ _ _ _)
    | record request' report hr hrec hbytes hall =>
      exact ⟨report, hbytes, request', hr, hrec, hall⟩
  · rintro t bytes s ⟨hs, hread⟩
    obtain ⟨report, rfl, hanswer⟩ := hread bytes rfl
    refine Prog.sound_ofExcept ⟨hs, fun report' hr => ?_⟩
    rw [reportFromSlice_recordBytes hX] at hr
    rw [← Except.ok.inj hr]
    exact hanswer

theorem safe_checkObjects {repoId : String} {objects : List CanonicalObject}
    (hs : Filed X P s) :
    Safe X P (checkObjects X repoId objects) (fun _ s => Filed X P s) t s := by
  induction objects generalizing t s with
  | nil => exact hs
  | cons object rest ih =>
    unfold checkObjects
    refine Prog.Sound.bind (Q := fun _ _ s => Filed X P s) (Prog.sound_ofExcept hs) ?_
      (fun t e s hs => hs)
    intro t path s hs
    refine safe_pathExists filed_keeps (fun t s hs => ?_) hs
    split
    · refine Prog.Sound.bind (safe_fsRead (S := fun _ _ => True) filed_keeps
        (fun _ _ _ _ => trivial) hs) ?_ (fun t e s h => h.1)
      rintro t existing s ⟨hs, -⟩
      split
      · exact hs
      · exact ih hs
    · exact ih hs

/-- The second loop ends with its objects stored. -/
theorem safe_writeObjects (hP : OneEnvelopeEach X P) (hr : P request)
    {objects : List CanonicalObject} (hsub : objects ⊆ request.objects)
    (accepted duplicate : UInt64) (hs : Filed X P s) :
    Safe X P (writeObjects X request.repoId accepted duplicate objects)
      (fun r s => Filed X P s ∧ ∀ counts, r = .ok counts → ∀ object ∈ objects,
        storedBytes X request.repoId s object.objectId = some (canonicalObjectBytes X object))
      t s := by
  induction objects generalizing t s accepted duplicate with
  | nil => exact ⟨hs, fun _ _ => by simp⟩
  | cons object rest ih =>
    obtain ⟨ho, hrest⟩ := List.cons_subset.mp hsub
    unfold writeObjects
    rcases hpath : objectPath X request.repoId object.objectId with e | path
    · exact ⟨hs, fun _ he => by cases he⟩
    let Here : Files → Prop := fun s => storedBytes X request.repoId s object.objectId =
      some (canonicalObjectBytes X object)
    -- once the first object is stored, it stays so during the rest of the loop
    have hkept : ∀ s s', Keeps X P s s' → Here s → Here s' := fun s s' h hb => h.1 _ _ _ hb
    have hstep : ∀ t s accepted duplicate, Filed X P s → Here s →
        Safe X P (writeObjects X request.repoId accepted duplicate rest)
          (fun r s => Filed X P s ∧ ∀ counts, r = .ok counts → ∀ o ∈ object :: rest,
            storedBytes X request.repoId s o.objectId = some (canonicalObjectBytes X o)) t s := by
      intro t s accepted duplicate hs hb
      refine ((ih hrest accepted duplicate hs).frame hkept hkept hb).mono ?_
      rintro t r s ⟨⟨hs, hall⟩, hb⟩
      exact ⟨hs, fun counts hc => List.forall_mem_cons.mpr ⟨hb, hall counts hc⟩⟩
    refine safe_pathExists filed_keeps (fun t s hs => ?_) hs
    rcases hb : s[path]? with _ | bytes
    · refine Prog.Sound.bind (safe_writeBytes filed_keeps
        (fun s hs => keeps_object hP hr ho hpath hs) hs) ?_
        (fun t e s h => ⟨h.1, fun _ he => by cases he⟩)
      rintro t u s ⟨hs, hwritten⟩
      exact hstep _ _ _ _ hs ((storedBytes_eq hpath).trans (hwritten rfl))
    · refine hstep _ _ _ _ hs ((storedBytes_eq hpath).trans ?_)
      rw [hb, hs.eq_object hP hr ho hpath hb]

/-- What holds of a push from when it has ended. -/
def PushDone (X : Crates) (P : BundlePushRequest → Prop) (request : BundlePushRequest)
    (r : Except RelayError BundlePushReport) (s : Files) : Prop :=
  Filed X P s ∧ ∀ report, r = .ok report → Answered X P request report s

theorem safe_pushBundle (hX : ReadsBack X) (hP : OneEnvelopeEach X P) (hr : P request)
    (hs : Filed X P s) :
    Safe X P (pushBundle X policy request) (PushDone X P request) t s := by
  unfold pushBundle
  rcases hv : bundleValidationReport X policy request with e | validation
  · exact ⟨hs, nofun⟩
  have hids := (bundleValidationReport_ok hv).2
  show Safe X P (pushValidated X request validation) _ t s
  refine safe_pathExists filed_keeps (fun t s hs => ?_) hs
  split
  · exact safe_readReport hX hs
  refine Prog.Sound.bind (safe_checkObjects hs) ?_ (fun t e s hs => ⟨hs, nofun⟩)
  rintro t u s hs
  refine Prog.Sound.bind (safe_writeObjects hP hr (List.Subset.refl _) 0 0 hs) ?_
    (fun t e s ⟨hs, _⟩ => ⟨hs, nofun⟩)
  rintro t ⟨accepted, duplicate⟩ s ⟨hs, hall⟩
  have hrec : RecordOf X request (idempotencyPath X request.repoId request.idempotencyKey)
      (pushReport request accepted duplicate validation.objectIds validation.bundleHash) :=
    ⟨rfl, hids⟩
  let I : Files → Prop := fun s => Filed X P s ∧ AllStored X request s
  have hI : ∀ s s', Keeps X P s s' → I s → I s' := fun s s' h hi => ⟨h.2 hi.1, hi.2.keeps h⟩
  refine Prog.Sound.bind (safe_writeBytes hI (fun s hi => keeps_record hr hrec hi.2)
    ⟨hs, hall _ rfl⟩) ?_ (fun t e s ⟨hi, _⟩ => ⟨hi.1, nofun⟩)
  rintro t u s ⟨⟨hs, hall⟩, -⟩
  refine ⟨hs, fun report he => ?_⟩
  rw [← Except.ok.inj he]
  exact ⟨request, hr, hrec, hall⟩

end Push

/-! ## Any of the pushes, in any order -/

/-- The requests that may be made keep to `Keeps`. -/
theorem keeping_push (hX : ReadsBack X) (policy : Policy) (hP : OneEnvelopeEach X P) :
    Pool.Keeping FileStep (fun request : Subtype P => pushBundle X policy request.1)
      (Filed X P) (Keeps X P) (fun request => PushDone X P request.1) where
  refl := Keeps.refl
  trans _ _ _ := Keeps.trans
  inv _ _ hs h := h.2 hs
  stable _ r s s' h hq := by
    refine ⟨h.2 hq.1, fun report hr => ?_⟩
    obtain ⟨request', hr', hrec, hall⟩ := hq.2 report hr
    exact ⟨request', hr', hrec, hall.keeps h⟩
  started request _ hs := safe_pushBundle hX hP request.2 hs

/-- The pool of the pushes made to a store. -/
abbrev Pushes (P : BundlePushRequest → Prop) :=
  Pool Files fileOps RelayError BundlePushReport (Subtype P)

/-- Pushes do each other no harm. -/
structure PushesSafe (X : Crates) (policy : Policy) (P : BundlePushRequest → Prop)
    (c : Pushes P) : Prop where
  /-- The objects of a report are stored, those of a request made under this key. -/
  answered : ∀ call ∈ c.calls, ∀ report, call.Returned report →
    Answered X P call.request.1 report c.store
  /-- The file of an object never changes. -/
  write_once : ∀ c' : Pushes P,
    Pool.Reach FileStep (fun request : Subtype P => pushBundle X policy request.1)
      (fun _ _ => True) c c' →
    ∀ repoId objectId bytes, storedBytes X repoId c.store objectId = some bytes →
      storedBytes X repoId c'.store objectId = some bytes
  /-- What is stored under an id is the object that the requests have under it. -/
  as_sent : ∀ request, P request → ∀ object ∈ request.objects, ∀ bytes,
    storedBytes X request.repoId c.store object.objectId = some bytes →
      bytes = canonicalObjectBytes X object

/-- In every run of pushes that agree on their objects, killed or not, with reads and
    writes that fail, no object is lost or changed. -/
theorem pushes_safe (hX : ReadsBack X) (policy : Policy) (hP : OneEnvelopeEach X P)
    (c : Pushes P)
    (h : Pool.Reach FileStep (fun request : Subtype P => pushBundle X policy request.1)
      (fun _ _ => True) (Pool.idle ∅) c) : PushesSafe X policy P c := by
  obtain ⟨hfiled, -, hdone⟩ := Pool.reach_keeping (keeping_push hX policy hP) filed_empty h
  refine ⟨fun call hcall report hr => (hdone call hcall report hr).2 report rfl, ?_, ?_⟩
  · intro c' hlater
    exact (Pool.reach_keeping_later (keeping_push hX policy hP) filed_empty h hlater).1
  · intro request hr object ho bytes hb
    rcases hp : objectPath X request.repoId object.objectId with e | path
    · rw [storedBytes, hp] at hb
      cases hb
    · exact hfiled.eq_object hP hr ho hp ((storedBytes_eq hp).symm.trans hb)

/-- Any number of pushes of one request, the first of which has returned. -/
theorem nullPush_safe : OneEnvelopeEach .reference (· = nullPush) ∧
    ∃ c : Pushes (· = nullPush), (∃ call ∈ c.calls, ∃ report, call.Returned report) ∧
      PushesSafe .reference ⟨false, []⟩ (· = nullPush) c := by
  have hone : OneEnvelopeEach .reference (· = nullPush) := by
    rintro _ _ rfl rfl - object ho object' ho' -
    rw [List.mem_singleton.mp ho, List.mem_singleton.mp ho']
  obtain ⟨t, hreach⟩ := Pool.reach_alone fileStep_exec
    (fun request : Subtype (· = nullPush) => pushBundle .reference ⟨false, []⟩ request.1)
    ⟨nullPush, rfl⟩ ∅
  have hvalid : ∃ validation,
      bundleValidationReport .reference ⟨false, []⟩ nullPush = .ok validation :=
    bundleValidationReport_of_accepted (by simp [nullPush, accepted_unsigned])
  obtain ⟨validation, hv⟩ := hvalid
  have hfree : ∀ object ∈ nullPush.objects, Unopposed .reference nullPush.repoId ∅ object := by
    intro object ho
    rw [List.mem_singleton.mp ho]
    exact unopposed_empty (@accepted_unsigned .reference "r" _ _ _ _).valid _
  obtain ⟨report, s₁, -, -, hrun⟩ := run_push_stored hv Std.ExtTreeMap.getElem?_empty hfree
  refine ⟨hone, _, ?_, pushes_safe readsBack_reference _ hone _ hreach⟩
  rw [hrun]
  exact ⟨_, List.mem_singleton_self _, report, rfl⟩

end RickydataGit.Relay.FileRelayStore
