/-
  A push to the file store with a new key: all of its bundle, to the byte, or none of
  it.

  `AllOrNothing` is what a client may expect of one push, whatever reads and writes
  fail on the way. The scan for conflicts looks at what is stored and not at the rest
  of the bundle, while the second loop skips what the first objects of the same bundle
  have just stored. So the push keeps its promise exactly if the bundle has one
  envelope for each id (`push_all_or_nothing_iff`), unless it is not admitted at all.
-/
import Mathlib.Data.Finset.Card
import RickydataGit.Relay.FilePush

namespace RickydataGit.Relay.FileRelayStore

open RickydataGit.Lib RickydataGit.Core

/-! ## The promise -/

section Promise

variable (X : Crates)

/-- The file under the id. -/
def storedBytes (repoId : String) (s : Files) (objectId : String) : Option Bytes :=
  match objectPath X repoId objectId with
  | .ok path => s[path]?
  | .error _ => none

/-- The ids of the objects that have no file. -/
def absentIds (repoId : String) (s : Files) (objects : List CanonicalObject) : Finset String :=
  (objects.map CanonicalObject.objectId).toFinset.filter fun objectId =>
    storedBytes X repoId s objectId = none

variable (request : BundlePushRequest) (s : Files)

/-- The objects are there as they were sent, nothing else changed but the record, and
    the counts are right. -/
structure Stores (report : BundlePushReport) (s' : Files) : Prop where
  bytes : ∀ object ∈ request.objects,
    storedBytes X request.repoId s' object.objectId = some (canonicalObjectBytes X object)
  frame : ∀ path, path ≠ idempotencyPath X request.repoId request.idempotencyKey →
    (∀ object ∈ request.objects, objectPath X request.repoId object.objectId ≠ .ok path) →
    s'[path]? = s[path]?
  accepted : report.acceptedObjectCount =
    .ofNat (absentIds X request.repoId s request.objects).card
  counted : report.acceptedObjectCount + report.duplicateObjectCount =
    .ofNat request.objects.length

/-- A push that is answered has stored the bundle; one that is turned down, other than
    by a failing file, has changed nothing. -/
structure AllOrNothing (r : Except RelayError BundlePushReport) (s' : Files) : Prop where
  refused : ∀ e, r = .error e → (∀ message, e ≠ .io message) → s' = s
  stored : ∀ report, r = .ok report → Stores X request s report s'

/-- The request passes validation, and no object differs from the file it has. -/
def Admitted (policy : Policy) : Prop :=
  (∀ object ∈ request.objects, Accepted X policy request.repoId object) ∧
    ∀ object ∈ request.objects, Unopposed X request.repoId s object

/-- Objects of the bundle with one id have the same bytes. -/
def OneEnvelope : Prop :=
  ∀ object ∈ request.objects, ∀ object' ∈ request.objects, object.objectId = object'.objectId →
    canonicalObjectBytes X object = canonicalObjectBytes X object'

end Promise

/-! ## What is under an id -/

section Stored

variable {X : Crates} {repoId : String} {s : Files}

theorem storedBytes_eq {objectId : String} {path : Path}
    (h : objectPath X repoId objectId = .ok path) : storedBytes X repoId s objectId = s[path]? := by
  rw [storedBytes, h]

/-- In one repository the path gives the id. -/
theorem objectPath_inj {objectId objectId' : String} {path : Path}
    (h : objectPath X repoId objectId = .ok path) (h' : objectPath X repoId objectId' = .ok path) :
    objectId = objectId' := by
  obtain ⟨hex, hd, rfl⟩ := objectPath_ok h
  obtain ⟨hex', hd', he⟩ := objectPath_ok h'
  rw [← (objectFile_inj he).2] at hd'
  exact objectDigits_inj hd hd'

theorem storedBytes_insert {objectId : String} {path : Path}
    (h : objectPath X repoId objectId = .ok path) (bytes : Bytes) (id : String) :
    storedBytes X repoId (s.insert path bytes) id =
      if id = objectId then some bytes else storedBytes X repoId s id := by
  by_cases he : id = objectId
  · rw [if_pos he, he, storedBytes_eq h, getElem?_insert_eq, if_pos rfl]
  · rw [if_neg he]
    unfold storedBytes
    rcases hp : objectPath X repoId id with e | p
    · rfl
    · have hne : path ≠ p := fun heq => he (objectPath_inj (heq ▸ hp) h)
      dsimp only
      rw [getElem?_insert_eq, if_neg hne]

/-- A record is under no id. -/
theorem storedBytes_insert_record (r key : String) (bytes : Bytes) (objectId : String) :
    storedBytes X repoId (s.insert (idempotencyPath X r key) bytes) objectId =
      storedBytes X repoId s objectId := by
  unfold storedBytes
  rcases hp : objectPath X repoId objectId with e | path
  · rfl
  · obtain ⟨hex, -, rfl⟩ := objectPath_ok hp
    dsimp only
    rw [getElem?_insert_eq, if_neg (objectFile_ne_idempotencyPath _ _ _ _).symm]

variable {object : CanonicalObject} {rest : List CanonicalObject}

/-- An object that is there leaves the absent ids as they are. -/
theorem absentIds_cons_present (h : storedBytes X repoId s object.objectId ≠ none) :
    absentIds X repoId s (object :: rest) = absentIds X repoId s rest := by
  unfold absentIds
  rw [List.map_cons, List.toFinset_cons, Finset.filter_insert, if_neg h]

/-- One that is not is absent once, and not any more when it is written. -/
theorem card_absentIds_cons {path : Path} (hp : objectPath X repoId object.objectId = .ok path)
    (h : storedBytes X repoId s object.objectId = none) (bytes : Bytes) :
    (absentIds X repoId s (object :: rest)).card =
      (absentIds X repoId (s.insert path bytes) rest).card + 1 := by
  have hnot : object.objectId ∉ absentIds X repoId (s.insert path bytes) rest := by
    intro hmem
    have hnone := (Finset.mem_filter.mp hmem).2
    rw [storedBytes_insert hp, if_pos rfl] at hnone
    cases hnone
  have heq : absentIds X repoId s (object :: rest) =
      insert object.objectId (absentIds X repoId (s.insert path bytes) rest) := by
    ext id
    simp only [absentIds, Finset.mem_filter, Finset.mem_insert, List.mem_toFinset, List.map_cons,
      List.mem_cons, storedBytes_insert hp]
    by_cases he : id = object.objectId
    · simp [he, h]
    · simp [he]
  rw [heq, Finset.card_insert_of_notMem hnot]

end Stored

/-! ## The second loop -/

section Loop

variable {X : Crates} {repoId : String} {s s' : Files} {objects : List CanonicalObject}

/-- With paths for all objects, it fails for a file only. -/
theorem runs_writeObjects_error {accepted duplicate : UInt64} {e : RelayError}
    (hpaths : ∀ object ∈ objects, ∃ path, objectPath X repoId object.objectId = .ok path)
    (h : (writeObjects X repoId accepted duplicate objects).Runs FileStep s (.error e) s') :
    ∃ message, e = .io message := by
  induction objects generalizing s accepted duplicate with
  | nil => cases h.1
  | cons object rest ih =>
    obtain ⟨⟨path, hp⟩, hrest⟩ := List.forall_mem_cons.mp hpaths
    unfold writeObjects at h
    rw [hp] at h
    replace h := runs_pathExists h
    rcases hb : s[path]? with _ | b
    · rw [hb] at h
      rcases Prog.runs_bind_cases h with ⟨e', hwrite, he⟩ | ⟨u, s₁, hwrite, hloop⟩
      · obtain ⟨a, s₂, -, hr⟩ := hwrite
        rcases a with m | u
        · exact ⟨m, (Except.error.inj he).trans (Except.error.inj hr.1)⟩
        · cases hr.1
      · exact ih hrest hloop
    · rw [hb] at h
      exact ih hrest h

/-- It accepts each absent id once, and counts every object. -/
theorem runs_writeObjects_counts {accepted duplicate accepted' duplicate' : UInt64}
    (h : (writeObjects X repoId accepted duplicate objects).Runs FileStep s
      (.ok (accepted', duplicate')) s') :
    accepted' = accepted + .ofNat (absentIds X repoId s objects).card ∧
      accepted' + duplicate' = accepted + duplicate + .ofNat objects.length := by
  induction objects generalizing s accepted duplicate with
  | nil =>
    obtain ⟨rfl, rfl⟩ := Prod.mk.inj (Except.ok.inj h.1)
    simp [absentIds]
  | cons object rest ih =>
    unfold writeObjects at h
    rcases Prog.runs_bind_cases h with ⟨e, -, he⟩ | ⟨path, s₁, hpath, hrest⟩
    · cases he
    obtain ⟨hp, rfl⟩ := Prog.runs_ofExcept hpath
    replace hrest := runs_pathExists hrest
    rw [List.length_cons, UInt64.ofNat_add]
    rcases hb : s₁[path]? with _ | b
    · rw [hb] at hrest
      rcases Prog.runs_bind_cases hrest with ⟨e, -, he⟩ | ⟨u, s₂, hwrite, hloop⟩
      · cases he
      rcases runs_writeBytes hwrite with rfl | ⟨⟨e, he⟩, -⟩
      · obtain ⟨ha, hd⟩ := ih hloop
        have habsent : storedBytes X repoId s₁ object.objectId = none := by
          rw [storedBytes_eq hp, hb]
        rw [card_absentIds_cons hp habsent (canonicalObjectBytes X object), UInt64.ofNat_add]
        refine ⟨ha.trans ?_, hd.trans ?_⟩
        · ac_rfl
        · ac_rfl
      · cases he
    · rw [hb] at hrest
      obtain ⟨ha, hd⟩ := ih hrest
      have hpresent : storedBytes X repoId s₁ object.objectId ≠ none := by
        rw [storedBytes_eq hp, hb]
        exact Option.some_ne_none b
      rw [absentIds_cons_present hpresent]
      refine ⟨ha, hd.trans ?_⟩
      ac_rfl

end Loop

/-! ## A push with a new key -/

section Push

variable {X : Crates} {policy : Policy} {request : BundlePushRequest} {s s' : Files}

/-- It is turned down before anything is written, fails for a file, or goes through the
    second loop and writes its record. -/
theorem runs_push_new {r : Except RelayError BundlePushReport}
    (hnew : s[idempotencyPath X request.repoId request.idempotencyKey]? = none)
    (h : (pushBundle X policy request).Runs FileStep s r s') :
    (∃ e, r = .error e ∧ (s' = s ∨ ∃ message, e = .io message)) ∨
    ∃ (validation : BundleValidationReport) (accepted duplicate : UInt64) (s₁ : Files),
      Admitted X request s policy ∧
      (writeObjects X request.repoId 0 0 request.objects).Runs FileStep s
        (.ok (accepted, duplicate)) s₁ ∧
      r = .ok (pushReport request accepted duplicate validation.objectIds validation.bundleHash) ∧
      s' = s₁.insert (idempotencyPath X request.repoId request.idempotencyKey)
        (recordBytes X
          (pushReport request accepted duplicate validation.objectIds validation.bundleHash)) := by
  rcases Prog.runs_bind_cases h with ⟨e, hval, rfl⟩ | ⟨validation, s₁, hval, hpush⟩
  · exact .inl ⟨e, rfl, .inl (Prog.runs_ofExcept hval).2⟩
  obtain ⟨hv, rfl⟩ := Prog.runs_ofExcept hval
  have haccepted := (bundleValidationReport_ok hv).1
  replace hpush := runs_pathExists hpush
  rw [hnew] at hpush
  rcases Prog.runs_bind_cases hpush with ⟨e, hcheck, rfl⟩ | ⟨u, s₂, hcheck, hrest⟩
  · exact .inl ⟨e, rfl, .inl (runs_checkObjects hcheck).1⟩
  obtain ⟨rfl, hfree⟩ := runs_checkObjects hcheck
  rcases Prog.runs_bind_cases hrest with ⟨e, hwrite, rfl⟩ | ⟨⟨accepted, duplicate⟩, s₃, hwrite, hlast⟩
  · have hpaths : ∀ object ∈ request.objects,
        ∃ path, objectPath X request.repoId object.objectId = .ok path :=
      fun object ho => (hfree rfl object ho).imp fun _ => And.left
    exact .inl ⟨e, rfl, .inr (runs_writeObjects_error hpaths hwrite)⟩
  rcases Prog.runs_bind_cases hlast with ⟨e, hrecord, rfl⟩ | ⟨u, s₄, hrecord, hret⟩
  · obtain ⟨a, s₅, -, hr⟩ := hrecord
    rcases a with m | u
    · exact .inl ⟨e, rfl, .inr ⟨m, Except.error.inj hr.1⟩⟩
    · cases hr.1
  · obtain ⟨hr, rfl⟩ := hret
    rcases runs_writeBytes hrecord with rfl | ⟨⟨e, he⟩, -⟩
    · exact .inr ⟨validation, accepted, duplicate, s₃, ⟨haccepted, hfree rfl⟩, hwrite, hr, rfl⟩
    · cases he

/-- One envelope for each id is what arrives. -/
theorem storedBytes_of_adds {s₁ : Files} (hfree : ∀ object ∈ request.objects,
      Unopposed X request.repoId s object)
    (hone : OneEnvelope X request) (hadds : Adds X request.repoId request.objects s s₁)
    {object : CanonicalObject} (ho : object ∈ request.objects)
    (hpresent : Present X request.repoId s₁ object.objectId) :
    storedBytes X request.repoId s₁ object.objectId = some (canonicalObjectBytes X object) := by
  obtain ⟨path, bytes, hp, hb⟩ := hpresent
  rw [storedBytes_eq hp]
  rcases hadds path with he | ⟨-, object', ho', hp', hs⟩
  · obtain ⟨path', hpath', hsame⟩ := hfree object ho
    obtain rfl : path = path' := Except.ok.inj (hp.symm.trans hpath')
    rw [hb, hsame bytes (he ▸ hb)]
  · rw [hs, hone object ho object' ho' (objectPath_inj hp hp')]

theorem stores_of_runs {accepted duplicate : UInt64} {objectIds : List String} {hash : String}
    {s₁ : Files} (hfree : ∀ object ∈ request.objects, Unopposed X request.repoId s object)
    (hone : OneEnvelope X request)
    (h : (writeObjects X request.repoId 0 0 request.objects).Runs FileStep s
      (.ok (accepted, duplicate)) s₁) (record : Bytes) :
    Stores X request s (pushReport request accepted duplicate objectIds hash)
      (s₁.insert (idempotencyPath X request.repoId request.idempotencyKey) record) := by
  obtain ⟨hadds, hall⟩ := runs_writeObjects h
  obtain ⟨ha, hd⟩ := runs_writeObjects_counts h
  constructor
  · intro object ho
    rw [storedBytes_insert_record]
    exact storedBytes_of_adds hfree hone hadds ho (hall _ rfl object ho)
  · intro path hne hother
    rw [getElem?_insert_eq, if_neg hne.symm]
    rcases hadds path with he | ⟨-, object, ho, hp, -⟩
    · exact he
    · exact absurd hp (hother object ho)
  · exact ha.trans (UInt64.zero_add _)
  · refine hd.trans ?_
    rw [UInt64.zero_add, UInt64.zero_add]

/-- An admitted push goes through; of two envelopes for one id it stores one. -/
theorem push_of_envelopes
    (hnew : s[idempotencyPath X request.repoId request.idempotencyKey]? = none)
    (h : Admitted X request s policy) (hnot : ¬ OneEnvelope X request) :
    ∃ report s', ((fileRelayStore X policy).pushBundle request).Runs FileStep s (.ok report) s' ∧
      ¬ Stores X request s report s' := by
  obtain ⟨validation, hv⟩ := bundleValidationReport_of_accepted h.1
  obtain ⟨report, s₁, -, -, hrun⟩ := run_push_stored hv hnew h.2
  have hruns := Prog.runs_run fileStep_exec (pushBundle X policy request) s
  rw [hrun] at hruns
  refine ⟨report, _, hruns, fun hstores => hnot fun object ho object' ho' hid => ?_⟩
  have hsame := hstores.bytes object ho
  rw [hid, hstores.bytes object' ho'] at hsame
  exact (Option.some.inj hsame).symm

/-- A push with a new key keeps its promise exactly if, once admitted, it has one
    envelope for each id. -/
theorem push_all_or_nothing_iff
    (hnew : s[idempotencyPath X request.repoId request.idempotencyKey]? = none) :
    (∀ r s', ((fileRelayStore X policy).pushBundle request).Runs FileStep s r s' →
      AllOrNothing X request s r s') ↔ (Admitted X request s policy → OneEnvelope X request) := by
  constructor
  · intro hall hadmitted
    by_contra hnot
    obtain ⟨report, s', hruns, hstores⟩ := push_of_envelopes hnew hadmitted hnot
    exact hstores ((hall _ _ hruns).stored report rfl)
  · intro hone r s' h
    rcases runs_push_new hnew h with ⟨e, rfl, hs⟩ |
      ⟨validation, accepted, duplicate, s₁, hadmitted, hwrite, rfl, rfl⟩
    · refine ⟨fun e' he hio => ?_, fun report hr => by cases hr⟩
      rcases hs with rfl | ⟨message, rfl⟩
      · rfl
      · exact absurd (Except.error.inj he).symm (hio message)
    · refine ⟨fun e he => (by cases he), fun report hr => ?_⟩
      rw [← Except.ok.inj hr]
      exact stores_of_runs hadmitted.2 (hone hadmitted) hwrite _

end Push

/-- Nothing is in the way of a valid object in the empty store. -/
theorem unopposed_empty {X : Crates} {object : CanonicalObject} (h : object.Valid X)
    (repoId : String) : Unopposed X repoId ∅ object := by
  obtain ⟨hex, hd⟩ := objectDigits_of_valid h
  refine ⟨_, objectPath_eq hd, fun bytes hb => ?_⟩
  rw [Std.ExtTreeMap.getElem?_empty] at hb
  cases hb

/-- The first push is answered and has stored its object. -/
theorem nullPush_all_or_nothing :
    (∅ : Files)[idempotencyPath .reference nullPush.repoId nullPush.idempotencyKey]? = none ∧
      ∀ r s', ((fileRelayStore .reference ⟨false, []⟩).pushBundle nullPush).Runs FileStep ∅ r s' →
        AllOrNothing .reference nullPush ∅ r s' := by
  refine ⟨Std.ExtTreeMap.getElem?_empty, ?_⟩
  refine (push_all_or_nothing_iff Std.ExtTreeMap.getElem?_empty).mpr fun _ => ?_
  intro object ho object' ho' _
  rw [List.mem_singleton.mp ho, List.mem_singleton.mp ho']

/-- Objects of one id that were made at different times have different bytes. -/
theorem not_oneEnvelope {X : Crates} {request : BundlePushRequest} {o o' : CanonicalObject}
    (ho : o ∈ request.objects) (ho' : o' ∈ request.objects) (hid : o.objectId = o'.objectId)
    (htime : o.createdAtMs ≠ o'.createdAtMs) : ¬ OneEnvelope X request := by
  intro hone
  have hsame := canonicalObjectBytes_eq_iff.mp (hone o ho o' ho' hid)
  have hcreated : o.canonical.createdAtMs = o'.canonical.createdAtMs := by rw [hsame]
  exact htime hcreated

/-- The id says nothing of the time. -/
theorem objectId_new_eq (X : Crates) (kind schemaVersion : String) (c d : UInt64) (body : Value) :
    (CanonicalObject.new X kind schemaVersion c body).objectId =
      (CanonicalObject.new X kind schemaVersion d body).objectId := rfl

/-- A push of one object in two envelopes, made at different times. -/
def twoEnvelopesPush : BundlePushRequest where
  repoId := "r"
  idempotencyKey := "k"
  objects := [.new .reference "agent.intent" defaultSchemaVersion 0 .null,
    .new .reference "agent.intent" defaultSchemaVersion 1 .null]

/-- Into the empty store it goes through, without one of the envelopes. -/
theorem twoEnvelopesPush_loses_one :
    (fileRelayStore .reference ⟨false, []⟩).Pushed FileStep ∅ [] ∅ ∧
    (∅ : Files)[idempotencyPath .reference twoEnvelopesPush.repoId
      twoEnvelopesPush.idempotencyKey]? = none ∧
    ∃ report s', ((fileRelayStore .reference ⟨false, []⟩).pushBundle twoEnvelopesPush).Runs
        FileStep ∅ (.ok report) s' ∧ ¬ Stores .reference twoEnvelopesPush ∅ report s' := by
  have hadmitted : Admitted .reference twoEnvelopesPush ∅ ⟨false, []⟩ := by
    constructor
    · exact List.forall_mem_cons.mpr ⟨accepted_unsigned _ _ _ _,
        List.forall_mem_singleton.mpr (accepted_unsigned _ _ _ _)⟩
    · exact List.forall_mem_cons.mpr ⟨unopposed_empty (CanonicalObject.valid_new ..) _,
        List.forall_mem_singleton.mpr (unopposed_empty (CanonicalObject.valid_new ..) _)⟩
  have hnew : (∅ : Files)[idempotencyPath .reference twoEnvelopesPush.repoId
      twoEnvelopesPush.idempotencyKey]? = none := Std.ExtTreeMap.getElem?_empty
  have hobjects : twoEnvelopesPush.objects =
      [.new .reference "agent.intent" defaultSchemaVersion 0 .null,
        .new .reference "agent.intent" defaultSchemaVersion 1 .null] := rfl
  have htwo : ¬ OneEnvelope .reference twoEnvelopesPush := by
    refine not_oneEnvelope ?_ ?_ (objectId_new_eq .reference "agent.intent" defaultSchemaVersion 0 1
      .null) ?_
    · rw [hobjects]
      exact List.mem_cons_self
    · rw [hobjects]
      exact List.mem_cons_of_mem _ List.mem_cons_self
    · show (0 : UInt64) ≠ 1
      decide
  exact ⟨.none, hnew, push_of_envelopes hnew hadmitted htwo⟩

end RickydataGit.Relay.FileRelayStore
