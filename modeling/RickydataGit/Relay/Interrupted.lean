/-
  Pushes to the file store that are killed on the way.

  A write that is broken off leaves a file with the first bytes of what was to be written
  (`BrokenOff`), and no push repairs it: what exists is never written. `Left` are the
  stores that pushes lead to, each of them run to its end or killed anywhere.

  `push_after_kills` is what becomes of the next push. It goes through exactly if no
  broken file stands in its way (`Blocked`), and changes nothing otherwise; a report
  never names an object that is not stored to the byte. `reads_after_kills` and
  `pull_after_kills`: a broken file is never taken for an object, but a pull that comes
  to it fails as a whole.
-/
import RickydataGit.Core.Cut
import RickydataGit.Lib.Killed
import RickydataGit.Relay.FilePool
import RickydataGit.Relay.Paging

namespace RickydataGit.Relay.FileRelayStore

open RickydataGit.Lib RickydataGit.Core

/-- What a write that is broken off leaves. -/
def BrokenOff (s : Files) : fileOps.Op → Files → Prop
  | .writeFile path bytes, s' => ∃ k, s' = s.insert path (bytes.take k)
  | _, _ => False

variable {X : Crates} {policy : Policy} {P : BundlePushRequest → Prop}

/-! ## What is there -/

/-- A file holds the beginning of an object of a request, or of the record of a request
    that is stored. -/
inductive RestOf (X : Crates) (P : BundlePushRequest → Prop) (s : Files) (path : Path)
    (bytes : Bytes) : Prop where
  | object (request : BundlePushRequest) (object : CanonicalObject) (k : Nat) : P request →
      object ∈ request.objects → objectPath X request.repoId object.objectId = .ok path →
      bytes = (canonicalObjectBytes X object).take k → RestOf X P s path bytes
  | record (request : BundlePushRequest) (report : BundlePushReport) (k : Nat) : P request →
      RecordOf X request path report → AllStored X request s →
      bytes = (recordBytes X report).take k → RestOf X P s path bytes

def Rests (X : Crates) (P : BundlePushRequest → Prop) (s : Files) : Prop :=
  ∀ path bytes, s[path]? = some bytes → RestOf X P s path bytes

section Rests

variable {s s' : Files} {request : BundlePushRequest}

theorem rests_empty : Rests X P ∅ := by
  intro path bytes h
  rw [Std.ExtTreeMap.getElem?_empty] at h
  cases h

theorem storedBytes_congr {r r' : String} (h : keyHash X r = keyHash X r') (objectId : String) :
    storedBytes X r s objectId = storedBytes X r' s objectId := by
  rw [storedBytes, storedBytes, objectPath_congr h]

theorem storedBytes_extends (h : Extends s s') {repoId objectId : String} {bytes : Bytes}
    (hb : storedBytes X repoId s objectId = some bytes) :
    storedBytes X repoId s' objectId = some bytes := by
  rcases hp : objectPath X repoId objectId with e | path
  · rw [storedBytes, hp] at hb
    cases hb
  · rw [storedBytes_eq hp] at hb ⊢
    exact h _ _ hb

theorem AllStored.extends (h : AllStored X request s) (hs : Extends s s') :
    AllStored X request s' :=
  fun object ho => storedBytes_extends hs (h object ho)

/-- Files that are added are beginnings, too. -/
theorem Rests.grows {E : Path → Bytes → Prop} (hs : Rests X P s) (h : Grows E s s')
    (hE : ∀ path bytes, E path bytes → RestOf X P s' path bytes) : Rests X P s' := by
  intro path bytes hb
  rcases h path with he | ⟨-, b, hnew, hb'⟩
  · cases hs path bytes (he ▸ hb) with
    | object request object k hr ho hpath hbytes =>
      exact .object request object k hr ho hpath hbytes
    | record request report k hr hrec hall hbytes =>
      exact .record request report k hr hrec (hall.extends h.toExtends) hbytes
  · rw [Option.some.inj (hb.symm.trans hb')]
    exact hE path b hnew

theorem Rests.knownPaths (hs : Rests X P s) : KnownPaths X s := by
  intro path bytes hb
  cases hs path bytes hb with
  | object request object k _ _ hpath _ =>
    obtain ⟨hex, hd, he⟩ := objectPath_ok hpath
    exact .inl ⟨_, _, hex, hd, he⟩
  | record request report k _ hrec _ _ => exact .inr ⟨_, _, hrec.path⟩

/-- At the path of an object there is nothing but its beginning. -/
theorem Rests.eq_take (hs : Rests X P s) (hP : OneEnvelopeEach X P) (hr : P request)
    {object : CanonicalObject} (ho : object ∈ request.objects) {bytes : Bytes}
    (hb : storedBytes X request.repoId s object.objectId = some bytes) :
    ∃ k, bytes = (canonicalObjectBytes X object).take k := by
  rcases hp : objectPath X request.repoId object.objectId with e | path
  · rw [storedBytes, hp] at hb
    cases hb
  rw [storedBytes_eq hp] at hb
  obtain ⟨hex, hd, rfl⟩ := objectPath_ok hp
  cases hs _ _ hb with
  | object request' object' k hr' ho' hpath' hbytes =>
    obtain ⟨hex', hd', he⟩ := objectPath_ok hpath'
    obtain ⟨hrepo, rfl⟩ := objectFile_inj he
    rw [hP _ _ hr' hr hrepo.symm _ ho' _ ho (objectDigits_inj hd' hd)] at hbytes
    exact ⟨k, hbytes⟩
  | record request' report k _ hrec _ _ =>
    exact absurd hrec.path (objectFile_ne_idempotencyPath _ _ _ _)

end Rests

/-! ## A push that is killed -/

section Killed

variable {s s' : Files} {repoId : String} {α : Type}

theorem killed_pathExists {path : Path} {f : Bool → FileProg α}
    (h : (pathExists path >>= f).Killed FileStep BrokenOff s s') :
    s' = s ∨ (f (s[path]?).isSome).Killed FileStep BrokenOff s s' := by
  rcases h with rfl | hbroken | ⟨a, s₁, ⟨ha, rfl⟩, hf⟩
  · exact .inl rfl
  · exact hbroken.elim
  · rw [← show a = _ from ha]
    exact .inr hf

theorem killed_writeBytes {path : Path} {bytes : Bytes}
    (h : (writeBytes path bytes).Killed FileStep BrokenOff s s') :
    s' = s ∨ ∃ k, s' = s.insert path (bytes.take k) := by
  rcases h with rfl | hbroken | ⟨a, s₁, ha, hend⟩
  · exact .inl rfl
  · exact .inr hbroken
  · have hs₁ : s' = s₁ := by
      rcases a with m | u
      · exact hend
      · exact hend
    rcases ha with rfl | ⟨-, rfl⟩
    · refine .inr ⟨bytes.length, ?_⟩
      rw [hs₁, List.take_length]
    · exact .inl hs₁

/-- A program that only reads leaves the files as they are. -/
theorem killed_reads {p : FileProg α} (hp : p.Every (Writes fun _ _ => False))
    (h : p.Killed FileStep BrokenOff s s') : s' = s := by
  refine Prog.killed_frame (I := fun t => t = s) ?_ ?_ hp rfl h
  · rintro o ho t a t' rfl hstep
    rcases o with path | path | ⟨path, bytes⟩ | path | path
    · exact hstep.2
    · exact hstep.2
    · exact ho.elim
    · exact hstep.2
    · exact hstep.2
  · rintro o ho t t' - hbroken
    rcases o with path | path | ⟨path, bytes⟩ | path | path
    · exact hbroken.elim
    · exact hbroken.elim
    · exact ho.elim
    · exact hbroken.elim
    · exact hbroken.elim

/-- The file is the beginning of one of the objects. -/
def BeginningOf (X : Crates) (repoId : String) (objects : List CanonicalObject) (path : Path)
    (bytes : Bytes) : Prop :=
  ∃ object ∈ objects, ∃ k, objectPath X repoId object.objectId = .ok path ∧
    bytes = (canonicalObjectBytes X object).take k

theorem Adds.grows {objects : List CanonicalObject} (h : Adds X repoId objects s s') :
    Grows (BeginningOf X repoId objects) s s' := by
  intro path
  rcases h path with he | ⟨hn, object, ho, hp, hb⟩
  · exact .inl he
  · exact .inr ⟨hn, _, ⟨object, ho, _, hp, (List.take_length).symm⟩, hb⟩

theorem killed_writeObjects {objects : List CanonicalObject} {accepted duplicate : UInt64}
    (h : (writeObjects X repoId accepted duplicate objects).Killed FileStep BrokenOff s s') :
    Grows (BeginningOf X repoId objects) s s' := by
  induction objects generalizing s accepted duplicate with
  | nil =>
    rw [show s' = s from h]
    exact Grows.refl _ _
  | cons object rest ih =>
    have hmono : ∀ path bytes, BeginningOf X repoId rest path bytes →
        BeginningOf X repoId (object :: rest) path bytes :=
      fun path bytes ⟨o, ho, hrest⟩ => ⟨o, List.mem_cons_of_mem _ ho, hrest⟩
    unfold writeObjects at h
    rcases hp : objectPath X repoId object.objectId with e | path
    · rw [hp] at h
      rw [show s' = s from h]
      exact Grows.refl _ _
    rw [hp] at h
    rcases killed_pathExists h with rfl | h
    · exact Grows.refl _ _
    rcases hb : s[path]? with _ | b
    · rw [hb] at h
      have hnew : ∀ k, Grows (BeginningOf X repoId (object :: rest)) s
          (s.insert path ((canonicalObjectBytes X object).take k)) :=
        fun k => Grows.insert hb ⟨object, List.mem_cons_self, k, hp, rfl⟩
      rcases Prog.killed_bind h with hwrite | ⟨u, s₁, hwrite, hloop⟩
      · rcases killed_writeBytes hwrite with rfl | ⟨k, rfl⟩
        · exact Grows.refl _ _
        · exact hnew k
      · rcases runs_writeBytes hwrite with rfl | ⟨⟨e, he⟩, -⟩
        · have hwhole := hnew (canonicalObjectBytes X object).length
          rw [List.take_length] at hwhole
          exact hwhole.trans ((ih hloop).mono hmono)
        · cases he
    · rw [hb] at h
      exact (ih h).mono hmono

section Push

variable {request : BundlePushRequest}

/-- Objects are added to the rests. -/
theorem Rests.objects (hs : Rests X P s) (hr : P request)
    (h : Grows (BeginningOf X request.repoId request.objects) s s') :
    Extends s s' ∧ Rests X P s' :=
  ⟨h.toExtends, hs.grows h fun _ _ ⟨object, ho, k, hp, hb⟩ =>
    .object request object k hr ho hp hb⟩

/-- The record is added once the objects are stored. -/
theorem Rests.record (hs : Rests X P s) (hr : P request) (hall : AllStored X request s)
    {report : BundlePushReport} {path : Path} (hrec : RecordOf X request path report)
    (hnew : s[path]? = none) (k : Nat) :
    Extends s (s.insert path ((recordBytes X report).take k)) ∧
      Rests X P (s.insert path ((recordBytes X report).take k)) := by
  have hgrows : Grows (fun p b => p = path ∧ b = (recordBytes X report).take k) s
      (s.insert path ((recordBytes X report).take k)) := Grows.insert hnew ⟨rfl, rfl⟩
  refine ⟨hgrows.toExtends, hs.grows hgrows ?_⟩
  rintro _ _ ⟨rfl, rfl⟩
  exact .record request report k hr hrec (hall.extends hgrows.toExtends) rfl

/-- Wherever a push ends, no file is changed, and what is new are beginnings. -/
theorem killed_push (hP : OneEnvelopeEach X P) (hr : P request) (hs : Rests X P s)
    (h : (pushBundle X policy request).Killed FileStep BrokenOff s s') :
    Extends s s' ∧ Rests X P s' := by
  have hsame : s' = s → Extends s s' ∧ Rests X P s' := by
    rintro rfl
    exact ⟨Extends.refl _, hs⟩
  unfold pushBundle at h
  rcases hv : bundleValidationReport X policy request with e | validation
  · rw [hv] at h
    exact hsame h
  have hids := (bundleValidationReport_ok hv).2
  rw [hv] at h
  replace h : (pushValidated X request validation).Killed FileStep BrokenOff s s' := h
  unfold pushValidated at h
  rcases killed_pathExists h with he | h
  · exact hsame he
  rcases hrec : s[idempotencyPath X request.repoId request.idempotencyKey]? with _ | bytes
  · rw [hrec] at h
    rcases Prog.killed_bind h with hcheck | ⟨u, s₁, hcheck, hrest⟩
    · exact hsame (killed_reads (every_checkObjects _) hcheck)
    obtain ⟨rfl, hfree⟩ := runs_checkObjects hcheck
    rcases Prog.killed_bind hrest with hwrite | ⟨⟨accepted, duplicate⟩, s₂, hwrite, hrest⟩
    · exact hs.objects hr (killed_writeObjects hwrite)
    obtain ⟨hadds, hpresent⟩ := runs_writeObjects hwrite
    obtain ⟨hext, hs₂⟩ := hs.objects hr hadds.grows
    have hall : AllStored X request s₂ := fun object ho =>
      storedBytes_of_adds (hfree rfl) (hP _ _ hr hr rfl) hadds ho (hpresent _ rfl object ho)
    let report := pushReport request accepted duplicate validation.objectIds validation.bundleHash
    have hrecord : ∀ k, Extends s₁ (s₂.insert
          (idempotencyPath X request.repoId request.idempotencyKey)
          ((recordBytes X report).take k)) ∧
        Rests X P (s₂.insert (idempotencyPath X request.repoId request.idempotencyKey)
          ((recordBytes X report).take k)) := by
      intro k
      have hof : RecordOf X request _ report := ⟨rfl, hids⟩
      obtain ⟨hext', hs'⟩ := hs₂.record hr hall hof
        ((hadds.record _ _).trans hrec) k
      exact ⟨hext.trans hext', hs'⟩
    rcases Prog.killed_bind hrest with hlast | ⟨u, s₃, hlast, hend⟩
    · rcases killed_writeBytes hlast with rfl | ⟨k, rfl⟩
      · exact ⟨hext, hs₂⟩
      · exact hrecord k
    · rw [show s' = s₃ from hend]
      rcases runs_writeBytes hlast with rfl | ⟨⟨e, he⟩, -⟩
      · have hwhole := hrecord (recordBytes X report).length
        rw [List.take_length] at hwhole
        exact hwhole
      · cases he
  · rw [hrec] at h
    exact hsame (killed_reads
      (Prog.every_bind (every_fsRead _) fun _ => Prog.every_ofExcept _) h)

end Push

end Killed

/-! ## Any number of them -/

/-- One push, that ends somewhere. -/
def PushLeaves (X : Crates) (policy : Policy) (P : BundlePushRequest → Prop) (s s' : Files) :
    Prop :=
  ∃ request, P request ∧ (pushBundle X policy request).Killed FileStep BrokenOff s s'

/-- Pushes, one after the other, lead from one store to the other. -/
def Left (X : Crates) (policy : Policy) (P : BundlePushRequest → Prop) : Files → Files → Prop :=
  Relation.ReflTransGen (PushLeaves X policy P)

theorem Left.rests (hP : OneEnvelopeEach X P) {s s' : Files} (hs : Rests X P s)
    (h : Left X policy P s s') : Extends s s' ∧ Rests X P s' := by
  induction h with
  | refl => exact ⟨Extends.refl _, hs⟩
  | tail _ hstep ih =>
    obtain ⟨hext, hrests⟩ := ih
    obtain ⟨request, hr, hkilled⟩ := hstep
    obtain ⟨hext', hrests'⟩ := killed_push hP hr hrests hkilled
    exact ⟨hext.trans hext', hrests'⟩

/-! ## The next push -/

section Retry

variable (X) in
/-- The file of the object is not what it should be. -/
def Broken (repoId : String) (object : CanonicalObject) (s : Files) : Prop :=
  ∃ bytes, storedBytes X repoId s object.objectId = some bytes ∧
    bytes ≠ canonicalObjectBytes X object

variable (X) in
/-- A file that is not whole stands in the way of the request: its record, or, without a
    record, one of its objects. -/
inductive Blocked (request : BundlePushRequest) (s : Files) : Prop where
  | record (bytes : Bytes) :
      s[idempotencyPath X request.repoId request.idempotencyKey]? = some bytes →
      (∀ report, bytes ≠ recordBytes X report) → Blocked request s
  | object (object : CanonicalObject) :
      s[idempotencyPath X request.repoId request.idempotencyKey]? = none →
      object ∈ request.objects → Broken X request.repoId object s → Blocked request s

theorem reportFromSlice_cut (hcut : RefusesCut X) (report : BundlePushReport) {k : Nat}
    (hk : k < (recordBytes X report).length) :
    reportFromSlice X ((recordBytes X report).take k) =
      .error (.json (X.jsonError ((recordBytes X report).take k))) := by
  unfold reportFromSlice
  rw [recordBytes, hcut.pretty _ _ rfl k hk]
  rfl

theorem json_of_reportFromSlice {bytes : Bytes} {e : RelayError}
    (h : reportFromSlice X bytes = .error e) : ∃ message, e = .json message := by
  unfold reportFromSlice at h
  split at h
  · cases h
  · exact ⟨_, (Except.error.inj h).symm⟩

variable {s s' : Files} {request : BundlePushRequest}

/-- What is read as a record is one, written for a request that is stored. -/
theorem Rests.report (hX : ReadsBack X) (hcut : RefusesCut X) (hs : Rests X P s)
    {bytes : Bytes} {report : BundlePushReport}
    (hb : s[idempotencyPath X request.repoId request.idempotencyKey]? = some bytes)
    (hread : reportFromSlice X bytes = .ok report) :
    bytes = recordBytes X report ∧ Answered X P request report s := by
  cases hs _ _ hb with
  | object request' object k _ _ hpath _ =>
    obtain ⟨hex, -, he⟩ := objectPath_ok hpath
    exact absurd he.symm (objectFile_ne_idempotencyPath _ _ _ _)
  | record request' report' k hr hrec hall hbytes =>
    rcases Nat.lt_or_ge k (recordBytes X report').length with hk | hk
    · rw [hbytes, reportFromSlice_cut hcut report' hk] at hread
      cases hread
    · rw [List.take_of_length_le hk] at hbytes
      rw [hbytes, reportFromSlice_recordBytes hX] at hread
      rw [← Except.ok.inj hread]
      exact ⟨hbytes, request', hr, hrec, hall⟩

/-- The first loop ends at an object whose file differs. -/
theorem run_checkObjects_error {objects : List CanonicalObject} {e : RelayError} {repoId : String}
    (hpaths : ∀ object ∈ objects, ∃ path, objectPath X repoId object.objectId = .ok path)
    (h : ((checkObjects X repoId objects).run Files.exec s).1 = .error e) :
    ∃ object ∈ objects, Broken X repoId object s ∧ e = .objectConflict object.objectId := by
  induction objects with
  | nil => cases h
  | cons object rest ih =>
    obtain ⟨⟨path, hp⟩, hrest⟩ := List.forall_mem_cons.mp hpaths
    have hlater : ((checkObjects X repoId rest).run Files.exec s).1 = .error e →
        ∃ o ∈ object :: rest, Broken X repoId o s ∧ e = .objectConflict o.objectId := by
      intro hr
      obtain ⟨o, ho, hbroken⟩ := ih hrest hr
      exact ⟨o, List.mem_cons_of_mem _ ho, hbroken⟩
    unfold checkObjects at h
    rw [run_objectPath hp, run_pathExists] at h
    rcases hb : s[path]? with _ | bytes
    · rw [hb] at h
      exact hlater h
    · have hread : (fsRead path).run Files.exec s = (.ok bytes, s) := by
        rw [run_fsRead, hb]
        rfl
      rw [hb, Option.isSome_some, if_pos rfl, Prog.run_bind_ok _ hread] at h
      split at h
      · next hne =>
          exact ⟨object, List.mem_cons_self, ⟨bytes, (storedBytes_eq hp).trans hb, hne⟩,
            (Except.error.inj h).symm⟩
      · exact hlater h

theorem unopposed_of_not_broken {repoId : String} {object : CanonicalObject}
    (hp : ∃ path, objectPath X repoId object.objectId = .ok path)
    (h : ¬ Broken X repoId object s) : Unopposed X repoId s object := by
  obtain ⟨path, hp⟩ := hp
  refine ⟨path, hp, fun bytes hb => ?_⟩
  by_contra hne
  exact h ⟨bytes, (storedBytes_eq hp).trans hb, hne⟩

/-- A report is answered for objects that are stored. -/
theorem Rests.answered (hX : ReadsBack X) (hcut : RefusesCut X) (hP : OneEnvelopeEach X P)
    (hr : P request) (hs : Rests X P s) {report : BundlePushReport}
    (h : (pushBundle X policy request).Runs FileStep s (.ok report) s') :
    Answered X P request report s' := by
  cases push_effect h with
  | replayed validation bytes r hv hb hread => exact (hs.report hX hcut hb (hread _ rfl)).2
  | stored validation accepted duplicate s₁ r hv hn hfree hadds hpresent hreport =>
    rw [hreport _ rfl]
    refine ⟨request, hr, ⟨rfl, (bundleValidationReport_ok hv).2⟩, fun object ho => ?_⟩
    rw [storedBytes_insert_record]
    exact storedBytes_of_adds hfree (hP _ _ hr hr rfl) hadds ho (hpresent object ho)

/-- What becomes of a push after others that were killed. -/
structure Recovers (X : Crates) (policy : Policy) (P : BundlePushRequest → Prop)
    (request : BundlePushRequest) (s : Files) : Prop where
  /-- Undisturbed it succeeds, if no broken file is in its way. -/
  succeeds_iff : (∃ report, ((pushBundle X policy request).run Files.exec s).1 = .ok report) ↔
    ¬ Blocked X request s
  /-- Otherwise it fails for that file, and changes nothing. -/
  refused : Blocked X request s →
    ∃ e, (pushBundle X policy request).run Files.exec s = (.error e, s) ∧
      ((∃ message, e = .json message) ∨
        ∃ object ∈ request.objects, Broken X request.repoId object s ∧
          e = .objectConflict object.objectId)
  /-- A report names the objects of a request with its key, all of them stored. -/
  answered : ∀ report s', (pushBundle X policy request).Runs FileStep s (.ok report) s' →
    Answered X P request report s'
  /-- An object whose file is broken is in no report that is given from then on. -/
  lost : ∀ object ∈ request.objects, Broken X request.repoId object s →
    ∀ s', Left X policy P s s' → ∀ request', P request' →
      keyHash X request'.repoId = keyHash X request.repoId → ∀ report s'',
        (pushBundle X policy request').Runs FileStep s' (.ok report) s'' →
          object.objectId ∉ report.objectIds

/-- After any pushes, run to their end or killed, the next one goes through exactly if no
    broken file is in its way, and never reports what is not stored. -/
theorem push_after_kills (hX : ReadsBack X) (hcut : RefusesCut X) (policy : Policy)
    (hP : OneEnvelopeEach X P) (hs : Left X policy P ∅ s) (hr : P request)
    (hv : ∃ validation, bundleValidationReport X policy request = .ok validation) :
    Recovers X policy P request s := by
  obtain ⟨-, hrests⟩ := hs.rests hP rests_empty
  obtain ⟨validation, hv⟩ := hv
  have hpaths : ∀ object ∈ request.objects,
      ∃ path, objectPath X request.repoId object.objectId = .ok path := by
    intro object ho
    obtain ⟨hex, hd⟩ := objectDigits_of_valid ((bundleValidationReport_ok hv).1 object ho).valid
    exact ⟨_, objectPath_eq hd⟩
  have hrefused : Blocked X request s →
      ∃ e, (pushBundle X policy request).run Files.exec s = (.error e, s) ∧
        ((∃ message, e = .json message) ∨
          ∃ object ∈ request.objects, Broken X request.repoId object s ∧
            e = .objectConflict object.objectId) := by
    rintro (⟨bytes, hb, hbroken⟩ | ⟨object, hnone, ho, hbroken⟩)
    · rw [run_push_replayed hv hb]
      rcases hread : reportFromSlice X bytes with e | report
      · exact ⟨e, rfl, .inl (json_of_reportFromSlice hread)⟩
      · exact absurd (hrests.report hX hcut hb hread).1 (hbroken report)
    · rw [run_push hv]
      unfold pushValidated
      rw [run_pathExists, hnone, Option.isSome_none, if_neg Bool.false_ne_true]
      rcases hcheck : (checkObjects X request.repoId request.objects).run Files.exec s with ⟨r, s₁⟩
      have hruns := Prog.runs_run fileStep_exec (checkObjects X request.repoId request.objects) s
      rw [hcheck] at hruns
      obtain ⟨rfl, hfree⟩ := runs_checkObjects hruns
      rcases r with e | u
      · rw [Prog.run_bind_error _ hcheck]
        exact ⟨e, rfl, .inr (run_checkObjects_error hpaths (congrArg Prod.fst hcheck))⟩
      · obtain ⟨path, hp, hsame⟩ := hfree rfl object ho
        obtain ⟨bytes, hb, hne⟩ := hbroken
        exact absurd (hsame bytes ((storedBytes_eq hp).symm.trans hb)) hne
  refine ⟨⟨?_, ?_⟩, hrefused, fun report s' => hrests.answered hX hcut hP hr, ?_⟩
  · rintro ⟨report, hok⟩ hblocked
    obtain ⟨e, hrun, -⟩ := hrefused hblocked
    rw [hrun] at hok
    cases hok
  · intro hfree
    rcases hb : s[idempotencyPath X request.repoId request.idempotencyKey]? with _ | bytes
    · obtain ⟨report, s₁, -, -, hrun⟩ := run_push_stored hv hb fun object ho =>
        unopposed_of_not_broken (hpaths object ho) fun h => hfree (.object object hb ho h)
      rw [hrun]
      exact ⟨report, rfl⟩
    · have hwhole : ∃ report, bytes = recordBytes X report := by
        by_contra hnot
        exact hfree (.record bytes hb fun report he => hnot ⟨report, he⟩)
      obtain ⟨report, rfl⟩ := hwhole
      rw [run_push_replayed hv hb, reportFromSlice_recordBytes hX]
      exact ⟨report, rfl⟩
  · intro object ho ⟨bytes, hb, hne⟩ s' hlater request' hr' hrepo report s'' hruns hid
    obtain ⟨hext, hrests'⟩ := hlater.rests hP hrests
    obtain ⟨hext', -⟩ := killed_push hP hr' hrests' (Prog.killed_of_runs hruns)
    obtain ⟨request₁, hr₁, hrec, hall⟩ := hrests'.answered hX hcut hP hr' hruns
    obtain ⟨object₁, ho₁, hid₁⟩ := (hrec.ids _).mp hid
    -- the request of the report has the object, whole, under the id of the broken one
    have hsame : keyHash X request₁.repoId = keyHash X request.repoId :=
      (idempotencyPath_inj hrec.path).1.symm.trans hrepo
    have hwhole := hall object₁ ho₁
    rw [hid₁, storedBytes_congr hsame, storedBytes_extends (hext.trans hext') hb] at hwhole
    exact hne ((Option.some.inj hwhole).trans (hP _ _ hr₁ hr hsame _ ho₁ _ ho hid₁))

/-- A push may be killed while it writes its first object. -/
theorem killed_amid_object {validation : BundleValidationReport} {object : CanonicalObject}
    {rest : List CanonicalObject} {path : Path}
    (hv : bundleValidationReport X policy request = .ok validation)
    (hobjects : request.objects = object :: rest)
    (hpath : objectPath X request.repoId object.objectId = .ok path)
    (hrec : s[idempotencyPath X request.repoId request.idempotencyKey]? = none)
    (hfree : ∀ object ∈ request.objects, Unopposed X request.repoId s object)
    (hnone : s[path]? = none) (k : Nat) :
    (pushBundle X policy request).Killed FileStep BrokenOff s
      (s.insert path ((canonicalObjectBytes X object).take k)) := by
  have hcheck := Prog.runs_run fileStep_exec (checkObjects X request.repoId request.objects) s
  rw [run_checkObjects hfree] at hcheck
  unfold pushBundle
  rw [hv]
  show (pushValidated X request validation).Killed _ _ _ _
  unfold pushValidated
  refine .inr (.inr ⟨false, s, ⟨by rw [hrec]; rfl, rfl⟩, ?_⟩)
  show (checkObjects X request.repoId request.objects >>= _).Killed FileStep BrokenOff s _
  refine Prog.killed_right hcheck (Prog.killed_left ?_ _)
  rw [hobjects]
  unfold writeObjects
  rw [hpath]
  refine .inr (.inr ⟨false, s, ⟨by rw [hnone]; rfl, rfl⟩, ?_⟩)
  have hwrite : (writeBytes path (canonicalObjectBytes X object)).Killed FileStep BrokenOff s
      (s.insert path ((canonicalObjectBytes X object).take k)) := .inr (.inl ⟨k, rfl⟩)
  exact Prog.killed_left hwrite _

theorem oneEnvelopeEach_nullPush (X : Crates) : OneEnvelopeEach X (· = nullPush) := by
  rintro _ _ rfl rfl - object ho object' ho' -
  rw [List.mem_singleton.mp ho, List.mem_singleton.mp ho']

/-- A push that is killed in the write of an object is in its own way from then on. -/
theorem exists_blocked {validation : BundleValidationReport} {object : CanonicalObject}
    {rest : List CanonicalObject}
    (hv : bundleValidationReport X policy request = .ok validation)
    (hobjects : request.objects = object :: rest) (hr : P request) :
    ∃ s, Left X policy P ∅ s ∧ Blocked X request s := by
  have haccepted := (bundleValidationReport_ok hv).1
  have ho : object ∈ request.objects := by
    rw [hobjects]
    exact List.mem_cons_self
  obtain ⟨hex, hd⟩ := objectDigits_of_valid (haccepted object ho).valid
  have hpath : objectPath X request.repoId object.objectId = .ok _ := objectPath_eq hd
  have hkilled := killed_amid_object hv hobjects hpath Std.ExtTreeMap.getElem?_empty
    (fun o ho => unopposed_empty (haccepted o ho).valid _) Std.ExtTreeMap.getElem?_empty 0
  refine ⟨_, .single ⟨request, hr, hkilled⟩,
    .object object ?_ ho ⟨[], ?_, (canonicalObjectBytes_ne_nil _).symm⟩⟩
  · rw [getElem?_insert_eq, if_neg (objectFile_ne_idempotencyPath _ _ _ _),
      Std.ExtTreeMap.getElem?_empty]
  · rw [storedBytes_eq hpath, getElem?_insert_eq, if_pos rfl]
    rfl

theorem nullPush_accepted :
    ∀ o ∈ nullPush.objects, Accepted .reference ⟨false, []⟩ nullPush.repoId o := by
  simp [nullPush, accepted_unsigned]

theorem nullPush_blocked : ∃ s, Left .reference ⟨false, []⟩ (· = nullPush) ∅ s ∧
    Blocked .reference nullPush s := by
  obtain ⟨validation, hv⟩ := bundleValidationReport_of_accepted nullPush_accepted
  exact exists_blocked hv rfl rfl

theorem nullPush_recovers : ∃ s, Blocked .reference nullPush s ∧
    Recovers .reference ⟨false, []⟩ (· = nullPush) nullPush s := by
  obtain ⟨s, hleft, hblocked⟩ := nullPush_blocked
  exact ⟨s, hblocked, push_after_kills readsBack_reference refusesCut_reference _
    (oneEnvelopeEach_nullPush _) hleft rfl (bundleValidationReport_of_accepted nullPush_accepted)⟩

end Retry

/-! ## Reads -/

section Reads

variable {s : Files} {repoId : String}

/-- The file of the id is whole, and holds this object of a request. -/
structure Whole (X : Crates) (P : BundlePushRequest → Prop) (repoId : String) (s : Files)
    (objectId : String) (o : CanonicalObject) : Prop where
  sent : ∃ request, P request ∧ keyHash X request.repoId = keyHash X repoId ∧ o ∈ request.objects
  names : o.objectId = objectId
  bytes : storedBytes X repoId s objectId = some (canonicalObjectBytes X o)

/-- What is read as an object is one that was sent. -/
theorem Rests.read (hX : ReadsBack X) (hcut : RefusesCut X) (hs : Rests X P s) {objectId : String}
    {object : CanonicalObject} {s' : Files}
    (h : (readObject X repoId objectId).Runs FileStep s (.ok object) s') :
    ∃ o, Whole X P repoId s objectId o ∧ object = o.canonical := by
  obtain ⟨-, hex, bytes, hd, hb, hread⟩ := runs_readObject h
  cases hs _ _ hb with
  | object request o k hr ho hpath hbytes =>
    obtain ⟨hex', hd', he⟩ := objectPath_ok hpath
    obtain ⟨hrepo, rfl⟩ := objectFile_inj he
    rcases Nat.lt_or_ge k (canonicalObjectBytes X o).length with hk | hk
    · obtain ⟨e, he⟩ := objectFromSlice_cut hcut o hk
      rw [hbytes, storedObjectFromSlice, he] at hread
      cases hread
    · rw [List.take_of_length_le hk] at hbytes
      rw [hbytes, storedObjectFromSlice_canonicalObjectBytes hX] at hread
      refine ⟨o, ⟨⟨request, hr, hrepo.symm, ho⟩, objectDigits_inj hd' hd, ?_⟩,
        (Except.ok.inj hread).symm⟩
      rw [storedBytes_eq (objectPath_eq hd), hb, hbytes]
  | record request report k _ hrec _ _ =>
    exact absurd hrec.path (objectFile_ne_idempotencyPath _ _ _ _)

/-- A read succeeds exactly if the file is whole. -/
theorem Rests.read_iff (hX : ReadsBack X) (hcut : RefusesCut X) (hs : Rests X P s)
    {objectId : String} {object : CanonicalObject} :
    (readObject X repoId objectId).run Files.exec s = (.ok object, s) ↔
      ∃ o, Whole X P repoId s objectId o ∧ object = o.canonical := by
  constructor
  · intro hrun
    have hruns := Prog.runs_run fileStep_exec (readObject X repoId objectId) s
    rw [hrun] at hruns
    exact hs.read hX hcut hruns
  · rintro ⟨o, ⟨-, -, hb⟩, rfl⟩
    rcases hp : objectPath X repoId objectId with e | path
    · rw [storedBytes, hp] at hb
      cases hb
    · exact run_readObject hX hp ((storedBytes_eq hp).symm.trans hb)

/-- What a pull is to bring, in order. -/
def pulledIds (X : Crates) (s : Files) (request : BundlePullRequest) : List String :=
  selected request.limit
    ((listed X s request.repoId).filter fun id => !request.knownObjectIds.contains id)

/-- What becomes of reads after pushes that were killed. -/
structure Readable (X : Crates) (P : BundlePushRequest → Prop) (request : BundlePullRequest)
    (s : Files) : Prop where
  /-- An id is listed if it has a file, broken or not. -/
  listed_iff : ∀ id, id ∈ listed X s request.repoId ↔
    ∃ bytes, storedBytes X request.repoId s id = some bytes
  /-- A pull succeeds if every file it comes to is whole. -/
  succeeds_iff : (∃ report, ((pullBundle X request).run Files.exec s).1 = .ok report) ↔
    ∀ id ∈ pulledIds X s request, ∃ o, Whole X P request.repoId s id o
  /-- What it brings was sent, whatever reads fail. -/
  brings : ∀ report s', (pullBundle X request).Runs FileStep s (.ok report) s' →
    List.Forall₂ (fun id object => ∃ o, Whole X P request.repoId s id o ∧ object = o.canonical)
      (pulledIds X s request) report.objects

end Reads

end RickydataGit.Relay.FileRelayStore
