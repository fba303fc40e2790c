/-
  Everything a push to the file store can do, failing reads and writes included.

  `PushEffect` has one case for each way a push can go: it is refused before the
  store is touched, it is answered from the record of its key, it fails on the way
  (some objects may be stored then), or all its objects are there when the record is
  written. `push_effect` is the inversion, from the effects of the two loops
  (`runs_checkObjects`, `runs_writeObjects`). The properties of histories are derived
  from it and never look at the program again.
-/
import RickydataGit.Relay.Ingress

namespace RickydataGit.Relay.FileRelayStore

open RickydataGit.Lib RickydataGit.Core

/-! ## Effects -/

/-- `s'` has the files of `s`, and some of the objects at paths that were free. -/
def Adds (X : Crates) (repoId : String) (objects : List CanonicalObject) (s s' : Files) : Prop :=
  ∀ path, s'[path]? = s[path]? ∨ s[path]? = none ∧ ∃ object ∈ objects,
    objectPath X repoId object.objectId = .ok path ∧
      s'[path]? = some (canonicalObjectBytes X object)

/-- There is a file at the path of the id. -/
def Present (X : Crates) (repoId : String) (s : Files) (objectId : String) : Prop :=
  ∃ path bytes, objectPath X repoId objectId = .ok path ∧ s[path]? = some bytes

/-- A file at the path of the object, if there is one, has its bytes. -/
def Unopposed (X : Crates) (repoId : String) (s : Files) (object : CanonicalObject) : Prop :=
  ∃ path, objectPath X repoId object.objectId = .ok path ∧
    ∀ bytes, s[path]? = some bytes → bytes = canonicalObjectBytes X object

section Effects

variable {X : Crates} {repoId : String} {objects : List CanonicalObject} {s s₁ s' : Files}

theorem Adds.refl (s : Files) : Adds X repoId objects s s := fun _ => .inl rfl

theorem Adds.trans (h : Adds X repoId objects s s₁) (h' : Adds X repoId objects s₁ s') :
    Adds X repoId objects s s' := by
  intro path
  rcases h' path with he' | ⟨hn', hnew'⟩
  · rcases h path with he | ⟨hn, hnew⟩
    · exact .inl (he'.trans he)
    · rw [he']
      exact .inr ⟨hn, hnew⟩
  · rcases h path with he | ⟨hn, object, _, _, hs⟩
    · exact .inr ⟨he ▸ hn', hnew'⟩
    · rw [hs] at hn'
      cases hn'

theorem Adds.mono {objects' : List CanonicalObject} (hsub : objects ⊆ objects')
    (h : Adds X repoId objects s s') : Adds X repoId objects' s s' := by
  intro path
  rcases h path with he | ⟨hn, object, ho, hrest⟩
  · exact .inl he
  · exact .inr ⟨hn, object, hsub ho, hrest⟩

theorem adds_insert {object : CanonicalObject} (ho : object ∈ objects) {path : Path}
    (hp : objectPath X repoId object.objectId = .ok path) (hn : s[path]? = none) :
    Adds X repoId objects s (s.insert path (canonicalObjectBytes X object)) := by
  intro p
  rw [getElem?_insert_eq]
  split
  · next he => exact he ▸ .inr ⟨hn, object, ho, hp, rfl⟩
  · exact .inl rfl

/-- What is there stays. -/
theorem Adds.some (h : Adds X repoId objects s s') {path : Path} {bytes : Bytes}
    (hb : s[path]? = some bytes) : s'[path]? = some bytes := by
  rcases h path with he | ⟨hn, _⟩
  · exact he.trans hb
  · rw [hb] at hn
    cases hn

theorem Present.adds {r objectId : String} (h : Adds X repoId objects s s')
    (hp : Present X r s objectId) : Present X r s' objectId := by
  obtain ⟨path, bytes, hpath, hb⟩ := hp
  exact ⟨path, bytes, hpath, h.some hb⟩

/-- Records are not objects. -/
theorem Adds.record (h : Adds X repoId objects s s') (r key : String) :
    s'[idempotencyPath X r key]? = s[idempotencyPath X r key]? := by
  rcases h (idempotencyPath X r key) with he | ⟨_, object, _, hp, _⟩
  · exact he
  · obtain ⟨hex, -, he⟩ := objectPath_ok hp
    exact absurd he.symm (objectFile_ne_idempotencyPath _ _ _ _)

theorem present_insert {r objectId : String} {path : Path} {bytes : Bytes}
    (hp : Present X r s objectId) : Present X r (s.insert path bytes) objectId := by
  obtain ⟨p, b, hpath, hb⟩ := hp
  by_cases he : path = p
  · exact ⟨p, bytes, hpath, by rw [getElem?_insert_eq, if_pos he]⟩
  · exact ⟨p, b, hpath, by rw [getElem?_insert_eq, if_neg he, hb]⟩

end Effects

/-! ## The loops -/

section Loops

variable {X : Crates} {repoId : String} {s s' : Files}

theorem runs_pathExists {α : Type} {path : Path} {f : Bool → FileProg α} {r : Except RelayError α}
    (h : (pathExists path >>= f).Runs FileStep s r s') :
    (f (s[path]?).isSome).Runs FileStep s r s' := by
  obtain ⟨a, s₁, ⟨ha, rfl⟩, hf⟩ := h
  rw [← show a = _ from ha]
  exact hf

theorem runs_fsRead_eq {path : Path} {r : Except RelayError Bytes}
    (h : (fsRead path).Runs FileStep s r s') :
    s' = s ∧ ∀ bytes, r = .ok bytes → s[path]? = some bytes := by
  obtain ⟨a, s₁, ⟨ha, rfl⟩, hr⟩ := h
  rcases a with m | b
  · exact ⟨hr.2, fun bytes hb => absurd (hr.1.symm.trans hb) (by simp)⟩
  · exact ⟨hr.2, fun bytes hb => ha bytes (congrArg _ (Except.ok.inj (hr.1.symm.trans hb)))⟩

theorem runs_writeBytes {path : Path} {bytes : Bytes} {r : Except RelayError Unit}
    (h : (writeBytes path bytes).Runs FileStep s r s') :
    s' = s.insert path bytes ∨ (∃ e, r = .error e) ∧ s' = s := by
  obtain ⟨a, s₁, ha, hr⟩ := h
  rcases a with m | u
  · obtain ⟨rfl, rfl⟩ := hr
    rcases ha with rfl | ⟨-, rfl⟩
    · exact .inl rfl
    · exact .inr ⟨⟨_, rfl⟩, rfl⟩
  · obtain ⟨rfl, rfl⟩ := hr
    rcases ha with rfl | ⟨⟨m, hm⟩, -⟩
    · exact .inl rfl
    · cases hm

/-- The first loop changes nothing, and lets through what is not opposed. -/
theorem runs_checkObjects {objects : List CanonicalObject} {r : Except RelayError Unit}
    (h : (checkObjects X repoId objects).Runs FileStep s r s') :
    s' = s ∧ (r = .ok () → ∀ object ∈ objects, Unopposed X repoId s object) := by
  induction objects generalizing s' r with
  | nil => exact ⟨h.2, fun _ => by simp⟩
  | cons object rest ih =>
    rcases Prog.runs_bind_cases h with ⟨e, hpath, rfl⟩ | ⟨path, s₁, hpath, hrest⟩
    · exact ⟨(Prog.runs_ofExcept hpath).2, by simp⟩
    · obtain ⟨hp, rfl⟩ := Prog.runs_ofExcept hpath
      replace hrest := runs_pathExists hrest
      rcases hb : s₁[path]? with _ | b
      · rw [hb] at hrest
        obtain ⟨rfl, hall⟩ := ih hrest
        refine ⟨rfl, fun hr => List.forall_mem_cons.mpr ⟨⟨path, hp, fun bytes hbytes => ?_⟩, hall hr⟩⟩
        rw [hb] at hbytes
        cases hbytes
      · rw [hb] at hrest
        rcases Prog.runs_bind_cases hrest with ⟨e, hread, rfl⟩ | ⟨existing, s₂, hread, hcmp⟩
        · exact ⟨(runs_fsRead_eq hread).1, by simp⟩
        · obtain ⟨rfl, hex⟩ := runs_fsRead_eq hread
          split at hcmp
          · exact ⟨hcmp.2, fun hr => absurd (hcmp.1.symm.trans hr) (by simp)⟩
          · next heq =>
              obtain ⟨rfl, hall⟩ := ih hcmp
              refine ⟨rfl, fun hr => List.forall_mem_cons.mpr
                ⟨⟨path, hp, fun bytes hbytes => ?_⟩, hall hr⟩⟩
              rw [hex existing rfl] at hbytes
              rw [← Option.some.inj hbytes]
              exact not_not.mp heq

/-- The second loop stores objects at free paths; when it ends, all of them are there. -/
theorem runs_writeObjects {objects : List CanonicalObject} {accepted duplicate : UInt64}
    {r : Except RelayError (UInt64 × UInt64)}
    (h : (writeObjects X repoId accepted duplicate objects).Runs FileStep s r s') :
    Adds X repoId objects s s' ∧
      ∀ counts, r = .ok counts → ∀ object ∈ objects, Present X repoId s' object.objectId := by
  induction objects generalizing s accepted duplicate with
  | nil =>
    obtain ⟨-, rfl⟩ := h
    exact ⟨Adds.refl _, by simp⟩
  | cons object rest ih =>
    unfold writeObjects at h
    rcases Prog.runs_bind_cases h with ⟨e, hpath, rfl⟩ | ⟨path, s₁, hpath, hrest⟩
    · rw [(Prog.runs_ofExcept hpath).2]
      exact ⟨Adds.refl _, by simp⟩
    · obtain ⟨hp, rfl⟩ := Prog.runs_ofExcept hpath
      replace hrest := runs_pathExists hrest
      have hsub : rest ⊆ object :: rest := List.subset_cons_self _ _
      rcases hb : s₁[path]? with _ | b
      · rw [hb] at hrest
        have hins : Adds X repoId (object :: rest) s₁ _ := adds_insert List.mem_cons_self hp hb
        rcases Prog.runs_bind_cases hrest with ⟨e, hwrite, rfl⟩ | ⟨u, s₂, hwrite, hloop⟩
        · refine ⟨?_, by simp⟩
          rcases runs_writeBytes hwrite with rfl | ⟨-, rfl⟩
          · exact hins
          · exact Adds.refl _
        · rcases runs_writeBytes hwrite with rfl | ⟨⟨e, he⟩, -⟩
          · obtain ⟨hadds, hall⟩ := ih hloop
            refine ⟨hins.trans (hadds.mono hsub), fun counts hr => List.forall_mem_cons.mpr
              ⟨Present.adds hadds ⟨path, canonicalObjectBytes X object, hp, ?_⟩, hall counts hr⟩⟩
            rw [getElem?_insert_eq, if_pos rfl]
          · cases he
      · rw [hb] at hrest
        obtain ⟨hadds, hall⟩ := ih hrest
        exact ⟨hadds.mono hsub, fun counts hr => List.forall_mem_cons.mpr
          ⟨Present.adds hadds ⟨path, b, hp, hb⟩, hall counts hr⟩⟩

end Loops

/-! ## A whole push -/

/-- The ways a push can go. -/
inductive PushEffect (X : Crates) (policy : Policy) (request : BundlePushRequest) (s : Files) :
    Except RelayError BundlePushReport → Files → Prop where
  /-- An object is not accepted. -/
  | refused (e : RelayError) : bundleValidationReport X policy request = .error e →
      PushEffect X policy request s (.error e) s
  /-- There is a record of its key, and it is the answer. -/
  | replayed (validation : BundleValidationReport) (bytes : Bytes)
      (r : Except RelayError BundlePushReport) :
      bundleValidationReport X policy request = .ok validation →
      s[idempotencyPath X request.repoId request.idempotencyKey]? = some bytes →
      (∀ report, r = .ok report → reportFromSlice X bytes = .ok report) →
      PushEffect X policy request s r s
  /-- It fails before the record; some objects may have been stored. -/
  | failed (validation : BundleValidationReport) (e : RelayError) (s' : Files) :
      bundleValidationReport X policy request = .ok validation →
      s[idempotencyPath X request.repoId request.idempotencyKey]? = none →
      Adds X request.repoId request.objects s s' → PushEffect X policy request s (.error e) s'
  /-- All objects are there and the record is written; the answer may still be lost. -/
  | stored (validation : BundleValidationReport) (accepted duplicate : UInt64) (s₁ : Files)
      (r : Except RelayError BundlePushReport) :
      bundleValidationReport X policy request = .ok validation →
      s[idempotencyPath X request.repoId request.idempotencyKey]? = none →
      (∀ object ∈ request.objects, Unopposed X request.repoId s object) →
      Adds X request.repoId request.objects s s₁ →
      (∀ object ∈ request.objects, Present X request.repoId s₁ object.objectId) →
      (∀ report, r = .ok report → report =
        pushReport request accepted duplicate validation.objectIds validation.bundleHash) →
      PushEffect X policy request s r
        (s₁.insert (idempotencyPath X request.repoId request.idempotencyKey)
          (recordBytes X
            (pushReport request accepted duplicate validation.objectIds validation.bundleHash)))

section Push

variable {X : Crates} {policy : Policy} {request : BundlePushRequest} {s s' : Files}

theorem runs_readReport {path : Path} {r : Except RelayError BundlePushReport}
    (h : (readReport X path).Runs FileStep s r s') :
    s' = s ∧ ∀ report, r = .ok report →
      ∃ bytes, s[path]? = some bytes ∧ reportFromSlice X bytes = .ok report := by
  rcases Prog.runs_bind_cases h with ⟨e, hread, rfl⟩ | ⟨bytes, s₁, hread, hparse⟩
  · exact ⟨(runs_fsRead_eq hread).1, by simp⟩
  · obtain ⟨rfl, hb⟩ := runs_fsRead_eq hread
    obtain ⟨hr, rfl⟩ := Prog.runs_ofExcept hparse
    exact ⟨rfl, fun report he => ⟨bytes, hb bytes rfl, hr.trans he⟩⟩

/-- Every push goes in one of these ways. -/
theorem push_effect {r : Except RelayError BundlePushReport}
    (h : (pushBundle X policy request).Runs FileStep s r s') :
    PushEffect X policy request s r s' := by
  rcases Prog.runs_bind_cases h with ⟨e, hval, rfl⟩ | ⟨validation, s₁, hval, hpush⟩
  · obtain ⟨hv, rfl⟩ := Prog.runs_ofExcept hval
    exact .refused e hv
  obtain ⟨hv, rfl⟩ := Prog.runs_ofExcept hval
  replace hpush := runs_pathExists hpush
  rcases hrec : s₁[idempotencyPath X request.repoId request.idempotencyKey]? with _ | bytes
  · rw [hrec] at hpush
    rcases Prog.runs_bind_cases hpush with ⟨e, hcheck, rfl⟩ | ⟨u, s₂, hcheck, hrest⟩
    · obtain ⟨rfl, -⟩ := runs_checkObjects hcheck
      exact .failed validation e _ hv hrec (Adds.refl _)
    obtain ⟨rfl, hfree⟩ := runs_checkObjects hcheck
    rcases Prog.runs_bind_cases hrest with ⟨e, hwrite, rfl⟩ | ⟨⟨accepted, duplicate⟩, s₃, hwrite, hrest⟩
    · exact .failed validation e _ hv hrec (runs_writeObjects hwrite).1
    obtain ⟨hadds, hall⟩ := runs_writeObjects hwrite
    have hstored := PushEffect.stored validation accepted duplicate s₃ r hv hrec (hfree rfl) hadds
      (hall _ rfl)
    rcases Prog.runs_bind_cases hrest with ⟨e, hrecord, rfl⟩ | ⟨u, s₄, hrecord, hret⟩
    · rcases runs_writeBytes hrecord with rfl | ⟨-, rfl⟩
      · exact hstored (by simp)
      · exact .failed validation e _ hv hrec hadds
    · obtain ⟨hr, rfl⟩ := hret
      rcases runs_writeBytes hrecord with rfl | ⟨⟨e, he⟩, -⟩
      · exact hstored fun report he => Except.ok.inj (he.symm.trans hr)
      · cases he
  · rw [hrec] at hpush
    obtain ⟨rfl, hread⟩ := runs_readReport hpush
    refine .replayed validation bytes r hv hrec fun report hr => ?_
    obtain ⟨b, hb, hp⟩ := hread report hr
    rw [Option.some.inj (hrec.symm.trans hb)]
    exact hp

/-- A file stays where it is, but for the record of the key. -/
theorem PushEffect.some {r : Except RelayError BundlePushReport}
    (h : PushEffect X policy request s r s') {path : Path} {bytes : Bytes}
    (hb : s[path]? = some bytes) : s'[path]? = some bytes := by
  cases h with
  | refused | replayed => exact hb
  | failed _ _ _ _ _ hadds => exact hadds.some hb
  | stored _ _ _ s₁ _ _ hn _ hadds =>
    rw [getElem?_insert_eq, if_neg, hadds.some hb]
    rintro rfl
    rw [hb] at hn
    cases hn

/-- A push that succeeds passed validation. -/
theorem PushEffect.validated {report : BundlePushReport}
    (h : PushEffect X policy request s (.ok report) s') :
    ∃ validation, bundleValidationReport X policy request = .ok validation := by
  cases h with
  | replayed validation _ _ hv => exact ⟨validation, hv⟩
  | stored validation _ _ _ _ hv => exact ⟨validation, hv⟩

theorem Present.push {r : Except RelayError BundlePushReport}
    (h : PushEffect X policy request s r s') {repoId objectId : String}
    (hp : Present X repoId s objectId) : Present X repoId s' objectId := by
  obtain ⟨path, bytes, hpath, hb⟩ := hp
  exact ⟨path, bytes, hpath, h.some hb⟩

end Push

/-! ## Without faults -/

section Run

variable {X : Crates} {policy : Policy} {request : BundlePushRequest} {repoId : String} {s : Files}

theorem run_objectPath {α : Type} {objectId : String} {path : Path}
    (h : objectPath X repoId objectId = .ok path) (f : Path → FileProg α) :
    ((liftM (objectPath X repoId objectId) : FileProg Path) >>= f).run Files.exec s =
      (f path).run Files.exec s := by
  rw [h]
  rfl

theorem run_checkObjects {objects : List CanonicalObject}
    (h : ∀ object ∈ objects, Unopposed X repoId s object) :
    (checkObjects X repoId objects).run Files.exec s = (.ok (), s) := by
  induction objects with
  | nil => rfl
  | cons object rest ih =>
    obtain ⟨⟨path, hp, hb⟩, hrest⟩ := List.forall_mem_cons.mp h
    unfold checkObjects
    rw [run_objectPath hp, run_pathExists]
    rcases hs : s[path]? with _ | bytes
    · exact ih hrest
    · have hread : (fsRead path).run Files.exec s = (.ok bytes, s) := by
        rw [run_fsRead, hs]
        rfl
      rw [Option.isSome_some, if_pos rfl, Prog.run_bind_ok _ hread,
        if_neg (not_not.mpr (hb bytes hs))]
      exact ih hrest

theorem run_writeObjects {objects : List CanonicalObject}
    (h : ∀ object ∈ objects, ∃ path, objectPath X repoId object.objectId = .ok path)
    (accepted duplicate : UInt64) (s : Files) :
    ∃ counts s₁, (writeObjects X repoId accepted duplicate objects).run Files.exec s =
      (.ok counts, s₁) ∧ Adds X repoId objects s s₁ := by
  have hruns := Prog.runs_run fileStep_exec (writeObjects X repoId accepted duplicate objects) s
  obtain ⟨hadds, -⟩ := runs_writeObjects hruns
  rcases hw : (writeObjects X repoId accepted duplicate objects).run Files.exec s with ⟨r, s₁⟩
  rw [hw] at hadds
  suffices hr : ∃ counts, r = .ok counts by
    obtain ⟨counts, rfl⟩ := hr
    exact ⟨counts, s₁, rfl, hadds⟩
  clear hruns hadds
  induction objects generalizing accepted duplicate s with
  | nil => exact ⟨_, (congrArg Prod.fst hw).symm⟩
  | cons object rest ih =>
    obtain ⟨⟨path, hp⟩, hrest⟩ := List.forall_mem_cons.mp h
    unfold writeObjects at hw
    rw [run_objectPath hp, run_pathExists] at hw
    rcases hs : (s[path]?).isSome with _ | _
    · rw [hs] at hw
      exact ih hrest _ _ _ hw
    · rw [hs] at hw
      exact ih hrest _ _ _ hw

theorem run_push {validation : BundleValidationReport}
    (hv : bundleValidationReport X policy request = .ok validation) :
    (pushBundle X policy request).run Files.exec s =
      (pushValidated X request validation).run Files.exec s := by
  unfold pushBundle
  rw [hv]
  rfl

theorem run_readReport (path : Path) :
    (readReport X path).run Files.exec s =
      ((foundFile s[path]?).mapError .io >>= reportFromSlice X, s) := by
  unfold readReport
  rw [Prog.run_bind, run_fsRead]
  rcases foundFile s[path]? with m | bytes
  · rfl
  · exact Prog.run_ofExcept _ _ _

/-- A push is answered from the record of its key. -/
theorem run_push_replayed {validation : BundleValidationReport}
    (hv : bundleValidationReport X policy request = .ok validation) {bytes : Bytes}
    (hrec : s[idempotencyPath X request.repoId request.idempotencyKey]? = some bytes) :
    (pushBundle X policy request).run Files.exec s = (reportFromSlice X bytes, s) := by
  rw [run_push hv]
  unfold pushValidated
  rw [run_pathExists, hrec, Option.isSome_some, if_pos rfl, run_readReport, hrec]
  rfl

/-- A push that finds no record and nothing in its way succeeds, and leaves a record. -/
theorem run_push_stored {validation : BundleValidationReport}
    (hv : bundleValidationReport X policy request = .ok validation)
    (hrec : s[idempotencyPath X request.repoId request.idempotencyKey]? = none)
    (hfree : ∀ object ∈ request.objects, Unopposed X request.repoId s object) :
    ∃ report s₁, report.objectIds = validation.objectIds ∧
      Adds X request.repoId request.objects s s₁ ∧
      (pushBundle X policy request).run Files.exec s = (.ok report,
        s₁.insert (idempotencyPath X request.repoId request.idempotencyKey)
          (recordBytes X report)) := by
  obtain ⟨⟨accepted, duplicate⟩, s₁, hwrite, hadds⟩ := run_writeObjects (X := X)
    (fun object ho => (hfree object ho).imp fun _ => And.left) 0 0 s
  rw [run_push hv]
  unfold pushValidated
  rw [run_pathExists, hrec, Option.isSome_none, if_neg Bool.false_ne_true,
    Prog.run_bind_ok _ (run_checkObjects hfree), Prog.run_bind_ok _ hwrite]
  exact ⟨pushReport request accepted duplicate validation.objectIds validation.bundleHash, s₁,
    rfl, hadds, rfl⟩

end Run

end RickydataGit.Relay.FileRelayStore
