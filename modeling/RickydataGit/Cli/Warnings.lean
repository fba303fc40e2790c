/-
  What `build_sync_verify` makes of signatures.

  For an object the report leaves out the signature warnings. For a patch it verifies
  the diff objects again and takes every finding, warnings included, so a signature that
  fails on a diff object makes the patch invalid.

  `sync_verify_resigned`: on two stores that differ in signatures the reports differ in
  nothing but the counts and the texts about signatures, exactly when no live patch whose
  evidence is in order has a failing signature on its diff objects in one store only.
-/
import RickydataGit.Git.Resigned
import RickydataGit.Cli.SyncVerify
import RickydataGit.Cli.Receipts

namespace RickydataGit.Cli

open RickydataGit.Lib RickydataGit.Core RickydataGit.Git

/-! ## Reports without signatures -/

/-- The report without the counts and the texts about signatures. -/
def SyncVerifyReport.withoutSignatures (report : SyncVerifyReport) : SyncVerifyReport :=
  { report with
    invalidObjects := report.invalidObjects.map fun d => { d with diagnostics := [] }
    invalidPatches := report.invalidPatches.map fun d => { d with diagnostics := [] }
    signedObjectCount := 0
    validSignatureCount := 0 }

/-- Some diff object of the patch carries a signature that fails. -/
def DiffWarned (X : Crates) (s : ObjectStore) (patch : PreparedPatch) : Prop :=
  ∃ diffObjectId ∈ patch.diffObjectIds, ∃ hex bytes o, objectHex diffObjectId = .ok hex ∧
    content s hex = some bytes ∧ readObjectBytes X bytes = .ok o ∧
    ∃ signature ∈ o.signatures, verifying X o signature = false

/-- The evidence of the patch is in order, signatures aside. -/
structure InOrder (T : Tools) (s : ObjectStore) (patch : PreparedPatch) : Prop where
  named : patch.diffObjectIds ≠ []
  diffs : ∀ diffObjectId ∈ patch.diffObjectIds, ∃ hex bytes o,
    Passing T.toCrates s diffObjectId hex bytes o ∧ o.kind = "agent.patch_diff"
  evidence : ∃ attempt resolved, ((findAttempt T patch.attemptId).run exec s).1 = .ok attempt ∧
    ((resolvePatchDiff T patch attempt).run exec s).1 = .ok resolved

/-- The store after every listed object has been verified. -/
def listedVerified (X : Crates) (s : ObjectStore) : ObjectStore :=
  match ((listRefBackedObjects X none).run exec s).1 with
  | .ok entries => verifiedAll X (entries.map ObjectListEntry.objectId) s
  | .error _ => s

/-- The live patches whose evidence is in order have failing signatures on their diff
    objects in both stores or in neither. -/
def SameDiffWarnings (T : Tools) (s t : ObjectStore) : Prop :=
  ∀ patches retired,
    ((listPatches T).run exec (listedVerified T.toCrates s)).1 = .ok patches →
    ((retiredPatchIds T).run exec (listedVerified T.toCrates s)).1 = .ok retired →
    ∀ entry ∈ patches, entry.body.patchId ∉ retired →
      InOrder T (listedVerified T.toCrates s) entry.body →
      (DiffWarned T.toCrates s entry.body ↔ DiffWarned T.toCrates t entry.body)

/-! ## Commands on both stores -/

section Relates

variable (T : Tools)

/-- A listed record without the id of its blob. -/
def Listed.withoutBlob {α : Type} (entry : Listed α) : Listed α := { entry with gitObjectId := "" }

theorem fields_of_withoutBlob {entry entry' : ObjectListEntry}
    (h : entry'.withoutBlob = entry.withoutBlob) :
    entry'.objectId = entry.objectId ∧ entry'.refName = entry.refName := by
  have hid := congrArg ObjectListEntry.objectId h
  have href := congrArg ObjectListEntry.refName h
  exact ⟨hid, href⟩

theorem body_of_withoutBlob {α : Type} {entry entry' : Listed α}
    (h : entry'.withoutBlob = entry.withoutBlob) : entry'.body = entry.body := by
  have hbody := congrArg Listed.body h
  exact hbody

theorem bodyOf_resigned {α : Type} (name : String) (read : Value → Option α)
    {o o' : CanonicalObject} (h : SameButSignatures o o') :
    bodyOf T name read o' = bodyOf T name read o := by
  rw [h]
  rfl

theorem readBodies_relates {α : Type} (name : String) (read : Value → Option α)
    {es es' : List ObjectListEntry}
    (h : es'.map ObjectListEntry.withoutBlob = es.map ObjectListEntry.withoutBlob) :
    Prog.Relates exec (Resigned T.toCrates)
      (fun (ls ls' : List (Listed α)) => ls'.map Listed.withoutBlob = ls.map Listed.withoutBlob)
      (readBodies T name read es) (readBodies T name read es') := by
  induction es generalizing es' with
  | nil =>
    obtain rfl := List.map_eq_nil_iff.mp h
    exact Prog.relates_ret rfl
  | cons entry rest ih =>
    rcases es' with _ | ⟨entry', rest'⟩
    · cases h
    rw [List.map_cons, List.map_cons, List.cons.injEq] at h
    obtain ⟨hid, href⟩ := fields_of_withoutBlob h.1
    unfold readBodies
    rw [hid, href]
    refine ((read_relates T.toCrates entry.objectId).mapFail _).bind fun r r' ho => ?_
    rw [bodyOf_resigned T name read ho]
    refine (Prog.relates_ofExcept (alike_refl (R := Eq) (fun _ => rfl) _)).bind fun body body' hb => ?_
    subst hb
    refine (ih h.2).bind fun ls ls' hls => Prog.relates_ret ?_
    simp [Listed.withoutBlob, hls]

theorem listBodies_relates {α : Type} (kind name : String) (read : Value → Option α) :
    Prog.Relates exec (Resigned T.toCrates)
      (fun (ls ls' : List (Listed α)) => ls'.map Listed.withoutBlob = ls.map Listed.withoutBlob)
      (listBodies T kind name read) (listBodies T kind name read) :=
  ((list_relates T.toCrates _).mapFail _).bind fun _ _ h => readBodies_relates T name read h

/-- A list sorted by something in the bodies. -/
theorem sorted_withoutBlob {α : Type} (key : α → String) {ls ls' : List (Listed α)}
    (h : ls'.map Listed.withoutBlob = ls.map Listed.withoutBlob) :
    (ls'.mergeSort fun left right => decide (key left.body ≤ key right.body)).map
        Listed.withoutBlob =
      (ls.mergeSort fun left right => decide (key left.body ≤ key right.body)).map
        Listed.withoutBlob := by
  have hsort : ∀ ls : List (Listed α),
      (ls.mergeSort fun left right => decide (key left.body ≤ key right.body)).map
          Listed.withoutBlob =
        (ls.map Listed.withoutBlob).mergeSort
          fun left right => decide (key left.body ≤ key right.body) := fun ls =>
    List.map_mergeSort fun _ _ _ _ => rfl
  rw [hsort, hsort, h]

theorem listPatches_relates : Prog.Relates exec (Resigned T.toCrates)
    (fun ls ls' => ls'.map Listed.withoutBlob = ls.map Listed.withoutBlob)
    (listPatches T) (listPatches T) :=
  (listBodies_relates T _ _ _).bind fun _ _ h =>
    Prog.relates_ret (sorted_withoutBlob PreparedPatch.patchId h)

theorem retiredPatchIds_relates : Prog.Relates exec (Resigned T.toCrates)
    Eq (retiredPatchIds T) (retiredPatchIds T) := by
  refine (listBodies_relates T _ _ _).bind fun ls ls' h => Prog.relates_ret ?_
  have hids := congrArg (List.map fun entry => entry.body.patchId) h
  rw [List.map_map, List.map_map] at hids
  exact hids.symm

theorem findAttempt_relates (attemptId : String) : Prog.Relates exec (Resigned T.toCrates)
    Eq (findAttempt T attemptId) (findAttempt T attemptId) := by
  have hlist : Prog.Relates exec (Resigned T.toCrates)
      (fun ls ls' => ls'.map Listed.withoutBlob = ls.map Listed.withoutBlob)
      (listAttempts T) (listAttempts T) :=
    (listBodies_relates T _ _ _).bind fun _ _ h =>
      Prog.relates_ret (sorted_withoutBlob AgentAttempt.attemptId h)
  refine hlist.bind fun ls ls' h => ?_
  have hfind : ∀ ls : List (Listed AgentAttempt),
      ((ls.map Listed.withoutBlob).find? fun entry => entry.body.attemptId == attemptId) =
        (ls.find? fun entry => entry.body.attemptId == attemptId).map Listed.withoutBlob :=
    fun ls => List.find?_map ..
  have heq := (hfind ls').symm.trans ((congrArg _ h).trans (hfind ls))
  rcases hf : ls.find? fun entry => entry.body.attemptId == attemptId with _ | entry
  · rw [hf] at heq
    rw [hf, Option.map_eq_none_iff.mp heq]
    exact Prog.relates_fail _
  · rw [hf] at heq
    obtain ⟨entry', hf', hentry⟩ := Option.map_eq_some_iff.mp heq
    rw [hf, hf']
    exact Prog.relates_ret (body_of_withoutBlob hentry).symm

theorem resolvePatchDiff_relates (patch : PreparedPatch) (attempt : AgentAttempt) :
    Prog.Relates exec (Resigned T.toCrates) Eq (resolvePatchDiff T patch attempt)
      (resolvePatchDiff T patch attempt) := by
  unfold resolvePatchDiff
  rcases patch.diffObjectIds.head? with _ | diffObjectId
  · exact Prog.relates_ofExcept (alike_refl (fun _ => rfl) _)
  · refine ((read_relates T.toCrates diffObjectId).mapFail _).bind fun r r' ho => ?_
    have hchecked : checkedPatchDiff T patch diffObjectId r'.object =
        checkedPatchDiff T patch diffObjectId r.object := by
      unfold checkedPatchDiff
      rw [bodyOf_resigned T _ _ ho, ho]
    rw [hchecked]
    exact Prog.relates_ofExcept (alike_refl (fun _ => rfl) _)

theorem evidenceDiagnostics_relates (patch : PreparedPatch) :
    Prog.Relates exec (Resigned T.toCrates) Eq (evidenceDiagnostics T patch)
      (evidenceDiagnostics T patch) := by
  refine (findAttempt_relates T _).attempt.bind fun found found' h => ?_
  obtain rfl := h.eq
  rcases found with e | attempt
  · exact Prog.relates_ret rfl
  · refine (resolvePatchDiff_relates T patch attempt).attempt.bind fun result result' h => ?_
    obtain rfl := h.eq
    rcases result with e | resolved
    · cases e with
      | panic => exact Prog.relates_fail _
      | _ => exact Prog.relates_ret rfl
    · exact Prog.relates_ret rfl

/-! The findings on diff objects agree in whether the command fails. -/

theorem diffDiagnostics_relates (diffObjectIds : List String) :
    Prog.Relates exec (Resigned T.toCrates) (fun _ _ => True) (diffDiagnostics T diffObjectIds)
      (diffDiagnostics T diffObjectIds) := by
  induction diffObjectIds with
  | nil => exact Prog.relates_ret trivial
  | cons diffObjectId rest ih =>
    exact ((verify_relates _ _).mapFail _).bind fun _ _ _ =>
      (read_relates _ _).attempt.bind fun _ _ _ => ih.bind fun _ _ _ => Prog.relates_ret trivial

theorem verifyPatches_relates (retired : List String) {ls ls' : List (Listed PreparedPatch)}
    (h : ls'.map Listed.withoutBlob = ls.map Listed.withoutBlob) (tally tally' : PatchTally) :
    Prog.Relates exec (Resigned T.toCrates) (fun _ _ => True) (verifyPatches T retired ls tally)
      (verifyPatches T retired ls' tally') := by
  induction ls generalizing ls' tally tally' with
  | nil =>
    obtain rfl := List.map_eq_nil_iff.mp h
    exact Prog.relates_ret trivial
  | cons entry rest ih =>
    rcases ls' with _ | ⟨entry', rest'⟩
    · cases h
    rw [List.map_cons, List.map_cons, List.cons.injEq] at h
    have hbody := body_of_withoutBlob h.1
    unfold verifyPatches
    rw [hbody]
    refine Prog.Relates.bind (R := fun _ _ => True) ?_ fun _ _ _ => ih h.2 _ _
    unfold verifyPatch
    split
    · exact Prog.relates_ret trivial
    · refine Prog.Relates.bind (R := fun _ _ => True) ?_ fun _ _ _ => Prog.relates_ret trivial
      exact (diffDiagnostics_relates T _).bind fun _ _ _ =>
        (evidenceDiagnostics_relates T _).bind fun _ _ _ => Prog.relates_ret trivial

/-! ## The objects -/

def ObjectTally.withoutSignatures (tally : ObjectTally) : ObjectTally :=
  { tally with signedObjectCount := 0, validSignatureCount := 0 }

theorem hardDiagnostics_eq (diagnostics : List ObjectDiagnostic) :
    hardDiagnostics diagnostics =
      (hardFindings diagnostics).map fun d => s!"{d.code}: {d.message}" := by
  unfold hardDiagnostics hardFindings
  congr 1
  refine List.filter_congr fun d _ => ?_
  by_cases h8 : d.code = "OBJECT008"
  · simp [isSignatureWarning, h8]
  · by_cases h9 : d.code = "OBJECT009" <;> simp [isSignatureWarning, h8, h9]

/-- A report on an object adds the same, whatever it says about signatures. -/
theorem ObjectTally.add_resigned {tally tally' : ObjectTally} {entry entry' : ObjectListEntry}
    {verify verify' : ObjectVerifyReport} (expectedRef : String)
    (htally : tally'.withoutSignatures = tally.withoutSignatures)
    (hentry : entry'.withoutBlob = entry.withoutBlob) (hverify : SameHard verify verify') :
    (tally'.add entry' expectedRef verify').withoutSignatures =
      (tally.add entry expectedRef verify).withoutSignatures := by
  obtain ⟨hid, href⟩ := fields_of_withoutBlob hentry
  have hdiagnostics : refDiagnostics entry' expectedRef ++ hardDiagnostics verify'.diagnostics =
      refDiagnostics entry expectedRef ++ hardDiagnostics verify.diagnostics := by
    rw [hardDiagnostics_eq, hardDiagnostics_eq, hverify.hard, refDiagnostics, refDiagnostics, href]
  obtain ⟨valid, recoverable, invalid, signed, signatures⟩ := tally
  obtain ⟨valid', recoverable', invalid', signed', signatures'⟩ := tally'
  simp only [withoutSignatures, ObjectTally.mk.injEq, and_true] at htally
  obtain ⟨rfl, rfl, rfl⟩ := htally
  unfold ObjectTally.add
  dsimp only
  rw [hdiagnostics, hverify.valid, hverify.source, hid, href]
  split
  · rfl
  · rfl

theorem verifyEntries_relates {es es' : List ObjectListEntry}
    (h : es'.map ObjectListEntry.withoutBlob = es.map ObjectListEntry.withoutBlob)
    {tally tally' : ObjectTally} (ht : tally'.withoutSignatures = tally.withoutSignatures) :
    Prog.Relates exec (Resigned T.toCrates)
      (fun r r' => r'.withoutSignatures = r.withoutSignatures)
      (verifyEntries T es tally) (verifyEntries T es' tally') := by
  induction es generalizing es' tally tally' with
  | nil =>
    obtain rfl := List.map_eq_nil_iff.mp h
    exact Prog.relates_ret ht
  | cons entry rest ih =>
    rcases es' with _ | ⟨entry', rest'⟩
    · cases h
    rw [List.map_cons, List.map_cons, List.cons.injEq] at h
    have hid := (fields_of_withoutBlob h.1).1
    unfold verifyEntries
    refine Prog.Relates.bind (R := fun r r' => r'.withoutSignatures = r.withoutSignatures) ?_
      fun _ _ hr => ih h.2 hr
    unfold verifyEntry
    rw [hid]
    refine (Prog.relates_ofExcept (alike_refl (R := Eq) (fun _ => rfl) _)).bind fun name _ hn => ?_
    subst hn
    exact ((verify_relates _ _).mapFail _).bind fun _ _ hv =>
      Prog.relates_ret (ObjectTally.add_resigned name ht h.1 hv)

/-- Both reports are made, or neither is and for the same reason. -/
theorem buildSyncVerify_relates : Prog.Relates exec (Resigned T.toCrates) (fun _ _ => True)
    (buildSyncVerify T) (buildSyncVerify T) :=
  ((list_relates T.toCrates none).mapFail _).bind fun _ _ hes =>
    (verifyEntries_relates T hes rfl).bind fun _ _ _ =>
      (listPatches_relates T).bind fun _ _ hls =>
        (retiredPatchIds_relates T).bind fun _ _ hretired => by
          subst hretired
          exact (verifyPatches_relates T _ hls _ _).bind fun _ _ _ => Prog.relates_ret trivial

end Relates

/-! ## The patches, where nothing is left to restore -/

section Patches

variable {T : Tools} {s s' t : ObjectStore} {patch : PreparedPatch}

theorem readBodies_stays {α : Type} (hs : Restored T.toCrates s) (name : String)
    (read : Value → Option α) (entries : List ObjectListEntry) :
    Prog.Stays exec s (readBodies T name read entries) := by
  induction entries with
  | nil => rfl
  | cons entry rest ih =>
    exact ((hs.read_stays _).mapFail _).bind fun _ =>
      (Prog.stays_ofExcept _).bind fun _ => ih.bind fun _ => rfl

theorem listBodies_stays {α : Type} (hs : Restored T.toCrates s) (kind name : String)
    (read : Value → Option α) : Prog.Stays exec s (listBodies T kind name read) :=
  ((list_stays _ _ s).mapFail _).bind fun _ => readBodies_stays hs name read _

theorem listPatches_stays (hs : Restored T.toCrates s) : Prog.Stays exec s (listPatches T) :=
  (listBodies_stays hs _ _ _).bind fun _ => rfl

theorem retiredPatchIds_stays (hs : Restored T.toCrates s) :
    Prog.Stays exec s (retiredPatchIds T) :=
  (listBodies_stays hs _ _ _).bind fun _ => rfl

theorem findAttempt_stays (hs : Restored T.toCrates s) (attemptId : String) :
    Prog.Stays exec s (findAttempt T attemptId) := by
  have hlist : Prog.Stays exec s (listAttempts T) :=
    (listBodies_stays hs _ _ _).bind fun _ => rfl
  refine hlist.bind fun attempts => ?_
  split <;> rfl

theorem resolvePatchDiff_stays (hs : Restored T.toCrates s) (patch : PreparedPatch)
    (attempt : AgentAttempt) : Prog.Stays exec s (resolvePatchDiff T patch attempt) := by
  unfold resolvePatchDiff
  rcases patch.diffObjectIds.head? with _ | diffObjectId
  · exact Prog.stays_ofExcept _
  · exact ((hs.read_stays _).mapFail _).bind fun _ => Prog.stays_ofExcept _

theorem diffDiagnostics_stays (hs : Restored T.toCrates s) (diffObjectIds : List String) :
    Prog.Stays exec s (diffDiagnostics T diffObjectIds) := by
  induction diffObjectIds with
  | nil => rfl
  | cons diffObjectId rest ih =>
    exact ((hs.verify_stays _).mapFail _).bind fun _ =>
      (hs.read_stays _).attempt.bind fun _ => ih.bind fun _ => rfl

theorem evidenceDiagnostics_stays (hs : Restored T.toCrates s) (patch : PreparedPatch) :
    Prog.Stays exec s (evidenceDiagnostics T patch) := by
  refine (findAttempt_stays hs _).attempt.bind fun found => ?_
  split
  · rfl
  · refine (resolvePatchDiff_stays hs _ _).attempt.bind fun resolved => ?_
    split <;> rfl

theorem patchDiagnostics_stays (hs : Restored T.toCrates s) (patch : PreparedPatch) :
    Prog.Stays exec s (patchDiagnostics T patch) :=
  (diffDiagnostics_stays hs _).bind fun _ => (evidenceDiagnostics_stays hs _).bind fun _ => rfl

/-- A stay ends in the store it starts from. -/
theorem store_of_stays {ε α : Type} {p : Prog storeOps ε α} {r : Except ε α}
    (h : Prog.Stays exec s p) (hrun : p.run exec s = (r, s')) : s' = s := by
  rw [h.run] at hrun
  exact (congrArg Prod.snd hrun).symm

/-- No findings on the diff objects: each passes, is a diff, and its signatures verify. -/
theorem diffDiagnostics_nil_iff (hs : Restored T.toCrates s) {diffObjectIds : List String}
    {ds : List String} (hrun : (diffDiagnostics T diffObjectIds).run exec s = (.ok ds, s')) :
    ds = [] ↔ ∀ diffObjectId ∈ diffObjectIds, ∃ hex bytes o,
      Passing T.toCrates s diffObjectId hex bytes o ∧ o.kind = "agent.patch_diff" ∧
      ∀ signature ∈ o.signatures, verifying T.toCrates o signature = true := by
  induction diffObjectIds generalizing ds s' with
  | nil =>
    obtain rfl := Except.ok.inj (congrArg Prod.fst hrun)
    simp
  | cons diffObjectId rest ih =>
    obtain ⟨verify, s₁, hverify, hrun₁⟩ := Prog.run_bind_inv exec hrun
    rw [Prog.run_mapFail_ok_iff] at hverify
    obtain rfl := store_of_stays (hs.verify_stays _) hverify
    obtain ⟨report, s₂, hreport, hrun₂⟩ := Prog.run_bind_inv exec hrun₁
    obtain rfl := store_of_stays (hs.read_stays _).attempt hreport
    obtain ⟨more, s₃, hmore, hrun₃⟩ := Prog.run_bind_inv exec hrun₂
    obtain rfl := Except.ok.inj (congrArg Prod.fst hrun₃)
    rw [Prog.run_attempt] at hreport
    have hread := Except.ok.inj (congrArg Prod.fst hreport)
    -- what passes is what is read
    have hobject : ∀ {hex bytes o}, Passing T.toCrates s₂ diffObjectId hex bytes o →
        (kindDiagnostics diffObjectId report = [] ↔ o.kind = "agent.patch_diff") := by
      intro hex bytes o h
      have hsound : Sound T.toCrates diffObjectId o s₂ :=
        ⟨h.fields, hex, bytes, h.spelled, h.found, h.parsed⟩
      obtain ⟨found, s', hfound, rfl, -, -⟩ := hsound.read
      rw [hfound] at hread
      obtain rfl : Except.ok found = report := hread
      rw [kindDiagnostics]
      split <;> simp [*]
    rw [List.forall_mem_cons, List.append_eq_nil_iff, List.append_eq_nil_iff, List.map_eq_nil_iff,
      verify_clean_iff hverify, ih hmore]
    refine and_congr_left fun _ => ?_
    constructor
    · rintro ⟨⟨hex, bytes, o, h, hsignatures⟩, hkind⟩
      exact ⟨hex, bytes, o, h, (hobject h).mp hkind, hsignatures⟩
    · rintro ⟨hex, bytes, o, h, hkind, hsignatures⟩
      exact ⟨⟨hex, bytes, o, h, hsignatures⟩, (hobject h).mpr hkind⟩

/-- No findings on the rest of the evidence. -/
theorem evidenceDiagnostics_nil_iff (hs : Restored T.toCrates s) {ds : List String}
    (hrun : (evidenceDiagnostics T patch).run exec s = (.ok ds, s')) :
    ds = [] ↔ ∃ attempt resolved, ((findAttempt T patch.attemptId).run exec s).1 = .ok attempt ∧
      ((resolvePatchDiff T patch attempt).run exec s).1 = .ok resolved := by
  obtain ⟨found, s₁, hfound, hrun₁⟩ := Prog.run_bind_inv exec hrun
  obtain rfl := store_of_stays (findAttempt_stays hs _).attempt hfound
  rw [Prog.run_attempt] at hfound
  have hattempt := Except.ok.inj (congrArg Prod.fst hfound)
  rw [hattempt]
  rcases found with e | attempt
  · obtain rfl := Except.ok.inj (congrArg Prod.fst hrun₁)
    simp
  · obtain ⟨result, s₂, hresult, hrun₂⟩ := Prog.run_bind_inv exec hrun₁
    rw [Prog.run_attempt] at hresult
    have hresolved := Except.ok.inj (congrArg Prod.fst hresult)
    have hiff : (∃ attempt' resolved, (Except.ok attempt : Except CliError AgentAttempt) =
        .ok attempt' ∧ ((resolvePatchDiff T patch attempt').run exec s₁).1 = .ok resolved) ↔
        ∃ resolved, result = .ok resolved := by
      constructor
      · rintro ⟨attempt', resolved, heq, h⟩
        obtain rfl := Except.ok.inj heq
        exact ⟨resolved, hresolved.symm.trans h⟩
      · rintro ⟨resolved, h⟩
        exact ⟨attempt, resolved, rfl, hresolved.trans h⟩
    rw [hiff]
    rcases result with e | resolved
    · cases e with
      | panic => cases congrArg Prod.fst hrun₂
      | _ =>
        obtain rfl := Except.ok.inj (congrArg Prod.fst hrun₂)
        simp
    · obtain rfl := Except.ok.inj (congrArg Prod.fst hrun₂)
      simp

/-- What the report says of an invalid patch, the findings aside. -/
def invalidPatch (patch : PreparedPatch) : SyncVerifyPatchDiagnostic where
  patchId := patch.patchId
  attemptId := patch.attemptId
  valid := false
  diffObjectIds := patch.diffObjectIds
  diagnostics := []

/-- A patch is without findings when its evidence is in order and no signature on it
    fails. -/
theorem patchDiagnostics_nil_iff (hs : Restored T.toCrates s) {ds : List String}
    (hrun : (patchDiagnostics T patch).run exec s = (.ok ds, s')) :
    ds = [] ↔ InOrder T s patch ∧ ¬ DiffWarned T.toCrates s patch := by
  obtain ⟨found, s₁, hfound, hrun₁⟩ := Prog.run_bind_inv exec hrun
  obtain rfl := store_of_stays (diffDiagnostics_stays hs _) hfound
  obtain ⟨evidence, s₂, hevidence, hrun₂⟩ := Prog.run_bind_inv exec hrun₁
  obtain rfl := Except.ok.inj (congrArg Prod.fst hrun₂)
  have hmissing : (if patch.diffObjectIds = [] then ["prepared patch has no diff_object_ids"] else
      []) = [] ↔ patch.diffObjectIds ≠ [] := by
    split <;> simp [*]
  rw [List.append_eq_nil_iff, List.append_eq_nil_iff, hmissing, diffDiagnostics_nil_iff hs hfound,
    evidenceDiagnostics_nil_iff hs hevidence]
  constructor
  · rintro ⟨⟨hnamed, hdiffs⟩, hok⟩
    refine ⟨⟨hnamed, fun id hid => ?_, hok⟩, ?_⟩
    · obtain ⟨hex, bytes, o, h, hkind, -⟩ := hdiffs id hid
      exact ⟨hex, bytes, o, h, hkind⟩
    · rintro ⟨id, hid, hex', bytes', o', hhex, hbytes, ho', signature, hmem, hfails⟩
      obtain ⟨hex, bytes, o, h, -, hsignatures⟩ := hdiffs id hid
      obtain rfl := Except.ok.inj (h.spelled.symm.trans hhex)
      obtain rfl := Option.some.inj (h.found.symm.trans hbytes)
      obtain rfl := Except.ok.inj (h.parsed.symm.trans ho')
      rw [hsignatures signature hmem] at hfails
      cases hfails
  · rintro ⟨⟨hnamed, hdiffs, hok⟩, hwarned⟩
    refine ⟨⟨hnamed, fun id hid => ?_⟩, hok⟩
    obtain ⟨hex, bytes, o, h, hkind⟩ := hdiffs id hid
    refine ⟨hex, bytes, o, h, hkind, fun signature hmem => ?_⟩
    by_contra hfails
    exact hwarned ⟨id, hid, hex, bytes, o, h.spelled, h.found, h.parsed, signature, hmem,
      Bool.eq_false_iff.mpr hfails⟩

/-- The patches that the loop looks at. -/
def livePatches (retired : List String) (patches : List (Listed PreparedPatch)) :
    List PreparedPatch :=
  (patches.map Listed.body).filter fun patch => patch.patchId ∉ retired

open Classical in
/-- The patches without findings. -/
noncomputable def accepted (T : Tools) (s : ObjectStore) (patch : PreparedPatch) : Bool :=
  decide (InOrder T s patch ∧ ¬ DiffWarned T.toCrates s patch)

theorem accepted_iff : accepted T s patch = true ↔
    InOrder T s patch ∧ ¬ DiffWarned T.toCrates s patch := by
  simp only [accepted, decide_eq_true_eq]

def PatchTally.withoutDiagnostics (tally : PatchTally) : List SyncVerifyPatchDiagnostic :=
  tally.invalidPatches.map fun d => { d with diagnostics := [] }

/-- What the loop over some live patches makes of a tally. -/
structure Counted (T : Tools) (s : ObjectStore) (live : List PreparedPatch) (retiredCount : Nat)
    (tally tally' : PatchTally) : Prop where
  valid : tally'.validPatchCount = tally.validPatchCount + live.countP (accepted T s)
  retired : tally'.retiredPatchCount = tally.retiredPatchCount + retiredCount
  invalid : tally'.withoutDiagnostics = tally.withoutDiagnostics ++
    (live.filter fun patch => !accepted T s patch).map invalidPatch

theorem PatchTally.add_counted {tally : PatchTally} {ds : List String}
    (hnil : ds = [] ↔ accepted T s patch = true) :
    Counted T s [patch] 0 tally (tally.add patch ds) := by
  by_cases hds : ds = []
  · have hok := hnil.mp hds
    rw [PatchTally.add, if_pos hds]
    exact ⟨by simp [hok], rfl, by simp [hok, withoutDiagnostics]⟩
  · have hnot : accepted T s patch = false := Bool.eq_false_iff.mpr fun h => hds (hnil.mpr h)
    rw [PatchTally.add, if_neg hds]
    exact ⟨by simp [hnot], rfl, by simp [hnot, withoutDiagnostics, invalidPatch]⟩

theorem Counted.trans {live live' : List PreparedPatch} {n n' : Nat}
    {tally tally' tally'' : PatchTally} (h : Counted T s live n tally tally')
    (h' : Counted T s live' n' tally' tally'') :
    Counted T s (live ++ live') (n + n') tally tally'' where
  valid := by rw [h'.valid, h.valid, List.countP_append, Nat.add_assoc]
  retired := by rw [h'.retired, h.retired, Nat.add_assoc]
  invalid := by
    rw [h'.invalid, h.invalid, List.filter_append, List.map_append, List.append_assoc]

theorem verifyPatches_counted (hs : Restored T.toCrates s) {retired : List String}
    {patches : List (Listed PreparedPatch)} {tally tally' : PatchTally}
    (hrun : (verifyPatches T retired patches tally).run exec s = (.ok tally', s')) :
    Counted T s (livePatches retired patches)
      ((patches.map Listed.body).countP fun patch => patch.patchId ∈ retired) tally tally' := by
  induction patches generalizing tally with
  | nil =>
    obtain rfl := Except.ok.inj (congrArg Prod.fst hrun)
    exact ⟨rfl, rfl, by simp [livePatches]⟩
  | cons entry rest ih =>
    obtain ⟨tally₁, s₁, hpatch, hrest⟩ := Prog.run_bind_inv exec hrun
    unfold verifyPatch at hpatch
    by_cases hretired : entry.body.patchId ∈ retired
    · rw [if_pos hretired] at hpatch
      obtain ⟨hresult, rfl⟩ := Prod.mk.inj hpatch
      obtain rfl := Except.ok.inj hresult
      obtain ⟨hvalid, hcount, hinvalid⟩ := ih hrest
      have hlive : livePatches retired (entry :: rest) = livePatches retired rest := by
        simp [livePatches, hretired]
      rw [hlive, List.map_cons, List.countP_cons_of_pos (by simpa using hretired)]
      exact ⟨hvalid, by rw [hcount]; dsimp only; omega, hinvalid⟩
    · rw [if_neg hretired] at hpatch
      obtain ⟨ds, s₂, hds, hadd⟩ := Prog.run_bind_inv exec hpatch
      obtain rfl := store_of_stays (patchDiagnostics_stays hs _) hds
      obtain ⟨hresult, rfl⟩ := Prod.mk.inj hadd
      obtain rfl := Except.ok.inj hresult
      have hone := @PatchTally.add_counted _ _ _ tally _
        ((patchDiagnostics_nil_iff hs hds).trans accepted_iff.symm)
      have hlive : livePatches retired (entry :: rest) = [entry.body] ++ livePatches retired rest := by
        simp [livePatches, hretired]
      have hall := hone.trans (ih hrest)
      rw [hlive, List.map_cons, List.countP_cons_of_neg (by simpa using hretired)]
      rw [Nat.zero_add] at hall
      exact hall

end Patches

/-! ## The report -/

section Report

variable {T : Tools} {s s' t : ObjectStore} {patch : PreparedPatch}

/-- The loop over the objects leaves the store with all of them verified. -/
theorem verifyEntries_store {entries : List ObjectListEntry} {tally tally' : ObjectTally}
    (hrun : (verifyEntries T entries tally).run exec s = (.ok tally', s')) :
    s' = verifiedAll T.toCrates (entries.map ObjectListEntry.objectId) s := by
  induction entries generalizing s tally with
  | nil => exact (congrArg Prod.snd hrun).symm
  | cons entry rest ih =>
    obtain ⟨tally₁, s₁, hentry, hrest⟩ := Prog.run_bind_inv exec hrun
    obtain ⟨expectedRef, s₂, hexpected, hentry⟩ := Prog.run_bind_inv exec hentry
    rw [Prog.run_ofExcept] at hexpected
    obtain ⟨-, rfl⟩ := Prod.mk.inj hexpected
    obtain ⟨verify, s₃, hverify, hadd⟩ := Prog.run_bind_inv exec hentry
    rw [Prog.run_mapFail_ok_iff] at hverify
    obtain ⟨-, rfl⟩ := Prod.mk.inj hadd
    have hs₃ : s₃ = verified T.toCrates entry.objectId s := by
      rw [verified, hverify]
    rw [ih hrest, hs₃]
    rfl

/-- The parts a report is put together from. -/
structure Reported (T : Tools) (s : ObjectStore) (report : SyncVerifyReport) where
  entries : List ObjectListEntry
  objects : ObjectTally
  patches : List (Listed PreparedPatch)
  retired : List String
  tally : PatchTally
  restored : Restored T.toCrates (listedVerified T.toCrates s)
  list : (listRefBackedObjects T.toCrates none).run exec s = (.ok entries, s)
  verify : (verifyEntries T entries ⟨0, 0, [], 0, 0⟩).run exec s =
    (.ok objects, listedVerified T.toCrates s)
  listPatches : (listPatches T).run exec (listedVerified T.toCrates s) =
    (.ok patches, listedVerified T.toCrates s)
  retiredPatchIds : (retiredPatchIds T).run exec (listedVerified T.toCrates s) =
    (.ok retired, listedVerified T.toCrates s)
  counted : Counted T (listedVerified T.toCrates s) (livePatches retired patches)
    ((patches.map Listed.body).countP fun patch => patch.patchId ∈ retired) ⟨0, 0, []⟩ tally
  report_eq : report = syncVerifyReport entries objects tally

theorem reported_of_run {report : SyncVerifyReport}
    (hrun : (buildSyncVerify T).run exec s = (.ok report, s')) : Nonempty (Reported T s report) := by
  obtain ⟨entries, s₁, hentries, hrun₁⟩ := Prog.run_bind_inv exec hrun
  rw [Prog.run_mapFail_ok_iff] at hentries
  obtain rfl := store_of_stays (list_stays _ _ _) hentries
  obtain ⟨objects, u, hobjects, hrun₂⟩ := Prog.run_bind_inv exec hrun₁
  obtain ⟨patches, s₂, hpatches, hrun₃⟩ := Prog.run_bind_inv exec hrun₂
  obtain ⟨retired, s₃, hretired, hrun₄⟩ := Prog.run_bind_inv exec hrun₃
  obtain ⟨tally, s₄, htally, hrun₅⟩ := Prog.run_bind_inv exec hrun₄
  have hlist := congrArg Prod.fst hentries
  have hu : u = listedVerified T.toCrates s₁ := by
    rw [verifyEntries_store hobjects, listedVerified, hlist]
  have hrestored : Restored T.toCrates u := by
    rw [verifyEntries_store hobjects]
    exact restored_verifiedAll hlist
  obtain rfl := store_of_stays (listPatches_stays hrestored) hpatches
  obtain rfl := store_of_stays (retiredPatchIds_stays hrestored) hretired
  subst hu
  exact ⟨⟨entries, objects, patches, retired, tally, hrestored, hentries, hobjects, hpatches,
    hretired, verifyPatches_counted hrestored htally,
    (Except.ok.inj (congrArg Prod.fst hrun₅)).symm⟩⟩

/-- What two runs that end well return is related. -/
theorem related_of_runs {ε α β : Type} {R : α → β → Prop} {p : Prog storeOps ε α}
    {q : Prog storeOps ε β} {a : α} {b : β} {u v : ObjectStore} (h : Prog.Relates exec (Resigned T.toCrates) R p q)
    (hst : Resigned T.toCrates s t) (hp : p.run exec s = (.ok a, u))
    (hq : q.run exec t = (.ok b, v)) : R a b ∧ Resigned T.toCrates u v := by
  obtain ⟨hr, huv⟩ := h s t hst
  rw [hp, hq] at hr huv
  cases hr with
  | ok h => exact ⟨h, huv⟩

theorem InOrder.resigned (h : Resigned T.toCrates s t) (ho : InOrder T s patch) :
    InOrder T t patch where
  named := ho.named
  diffs id hid := by
    obtain ⟨hex, bytes, o, hp, hkind⟩ := ho.diffs id hid
    obtain ⟨bytes', o', hp', hsame⟩ := h.passing hp
    exact ⟨hex, bytes', o', hp', by rw [hsame]; exact hkind⟩
  evidence := by
    obtain ⟨attempt, resolved, hattempt, hresolved⟩ := ho.evidence
    refine ⟨attempt, resolved, ?_, ?_⟩
    · rw [← ((findAttempt_relates T _) s t h).1.eq, hattempt]
    · rw [← ((resolvePatchDiff_relates T _ _) s t h).1.eq, hresolved]

/-- Verifying leaves what is held, so the signatures. -/
theorem diffWarned_same (hs : SameContent s s') :
    DiffWarned T.toCrates s' patch ↔ DiffWarned T.toCrates s patch := by
  have hone : ∀ {u v : ObjectStore}, SameContent u v → DiffWarned T.toCrates u patch →
      DiffWarned T.toCrates v patch := by
    rintro u v huv ⟨id, hid, hex, bytes, o, hhex, hbytes, ho, hfails⟩
    exact ⟨id, hid, hex, bytes, o, hhex, (huv.held hex (objectHex_length hhex)).trans hbytes, ho,
      hfails⟩
  exact ⟨hone hs.symm, hone hs⟩

/-- Where all elements of one image are kept on the one side, none of them is lost on the
    other. -/
theorem kept_of_filter_map_eq {α β : Type} [DecidableEq β] {P Q : α → Bool} {f : α → β}
    {l : List α} (h : (l.filter P).map f = (l.filter Q).map f) {x : α} (hx : x ∈ l)
    (hP : ∀ y ∈ l, f y = f x → P y = true) : Q x = true := by
  by_contra hQ
  have hmem : x ∈ l.filter fun y => f y = f x := List.mem_filter.mpr ⟨hx, by simp⟩
  have hone : ∀ R : α → Bool, (((l.filter R).map f).filter fun z => z = f x).length =
      ((l.filter fun y => f y = f x).filter R).length := by
    intro R
    rw [List.filter_map, List.length_map, List.filter_filter, List.filter_filter]
    congr 1
    refine List.filter_congr fun y _ => ?_
    rw [Bool.and_comm]
    rfl
  have hall : (l.filter fun y => f y = f x).filter P = l.filter fun y => f y = f x :=
    List.filter_eq_self.mpr fun y hy => by
      obtain ⟨hy, hf⟩ := List.mem_filter.mp hy
      exact hP y hy (of_decide_eq_true hf)
  have hless := List.length_filter_lt_length_iff_exists.mpr ⟨x, hmem, hQ⟩
  rw [← hone Q, ← h, hone P, hall] at hless
  exact absurd hless (lt_irrefl _)

/-- The lists of invalid patches agree exactly when the warnings do. -/
theorem invalid_eq_iff {v : ObjectStore} {live : List PreparedPatch}
    (hs : Resigned T.toCrates s v) :
    (live.filter fun patch => !accepted T v patch).map invalidPatch =
        (live.filter fun patch => !accepted T s patch).map invalidPatch ↔
      ∀ patch ∈ live, InOrder T s patch →
        (DiffWarned T.toCrates s patch ↔ DiffWarned T.toCrates v patch) := by
  have hrejected : ∀ {u : ObjectStore} {patch : PreparedPatch}, (!accepted T u patch) = true ↔
      (InOrder T u patch → DiffWarned T.toCrates u patch) := fun {u patch} => by
    rw [Bool.not_eq_true', Bool.eq_false_iff, ne_eq, accepted_iff, not_and_not_right]
  have horder : ∀ {patch : PreparedPatch}, InOrder T v patch ↔ InOrder T s patch := fun {patch} =>
    ⟨InOrder.resigned hs.symm, InOrder.resigned hs⟩
  constructor
  · -- a patch with the ids of one that is warned about is warned about
    have hone : ∀ {u w : ObjectStore}, (live.filter fun patch => !accepted T u patch).map
        invalidPatch = (live.filter fun patch => !accepted T w patch).map invalidPatch →
        ∀ patch ∈ live, InOrder T w patch → DiffWarned T.toCrates u patch →
          DiffWarned T.toCrates w patch := by
      intro u w heq patch hlive hin hwarned
      refine hrejected.mp (kept_of_filter_map_eq heq hlive fun other _ hsame => ?_) hin
      have hids : other.diffObjectIds = patch.diffObjectIds :=
        congrArg SyncVerifyPatchDiagnostic.diffObjectIds hsame
      refine hrejected.mpr fun _ => ?_
      unfold DiffWarned at hwarned ⊢
      rwa [hids]
    exact fun heq patch hlive hin =>
      ⟨hone heq.symm patch hlive (horder.mpr hin), hone heq patch hlive hin⟩
  · intro hall
    congr 1
    refine List.filter_congr fun patch hlive => ?_
    rw [Bool.eq_iff_iff, hrejected, hrejected, horder]
    exact ⟨fun h hin => (hall patch hlive hin).mpr (h hin),
      fun h hin => (hall patch hlive hin).mp (h hin)⟩

theorem withoutSignatures_eq_iff {es es' : List ObjectListEntry} {objects objects' : ObjectTally}
    {tally tally' : PatchTally} {v : ObjectStore} {live : List PreparedPatch} {n : Nat}
    (hes : es'.map ObjectListEntry.withoutBlob = es.map ObjectListEntry.withoutBlob)
    (hobjects : objects'.withoutSignatures = objects.withoutSignatures)
    (hc : Counted T s live n ⟨0, 0, []⟩ tally) (hc' : Counted T v live n ⟨0, 0, []⟩ tally') :
    (syncVerifyReport es' objects' tally').withoutSignatures =
        (syncVerifyReport es objects tally).withoutSignatures ↔
      (live.filter fun patch => !accepted T v patch).map invalidPatch =
        (live.filter fun patch => !accepted T s patch).map invalidPatch := by
  have hinvalid : tally.withoutDiagnostics =
      (live.filter fun patch => !accepted T s patch).map invalidPatch := hc.invalid
  have hinvalid' : tally'.withoutDiagnostics =
      (live.filter fun patch => !accepted T v patch).map invalidPatch := hc'.invalid
  rw [← hinvalid, ← hinvalid']
  constructor
  · intro h
    have hpatches := congrArg SyncVerifyReport.invalidPatches h
    exact hpatches
  · intro h
    have hlength : es'.length = es.length := by
      have hl := congrArg List.length hes
      rwa [List.length_map, List.length_map] at hl
    have hcount : tally'.invalidPatches.length = tally.invalidPatches.length := by
      have hl := congrArg List.length h
      rwa [PatchTally.withoutDiagnostics, PatchTally.withoutDiagnostics, List.length_map,
        List.length_map] at hl
    -- the patches that are not invalid are valid
    have hrest : ∀ (u : ObjectStore), live.countP (accepted T u) +
        (live.filter fun patch => !accepted T u patch).length = live.length := fun u => by
      rw [List.length_eq_countP_add_countP (l := live) (accepted T u),
        ← List.countP_eq_length_filter]
      congr 2
      funext patch
      simp
    have hvalid : tally'.validPatchCount = tally.validPatchCount := by
      have h₁ := hrest s
      have h₂ := hrest v
      have h₃ := congrArg List.length (hinvalid.symm.trans (h.symm.trans hinvalid'))
      rw [List.length_map, List.length_map] at h₃
      rw [hc.valid, hc'.valid]
      dsimp only
      omega
    have hretired : tally'.retiredPatchCount = tally.retiredPatchCount := by
      rw [hc.retired, hc'.retired]
    have hempty : tally'.invalidPatches = [] ↔ tally.invalidPatches = [] := by
      rw [← List.length_eq_zero_iff, hcount, List.length_eq_zero_iff]
    obtain ⟨valid, recoverable, invalid, signed, signatures⟩ := objects
    obtain ⟨valid', recoverable', invalid', signed', signatures'⟩ := objects'
    simp only [ObjectTally.withoutSignatures, ObjectTally.mk.injEq, and_true] at hobjects
    obtain ⟨rfl, rfl, rfl⟩ := hobjects
    unfold PatchTally.withoutDiagnostics at h
    simp only [syncVerifyReport, SyncVerifyReport.withoutSignatures, hlength, hcount, hvalid,
      hretired, hempty, h]

/-- Both reports are on the same patches. -/
theorem Reported.lists_eq {report report' : SyncVerifyReport} (r : Reported T s report)
    (h : Resigned T.toCrates s t) (r' : Reported T t report') :
    r'.patches.map Listed.body = r.patches.map Listed.body ∧ r'.retired = r.retired := by
  have hes := (related_of_runs (list_relates T.toCrates none) h r.list r'.list).1
  have huv := (related_of_runs (verifyEntries_relates T hes rfl) h r.verify r'.verify).2
  have hpatches := (related_of_runs (listPatches_relates T) huv r.listPatches r'.listPatches).1
  have hretired : r.retired = r'.retired :=
    (related_of_runs (retiredPatchIds_relates T) huv r.retiredPatchIds r'.retiredPatchIds).1
  have hbodies := congrArg (List.map Listed.body) hpatches
  rw [List.map_map, List.map_map] at hbodies
  exact ⟨hbodies, hretired.symm⟩

/-- Two stores that differ in signatures: no report is made of either and for the same
    reason, or the reports differ in what they say of signatures only, exactly when the
    warnings on the diff objects of the live patches in order agree. -/
theorem sync_verify_resigned {T : Tools} {s t : ObjectStore} (h : Resigned T.toCrates s t) :
    (∀ e, ((buildSyncVerify T).run exec s).1 = .error e →
      ((buildSyncVerify T).run exec t).1 = .error e) ∧
    ∀ report, ((buildSyncVerify T).run exec s).1 = .ok report →
      ∃ report', ((buildSyncVerify T).run exec t).1 = .ok report' ∧
        (report'.withoutSignatures = report.withoutSignatures ↔ SameDiffWarnings T s t) := by
  have halike := (buildSyncVerify_relates T s t h).1
  constructor
  · intro e he
    rw [he] at halike
    generalize ((buildSyncVerify T).run exec t).1 = r at halike ⊢
    cases halike
    rfl
  intro report hreport
  rw [hreport] at halike
  rcases hreport' : ((buildSyncVerify T).run exec t).1 with e | report'
  · rw [hreport'] at halike
    cases halike
  refine ⟨report', rfl, ?_⟩
  obtain ⟨s', hrun⟩ := Prog.exists_run_eq exec hreport
  obtain ⟨t', hrun'⟩ := Prog.exists_run_eq exec hreport'
  obtain ⟨r⟩ := reported_of_run hrun
  obtain ⟨r'⟩ := reported_of_run hrun'
  have hes := (related_of_runs (list_relates T.toCrates none) h r.list r'.list).1
  obtain ⟨hobjects, huv⟩ :=
    related_of_runs (verifyEntries_relates T hes rfl) h r.verify r'.verify
  obtain ⟨hbodies, hretired⟩ := r.lists_eq h r'
  have hcounted := r.counted
  have hcounted' := r'.counted
  unfold livePatches at hcounted hcounted'
  rw [hbodies, hretired] at hcounted'
  rw [r.report_eq, r'.report_eq, withoutSignatures_eq_iff hes hobjects hcounted hcounted',
    invalid_eq_iff huv]
  have hsu := (verifyEntries_run r.verify).1
  have htv := (verifyEntries_run r'.verify).1
  constructor
  · intro hall patches retired hp hr entry he hlive hin
    rw [r.listPatches] at hp
    rw [r.retiredPatchIds] at hr
    obtain rfl := Except.ok.inj hp
    obtain rfl := Except.ok.inj hr
    have hmem : entry.body ∈ (r.patches.map Listed.body).filter
        fun patch => patch.patchId ∉ r.retired :=
      List.mem_filter.mpr ⟨List.mem_map_of_mem he, decide_eq_true hlive⟩
    rw [← diffWarned_same hsu, ← diffWarned_same htv]
    exact hall _ hmem hin
  · intro hsame patch hmem hin
    obtain ⟨hbody, hlive⟩ := List.mem_filter.mp hmem
    obtain ⟨entry, he, rfl⟩ := List.mem_map.mp hbody
    rw [diffWarned_same hsu, diffWarned_same htv]
    exact hsame _ _ (congrArg Prod.fst r.listPatches) (congrArg Prod.fst r.retiredPatchIds) entry
      he (of_decide_eq_true hlive) hin

/-- A live patch with a failing signature on a diff object fails the report. -/
theorem status_of_diffWarned {report : SyncVerifyReport} (r : Reported T s report)
    {entry : Listed PreparedPatch} (he : entry ∈ r.patches)
    (hlive : entry.body.patchId ∉ r.retired) (hwarned : DiffWarned T.toCrates s entry.body) :
    report.status = "failed" := by
  have hs := (verifyEntries_run r.verify).1
  have hmem : entry.body ∈ livePatches r.retired r.patches :=
    List.mem_filter.mpr ⟨List.mem_map_of_mem he, decide_eq_true hlive⟩
  have hnot : (!accepted T (listedVerified T.toCrates s) entry.body) = true := by
    rw [Bool.not_eq_true', Bool.eq_false_iff]
    exact fun h => (accepted_iff.mp h).2 ((diffWarned_same hs).mpr hwarned)
  have hinvalid : r.tally.withoutDiagnostics ≠ [] := by
    rw [r.counted.invalid]
    exact List.ne_nil_of_mem (List.mem_append_right _
      (List.mem_map_of_mem (List.mem_filter.mpr ⟨hmem, hnot⟩)))
  have hsome : r.tally.invalidPatches ≠ [] := fun h => hinvalid (by
    rw [PatchTally.withoutDiagnostics, h]
    rfl)
  rw [r.report_eq, syncVerifyReport, if_neg fun h => hsome h.2]

end Report

/-! ## A diff object with a forged signature -/

section Forged

variable {X : Crates} {s : ObjectStore} {o : CanonicalObject}

/-- A cached object is given other signatures. -/
def resignCached (X : Crates) (o : CanonicalObject) (signatures : List ActorSignature)
    (s : ObjectStore) : ObjectStore :=
  match objectCachePath o.objectId with
  | .ok path => s.writeCache path (canonicalObjectBytes X { o with signatures })
  | .error _ => s

theorem resignedBlob_refl (X : Crates) (b : Bytes) : ResignedBlob X b b :=
  alike_refl (R := SameButSignatures) (fun _ => rfl) _

theorem resigned_resignCached (hX : ReadsBack X) (h : CachedOnly X o s)
    (signatures : List ActorSignature) : Resigned X s (resignCached X o signatures s) := by
  obtain ⟨m, -, hhex⟩ := objectHex_of_valid h.valid
  obtain ⟨href, hcontent⟩ := h.cached _ hhex
  have hcached := hcontent
  rw [content, href, Option.or_none] at hcached
  have hrefl : ∀ x : Option Bytes, Option.Rel (ResignedBlob X) x x := by
    rintro (_ | b)
    · exact .none
    · exact .some (resignedBlob_refl X b)
  rw [resignCached, objectCachePath_eq hhex]
  refine ⟨fun name => hrefl _, fun path => ?_, fun hex hl => ?_⟩
  · rw [ObjectStore.cache_writeCache]
    split
    · next heq =>
        rw [← heq, hcached]
        refine .some ?_
        unfold ResignedBlob
        rw [readObjectBytes_canonicalObjectBytes hX, readObjectBytes_canonicalObjectBytes hX]
        exact .ok rfl
    · exact hrefl _
  · by_cases he : (hexEncode (X.sha256 m)).toList = hex
    · -- there is no reference to compare
      subst he
      refine iff_of_true (fun blob _ _ hblob => ?_) fun blob _ _ hblob => ?_
      · cases href.symm.trans hblob
      · cases href.symm.trans hblob
    · have hpath : cachePathOf (hexEncode (X.sha256 m)).toList ≠ cachePathOf hex := fun heq => he
        (cachePathOf_inj ((objectHex_length hhex).trans hl.symm) heq)
      unfold RefCanonical content
      rw [ObjectStore.cache_writeCache, if_neg hpath, ObjectStore.refs_writeCache]

/-- With a signature that fails, it warns about the patches that name the object. -/
theorem diffWarned_resignCached {signature : ActorSignature} {patch : PreparedPatch}
    (hX : ReadsBack X) (h : CachedOnly X o s)
    (hnot : verifying X { o with signatures := [signature] }.canonical signature = false)
    (hid : o.objectId ∈ patch.diffObjectIds) :
    DiffWarned X (resignCached X o [signature] s) patch := by
  obtain ⟨m, -, hhex⟩ := objectHex_of_valid h.valid
  have hcontent : content (resignCached X o [signature] s) (hexEncode (X.sha256 m)).toList =
      some (canonicalObjectBytes X { o with signatures := [signature] }) := by
    rw [content, resignCached, objectCachePath_eq hhex]
    simp
  have hparsed := readObjectBytes_canonicalObjectBytes hX { o with signatures := [signature] }
  exact ⟨o.objectId, hid, _, _, _, hhex, hcontent, hparsed, signature,
    List.mem_singleton_self _, hnot⟩

theorem listedVerified_same (X : Crates) (s : ObjectStore) :
    SameContent s (listedVerified X s) := by
  have hall : ∀ (ids : List String) (s : ObjectStore), SameContent s (verifiedAll X ids s) := by
    intro ids
    induction ids with
    | nil => exact fun s => .refl s
    | cons id rest ih => exact fun s => (verifyCachedObject_keeps X id s).trans (ih _)
  unfold listedVerified
  split
  · exact hall _ _
  · exact .refl s

end Forged

/-- The store of a passing report, with the cached diff object signed by nobody. -/
def forgedDiffStore : ObjectStore :=
  resignCached .reference diffObject [forgedSignature] cachedDiffStore

theorem forgedDiffStore_resigned : Resigned .reference cachedDiffStore forgedDiffStore :=
  resigned_resignCached readsBack_reference refsOf_cachedDiffStore.2 _

theorem forgedDiffStore_warned : DiffWarned .reference forgedDiffStore examplePatch := by
  have hhead : examplePatch.diffObjectIds.head? = some diffObjectId := rfl
  refine diffWarned_resignCached readsBack_reference refsOf_cachedDiffStore.2
    (decide_eq_false fun h => forgedSignature_not_signs _ ⟨rfl, h⟩) ?_
  rw [diffObject_objectId]
  exact List.mem_of_mem_head? hhead

/-- The list of patches that the report on the store goes through has the patch. -/
theorem examplePatch_reported {report : SyncVerifyReport}
    (r : Reported .reference cachedDiffStore report) :
    examplePatch ∈ r.patches.map Listed.body ∧ examplePatch.patchId ∉ r.retired := by
  have hrefs := refsOf_cachedDiffStore.1.same (listedVerified_same .reference cachedDiffStore)
  obtain ⟨patches, hpatches, hall, hsome⟩ := listPatches_ok (T := .reference) readsBack_reference
    hrefs (P := fun patch => patch = examplePatch) fun o ho hk => by
      rw [(patchObjects_cases ho).1 hk]
      exact ⟨examplePatch, ofValue_patchBody, rfl⟩
  obtain ⟨retired, hretired, hnone⟩ := retiredPatchIds_ok (T := .reference) readsBack_reference
    hrefs fun o ho hk => absurd hk (patchObjects_cases ho).2
  obtain ⟨entry, he⟩ := hsome _ List.mem_cons_self rfl
  have hp : r.patches = patches :=
    Except.ok.inj ((congrArg Prod.fst r.listPatches).symm.trans hpatches)
  have hr : r.retired = retired :=
    Except.ok.inj ((congrArg Prod.fst r.retiredPatchIds).symm.trans hretired)
  rw [hp, hr]
  refine ⟨List.mem_map.mpr ⟨entry, he, hall entry he⟩, fun hid => ?_⟩
  obtain ⟨o, ho, hk⟩ := hnone _ hid
  exact (patchObjects_cases ho).2 hk

/-- The signature turns the status from `ok` to `failed`. -/
theorem forgedDiff_fails : Resigned .reference cachedDiffStore forgedDiffStore ∧
    ∃ report report', ((buildSyncVerify .reference).run exec cachedDiffStore).1 = .ok report ∧
      ((buildSyncVerify .reference).run exec forgedDiffStore).1 = .ok report' ∧
      report.status = "ok" ∧ report'.status = "failed" := by
  obtain ⟨report, s', hrun, hok⟩ := cachedDiff_passes
  have halike := (buildSyncVerify_relates .reference _ _ forgedDiffStore_resigned).1
  rw [hrun] at halike
  rcases hreport' : ((buildSyncVerify .reference).run exec forgedDiffStore).1 with e | report'
  · rw [hreport'] at halike
    cases halike
  refine ⟨forgedDiffStore_resigned, report, report', congrArg Prod.fst hrun, rfl, hok, ?_⟩
  obtain ⟨t', hrun'⟩ := Prog.exists_run_eq exec hreport'
  obtain ⟨r⟩ := reported_of_run hrun
  obtain ⟨r'⟩ := reported_of_run hrun'
  obtain ⟨hpatch, hlive⟩ := examplePatch_reported r
  obtain ⟨hbodies, hretired⟩ := r.lists_eq forgedDiffStore_resigned r'
  rw [← hbodies] at hpatch
  obtain ⟨entry, he, hbody⟩ := List.mem_map.mp hpatch
  refine status_of_diffWarned r' he ?_ ?_
  · rw [hbody, hretired]
    exact hlive
  · rw [hbody]
    exact forgedDiffStore_warned

/-- The equivalence at these stores. -/
theorem forgedDiff_resigned : ∃ report report',
    ((buildSyncVerify .reference).run exec cachedDiffStore).1 = .ok report ∧
      ((buildSyncVerify .reference).run exec forgedDiffStore).1 = .ok report' ∧
      (report'.withoutSignatures = report.withoutSignatures ↔
        SameDiffWarnings .reference cachedDiffStore forgedDiffStore) := by
  obtain ⟨report, s', hrun, -⟩ := cachedDiff_passes
  obtain ⟨report', hreport', hiff⟩ :=
    (sync_verify_resigned forgedDiffStore_resigned).2 report (congrArg Prod.fst hrun)
  exact ⟨report, report', congrArg Prod.fst hrun, hreport', hiff⟩

end RickydataGit.Cli
