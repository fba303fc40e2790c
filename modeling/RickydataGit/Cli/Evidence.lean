/-
  Only recorded diffs are used.

  `RecordedDiff`: what a diff that was resolved has passed, whatever the objects in the
  store say: it has the hash and the length it is reported with, the hash is one of the
  patch, and a diff object that the patch names has its kind, its id, its attempt and its
  base commit (`resolvePatchDiff_recorded`).

  `Uses`: what a command did outside. It failed before it did anything, or all files it
  wrote hold the resolved diff, every file it gave to git held that diff at the time
  (`PassesOn`), and it delivered the diff when it succeeded. The invariant of the log is
  carried through the commands by one rule for each operation.
-/
import RickydataGit.Lib.Triple
import RickydataGit.Cli.Outside

namespace RickydataGit.Cli

open RickydataGit.Lib RickydataGit.Core RickydataGit.Git

/-! ## Checks -/

section Checks

variable {ε α β : Type} {a : α} {b : β} {e : ε}

/-- Past a check, the condition that fails it does not hold. -/
theorem of_check {c : Prop} [Decidable c] {x : Except ε α}
    (h : (if c then .error e else x) = .ok a) : ¬ c ∧ x = .ok a := by
  split at h
  · cases h
  · next hc => exact ⟨hc, h⟩

theorem of_bind {x : Except ε α} {f : α → Except ε β} (h : (x >>= f) = .ok b) :
    ∃ a, x = .ok a ∧ f a = .ok b := by
  rcases x with e | a
  · cases h
  · exact ⟨a, rfl, h⟩

end Checks

/-! ## Resolved diffs -/

section Resolved

variable {T : Tools} {patch : PreparedPatch} {resolved : ResolvedPatchDiff} {s s' : ObjectStore}

/-- A record of the diff that belongs to the patch. -/
structure OwnDiff (patch : PreparedPatch) (resolved : ResolvedPatchDiff)
    (object : CanonicalObject) (patchDiff : PatchDiff) : Prop where
  kind : object.kind = "agent.patch_diff"
  body : PatchDiff.ofValue object.body = some patchDiff
  patchId : patchDiff.patchId = patch.patchId
  attemptId : patchDiff.attemptId = patch.attemptId
  baseCommit : patchDiff.baseCommit = patch.baseCommit
  decoded : decodeHex patchDiff.encodedDiff = .ok resolved.rawDiff

structure RecordedDiff (T : Tools) (patch : PreparedPatch) (resolved : ResolvedPatchDiff)
    (s : ObjectStore) : Prop where
  hash : hashText T.toCrates resolved.rawDiff = resolved.diffHash
  listed : resolved.diffHash ∈ patch.diffHashes
  length : UInt64.ofNat resolved.rawDiff.length = resolved.diffBytes
  object : ∀ diffObjectId, patch.diffObjectIds.head? = some diffObjectId →
    ∃ report t patchDiff, (readCachedObject T.toCrates diffObjectId).run exec s = (.ok report, t) ∧
      OwnDiff patch resolved report.object patchDiff

theorem checkedPatchDiff_ok {diffObjectId : String} {object : CanonicalObject}
    (h : checkedPatchDiff T patch diffObjectId object = .ok resolved) :
    hashText T.toCrates resolved.rawDiff = resolved.diffHash ∧
      resolved.diffHash ∈ patch.diffHashes ∧
      UInt64.ofNat resolved.rawDiff.length = resolved.diffBytes ∧
      ∃ patchDiff, OwnDiff patch resolved object patchDiff := by
  obtain ⟨hkind, h⟩ := of_check h
  obtain ⟨patchDiff, hbody, h⟩ := of_bind h
  obtain ⟨hpatchId, h⟩ := of_check h
  obtain ⟨hattemptId, h⟩ := of_check h
  obtain ⟨hbaseCommit, h⟩ := of_check h
  obtain ⟨-, h⟩ := of_check h
  obtain ⟨hlisted, h⟩ := of_check h
  obtain ⟨rawDiff, hraw, h⟩ := of_bind h
  obtain ⟨hhash, h⟩ := of_check h
  obtain ⟨hlength, h⟩ := of_check h
  obtain rfl := Except.ok.inj h
  have hvalue : PatchDiff.ofValue object.body = some patchDiff := by
    unfold bodyOf at hbody
    split at hbody
    · cases hbody
    · next found hfound =>
        obtain rfl := Except.ok.inj hbody
        exact hfound
  exact ⟨not_not.mp hhash, not_not.mp hlisted, not_not.mp hlength, patchDiff, not_not.mp hkind,
    hvalue, not_not.mp hpatchId, not_not.mp hattemptId, not_not.mp hbaseCommit, hraw⟩

/-- Whatever is in the store and in the work tree, a diff that is resolved is recorded. -/
theorem resolvePatchDiff_recorded {env : Environment} {attempt : AgentAttempt}
    (hrun : (resolvePatchDiff (toolsIn T env) patch attempt).run exec s = (.ok resolved, s')) :
    RecordedDiff T patch resolved s := by
  unfold resolvePatchDiff at hrun
  split at hrun
  · next diffObjectId hhead =>
      obtain ⟨report, t, hread, hrun⟩ := Prog.run_bind_inv exec hrun
      rw [Prog.run_mapFail_ok_iff] at hread
      rw [Prog.run_ofExcept] at hrun
      obtain ⟨hhash, hlisted, hlength, patchDiff, hown⟩ :=
        checkedPatchDiff_ok (congrArg Prod.fst hrun)
      refine ⟨hhash, hlisted, hlength, fun id hid => ?_⟩
      rw [hhead] at hid
      obtain rfl := Option.some.inj hid
      exact ⟨report, t, patchDiff, hread, hown⟩
  · next hhead =>
      rw [Prog.run_ofExcept] at hrun
      obtain ⟨detected, hdetected, h⟩ := of_bind (congrArg Prod.fst hrun)
      obtain ⟨hlisted, h⟩ := of_check h
      obtain rfl := Except.ok.inj h
      -- the hash and the length are computed from the diff that git printed
      obtain ⟨git, -, rfl⟩ : ∃ git, env.gitDiff attempt = .ok git ∧
          (worktreeDiff T git).toDetectedDiff = detected := by
        rcases hgit : env.gitDiff attempt with e | git
        · simp [toolsIn, detectAttemptDiff, hgit, Except.map] at hdetected
        · simp only [toolsIn, detectAttemptDiff, hgit, Except.map] at hdetected
          exact ⟨git, rfl, Except.ok.inj hdetected⟩
      refine ⟨rfl, not_not.mp hlisted, rfl, fun id hid => ?_⟩
      rw [hhead] at hid
      cases hid

end Resolved

/-! ## The log -/

/-- What a file holds after these operations, if one of them wrote it. -/
def lastWritten (file : String) : List OutsideOp → Option Bytes
  | [] => none
  | .writeFile path bytes :: rest =>
    lastWritten file rest <|> if path = file then some bytes else none
  | _ :: rest => lastWritten file rest

theorem lastWritten_append (file : String) (log log' : List OutsideOp) :
    lastWritten file (log ++ log') = (lastWritten file log' <|> lastWritten file log) := by
  induction log with
  | nil => simp [lastWritten]
  | cons o rest ih =>
    cases o with
    | writeFile path bytes =>
      simp only [List.cons_append, lastWritten, ih]
      cases lastWritten file log' <;> rfl
    | _ => exact ih

theorem mem_of_lastWritten {file : String} {bytes : Bytes} {log : List OutsideOp}
    (h : lastWritten file log = some bytes) : .writeFile file bytes ∈ log := by
  induction log with
  | nil => cases h
  | cons o rest ih =>
    cases o with
    | writeFile path b =>
      rw [lastWritten, Option.orElse_eq_some] at h
      rcases h with h | ⟨-, h⟩
      · exact List.mem_cons_of_mem _ (ih h)
      · obtain ⟨rfl, rfl⟩ : path = file ∧ b = bytes := by simpa using h
        exact List.mem_cons_self
    | _ => exact List.mem_cons_of_mem _ (ih h)

/-- All files that were written hold the bytes, and git was given only files that held
    them at the time. -/
structure PassesOn (bytes : Bytes) (log : List OutsideOp) : Prop where
  writes : ∀ path b, .writeFile path b ∈ log → b = bytes
  applies : ∀ before after directory file check,
    log = before ++ .gitApply directory file check :: after → lastWritten file before = some bytes

theorem passesOn_nil (bytes : Bytes) : PassesOn bytes [] where
  writes _ _ h := nomatch h
  applies before after _ _ _ h := by simp at h

/-- One more operation. -/
theorem PassesOn.concat {bytes : Bytes} {log : List OutsideOp} (h : PassesOn bytes log) {o : OutsideOp}
    (hwrite : ∀ path b, o = .writeFile path b → b = bytes)
    (happly : ∀ directory file check, o = .gitApply directory file check →
      lastWritten file log = some bytes) : PassesOn bytes (log ++ [o]) where
  writes path b hb := by
    rcases List.mem_append.mp hb with hb | hb
    · exact h.writes path b hb
    · exact hwrite path b (List.mem_singleton.mp hb).symm
  applies before after directory file check hlog := by
    rcases List.eq_nil_or_concat after with rfl | ⟨after, o', rfl⟩
    · obtain ⟨rfl, ho⟩ := List.append_inj' hlog rfl
      exact happly directory file check (List.singleton_injective ho)
    · rw [List.concat_eq_append, ← List.cons_append, ← List.append_assoc] at hlog
      exact h.applies before after directory file check (List.append_inj' hlog rfl).1

/-- The log passes the bytes after a program, if it did before. -/
def KeepsPassing (bytes : Bytes) (w w' : ObjectStore × List OutsideOp) : Prop :=
  PassesOn bytes w.2 → PassesOn bytes w'.2

instance (bytes : Bytes) : Std.Refl (KeepsPassing bytes) := ⟨fun _ h => h⟩

instance (bytes : Bytes) : IsTrans (ObjectStore × List OutsideOp) (KeepsPassing bytes) :=
  ⟨fun _ _ _ h h' hlog => h' (h hlog)⟩

section Rules

variable {α : Type} {answers : Answers} {bytes : Bytes} {w : ObjectStore × List OutsideOp}

/-- A part of a command keeps the log passing, and ends in `Q` of its result. -/
abbrev KeepsLog (answers : Answers) (bytes : Bytes) (p : PatchCommand α)
    (Q : α → ObjectStore × List OutsideOp → Prop) (w : ObjectStore × List OutsideOp) : Prop :=
  Prog.Ensures (Prog.execPlus exec (outsideExec answers)) (fun _ => True) (KeepsPassing bytes) p Q w

theorem keepsLog_inStore (c : Command α) :
    KeepsLog answers bytes (inStore c) (fun _ w' => w'.2 = w.2) w := by
  have hrun := Prog.run_liftLeft exec (outsideExec answers) c w
  refine fun _ => ?_
  rw [inStore, hrun]
  exact ⟨fun h => h, fun _ _ => rfl⟩

theorem keepsLog_outside {o : OutsideOp} {k : outsideOps.Ans o → PatchCommand α}
    {Q : α → ObjectStore × List OutsideOp → Prop}
    (hlog : KeepsPassing bytes w (w.1, w.2 ++ [o]))
    (hk : ∀ a, KeepsLog answers bytes (k a) Q (w.1, w.2 ++ [o])) :
    KeepsLog answers bytes (.op (.inr o) k) Q w :=
  Prog.Ensures.op hlog (hk _)

/-- An operation that neither writes a file nor gives one to git. -/
theorem keepsLog_quiet {o : OutsideOp} {k : outsideOps.Ans o → PatchCommand α}
    (hwrite : ∀ path b, o ≠ .writeFile path b)
    (happly : ∀ directory file check, o ≠ .gitApply directory file check)
    (hk : ∀ a w, KeepsLog answers bytes (k a) (fun _ _ => True) w) :
    KeepsLog answers bytes (.op (.inr o) k) (fun _ _ => True) w :=
  keepsLog_outside (fun h => h.concat (fun path b ho => absurd ho (hwrite path b))
    fun directory file check ho => absurd ho (happly directory file check)) fun a => hk a _

theorem keepsLog_ofExcept (x : Except CliError α) :
    KeepsLog answers bytes (Prog.ofExcept x) (fun _ _ => True) w :=
  Prog.ensures_ofExcept fun _ _ => trivial

/-- A check keeps what holds in front of it. -/
theorem keepsLog_check {P : ObjectStore × List OutsideOp → Prop} (x : Except CliError α) (h : P w) :
    KeepsLog answers bytes (Prog.ofExcept x) (fun _ => P) w :=
  Prog.ensures_ofExcept fun _ _ => h

theorem keepsLog_createDirAll (path : String) :
    KeepsLog answers bytes (createDirAll path) (fun _ _ => True) w :=
  keepsLog_quiet nofun nofun fun answer _ => keepsLog_ofExcept answer

theorem keepsLog_createParent (path : String) :
    KeepsLog answers bytes (createParent path) (fun _ _ => True) w :=
  keepsLog_quiet nofun nofun fun answer _ => keepsLog_ofExcept answer

theorem keepsLog_writeFile (path : String) :
    KeepsLog answers bytes (writeFile path bytes)
      (fun _ w' => lastWritten path w'.2 = some bytes) w := by
  refine keepsLog_outside (fun h => h.concat ?_ nofun) fun answer =>
    Prog.ensures_ofExcept fun _ _ => ?_
  · rintro _ _ ⟨⟩
    rfl
  · rw [lastWritten_append]
    simp [lastWritten]

theorem keepsLog_gitApplyFile {directory file : String} {check : Bool}
    (hfile : lastWritten file w.2 = some bytes) :
    KeepsLog answers bytes (gitApplyFile directory file check) (fun _ w' =>
      lastWritten file w'.2 = some bytes ∧ .gitApply directory file check ∈ w'.2) w := by
  refine keepsLog_outside (fun h => h.concat nofun ?_) fun answer =>
    Prog.ensures_ofExcept fun _ _ => ⟨?_, by simp⟩
  · rintro _ _ _ ⟨⟩
    exact hfile
  · rw [lastWritten_append, hfile]
    rfl

theorem keepsLog_tempPatchFile (site : Site) (patchId : String) :
    KeepsLog answers bytes (tempPatchFile site patchId bytes)
      (fun path w' => lastWritten path w'.2 = some bytes) w := by
  refine (keepsLog_ofExcept _).bind fun gitDir _ _ _ => ?_
  refine (keepsLog_ofExcept _).bind fun hex _ _ _ => ?_
  refine (keepsLog_createDirAll _).bind fun _ _ _ _ => ?_
  refine (keepsLog_ofExcept _).bind fun digits _ _ _ => ?_
  refine (keepsLog_ofExcept _).bind fun nowMs _ _ _ => ?_
  exact (keepsLog_writeFile _).bind fun _ _ _ hfile => Prog.ensures_ret hfile

theorem keepsLog_prepareReviewCheckoutPath (checkoutPath patchId : String) (force : Bool) :
    KeepsLog answers bytes (prepareReviewCheckoutPath checkoutPath patchId force)
      (fun _ _ => True) w := by
  refine keepsLog_quiet nofun nofun fun found w => ?_
  show KeepsLog answers bytes (if found = true then _ else _) _ w
  split
  · split
    · exact Prog.ensures_fail
    · refine keepsLog_quiet nofun nofun fun marker w => ?_
      refine (keepsLog_ofExcept _).bind fun marker w _ _ => ?_
      split
      · exact Prog.ensures_fail
      · refine keepsLog_quiet nofun nofun fun answer w => ?_
        exact (keepsLog_ofExcept _).bind fun _ _ _ _ => Prog.ensures_ret trivial
  · exact Prog.ensures_ret trivial

theorem keepsLog_addReviewWorktree (path baseCommit : String) :
    KeepsLog answers bytes (addReviewWorktree path baseCommit) (fun _ _ => True) w :=
  (keepsLog_createParent path).bind fun _ _ _ _ =>
    keepsLog_quiet nofun nofun fun answer _ => keepsLog_ofExcept answer

theorem keepsLog_fillCheckout (env : Environment) (patch : PreparedPatch) (attempt : AgentAttempt)
    (resolved : ResolvedPatchDiff) (checkoutPath : String) {patchFile : String}
    (hfile : lastWritten patchFile w.2 = some bytes) :
    KeepsLog answers bytes (fillCheckout env patch attempt resolved checkoutPath patchFile)
      (fun _ w' => .gitApply checkoutPath patchFile false ∈ w'.2) w := by
  refine (keepsLog_gitApplyFile hfile).bind fun _ w _ hfile => ?_
  refine (keepsLog_gitApplyFile hfile.1).bind fun _ w _ hgit => ?_
  refine (keepsLog_check (P := fun w => .gitApply checkoutPath patchFile false ∈ w.2) _ hgit.2).bind
    fun createdAtMs w _ hgit => ?_
  refine keepsLog_outside (fun h => h.concat nofun nofun) fun answer => ?_
  refine keepsLog_check (P := fun w => .gitApply checkoutPath patchFile false ∈ w.2) answer ?_
  exact List.mem_append_left _ hgit

end Rules

/-! ## The commands -/

section Commands

variable (T : Tools) (env : Environment) (site : Site) (answers : Answers) (s : ObjectStore)

/-- The diff that the evidence in a store gives for a patch id. -/
def GivesDiff (patchId : String) (bytes : Bytes) : Prop :=
  ∃ patch attempt resolved t u, (selectPatch T patchId).run exec s = (.ok (patch, attempt), t) ∧
    (resolvePatchDiff (toolsIn T env) patch attempt).run exec t = (.ok resolved, u) ∧
    resolved.rawDiff = bytes

/-- A run of a command, with the log of what it did outside. -/
def runLogged {α : Type} (p : PatchCommand α) : Except CliError α × ObjectStore × List OutsideOp :=
  p.run (Prog.execPlus exec (outsideExec answers)) (s, [])

/-- A command that fails before it does anything outside, or passes on bytes of this kind only,
    and has delivered them when it succeeds. -/
def Uses {α : Type} (D : Bytes → Prop) (delivers : α → List OutsideOp → Prop)
    (p : PatchCommand α) : Prop :=
  let r := runLogged answers s p
  ((∃ e, r.1 = .error e) ∧ r.2.2 = []) ∨
    ∃ bytes, D bytes ∧ PassesOn bytes r.2.2 ∧ ∀ report, r.1 = .ok report → delivers report r.2.2

variable {answers s} {α β : Type} {D : Bytes → Prop} {delivers : β → List OutsideOp → Prop}

theorem uses_fail (e : CliError) : Uses answers s D delivers (.fail e : PatchCommand β) :=
  .inl ⟨⟨e, rfl⟩, rfl⟩

theorem uses_bind_inStore {c : Command α} {f : α → PatchCommand β}
    (h : ∀ a t, c.run exec s = (.ok a, t) → Uses answers t D delivers (f a)) :
    Uses answers s D delivers (inStore c >>= f) := by
  have hlift := Prog.run_liftLeft exec (outsideExec answers) c (s, [])
  rcases hrun : c.run exec s with ⟨e | a, t⟩
  · rw [hrun] at hlift
    rw [Uses, runLogged, inStore, Prog.run_bind_error _ hlift]
    exact .inl ⟨⟨e, rfl⟩, rfl⟩
  · rw [hrun] at hlift
    have hlog : runLogged answers s (inStore c >>= f) = runLogged answers t (f a) := by
      rw [runLogged, inStore, Prog.run_bind_ok _ hlift]
      rfl
    rw [Uses, hlog]
    exact h a t hrun

theorem uses_bind_ofExcept {x : Except CliError α} {f : α → PatchCommand β}
    (h : ∀ a, x = .ok a → Uses answers s D delivers (f a)) :
    Uses answers s D delivers (liftM x >>= f) := by
  rcases x with e | a
  · exact uses_fail e
  · exact h a rfl

theorem uses_of_keepsLog {bytes : Bytes} (hbytes : D bytes) {p : PatchCommand β}
    (h : KeepsLog answers bytes p (fun report w => delivers report w.2) (s, [])) :
    Uses answers s D delivers p := by
  obtain ⟨hkeeps, hdelivers⟩ := h fun _ _ => trivial
  exact .inr ⟨bytes, hbytes, hkeeps (passesOn_nil bytes), hdelivers⟩

theorem diffFor_ok {T : Tools} {env : Environment} {patch : PreparedPatch}
    {attempt : AgentAttempt} {purpose : String} {resolved : ResolvedPatchDiff} {t : ObjectStore}
    (hrun : (diffFor T env patch attempt purpose).run exec s = (.ok resolved, t)) :
    (resolvePatchDiff (toolsIn T env) patch attempt).run exec s = (.ok resolved, t) := by
  obtain ⟨found, u, hresolved, hrun⟩ := Prog.run_bind_inv exec hrun
  split at hrun
  · cases hrun
  · cases hrun
    exact hresolved

variable (answers s)

theorem keepsLog_applyResolved (input : PatchApplyInput) (patch : PreparedPatch)
    (attempt : AgentAttempt) (headCommit : String) (resolved : ResolvedPatchDiff)
    (w : ObjectStore × List OutsideOp) :
    KeepsLog answers resolved.rawDiff
      (applyResolved T env site input patch attempt headCommit resolved)
      (fun report w => report.applied = true → ∃ file, .gitApply site.repo file false ∈ w.2) w := by
  refine (keepsLog_tempPatchFile site patch.patchId).bind fun patchFile w _ hfile => ?_
  refine (keepsLog_inStore _).bind fun replay w' _ hlog => ?_
  rw [← hlog] at hfile
  split
  · exact Prog.ensures_ret nofun
  · refine (keepsLog_check (P := fun w => lastWritten patchFile w.2 = some resolved.rawDiff)
      _ hfile).bind fun _ w' _ hfile => ?_
    refine (keepsLog_gitApplyFile hfile).bind fun _ w' _ hfile => ?_
    refine (keepsLog_gitApplyFile hfile.1).bind fun _ w' _ hgit => ?_
    refine (keepsLog_check (P := fun w => .gitApply site.repo patchFile false ∈ w.2) _ hgit.2).bind
      fun appliedAtMs w' _ hgit => ?_
    refine (keepsLog_inStore _).bind fun object w'' _ hlog => Prog.ensures_ret fun _ => ?_
    exact ⟨patchFile, hlog ▸ hgit⟩

/-- An application that is not a replay had git apply a file in the repository. -/
theorem applyPatch_uses (input : PatchApplyInput) :
    Uses answers s (GivesDiff T env s input.patchId)
      (fun report log => report.applied = true → ∃ file, .gitApply site.repo file false ∈ log)
      (applyPatch T env site input) := by
  refine uses_bind_inStore fun ⟨patch, attempt⟩ t hselect => ?_
  refine uses_bind_ofExcept fun headCommit _ => ?_
  refine uses_bind_inStore fun resolved u hdiff => ?_
  exact uses_of_keepsLog ⟨patch, attempt, resolved, t, u, hselect, diffFor_ok hdiff, rfl⟩
    (keepsLog_applyResolved T env site answers input patch attempt headCommit resolved _)

/-- An export wrote the output. -/
theorem exportPatch_uses (input : PatchExportInput) :
    Uses answers s (GivesDiff T env s input.patchId)
      (fun report log => ∃ bytes, .writeFile report.outputPath bytes ∈ log)
      (exportPatch T env input) := by
  refine uses_bind_inStore fun ⟨patch, attempt⟩ t hselect => ?_
  refine uses_bind_inStore fun resolved u hdiff => ?_
  refine uses_of_keepsLog ⟨patch, attempt, resolved, t, u, hselect, diffFor_ok hdiff, rfl⟩ ?_
  refine keepsLog_outside (fun h => h.concat nofun nofun) fun overwritten => ?_
  show KeepsLog answers _ (if _ then _ else _) _ _
  split
  · exact Prog.ensures_fail
  · refine (keepsLog_createParent _).bind fun _ w _ _ => ?_
    exact (keepsLog_writeFile _).bind fun _ _ _ hfile =>
      Prog.ensures_ret ⟨resolved.rawDiff, mem_of_lastWritten hfile⟩

/-- A checkout had git apply a file in the new work tree. -/
theorem checkoutPatch_uses (input : PatchCheckoutInput) :
    Uses answers s (GivesDiff T env s input.patchId)
      (fun report log => ∃ file, .gitApply report.checkoutPath file false ∈ log)
      (checkoutPatch T env site input) := by
  refine uses_bind_inStore fun ⟨patch, attempt⟩ t hselect => ?_
  refine uses_bind_ofExcept fun headCommit _ => ?_
  refine uses_bind_inStore fun resolved u hdiff => ?_
  refine uses_of_keepsLog ⟨patch, attempt, resolved, t, u, hselect, diffFor_ok hdiff, rfl⟩ ?_
  refine (keepsLog_ofExcept _).bind fun checkoutPath w _ _ => ?_
  refine (keepsLog_prepareReviewCheckoutPath checkoutPath patch.patchId input.force).bind
    fun replaced w _ _ => ?_
  refine (keepsLog_addReviewWorktree checkoutPath patch.baseCommit).bind fun _ w _ _ => ?_
  refine (keepsLog_tempPatchFile site patch.patchId).bind fun patchFile w _ hfile => ?_
  refine (keepsLog_fillCheckout env patch attempt resolved checkoutPath hfile).attempt.bind
    fun result w _ hgit => ?_
  split
  · exact keepsLog_outside (fun h => h.concat nofun nofun) fun _ => Prog.ensures_fail
  · exact Prog.ensures_ret ⟨patchFile, hgit () rfl⟩

/-- Resolved diffs are recorded ones, and the commands pass on those and nothing else. -/
theorem only_recorded_diffs_used :
    (∀ patch attempt resolved t,
      (resolvePatchDiff (toolsIn T env) patch attempt).run exec s = (.ok resolved, t) →
        RecordedDiff T patch resolved s) ∧
    (∀ input : PatchExportInput, Uses answers s (GivesDiff T env s input.patchId)
      (fun report log => ∃ bytes, .writeFile report.outputPath bytes ∈ log)
      (exportPatch T env input)) ∧
    (∀ input : PatchApplyInput, Uses answers s (GivesDiff T env s input.patchId)
      (fun report log => report.applied = true → ∃ file, .gitApply site.repo file false ∈ log)
      (applyPatch T env site input)) ∧
    (∀ input : PatchCheckoutInput, Uses answers s (GivesDiff T env s input.patchId)
      (fun report log => ∃ file, .gitApply report.checkoutPath file false ∈ log)
      (checkoutPatch T env site input)) :=
  ⟨fun _ _ _ _ hrun => resolvePatchDiff_recorded hrun, exportPatch_uses T env answers s,
    applyPatch_uses T env site answers s, checkoutPatch_uses T env site answers s⟩

/-- A work tree with a change, and a patch of that change. -/
theorem worktreeDiff_recorded :
    let git : GitDiff := ⟨[100, 105, 102, 102], "", "M\tREADME.md", ["README.md"]⟩
    let env : Environment := { quietEnvironment with gitDiff := fun _ => .ok git }
    let patch : PreparedPatch := {
      patchId := "sha256:p", intentId := "sha256:i", attemptId := "sha256:a", baseCommit := "b"
      changeIds := [], runIds := [], filePaths := [], diffHashes := [hashText .reference git.diff]
      diffObjectIds := [], relatedContractHashes := [], diagnostics := [] }
    let attempt : AgentAttempt := {
      attemptId := "sha256:a", intentId := "sha256:i", baseCommit := "b", agentId := "agent"
      leaseExpiresAtMs := none, status := .running, inPlace := false }
    ∃ resolved, (resolvePatchDiff (toolsIn .reference env) patch attempt).run exec .empty =
        (.ok resolved, .empty) ∧ RecordedDiff .reference patch resolved .empty := by
  intro git env patch attempt
  have hrun : (resolvePatchDiff (toolsIn .reference env) patch attempt).run exec .empty =
      (.ok { diffHash := hashText .reference git.diff, diffBytes := 4
             filePaths := (worktreeDiff .reference git).filePaths, rawDiff := git.diff },
        .empty) := by
    refine (Prog.run_ofExcept exec (worktreePatchDiff (toolsIn .reference env) patch attempt) _).trans
      (congrArg (·, ObjectStore.empty) ?_)
    exact if_neg (not_not.mpr (List.mem_singleton.mpr rfl))
  exact ⟨_, hrun, (only_recorded_diffs_used .reference env ⟨"", .ok none, .ok 0⟩
    (fun _ o => by cases o <;> first | exact false | exact .error .panic) .empty).1 _ _ _ _ hrun⟩

end Commands

end RickydataGit.Cli
