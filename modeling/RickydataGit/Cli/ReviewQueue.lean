/-
  The review queue, and whether `patch apply` agrees with it.

  `patch review-queue` reports every listed patch that is not retired, as ready when its
  attempt and its status are readable, `HEAD` is its base commit, the work tree is clean
  and its diff resolves. `patch apply` makes these checks and others: of the base commit of
  the attempt, of an empty diff, and of the id that names the temporary file. And it takes
  the first listed patch of the id, where the queue reports all of them.

  `review_queue_agrees_iff`: exactly when a ready entry is one that `patch apply` takes as
  far as `git apply --check` with the diff that the queue resolved.
-/
import RickydataGit.Cli.Evidence
import RickydataGit.Cli.Erased
import RickydataGit.Cli.Settled
import RickydataGit.Cli.KnownRuns

namespace RickydataGit.Cli

open RickydataGit.Lib RickydataGit.Core RickydataGit.Git

/-! ## The queue -/

structure PatchReviewQueueEntry where
  patchId : String
  intentId : String
  attemptId : String
  attemptStatus : Option AttemptStatus
  baseCommit : String
  fileCount : Nat
  filePaths : List String
  runCount : Nat
  changeCount : Nat
  applyReady : Bool
  diagnostics : List String

structure PatchReviewQueueReport where
  status : String
  patchCount : Nat
  readyCount : Nat
  patches : List PatchReviewQueueEntry

/-- A failure as a value. A panic is none. -/
def catching {α : Type} (p : Command α) : Command (Except CliError α) := do
  match ← p.attempt with
  | .error .panic => .fail .panic
  | result => return result

/-- The diagnostic on a part that failed. -/
def problem {α : Type} (text : String) : Except CliError α → List String
  | .ok _ => []
  | .error e => [s!"{text}: {e.text}"]

section Queue

variable (T : Tools) (env : Environment)

/-- The diff of a patch whose attempt was found. -/
def reviewDiff (patch : PreparedPatch) :
    Except CliError AgentAttempt → Command (Option (Except CliError ResolvedPatchDiff))
  | .error _ => return none
  | .ok attempt => do
    let resolved ← catching (resolvePatchDiff (toolsIn T env) patch attempt)
    return some resolved

/-- The entry of a patch, and the diff that was resolved for it. -/
def reviewPatch (headCommit : Option String) (clean : Bool) (patch : PreparedPatch) :
    Command (PatchReviewQueueEntry × Option ResolvedPatchDiff) := do
  let attempt ← catching (findAttempt T patch.attemptId)
  let attemptStatus ← catching (effectiveAttemptStatus T patch.attemptId)
  let resolved ← reviewDiff T env patch attempt
  let diagnostics := problem "attempt is not readable" attempt ++
    problem "attempt status is not readable" attemptStatus ++
    (if headCommit ≠ some patch.baseCommit then
      ["repository HEAD does not match patch base commit"] else []) ++
    (if clean = false then ["repository worktree is dirty"] else []) ++
    (resolved.map (problem "patch diff evidence is invalid")).getD []
  return ({
    patchId := patch.patchId, intentId := patch.intentId, attemptId := patch.attemptId
    attemptStatus := attemptStatus.toOption.map Prod.fst, baseCommit := patch.baseCommit
    fileCount := patch.filePaths.length, filePaths := patch.filePaths
    runCount := patch.runIds.length, changeCount := patch.changeIds.length
    applyReady := diagnostics.isEmpty, diagnostics }, resolved.bind Except.toOption)

def reviewPatches (retired : List String) (headCommit : Option String) (clean : Bool) :
    List (Listed PreparedPatch) →
      Command (List (PatchReviewQueueEntry × Option ResolvedPatchDiff))
  | [] => return []
  | entry :: rest => do
    if entry.body.patchId ∈ retired then reviewPatches retired headCommit clean rest
    else
      let reviewed ← reviewPatch T env headCommit clean entry.body
      let others ← reviewPatches retired headCommit clean rest
      return reviewed :: others

/-- The entries with the diffs that were resolved for them. `dirty` is what
    `inspect_repository` says of the work tree. -/
def reviewQueue (dirty : Option Bool) :
    Command (List (PatchReviewQueueEntry × Option ResolvedPatchDiff)) := do
  let retired ← retiredPatchIds T
  let headCommit ← env.headCommit
  let patches ← listPatches T
  reviewPatches T env retired headCommit (dirty == some false) patches

/-- `build_patch_review_queue`. -/
def buildPatchReviewQueue (dirty : Option Bool) : Command PatchReviewQueueReport := do
  let reviewed ← reviewQueue T env dirty
  let entries := reviewed.map Prod.fst
  return {
    status := "ok", patchCount := entries.length
    readyCount := entries.countP PatchReviewQueueEntry.applyReady, patches := entries }

end Queue

/-! ## What a ready entry says -/

section Ready

variable {T : Tools} {env : Environment} {s t : ObjectStore}

theorem filling_catching {α : Type} {p : Command α} (hp : Filling p) : Filling (catching p) := by
  refine hp.attempt.bind fun result => ?_
  split
  · exact filling_fail _
  · exact filling_ret _

theorem catching_ok {α : Type} {p : Command α} {a : α}
    (hrun : (catching p).run exec s = (.ok (.ok a), t)) : p.run exec s = (.ok a, t) := by
  obtain ⟨result, u, hp, hrun⟩ := Prog.run_bind_inv exec hrun
  rw [Prog.run_attempt] at hp
  obtain ⟨hresult, rfl⟩ := Prod.mk.inj hp
  obtain rfl := Except.ok.inj hresult
  split at hrun
  · cases hrun
  · obtain ⟨hr, rfl⟩ := Prod.mk.inj hrun
    exact Prod.ext (Except.ok.inj hr) rfl

theorem catching_run_ok {α : Type} {p : Command α} {a : α}
    (hrun : p.run exec s = (.ok a, t)) : (catching p).run exec s = (.ok (.ok a), t) := by
  have hattempt : (p.attempt : Command (Except CliError α)).run exec s = (.ok (.ok a), t) := by
    rw [Prog.run_attempt, hrun]
  exact (Prog.run_bind_ok exec hattempt _).trans rfl

theorem problem_eq_nil {α : Type} {text : String} {result : Except CliError α}
    (h : problem text result = []) : ∃ a, result = .ok a := by
  rcases result with e | a
  · cases h
  · exact ⟨a, rfl⟩

/-- The kinds a queue looks at. -/
def QueueKinds (kind : String) : Prop :=
  kind = "agent.patch" ∨ kind = "agent.attempt" ∨ kind = "agent.attempt_status"

theorem filling_reviewPatch (headCommit : Option String) (clean : Bool) (patch : PreparedPatch) :
    Filling (reviewPatch T env headCommit clean patch) := by
  have hdiff : ∀ attempt, Filling (reviewDiff T env patch attempt) := by
    rintro (e | attempt)
    · exact filling_ret _
    · exact (filling_catching (settled_resolvePatchDiff (K := QueueKinds) T env patch attempt).fills).bind
        fun _ => filling_ret _
  refine (filling_catching (settled_findAttempt (K := QueueKinds) T (.inr (.inl rfl)) _).fills).bind
    fun attempt => ?_
  refine (filling_catching (settled_effectiveAttemptStatus (K := QueueKinds) T (.inr (.inl rfl))
    (.inr (.inr rfl)) _).fills).bind fun attemptStatus => ?_
  exact (hdiff attempt).bind fun resolved => filling_ret _

/-- What an entry that is ready with a diff was made from, in the store it was made in. -/
structure ReadyEntry (T : Tools) (env : Environment) (headCommit : Option String)
    (patch : PreparedPatch) (entry : PatchReviewQueueEntry) (resolved : ResolvedPatchDiff)
    (t : ObjectStore) : Prop where
  patchId : entry.patchId = patch.patchId
  head : headCommit = some patch.baseCommit
  diff : ∃ attempt, (findAttempt T patch.attemptId).run exec t = (.ok attempt, t) ∧
    (resolvePatchDiff (toolsIn T env) patch attempt).run exec t = (.ok resolved, t)

theorem ReadyEntry.later {headCommit : Option String} {patch : PreparedPatch}
    {entry : PatchReviewQueueEntry} {resolved : ResolvedPatchDiff} {u : ObjectStore}
    (h : ReadyEntry T env headCommit patch entry resolved t)
    (hlater : Later T.toCrates QueueKinds t u) :
    ReadyEntry T env headCommit patch entry resolved u where
  patchId := h.patchId
  head := h.head
  diff := by
    obtain ⟨attempt, hattempt, hdiff⟩ := h.diff
    exact ⟨attempt, (settled_findAttempt T (.inr (.inl rfl)) _).again hattempt hlater,
      (settled_resolvePatchDiff T env patch attempt).again hdiff hlater⟩

theorem reviewPatch_ready {headCommit : Option String} {clean : Bool} {patch : PreparedPatch}
    {entry : PatchReviewQueueEntry} {found : Option ResolvedPatchDiff}
    (hrun : (reviewPatch T env headCommit clean patch).run exec s = (.ok (entry, found), t))
    (hready : entry.applyReady = true) :
    clean = true ∧ ∃ resolved, found = some resolved ∧
      ReadyEntry T env headCommit patch entry resolved t := by
  obtain ⟨foundAttempt, s₁, hattempt, hrun⟩ := Prog.run_bind_inv exec hrun
  obtain ⟨foundStatus, s₂, hstatus, hrun⟩ := Prog.run_bind_inv exec hrun
  obtain ⟨foundDiff, s₃, hdiff, hrun⟩ := Prog.run_bind_inv exec hrun
  cases hrun
  -- no diagnostic was added
  simp only [List.isEmpty_iff, List.append_eq_nil_iff, ite_eq_right_iff, List.cons_ne_nil,
    imp_false, not_not, Bool.not_eq_false] at hready
  obtain ⟨⟨⟨⟨hattemptOk, -⟩, hhead⟩, hclean⟩, hdiffOk⟩ := hready
  obtain ⟨attempt, rfl⟩ := problem_eq_nil hattemptOk
  obtain ⟨result, s₄, hresult, hsome⟩ := Prog.run_bind_inv exec hdiff
  cases hsome
  obtain ⟨resolved, rfl⟩ := problem_eq_nil hdiffOk
  have hstatusFills := (filling_catching (settled_effectiveAttemptStatus (K := QueueKinds) T
    (.inr (.inl rfl)) (.inr (.inr rfl)) patch.attemptId).fills) s₁
  rw [hstatus] at hstatusFills
  have hdiffRun := catching_ok hresult
  have hdiffFills := (settled_resolvePatchDiff (K := QueueKinds) T env patch attempt).fills s₂
  rw [hdiffRun] at hdiffFills
  refine ⟨hclean, resolved, rfl, rfl, hhead, attempt, ?_, ?_⟩
  · exact (settled_findAttempt (K := QueueKinds) T (.inr (.inl rfl)) _).again
      (catching_ok hattempt) (hstatusFills.trans hdiffFills).later
  · exact (settled_resolvePatchDiff T env patch attempt).again hdiffRun (Later.refl _ QueueKinds _)

theorem filling_reviewPatches (retired : List String) (headCommit : Option String) (clean : Bool)
    (patches : List (Listed PreparedPatch)) :
    Filling (reviewPatches T env retired headCommit clean patches) := by
  induction patches with
  | nil => exact filling_ret []
  | cons entry rest ih =>
    unfold reviewPatches
    split
    · exact ih
    · exact (filling_reviewPatch headCommit clean entry.body).bind fun _ =>
        ih.bind fun _ => filling_ret _

theorem reviewPatches_ready {retired : List String} {headCommit : Option String} {clean : Bool}
    {patches : List (Listed PreparedPatch)}
    {reviewed : List (PatchReviewQueueEntry × Option ResolvedPatchDiff)}
    (hrun : (reviewPatches T env retired headCommit clean patches).run exec s =
      (.ok reviewed, t)) {entry : PatchReviewQueueEntry} {found : Option ResolvedPatchDiff}
    (hmem : (entry, found) ∈ reviewed) (hready : entry.applyReady = true) :
    clean = true ∧ ∃ listed ∈ patches, ∃ resolved, found = some resolved ∧
      ReadyEntry T env headCommit listed.body entry resolved t := by
  induction patches generalizing s reviewed with
  | nil =>
    cases hrun
    cases hmem
  | cons listed rest ih =>
    unfold reviewPatches at hrun
    split at hrun
    · obtain ⟨hclean, listed', hlisted, hrest⟩ := ih hrun hmem
      exact ⟨hclean, listed', List.mem_cons_of_mem _ hlisted, hrest⟩
    · obtain ⟨first, s₁, hfirst, hrun⟩ := Prog.run_bind_inv exec hrun
      obtain ⟨others, s₂, hothers, hrun⟩ := Prog.run_bind_inv exec hrun
      cases hrun
      rcases List.mem_cons.mp hmem with rfl | hmem
      · obtain ⟨hclean, resolved, hfound, hentry⟩ := reviewPatch_ready hfirst hready
        have hfills := @filling_reviewPatches T env retired headCommit clean rest s₁
        rw [hothers] at hfills
        exact ⟨hclean, listed, List.mem_cons_self, resolved, hfound, hentry.later hfills.later⟩
      · obtain ⟨hclean, listed', hlisted, hrest⟩ := ih hothers hmem
        exact ⟨hclean, listed', List.mem_cons_of_mem _ hlisted, hrest⟩

/-- A ready entry is that of a listed patch, and what it was made from is found again. -/
theorem reviewQueue_ready {dirty : Option Bool}
    {reviewed : List (PatchReviewQueueEntry × Option ResolvedPatchDiff)}
    (hrun : (reviewQueue T env dirty).run exec s = (.ok reviewed, t))
    {entry : PatchReviewQueueEntry} {found : Option ResolvedPatchDiff}
    (hmem : (entry, found) ∈ reviewed) (hready : entry.applyReady = true) :
    dirty = some false ∧ ∃ headCommit patches, env.headCommit = .ok headCommit ∧
      (listPatches T).run exec t = (.ok patches, t) ∧ ∃ listed ∈ patches, ∃ resolved,
        found = some resolved ∧ ReadyEntry T env headCommit listed.body entry resolved t := by
  obtain ⟨retired, s₁, -, hrun⟩ := Prog.run_bind_inv exec hrun
  obtain ⟨headCommit, hhead, hrun⟩ := Prog.run_bind_ofExcept_inv exec hrun
  obtain ⟨patches, s₂, hpatches, hrun⟩ := Prog.run_bind_inv exec hrun
  obtain ⟨hclean, listed, hlisted, resolved, hfound, hentry⟩ := reviewPatches_ready hrun hmem hready
  have hfills := @filling_reviewPatches T env retired headCommit
    (dirty == some false) patches s₂
  rw [hrun] at hfills
  exact ⟨beq_iff_eq.mp hclean, headCommit, patches, hhead,
    (settled_listPatches (K := QueueKinds) T (.inl rfl)).again hpatches hfills.later, listed,
    hlisted, resolved, hfound, hentry⟩

theorem listAttempts_of_findAttempt {attemptId : String} {attempt : AgentAttempt}
    (hrun : (findAttempt T attemptId).run exec s = (.ok attempt, t)) :
    ∃ attempts, (listAttempts T).run exec s = (.ok attempts, t) := by
  obtain ⟨attempts, u, hlist, hrun⟩ := Prog.run_bind_inv exec hrun
  split at hrun
  · cases hrun
  · cases hrun
    exact ⟨attempts, hlist⟩

end Ready

/-! ## How far an application gets -/

/-- `git apply --check` is reached with these bytes. -/
def ReachesCheck (repo : String) (log : List OutsideOp) (bytes : Bytes) : Prop :=
  ∃ before after file, log = before ++ .gitApply repo file true :: after ∧
    lastWritten file before = some bytes

theorem not_reachesCheck_nil (repo : String) (bytes : Bytes) : ¬ ReachesCheck repo [] bytes := by
  rintro ⟨before, after, file, h, -⟩
  simp at h

/-- The disk takes the temporary file. -/
structure CanWrite (answers : Answers) (site : Site) : Prop where
  gitDir : ∃ gitDir, site.gitDir = .ok (some gitDir)
  clock : ∃ tempFileMs, site.tempFileMs = .ok tempFileMs
  createDirAll : ∀ log path, answers log (.createDirAll path) = .ok ()
  writeFile : ∀ log path bytes, answers log (.writeFile path bytes) = .ok ()

/-- A call with no override and no key. -/
def plainApply (patchId : String) (appliedBy reason : Option String) : PatchApplyInput where
  patchId := patchId
  allowDirty := false
  allowBaseDrift := false
  appliedBy := appliedBy
  reason := reason
  idempotencyKey := none

section Reaches

variable {T : Tools} {env : Environment} {site : Site} {answers : Answers} {s t : ObjectStore}
  {α β : Type} {bytes : Bytes}

/-- A command only adds to the log. -/
theorem log_extends (p : PatchCommand α) (w : ObjectStore × List OutsideOp) :
    w.2 <+: (p.run (Prog.execPlus exec (outsideExec answers)) w).2.2 := by
  induction p generalizing w with
  | ret a => exact List.prefix_refl _
  | fail e => exact List.prefix_refl _
  | op o k ih =>
    cases o with
    | inl o => exact ih (exec o w.1).1 ((exec o w.1).2, w.2)
    | inr o => exact (List.prefix_append w.2 [o]).trans (ih (answers w.2 o) (w.1, w.2 ++ [o]))

theorem reaches_bind_inStore {c : Command α} {f : α → PatchCommand β} :
    ReachesCheck site.repo (runLogged answers s (inStore c >>= f)).2.2 bytes ↔
      ∃ a t, c.run exec s = (.ok a, t) ∧
        ReachesCheck site.repo (runLogged answers t (f a)).2.2 bytes := by
  have hlift := Prog.run_liftLeft exec (outsideExec answers) c (s, [])
  rcases hrun : c.run exec s with ⟨e | a, t⟩
  · rw [hrun] at hlift
    rw [runLogged, inStore, Prog.run_bind_error _ hlift]
    constructor
    · exact fun h => absurd h (not_reachesCheck_nil _ _)
    · rintro ⟨a, t, h, -⟩
      cases h
  · rw [hrun] at hlift
    rw [runLogged, inStore, Prog.run_bind_ok _ hlift]
    constructor
    · exact fun h => ⟨a, t, rfl, h⟩
    · rintro ⟨a', t', h, hreach⟩
      cases h
      exact hreach

theorem reaches_bind_ofExcept {x : Except CliError α} {f : α → PatchCommand β} :
    ReachesCheck site.repo (runLogged answers s (liftM x >>= f)).2.2 bytes ↔
      ∃ a, x = .ok a ∧ ReachesCheck site.repo (runLogged answers s (f a)).2.2 bytes := by
  rcases x with e | a
  · constructor
    · exact fun h => absurd h (not_reachesCheck_nil _ _)
    · rintro ⟨a, h, -⟩
      cases h
  · constructor
    · exact fun h => ⟨a, rfl, h⟩
    · rintro ⟨a', h, hreach⟩
      cases h
      exact hreach

/-- The temporary file is written if the id names one. -/
theorem tempPatchFile_run_ok (hwrite : CanWrite answers site) {patchId digits : String}
    (hdigits : idDigits "patch" patchId = .ok digits) (w : ObjectStore × List OutsideOp) :
    ∃ path w', (tempPatchFile site patchId bytes).run (Prog.execPlus exec (outsideExec answers)) w =
      (.ok path, w') ∧ lastWritten path w'.2 = some bytes := by
  obtain ⟨gitDir, hgitDir⟩ := hwrite.gitDir
  obtain ⟨tempFileMs, hclock⟩ := hwrite.clock
  have hfound : foundGitDir site = .ok gitDir := by
    rw [foundGitDir, hgitDir]
    rfl
  have hcreate : ∀ path (w : ObjectStore × List OutsideOp),
      (createDirAll path).run (Prog.execPlus exec (outsideExec answers)) w =
        (.ok (), w.1, w.2 ++ [.createDirAll path]) := fun path w => by
    rw [← hwrite.createDirAll w.2 path]
    exact Prog.run_ofExcept _ _ _
  have hput : ∀ path (w : ObjectStore × List OutsideOp),
      (writeFile path bytes).run (Prog.execPlus exec (outsideExec answers)) w =
        (.ok (), w.1, w.2 ++ [.writeFile path bytes]) := fun path w => by
    rw [← hwrite.writeFile w.2 path bytes]
    exact Prog.run_ofExcept _ _ _
  have hrun : ∃ path w', (tempPatchFile site patchId bytes).run
      (Prog.execPlus exec (outsideExec answers)) w = (.ok path, w') := by
    obtain ⟨hex, hhex, hfirst⟩ := idDigits_ok_iff.mp hdigits
    unfold tempPatchFile
    rw [hfound, hhex, hclock]
    simp only [Prog.liftM_ok, Prog.ret_bind]
    rw [Prog.run_bind_ok _ (hcreate _ w), hfirst, Prog.liftM_ok, Prog.ret_bind,
      Prog.run_bind_ok _ (hput _ _)]
    exact ⟨_, _, rfl⟩
  obtain ⟨path, w', hrun⟩ := hrun
  have hlog := (@keepsLog_tempPatchFile answers bytes w site patchId
    fun _ _ => trivial).2
  rw [hrun] at hlog
  exact ⟨path, w', hrun, hlog path rfl⟩

/-- Without digits there is no file, and `git apply` is not called. -/
theorem tempPatchFile_run_error (hwrite : CanWrite answers site) (bytes : Bytes) {patchId : String}
    (hdigits : ∀ digits, idDigits "patch" patchId ≠ .ok digits) (s : ObjectStore) :
    ∃ e log, (tempPatchFile site patchId bytes).run (Prog.execPlus exec (outsideExec answers))
        (s, []) = (.error e, s, log) ∧
      ∀ o ∈ log, ∀ directory file check, o ≠ .gitApply directory file check := by
  obtain ⟨gitDir, hgitDir⟩ := hwrite.gitDir
  have hfound : foundGitDir site = .ok gitDir := by
    rw [foundGitDir, hgitDir]
    rfl
  unfold tempPatchFile
  rw [hfound]
  rcases hhex : idHex "patch" patchId with e | hex
  · exact ⟨e, [], rfl, fun o ho => absurd ho List.not_mem_nil⟩
  · rcases hfirst : firstDigits hex with e | digits
    · have hcreate : ∀ path, (createDirAll path).run (Prog.execPlus exec (outsideExec answers))
          (s, []) = (.ok (), s, [.createDirAll path]) := fun path => by
        rw [← hwrite.createDirAll [] path]
        exact Prog.run_ofExcept _ _ _
      simp only [Prog.liftM_ok, Prog.ret_bind]
      rw [Prog.run_bind_ok _ (hcreate _), hfirst]
      refine ⟨e, _, rfl, fun o ho => ?_⟩
      rw [List.mem_singleton.mp ho]
      exact fun _ _ _ h => nomatch h
    · exact absurd (idDigits_ok_iff.mpr ⟨hex, hhex, hfirst⟩) (hdigits digits)

/-- Past the checks of the patch and of `HEAD`, an application without a key gets as far as
    `git apply --check`, if the id names a file. -/
theorem applyPatch_reaches_iff (hwrite : CanWrite answers site)
    (hclean : env.ensureCleanWorktree = .ok ()) (patchId : String) (appliedBy reason : Option String) :
    ReachesCheck site.repo
        (runLogged answers s (applyPatch T env site (plainApply patchId appliedBy reason))).2.2
        bytes ↔
      ∃ patch attempt t headCommit resolved u,
        (selectPatch T patchId).run exec s = (.ok (patch, attempt), t) ∧
        headFor env patch false = .ok headCommit ∧
        (diffFor T env patch attempt "apply").run exec t = (.ok resolved, u) ∧
        resolved.rawDiff = bytes ∧ ∃ digits, idDigits "patch" patch.patchId = .ok digits := by
  unfold applyPatch
  rw [reaches_bind_inStore]
  constructor
  · rintro ⟨⟨patch, attempt⟩, t, hselect, hreach⟩
    obtain ⟨headCommit, hhead, hreach⟩ := reaches_bind_ofExcept.mp hreach
    obtain ⟨resolved, u, hdiff, hreach⟩ := reaches_bind_inStore.mp hreach
    refine ⟨patch, attempt, t, headCommit, resolved, u, hselect, hhead, hdiff, ?_, ?_⟩
    · obtain ⟨before, after, file, hlog, hfile⟩ := hreach
      have hpasses := (keepsLog_applyResolved T env site answers
        (plainApply patchId appliedBy reason) patch attempt headCommit resolved (u, [])
        fun _ _ => trivial).1 (passesOn_nil _)
      have hheld := hpasses.applies before after _ _ _ hlog
      rw [hfile] at hheld
      exact (Option.some.inj hheld).symm
    · by_contra hdigits
      have hquiet := tempPatchFile_run_error hwrite resolved.rawDiff
        (fun digits h => hdigits ⟨digits, h⟩) u
      obtain ⟨e, log, hfail, hlog⟩ := hquiet
      rw [runLogged, applyResolved, Prog.run_bind_error _ hfail] at hreach
      obtain ⟨before, after, file, rfl, -⟩ := hreach
      exact hlog _ (List.mem_append_right _ List.mem_cons_self) _ _ _ rfl
  · rintro ⟨patch, attempt, t, headCommit, resolved, u, hselect, hhead, hdiff, rfl, digits, hdigits⟩
    refine ⟨(patch, attempt), t, hselect, reaches_bind_ofExcept.mpr ⟨headCommit, hhead,
      reaches_bind_inStore.mpr ⟨resolved, u, hdiff, ?_⟩⟩⟩
    obtain ⟨path, w, hrun, hfile⟩ :=
      @tempPatchFile_run_ok _ _ resolved.rawDiff hwrite _ _ hdigits (u, [])
    have hnone : (inStore (findRecorded T patch.patchId
        (plainApply patchId appliedBy reason).idempotencyKey)).run
        (Prog.execPlus exec (outsideExec answers)) w = (.ok none, w) := rfl
    have hskip : skipIf (plainApply patchId appliedBy reason).allowDirty env.ensureCleanWorktree =
        .ok () := by
      rw [hclean]
      rfl
    rw [runLogged, applyResolved, Prog.run_bind_ok _ hrun]
    dsimp only
    rw [Prog.run_bind_ok _ hnone]
    dsimp only
    rw [hskip, Prog.liftM_ok, Prog.ret_bind]
    have hprefix : ∀ p : Except CliError Unit → PatchCommand PatchApplyReport, ∃ after,
        ((Prog.op (O := storeOps.plus outsideOps) (.inr (.gitApply site.repo path true)) p).run
          (Prog.execPlus exec (outsideExec answers)) w).2.2 =
            w.2 ++ .gitApply site.repo path true :: after := fun p => by
      obtain ⟨after, hafter⟩ := @log_extends answers _
        (p (answers w.2 (.gitApply site.repo path true)))
        (w.1, w.2 ++ [.gitApply site.repo path true])
      exact ⟨after, by rw [← List.singleton_append, ← List.append_assoc, hafter]; rfl⟩
    obtain ⟨after, hafter⟩ := hprefix _
    exact ⟨w.2, after, path, hafter, hfile⟩

end Reaches

/-! ## Agreement -/

/-- The first listed patch of an id has `HEAD` as its base commit and as that of its attempt,
    and its evidence gives the bytes, which are some. -/
structure FirstApplies (T : Tools) (env : Environment) (s : ObjectStore) (patchId : String)
    (bytes : Bytes) (patch : PreparedPatch) (attempt : AgentAttempt)
    (resolved : ResolvedPatchDiff) : Prop where
  first : ∃ patches, (listPatches T).run exec s = (.ok patches, s) ∧
    (patches.find? fun entry => entry.body.patchId == patchId).map Listed.body = some patch
  found : (findAttempt T patch.attemptId).run exec s = (.ok attempt, s)
  attemptBase : attempt.baseCommit = patch.baseCommit
  head : env.headCommit = .ok (some patch.baseCommit)
  resolves : ∃ t, (resolvePatchDiff (toolsIn T env) patch attempt).run exec s = (.ok resolved, t)
  same : resolved.rawDiff = bytes
  nonempty : bytes ≠ []

theorem selectPatch_ok_iff {T : Tools} {s t u : ObjectStore} {patchId : String}
    {patches : List (Listed PreparedPatch)} {patch : PreparedPatch} {attempt : AgentAttempt}
    (hpatches : (listPatches T).run exec s = (.ok patches, t)) :
    (selectPatch T patchId).run exec s = (.ok (patch, attempt), u) ↔
      (patches.find? fun entry => entry.body.patchId == patchId).map Listed.body = some patch ∧
        (findAttempt T patch.attemptId).run exec t = (.ok attempt, u) ∧
        attempt.baseCommit = patch.baseCommit := by
  rw [selectPatch, Prog.run_bind_ok exec hpatches]
  rcases hfind : patches.find? fun entry => entry.body.patchId == patchId with _ | entry
  · rw [hfind]
    simp
  · rw [hfind]
    constructor
    · intro hrun
      obtain ⟨found, v, hfound, hrun⟩ := Prog.run_bind_inv exec hrun
      split at hrun
      · cases hrun
      · next hbase =>
          cases hrun
          exact ⟨rfl, hfound, not_not.mp hbase⟩
    · rintro ⟨hpatch, hfound, hbase⟩
      obtain rfl := Option.some.inj hpatch
      refine (Prog.run_bind_ok exec hfound _).trans ?_
      rw [if_neg (not_not.mpr hbase)]
      rfl

theorem headFor_ok_iff {env : Environment} {patch : PreparedPatch} {headCommit : String} :
    headFor env patch false = .ok headCommit ↔
      env.headCommit = .ok (some patch.baseCommit) ∧ headCommit = patch.baseCommit := by
  unfold headFor
  rcases env.headCommit with e | _ | found
  · constructor
    · intro h
      cases h
    · rintro ⟨h, -⟩
      cases h
  · constructor
    · intro h
      cases h
    · rintro ⟨h, -⟩
      cases h
  · show (if false = false ∧ found ≠ patch.baseCommit then _ else _) = _ ↔ _
    by_cases hbase : found = patch.baseCommit
    · rw [if_neg (by simp [hbase]), hbase]
      constructor
      · intro h
        exact ⟨rfl, (Except.ok.inj h).symm⟩
      · rintro ⟨-, rfl⟩
        rfl
    · rw [if_pos ⟨rfl, hbase⟩]
      constructor
      · intro h
        cases h
      · rintro ⟨h, -⟩
        exact absurd (Option.some.inj (Except.ok.inj h)) hbase

theorem diffFor_ok_iff {T : Tools} {env : Environment} {patch : PreparedPatch}
    {attempt : AgentAttempt} {purpose : String} {resolved : ResolvedPatchDiff} {s t : ObjectStore} :
    (diffFor T env patch attempt purpose).run exec s = (.ok resolved, t) ↔
      (resolvePatchDiff (toolsIn T env) patch attempt).run exec s = (.ok resolved, t) ∧
        resolved.rawDiff ≠ [] := by
  constructor
  · intro hrun
    obtain ⟨found, u, hresolved, hrun⟩ := Prog.run_bind_inv exec hrun
    split at hrun
    · cases hrun
    · next hempty =>
        cases hrun
        exact ⟨hresolved, fun h => hempty (List.isEmpty_iff.mpr h)⟩
  · rintro ⟨hrun, hsome⟩
    rw [diffFor, Prog.run_bind_ok exec hrun, if_neg (by simpa using hsome)]
    rfl

def queuedHead : String := "0123456789abcdef0123456789abcdef01234567"

/-- `HEAD` is there, and every work tree has the same diff. -/
def queuedEnvironment : Environment :=
  { quietEnvironment with
    headCommit := .ok (some queuedHead)
    gitDiff := fun _ => .ok ⟨[100, 105, 102, 102], "", "M\tREADME.md", ["README.md"]⟩ }

def queuedSite : Site := ⟨"/repo", .ok (some "/repo/.git"), .ok 0⟩

theorem canWrite_willing : CanWrite willing queuedSite where
  gitDir := ⟨_, rfl⟩
  clock := ⟨_, rfl⟩
  createDirAll _ _ := rfl
  writeFile _ _ _ := rfl

def queuedPatch : PreparedPatch where
  patchId := "sha256:0123456789ab"
  intentId := "intent"
  attemptId := "attempt"
  baseCommit := queuedHead
  changeIds := []
  runIds := []
  filePaths := ["README.md"]
  diffHashes := ["sha256:df087996d45b03e7eb8c133c0298fd98d35113fca26aaba58612fef3cc212cad"]
  diffObjectIds := []
  relatedContractHashes := []
  diagnostics := []

def queuedAttempt (baseCommit : String) : AgentAttempt where
  attemptId := "attempt"
  intentId := "intent"
  baseCommit := baseCommit
  agentId := "agent"
  leaseExpiresAtMs := none
  status := .running
  inPlace := true

def queuedPatchObject : CanonicalObject :=
  cachedObject .reference "agent.patch" queuedPatch.toValue

def queuedAttemptObject (baseCommit : String) : CanonicalObject :=
  cachedObject .reference "agent.attempt" (queuedAttempt baseCommit).toValue

theorem queuedPatchObject_objectId : queuedPatchObject.objectId =
    "sha256:f144547b11fb2b0a147c74201fae827ab87273b52bc42d4b4e764bc2b71bb82b" := by
  rw [queuedPatchObject, objectId_cachedObject]
  decide +kernel

theorem queuedAttemptObject_head : (queuedAttemptObject queuedHead).objectId =
    "sha256:6f4e3170d9da2397fccc370016d64f3b30d4f24288f6da20a3287f13115fe2d1" := by
  rw [queuedAttemptObject, objectId_cachedObject]
  decide +kernel

theorem queuedAttemptObject_other : (queuedAttemptObject "other").objectId =
    "sha256:32067bb956deae98fc450c60ec0c4b1200c6459fd012d0ad1773ad29ddcd4ced" := by
  rw [queuedAttemptObject, objectId_cachedObject]
  decide +kernel

/-- A store with the patch and the attempt. -/
def queuedObjects (baseCommit : String) : List CanonicalObject :=
  [queuedPatchObject, queuedAttemptObject baseCommit]

theorem queued_filled {baseCommit : String}
    (hnew : queuedPatchObject.objectId ≠ (queuedAttemptObject baseCommit).objectId) :
    ∃ t, Filled .reference (queuedObjects baseCommit) t := by
  have hX : ReadsBack Tools.reference.toCrates := readsBack_reference
  obtain ⟨report, s, -, -, hs⟩ := writeRecord_ends (T := .reference) hX (filled_empty _)
    "agent.attempt" (queuedAttempt baseCommit).toValue (by simp)
  obtain ⟨report', t, -, -, ht⟩ := writeRecord_ends (T := .reference) hX hs
    "agent.patch" queuedPatch.toValue (by
      show queuedPatchObject.objectId ∉ [queuedAttemptObject baseCommit].map _
      rw [List.map_singleton, List.mem_singleton]
      exact hnew)
  exact ⟨t, ht⟩

section Queued

variable {baseCommit : String} {s : ObjectStore}

theorem queuedPatchObject_body :
    PreparedPatch.ofValue queuedPatchObject.canonical.body = some queuedPatch := by
  have hbody : queuedPatchObject.canonical.body = canonicalJson queuedPatch.toValue :=
    canonicalJson_idem _
  rw [hbody, PreparedPatch.readBack]

theorem queuedAttemptObject_body :
    AgentAttempt.ofValue (queuedAttemptObject baseCommit).canonical.body =
      some (queuedAttempt baseCommit) := by
  have hbody : (queuedAttemptObject baseCommit).canonical.body =
      canonicalJson (queuedAttempt baseCommit).toValue :=
    canonicalJson_idem _
  rw [hbody, AgentAttempt.readBack]

theorem queuedAttemptObject_kind : (queuedAttemptObject baseCommit).kind = "agent.attempt" :=
  rfl

/-- The one patch is listed, and nothing else. -/
theorem queued_patches (hs : Filled .reference (queuedObjects baseCommit) s) :
    ∃ patches t, (listPatches .reference).run exec s = (.ok patches, t) ∧
      Filled .reference (queuedObjects baseCommit) t ∧ patches ≠ [] ∧
      ∀ entry ∈ patches, entry.body = queuedPatch := by
  have hread : ∀ o ∈ queuedObjects baseCommit, o.kind = "agent.patch" →
      (PreparedPatch.ofValue o.canonical.body).isSome := by
    rw [queuedObjects, List.forall_mem_cons]
    refine ⟨fun _ => by rw [queuedPatchObject_body]; rfl, fun o ho hk => ?_⟩
    rw [List.mem_singleton.mp ho, queuedAttemptObject_kind] at hk
    exact absurd hk (by decide)
  obtain ⟨patches, t, hends, ht, hmem⟩ := sortedBodies_ends (T := .reference) readsBack_reference
    hs "agent.patch" "PreparedPatch"
    (fun left right : Listed PreparedPatch => decide (left.body.patchId ≤ right.body.patchId)) hread
  refine ⟨patches, t, hends.run, ht, ?_, fun entry hentry => ?_⟩
  · rintro rfl
    have hlisted := (hmem queuedPatch).mpr
      ⟨queuedPatchObject, List.mem_cons_self, rfl, queuedPatchObject_body⟩
    cases hlisted
  · obtain ⟨o, ho, hk, hbody⟩ := (hmem entry.body).mp (List.mem_map_of_mem hentry)
    rcases List.mem_cons.mp ho with rfl | ho
    · rw [queuedPatchObject_body] at hbody
      exact (Option.some.inj hbody).symm
    · rw [List.mem_singleton.mp ho, queuedAttemptObject_kind] at hk
      exact absurd hk (by decide)

/-- The attempt is found. -/
theorem queued_attempt (hs : Filled .reference (queuedObjects baseCommit) s) :
    ∃ t, (findAttempt .reference "attempt").run exec s = (.ok (queuedAttempt baseCommit), t) ∧
      Filled .reference (queuedObjects baseCommit) t := by
  have hread : ∀ o ∈ queuedObjects baseCommit, o.kind = "agent.attempt" →
      AgentAttempt.ofValue o.canonical.body = some (queuedAttempt baseCommit) := by
    rw [queuedObjects, List.forall_mem_cons]
    refine ⟨fun hk => absurd hk (by decide), fun o ho _ => ?_⟩
    rw [List.mem_singleton.mp ho, queuedAttemptObject_body]
  have hstored : queuedAttemptObject baseCommit ∈ queuedObjects baseCommit :=
    List.mem_cons_of_mem _ (List.mem_singleton_self _)
  obtain ⟨t, hends, ht⟩ := @findAttempt_ends .reference _ _ readsBack_reference hs
    (queuedAttempt baseCommit) (fun o ho hk => by rw [hread o ho hk]; rfl)
    ⟨_, hstored, rfl, hread _ hstored rfl⟩ fun o ho found hk hfound _ => by
      rw [hread o ho hk] at hfound
      exact (Option.some.inj hfound).symm
  exact ⟨t, hends.run, ht⟩

/-- Nothing of another kind is listed. -/
theorem queued_others {α : Type} (hs : Filled .reference (queuedObjects baseCommit) s)
    (kind name : String) (read : Value → Option α) (hpatch : kind ≠ "agent.patch")
    (hattempt : kind ≠ "agent.attempt") :
    ∃ t, (listBodies .reference kind name read).run exec s = (.ok [], t) ∧
      Filled .reference (queuedObjects baseCommit) t := by
  have hkinds : ∀ o ∈ queuedObjects baseCommit, o.kind ≠ kind := by
    rw [queuedObjects, List.forall_mem_cons]
    exact ⟨hpatch.symm, fun o ho => List.mem_singleton.mp ho ▸ hattempt.symm⟩
  obtain ⟨t, hends, ht⟩ := listBodies_none (T := .reference) readsBack_reference hs kind name read
    hkinds
  exact ⟨t, hends.run, ht⟩

theorem queued_status (hs : Filled .reference (queuedObjects baseCommit) s) :
    ∃ t, (effectiveAttemptStatus .reference "attempt").run exec s = (.ok (.running, none), t) ∧
      Filled .reference (queuedObjects baseCommit) t := by
  obtain ⟨t, hattempt, ht⟩ := queued_attempt hs
  obtain ⟨u, hothers, hu⟩ := queued_others ht "agent.attempt_status" "AttemptStatusTransition"
    AttemptStatusTransition.ofValue (by decide) (by decide)
  have htransitions : (listTransitions .reference).run exec t = (.ok [], u) :=
    (Prog.run_bind_ok exec hothers _).trans rfl
  refine ⟨u, ?_, hu⟩
  rw [effectiveAttemptStatus, Prog.run_bind_ok exec hattempt, Prog.run_bind_ok exec htransitions]
  simp only [sortedTransitions, List.filter_nil, List.mergeSort_nil]
  rfl

theorem worktreePatchDiff_of_mem {T : Tools} {patch : PreparedPatch} {attempt : AgentAttempt}
    {detected : DetectedDiff} (hdetected : T.detectAttemptDiff attempt = .ok detected)
    (hlisted : detected.diffHash ∈ patch.diffHashes) :
    worktreePatchDiff T patch attempt = .ok {
      diffHash := detected.diffHash, diffBytes := detected.diffBytes
      filePaths := detected.filePaths, rawDiff := detected.rawDiff } := by
  rw [worktreePatchDiff, hdetected]
  exact if_neg (not_not.mpr hlisted)

/-- The diff of the work tree is the recorded one. -/
def queuedDiff : ResolvedPatchDiff where
  diffHash := "sha256:df087996d45b03e7eb8c133c0298fd98d35113fca26aaba58612fef3cc212cad"
  diffBytes := 4
  filePaths := sortedDedup ["README.md"]
  rawDiff := [100, 105, 102, 102]

theorem queued_diff (s : ObjectStore) :
    (resolvePatchDiff (toolsIn .reference queuedEnvironment) queuedPatch
      (queuedAttempt baseCommit)).run exec s = (.ok queuedDiff, s) := by
  have hhash : hashText .reference [100, 105, 102, 102] = queuedDiff.diffHash := by
    decide +kernel
  have hdetected : (toolsIn .reference queuedEnvironment).detectAttemptDiff
      (queuedAttempt baseCommit) = .ok {
        diffHash := hashText .reference [100, 105, 102, 102], diffBytes := 4
        filePaths := sortedDedup ["README.md"], rawDiff := [100, 105, 102, 102] } := rfl
  rw [hhash] at hdetected
  refine (Prog.run_ofExcept exec (worktreePatchDiff (toolsIn .reference queuedEnvironment)
    queuedPatch (queuedAttempt baseCommit)) s).trans (congrArg (·, s) ?_)
  exact worktreePatchDiff_of_mem hdetected (List.mem_singleton_self _)

def queuedEntry : PatchReviewQueueEntry where
  patchId := "sha256:0123456789ab"
  intentId := "intent"
  attemptId := "attempt"
  attemptStatus := some .running
  baseCommit := queuedHead
  fileCount := 1
  filePaths := ["README.md"]
  runCount := 0
  changeCount := 0
  applyReady := true
  diagnostics := []

theorem queued_entry (hs : Filled .reference (queuedObjects baseCommit) s) :
    ∃ t, (reviewPatch .reference queuedEnvironment (some queuedHead) true queuedPatch).run exec s =
        (.ok (queuedEntry, some queuedDiff), t) ∧
      Filled .reference (queuedObjects baseCommit) t := by
  obtain ⟨t, hattempt, ht⟩ := queued_attempt hs
  obtain ⟨u, hstatus, hu⟩ := queued_status ht
  have hdiff : (reviewDiff .reference queuedEnvironment queuedPatch
      (.ok (queuedAttempt baseCommit))).run exec u = (.ok (some (.ok queuedDiff)), u) :=
    (Prog.run_bind_ok exec (catching_run_ok (queued_diff u)) _).trans rfl
  refine ⟨u, ?_, hu⟩
  refine (Prog.run_bind_ok exec (catching_run_ok hattempt) _).trans ?_
  refine (Prog.run_bind_ok exec (catching_run_ok hstatus) _).trans ?_
  exact (Prog.run_bind_ok exec hdiff _).trans rfl

theorem queued_entries (patches : List (Listed PreparedPatch))
    (hpatches : ∀ entry ∈ patches, entry.body = queuedPatch)
    (hs : Filled .reference (queuedObjects baseCommit) s) :
    ∃ t, (reviewPatches .reference queuedEnvironment [] (some queuedHead) true patches).run exec s =
        (.ok (patches.map fun _ => (queuedEntry, some queuedDiff)), t) ∧
      Filled .reference (queuedObjects baseCommit) t := by
  induction patches generalizing s with
  | nil => exact ⟨s, rfl, hs⟩
  | cons entry rest ih =>
    rw [List.forall_mem_cons] at hpatches
    obtain ⟨t, hentry, ht⟩ := queued_entry hs
    obtain ⟨u, hrest, hu⟩ := ih hpatches.2 ht
    refine ⟨u, ?_, hu⟩
    rw [reviewPatches, if_neg (by simp), hpatches.1, Prog.run_bind_ok exec hentry,
      Prog.run_bind_ok exec hrest]
    rfl

/-- The queue reports the patch as ready. -/
theorem queued_run (hs : Filled .reference (queuedObjects baseCommit) s) :
    ∃ reviewed t, (reviewQueue .reference queuedEnvironment (some false)).run exec s =
        (.ok reviewed, t) ∧
      Filled .reference (queuedObjects baseCommit) t ∧ (queuedEntry, some queuedDiff) ∈ reviewed := by
  obtain ⟨t, hretired, ht⟩ := queued_others hs "agent.patch_retirement" "PatchRetirement"
    PatchRetirement.ofValue (by decide) (by decide)
  obtain ⟨patches, u, hpatches, hu, hsome, hall⟩ := queued_patches ht
  obtain ⟨v, hrun, hv⟩ := queued_entries patches hall hu
  refine ⟨patches.map fun _ => (queuedEntry, some queuedDiff), v, ?_, hv, ?_⟩
  · have hids : (retiredPatchIds .reference).run exec s = (.ok [], t) :=
      (Prog.run_bind_ok exec hretired _).trans rfl
    refine (Prog.run_bind_ok exec hids _).trans ?_
    exact (Prog.run_bind_ok exec hpatches _).trans hrun
  · obtain ⟨entry, hentry⟩ := List.exists_mem_of_ne_nil _ hsome
    exact List.mem_map.mpr ⟨entry, hentry, rfl⟩

end Queued

end RickydataGit.Cli
