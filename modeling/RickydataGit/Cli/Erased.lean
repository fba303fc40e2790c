/-
  The patch commands with their log left out.

  `Erases p g q w`: the command `q` of the store does what `p` does there and ends the same
  way, up to `g`. `applyPatch_erased`: `patchApply` is `applyPatch` without its log, in
  surroundings that answer as the outside does (`erasedEnv`).
-/
import RickydataGit.Cli.Outside

namespace RickydataGit.Cli
open RickydataGit.Lib RickydataGit.Core RickydataGit.Git

variable (T : Tools) (env : Environment) (site : Site)

/-- `patchApply`, by the parts it shares with the other commands. -/
theorem patchApply_eq (input : PatchApplyInput) : patchApply T env input = (do
    let (patch, attempt) ← selectPatch T input.patchId
    let headCommit ← headFor env patch input.allowBaseDrift
    let resolved ← diffFor T env patch attempt "apply"
    env.tempPatchFile patch.patchId resolved.rawDiff
    match ← findReplay T patch.patchId input.idempotencyKey with
    | some application => return (application, none)
    | none =>
      skipIf input.allowDirty env.ensureCleanWorktree
      env.gitApplyFile true resolved.rawDiff
      env.gitApplyFile false resolved.rawDiff
      let appliedAtMs ← env.nowMs
      let application : PatchApplication := {
        patchId := patch.patchId, attemptId := attempt.attemptId
        baseCommit := attempt.baseCommit, headCommit, diffHash := resolved.diffHash
        diffBytes := resolved.diffBytes, filePaths := resolved.filePaths
        appliedBy := input.appliedBy, reason := input.reason
        idempotencyKey := input.idempotencyKey, appliedAtMs }
      let object ← writeRecord T "agent.patch_application" application.toValue none
      return (application, some object)) := by
  unfold patchApply selectPatch
  rw [Prog.bind_assoc]
  congr 1
  funext patches
  cases patches.find? fun entry => entry.body.patchId == input.patchId with
  | none => rfl
  | some entry =>
    dsimp only
    rw [Prog.bind_assoc]
    congr 1
    funext attempt
    by_cases hbase : attempt.baseCommit ≠ entry.body.baseCommit
    · rw [if_pos hbase, if_pos hbase]
      rfl
    · rw [if_neg hbase, if_neg hbase]
      rw [Prog.pure_eq, Prog.ret_bind]
      dsimp only
      unfold headFor
      rcases env.headCommit with e | head
      · rfl
      cases head with
      | none => rfl
      | some headCommit =>
        rw [Prog.liftM_ok, Prog.ret_bind]
        have hok : ∀ f : Option String → Except CliError String,
            (Except.ok (some headCommit) >>= f) = f (some headCommit) := fun _ => rfl
        rw [hok]
        dsimp only
        by_cases hdrift : input.allowBaseDrift = false ∧ headCommit ≠ entry.body.baseCommit
        · rw [if_pos hdrift, if_pos hdrift]
          rfl
        · rw [if_neg hdrift, if_neg hdrift]
          unfold diffFor
          show _ = ((resolvePatchDiff (toolsIn T env) entry.body attempt >>= _) >>= _)
          rw [Prog.bind_assoc]
          congr 1
          funext resolved
          by_cases hempty : resolved.rawDiff.isEmpty
          · have htext : ∀ text : String, text ++ " has no diff bytes to apply" =
                text ++ " has no diff bytes to " ++ "apply" := fun text => by
              rw [String.append_assoc]
              rfl
            rw [if_pos hempty, if_pos hempty, Prog.fail_bind]
            exact congrArg (fun text => Prog.fail (CliError.bail text)) (htext _)
          · rw [if_neg hempty, if_neg hempty]
            rfl

theorem findPatchApplication_eq (patchId key : String) (entries : List ObjectListEntry) :
    findPatchApplication T patchId key entries =
      findRecordedApplication T patchId key entries >>= fun found => pure (found.map Prod.fst) := by
  induction entries with
  | nil => rfl
  | cons entry rest ih =>
    unfold findPatchApplication findRecordedApplication
    rw [Prog.bind_assoc]
    congr 1
    funext report
    rw [Prog.bind_assoc]
    congr 1
    funext application
    by_cases hfound : application.patchId = patchId ∧ application.idempotencyKey = some key
    · rw [if_pos hfound, if_pos hfound]
      rfl
    · rw [if_neg hfound, if_neg hfound]
      exact ih

/-- What is found again, without its object. -/
theorem findReplay_eq (patchId : String) (key : Option String) : findReplay T patchId key =
    findRecorded T patchId key >>= fun found => pure (found.map Prod.fst) := by
  cases key with
  | none => rfl
  | some key =>
    show (_ >>= fun entries => findPatchApplication T patchId key entries) =
      (_ >>= fun entries => findRecordedApplication T patchId key entries) >>= _
    rw [Prog.bind_assoc]
    congr 1
    funext entries
    exact findPatchApplication_eq T patchId key entries

theorem selectPatch_ok {patchId : String} {patch : PreparedPatch} {attempt : AgentAttempt}
    {s t : ObjectStore} (hrun : (selectPatch T patchId).run exec s = (.ok (patch, attempt), t)) :
    patch.patchId = patchId ∧ attempt.baseCommit = patch.baseCommit := by
  obtain ⟨patches, s₁, -, hrun⟩ := Prog.run_bind_inv exec hrun
  split at hrun
  · cases hrun
  · next entry hfind =>
      obtain ⟨found, s₂, -, hrun⟩ := Prog.run_bind_inv exec hrun
      split at hrun
      · cases hrun
      · next hbase =>
          cases hrun
          exact ⟨by simpa using List.find?_some hfind, not_not.mp hbase⟩

section Erased

variable (answers : Answers)

/-- A program that leaves the store alone does the same on every store. -/
theorem run_outside {α : Type} {p : PatchCommand α} (hp : p.Every fun o : storeOps.Op ⊕ outsideOps.Op => o.isRight = true)
    (s t : ObjectStore) (log : List OutsideOp) :
    p.run (Prog.execPlus exec (outsideExec answers)) (s, log) =
      ((p.run (Prog.execPlus exec (outsideExec answers)) (t, log)).1, s,
        (p.run (Prog.execPlus exec (outsideExec answers)) (t, log)).2.2) := by
  induction p generalizing log with
  | ret a => rfl
  | fail e => rfl
  | op o k ih =>
    cases o with
    | inl o => exact absurd hp.1 (by simp)
    | inr o => exact ih _ (hp.2 _) _

theorem tempPatchFile_every (site : Site) (patchId : String) (bytes : Bytes) :
    (tempPatchFile site patchId bytes).Every fun o : storeOps.Op ⊕ outsideOps.Op => o.isRight = true := by
  refine Prog.every_bind (Prog.every_ofExcept _) fun gitDir => ?_
  refine Prog.every_bind (Prog.every_ofExcept _) fun hex => ?_
  refine Prog.every_bind ⟨rfl, fun _ => Prog.every_ofExcept _⟩ fun _ => ?_
  refine Prog.every_bind (Prog.every_ofExcept _) fun digits => ?_
  refine Prog.every_bind (Prog.every_ofExcept _) fun nowMs => ?_
  exact Prog.every_bind ⟨rfl, fun _ => Prog.every_ofExcept _⟩ fun _ => trivial

/-- The temporary file of a patch, and what was done for it. -/
def tempFile (patchId : String) (bytes : Bytes) : Except CliError String × List OutsideOp :=
  let r := (tempPatchFile site patchId bytes).run (Prog.execPlus exec (outsideExec answers))
    (.empty, [])
  (r.1, r.2.2)

/-- The surroundings as they are without a log. -/
def erasedEnv (patchId : String) : Environment :=
  { env with
    tempPatchFile := fun patchId bytes => (tempFile site answers patchId bytes).1.map fun _ => ()
    gitApplyFile := fun check bytes =>
      match tempFile site answers patchId bytes with
      | (.error e, _) => .error e
      | (.ok path, log) =>
        if check then answers log (.gitApply site.repo path true)
        else answers (log ++ [.gitApply site.repo path true]) (.gitApply site.repo path false) }

variable {α α' β β' : Type} {answers}

/-- The second program is the first one with the log left out, up to `g` on the results. -/
def Erases (answers : Answers) (p : PatchCommand α) (g : α → β) (q : Command β)
    (w : ObjectStore × List OutsideOp) : Prop :=
  q.run exec w.1 = ((p.run (Prog.execPlus exec (outsideExec answers)) w).1.map g,
    (p.run (Prog.execPlus exec (outsideExec answers)) w).2.1)

theorem erases_ret (a : α) (g : α → β) (w : ObjectStore × List OutsideOp) :
    Erases answers (.ret a) g (.ret (g a)) w := rfl

theorem erases_ofExcept (x : Except CliError α) (w : ObjectStore × List OutsideOp) :
    Erases answers (liftM x) id (liftM x) w := by
  cases x <;> rfl

theorem erases_inStore_map (c : Command α) (g : α → β) (w : ObjectStore × List OutsideOp) :
    Erases answers (inStore c) g (c >>= fun a => pure (g a)) w := by
  have hlift := Prog.run_liftLeft exec (outsideExec answers) c w
  rw [Erases, inStore, hlift, Prog.run_bind]
  rcases c.run exec w.1 with ⟨_ | _, _⟩ <;> rfl

theorem erases_inStore (c : Command α) (w : ObjectStore × List OutsideOp) :
    Erases answers (inStore c) id c w := by
  have h := @erases_inStore_map answers _ _ c id w
  rw [show (c >>= fun a => pure (id a)) = c from Prog.bind_pure c] at h
  exact h

theorem inStore_run_ok {c : Command α} {a : α} {w w' : ObjectStore × List OutsideOp}
    (hrun : (inStore c).run (Prog.execPlus exec (outsideExec answers)) w = (.ok a, w')) :
    c.run exec w.1 = (.ok a, w'.1) ∧ w'.2 = w.2 := by
  have hlift := Prog.run_liftLeft exec (outsideExec answers) c w
  rw [inStore, hlift] at hrun
  obtain ⟨hr, rfl⟩ := Prod.mk.inj hrun
  exact ⟨Prod.ext hr rfl, rfl⟩

theorem Erases.bind {p : PatchCommand α} {g : α → β} {q : Command β} {f : α → PatchCommand α'}
    {g' : α' → β'} {h : β → Command β'} {w : ObjectStore × List OutsideOp}
    (hp : Erases answers p g q w)
    (hf : ∀ a w', p.run (Prog.execPlus exec (outsideExec answers)) w = (.ok a, w') →
      Erases answers (f a) g' (h (g a)) w') : Erases answers (p >>= f) g' (q >>= h) w := by
  rw [Erases] at hp ⊢
  rcases hrun : p.run (Prog.execPlus exec (outsideExec answers)) w with ⟨e | a, w'⟩
  · rw [hrun] at hp
    rw [Prog.run_bind_error _ hp, Prog.run_bind_error _ hrun]
    rfl
  · rw [hrun] at hp
    rw [Prog.run_bind_ok _ hp, Prog.run_bind_ok _ hrun]
    exact hf a w' hrun

/-- The temporary file is written the same way on every store. -/
theorem tempPatchFile_run (patchId : String) (bytes : Bytes) (s : ObjectStore) :
    (tempPatchFile site patchId bytes).run (Prog.execPlus exec (outsideExec answers)) (s, []) =
      ((tempFile site answers patchId bytes).1, s, (tempFile site answers patchId bytes).2) :=
  run_outside answers (tempPatchFile_every site patchId bytes) s .empty []

theorem gitApplyFile_run {directory file : String} {check : Bool}
    (w : ObjectStore × List OutsideOp) :
    (gitApplyFile directory file check).run (Prog.execPlus exec (outsideExec answers)) w =
      (answers w.2 (.gitApply directory file check), w.1, w.2 ++ [.gitApply directory file check]) :=
  Prog.run_ofExcept _ _ _

/-- With the log left out, `applyPatch` is `patchApply`. -/
theorem applyPatch_erased (input : PatchApplyInput) (s : ObjectStore) :
    Erases answers (applyPatch T env site input)
      (fun report => (report.application, if report.applied then some report.object else none))
      (patchApply T (erasedEnv env site answers input.patchId) input) (s, []) := by
  rw [patchApply_eq]
  refine (erases_inStore _ _).bind fun ⟨patch, attempt⟩ w hselect => ?_
  obtain ⟨hselect, hlog⟩ := inStore_run_ok hselect
  have hpatch := (selectPatch_ok T hselect).1
  refine (erases_ofExcept _ _).bind fun headCommit w₁ hhead => ?_
  obtain rfl : w₁ = w := by
    rw [Prog.run_ofExcept] at hhead
    exact (congrArg Prod.snd hhead).symm
  refine (erases_inStore _ _).bind fun resolved w₂ hdiff => ?_
  have hlog₂ := (inStore_run_ok hdiff).2
  obtain ⟨s₂, log₂⟩ := w₂
  obtain rfl : log₂ = [] := hlog₂.trans hlog
  -- the file is written, or not, as the surroundings say
  have htemp := @tempPatchFile_run site answers patch.patchId resolved.rawDiff s₂
  have herased : Erases answers (tempPatchFile site patch.patchId resolved.rawDiff) (fun _ => ())
      (liftM ((erasedEnv env site answers input.patchId).tempPatchFile patch.patchId
        resolved.rawDiff)) (s₂, []) := by
    rw [Erases, Prog.run_ofExcept, htemp]
    rfl
  refine herased.bind fun patchFile w₃ hfile => ?_
  rw [htemp] at hfile
  obtain ⟨hfile, rfl⟩ := Prod.mk.inj hfile
  rw [findReplay_eq]
  refine (erases_inStore_map _ (Option.map Prod.fst) _).bind fun found w₄ hfound => ?_
  have hlog₄ := (inStore_run_ok hfound).2
  have hgit : ∀ check, (erasedEnv env site answers input.patchId).gitApplyFile check
      resolved.rawDiff = if check then answers w₄.2 (.gitApply site.repo patchFile true)
        else answers (w₄.2 ++ [.gitApply site.repo patchFile true])
          (.gitApply site.repo patchFile false) := by
    intro check
    show (match tempFile site answers input.patchId resolved.rawDiff with
      | (.error e, _) => _
      | (.ok path, log) => _) = _
    rw [hlog₄, ← hpatch]
    rcases htempFile : tempFile site answers patch.patchId resolved.rawDiff with ⟨r, log⟩
    rw [htempFile] at hfile
    obtain rfl : r = .ok patchFile := congrArg Prod.fst hfile
    rfl
  have hmap : ∀ x : Except CliError Unit, x.map id = x := fun x => by
    cases x <;> rfl
  rcases found with _ | ⟨application, object⟩
  · refine (erases_ofExcept _ _).bind fun _ w₅ hclean => ?_
    rw [Prog.run_ofExcept] at hclean
    obtain rfl : w₅ = w₄ := (congrArg Prod.snd hclean).symm
    -- git is asked twice, and the second answer may depend on the first
    have hcheck : Erases answers (gitApplyFile site.repo patchFile true) id
        (liftM ((erasedEnv env site answers input.patchId).gitApplyFile true resolved.rawDiff))
        w₅ := by
      rw [Erases, Prog.run_ofExcept, gitApplyFile_run, hgit, if_pos rfl, hmap]
    refine hcheck.bind fun _ w₆ hrun => ?_
    rw [gitApplyFile_run] at hrun
    obtain ⟨-, rfl⟩ := Prod.mk.inj hrun
    have hreal : Erases answers (gitApplyFile site.repo patchFile false) id
        (liftM ((erasedEnv env site answers input.patchId).gitApplyFile false resolved.rawDiff))
        (w₅.1, w₅.2 ++ [.gitApply site.repo patchFile true]) := by
      rw [Erases, Prog.run_ofExcept, gitApplyFile_run, hgit, if_neg (by decide), hmap]
    refine hreal.bind fun _ w₇ _ => ?_
    refine (erases_ofExcept _ _).bind fun appliedAtMs w₈ _ => ?_
    exact (erases_inStore _ _).bind fun object w₉ _ => erases_ret _ _ _
  · exact erases_ret _ _ _

end Erased

end RickydataGit.Cli
