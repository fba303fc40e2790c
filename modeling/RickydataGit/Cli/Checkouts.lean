/-
  The paths `patch checkout` makes and removes.

  A `FileSystem` answers the operations outside the store and says which paths are there.
  It is arbitrary up to what the operations are for: reading changes nothing, only git takes
  paths away and only in the directory it works in, and a work tree that was removed is gone.
  What git records about its work trees is left out, and so is the temporary file.

  `RemovesOwn`: what was there and is gone stood in a checkout of the same patch, and
  `--force` was given. This holds of every call (`removesOwn`).

  `FailsClean`: a call that ends in an error leaves no checkout behind. The clean-up only
  covers what follows the temporary patch file, so this holds exactly when nothing is left of
  a work tree that could not be added, and the file can be written beside one that was
  (`AddsCleanly`).
-/
import RickydataGit.Cli.ReviewQueue

namespace RickydataGit.Cli

open RickydataGit.Lib RickydataGit.Core RickydataGit.Git

/-! ## File systems -/

/-- The directory an operation may take paths from. -/
def OutsideOp.clears : OutsideOp → Option String
  | .gitApply directory _ _ => some directory
  | .removeWorktree path => some path
  | _ => none

structure FileSystem (F : Type) where
  answer : (o : outsideOps.Op) → F → outsideOps.Ans o × F
  there : F → String → Bool
  marker : F → String → Except CliError ReviewCheckoutMarker
  /-- The first path is the second one or stands in it. -/
  Within : String → String → Prop
  there_of_within : ∀ {f p q}, Within q p → there f q = true → there f p = true
  pathExists : ∀ p f, answer (.pathExists p) f = (there f p, f)
  readMarker : ∀ p f, answer (.readMarker p) f = (marker f p, f)
  lost : ∀ {o f q}, there f q = true → there (answer o f).2 q = false →
    ∃ p, OutsideOp.clears o = some p ∧ Within q p
  added : ∀ {p base f}, (answer (.addWorktree p base) f).1 = .ok () →
    there (answer (.addWorktree p base) f).2 p = true
  removed : ∀ p f, (answer (.removeWorktree p) f).1 = .ok () ∧
    there (answer (.removeWorktree p) f).2 p = false

section FileSystem

variable {F α : Type} (fs : FileSystem F)

/-- A run on a store and a file system. -/
abbrev runOn (p : PatchCommand α) (w : ObjectStore × F) :
    Except CliError α × ObjectStore × F :=
  p.run (Prog.execPlus exec fs.answer) w

/-- The operations outside the store take paths from one directory at most. -/
def ClearsIn (p : String) : storeOps.Op ⊕ outsideOps.Op → Prop
  | .inl _ => True
  | .inr o => ∀ q, OutsideOp.clears o = some q → q = p

def ClearsNothing : storeOps.Op ⊕ outsideOps.Op → Prop
  | .inl _ => True
  | .inr o => OutsideOp.clears o = none

theorem runOn_inStore (c : Command α) (w : ObjectStore × F) :
    runOn fs (inStore c) w = ((c.run exec w.1).1, (c.run exec w.1).2, w.2) :=
  Prog.run_liftLeft exec fs.answer c w

variable {fs}

/-- What is lost stood in the directory. -/
theorem within_of_lost {p q : String} {c : PatchCommand α} (hc : c.Every (ClearsIn p))
    {w : ObjectStore × F} (hbefore : fs.there w.2 q = true)
    (hafter : fs.there (runOn fs c w).2.2 q = false) : fs.Within q p := by
  have hkept : fs.there (runOn fs c w).2.2 q = true ∨ fs.Within q p := by
    refine Prog.run_frame
      (I := fun v : ObjectStore × F => fs.there v.2 q = true ∨ fs.Within q p)
      (fun o ho v hv => ?_) hc (.inl hbefore)
    rcases hv with hv | hv
    · rcases o with o | o
      · exact .inl hv
      · rcases hthere : fs.there (fs.answer o v.2).2 q with _ | _
        · obtain ⟨p', hclears, hwithin⟩ := fs.lost hv hthere
          exact .inr (ho p' hclears ▸ hwithin)
        · exact .inl hthere
    · exact .inr hv
  rcases hkept with hkept | hwithin
  · rw [hkept] at hafter
    cases hafter
  · exact hwithin

/-- A program that takes nothing away. -/
theorem there_of_clearsNothing {q : String} {c : PatchCommand α} (hc : c.Every ClearsNothing)
    {w : ObjectStore × F} (hbefore : fs.there w.2 q = true) :
    fs.there (runOn fs c w).2.2 q = true := by
  refine Prog.run_frame (I := fun v : ObjectStore × F => fs.there v.2 q = true)
    (fun o ho v hv => ?_) hc hbefore
  rcases o with o | o
  · exact hv
  · rcases hthere : fs.there (fs.answer o v.2).2 q with _ | _
    · obtain ⟨p, hclears, -⟩ := fs.lost hv hthere
      rw [show OutsideOp.clears o = none from ho] at hclears
      cases hclears
    · exact hthere

end FileSystem

/-! ## What a checkout takes away -/

section Checkout

variable {F : Type} {fs : FileSystem F} {T : Tools} {env : Environment} {site : Site}

theorem every_inStore {α : Type} {P : storeOps.Op ⊕ outsideOps.Op → Prop}
    (hstore : ∀ o, P (.inl o)) (c : Command α) : (inStore c).Every P := by
  induction c with
  | ret a => trivial
  | fail e => trivial
  | op o k ih => exact ⟨hstore o, ih⟩

theorem every_addReviewWorktree (path baseCommit : String) :
    (addReviewWorktree path baseCommit).Every ClearsNothing := by
  have hparent : (createParent path).Every ClearsNothing :=
    ⟨rfl, fun a => Prog.every_ofExcept a⟩
  exact Prog.every_bind hparent fun _ => ⟨rfl, fun a => Prog.every_ofExcept a⟩

theorem every_tempPatchFile (patchId : String) (patchBytes : Bytes) :
    (tempPatchFile site patchId patchBytes).Every ClearsNothing := by
  refine Prog.every_bind (Prog.every_ofExcept _) fun gitDir => ?_
  refine Prog.every_bind (Prog.every_ofExcept _) fun hex => ?_
  refine Prog.every_bind ⟨rfl, fun a => Prog.every_ofExcept a⟩ fun _ => ?_
  refine Prog.every_bind (Prog.every_ofExcept _) fun digits => ?_
  refine Prog.every_bind (Prog.every_ofExcept _) fun nowMs => ?_
  exact Prog.every_bind ⟨rfl, fun a => Prog.every_ofExcept a⟩ fun _ => trivial

theorem clearsIn_of_nothing {p : String} {α : Type} {c : PatchCommand α}
    (hc : c.Every ClearsNothing) : c.Every (ClearsIn p) := by
  refine Prog.every_mono (fun o ho => ?_) hc
  rcases o with o | o
  · trivial
  · intro q hq
    rw [show OutsideOp.clears o = none from ho] at hq
    cases hq

theorem every_fillCheckout (patch : PreparedPatch) (attempt : AgentAttempt)
    (resolved : ResolvedPatchDiff) (path file : String) :
    (fillCheckout env patch attempt resolved path file).Every (ClearsIn path) := by
  have happly : ∀ check, (gitApplyFile path file check).Every (ClearsIn path) := fun check =>
    ⟨fun q hq => (Option.some.inj hq).symm, fun a => Prog.every_ofExcept a⟩
  refine Prog.every_bind (happly true) fun _ => Prog.every_bind (happly false) fun _ => ?_
  refine Prog.every_bind (Prog.every_ofExcept _) fun createdAtMs => ?_
  exact ⟨nofun, fun a => Prog.every_ofExcept a⟩

variable (T env site) in
/-- What `checkoutPatch` looks up before it comes to the path. -/
def checkedPatch (input : PatchCheckoutInput) :
    Command (PreparedPatch × AgentAttempt × String × ResolvedPatchDiff) := do
  let (patch, attempt) ← selectPatch T input.patchId
  let headCommit ← headFor env patch input.allowBaseDrift
  let resolved ← diffFor T env patch attempt "check out"
  return (patch, attempt, headCommit, resolved)

variable (env site) in
/-- `checkoutPatch` from the new work tree on. -/
def addCheckout (patch : PreparedPatch) (attempt : AgentAttempt) (resolved : ResolvedPatchDiff)
    (path : String) : PatchCommand Unit := do
  addReviewWorktree path patch.baseCommit
  let patchFile ← tempPatchFile site patch.patchId resolved.rawDiff
  match ← (fillCheckout env patch attempt resolved path patchFile).attempt with
  | .error e =>
    let _ ← outside (.removeWorktree path)
    .fail e
  | .ok () => return ()

variable (env site) in
/-- `checkoutPatch` from the path on. -/
def placeCheckout (input : PatchCheckoutInput) (patch : PreparedPatch) (attempt : AgentAttempt)
    (headCommit : String) (resolved : ResolvedPatchDiff) : PatchCommand PatchCheckoutReport := do
  let checkoutPath ← reviewCheckoutPath site patch.patchId input.path
  let replaced ← prepareReviewCheckoutPath checkoutPath patch.patchId input.force
  addCheckout env site patch attempt resolved checkoutPath
  return {
    patchId := patch.patchId, attemptId := attempt.attemptId, baseCommit := attempt.baseCommit
    headCommit, checkoutPath, applied := true, diffHash := resolved.diffHash
    diffBytes := resolved.diffBytes, fileCount := resolved.filePaths.length
    filePaths := resolved.filePaths, replaced }

theorem inStore_bind {α β : Type} (c : Command α) (f : α → Command β) :
    inStore (c >>= f) = inStore c >>= fun a => inStore (f a) := by
  induction c with
  | ret a => rfl
  | fail e => rfl
  | op o k ih => exact congrArg (Prog.op _) (funext ih)

theorem inStore_ofExcept {α : Type} (x : Except CliError α) :
    inStore (liftM x : Command α) = (liftM x : PatchCommand α) := by
  rcases x with e | a
  · rfl
  · rfl

theorem addCheckout_bind {α : Type} (patch : PreparedPatch) (attempt : AgentAttempt)
    (resolved : ResolvedPatchDiff) (path : String) (a : α) :
    (addCheckout env site patch attempt resolved path >>= fun _ => (pure a : PatchCommand α)) = (do
      addReviewWorktree path patch.baseCommit
      let patchFile ← tempPatchFile site patch.patchId resolved.rawDiff
      match ← (fillCheckout env patch attempt resolved path patchFile).attempt with
      | .error e =>
        let _ ← outside (.removeWorktree path)
        .fail e
      | .ok () => return a) := by
  unfold addCheckout
  rw [Prog.bind_assoc]
  congr 1
  funext _
  rw [Prog.bind_assoc]
  congr 1
  funext patchFile
  rw [Prog.bind_assoc]
  congr 1
  funext filled
  rcases filled with e | _
  · rfl
  · rfl

theorem checkoutPatch_eq (input : PatchCheckoutInput) : checkoutPatch T env site input =
    inStore (checkedPatch T env input) >>= fun (patch, attempt, headCommit, resolved) =>
      placeCheckout env site input patch attempt headCommit resolved := by
  unfold checkoutPatch checkedPatch
  rw [inStore_bind, Prog.bind_assoc]
  congr 1
  funext ⟨patch, attempt⟩
  dsimp only
  rw [inStore_bind, Prog.bind_assoc, inStore_ofExcept]
  congr 1
  funext headCommit
  rw [inStore_bind, Prog.bind_assoc]
  congr 1
  funext resolved
  show _ = placeCheckout env site input patch attempt headCommit resolved
  unfold placeCheckout
  congr 1
  funext path
  congr 1
  funext replaced
  exact (addCheckout_bind patch attempt resolved path _).symm

theorem every_addCheckout (patch : PreparedPatch) (attempt : AgentAttempt)
    (resolved : ResolvedPatchDiff) (path : String) :
    (addCheckout env site patch attempt resolved path).Every (ClearsIn path) := by
  refine Prog.every_bind (clearsIn_of_nothing (every_addReviewWorktree _ _)) fun _ => ?_
  refine Prog.every_bind (clearsIn_of_nothing (every_tempPatchFile _ _)) fun file => ?_
  refine Prog.every_bind (Prog.every_attempt (every_fillCheckout _ _ _ _ _)) fun filled => ?_
  rcases filled with e | _
  · exact ⟨fun q hq => (Option.some.inj hq).symm, fun _ => trivial⟩
  · trivial

theorem every_prepareReviewCheckoutPath (path patchId : String) (force : Bool) :
    (prepareReviewCheckoutPath path patchId force).Every (ClearsIn path) := by
  refine Prog.every_bind ⟨nofun, fun _ => trivial⟩ fun there => ?_
  rcases there with _ | _
  · trivial
  rcases force with _ | _
  · trivial
  refine Prog.every_bind ⟨nofun, fun a => Prog.every_ofExcept a⟩ fun marker => ?_
  split
  · trivial
  · have hremove : (removeReviewWorktree path).Every (ClearsIn path) :=
      ⟨fun q hq => (Option.some.inj hq).symm, fun a => Prog.every_ofExcept a⟩
    exact Prog.every_bind hremove fun _ => trivial

variable (fs) in
/-- The path is free, or refused, or a checkout of the same patch that is to be replaced. -/
theorem prepareReviewCheckoutPath_cases (path patchId : String) (force : Bool)
    (w : ObjectStore × F) :
    fs.there w.2 path = false ∧
        runOn fs (prepareReviewCheckoutPath path patchId force) w = (.ok false, w) ∨
      fs.there w.2 path = true ∧
        (∃ e, runOn fs (prepareReviewCheckoutPath path patchId force) w = (.error e, w)) ∨
      fs.there w.2 path = true ∧ force = true ∧
        ∃ marker, fs.marker w.2 path = .ok marker ∧ marker.patchId = patchId := by
  have hrun : ∀ {α : Type} (k : Bool → PatchCommand α),
      runOn fs (outside (.pathExists path) >>= k) w = runOn fs (k (fs.there w.2 path)) w := by
    intro α k
    show (k (fs.answer (.pathExists path) w.2).1).run _
      (w.1, (fs.answer (.pathExists path) w.2).2) = _
    rw [fs.pathExists]
  unfold prepareReviewCheckoutPath
  rw [hrun]
  rcases hthere : fs.there w.2 path with _ | _
  · exact .inl ⟨rfl, rfl⟩
  · right
    rcases force with _ | _
    · exact .inl ⟨rfl, _, rfl⟩
    have hread : ∀ {α : Type} (k : ReviewCheckoutMarker → PatchCommand α),
        runOn fs (readReviewCheckoutMarker path >>= k) w =
          runOn fs (liftM (fs.marker w.2 path) >>= k) w := by
      intro α k
      show ((Prog.ofExcept (fs.answer (.readMarker path) w.2).1 >>= k).run _
        (w.1, (fs.answer (.readMarker path) w.2).2)) = _
      rw [fs.readMarker]
      rfl
    rcases hmarker : fs.marker w.2 path with e | marker
    · refine .inl ⟨rfl, e, ?_⟩
      refine (hread _).trans ?_
      rw [hmarker]
      rfl
    · by_cases hsame : marker.patchId = patchId
      · exact .inr ⟨rfl, rfl, marker, rfl, hsame⟩
      · refine .inl ⟨rfl, .bail
          s!"checkout path {path} belongs to patch {marker.patchId}, expected {patchId}", ?_⟩
        refine (hread _).trans ?_
        rw [hmarker, Prog.liftM_ok, Prog.ret_bind, if_pos hsame]
        rfl

theorem checkedPatch_ok {input : PatchCheckoutInput} {patch : PreparedPatch}
    {attempt : AgentAttempt} {headCommit : String} {resolved : ResolvedPatchDiff}
    {s t : ObjectStore} (hrun : (checkedPatch T env input).run exec s =
      (.ok (patch, attempt, headCommit, resolved), t)) : patch.patchId = input.patchId := by
  obtain ⟨⟨found, own⟩, s₁, hselect, hrun⟩ := Prog.run_bind_inv exec hrun
  obtain ⟨head, -, hrun⟩ := Prog.run_bind_ofExcept_inv exec hrun
  obtain ⟨diff, s₂, -, hrun⟩ := Prog.run_bind_inv exec hrun
  cases hrun
  exact (selectPatch_ok T hselect).1

variable (fs site) in
/-- What was there and is gone stood in a checkout of the same patch, to be replaced. -/
def RemovesOwn (input : PatchCheckoutInput) (before after : F) : Prop :=
  ∀ q, fs.there before q = true → fs.there after q = false →
    input.force = true ∧ ∃ path marker,
      reviewCheckoutPath site input.patchId input.path = .ok path ∧ fs.Within q path ∧
        fs.marker before path = .ok marker ∧ marker.patchId = input.patchId

theorem placeCheckout_removesOwn (input : PatchCheckoutInput) (patch : PreparedPatch)
    (attempt : AgentAttempt) (headCommit : String) (resolved : ResolvedPatchDiff)
    (hid : patch.patchId = input.patchId) (w : ObjectStore × F) :
    RemovesOwn fs site input w.2
      (runOn fs (placeCheckout env site input patch attempt headCommit resolved) w).2.2 := by
  intro q hbefore hafter
  unfold placeCheckout at hafter
  rw [hid] at hafter
  rcases hpath : reviewCheckoutPath site input.patchId input.path with e | path
  · rw [hpath, Prog.liftM_error, Prog.fail_bind, runOn, Prog.run_fail, hbefore] at hafter
    cases hafter
  rw [hpath, Prog.liftM_ok, Prog.ret_bind, runOn, Prog.run_bind] at hafter
  rcases prepareReviewCheckoutPath_cases fs path input.patchId input.force w with
    ⟨hfree, hrun⟩ | ⟨-, e, hrun⟩ | ⟨-, hforce, marker, hmarker, hsame⟩
  · -- nothing stood where no path was
    rw [runOn] at hrun
    rw [hrun] at hafter
    have hwithin : fs.Within q path := by
      refine within_of_lost ?_ hbefore hafter
      exact Prog.every_bind (every_addCheckout _ _ _ _) fun _ => trivial
    rw [fs.there_of_within hwithin hbefore] at hfree
    cases hfree
  · rw [runOn] at hrun
    rw [hrun, hbefore] at hafter
    cases hafter
  · refine ⟨hforce, path, marker, rfl, ?_, hmarker, hsame⟩
    rw [← Prog.run_bind] at hafter
    refine within_of_lost ?_ hbefore hafter
    exact Prog.every_bind (every_prepareReviewCheckoutPath _ _ _) fun _ =>
      Prog.every_bind (every_addCheckout _ _ _ _) fun _ => trivial

/-- The first half of what is promised: it holds of every call. -/
theorem checkoutPatch_removesOwn (input : PatchCheckoutInput) (s : ObjectStore) (f : F) :
    RemovesOwn fs site input f (runOn fs (checkoutPatch T env site input) (s, f)).2.2 := by
  rw [checkoutPatch_eq, runOn, Prog.run_bind]
  have hrun := runOn_inStore fs (checkedPatch T env input) (s, f)
  rw [runOn] at hrun
  rw [hrun]
  rcases hchecked : (checkedPatch T env input).run exec s with
    ⟨e | ⟨patch, attempt, head, resolved⟩, t⟩
  · intro q hbefore hafter
    rw [hbefore] at hafter
    cases hafter
  · exact placeCheckout_removesOwn input patch attempt head resolved
      (checkedPatch_ok hchecked) (t, f)

/-! ## What a failed checkout leaves -/

/-- An error is returned. -/
def Fails {α : Type} (result : Except CliError α) : Prop :=
  ∃ e, result = .error e ∧ e ≠ .panic

variable (fs site) in
/-- After an error no checkout is there that was not there before. -/
def FailsClean (input : PatchCheckoutInput) (before : F)
    (ended : Except CliError PatchCheckoutReport × F) : Prop :=
  Fails ended.1 → ∀ path, reviewCheckoutPath site input.patchId input.path = .ok path →
    fs.there before path = false → fs.there ended.2 path = false

variable (fs site) in
/-- Nothing is left of a work tree that could not be added, and beside one that was added the
    file of the patch can be written. -/
def AddsCleanly (patch : PreparedPatch) (resolved : ResolvedPatchDiff) (path : String)
    (w : ObjectStore × F) : Prop :=
  let added := runOn fs (addReviewWorktree path patch.baseCommit) w
  match added.1 with
  | .error e => e ≠ .panic → fs.there added.2.2 path = false
  | .ok () => ¬ Fails (runOn fs (tempPatchFile site patch.patchId resolved.rawDiff) added.2).1

theorem there_of_added {path baseCommit : String} {w w' : ObjectStore × F}
    (hrun : runOn fs (addReviewWorktree path baseCommit) w = (.ok (), w')) :
    fs.there w'.2 path = true := by
  obtain ⟨_, w₁, -, hadd⟩ := Prog.run_bind_inv _ hrun
  have hadd' : ((Prog.ofExcept (fs.answer (.addWorktree path baseCommit) w₁.2).1 :
      PatchCommand Unit).run (Prog.execPlus exec fs.answer)
      (w₁.1, (fs.answer (.addWorktree path baseCommit) w₁.2).2)) = (.ok (), w') := hadd
  obtain ⟨hok, rfl⟩ := Prod.mk.inj ((Prog.run_ofExcept _ _ _).symm.trans hadd')
  exact fs.added hok

theorem not_fails_ok {α : Type} (a : α) : ¬ Fails (.ok a : Except CliError α) := by
  rintro ⟨e, h, -⟩
  cases h

theorem fails_error_iff {α : Type} {e : CliError} :
    Fails (.error e : Except CliError α) ↔ e ≠ .panic :=
  ⟨fun ⟨_, h, hne⟩ => Except.error.inj h ▸ hne, fun hne => ⟨e, rfl, hne⟩⟩

/-- Once the file is written, an error takes the work tree away. -/
theorem fill_run_clean (patch : PreparedPatch) (attempt : AgentAttempt)
    (resolved : ResolvedPatchDiff) (path file : String) (w : ObjectStore × F)
    (hfails : Fails (runOn fs (do
      match ← (fillCheckout env patch attempt resolved path file).attempt with
      | .error e =>
        let _ ← outside (.removeWorktree path)
        .fail e
      | .ok () => return () : PatchCommand Unit) w).1) :
    fs.there (runOn fs (do
      match ← (fillCheckout env patch attempt resolved path file).attempt with
      | .error e =>
        let _ ← outside (.removeWorktree path)
        .fail e
      | .ok () => return () : PatchCommand Unit) w).2.2 path = false := by
  have hattempt : ((fillCheckout env patch attempt resolved path file).attempt :
      PatchCommand (Except CliError Unit)).run (Prog.execPlus exec fs.answer) w = _ :=
    Prog.run_attempt _ (fillCheckout env patch attempt resolved path file) w
  rw [runOn, Prog.run_bind_ok _ hattempt] at hfails ⊢
  generalize (Prog.run (Prog.execPlus exec fs.answer)
    (fillCheckout env patch attempt resolved path file) w).1 = filled at hfails ⊢
  rcases filled with e | _
  · exact (fs.removed path _).2
  · exact absurd hfails (not_fails_ok _)

variable (fs env site) in
theorem addCheckout_clean_iff (patch : PreparedPatch) (attempt : AgentAttempt)
    (resolved : ResolvedPatchDiff) (path : String) (w : ObjectStore × F) :
    (Fails (runOn fs (addCheckout env site patch attempt resolved path) w).1 →
      fs.there (runOn fs (addCheckout env site patch attempt resolved path) w).2.2 path = false) ↔
      AddsCleanly fs site patch resolved path w := by
  unfold AddsCleanly addCheckout
  rcases hadd : runOn fs (addReviewWorktree path patch.baseCommit) w with ⟨e | _, w₁⟩
  · rw [runOn, Prog.run_bind_error _ hadd, fails_error_iff]
  rw [runOn, Prog.run_bind_ok _ hadd]
  have hthere := there_of_added hadd
  dsimp only
  rcases htemp : runOn fs (tempPatchFile site patch.patchId resolved.rawDiff) w₁ with
    ⟨e | file, w₂⟩
  · rw [Prog.run_bind_error _ htemp]
    have hstill : fs.there
        (runOn fs (tempPatchFile site patch.patchId resolved.rawDiff) w₁).2.2 path = true :=
      there_of_clearsNothing (every_tempPatchFile _ _) hthere
    rw [htemp] at hstill
    rw [hstill, fails_error_iff, fails_error_iff]
    exact ⟨fun h hne => Bool.noConfusion (h hne), fun h hne => absurd hne h⟩
  · rw [Prog.run_bind_ok _ htemp]
    exact iff_of_true (fill_run_clean patch attempt resolved path file w₂) (not_fails_ok _)

variable (fs env site) in
theorem placeCheckout_failsClean_iff (input : PatchCheckoutInput) (patch : PreparedPatch)
    (attempt : AgentAttempt) (headCommit : String) (resolved : ResolvedPatchDiff)
    (hid : patch.patchId = input.patchId) (t : ObjectStore) (f : F) :
    FailsClean fs site input f (Prod.map id Prod.snd
        (runOn fs (placeCheckout env site input patch attempt headCommit resolved) (t, f))) ↔
      ∀ path, reviewCheckoutPath site input.patchId input.path = .ok path →
        fs.there f path = false → AddsCleanly fs site patch resolved path (t, f) := by
  unfold FailsClean placeCheckout
  rw [hid]
  rcases hpath : reviewCheckoutPath site input.patchId input.path with e | path
  · exact iff_of_true nofun nofun
  rw [Prog.liftM_ok, Prog.ret_bind]
  rcases prepareReviewCheckoutPath_cases fs path input.patchId input.force (t, f) with
    ⟨hfree, hrun⟩ | hthere
  · rw [runOn, Prog.run_bind_ok _ hrun]
    have hiff := addCheckout_clean_iff fs env site patch attempt resolved path (t, f)
    rcases hadd : runOn fs (addCheckout env site patch attempt resolved path) (t, f) with
      ⟨e | _, w⟩
    · rw [Prog.run_bind_error _ hadd]
      rw [hadd, fails_error_iff] at hiff
      constructor
      · rintro hclean _ ⟨⟩ _
        exact hiff.mp fun hne => hclean (fails_error_iff.mpr hne) path rfl hfree
      · rintro hcond hfails _ ⟨⟩ _
        exact hiff.mpr (hcond path rfl hfree) (fails_error_iff.mp hfails)
    · rw [Prog.run_bind_ok _ hadd]
      rw [hadd] at hiff
      constructor
      · rintro - _ ⟨⟩ _
        exact hiff.mp fun h => absurd h (not_fails_ok _)
      · rintro - hfails
        exact absurd hfails (not_fails_ok _)
  · have hvacuous : ∀ {P : Prop}, fs.there f path = false → P := by
      intro P hfree
      rcases hthere with ⟨h, -⟩ | ⟨h, -⟩
      · exact absurd (h.symm.trans hfree) (by decide)
      · exact absurd (h.symm.trans hfree) (by decide)
    constructor
    · rintro - _ ⟨⟩ hfree
      exact hvacuous hfree
    · rintro - - _ ⟨⟩ hfree
      exact hvacuous hfree

/-- The second half, and when it holds. -/
theorem checkoutPatch_failsClean_iff (input : PatchCheckoutInput) (s : ObjectStore) (f : F) :
    FailsClean fs site input f (Prod.map id Prod.snd
        (runOn fs (checkoutPatch T env site input) (s, f))) ↔
      ∀ patch attempt headCommit resolved t,
        (checkedPatch T env input).run exec s = (.ok (patch, attempt, headCommit, resolved), t) →
        ∀ path, reviewCheckoutPath site input.patchId input.path = .ok path →
          fs.there f path = false → AddsCleanly fs site patch resolved path (t, f) := by
  rw [checkoutPatch_eq, runOn, Prog.run_bind]
  have hrun := runOn_inStore fs (checkedPatch T env input) (s, f)
  rw [runOn] at hrun
  rw [hrun]
  rcases hchecked : (checkedPatch T env input).run exec s with
    ⟨e | ⟨patch, attempt, headCommit, resolved⟩, t⟩
  · constructor
    · rintro - patch attempt headCommit resolved t ⟨⟩
    · intro _ _ path _ hfree
      exact hfree
  · have hiff := placeCheckout_failsClean_iff fs env site input patch attempt headCommit resolved
      (checkedPatch_ok hchecked) t f
    constructor
    · rintro hclean _ _ _ _ _ ⟨⟩
      exact hiff.mp hclean
    · intro hcond
      exact hiff.mpr (hcond patch attempt headCommit resolved t rfl)

end Checkout

/-- A file stands where the directory of the temporary files should be. -/
def fileInTheWay : FileSystem (List String) where
  answer
    | .pathExists path, f => (f.contains path, f)
    | .createDirAll path, f =>
      if path = "/repo/.git/rickydata/tmp" then
        (.error (.bail "failed to create temp dir `/repo/.git/rickydata/tmp`"), f)
      else (.ok (), path :: f)
    | .createParent _, f => (.ok (), f)
    | .writeFile path _, f => (.ok (), path :: f)
    | .gitApply _ _ _, f => (.ok (), f)
    | .readMarker _, f => (.error (.bail "no marker"), f)
    | .addWorktree path _, f => (.ok (), path :: f)
    | .removeWorktree path, f => (.ok (), f.filter (· != path))
    | .writeMarker _ _, f => (.ok (), f)
  there f path := f.contains path
  marker _ _ := .error (.bail "no marker")
  Within q p := q = p
  there_of_within := fun hwithin hthere => hwithin ▸ hthere
  pathExists _ _ := rfl
  readMarker _ _ := rfl
  lost {o f q} hbefore hafter := by
    have hkept : ∀ path : String, (path :: f).contains q = true := fun path => by
      simp only [List.contains_eq_mem, decide_eq_true_eq] at hbefore ⊢
      exact List.mem_cons_of_mem path hbefore
    cases o with
    | removeWorktree path =>
      refine ⟨path, rfl, ?_⟩
      by_contra hne
      have hmem : q ∈ f.filter (· != path) :=
        List.mem_filter.mpr ⟨by simpa using hbefore, by simpa using hne⟩
      simp only [List.contains_eq_mem, hmem, decide_true] at hafter
      cases hafter
    | createDirAll path =>
      by_cases hblocked : path = "/repo/.git/rickydata/tmp"
      · simp only [if_pos hblocked, hbefore] at hafter
        cases hafter
      · simp only [if_neg hblocked, hkept] at hafter
        cases hafter
    | writeFile path bytes => exact absurd ((hkept path).symm.trans hafter) (by decide)
    | addWorktree path base => exact absurd ((hkept path).symm.trans hafter) (by decide)
    | _ => exact absurd (hbefore.symm.trans hafter) (by decide)
  added {path base f} _ := by simp
  removed path f := by simp

def queuedCheckout : PatchCheckoutInput where
  patchId := "sha256:0123456789ab"
  path := none
  force := false
  allowBaseDrift := false

theorem queued_checked : ∃ s t,
    (checkedPatch .reference queuedEnvironment queuedCheckout).run exec s =
      (.ok (queuedPatch, queuedAttempt queuedHead, queuedHead, queuedDiff), t) := by
  obtain ⟨s, hs⟩ : ∃ s, Filled .reference (queuedObjects queuedHead) s := queued_filled (by
    rw [queuedPatchObject_objectId, queuedAttemptObject_head]
    decide)
  obtain ⟨patches, t, hpatches, ht, hsome, hall⟩ := queued_patches hs
  obtain ⟨u, hattempt, -⟩ := queued_attempt ht
  have hfirst : (patches.find? fun entry => entry.body.patchId == "sha256:0123456789ab").map
      Listed.body = some queuedPatch := by
    cases patches with
    | nil => exact absurd rfl hsome
    | cons first rest =>
      have hentry := hall first List.mem_cons_self
      rw [List.find?_cons_of_pos (by rw [hentry]; rfl), Option.map_some, hentry]
  have hselect := (selectPatch_ok_iff hpatches).mpr ⟨hfirst, hattempt, rfl⟩
  have hhead : headFor queuedEnvironment queuedPatch false = .ok queuedHead :=
    headFor_ok_iff.mpr ⟨rfl, rfl⟩
  have hdiff : (diffFor .reference queuedEnvironment queuedPatch (queuedAttempt queuedHead)
      "check out").run exec u = (.ok queuedDiff, u) :=
    diffFor_ok_iff.mpr ⟨queued_diff u, by decide⟩
  refine ⟨s, u, ?_⟩
  refine (Prog.run_bind_ok exec hselect _).trans ?_
  show ((liftM (headFor queuedEnvironment queuedPatch false) >>= _ : Command _).run exec u) = _
  rw [hhead, Prog.liftM_ok, Prog.ret_bind]
  exact (Prog.run_bind_ok exec hdiff _).trans rfl

end RickydataGit.Cli
