/-
  The reading parts of the commands, made again in a later store.

  The lists, the lookups and the resolution of a diff are `Settled`: once they succeeded
  they give the same result in every later store that lists the kinds they look at as
  before, and change nothing there.
-/
import RickydataGit.Git.Settled
import RickydataGit.Cli.Outside

namespace RickydataGit.Cli

open RickydataGit.Lib RickydataGit.Core RickydataGit.Git

variable (T : Tools) {X : Crates} {K : String → Prop}

theorem settled_readBodies {α : Type} (name : String) (read : Value → Option α)
    (entries : List ObjectListEntry) : Settled T.toCrates K (readBodies T name read entries) := by
  induction entries with
  | nil => exact settled_ret []
  | cons entry rest ih =>
    refine settled_bind_read (fun report => rfl) fun report => ?_
    exact (settled_ofExcept _).bind fun body => ih.bind fun listed => settled_ret _

theorem settled_listBodies {α : Type} {kind : String} (hK : K kind) (name : String)
    (read : Value → Option α) : Settled T.toCrates K (listBodies T kind name read) :=
  ((settled_list hK).mapFail _).bind fun entries => settled_readBodies T name read entries

theorem settled_listPatches (hK : K "agent.patch") : Settled T.toCrates K (listPatches T) :=
  (settled_listBodies T hK _ _).bind fun _ => settled_ret _

theorem settled_retiredPatchIds (hK : K "agent.patch_retirement") :
    Settled T.toCrates K (retiredPatchIds T) :=
  (settled_listBodies T hK _ _).bind fun _ => settled_ret _

theorem settled_listAttempts (hK : K "agent.attempt") : Settled T.toCrates K (listAttempts T) :=
  (settled_listBodies T hK _ _).bind fun _ => settled_ret _

theorem settled_findAttempt (hK : K "agent.attempt") (attemptId : String) :
    Settled T.toCrates K (findAttempt T attemptId) := by
  refine (settled_listAttempts T hK).bind fun attempts => ?_
  split
  · exact settled_fail _
  · exact settled_ret _

theorem settled_effectiveAttemptStatus (hK : K "agent.attempt") (hK' : K "agent.attempt_status")
    (attemptId : String) : Settled T.toCrates K (effectiveAttemptStatus T attemptId) := by
  refine (settled_findAttempt T hK attemptId).bind fun attempt => ?_
  refine Settled.bind ((settled_listBodies T hK' _ _).bind fun _ => settled_ret _) fun listed => ?_
  dsimp only
  split
  · exact settled_ret _
  · exact settled_ret _

theorem settled_resolvePatchDiff (env : Environment) (patch : PreparedPatch)
    (attempt : AgentAttempt) :
    Settled T.toCrates K (resolvePatchDiff (toolsIn T env) patch attempt) := by
  unfold resolvePatchDiff
  split
  · refine settled_bind_read (fun report => rfl) fun report => settled_ofExcept _
  · exact settled_ofExcept _

theorem settled_selectPatch (hK : K "agent.patch") (hK' : K "agent.attempt") (patchId : String) :
    Settled T.toCrates K (selectPatch T patchId) := by
  refine (settled_listPatches T hK).bind fun patches => ?_
  split
  · exact settled_fail _
  · refine (settled_findAttempt T hK' _).bind fun attempt => ?_
    split
    · exact settled_fail _
    · exact settled_ret _

theorem settled_diffFor (env : Environment) (patch : PreparedPatch) (attempt : AgentAttempt)
    (purpose : String) : Settled T.toCrates K (diffFor T env patch attempt purpose) := by
  refine (settled_resolvePatchDiff T env patch attempt).bind fun resolved => ?_
  split
  · exact settled_fail _
  · exact settled_ret _

end RickydataGit.Cli
