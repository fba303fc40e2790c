/-
  Ids that are made of selections.

  `change detect` hashes the ids of the runs it selects, `patch prepare` those of the changes
  it finds. Both lists are sorted and without repetitions before they are hashed.

  `ids_depend_on_sets`: a selection succeeds exactly when the runs can be listed and every
  requested one is a run of the attempt, and it gives the requested ones, increasing by id.
  The order of the request does not matter, nor the order of the stored changes. One stored
  run that cannot be read fails every selection (`unreadable_run_blocks`).
-/
import RickydataGit.Lib.KeySort
import RickydataGit.Cli.KnownRuns
import RickydataGit.Cli.Settled

namespace RickydataGit.Cli

open RickydataGit.Lib RickydataGit.Core RickydataGit.Git

/-! ## Lists of stores with one content -/

section Content

variable {X : Crates} {T : Tools} {s s' t t' : ObjectStore}

/-- A read gives what the content says. -/
theorem object_of_read {objectId : String} {report : ObjectReadReport}
    (hrun : (readCachedObject X objectId).run exec s = (.ok report, t)) :
    ∃ hex bytes, objectHex objectId = .ok hex ∧ content s hex = some bytes ∧
      readObjectBytes X bytes = .ok report.object := by
  rcases hhex : objectHex objectId with e | hex
  · rw [readCachedObject_run_error s hhex] at hrun
    cases hrun
  rw [readCachedObject_run s hhex] at hrun
  refine ⟨hex, ?_⟩
  rcases hc : s.cache[cachePathOf hex]? with _ | bytes
  · rcases hr : s.refs[refNameOf hex]? with _ | bytes
    · rw [read_run_of_missing s hhex hc hr] at hrun
      cases hrun
    · rw [read_run_of_ref s hhex hc hr] at hrun
      rcases hb : readObjectBytes X bytes with e | object
      · rw [hb] at hrun
        cases hrun
      · rw [hb] at hrun
        refine ⟨bytes, rfl, by rw [content, hc, hr, Option.none_or], ?_⟩
        by_cases hd : (objectFieldDiagnostics X objectId object).1 = []
        · simp only [hd, if_true] at hrun
          cases hrun
          exact hb
        · simp only [hd, if_false] at hrun
          cases hrun
  · rw [read_run_of_cache s hc] at hrun
    rcases hb : readObjectBytes X bytes with e | object
    · rw [hb] at hrun
      cases hrun
    · rw [hb] at hrun
      cases hrun
      exact ⟨bytes, rfl, by rw [content, hc, Option.some_or], hb⟩

theorem readBodies_agree {α : Type} {name : String} {read : Value → Option α}
    {entries : List ObjectListEntry} {listed listed' : List (Listed α)} (hs : SameContent s s')
    (hrun : (readBodies T name read entries).run exec s = (.ok listed, t))
    (hrun' : (readBodies T name read entries).run exec s' = (.ok listed', t')) :
    listed.map Listed.body = listed'.map Listed.body := by
  induction entries generalizing s s' t t' listed listed' with
  | nil =>
    obtain rfl := Except.ok.inj (congrArg Prod.fst hrun)
    obtain rfl := Except.ok.inj (congrArg Prod.fst hrun')
    rfl
  | cons entry rest ih =>
    obtain ⟨report, s₁, hread, hrun⟩ := Prog.run_bind_inv exec hrun
    obtain ⟨report', s₁', hread', hrun'⟩ := Prog.run_bind_inv exec hrun'
    rw [Prog.run_mapFail_ok_iff] at hread hread'
    obtain ⟨body, hbody, hrun⟩ := Prog.run_bind_ofExcept_inv exec hrun
    obtain ⟨body', hbody', hrun'⟩ := Prog.run_bind_ofExcept_inv exec hrun'
    obtain ⟨more, s₂, hmore, hrun⟩ := Prog.run_bind_inv exec hrun
    obtain ⟨more', s₂', hmore', hrun'⟩ := Prog.run_bind_inv exec hrun'
    obtain rfl := Except.ok.inj (congrArg Prod.fst hrun)
    obtain rfl := Except.ok.inj (congrArg Prod.fst hrun')
    have hkeeps := (readCachedObject_keeps _ _).of_run hread
    have hkeeps' := (readCachedObject_keeps _ _).of_run hread'
    -- the object is that of the content, in both stores
    obtain ⟨hex, bytes, hhex, hc, hb⟩ := object_of_read hread
    obtain ⟨hex', bytes', hhex', hc', hb'⟩ := object_of_read hread'
    obtain rfl := Except.ok.inj (hhex.symm.trans hhex')
    rw [hs.held hex (objectHex_length hhex), hc] at hc'
    obtain rfl := Option.some.inj hc'
    rw [Except.ok.inj (hb.symm.trans hb'), hbody'] at hbody
    rw [List.map_cons, List.map_cons, ih ((hkeeps.symm.trans hs).trans hkeeps') hmore hmore']
    exact congrArg (· :: _) (Except.ok.inj hbody).symm

/-- Where both lists can be made, they have the same records in the same order. -/
theorem listBodies_agree {α : Type} {kind name : String} {read : Value → Option α}
    {listed listed' : List (Listed α)} (hs : SameContent s s')
    (hrun : (listBodies T kind name read).run exec s = (.ok listed, t))
    (hrun' : (listBodies T kind name read).run exec s' = (.ok listed', t')) :
    listed.map Listed.body = listed'.map Listed.body := by
  obtain ⟨entries, s₁, hlist, hrun⟩ := Prog.run_bind_inv exec hrun
  obtain ⟨entries', s₁', hlist', hrun'⟩ := Prog.run_bind_inv exec hrun'
  rw [Prog.run_mapFail_ok_iff] at hlist hlist'
  have hentries := listRefBackedObjects_same (X := T.toCrates) (some kind) hs
  rw [hlist, hlist'] at hentries
  obtain rfl := Except.ok.inj hentries
  have hkeeps := (listRefBackedObjects_keeps _ _).of_run hlist
  have hkeeps' := (listRefBackedObjects_keeps _ _).of_run hlist'
  exact readBodies_agree ((hkeeps.symm.trans hs).trans hkeeps') hrun hrun'

theorem listChanges_agree {listed listed' : List (Listed ChangeEvidence)} (hs : SameContent s s')
    (hrun : (listChanges T).run exec s = (.ok listed, t))
    (hrun' : (listChanges T).run exec s' = (.ok listed', t')) (change : ChangeEvidence) :
    change ∈ listed.map Listed.body ↔ change ∈ listed'.map Listed.body := by
  obtain ⟨found, s₁, hfound, hrun⟩ := Prog.run_bind_inv exec hrun
  obtain ⟨found', s₁', hfound', hrun'⟩ := Prog.run_bind_inv exec hrun'
  obtain rfl := Except.ok.inj (congrArg Prod.fst hrun)
  obtain rfl := Except.ok.inj (congrArg Prod.fst hrun')
  have hbodies := listBodies_agree hs hfound hfound'
  have hsorted : ∀ (l : List (Listed ChangeEvidence)) le,
      change ∈ (l.mergeSort le).map Listed.body ↔ change ∈ l.map Listed.body := fun l le => by
    rw [List.mem_map, List.mem_map]
    simp only [List.mem_mergeSort]
  rw [hsorted, hsorted, hbodies]

end Content

section Selection

variable (T : Tools) (s : ObjectStore)

/-- What `list_runs` finds. -/
def storedRuns : Except CliError (List AgentRun) :=
  ((listRuns T).run exec s).1.map fun listed => listed.map Listed.body

/-- What `list_changes` finds. -/
def storedChanges : Except CliError (List ChangeEvidence) :=
  ((listChanges T).run exec s).1.map fun listed => listed.map Listed.body

/-- What `select_change_runs` gives. -/
def selectedRuns (attemptId : String) (requested : List String) : Except CliError (List AgentRun) :=
  ((selectChangeRuns T attemptId requested).run exec s).1

/-- The runs before they are sorted. -/
def runsOfRequest (all : List AgentRun) (attemptId : String) (requested : List String) :
    Except CliError (List AgentRun) :=
  if requested.isEmpty then .ok (all.filter fun run => run.attemptId == attemptId)
  else requestedRuns all attemptId requested

variable {T s}

/-! ## The runs of a request -/

theorem selectChangeRuns_run (attemptId : String) (requested : List String) :
    (selectChangeRuns T attemptId requested).run exec s =
      ((storedRuns T s).bind fun all => (runsOfRequest all attemptId requested).map
        (sortByKey AgentRun.runId), ((listRuns T).run exec s).2) := by
  rw [selectChangeRuns, Prog.run_bind, storedRuns]
  rcases (listRuns T).run exec s with ⟨e | listed, t⟩
  · rfl
  · dsimp only [Except.map, Except.bind]
    rw [Prog.run_bind, Prog.run_ofExcept, runsOfRequest]
    generalize (if requested.isEmpty = true then
      Except.ok ((listed.map Listed.body).filter fun run => run.attemptId == attemptId)
      else requestedRuns (listed.map Listed.body) attemptId requested) = selected
    rcases selected with e | runs
    · rfl
    · rfl

theorem find_runId {all : List AgentRun} {runId : String} {run : AgentRun}
    (h : (all.find? fun run => run.runId == runId) = some run) : run ∈ all ∧ run.runId = runId :=
  ⟨List.mem_of_find?_eq_some h, by
    simpa using List.find?_some h⟩

/-- Every id that is asked for has a first run, and it is one of the attempt. -/
theorem requestedRuns_ok_iff {all : List AgentRun} {attemptId : String} {requested : List String} :
    (∃ runs, requestedRuns all attemptId requested = .ok runs) ↔ ∀ runId ∈ requested, ∃ run,
      (all.find? fun run => run.runId == runId) = some run ∧ run.attemptId = attemptId := by
  induction requested with
  | nil => exact iff_of_true ⟨[], rfl⟩ (fun runId h => nomatch h)
  | cons runId rest ih =>
    rw [List.forall_mem_cons, ← ih, requestedRuns]
    rcases hfind : all.find? fun run => run.runId == runId with _ | run
    · simp [hfind]
    · by_cases hattempt : run.attemptId = attemptId
      · rcases requestedRuns all attemptId rest with e | runs
        · simp [hfind, hattempt, Except.map]
        · simp [hfind, hattempt, Except.map]
      · simp [hfind, hattempt]

/-- They are the first runs of the ids. -/
theorem mem_requestedRuns {all : List AgentRun} {attemptId : String} {requested : List String}
    {runs : List AgentRun} (h : requestedRuns all attemptId requested = .ok runs) {run : AgentRun} :
    run ∈ runs ↔ ∃ runId ∈ requested, (all.find? fun run => run.runId == runId) = some run := by
  induction requested generalizing runs with
  | nil =>
    obtain rfl := Except.ok.inj h
    simp
  | cons runId rest ih =>
    rw [requestedRuns] at h
    rcases hfind : all.find? fun run => run.runId == runId with _ | found
    · rw [hfind] at h
      cases h
    · rw [hfind] at h
      dsimp only at h
      split at h
      · cases h
      · rcases hrest : requestedRuns all attemptId rest with e | restRuns
        · rw [hrest] at h
          cases h
        · rw [hrest] at h
          obtain rfl := Except.ok.inj h
          rw [List.mem_cons, ih hrest]
          simp only [List.mem_cons, exists_eq_or_imp, hfind, Option.some.injEq]
          exact or_congr_left eq_comm

/-- Two of them with one id are one. -/
theorem keyInjOn_requestedRuns {all : List AgentRun} {attemptId : String} {requested : List String}
    {runs : List AgentRun} (h : requestedRuns all attemptId requested = .ok runs) :
    KeyInjOn AgentRun.runId runs := by
  intro run hrun run' hrun' hid
  obtain ⟨runId, -, hfind⟩ := (mem_requestedRuns h).mp hrun
  obtain ⟨runId', -, hfind'⟩ := (mem_requestedRuns h).mp hrun'
  obtain rfl : runId = runId' := by
    rw [← (find_runId hfind).2, ← (find_runId hfind').2, hid]
  exact Option.some.inj (hfind.symm.trans hfind')

/-- Where the ids are unique, the first run of an id is the only one. -/
theorem find_runId_iff {all : List AgentRun} (hunique : KeyInjOn AgentRun.runId all)
    {runId : String} {run : AgentRun} :
    (all.find? fun run => run.runId == runId) = some run ↔ run ∈ all ∧ run.runId = runId := by
  refine ⟨find_runId, ?_⟩
  rintro ⟨hrun, rfl⟩
  rcases hfind : all.find? fun found => found.runId == run.runId with _ | found
  · exact absurd (beq_self_eq_true _) (List.find?_eq_none.mp hfind run hrun)
  · obtain ⟨hfound, hid⟩ := find_runId hfind
    exact hfind.trans (congrArg some (hunique found hfound run hrun hid))

/-! ## Selections -/

variable {attemptId : String} {requested : List String}

theorem runsOfRequest_ok_iff {all : List AgentRun} (hunique : KeyInjOn AgentRun.runId all) :
    (∃ runs, runsOfRequest all attemptId requested = .ok runs) ↔
      ∀ runId ∈ requested, ∃ run ∈ all, run.runId = runId ∧ run.attemptId = attemptId := by
  rcases requested with _ | ⟨runId, rest⟩
  · exact iff_of_true ⟨_, rfl⟩ (fun runId h => nomatch h)
  · rw [runsOfRequest, List.isEmpty_cons, if_neg (by decide), requestedRuns_ok_iff]
    simp only [find_runId_iff hunique, and_assoc]

theorem mem_runsOfRequest {all runs : List AgentRun} (hunique : KeyInjOn AgentRun.runId all)
    (h : runsOfRequest all attemptId requested = .ok runs) {run : AgentRun} : run ∈ runs ↔
      run ∈ all ∧ run.attemptId = attemptId ∧ (requested = [] ∨ run.runId ∈ requested) := by
  rcases requested with _ | ⟨runId, rest⟩
  · obtain rfl := Except.ok.inj h
    simp
  · rw [runsOfRequest, List.isEmpty_cons, if_neg (by decide)] at h
    have hmem : run ∈ runs ↔ _ := mem_requestedRuns h
    simp only [find_runId_iff hunique] at hmem
    constructor
    · intro hrun
      obtain ⟨id, hid, hall, rfl⟩ := hmem.mp hrun
      exact ⟨hall, (requestedRuns_mem h run hrun).2, .inr hid⟩
    · rintro ⟨hall, -, hid⟩
      exact hmem.mpr ⟨run.runId, hid.resolve_left nofun, hall, rfl⟩

/-- A request with the same ids gives the same runs. -/
theorem runsOfRequest_congr {all runs : List AgentRun} {requested' : List String}
    (hsame : ∀ runId, runId ∈ requested ↔ runId ∈ requested')
    (h : runsOfRequest all attemptId requested = .ok runs) :
    (runsOfRequest all attemptId requested').map (sortByKey AgentRun.runId) =
      .ok (sortByKey AgentRun.runId runs) := by
  rcases requested with _ | ⟨runId, rest⟩
  · obtain rfl : requested' = [] :=
      List.eq_nil_iff_forall_not_mem.mpr fun id hid => nomatch (hsame id).mpr hid
    rw [h]
    rfl
  · have hne : requested'.isEmpty = false :=
      List.isEmpty_eq_false_iff_exists_mem.mpr ⟨runId, (hsame runId).mp List.mem_cons_self⟩
    rw [runsOfRequest, List.isEmpty_cons, if_neg (by decide)] at h
    rw [runsOfRequest, hne, if_neg (by decide)]
    obtain ⟨runs', h'⟩ := requestedRuns_ok_iff.mpr fun id hid =>
      requestedRuns_ok_iff.mp ⟨runs, h⟩ id ((hsame id).mpr hid)
    rw [h']
    refine congrArg Except.ok (sortByKey_congr (keyInjOn_requestedRuns h) fun run => ?_).symm
    rw [mem_requestedRuns h, mem_requestedRuns h']
    simp only [hsame]

/-! ## Commands -/

/-- What a selection of runs is, as `select_change_runs` makes it. -/
structure Selects (T : Tools) (s : ObjectStore) (attemptId : String) (requested : List String) :
    Prop where
  ok_iff : (∃ runs, selectedRuns T s attemptId requested = .ok runs) ↔
    ∃ all, storedRuns T s = .ok all ∧
      ∀ runId ∈ requested, ∃ run ∈ all, run.runId = runId ∧ run.attemptId = attemptId
  increasing : ∀ runs, selectedRuns T s attemptId requested = .ok runs →
    runs.Pairwise fun left right => left.runId < right.runId
  mem_iff : ∀ all runs, storedRuns T s = .ok all → selectedRuns T s attemptId requested = .ok runs →
    ∀ run, run ∈ runs ↔
      run ∈ all ∧ run.attemptId = attemptId ∧ (requested = [] ∨ run.runId ∈ requested)

/-- `change detect` ends alike for two requests, in all surroundings. -/
def DetectsAlike (T : Tools) (s : ObjectStore) (attemptId : String)
    (requested requested' : List String) : Prop :=
  ∀ env result t, (changeDetect T env ⟨attemptId, requested⟩).run exec s = (.ok result, t) ↔
    (changeDetect T env ⟨attemptId, requested'⟩).run exec s = (.ok result, t)

/-- The ids and lists that two patches say are the same. -/
structure SameEvidence (patch patch' : PreparedPatch) : Prop where
  patchId : patch.patchId = patch'.patchId
  changeIds : patch.changeIds = patch'.changeIds
  runIds : patch.runIds = patch'.runIds
  filePaths : patch.filePaths = patch'.filePaths
  diffHashes : patch.diffHashes = patch'.diffHashes

/-- What `patch prepare` prepares on two stores, in any surroundings. -/
def PreparesAlike (T : Tools) (s s' : ObjectStore) (attemptId : String) : Prop :=
  ∀ env env' result result' t t',
    (patchPrepare T env attemptId).run exec s = (.ok result, t) →
    (patchPrepare T env' attemptId).run exec s' = (.ok result', t') →
    SameEvidence result.1 result'.1

/-- The stored changes of an attempt are the same. -/
def SameChanges (T : Tools) (s s' : ObjectStore) (attemptId : String) : Prop :=
  ∃ changes changes', storedChanges T s = .ok changes ∧ storedChanges T s' = .ok changes' ∧
    ∀ change : ChangeEvidence, change.attemptId = attemptId → (change ∈ changes ↔ change ∈ changes')

theorem selectedRuns_ok_iff {runs : List AgentRun} :
    selectedRuns T s attemptId requested = .ok runs ↔ ∃ all found, storedRuns T s = .ok all ∧
      runsOfRequest all attemptId requested = .ok found ∧ sortByKey AgentRun.runId found = runs := by
  rw [selectedRuns, selectChangeRuns_run]
  rcases storedRuns T s with e | all
  · exact iff_of_false nofun nofun
  · rcases hfound : runsOfRequest all attemptId requested with e | found
    · simp [Except.bind, Except.map, hfound]
    · simp [Except.bind, Except.map, hfound]

theorem selects (attemptId : String) (requested : List String)
    (hunique : ∀ all, storedRuns T s = .ok all → KeyInjOn AgentRun.runId all) :
    Selects T s attemptId requested := by
  refine ⟨?_, ?_, ?_⟩
  · constructor
    · rintro ⟨runs, hruns⟩
      obtain ⟨all, found, hall, hfound, -⟩ := selectedRuns_ok_iff.mp hruns
      exact ⟨all, hall, (runsOfRequest_ok_iff (hunique all hall)).mp ⟨found, hfound⟩⟩
    · rintro ⟨all, hall, hrequested⟩
      obtain ⟨found, hfound⟩ := (runsOfRequest_ok_iff (hunique all hall)).mpr hrequested
      exact ⟨_, selectedRuns_ok_iff.mpr ⟨all, found, hall, hfound, rfl⟩⟩
  · intro runs hruns
    obtain ⟨all, found, -, -, rfl⟩ := selectedRuns_ok_iff.mp hruns
    exact pairwise_sortByKey _ _
  · intro all runs hall hruns run
    obtain ⟨all', found, hall', hfound, rfl⟩ := selectedRuns_ok_iff.mp hruns
    obtain rfl := Except.ok.inj (hall.symm.trans hall')
    have hmem : ∀ run, run ∈ found ↔ _ := fun run => mem_runsOfRequest (hunique all hall) hfound
    have hinj : KeyInjOn AgentRun.runId found :=
      (hunique all hall).subset fun run hrun => ((hmem run).mp hrun).1
    rw [mem_sortByKey hinj, hmem]

/-- The order and the repetitions of a request do not matter. -/
theorem selectChangeRuns_congr {requested' : List String} {runs : List AgentRun} {t : ObjectStore}
    (hsame : ∀ runId, runId ∈ requested ↔ runId ∈ requested')
    (hrun : (selectChangeRuns T attemptId requested).run exec s = (.ok runs, t)) :
    (selectChangeRuns T attemptId requested').run exec s = (.ok runs, t) := by
  obtain ⟨-, rfl⟩ := Prod.mk.inj ((selectChangeRuns_run attemptId requested).symm.trans hrun)
  obtain ⟨all, found, hall, hfound, rfl⟩ := selectedRuns_ok_iff.mp (congrArg Prod.fst hrun)
  rw [selectChangeRuns_run, hall]
  exact congrArg (·, _) (runsOfRequest_congr hsame hfound)

theorem changeDetect_congr {env : Environment} {requested' : List String}
    {result : ChangeEvidence × ObjectWriteReport} {t : ObjectStore}
    (hsame : ∀ runId, runId ∈ requested ↔ runId ∈ requested')
    (hrun : (changeDetect T env ⟨attemptId, requested⟩).run exec s = (.ok result, t)) :
    (changeDetect T env ⟨attemptId, requested'⟩).run exec s = (.ok result, t) := by
  obtain ⟨signing, hsigning, hrun⟩ := Prog.run_bind_ofExcept_inv exec hrun
  obtain ⟨attempt, s₁, hattempt, hrun⟩ := Prog.run_bind_inv exec hrun
  obtain ⟨detected, hdetected, hrun⟩ := Prog.run_bind_ofExcept_inv exec hrun
  rw [changeDetect, hsigning, Prog.liftM_ok, Prog.ret_bind, Prog.run_bind_ok exec hattempt,
    hdetected, Prog.liftM_ok, Prog.ret_bind]
  split at hrun
  · cases hrun
  · next hchanged =>
      rw [if_neg hchanged]
      obtain ⟨runs, s₂, hruns, hrun⟩ := Prog.run_bind_inv exec hrun
      rw [Prog.run_bind_ok exec (selectChangeRuns_congr hsame hruns)]
      exact hrun

/-- The attempt that is found has the id that was asked for. -/
theorem findAttempt_id {attempt : AgentAttempt} {t : ObjectStore}
    (hrun : (findAttempt T attemptId).run exec s = (.ok attempt, t)) :
    attempt.attemptId = attemptId := by
  obtain ⟨listed, s₁, -, hrun⟩ := Prog.run_bind_inv exec hrun
  split at hrun
  · cases congrArg Prod.fst hrun
  · next entry hfind =>
      obtain rfl := Except.ok.inj (congrArg Prod.fst hrun)
      simpa using List.find?_some hfind

/-- What is prepared is made of the stored changes of the attempt. -/
theorem patchPrepare_patch {env : Environment} {result : PreparedPatch × ObjectWriteReport}
    {t : ObjectStore} {stored : List ChangeEvidence} (hstored : storedChanges T s = .ok stored)
    (hrun : (patchPrepare T env attemptId).run exec s = (.ok result, t)) :
    ∃ attempt changes diffObjectId, attempt.attemptId = attemptId ∧
      result.1 = preparedPatchOf T attempt changes diffObjectId ∧
      ∀ change, change ∈ changes ↔ change ∈ stored ∧ change.attemptId = attemptId := by
  obtain ⟨signing, -, hrun⟩ := Prog.run_bind_ofExcept_inv exec hrun
  obtain ⟨attempt, s₁, hattempt, hrun⟩ := Prog.run_bind_inv exec hrun
  obtain ⟨listed, s₂, hlisted, hrun⟩ := Prog.run_bind_inv exec hrun
  have hid := findAttempt_id hattempt
  -- the changes are those that were there before the attempt was looked up
  have hmem : ∀ change, change ∈ listed.map Listed.body ↔ change ∈ stored := by
    rw [storedChanges] at hstored
    rcases hfirst : (listChanges T).run exec s with ⟨e | first, u⟩
    · rw [hfirst] at hstored
      cases hstored
    · rw [hfirst] at hstored
      obtain rfl := Except.ok.inj hstored
      exact listChanges_agree ((findAttempt_keeps T _).of_run hattempt).symm hlisted hfirst
  refine ⟨attempt, (listed.map Listed.body).filter fun change =>
    change.attemptId == attempt.attemptId, ?_⟩
  have hchanges : ∀ change, change ∈ ((listed.map Listed.body).filter fun change =>
      change.attemptId == attempt.attemptId) ↔ change ∈ stored ∧ change.attemptId = attemptId := by
    intro change
    rw [List.mem_filter, hmem, beq_iff_eq, hid]
  dsimp only at hrun
  split at hrun
  · cases hrun
  · obtain ⟨detected, -, hrun⟩ := Prog.run_bind_ofExcept_inv exec hrun
    split at hrun
    · obtain ⟨diffObject, s₃, -, hrun⟩ := Prog.run_bind_inv exec hrun
      obtain ⟨object, s₄, -, hrun⟩ := Prog.run_bind_inv exec hrun
      obtain rfl := Except.ok.inj (congrArg Prod.fst hrun)
      exact ⟨diffObject.objectId, hid, rfl, hchanges⟩
    · cases hrun

/-- The ids of a patch are made of the attempt and the set of its changes. -/
theorem sameEvidence_preparedPatchOf {attempt attempt' : AgentAttempt}
    {changes changes' : List ChangeEvidence} (hid : attempt.attemptId = attempt'.attemptId)
    (hchanges : ∀ change, change ∈ changes ↔ change ∈ changes') (diffObjectId diffObjectId' : String) :
    SameEvidence (preparedPatchOf T attempt changes diffObjectId)
      (preparedPatchOf T attempt' changes' diffObjectId') := by
  rw [preparedPatchOf_congr T attempt hchanges]
  refine ⟨?_, rfl, rfl, rfl, rfl⟩
  rw [preparedPatchOf, preparedPatchOf, hid]

theorem preparesAlike_of_sameChanges {s' : ObjectStore} (hsame : SameChanges T s s' attemptId) :
    PreparesAlike T s s' attemptId := by
  intro env env' result result' t t' hrun hrun'
  obtain ⟨stored, stored', hstored, hstored', hmem⟩ := hsame
  obtain ⟨attempt, changes, diffObjectId, hid, hpatch, hchanges⟩ := patchPrepare_patch hstored hrun
  obtain ⟨attempt', changes', diffObjectId', hid', hpatch', hchanges'⟩ :=
    patchPrepare_patch hstored' hrun'
  rw [hpatch, hpatch']
  refine sameEvidence_preparedPatchOf (hid.trans hid'.symm) (fun change => ?_) _ _
  rw [hchanges, hchanges']
  exact and_congr_left fun h => hmem change h

variable (T) (s) in
/-- Ids depend on sets. -/
theorem ids_depend_on_sets (attemptId : String) (requested : List String)
    (hunique : ∀ all, storedRuns T s = .ok all → KeyInjOn AgentRun.runId all) :
    Selects T s attemptId requested ∧
      (∀ requested', (∀ runId, runId ∈ requested ↔ runId ∈ requested') →
        DetectsAlike T s attemptId requested requested') ∧
      ∀ s', SameChanges T s s' attemptId → PreparesAlike T s s' attemptId :=
  ⟨selects attemptId requested hunique,
    fun _ hsame _ _ _ => ⟨changeDetect_congr hsame, changeDetect_congr fun id => (hsame id).symm⟩,
    fun _ => preparesAlike_of_sameChanges⟩

end Selection

/-! ## Stores with one object -/

section OneObject

variable {T : Tools} {s t : ObjectStore}

theorem storedRuns_of_one (hX : ReadsBack T.toCrates) {run : AgentRun}
    (h : Filled T.toCrates [cachedObject T.toCrates "agent.run" run.toValue] s) :
    ∃ all, storedRuns T s = .ok all ∧ ∀ found, found ∈ all ↔ found = run := by
  have hcanonical : (cachedObject T.toCrates "agent.run" run.toValue).canonical.body =
      canonicalJson run.toValue := canonicalJson_idem _
  have hread : AgentRun.ofValue
      (cachedObject T.toCrates "agent.run" run.toValue).canonical.body = some run := by
    rw [hcanonical, AgentRun.readBack]
  have hsome : ∀ o ∈ [cachedObject T.toCrates "agent.run" run.toValue], o.kind = "agent.run" →
      (AgentRun.ofValue o.canonical.body).isSome := fun o ho _ => by
    rw [List.mem_singleton.mp ho, hread]
    rfl
  obtain ⟨listed, t, hlisted, -, hmem⟩ := sortedBodies_ends hX h "agent.run" "AgentRun"
    (fun left right : Listed AgentRun => decide (left.body.runId ≤ right.body.runId)) hsome
  refine ⟨listed.map Listed.body, by rw [storedRuns, listRuns, hlisted.run]; rfl, fun found => ?_⟩
  rw [hmem]
  simp only [List.mem_singleton, exists_eq_left, hread, Option.some.injEq]
  exact ⟨fun h => h.2.symm, fun h => ⟨rfl, h.symm⟩⟩

/-- Where the runs are listed, every one of them is a run. -/
theorem run_of_listed (hX : ReadsBack T.toCrates) (h : Ledger T.toCrates s)
    {all : List AgentRun} (hall : storedRuns T s = .ok all) {objectId : String} {body : Value}
    (hbody : Holds T.toCrates s "agent.run" objectId body) : (AgentRun.ofValue body).isSome := by
  rw [storedRuns] at hall
  rcases hrun : (listRuns T).run exec s with ⟨e | listed, t⟩
  · rw [hrun] at hall
    cases hall
  obtain ⟨found, s₁, hfound, -⟩ := Prog.run_bind_inv exec hrun
  obtain ⟨entries, s₂, hlist, hbodies⟩ := Prog.run_bind_inv exec hfound
  rw [Prog.run_mapFail_ok_iff] at hlist
  obtain ⟨entries', hlist', -, hmem⟩ := h.valid.list "agent.run"
  rw [hlist'] at hlist
  obtain ⟨hentries, rfl⟩ := Prod.mk.inj hlist
  obtain rfl := Except.ok.inj hentries
  obtain ⟨hids, hread⟩ := readBodies_holds hX h
    (fun entry he => (hmem _).mp (List.mem_map_of_mem he)) hbodies
  have hid := (hmem objectId).mpr hbody.refBackedOf
  rw [← hids] at hid
  obtain ⟨e, he, rfl⟩ := List.mem_map.mp hid
  obtain ⟨body', hbody', hsome⟩ := hread e he
  obtain ⟨-, rfl⟩ := h.holds_inj hbody hbody'
  rw [hsome]
  rfl

end OneObject

def loneRun : AgentRun where
  runId := "run"
  attemptId := "attempt"
  traceHash := none
  commandHashes := []
  rdlManifestHashes := []
  startedAtMs := 0
  finishedAtMs := none
  result := none

/-- A request that names a run twice gives it once. -/
theorem loneRun_selected : ∃ s runs,
    selectedRuns .reference s "attempt" ["run", "run"] = .ok runs ∧
      ∀ run, run ∈ runs ↔ run = loneRun := by
  obtain ⟨-, s, -, -, hs⟩ := writeRecord_ends (T := .reference) readsBack_reference
    (filled_empty _) "agent.run" loneRun.toValue List.not_mem_nil
  obtain ⟨all, hall, hone⟩ := storedRuns_of_one readsBack_reference hs
  have hunique : ∀ all, storedRuns .reference s = .ok all → KeyInjOn AgentRun.runId all := by
    intro all' h run hrun run' hrun' _
    obtain rfl := Except.ok.inj (hall.symm.trans h)
    rw [(hone run).mp hrun, (hone run').mp hrun']
  obtain ⟨⟨hok, -, hexact⟩, -⟩ :=
    ids_depend_on_sets .reference s "attempt" ["run", "run"] hunique
  obtain ⟨runs, hruns⟩ := hok.mpr ⟨all, hall, fun runId hid => ⟨loneRun, (hone _).mpr rfl, by
    simpa [loneRun, eq_comm] using hid, rfl⟩⟩
  refine ⟨s, runs, hruns, fun run => ?_⟩
  rw [hexact all runs hall hruns, hone]
  refine ⟨And.left, ?_⟩
  rintro rfl
  exact ⟨rfl, rfl, .inr (by simp [loneRun])⟩

/-- An object of kind `agent.run` that is no run. -/
def unreadableRun : ObjectStore :=
  ((writeRecord .reference "agent.run" .null none).run exec .empty).2

/-- Nothing is requested, and no run is stored whose id could be taken twice. -/
theorem unreadable_run_blocks : (∀ run, ¬ StoredRun Crates.reference unreadableRun run) ∧
    ¬ ((∃ runs, selectedRuns .reference unreadableRun "attempt" [] = .ok runs) ↔
      ∀ runId ∈ ([] : List String), ∃ run, StoredRun Crates.reference unreadableRun run ∧
        run.runId = runId ∧ run.attemptId = "attempt") := by
  have hX : ReadsBack Tools.reference.toCrates := readsBack_reference
  obtain ⟨report, s, hends, -, hs⟩ := writeRecord_ends (T := .reference) hX (filled_empty _)
    "agent.run" .null List.not_mem_nil
  have hstore : unreadableRun = s := by rw [unreadableRun, hends.run]
  rw [hstore]
  have hnone : AgentRun.ofValue (canonicalJson .null) = none := rfl
  have hnull : Holds Tools.reference.toCrates s "agent.run" _ (canonicalJson .null) :=
    (hs.holds hX).mpr ⟨_, List.mem_singleton_self _, rfl, rfl, rfl⟩
  constructor
  · rintro run ⟨objectId, body, hbody, hread⟩
    obtain ⟨o, ho, -, -, rfl⟩ := (hs.holds hX).mp hbody
    obtain rfl := List.mem_singleton.mp ho
    exact nomatch hnone.symm.trans hread
  · intro h
    obtain ⟨runs, hruns⟩ := h.mpr (fun runId hid => nomatch hid)
    obtain ⟨all, found, hall, -⟩ := selectedRuns_ok_iff.mp hruns
    have hsome := run_of_listed hX (hs.ledger hX) hall hnull
    rw [hnone] at hsome
    cases hsome

end RickydataGit.Cli
