/-
  `build_sync_status`: the references here and at a remote.

  Each side is a map from names to ids, read from a listing of git. One loop goes over
  the local map and one over the remote map. `syncStatus_laws`: together they put every
  name into the class that its two values make, and the remote has nothing to report
  exactly when the maps, or their hashes, are equal.
-/
import RickydataGit.Lib.MapDiff
import RickydataGit.Core.NormalForm
import RickydataGit.Cli.GraphScan
import RickydataGit.Cli.SyncVerify

namespace RickydataGit.Cli

open RickydataGit.Lib RickydataGit.Core RickydataGit.Git

/-! ## Listings -/

/-- Ids by the name of the reference. -/
abbrev RefMap := Std.ExtTreeMap String String compare

/-- `line.split_once('\t')`. -/
def splitOnceTab (line : String) : Option (String × String) :=
  match line.toList.dropWhile (· != '\t') with
  | [] => none
  | _ :: rest => some (.ofList (line.toList.takeWhile (· != '\t')), .ofList rest)

def addRefLines (refs : RefMap) : List String → Except CliError RefMap
  | [] => .ok refs
  | line :: rest =>
    if isBlank line then addRefLines refs rest
    else
      match splitOnceTab line with
      | none => .error (.bail s!"invalid Git ref listing line `{line}`")
      | some (objectId, refName) => addRefLines (refs.insert refName objectId) rest

def parseRefLines (bytes : Bytes) : Except CliError RefMap :=
  addRefLines ∅ (linesOf (toStringLossy bytes))

/-- `serde_json::to_value` of the map. -/
def refsValue (refs : RefMap) : Value :=
  .obj (refs.toList.map fun entry => (entry.1, .str entry.2)) (by
    rw [List.map_map]
    exact (Std.ExtTreeMap.map_fst_toList_eq_keys (t := refs)).symm ▸ Std.ExtTreeMap.nodup_keys)

def refsHash (X : Crates) (refs : RefMap) : String := stableJsonHash X (refsValue refs)

/-! ## The report -/

structure SyncDivergentRef where
  refName : String
  localObjectId : String
  remoteObjectId : String
  deriving DecidableEq

structure SyncStatusReport where
  status : String
  remote : String
  refspec : String
  localRefCount : Nat
  remoteRefCount : Nat
  matchingRefCount : Nat
  localOnlyRefs : List String
  remoteOnlyRefs : List String
  divergentRefs : List SyncDivergentRef
  localRefsHash : String
  remoteRefsHash : String
  deriving DecidableEq

/-- What the loop over the local references counts and collects. -/
structure LocalTally where
  matchingRefCount : Nat
  localOnlyRefs : List String
  divergentRefs : List SyncDivergentRef

def LocalTally.add (remoteRefs : RefMap) (tally : LocalTally) (entry : String × String) :
    LocalTally :=
  match remoteRefs[entry.1]? with
  | some remoteObjectId =>
    if remoteObjectId = entry.2 then
      { tally with matchingRefCount := tally.matchingRefCount + 1 }
    else
      { tally with
        divergentRefs := tally.divergentRefs ++ [⟨entry.1, entry.2, remoteObjectId⟩] }
  | none => { tally with localOnlyRefs := tally.localOnlyRefs ++ [entry.1] }

def localTally (localRefs remoteRefs : RefMap) : LocalTally :=
  localRefs.toList.foldl (LocalTally.add remoteRefs) ⟨0, [], []⟩

/-- The report on two maps. -/
def syncStatusReport (X : Crates) (remote : String) (localRefs remoteRefs : RefMap) :
    SyncStatusReport :=
  let tally := localTally localRefs remoteRefs
  { status := "ok"
    remote
    refspec := "refs/rickydata/*:refs/rickydata/*"
    localRefCount := localRefs.size
    remoteRefCount := remoteRefs.size
    matchingRefCount := tally.matchingRefCount
    localOnlyRefs := tally.localOnlyRefs
    remoteOnlyRefs := remoteRefs.keys.filter fun refName => !localRefs.contains refName
    divergentRefs := tally.divergentRefs
    localRefsHash := refsHash X localRefs
    remoteRefsHash := refsHash X remoteRefs }

/-- What `git for-each-ref` and `git ls-remote` answer. -/
structure RefListings where
  forEachRef : Except CliError Bytes
  lsRemote : Except CliError Bytes

def buildSyncStatus (X : Crates) (remote : String) (listings : RefListings) :
    Except CliError SyncStatusReport := do
  let localRefs ← parseRefLines (← listings.forEachRef)
  let remoteRefs ← parseRefLines (← listings.lsRemote)
  return syncStatusReport X remote localRefs remoteRefs

/-- What `repo_status_value` asks of the repository and of its store. -/
structure RepoState where
  isGitRepo : Bool
  initialized : Bool

def repoStatusValue (repo : RepoState) (verify : Option SyncVerifyReport)
    (sync : Option SyncStatusReport) : String :=
  if !repo.isGitRepo then "not_git"
  else if !repo.initialized then "not_initialized"
  else if verify.any fun report => report.status != "ok" then "failed"
  else if sync.any fun report => !report.localOnlyRefs.isEmpty || !report.remoteOnlyRefs.isEmpty ||
      !report.divergentRefs.isEmpty then "out_of_sync"
  else "ok"

/-! ## The loop over the local references -/

/-- The entry of a name with two ids. -/
def divergence (remoteRefs : RefMap) (entry : String × String) : Option SyncDivergentRef :=
  match remoteRefs[entry.1]? with
  | some remoteObjectId =>
    if remoteObjectId = entry.2 then none else some ⟨entry.1, entry.2, remoteObjectId⟩
  | none => none

section Tally

variable (remoteRefs : RefMap)

/-- One step counts or collects the entry once. -/
theorem LocalTally.add_spec (tally : LocalTally) (entry : String × String) :
    (tally.add remoteRefs entry).matchingRefCount = tally.matchingRefCount +
        (if remoteRefs[entry.1]? = some entry.2 then 1 else 0) ∧
      (tally.add remoteRefs entry).localOnlyRefs = tally.localOnlyRefs ++
        (if remoteRefs[entry.1]? = none then [entry.1] else []) ∧
      (tally.add remoteRefs entry).divergentRefs = tally.divergentRefs ++
        (divergence remoteRefs entry).toList := by
  unfold LocalTally.add divergence
  rcases h : remoteRefs[entry.1]? with _ | remoteObjectId
  · simp
  · by_cases hid : remoteObjectId = entry.2
    · simp [hid]
    · simp [hid]

/-- The loop counts the entries that agree, and collects the others in their order. -/
theorem foldl_add (entries : List (String × String)) (tally : LocalTally) :
    (entries.foldl (LocalTally.add remoteRefs) tally).matchingRefCount =
        tally.matchingRefCount +
          entries.countP (fun entry => decide (remoteRefs[entry.1]? = some entry.2)) ∧
      (entries.foldl (LocalTally.add remoteRefs) tally).localOnlyRefs = tally.localOnlyRefs ++
        (entries.map Prod.fst).filter (fun refName => !remoteRefs.contains refName) ∧
      (entries.foldl (LocalTally.add remoteRefs) tally).divergentRefs = tally.divergentRefs ++
        entries.filterMap (divergence remoteRefs) := by
  induction entries generalizing tally with
  | nil => simp
  | cons entry entries ih =>
    obtain ⟨hmatching, hlocal, hdivergent⟩ := tally.add_spec remoteRefs entry
    obtain ⟨ihm, ihl, ihd⟩ := ih (tally.add remoteRefs entry)
    rw [List.foldl_cons, ihm, ihl, ihd, hmatching, hlocal, hdivergent]
    have habsent : remoteRefs[entry.1]? = none ↔ remoteRefs.contains entry.1 = false := by
      rw [← Option.not_isSome_iff_eq_none, ← contains_iff_isSome, Bool.not_eq_true]
    refine ⟨?_, ?_, ?_⟩
    · rw [List.countP_cons]
      simp only [decide_eq_true_eq]
      omega
    · rw [List.append_assoc, List.map_cons, List.filter_cons]
      by_cases hc : remoteRefs.contains entry.1
      · rw [if_neg (by rw [habsent, hc]; simp), if_neg (by simp [hc]), List.nil_append]
      · rw [if_pos (by rw [habsent]; exact Bool.eq_false_iff.mpr hc), if_pos (by simp [hc])]
        rfl
    · rw [List.append_assoc, List.filterMap_cons]
      cases divergence remoteRefs entry <;> rfl

/-- Every entry agrees, is local only or diverges. -/
theorem length_classes (entries : List (String × String)) :
    entries.countP (fun entry => decide (remoteRefs[entry.1]? = some entry.2)) +
        ((entries.map Prod.fst).filter fun refName => !remoteRefs.contains refName).length +
        (entries.filterMap (divergence remoteRefs)).length = entries.length := by
  induction entries with
  | nil => rfl
  | cons entry entries ih =>
    rw [List.countP_cons, List.map_cons, List.filter_cons, List.filterMap_cons, List.length_cons]
    rcases h : remoteRefs[entry.1]? with _ | remoteObjectId
    · have hc : remoteRefs.contains entry.1 = false := by
        rw [← Bool.not_eq_true, contains_iff_isSome, h]
        simp
      simp [divergence, h, hc]
      omega
    · have hc : remoteRefs.contains entry.1 = true := by
        rw [contains_iff_isSome, h]
        rfl
      by_cases hid : remoteObjectId = entry.2
      · simp [divergence, h, hc, hid]
        omega
      · simp [divergence, h, hc, hid]
        omega

end Tally

section Maps

variable {localRefs remoteRefs : RefMap}

theorem localTally_matching : (localTally localRefs remoteRefs).matchingRefCount =
    localRefs.toList.countP fun entry => decide (remoteRefs[entry.1]? = some entry.2) := by
  have h := (foldl_add remoteRefs localRefs.toList ⟨0, [], []⟩).1
  rwa [Nat.zero_add] at h

theorem localTally_localOnly :
    (localTally localRefs remoteRefs).localOnlyRefs = onlyKeys localRefs remoteRefs := by
  have h := (foldl_add remoteRefs localRefs.toList ⟨0, [], []⟩).2.1
  rw [List.nil_append, Std.ExtTreeMap.map_fst_toList_eq_keys] at h
  exact h

theorem localTally_divergent : (localTally localRefs remoteRefs).divergentRefs =
    localRefs.toList.filterMap (divergence remoteRefs) := by
  have h := (foldl_add remoteRefs localRefs.toList ⟨0, [], []⟩).2.2
  rwa [List.nil_append] at h

theorem divergence_eq_some {entry : String × String} {d : SyncDivergentRef} :
    divergence remoteRefs entry = some d ↔ entry = (d.refName, d.localObjectId) ∧
      remoteRefs[d.refName]? = some d.remoteObjectId ∧ d.remoteObjectId ≠ d.localObjectId := by
  unfold divergence
  constructor
  · intro h
    split at h
    · next remoteObjectId hr =>
      split at h
      · cases h
      · next hid =>
        obtain rfl := Option.some.inj h
        exact ⟨rfl, hr, hid⟩
    · cases h
  · rintro ⟨rfl, hr, hid⟩
    rw [hr]
    exact if_neg hid

theorem mem_divergentRefs {d : SyncDivergentRef} :
    d ∈ (localTally localRefs remoteRefs).divergentRefs ↔
      localRefs[d.refName]? = some d.localObjectId ∧
        remoteRefs[d.refName]? = some d.remoteObjectId ∧ d.localObjectId ≠ d.remoteObjectId := by
  rw [localTally_divergent, List.mem_filterMap]
  constructor
  · rintro ⟨entry, hmem, hd⟩
    obtain ⟨rfl, hr, hid⟩ := divergence_eq_some.mp hd
    exact ⟨Std.ExtTreeMap.mem_toList_iff_getElem?_eq_some.mp hmem, hr, hid.symm⟩
  · rintro ⟨hl, hr, hid⟩
    exact ⟨_, Std.ExtTreeMap.mem_toList_iff_getElem?_eq_some.mpr hl,
      divergence_eq_some.mpr ⟨rfl, hr, hid.symm⟩⟩

/-- The names of the divergent references are some of the keys, in order. -/
theorem divergent_names_sublist (remoteRefs : RefMap) (entries : List (String × String)) :
    ((entries.filterMap (divergence remoteRefs)).map SyncDivergentRef.refName).Sublist
      (entries.map Prod.fst) := by
  induction entries with
  | nil => exact .slnil
  | cons entry entries ih =>
    rw [List.filterMap_cons, List.map_cons]
    rcases hd : divergence remoteRefs entry with _ | d
    · exact ih.cons _
    · obtain ⟨rfl, -⟩ := divergence_eq_some.mp hd
      exact ih.cons_cons _

/-! ## The hashes -/

theorem get_refsValue (refs : RefMap) (refName : String) :
    (refsValue refs).get refName = refs[refName]?.map .str := by
  rw [refsValue, Value.get_obj, List.find?_map, Option.map_map]
  rcases hf : refs.toList.find? ((fun m : String × Value => decide (m.1 = refName)) ∘
      fun entry => (entry.1, .str entry.2)) with _ | entry
  · have habsent : refs[refName]? = none := by
      by_contra hsome
      obtain ⟨objectId, hid⟩ := Option.ne_none_iff_exists'.mp hsome
      have hmem := Std.ExtTreeMap.mem_toList_iff_getElem?_eq_some.mpr hid
      have hnot := List.find?_eq_none.mp hf _ hmem
      simp at hnot
    rw [hf, habsent]
    rfl
  · have hmem := List.mem_of_find?_eq_some hf
    have hname : entry.1 = refName := by simpa using List.find?_some hf
    have hid := Std.ExtTreeMap.mem_toList_iff_getElem?_eq_some.mp hmem
    rw [hf, ← hname, hid]
    rfl

/-- Maps whose values are equal in normal form are equal. -/
theorem refsValue_inj (h : canonicalJson (refsValue localRefs) = canonicalJson (refsValue remoteRefs)) :
    localRefs = remoteRefs := by
  refine Std.ExtTreeMap.ext_getElem? fun refName => ?_
  have hget := congrArg (fun v => v.get refName) h
  simp only [get_canonicalJson, get_refsValue, Option.map_map] at hget
  have hinj : Function.Injective (canonicalJson ∘ Value.str) := by
    intro a b hab
    exact Value.str_inj hab
  exact Option.map_injective hinj hget

theorem refsHash_eq_iff {X : Crates}
    (hc : NoCollision X (canonicalBytes X (refsValue localRefs))
      (canonicalBytes X (refsValue remoteRefs))) :
    refsHash X localRefs = refsHash X remoteRefs ↔ localRefs = remoteRefs := by
  constructor
  · intro h
    exact refsValue_inj (canonicalBytes_eq_iff.mp (hashText_inj hc h))
  · rintro rfl
    rfl

/-! ## The laws of the report -/

/-- Nothing to report on either side. -/
def SyncStatusReport.InParity (report : SyncStatusReport) : Prop :=
  report.localOnlyRefs = [] ∧ report.remoteOnlyRefs = [] ∧ report.divergentRefs = []

def SyncStatusReport.divergentNames (report : SyncStatusReport) : List String :=
  report.divergentRefs.map SyncDivergentRef.refName

theorem bytesLess_of_compare {a b : String} (h : compare a b = .lt) : BytesLess a b :=
  bytesLess_of_lt (compare_lt_iff_lt.mp h)

/-- The report partitions the names of both maps, and the remote is in parity exactly when
    the maps are equal, by the lists, by the hashes and by the status of the repository. -/
structure SyncStatusLaws (localRefs remoteRefs : RefMap) (report : SyncStatusReport) : Prop where
  localCount : report.matchingRefCount + report.localOnlyRefs.length +
    report.divergentRefs.length = report.localRefCount
  remoteCount : report.matchingRefCount + report.remoteOnlyRefs.length +
    report.divergentRefs.length = report.remoteRefCount
  localSorted : report.localOnlyRefs.Pairwise BytesLess
  remoteSorted : report.remoteOnlyRefs.Pairwise BytesLess
  divergentSorted : report.divergentNames.Pairwise BytesLess
  localRemote : List.Disjoint report.localOnlyRefs report.remoteOnlyRefs
  localDivergent : List.Disjoint report.localOnlyRefs report.divergentNames
  remoteDivergent : List.Disjoint report.remoteOnlyRefs report.divergentNames
  matching : report.matchingRefCount =
    (localRefs.keys.filter fun refName => localRefs[refName]? = remoteRefs[refName]?).length
  localOnly : ∀ refName, refName ∈ report.localOnlyRefs ↔
    (localRefs[refName]?).isSome = true ∧ remoteRefs[refName]? = none
  remoteOnly : ∀ refName, refName ∈ report.remoteOnlyRefs ↔
    localRefs[refName]? = none ∧ (remoteRefs[refName]?).isSome = true
  divergent : ∀ d, d ∈ report.divergentRefs ↔ localRefs[d.refName]? = some d.localObjectId ∧
    remoteRefs[d.refName]? = some d.remoteObjectId ∧ d.localObjectId ≠ d.remoteObjectId
  parity : report.InParity ↔ localRefs = remoteRefs
  hashes : localRefs = remoteRefs ↔ report.localRefsHash = report.remoteRefsHash
  status : ∀ (repo : RepoState) (verify : SyncVerifyReport), repo.isGitRepo = true →
    repo.initialized = true → verify.status = "ok" →
    (report.InParity ↔ repoStatusValue repo (some verify) (some report) ≠ "out_of_sync")

theorem matching_eq : (localTally localRefs remoteRefs).matchingRefCount =
    (localRefs.keys.filter fun refName => localRefs[refName]? = remoteRefs[refName]?).length := by
  rw [localTally_matching, ← Std.ExtTreeMap.map_fst_toList_eq_keys, List.filter_map,
    List.length_map, ← List.countP_eq_length_filter]
  refine List.countP_congr fun entry hmem => ?_
  have hl := Std.ExtTreeMap.mem_toList_iff_getElem?_eq_some.mp hmem
  simp only [Function.comp_apply, hl, decide_eq_true_eq]
  exact eq_comm

/-- What agrees and what diverges is what both maps have. -/
theorem matching_add_divergent (localRefs remoteRefs : RefMap) :
    (localTally localRefs remoteRefs).matchingRefCount +
    (localTally localRefs remoteRefs).divergentRefs.length =
      (sharedKeys localRefs remoteRefs).length := by
  have hclasses := length_classes remoteRefs localRefs.toList
  have hshared := length_shared_add_only localRefs remoteRefs
  have honly : ((localRefs.toList.map Prod.fst).filter fun refName =>
      !remoteRefs.contains refName) = onlyKeys localRefs remoteRefs := by
    rw [Std.ExtTreeMap.map_fst_toList_eq_keys]
    rfl
  rw [honly, Std.ExtTreeMap.length_toList] at hclasses
  rw [localTally_matching, localTally_divergent]
  omega

theorem divergentNames_sublist (X : Crates) (remote : String) :
    (syncStatusReport X remote localRefs remoteRefs).divergentNames.Sublist localRefs.keys := by
  have h := divergent_names_sublist remoteRefs localRefs.toList
  rw [Std.ExtTreeMap.map_fst_toList_eq_keys, ← localTally_divergent] at h
  exact h

theorem mem_divergentNames {X : Crates} {remote refName : String}
    (h : refName ∈ (syncStatusReport X remote localRefs remoteRefs).divergentNames) :
    (localRefs[refName]?).isSome = true ∧ (remoteRefs[refName]?).isSome = true := by
  obtain ⟨d, hd, rfl⟩ := List.mem_map.mp h
  obtain ⟨hl, hr, -⟩ := mem_divergentRefs.mp hd
  rw [hl, hr]
  exact ⟨rfl, rfl⟩

theorem inParity_iff (X : Crates) (remote : String) :
    (syncStatusReport X remote localRefs remoteRefs).InParity ↔ localRefs = remoteRefs := by
  have hlocal : (syncStatusReport X remote localRefs remoteRefs).localOnlyRefs =
      onlyKeys localRefs remoteRefs := localTally_localOnly
  have hremote : (syncStatusReport X remote localRefs remoteRefs).remoteOnlyRefs =
      onlyKeys remoteRefs localRefs := rfl
  rw [SyncStatusReport.InParity, hlocal, hremote]
  constructor
  · rintro ⟨hl, hr, hd⟩
    refine Std.ExtTreeMap.ext_getElem? fun refName => ?_
    have hnl : refName ∉ onlyKeys localRefs remoteRefs := by rw [hl]; simp
    have hnr : refName ∉ onlyKeys remoteRefs localRefs := by rw [hr]; simp
    rw [mem_onlyKeys] at hnl hnr
    rcases hlv : localRefs[refName]? with _ | localObjectId
    · rcases hrv : remoteRefs[refName]? with _ | remoteObjectId
      · rfl
      · rw [hlv, hrv] at hnr
        exact absurd ⟨rfl, rfl⟩ hnr
    · rcases hrv : remoteRefs[refName]? with _ | remoteObjectId
      · rw [hlv, hrv] at hnl
        exact absurd ⟨rfl, rfl⟩ hnl
      · by_contra hne
        have hmem : (⟨refName, localObjectId, remoteObjectId⟩ : SyncDivergentRef) ∈
            (localTally localRefs remoteRefs).divergentRefs :=
          mem_divergentRefs.mpr ⟨hlv, hrv, fun heq => hne (congrArg some heq)⟩
        have hempty : (localTally localRefs remoteRefs).divergentRefs = [] := hd
        rw [hempty] at hmem
        cases hmem
  · rintro rfl
    have hnone : onlyKeys localRefs localRefs = [] := by
      refine List.eq_nil_iff_forall_not_mem.mpr fun refName hmem => ?_
      obtain ⟨hsome, hnone⟩ := mem_onlyKeys.mp hmem
      rw [hnone] at hsome
      cases hsome
    refine ⟨hnone, hnone, List.eq_nil_iff_forall_not_mem.mpr fun d hmem => ?_⟩
    obtain ⟨hl, hr, hne⟩ := mem_divergentRefs.mp hmem
    exact hne (Option.some.inj (hl.symm.trans hr))

theorem inParity_iff_status {report : SyncStatusReport} {repo : RepoState}
    {verify : SyncVerifyReport} (hgit : repo.isGitRepo = true) (hinit : repo.initialized = true)
    (hok : verify.status = "ok") :
    report.InParity ↔ repoStatusValue repo (some verify) (some report) ≠ "out_of_sync" := by
  have hvalue : repoStatusValue repo (some verify) (some report) =
      if !report.localOnlyRefs.isEmpty || !report.remoteOnlyRefs.isEmpty ||
        !report.divergentRefs.isEmpty then "out_of_sync" else "ok" := by
    simp [repoStatusValue, hgit, hinit, hok]
  rw [hvalue, SyncStatusReport.InParity, ← List.isEmpty_iff, ← List.isEmpty_iff,
    ← List.isEmpty_iff]
  cases report.localOnlyRefs.isEmpty <;> cases report.remoteOnlyRefs.isEmpty <;>
    cases report.divergentRefs.isEmpty <;> simp

/-- The report on any two maps whose hashed texts do not collide. -/
theorem syncStatus_laws {X : Crates} {localRefs remoteRefs : RefMap} (remote : String)
    (hc : NoCollision X (canonicalBytes X (refsValue localRefs))
      (canonicalBytes X (refsValue remoteRefs))) :
    SyncStatusLaws localRefs remoteRefs (syncStatusReport X remote localRefs remoteRefs) := by
  have hlocal : (syncStatusReport X remote localRefs remoteRefs).localOnlyRefs =
      onlyKeys localRefs remoteRefs := localTally_localOnly
  have hremote : (syncStatusReport X remote localRefs remoteRefs).remoteOnlyRefs =
      onlyKeys remoteRefs localRefs := rfl
  have hshared := matching_add_divergent localRefs remoteRefs
  constructor
  case localCount =>
    have hsize := length_shared_add_only localRefs remoteRefs
    rw [hlocal]
    simp only [syncStatusReport]
    omega
  case remoteCount =>
    have hsize := length_shared_add_only remoteRefs localRefs
    have hcomm := length_sharedKeys_comm localRefs remoteRefs
    rw [hremote]
    simp only [syncStatusReport]
    omega
  case localSorted =>
    rw [hlocal]
    exact ordered_onlyKeys.imp bytesLess_of_compare
  case remoteSorted =>
    rw [hremote]
    exact ordered_onlyKeys.imp bytesLess_of_compare
  case divergentSorted =>
    have hkeys := (Std.ExtTreeMap.ordered_keys (t := localRefs)).imp bytesLess_of_compare
    exact hkeys.sublist (divergentNames_sublist X remote)
  case localRemote =>
    rw [hlocal, hremote]
    intro refName hl hr
    have hpresent := (mem_onlyKeys.mp hr).1
    rw [(mem_onlyKeys.mp hl).2] at hpresent
    cases hpresent
  case localDivergent =>
    rw [hlocal]
    intro refName hl hd
    have hpresent := (mem_divergentNames hd).2
    rw [(mem_onlyKeys.mp hl).2] at hpresent
    cases hpresent
  case remoteDivergent =>
    rw [hremote]
    intro refName hr hd
    have hpresent := (mem_divergentNames hd).1
    rw [(mem_onlyKeys.mp hr).2] at hpresent
    cases hpresent
  case matching => exact matching_eq
  case localOnly =>
    intro refName
    rw [hlocal, mem_onlyKeys]
  case remoteOnly =>
    intro refName
    rw [hremote, mem_onlyKeys, and_comm]
  case divergent => exact fun d => mem_divergentRefs
  case parity => exact inParity_iff X remote
  case hashes => exact (refsHash_eq_iff hc).symm
  case status => exact fun repo verify hgit hinit hok => inParity_iff_status hgit hinit hok

end Maps

/-- A store without references and a remote with one. -/
theorem emptyStore_syncStatus :
    NoCollision .reference (canonicalBytes .reference (refsValue ∅))
        (canonicalBytes .reference (refsValue ((∅ : RefMap).insert "refs/rickydata/a" "1"))) ∧
      SyncStatusLaws ∅ ((∅ : RefMap).insert "refs/rickydata/a" "1")
        (syncStatusReport .reference "origin" ∅ ((∅ : RefMap).insert "refs/rickydata/a" "1")) := by
  have hc : NoCollision .reference (canonicalBytes .reference (refsValue ∅))
      (canonicalBytes .reference (refsValue ((∅ : RefMap).insert "refs/rickydata/a" "1"))) := by
    intro h
    exact absurd h (by decide +kernel)
  exact ⟨hc, syncStatus_laws "origin" hc⟩

end RickydataGit.Cli
