/-
  The notes of agents and their inbox: `list_notes` and `note inbox`.

  An inbox call lists the notes of the clone and keeps one number for each agent, the
  marker: the newest time of a note addressed to it. What it shows is a filter of the
  listing and what it leaves is a maximum (`sift_eq`); `inbox_run` is the whole call.

  A run is any sequence of inbox calls and of changes to the object store in between
  (notes written here, pulls, lost cache files). Its calls are its `visits`.

  * `inbox_never_replays`: markers only grow, so what a call showed and marked as read
    is older than everything a later call shows.
  * `inbox_delivers_iff`: a note is shown by some call exactly when it is newer than the
    marker of the first call that lists it. `lateNote_not_delivered` is a run where a
    note arrives after a broadcast of the reader itself, and is never shown.
-/
import RickydataGit.Lib.Keyed
import RickydataGit.Git.Listing

namespace RickydataGit.Cli

open RickydataGit.Lib RickydataGit.Core RickydataGit.Git

/-! ## Notes -/

structure AgentNote where
  «from» : String
  «to» : String
  body : String
  thread : Option String
  inReplyTo : Option String
  refs : List String
  createdAtMs : UInt64
  deriving DecidableEq

/-- A list field that may be left out. -/
def readStrings : Option Value → Option (List String)
  | none => some []
  | some v => v.elems.bind fun vs => vs.mapM readStr

def AgentNote.ofValue (v : Value) : Option AgentNote := do
  let field ← asStruct ["from", "to", "body", "thread", "in_reply_to", "refs", "created_at_ms"] v
  let «from» ← (field "from").bind readStr
  let «to» ← (field "to").bind readStr
  let body ← (field "body").bind readStr
  let thread ← readOption readStr (field "thread")
  let inReplyTo ← readOption readStr (field "in_reply_to")
  let refs ← readStrings (field "refs")
  let createdAtMs ← (field "created_at_ms").bind readU64
  return { «from», «to», body, thread, inReplyTo, refs, createdAtMs }

/-- The strings of a list field that is left out when it is empty. -/
def stringsValue (strings : List String) : Option Value :=
  if strings.isEmpty then none else some (.arr (strings.map .str))

def AgentNote.toValue (note : AgentNote) : Value :=
  .obj ([("from", .str note.«from»), ("to", .str note.«to»), ("body", .str note.body)] ++
    optionalMember "thread" (note.thread.map .str) ++
    optionalMember "in_reply_to" (note.inReplyTo.map .str) ++
    optionalMember "refs" (stringsValue note.refs) ++
    [("created_at_ms", .ofU64 note.createdAtMs)]) (by
      cases note.thread <;> cases note.inReplyTo <;> cases stringsValue note.refs <;>
        simp [optionalMember])

theorem AgentNote.get_toValue (note : AgentNote) :
    note.toValue.get "from" = some (.str note.«from») ∧
    note.toValue.get "to" = some (.str note.«to») ∧
    note.toValue.get "body" = some (.str note.body) ∧
    note.toValue.get "thread" = note.thread.map .str ∧
    note.toValue.get "in_reply_to" = note.inReplyTo.map .str ∧
    note.toValue.get "refs" = stringsValue note.refs ∧
    note.toValue.get "created_at_ms" = some (.ofU64 note.createdAtMs) := by
  unfold toValue
  simp only [Value.get_obj]
  cases note.thread <;> cases note.inReplyTo <;> cases stringsValue note.refs <;>
    simp [optionalMember]

theorem mapM_readStr (strings : List String) :
    (strings.map Value.str).mapM readStr = some strings := by
  induction strings with
  | nil => rfl
  | cons t rest ih => simp [ih]

theorem readStrings_canonicalJson (strings : List String) :
    readStrings ((stringsValue strings).map canonicalJson) = some strings := by
  cases strings with
  | nil => rfl
  | cons t rest =>
    have h := mapM_readStr (t :: rest)
    have hs : (canonicalJson ∘ Value.str) = Value.str := funext canonicalJson_str
    simpa [readStrings, stringsValue, canonicalJson_arr, Value.elems_arr, hs] using h

/-- A note is read back from the canonical form of what is written. -/
theorem AgentNote.ofValue_canonicalJson (note : AgentNote) :
    AgentNote.ofValue (canonicalJson note.toValue) = some note := by
  obtain ⟨h1, h2, h3, h4, h5, h6, h7⟩ := note.get_toValue
  unfold AgentNote.toValue at h1 h2 h3 h4 h5 h6 h7 ⊢
  unfold AgentNote.ofValue
  have hs : (canonicalJson ∘ Value.str) = Value.str := funext canonicalJson_str
  simp only [asStruct_canonicalJson_obj, Option.bind_eq_bind, Option.bind_some, h1, h2, h3, h4, h5,
    h6, h7, Option.map_some, Option.map_map, canonicalJson_str, canonicalJson_ofU64, readStr_str,
    readU64_ofU64, hs, readOption_map_str, readStrings_canonicalJson]
  rfl

structure NoteEntry where
  objectId : String
  refName : String
  gitObjectId : String
  signatureCount : Nat
  note : AgentNote
  deriving DecidableEq

/-- What an inbox call can fail with. -/
inductive NoteError where
  | git (error : GitInspectError)
  /-- The body of an object of this id is no note. -/
  | json (objectId : String)
  deriving DecidableEq

section Listing

variable (X : Crates)

/-- The loop of `list_notes`. -/
def readNotes : List ObjectListEntry → Prog storeOps NoteError (List NoteEntry)
  | [] => return []
  | entry :: rest => do
    let report ← (readCachedObject X entry.objectId).mapFail .git
    match AgentNote.ofValue report.object.body with
    | none => .fail (.json entry.objectId)
    | some note =>
      let notes ← readNotes rest
      let noteEntry : NoteEntry := {
        objectId := entry.objectId, refName := entry.refName, gitObjectId := entry.gitObjectId
        signatureCount := report.object.signatures.length, note }
      return noteEntry :: notes

/-- By time, then by id. -/
def noteOrder (left right : NoteEntry) : Bool :=
  decide (left.note.createdAtMs < right.note.createdAtMs ∨
    left.note.createdAtMs = right.note.createdAtMs ∧ left.objectId ≤ right.objectId)

def listNotes : Prog storeOps NoteError (List NoteEntry) := do
  let objectEntries ← (listRefBackedObjects X (some "agent.note")).mapFail .git
  let notes ← readNotes X objectEntries
  return notes.mergeSort noteOrder

end Listing

/-! ## Markers -/

inductive MarkerOp where
  | read (path : String)
  | write (path : String) (bytes : Bytes)

@[reducible] def markerOps : Ops where
  Op := MarkerOp
  Ans
    | .read _ => Option Bytes
    | .write _ _ => Unit

/-- The marker files, by path. -/
abbrev Markers := Std.ExtTreeMap String Bytes compare

def markerExec : (o : markerOps.Op) → Markers → markerOps.Ans o × Markers
  | .read path, m => (m[path]?, m)
  | .write path bytes, m => ((), m.insert path bytes)

abbrev noteOps : Ops := storeOps.plus markerOps

abbrev NoteProg := Prog noteOps NoteError

/-- An object store and the marker files beside it. -/
abbrev Clone := ObjectStore × Markers

abbrev noteExec := Prog.execPlus exec markerExec

def isFilenameChar (c : Char) : Bool := c.isAlphanum || c == '-' || c == '_' || c == '.'

def sanitizeAgentFilename (agent : String) : String :=
  .ofList (agent.toList.map fun c => if isFilenameChar c then c else '_')

def noteStatePath (agent : String) : String :=
  "rickydata/notes/state/" ++ sanitizeAgentFilename agent ++ ".json"

def markerValue (lastReadMs : UInt64) : Value := .obj [("last_read_ms", .ofU64 lastReadMs)] (by simp)

def markerOfValue (v : Value) : Option UInt64 := do
  let field ← asStruct ["last_read_ms"] v
  (field "last_read_ms").bind readU64

section Inbox

variable (X : Crates)

/-- What a marker file says; one that is missing or unreadable says 0. -/
def markerOf (bytes : Option Bytes) : UInt64 := ((bytes.bind X.readJson).bind markerOfValue).getD 0

def markerBytes (lastReadMs : UInt64) : Bytes := toVec X.floatText (markerValue lastReadMs)

def readNoteMarker (path : String) : NoteProg UInt64 :=
  .op (.inr (.read path)) fun bytes => .ret (markerOf X bytes)

def writeNoteMarker (path : String) (lastReadMs : UInt64) : NoteProg Unit :=
  .op (.inr (.write path (markerBytes X lastReadMs))) .ret

/-! ## The inbox -/

structure NoteInboxArgs where
  agent : String
  sinceMs : Option UInt64
  allHistory : Bool
  includeSelf : Bool
  peek : Bool

structure NoteInboxReport where
  agent : String
  count : Nat
  readMarkerMs : UInt64
  markerAdvanced : Bool
  notes : List NoteEntry
  deriving DecidableEq

variable (args : NoteInboxArgs)

def NoteInboxArgs.addressed (entry : NoteEntry) : Bool :=
  entry.note.«to» == args.agent || entry.note.«to» == "all"

/-- The loop over the notes, with the newest time and the notes to show. -/
def sift (lowerBound : Option UInt64) :
    UInt64 → List NoteEntry → UInt64 × List NoteEntry
  | newestAddressed, [] => (newestAddressed, [])
  | newestAddressed, entry :: rest =>
    if !args.addressed entry then sift lowerBound newestAddressed rest
    else
      let (newest, matched) := sift lowerBound (max newestAddressed entry.note.createdAtMs) rest
      if !args.includeSelf && entry.note.«from» == args.agent then (newest, matched)
      else if lowerBound.any fun bound => decide (entry.note.createdAtMs ≤ bound) then
        (newest, matched)
      else (newest, entry :: matched)

/-- Notes up to this time are not shown. -/
def inboxBound (markerPath : String) : NoteProg (Option UInt64) :=
  if args.allHistory then return none
  else
    match args.sinceMs with
    | some ms => return some ms
    | none => do
      let marker ← readNoteMarker X markerPath
      return some marker

/-- `NoteSubcommand::Inbox`. -/
def inbox : NoteProg NoteInboxReport := do
  let allNotes ← (listNotes X).liftLeft markerOps
  let markerPath := noteStatePath args.agent
  let lowerBound ← inboxBound X args markerPath
  let marker ← readNoteMarker X markerPath
  let (newestAddressed, matched) := sift args lowerBound marker allNotes
  let report : NoteInboxReport := {
    agent := args.agent, count := matched.length, readMarkerMs := newestAddressed
    markerAdvanced := !args.peek, notes := matched }
  if args.peek then return report
  else
    writeNoteMarker X markerPath newestAddressed
    return report

end Inbox

/-! ## One call -/

section Call

variable {X : Crates} (args : NoteInboxArgs)

/-- The newest time of a note addressed to the agent, or the marker. -/
def newestAddressed (marker : UInt64) (notes : List NoteEntry) : UInt64 :=
  ((notes.filter args.addressed).map fun entry => entry.note.createdAtMs).foldl max marker

/-- The notes of a listing that a call shows. -/
def shows (lowerBound : Option UInt64) (entry : NoteEntry) : Bool :=
  args.addressed entry && (args.includeSelf || entry.note.«from» != args.agent) &&
    !lowerBound.any fun bound => decide (entry.note.createdAtMs ≤ bound)

/-- The loop is a maximum and a filter. -/
theorem sift_eq (lowerBound : Option UInt64) (marker : UInt64) (notes : List NoteEntry) :
    sift args lowerBound marker notes =
      (newestAddressed args marker notes, notes.filter (shows args lowerBound)) := by
  induction notes generalizing marker with
  | nil => rfl
  | cons entry rest ih =>
    unfold sift
    by_cases ha : args.addressed entry = true
    · have hnewest : newestAddressed args marker (entry :: rest) =
          newestAddressed args (max marker entry.note.createdAtMs) rest := by
        rw [newestAddressed, List.filter_cons_of_pos ha]
        rfl
      rw [if_neg (by simp [ha]), ih, hnewest, List.filter_cons]
      simp only [shows, ha, Bool.true_and]
      by_cases hself : (!args.includeSelf && entry.note.«from» == args.agent) = true
      · have hno : (args.includeSelf || entry.note.«from» != args.agent) = false := by
          simpa [Bool.or_eq_false_iff, bne] using hself
        simp [hself, hno]
      · have hyes : (args.includeSelf || entry.note.«from» != args.agent) = true := by
          rw [Bool.not_eq_true, Bool.and_eq_false_iff] at hself
          rcases hself with h | h
          · simp only [Bool.not_eq_false'] at h
            simp [h]
          · simp [bne, h]
        by_cases hb : (lowerBound.any fun bound => decide (entry.note.createdAtMs ≤ bound)) = true
        · simp [hself, hb]
        · simp [hself, hyes, hb]
    · have hnewest : newestAddressed args marker (entry :: rest) =
          newestAddressed args marker rest := by
        rw [newestAddressed, List.filter_cons_of_neg ha]
        rfl
      rw [if_pos (by simpa using ha), ih, hnewest, List.filter_cons_of_neg (by simp [shows, ha])]

theorem le_maxOf (a b : UInt64) : a ≤ max a b ∧ b ≤ max a b := by
  have hmax : max a b = if a ≤ b then b else a := rfl
  rw [hmax]
  split
  · next h => exact ⟨h, UInt64.le_refl b⟩
  · next h => exact ⟨UInt64.le_refl a, UInt64.le_of_lt (UInt64.not_le.mp h)⟩

theorem le_foldl_max (ms : List UInt64) (m : UInt64) :
    m ≤ ms.foldl max m ∧ ∀ a ∈ ms, a ≤ ms.foldl max m := by
  induction ms generalizing m with
  | nil => exact ⟨UInt64.le_refl m, by simp⟩
  | cons a ms ih =>
    obtain ⟨hm, hms⟩ := ih (max m a)
    obtain ⟨hleft, hright⟩ := le_maxOf m a
    exact ⟨UInt64.le_trans hleft hm, List.forall_mem_cons.mpr ⟨UInt64.le_trans hright hm, hms⟩⟩

theorem marker_le_newestAddressed (marker : UInt64) (notes : List NoteEntry) :
    marker ≤ newestAddressed args marker notes :=
  (le_foldl_max _ _).1

theorem createdAtMs_le_newestAddressed (marker : UInt64) {notes : List NoteEntry}
    {entry : NoteEntry} (he : entry ∈ notes) (ha : args.addressed entry = true) :
    entry.note.createdAtMs ≤ newestAddressed args marker notes :=
  (le_foldl_max _ _).2 _ (List.mem_map_of_mem (List.mem_filter.mpr ⟨he, ha⟩))

/-- The marker of a path in a clone. -/
def markerAt (X : Crates) (c : Clone) (path : String) : UInt64 := markerOf X c.2[path]?

/-- The bound of a call, by the marker it finds. -/
def lowerBound (marker : UInt64) : Option UInt64 :=
  if args.allHistory then none else some (args.sinceMs.getD marker)

/-- The answer of a call that finds these notes and this marker. -/
def inboxReport (marker : UInt64) (notes : List NoteEntry) : NoteInboxReport where
  agent := args.agent
  count := (notes.filter (shows args (lowerBound args marker))).length
  readMarkerMs := newestAddressed args marker notes
  markerAdvanced := !args.peek
  notes := notes.filter (shows args (lowerBound args marker))

/-- The markers that a call leaves. -/
def advanced (X : Crates) (c : Clone) (notes : List NoteEntry) : Markers :=
  if args.peek then c.2
  else
    let path := noteStatePath args.agent
    c.2.insert path (markerBytes X (newestAddressed args (markerAt X c path) notes))

theorem run_inboxBound (c : Clone) (path : String) :
    (inboxBound X args path).run noteExec c = (.ok (lowerBound args (markerAt X c path)), c) := by
  unfold inboxBound lowerBound
  split
  · rfl
  · rcases args.sinceMs with _ | ms
    · rfl
    · rfl

/-- All that a call does. -/
theorem inbox_run (c : Clone) :
    (inbox X args).run noteExec c =
      match (listNotes X).run exec c.1 with
      | (.error e, s) => (.error e, s, c.2)
      | (.ok notes, s) =>
        (.ok (inboxReport args (markerAt X c (noteStatePath args.agent)) notes), s,
          advanced args X c notes) := by
  have hlist := Prog.run_liftLeft exec markerExec (listNotes X) c
  unfold inbox
  rcases hrun : (listNotes X).run exec c.1 with ⟨e | notes, s⟩
  · rw [hrun] at hlist
    exact Prog.run_bind_error _ hlist _
  · rw [hrun] at hlist
    rw [Prog.run_bind_ok _ hlist, Prog.run_bind_ok _ (run_inboxBound args _ _)]
    have hmarker : (readNoteMarker X (noteStatePath args.agent)).run noteExec (s, c.2) =
        (.ok (markerAt X c (noteStatePath args.agent)), s, c.2) := rfl
    have hmarkerAt : markerAt X (s, c.2) (noteStatePath args.agent) =
        markerAt X c (noteStatePath args.agent) := rfl
    rw [Prog.run_bind_ok _ hmarker, hmarkerAt, sift_eq]
    unfold advanced
    dsimp only
    split
    · rfl
    · rfl

end Call

/-! ## Runs -/

/-- What happens to a clone. -/
inductive NoteEvent where
  /-- The object store changes: notes are written or pulled, cache files are lost. -/
  | change (store : ObjectStore)
  | inbox (args : NoteInboxArgs)

/-- An inbox call of a run. -/
structure Visit where
  args : NoteInboxArgs
  before : Clone
  after : Clone
  result : Except NoteError NoteInboxReport

section Runs

variable (X : Crates)

def visits : Clone → List NoteEvent → List Visit
  | _, [] => []
  | c, .change store :: rest => visits (store, c.2) rest
  | c, .inbox args :: rest =>
    let (result, after) := (inbox X args).run noteExec c
    ⟨args, c, after, result⟩ :: visits after rest

def cloneAfter : Clone → List NoteEvent → Clone
  | c, [] => c
  | c, .change store :: rest => cloneAfter (store, c.2) rest
  | c, .inbox args :: rest => cloneAfter ((inbox X args).run noteExec c).2 rest

theorem visits_change (c : Clone) (store : ObjectStore) (rest : List NoteEvent) :
    visits X c (.change store :: rest) = visits X (store, c.2) rest := rfl

theorem visits_inbox (c : Clone) (args : NoteInboxArgs) (rest : List NoteEvent) :
    visits X c (.inbox args :: rest) =
      ⟨args, c, ((inbox X args).run noteExec c).2, ((inbox X args).run noteExec c).1⟩ ::
        visits X ((inbox X args).run noteExec c).2 rest := rfl

/-- The notes that are in the clone when the call is made. -/
def Visit.listing (v : Visit) : List NoteEntry :=
  match ((listNotes X).run exec v.before.1).1 with
  | .ok notes => notes
  | .error _ => []

/-- The calls of a run, and what they have to do with one another. -/
structure NeverReplays (c : Clone) (events : List NoteEvent) : Prop where
  /-- No marker ever decreases. -/
  markers : ∀ before after, events = before ++ after → ∀ path,
    markerAt X (cloneAfter X c before) path ≤ markerAt X (cloneAfter X c events) path
  /-- What a call showed and marked as read, no later call without bound shows again. -/
  notes : (visits X c events).Pairwise fun x y =>
    x.args.agent = y.args.agent → x.args.peek = false →
    y.args.sinceMs = none → y.args.allHistory = false →
    ∀ report report', x.result = .ok report → y.result = .ok report' →
    ∀ entry ∈ report.notes, ∀ entry' ∈ report'.notes,
      entry'.note ≠ entry.note ∧ entry.note.createdAtMs < entry'.note.createdAtMs

end Runs

section Markers

variable {X : Crates} {c : Clone} {v : Visit} {events : List NoteEvent}

theorem markerOf_markerBytes (hX : ReadsBack X) (ms : UInt64) :
    markerOf X (some (markerBytes X ms)) = ms := by
  unfold markerOf markerBytes
  rw [Option.bind_some, hX.compact, Option.bind_some]
  simp [markerOfValue, markerValue, asStruct_obj, Value.get_obj]

/-- A visit is what the call does. -/
theorem mem_visits (h : v ∈ visits X c events) :
    (inbox X v.args).run noteExec v.before = (v.result, v.after) := by
  induction events generalizing c with
  | nil => cases h
  | cons event rest ih =>
    cases event with
    | change store => exact ih h
    | inbox args =>
      rcases List.mem_cons.mp h with rfl | h
      · rfl
      · exact ih h

/-- A call that succeeds shows a part of the listing and leaves the newest time. -/
theorem visit_ok (h : v ∈ visits X c events) {report : NoteInboxReport}
    (hr : v.result = .ok report) :
    report = inboxReport v.args (markerAt X v.before (noteStatePath v.args.agent)) (v.listing X) ∧
      v.after.2 = advanced v.args X v.before (v.listing X) := by
  have hrun := mem_visits h
  rw [inbox_run, hr] at hrun
  unfold Visit.listing
  rcases hlist : (listNotes X).run exec v.before.1 with ⟨e | notes, s⟩
  · rw [hlist] at hrun
    cases congrArg Prod.fst hrun
  · rw [hlist] at hrun
    exact ⟨(Except.ok.inj (congrArg Prod.fst hrun)).symm, congrArg (fun r => r.2.2) hrun.symm⟩

theorem listing_ok (h : v ∈ visits X c events) {entry : NoteEntry} (he : entry ∈ v.listing X) :
    ∃ report, v.result = .ok report := by
  have hrun := mem_visits h
  rw [inbox_run] at hrun
  unfold Visit.listing at he
  rcases hlist : (listNotes X).run exec v.before.1 with ⟨e | notes, s⟩
  · rw [hlist] at he
    cases he
  · rw [hlist] at hrun
    exact ⟨_, (congrArg Prod.fst hrun).symm⟩

theorem markerAt_advanced (hX : ReadsBack X) (args : NoteInboxArgs) (notes : List NoteEntry)
    (s : ObjectStore) (path : String) :
    markerAt X (s, advanced args X c notes) path =
      if args.peek = false ∧ noteStatePath args.agent = path then
        newestAddressed args (markerAt X c path) notes
      else markerAt X c path := by
  unfold markerAt advanced
  by_cases hp : args.peek = true
  · simp [hp]
  · rw [if_neg hp]
    dsimp only
    rw [getElem?_insert_eq]
    by_cases hpath : noteStatePath args.agent = path
    · rw [if_pos hpath, markerOf_markerBytes hX, if_pos ⟨by simpa using hp, hpath⟩, hpath]
      rfl
    · rw [if_neg hpath, if_neg fun h => hpath h.2]

/-- No call decreases a marker. -/
theorem markerAt_le_inbox (hX : ReadsBack X) (args : NoteInboxArgs) (c : Clone) (path : String) :
    markerAt X c path ≤ markerAt X ((inbox X args).run noteExec c).2 path := by
  rw [inbox_run]
  rcases (listNotes X).run exec c.1 with ⟨e | notes, s⟩
  · exact UInt64.le_refl _
  · show _ ≤ markerAt X (s, advanced args X c notes) path
    rw [markerAt_advanced hX]
    split
    · exact marker_le_newestAddressed args _ _
    · exact UInt64.le_refl _

theorem markerAt_le_cloneAfter (hX : ReadsBack X) (c : Clone) (events : List NoteEvent)
    (path : String) : markerAt X c path ≤ markerAt X (cloneAfter X c events) path := by
  induction events generalizing c with
  | nil => exact UInt64.le_refl _
  | cons event rest ih =>
    cases event with
    | change store => exact ih (store, c.2)
    | inbox args => exact UInt64.le_trans (markerAt_le_inbox hX args c path) (ih _)

theorem cloneAfter_append (c : Clone) (before after : List NoteEvent) :
    cloneAfter X c (before ++ after) = cloneAfter X (cloneAfter X c before) after := by
  induction before generalizing c with
  | nil => rfl
  | cons event rest ih =>
    cases event with
    | change store => exact ih _
    | inbox args => exact ih _

/-- The marker of every later call is at least the one now. -/
theorem markerAt_le_visit (hX : ReadsBack X) (h : v ∈ visits X c events) (path : String) :
    markerAt X c path ≤ markerAt X v.before path := by
  induction events generalizing c with
  | nil => cases h
  | cons event rest ih =>
    cases event with
    | change store => exact ih (c := (store, c.2)) h
    | inbox args =>
      rcases List.mem_cons.mp h with rfl | h
      · exact UInt64.le_refl _
      · exact UInt64.le_trans (markerAt_le_inbox hX args c path) (ih h)

theorem visits_pairwise (hX : ReadsBack X) (c : Clone) (events : List NoteEvent) :
    (visits X c events).Pairwise fun x y =>
      ∀ path, markerAt X x.after path ≤ markerAt X y.before path := by
  induction events generalizing c with
  | nil => exact .nil
  | cons event rest ih =>
    cases event with
    | change store => exact ih _
    | inbox args =>
      exact List.pairwise_cons.mpr ⟨fun y hy path => markerAt_le_visit hX hy path, ih _⟩

/-- What is shown and marked as read is not newer than the marker that is left. -/
theorem shown_le_marker (hX : ReadsBack X) (h : v ∈ visits X c events) {report : NoteInboxReport}
    (hr : v.result = .ok report) (hpeek : v.args.peek = false) {entry : NoteEntry}
    (he : entry ∈ report.notes) :
    entry.note.createdAtMs ≤ markerAt X v.after (noteStatePath v.args.agent) := by
  obtain ⟨rfl, hafter⟩ := visit_ok h hr
  obtain ⟨hlist, hshows⟩ := List.mem_filter.mp he
  have hmarker := markerAt_advanced (c := v.before) hX v.args (v.listing X) v.after.1
    (noteStatePath v.args.agent)
  rw [← hafter, if_pos ⟨hpeek, rfl⟩] at hmarker
  rw [show v.after = (v.after.1, v.after.2) from rfl, hmarker]
  simp only [shows, Bool.and_eq_true] at hshows
  exact createdAtMs_le_newestAddressed _ _ hlist hshows.1.1

/-- What is shown without a bound of one's own is newer than the marker that is found. -/
theorem marker_lt_shown (h : v ∈ visits X c events) {report : NoteInboxReport}
    (hr : v.result = .ok report) (hsince : v.args.sinceMs = none)
    (hall : v.args.allHistory = false) {entry : NoteEntry} (he : entry ∈ report.notes) :
    markerAt X v.before (noteStatePath v.args.agent) < entry.note.createdAtMs := by
  obtain ⟨rfl, -⟩ := visit_ok h hr
  obtain ⟨-, hshows⟩ := List.mem_filter.mp he
  simp only [shows, Bool.and_eq_true] at hshows
  simpa [lowerBound, hsince, hall] using hshows.2

end Markers

/-- The inbox never replays, whatever happens between the calls and whatever their flags. -/
theorem inbox_never_replays {X : Crates} (hX : ReadsBack X) (c : Clone) (events : List NoteEvent) :
    NeverReplays X c events where
  markers before after he path := by
    rw [he, cloneAfter_append]
    exact markerAt_le_cloneAfter hX _ after path
  notes := by
    refine (List.Pairwise.and_mem.mp (visits_pairwise hX c events)).imp ?_
    rintro x y ⟨hx, hy, hmarkers⟩ hagent hpeek hsince hall report report' hr hr' e he e' he'
    have hlt : e.note.createdAtMs < e'.note.createdAtMs := by
      have hle := shown_le_marker hX hx hr hpeek he
      have hgt := marker_lt_shown hy hr' hsince hall he'
      rw [hagent] at hle
      exact UInt64.lt_of_le_of_lt hle (UInt64.lt_of_le_of_lt (hmarkers _) hgt)
    refine ⟨fun hsame => ?_, hlt⟩
    rw [hsame] at hlt
    exact UInt64.lt_irrefl _ hlt

/-- Two calls of one agent on an empty clone. -/
theorem twoReads_never_replay :
    NeverReplays .reference (.empty, ∅)
      [.inbox ⟨"a", none, false, false, false⟩, .inbox ⟨"a", none, false, true, true⟩] :=
  inbox_never_replays readsBack_reference _ _

/-! ## Delivery -/

/-- Neither `--peek`, nor `--since-ms`, nor `--all-history`. -/
structure NoteInboxArgs.IsDefault (args : NoteInboxArgs) : Prop where
  sinceMs : args.sinceMs = none
  allHistory : args.allHistory = false
  peek : args.peek = false

/-- The note is addressed to the agent or to all, and not sent by it. -/
structure ForAgent (agent : String) (entry : NoteEntry) : Prop where
  addressed : entry.note.«to» = agent ∨ entry.note.«to» = "all"
  sender : entry.note.«from» ≠ agent

/-- Two entries are of one note. -/
def SameNote (entry entry' : NoteEntry) : Prop :=
  entry'.objectId = entry.objectId ∧ entry'.note = entry.note

section Delivery

variable (X : Crates) (agent : String) (vs : List Visit)

/-- The call shows the note. -/
def Visit.Delivers (v : Visit) (entry : NoteEntry) : Prop :=
  ∃ report, v.result = .ok report ∧ ∃ entry' ∈ report.notes, SameNote entry entry'

/-- The call lists the note. -/
def Visit.Lists (v : Visit) (entry : NoteEntry) : Prop :=
  ∃ entry' ∈ v.listing X, SameNote entry entry'

/-- Every note for the agent that is there at some call is shown by some call. -/
def Delivered : Prop :=
  ∀ v ∈ vs, ∀ entry ∈ v.listing X, ForAgent agent entry → ∃ w ∈ vs, w.Delivers entry

/-- Every note for the agent is newer than the marker of the first call that lists it. -/
def Timely : Prop :=
  ∀ earlier v later, vs = earlier ++ v :: later → ∀ entry ∈ v.listing X, ForAgent agent entry →
    (∀ u ∈ earlier, ¬ u.Lists X entry) →
    markerAt X v.before (noteStatePath agent) < entry.note.createdAtMs

end Delivery

section Delivery

variable {X : Crates} {agent : String} {c : Clone} {events : List NoteEvent} {v : Visit}

/-- A note that is shown was listed, and is newer than the marker. -/
theorem lists_of_delivers (h : v ∈ visits X c events) {entry : NoteEntry} (hd : v.Delivers entry)
    (hsince : v.args.sinceMs = none) (hall : v.args.allHistory = false) :
    v.Lists X entry ∧ markerAt X v.before (noteStatePath v.args.agent) < entry.note.createdAtMs := by
  obtain ⟨report, hr, entry', he', hsame⟩ := hd
  have hlt := marker_lt_shown h hr hsince hall he'
  obtain ⟨rfl, -⟩ := visit_ok h hr
  exact ⟨⟨entry', (List.mem_filter.mp he').1, hsame⟩, hsame.2 ▸ hlt⟩

/-- A listed note for the agent that is newer than the marker is shown. -/
theorem delivers_of_lists (h : v ∈ visits X c events) {entry : NoteEntry} (hl : v.Lists X entry)
    (ha : v.args.agent = agent) (hsince : v.args.sinceMs = none)
    (hall : v.args.allHistory = false) (hfor : ForAgent agent entry)
    (hlt : markerAt X v.before (noteStatePath agent) < entry.note.createdAtMs) :
    v.Delivers entry := by
  obtain ⟨entry', he', hsame⟩ := hl
  obtain ⟨report, hr⟩ := listing_ok h he'
  refine ⟨report, hr, entry', ?_, hsame⟩
  obtain ⟨rfl, -⟩ := visit_ok h hr
  refine List.mem_filter.mpr ⟨he', ?_⟩
  rw [← ha] at hlt
  have haddressed : v.args.addressed entry' = true := by
    simpa [NoteInboxArgs.addressed, hsame.2, ha] using hfor.addressed
  have hsender : (v.args.includeSelf || entry'.note.«from» != v.args.agent) = true := by
    rw [hsame.2, ha]
    simp [hfor.sender]
  simp only [shows, haddressed, hsender, Bool.true_and, lowerBound, hsince, hall]
  simpa [hsame.2] using hlt

/-- The first of a list that satisfies something. -/
theorem exists_first {α : Type} {P : α → Prop} {as : List α} {a : α} (ha : a ∈ as) (hP : P a) :
    ∃ before b after, as = before ++ b :: after ∧ P b ∧ ∀ x ∈ before, ¬ P x := by
  induction as with
  | nil => cases ha
  | cons b bs ih =>
    by_cases hb : P b
    · exact ⟨[], b, bs, rfl, hb, by simp⟩
    · rcases List.mem_cons.mp ha with rfl | ha
      · exact absurd hP hb
      · obtain ⟨before, x, after, rfl, hx, hbefore⟩ := ih ha
        exact ⟨b :: before, x, after, rfl, hx, List.forall_mem_cons.mpr ⟨hb, hbefore⟩⟩

/-- A note that the first call listing it does not show, no call shows: later markers
    are no smaller. -/
theorem timely_of_delivered (hX : ReadsBack X)
    (hargs : ∀ v ∈ visits X c events, v.args.agent = agent ∧ v.args.IsDefault)
    (h : Delivered X agent (visits X c events)) : Timely X agent (visits X c events) := by
  intro earlier v later hsplit entry he hfor hfirst
  have hv : v ∈ visits X c events := by simp [hsplit]
  obtain ⟨w, hw, hdelivers⟩ := h v hv entry he hfor
  obtain ⟨hagent, hdefault⟩ := hargs w hw
  obtain ⟨hlists, hlt⟩ := lists_of_delivers hw hdelivers hdefault.sinceMs hdefault.allHistory
  rw [hagent] at hlt
  rw [hsplit, List.mem_append, List.mem_cons] at hw
  rcases hw with hw | rfl | hw
  · exact absurd hlists (hfirst w hw)
  · exact hlt
  · have hpairs := visits_pairwise hX c events
    rw [hsplit] at hpairs
    have hle := (List.pairwise_cons.mp (List.pairwise_append.mp hpairs).2.1).1 w hw
    have hgrow := markerAt_le_inbox hX v.args v.before (noteStatePath agent)
    rw [mem_visits hv] at hgrow
    exact UInt64.lt_of_le_of_lt (UInt64.le_trans hgrow (hle _)) hlt

theorem delivered_of_timely
    (hargs : ∀ v ∈ visits X c events, v.args.agent = agent ∧ v.args.IsDefault)
    (h : Timely X agent (visits X c events)) : Delivered X agent (visits X c events) := by
  intro v hv entry he hfor
  have hlists : v.Lists X entry := ⟨entry, he, rfl, rfl⟩
  obtain ⟨earlier, w, later, hsplit, ⟨entry', he', hsame⟩, hearlier⟩ :=
    exists_first (P := fun u => u.Lists X entry) hv hlists
  have hw : w ∈ visits X c events := by simp [hsplit]
  obtain ⟨hagent, hdefault⟩ := hargs w hw
  have hfor' : ForAgent agent entry' :=
    ⟨hsame.2 ▸ hfor.addressed, hsame.2 ▸ hfor.sender⟩
  have hlt := h earlier w later hsplit entry' he' hfor' fun u hu hl => hearlier u hu <| by
    obtain ⟨entry'', he'', hsame''⟩ := hl
    exact ⟨entry'', he'', hsame''.1.trans hsame.1, hsame''.2.trans hsame.2⟩
  refine ⟨w, hw, delivers_of_lists hw ⟨entry', he', hsame⟩ hagent hdefault.sinceMs
    hdefault.allHistory hfor ?_⟩
  rw [← hsame.2]
  exact hlt

/-- The calls of a run are those among its events. -/
theorem mem_events (h : v ∈ visits X c events) : .inbox v.args ∈ events := by
  induction events generalizing c with
  | nil => cases h
  | cons event rest ih =>
    cases event with
    | change store => exact List.mem_cons_of_mem _ (ih (c := (store, c.2)) h)
    | inbox args =>
      rcases List.mem_cons.mp h with rfl | h
      · exact List.mem_cons_self
      · exact List.mem_cons_of_mem _ (ih h)

end Delivery

/-- In a run of default calls every note is delivered exactly when every note is newer
    than the marker of the first call that lists it. -/
theorem inbox_delivers_iff {X : Crates} (hX : ReadsBack X) (agent : String) (c : Clone)
    {events : List NoteEvent}
    (hcalls : ∀ args, .inbox args ∈ events → args.agent = agent ∧ args.IsDefault) :
    Delivered X agent (visits X c events) ↔ Timely X agent (visits X c events) := by
  have hargs : ∀ v ∈ visits X c events, v.args.agent = agent ∧ v.args.IsDefault :=
    fun v hv => hcalls v.args (mem_events hv)
  exact ⟨timely_of_delivered hX hargs, delivered_of_timely hargs⟩

/-- An empty clone that is read twice. -/
theorem twoReads_deliver_iff :
    Delivered .reference "a" (visits .reference (.empty, ∅)
        [.inbox ⟨"a", none, false, false, false⟩, .inbox ⟨"a", none, false, false, false⟩]) ↔
      Timely .reference "a" (visits .reference (.empty, ∅)
        [.inbox ⟨"a", none, false, false, false⟩, .inbox ⟨"a", none, false, false, false⟩]) := by
  refine inbox_delivers_iff readsBack_reference "a" _ fun args h => ?_
  have hargs : args = ⟨"a", none, false, false, false⟩ := by simpa using h
  rw [hargs]
  exact ⟨rfl, rfl, rfl, rfl⟩

/-! ## Stores of notes -/

section NoteObjects

variable {X : Crates} {s : ObjectStore}

/-- The unsigned object of a note. -/
def noteObject (X : Crates) (note : AgentNote) : CanonicalObject :=
  cachedObject X "agent.note" note.toValue

theorem ofValue_noteObject (note : AgentNote) :
    AgentNote.ofValue (noteObject X note).canonical.body = some note := by
  have hbody : (noteObject X note).canonical.body = canonicalJson (canonicalJson note.toValue) := rfl
  rw [hbody, canonicalJson_idem, note.ofValue_canonicalJson]

/-- The object of a note is read back as that note. -/
theorem readNote_run {notes : List AgentNote} (hX : ReadsBack X)
    (h : RefsOf X (notes.map (noteObject X)) s) {note : AgentNote} (hn : note ∈ notes) :
    ∃ report s', (readCachedObject X (noteObject X note).objectId).run exec s =
        (.ok report, s') ∧
      AgentNote.ofValue report.object.body = some note ∧
      RefsOf X (notes.map (noteObject X)) s' := by
  obtain ⟨report, s', hrun, hobject, hrefs⟩ := h.read hX (List.mem_map_of_mem hn)
  exact ⟨report, s', hrun, hobject ▸ ofValue_noteObject note, hrefs⟩

/-- The loop over entries of the objects of notes. -/
theorem readNotes_run {notes : List AgentNote} (hX : ReadsBack X)
    (h : RefsOf X (notes.map (noteObject X)) s) {entries : List ObjectListEntry}
    (hentries : ∀ entry ∈ entries, ∃ note ∈ notes, entry.objectId = (noteObject X note).objectId) :
    ∃ found s', (readNotes X entries).run exec s = (.ok found, s') ∧
      (∀ e ∈ found, e.note ∈ notes) ∧
      ∀ note ∈ notes, (∃ entry ∈ entries, entry.objectId = (noteObject X note).objectId) →
        ∃ e ∈ found, e.note = note := by
  induction entries generalizing s with
  | nil => exact ⟨[], s, rfl, by simp, by simp⟩
  | cons entry rest ih =>
    obtain ⟨⟨note, hn, hid⟩, hrest⟩ := List.forall_mem_cons.mp hentries
    obtain ⟨report, s₁, hrun, hnote, hrefs⟩ := readNote_run hX h hn
    obtain ⟨found, s₂, hfound, hsub, hall⟩ := ih hrefs hrest
    have hread : ((readCachedObject X entry.objectId).mapFail NoteError.git).run exec s =
        (.ok report, s₁) := by
      rw [Prog.run_mapFail, hid, hrun]
      rfl
    refine ⟨⟨entry.objectId, entry.refName, entry.gitObjectId, report.object.signatures.length,
      note⟩ :: found, s₂, ?_, List.forall_mem_cons.mpr ⟨hn, hsub⟩, ?_⟩
    · rw [readNotes, Prog.run_bind_ok exec hread, hnote]
      dsimp only
      rw [Prog.run_bind_ok exec hfound]
      rfl
    · rintro note' hn' ⟨entry', he', hid'⟩
      rcases List.mem_cons.mp he' with rfl | he'
      · obtain ⟨report', s', hrun', hnote', -⟩ := readNote_run hX h hn'
        rw [← hid', hid, hrun] at hrun'
        obtain rfl := Except.ok.inj (congrArg Prod.fst hrun')
        exact ⟨_, List.mem_cons_self, Option.some.inj (hnote.symm.trans hnote')⟩
      · obtain ⟨e, he, hnote'⟩ := hall note' hn' ⟨entry', he', hid'⟩
        exact ⟨e, List.mem_cons_of_mem _ he, hnote'⟩

/-- The notes of a store that holds the objects of these notes only. -/
theorem listNotes_run {notes : List AgentNote} (hX : ReadsBack X)
    (h : RefsOf X (notes.map (noteObject X)) s) :
    ∃ found s', (listNotes X).run exec s = (.ok found, s') ∧
      ∀ note, (∃ e ∈ found, e.note = note) ↔ note ∈ notes := by
  obtain ⟨entries, hlist, hmem⟩ := h.list hX (some "agent.note")
  obtain ⟨found, s', hread, hsub, hall⟩ := readNotes_run hX h fun entry he => by
    obtain ⟨o, ho, hex, -, -, rfl⟩ := (hmem entry).mp he
    obtain ⟨note, hn, rfl⟩ := List.mem_map.mp ho
    exact ⟨note, hn, rfl⟩
  have hlist' : ((listRefBackedObjects X (some "agent.note")).mapFail NoteError.git).run exec s =
      (.ok entries, s) := by
    rw [Prog.run_mapFail, hlist]
    rfl
  refine ⟨found.mergeSort noteOrder, s', ?_, fun note => ?_⟩
  · rw [listNotes, Prog.run_bind_ok exec hlist', Prog.run_bind_ok exec hread]
    rfl
  · simp only [List.mem_mergeSort]
    refine ⟨fun ⟨e, he, hnote⟩ => hnote ▸ hsub e he, fun hn => hall note hn ?_⟩
    obtain ⟨m, -, hhex⟩ := objectHex_of_valid (h.stored _ (List.mem_map_of_mem hn)).valid
    refine ⟨_, (hmem _).mpr ⟨_, List.mem_map_of_mem hn, _, hhex, ?_, rfl⟩, rfl⟩
    rintro expected ⟨⟩
    rfl

end NoteObjects

/-! ## A note that is never shown -/

/-- A note that comes after a newer one was read is not shown. -/
theorem not_delivered_of_late {X : Crates} (hX : ReadsBack X) {args : NoteInboxArgs}
    (hargs : args.IsDefault) {c : Clone} {s₁ s₂ s₁' s₂' : ObjectStore}
    {found₁ found₂ : List NoteEntry} (h₁ : (listNotes X).run exec s₁ = (.ok found₁, s₁'))
    (h₂ : (listNotes X).run exec s₂ = (.ok found₂, s₂')) {seen late : NoteEntry}
    (hseen : seen ∈ found₁) (haddressed : args.addressed seen = true) (hlate : late ∈ found₂)
    (hfor : ForAgent args.agent late) (hnew : ∀ entry ∈ found₁, entry.note ≠ late.note)
    (hle : late.note.createdAtMs ≤ seen.note.createdAtMs) :
    ¬ Delivered X args.agent
      (visits X c [.change s₁, .inbox args, .change s₂, .inbox args]) := by
  intro hdelivered
  have htimely := timely_of_delivered hX (fun v hv => by
    have hv' : v.args = args := by simpa using mem_events hv
    rw [hv']
    exact ⟨rfl, hargs⟩) hdelivered
  have hrun := inbox_run (X := X) args (s₁, c.2)
  rw [h₁] at hrun
  rw [visits_change, visits_inbox, hrun, visits_change, visits_inbox, visits] at htimely
  have hlt := htimely [_] _ [] rfl late (by simpa only [Visit.listing, h₂] using hlate) hfor
    fun u hu hlists => by
      obtain rfl := List.mem_singleton.mp hu
      obtain ⟨entry, he, -, hsame⟩ := hlists
      simp only [Visit.listing, h₁] at he
      exact hnew entry he hsame
  rw [markerAt_advanced hX, if_pos ⟨hargs.peek, rfl⟩] at hlt
  have hmarker := createdAtMs_le_newestAddressed args
    (markerAt X (s₁, c.2) (noteStatePath args.agent)) hseen haddressed
  exact UInt64.lt_irrefl _ (UInt64.lt_of_le_of_lt (UInt64.le_trans hle hmarker) hlt)

/-- A broadcast of the reader, and an older note to the reader. -/
def ownBroadcast : AgentNote := ⟨"a", "all", "done", none, none, [], 2⟩

def lateNote : AgentNote := ⟨"b", "a", "wait", none, none, [], 1⟩

/-- The reader sends its broadcast; the older note comes with a pull. -/
def lateNoteCalls : List StoreCall :=
  [.write (.cached "agent.note" ownBroadcast.toValue),
    .write (.canonical (noteObject .reference lateNote))]

/-- The reader reads after each. -/
def lateNoteRun : List NoteEvent :=
  [.change (runCalls .reference .empty (lateNoteCalls.take 1)), .inbox ⟨"a", none, false, false, false⟩,
    .change (runCalls .reference .empty lateNoteCalls), .inbox ⟨"a", none, false, false, false⟩]

/-- The store after the broadcast, and after the older note has come too. -/
theorem refsOf_lateNoteCalls :
    RefsOf .reference ([ownBroadcast].map (noteObject .reference))
        (runCalls .reference .empty (lateNoteCalls.take 1)) ∧
      RefsOf .reference ([lateNote, ownBroadcast].map (noteObject .reference))
        (runCalls .reference .empty lateNoteCalls) := by
  have hv : ∀ note, (noteObject .reference note).Valid .reference := fun note =>
    valid_cachedObject (X := .reference) "agent.note" (AgentNote.toValue note)
  obtain ⟨m, -, hhex⟩ := objectHex_of_valid (hv ownBroadcast)
  obtain ⟨m', -, hhex'⟩ := objectHex_of_valid (hv lateNote)
  have hne : hexEncode (Crates.reference.sha256 m) ≠ hexEncode (Crates.reference.sha256 m') := by
    intro he
    have hids : objectHex (noteObject .reference ownBroadcast).objectId ≠
        objectHex (noteObject .reference lateNote).objectId := by
      rw [noteObject, noteObject, objectId_cachedObject, objectId_cachedObject]
      decide +kernel
    exact hids (by rw [hhex, hhex', he])
  obtain ⟨h₁, hrefs, hcache⟩ := (refsOf_nil (s := .empty) rfl).after_write
    (w := .cached "agent.note" ownBroadcast.toValue) (hv ownBroadcast) hhex
    (by simp [ObjectStore.empty]) (by simp [ObjectStore.empty])
  have hl := (objectHex_length hhex).trans (objectHex_length hhex').symm
  have hfree := h₁.after_write (w := .canonical (noteObject .reference lateNote)) (hv lateNote) hhex'
    (by
      rw [hcache, getElem?_insert_eq,
        if_neg fun he => hne (String.toList_inj.mp (cachePathOf_inj hl he))]
      simp [ObjectStore.empty])
    (by
      rw [hrefs, getElem?_insert_eq,
        if_neg fun he => hne (String.toList_inj.mp (refNameOf_inj hl he))]
      simp [ObjectStore.empty])
  have hfirst : runCalls .reference .empty (lateNoteCalls.take 1) =
      runCalls .reference .empty [.write (.cached "agent.note" ownBroadcast.toValue)] := rfl
  have hboth : runCalls .reference .empty lateNoteCalls =
      runCalls .reference .empty [.write (.cached "agent.note" ownBroadcast.toValue),
        .write (.canonical (noteObject .reference lateNote))] := rfl
  rw [hfirst, hboth, runCalls_cons, runCalls_cons, runCalls_nil, runCalls_cons, runCalls_nil,
    List.map_cons, List.map_cons, List.map_nil]
  exact ⟨h₁, hfree.1⟩

/-- The broadcast moves the marker past the older note, so no read shows it. -/
theorem lateNote_not_delivered :
    ¬ Delivered .reference "a" (visits .reference (.empty, ∅) lateNoteRun) := by
  obtain ⟨h₁, h₂⟩ := refsOf_lateNoteCalls
  obtain ⟨found₁, s₁, hlist₁, hnotes₁⟩ := listNotes_run readsBack_reference h₁
  obtain ⟨found₂, s₂, hlist₂, hnotes₂⟩ := listNotes_run readsBack_reference h₂
  obtain ⟨seen, hseen, hbroadcast⟩ := (hnotes₁ ownBroadcast).mpr (by simp)
  obtain ⟨late, hlate, hnote⟩ := (hnotes₂ lateNote).mpr (by simp)
  refine not_delivered_of_late readsBack_reference ⟨rfl, rfl, rfl⟩ hlist₁ hlist₂ hseen ?_ hlate
    ⟨.inl (by rw [hnote]; rfl), by rw [hnote]; decide⟩ (fun entry he hsame => ?_) ?_
  · rw [NoteInboxArgs.addressed, hbroadcast]
    decide
  · have hmem := (hnotes₁ lateNote).mp ⟨entry, he, hsame.trans hnote⟩
    exact absurd hmem (by decide)
  · rw [hnote, hbroadcast]
    decide

end RickydataGit.Cli
