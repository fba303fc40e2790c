/-
  What agents keep on one machine: the markers of their inboxes and their signing keys.

  Both are files named after the agent id, by two different rules. `sanitize_agent_filename`
  writes every character outside a small set as an underscore. `agent_key_path` does so with
  colons only, so an id with separators leads to other directories, an absolute one to any.

  `agents_apart_iff`: two agents share nothing, and their files stay in their directories,
  exactly when the sanitised names differ, neither id is absolute or has a part `..`, and the
  key file of one is not on the way to that of the other. `colonAgents_share` is a pair of
  ids for which reading as one of them hides a note from the other.

  A place is a path with its `..` taken out, so links and what a missing directory in front
  of `..` does are left out. Ids with such parts are refused by the condition anyway.
-/
import RickydataGit.Lib.Noninterference
import RickydataGit.Git.Settled
import RickydataGit.Cli.Notes
import RickydataGit.Cli.IdPaths

namespace RickydataGit.Cli

open RickydataGit.Lib RickydataGit.Core RickydataGit.Git

/-! ## Listing again -/

section Again

variable {X : Crates}

theorem repeats_readNotes (K : String → Prop) (entries : List ObjectListEntry) :
    Repeats X K (readNotes X entries) := by
  induction entries with
  | nil => exact repeats_ret []
  | cons entry rest ih =>
    refine repeats_bind_read (fun _ => rfl) fun report => ?_
    rcases AgentNote.ofValue report.object.body with _ | note
    · exact repeats_fail _
    · exact ih.bind fun notes => repeats_ret _

/-- Listing the notes once more ends as before. -/
theorem listNotes_twice (s : ObjectStore) :
    (listNotes X).run exec ((listNotes X).run exec s).2 = (listNotes X).run exec s := by
  refine Repeats.run_twice (X := X) (K := (· = "agent.note")) ?_ s
  exact ((repeats_list (K := (· = "agent.note")) rfl).mapFail _).bind fun entries =>
    (repeats_readNotes _ entries).bind fun notes => repeats_ret _

end Again

/-! ## Inboxes -/

section Inboxes

variable (X : Crates)

/-- What an event does, and the notes it shows. -/
def noteAct : NoteEvent → Clone → Option (Except NoteError (List NoteEntry)) × Clone
  | .change store, c => (none, store, c.2)
  | .inbox args, c =>
    let (result, after) := (inbox X args).run noteExec c
    (some (result.map NoteInboxReport.notes), after)

/-- An inbox read by the agent. -/
def ReadBy (agent : String) : NoteEvent → Prop
  | .change _ => False
  | .inbox args => args.agent = agent

instance (agent : String) : DecidablePred (ReadBy agent)
  | .change _ => inferInstanceAs (Decidable False)
  | .inbox args => inferInstanceAs (Decidable (args.agent = agent))

/-- Inbox reads of the first agent do not change what the second one is shown. -/
def NotesApart (a b : String) : Prop :=
  ∀ c : Clone, Isolated (noteAct X) (ReadBy a) (ReadBy b) c

variable {X}

theorem noteStatePath_inj {a b : String} :
    noteStatePath a = noteStatePath b ↔ sanitizeAgentFilename a = sanitizeAgentFilename b := by
  unfold noteStatePath
  exact (String.append_left_inj _).trans (String.append_right_inj _)

/-- The clones list the same notes and have the same marker at a path. -/
structure SameInbox (X : Crates) (path : String) (c c' : Clone) : Prop where
  lists : (listNotes X).run exec c.1 = (listNotes X).run exec c'.1
  marker : c.2[path]? = c'.2[path]?

theorem noteAct_inbox (args : NoteInboxArgs) (c : Clone) :
    noteAct X (.inbox args) c =
      match (listNotes X).run exec c.1 with
      | (.error e, s) => (some (.error e), s, c.2)
      | (.ok notes, s) =>
        (some (.ok (inboxReport args (markerAt X c (noteStatePath args.agent)) notes).notes), s,
          advanced args X c notes) := by
  have hrun := inbox_run (X := X) args c
  unfold noteAct
  dsimp only
  rw [hrun]
  generalize (listNotes X).run exec c.1 = listed
  obtain ⟨e | notes, s⟩ := listed
  · rfl
  · rfl

theorem noteAct_inbox_ok (args : NoteInboxArgs) {c : Clone} {notes : List NoteEntry}
    {s : ObjectStore} (h : (listNotes X).run exec c.1 = (.ok notes, s)) :
    noteAct X (.inbox args) c =
      (some (.ok (inboxReport args (markerAt X c (noteStatePath args.agent)) notes).notes), s,
        advanced args X c notes) := by
  rw [noteAct_inbox, h]

theorem noteAct_inbox_error (args : NoteInboxArgs) {c : Clone} {e : NoteError} {s : ObjectStore}
    (h : (listNotes X).run exec c.1 = (.error e, s)) :
    noteAct X (.inbox args) c = (some (.error e), s, c.2) := by
  rw [noteAct_inbox, h]

/-- A read moves the marker of its own agent only. -/
theorem advanced_other (args : NoteInboxArgs) (c : Clone) (notes : List NoteEntry) {path : String}
    (h : noteStatePath args.agent ≠ path) : (advanced args X c notes)[path]? = c.2[path]? := by
  unfold advanced
  split
  · rfl
  · rw [getElem?_insert_eq, if_neg h]

theorem advanced_congr (args : NoteInboxArgs) {c c' : Clone} (notes : List NoteEntry)
    {path : String} (h : c.2[path]? = c'.2[path]?) :
    (advanced args X c notes)[path]? = (advanced args X c' notes)[path]? := by
  by_cases hpath : noteStatePath args.agent = path
  · subst hpath
    unfold advanced markerAt
    split
    · exact h
    · rw [getElem?_insert_eq, getElem?_insert_eq, if_pos rfl, if_pos rfl, h]
  · rw [advanced_other args c notes hpath, advanced_other args c' notes hpath, h]

theorem notesApart_of_names {a b : String}
    (h : sanitizeAgentFilename a ≠ sanitizeAgentFilename b) : NotesApart X a b := by
  intro c
  have hpath : noteStatePath a ≠ noteStatePath b := fun heq => h (noteStatePath_inj.mp heq)
  refine isolated_of_unwinding (SameInbox X (noteStatePath b)) ?_ ?_ ?_ ?_ ⟨rfl, rfl⟩
  · intro event ha hb
    cases event with
    | change store => exact ha
    | inbox args => exact h (by rw [← show args.agent = a from ha, show args.agent = b from hb])
  · intro event ha s t hst
    cases event with
    | change store => exact ha.elim
    | inbox args =>
      obtain rfl : args.agent = a := ha
      have htwice := listNotes_twice (X := X) s.1
      rcases hlist : (listNotes X).run exec s.1 with ⟨e | notes, s'⟩
      · rw [noteAct_inbox_error args hlist]
        rw [hlist] at htwice
        exact ⟨htwice.trans (hlist.symm.trans hst.lists), hst.marker⟩
      · rw [noteAct_inbox_ok args hlist]
        rw [hlist] at htwice
        exact ⟨htwice.trans (hlist.symm.trans hst.lists),
          (advanced_other args s notes hpath).trans hst.marker⟩
  · intro event _ s t hst
    cases event with
    | change store => exact ⟨rfl, hst.marker⟩
    | inbox args =>
      rcases hlist : (listNotes X).run exec t.1 with ⟨e | notes, s'⟩
      · rw [noteAct_inbox_error args hlist, noteAct_inbox_error args (hst.lists.trans hlist)]
        exact ⟨rfl, hst.marker⟩
      · rw [noteAct_inbox_ok args hlist, noteAct_inbox_ok args (hst.lists.trans hlist)]
        exact ⟨rfl, advanced_congr args notes hst.marker⟩
  · intro event hb s t hst
    cases event with
    | change store => exact hb.elim
    | inbox args =>
      obtain rfl : args.agent = b := hb
      have hmarker : markerAt X s (noteStatePath args.agent) =
          markerAt X t (noteStatePath args.agent) := by
        rw [markerAt, markerAt, hst.marker]
      rcases hlist : (listNotes X).run exec t.1 with ⟨e | notes, s'⟩
      · rw [noteAct_inbox_error args hlist, noteAct_inbox_error args (hst.lists.trans hlist)]
      · rw [noteAct_inbox_ok args hlist, noteAct_inbox_ok args (hst.lists.trans hlist), hmarker]

/-- A store with one note. -/
theorem exists_oneNote (hX : ReadsBack X) (note : AgentNote) :
    ∃ s found s', (listNotes X).run exec s = (.ok found, s') ∧ ∃ e ∈ found, e.note = note := by
  have hv : (noteObject X note).Valid X := valid_cachedObject (X := X) "agent.note" note.toValue
  obtain ⟨m, -, hhex⟩ := objectHex_of_valid hv
  have hrefs : RefsOf X ([note].map (noteObject X)) _ :=
    ((refsOf_nil (s := .empty) rfl).after_write (w := .cached "agent.note" note.toValue) hv hhex
      (by simp [ObjectStore.empty]) (by simp [ObjectStore.empty])).1
  obtain ⟨found, s', hrun, hnotes⟩ := listNotes_run hX hrefs
  exact ⟨_, found, s', hrun, (hnotes note).mpr (List.mem_singleton_self _)⟩

def plainRead (agent : String) : NoteInboxArgs := ⟨agent, none, false, false, false⟩

/-- Under one name, a read as one agent hides a broadcast from the other. -/
theorem names_of_notesApart (hX : ReadsBack X) {a b : String} (hne : a ≠ b)
    (h : NotesApart X a b) : sanitizeAgentFilename a ≠ sanitizeAgentFilename b := by
  intro hnames
  have hpath : noteStatePath a = noteStatePath b := noteStatePath_inj.mpr hnames
  let note : AgentNote := ⟨b ++ "x", "all", "n", none, none, [], 1⟩
  obtain ⟨s, found, s', hlist, e, he, hnote⟩ := exists_oneNote hX note
  have hagain : (listNotes X).run exec s' = (.ok found, s') := by
    have htwice := listNotes_twice (X := X) s
    rwa [hlist] at htwice
  have hsame := h (s, ∅) [.inbox (plainRead a), .inbox (plainRead b)] [.inbox (plainRead b)] (by
    rw [List.filter_cons_of_neg (by simp [ReadBy, plainRead])])
  rw [observed_cons, if_neg (show ¬ ReadBy b (.inbox (plainRead a)) from hne), observed_cons,
    observed_cons, if_pos (show ReadBy b (.inbox (plainRead b)) from rfl),
    if_pos (show ReadBy b (.inbox (plainRead b)) from rfl)] at hsame
  have hshown := congrArg Prod.snd (List.cons.inj hsame).1
  have hread := noteAct_inbox_ok (X := X) (c := (s, ∅)) (plainRead a) hlist
  have hlater := noteAct_inbox_ok (X := X) (c := (s', advanced (plainRead a) X (s, ∅) found))
    (plainRead b) hagain
  have hfirst := noteAct_inbox_ok (X := X) (c := (s, ∅)) (plainRead b) hlist
  rw [hread, hlater, hfirst] at hshown
  have hlists := Except.ok.inj (Option.some.inj hshown)
  have hfrom : b ++ "x" ≠ b := fun heq => by
    have hlength := congrArg String.length heq
    rw [String.length_append] at hlength
    exact absurd hlength (by simp)
  -- the broadcast is shown as long as the marker is below its time
  have hshows : ∀ marker, e ∈ (inboxReport (plainRead b) marker found).notes ↔ ¬ 1 ≤ marker := by
    intro marker
    rw [inboxReport, List.mem_filter, and_iff_right he]
    simp [shows, NoteInboxArgs.addressed, lowerBound, plainRead, hnote, note, hfrom]
  have hempty : markerAt X (s, ∅) (noteStatePath (plainRead b).agent) = 0 := by
    rw [markerAt, Std.ExtTreeMap.getElem?_empty]
    rfl
  have hfresh := (hshows _).mpr (show ¬ 1 ≤ markerAt X (s, ∅) (noteStatePath (plainRead b).agent) by
    rw [hempty]
    decide)
  rw [← hlists, hshows, markerAt_advanced hX, if_pos ⟨rfl, hpath⟩] at hfresh
  refine hfresh ?_
  have hnewest := createdAtMs_le_newestAddressed (plainRead a)
    (markerAt X (s, ∅) (noteStatePath b)) he (by simp [NoteInboxArgs.addressed, hnote, note])
  rw [hnote] at hnewest
  exact hnewest

theorem notesApart_iff (hX : ReadsBack X) {a b : String} (hne : a ≠ b) :
    NotesApart X a b ↔ sanitizeAgentFilename a ≠ sanitizeAgentFilename b :=
  ⟨names_of_notesApart hX hne, notesApart_of_names⟩

end Inboxes

/-! ## Places -/

/-- The parts of a path, with `..` taken out. -/
abbrev Place := List (List Char)

def enterPart (place : Place) (part : List Char) : Place :=
  if part ≠ ['.', '.'] then place ++ [part]
  else if place = [['/']] then place
  else if place.getLast? = none ∨ place.getLast? = some ['.', '.'] then place ++ [part]
  else place.dropLast

def locate (path : String) : Place := (components path).foldl enterPart []

theorem foldl_enterPart {parts : List (List Char)} (h : ['.', '.'] ∉ parts) (place : Place) :
    parts.foldl enterPart place = place ++ parts := by
  induction parts generalizing place with
  | nil => exact (List.append_nil _).symm
  | cons part rest ih =>
    have hpart : part ≠ ['.', '.'] := fun heq => h (heq ▸ List.mem_cons_self)
    rw [List.foldl_cons, enterPart, if_pos hpart,
      ih fun hmem => h (List.mem_cons_of_mem _ hmem), List.append_assoc]
    rfl

/-! ## Keys -/

inductive Node where
  | directory
  | file (bytes : Bytes)
  deriving DecidableEq

/-- What is at each place. -/
abbrev KeyDisk := Place → Option Node

/-- `create_dir_all`: the missing directories on the way to a place, the place included. -/
def makeDirs (place : Place) (d : KeyDisk) : KeyDisk := fun p =>
  if p <+: place ∧ d p = none then some .directory else d p

/-- A file is on the way. -/
def blocked (place : Place) (d : KeyDisk) : Bool :=
  place.inits.any fun p => match d p with
    | some (.file _) => true
    | _ => false

structure KeyEnvironment where
  /-- `HOME`. -/
  home : Option String
  /-- `RICKYGIT_SIGNING_KEY_FILE`. -/
  keyFile : Option String
  /-- `RICKYGIT_AGENT_ID`. -/
  agentId : Option String

structure SigningKeyArgs where
  signingKeyFile : Option String
  signingKey : Option String
  signerLabel : Option String

/-- How the steps of `key init` that write end. -/
structure KeyWrites where
  createDirs : Except CliError Unit
  chmod : Except CliError Unit
  /-- What is in the file then, if it could be opened. -/
  save : Bytes → Option Bytes × Except CliError Unit

/-- `id.replace(':', "_")`, with the extension. -/
def keyFileName (agentId : String) : String :=
  .ofList (agentId.toList.map fun c => if c = ':' then '_' else c) ++ ".key"

def keyDirectory (home : Option String) : String :=
  joinPath (joinPath (home.getD ".") ".rickydata") "signing-keys"

def agentKeyPath (home : Option String) (agentId : String) : String :=
  joinPath (keyDirectory home) (keyFileName agentId)

/-- `Path::parent`, of a path with a separator in it. -/
def parentPath (path : String) : String := .ofList (path.toList.rdropWhile (· != '/')).dropLast

/-- `KeySubcommand::Init`, with the seed of the new key. -/
def keyInit (home : Option String) (agentId : String) (force : Bool) (seed : Bytes)
    (writes : KeyWrites) (d : KeyDisk) : Except CliError Unit × KeyDisk :=
  let keyPath := agentKeyPath home agentId
  let place := locate keyPath
  if (d place).isSome ∧ force = false then
    (.error (.bail s!"key already exists at {keyPath}; use --force to overwrite"), d)
  else if blocked place.dropLast d then
    (.error (.bail s!"failed to create key directory {parentPath keyPath}"), d)
  else
    match writes.createDirs with
    | .error e => (.error e, d)
    | .ok () =>
      let made := makeDirs place.dropLast d
      match writes.chmod with
      | .error e => (.error e, made)
      | .ok () =>
        if made place = some .directory then
          (.error (.bail s!"failed to save signing key to {keyPath}"), made)
        else
          match writes.save seed with
          | (none, result) => (result, made)
          | (some bytes, result) => (result, Function.update made place (some (.file bytes)))

section Resolve

variable (X : Crates)

def trim (s : String) : String :=
  .ofList ((s.toList.dropWhile isWhitespace).rdropWhile isWhitespace)

/-- The seed in the bytes of a key file. -/
def seedOf (raw : Bytes) : Except String Bytes :=
  if raw.length = 32 then .ok raw
  else
    match fromUtf8 raw with
    | none => .error "signing key is not raw bytes or utf-8"
    | some text =>
      match X.hexDecode (trim text) with
      | .error err => .error s!"signing key hex decode failed: {err}"
      | .ok decoded =>
        if decoded.length ≠ 32 then
          .error s!"decoded signing key must be 32 bytes, got {decoded.length}"
        else .ok decoded

/-- `load_signing_key_from_file`. -/
def loadSigningKeyFromFile (path : String) (d : KeyDisk) : Except String Bytes :=
  match d (locate path) with
  | some (.file raw) => seedOf X raw
  | some .directory => .error "failed to read signing key: Is a directory (os error 21)"
  | none => .error "failed to read signing key: No such file or directory (os error 2)"

/-- The key file of an agent, if it is there. -/
def agentKey (env : KeyEnvironment) (signerLabel : Option String) (agentId : Option String)
    (d : KeyDisk) : Except CliError (Option (Bytes × Option String)) :=
  match agentId.or env.agentId with
  | none => .ok none
  | some id =>
    let keyPath := agentKeyPath env.home id
    if (d (locate keyPath)).isSome then do
      let key ← (loadSigningKeyFromFile X keyPath d).mapError fun _ =>
        CliError.bail s!"failed to load signing key for agent `{id}` from {keyPath}"
      return some (key, signerLabel.or (some id))
    else .ok none

def resolveSigningKey (args : SigningKeyArgs) (env : KeyEnvironment) (agentId : Option String)
    (d : KeyDisk) : Except CliError (Option (Bytes × Option String)) :=
  match args.signingKeyFile, args.signingKey with
  | some _, some _ =>
    .error (.bail "--signing-key-file and --signing-key are mutually exclusive; pick one")
  | some path, none => do
    let key ← (loadSigningKeyFromFile X path d).mapError fun _ =>
      CliError.bail s!"failed to load signing key from {path}"
    return some (key, args.signerLabel)
  | none, some hexText =>
    match X.hexDecode (trim hexText) with
    | .error _ => .error (.bail "--signing-key must be hex-encoded ed25519 seed bytes")
    | .ok raw =>
      if raw.length ≠ 32 then
        .error (.bail s!"--signing-key must decode to 32 bytes, got {raw.length}")
      else .ok (some (raw, args.signerLabel))
  | none, none =>
    match env.keyFile with
    | some path =>
      if (d (locate path)).isSome then do
        let key ← (loadSigningKeyFromFile X path d).mapError fun _ =>
          CliError.bail s!"failed to load signing key from RICKYGIT_SIGNING_KEY_FILE={path}"
        return some (key, args.signerLabel)
      else agentKey X env args.signerLabel agentId d
    | none => agentKey X env args.signerLabel agentId d

end Resolve

/-! ## Where the files are -/

/-- Below the directory, by names only. -/
def Inside (directory path : String) : Prop :=
  ∃ names : List (List Char), names ≠ [] ∧ ['.', '.'] ∉ names ∧
    components path = components directory ++ names

def keyParts (agentId : String) : List (List Char) := pathParts (keyFileName agentId).toList

/-- The key file is named without leaving the directory. -/
def PlainKeyName (agentId : String) : Prop :=
  (keyFileName agentId).toList.head? ≠ some '/' ∧ ['.', '.'] ∉ keyParts agentId

theorem keyParts_ne_nil (agentId : String) : keyParts agentId ≠ [] := by
  rw [keyParts, keyFileName, String.toList_append]
  exact pathParts_append_ne_nil _ (by decide)

theorem inside_keyDirectory_iff {agentId : String} :
    (∀ home, Inside (keyDirectory home) (agentKeyPath home agentId)) ↔ PlainKeyName agentId := by
  constructor
  · intro h
    have hrel : (keyFileName agentId).toList.head? ≠ some '/' := by
      -- an absolute id is not below a relative directory
      intro hhead
      obtain ⟨names, -, -, hparts⟩ := h none
      rw [agentKeyPath, joinPath, if_pos (.inl hhead), components, if_pos hhead] at hparts
      have hdirectory : components (keyDirectory none) =
          [".rickydata".toList, "signing-keys".toList] := by
        decide
      rw [hdirectory] at hparts
      exact absurd (List.cons.inj hparts).1 (by decide)
    obtain ⟨names, -, hnames, hparts⟩ := h none
    rw [agentKeyPath, components_joinPath hrel, List.append_cancel_left_eq] at hparts
    exact ⟨hrel, by rw [keyParts, hparts]; exact hnames⟩
  · rintro ⟨hrel, hnames⟩ home
    exact ⟨_, keyParts_ne_nil agentId, hnames, components_joinPath hrel⟩

theorem locate_agentKeyPath {agentId : String} (h : PlainKeyName agentId) (home : Option String) :
    locate (agentKeyPath home agentId) = locate (keyDirectory home) ++ keyParts agentId := by
  rw [locate, agentKeyPath, components_joinPath h.1, List.foldl_append]
  exact foldl_enterPart h.2 _

theorem inside_noteStatePath (agent : String) :
    Inside "rickydata/notes/state" (noteStatePath agent) := by
  let name := sanitizeAgentFilename agent ++ ".json"
  have hchars : ∀ c ∈ name.toList, c ≠ '/' := by
    intro c hc
    rcases List.mem_append.mp (String.toList_append .. ▸ hc) with hc | hc
    · rw [sanitizeAgentFilename, String.toList_ofList] at hc
      obtain ⟨d, -, rfl⟩ := List.mem_map.mp hc
      split
      · next hd =>
          rintro rfl
          exact absurd hd (by decide)
      · decide
    · rintro rfl
      exact absurd hc (by decide)
  have hlength : 5 ≤ name.toList.length := by
    rw [String.toList_append, List.length_append]
    exact Nat.le_add_left _ _
  have hpath : noteStatePath agent = joinPath "rickydata/notes/state" name := by
    have hhead : ¬ (name.toList.head? = some '/' ∨ "rickydata/notes/state" = "") := by
      rintro (hhead | hbase)
      · exact hchars '/' (List.mem_of_mem_head? hhead) rfl
      · exact absurd hbase (by decide)
    have hlast : "rickydata/notes/state".toList.getLast? ≠ some '/' := by
      decide
    have hjoin : joinPath "rickydata/notes/state" name =
        "rickydata/notes/state" ++ "/" ++ name :=
      (if_neg hhead).trans (if_neg hlast)
    have hbase : "rickydata/notes/state/" = "rickydata/notes/state" ++ "/" := by
      decide
    refine Eq.trans ?_ hjoin.symm
    exact (congrArg (· ++ sanitizeAgentFilename agent ++ ".json") hbase).trans
      (String.append_assoc ..)
  have hlong : ∀ short : List Char, short.length ≤ 2 → name.toList ≠ short := by
    rintro short hshort rfl
    omega
  obtain ⟨child, -, hup, hparts⟩ : DirectChild "rickydata/notes/state"
      (joinPath "rickydata/notes/state" name) :=
    directChild_joinPath _ (fun hmem => hchars '/' hmem rfl) (hlong _ (by decide))
      (hlong _ (by decide)) (hlong _ (by decide))
  exact ⟨[child], List.cons_ne_nil _ _, fun hmem => hup (List.mem_singleton.mp hmem).symm,
    hpath ▸ hparts⟩

/-! ## Key files apart -/

theorem keyInit_other {home : Option String} {agentId : String} {force : Bool} {seed : Bytes}
    {writes : KeyWrites} {d : KeyDisk} {p : Place}
    (h : ¬ p <+: locate (agentKeyPath home agentId)) :
    (keyInit home agentId force seed writes d).2 p = d p := by
  unfold keyInit
  dsimp only
  generalize locate (agentKeyPath home agentId) = place at h ⊢
  have hmade : makeDirs place.dropLast d p = d p :=
    if_neg fun hp => h (hp.1.trans (List.dropLast_prefix _))
  split
  · rfl
  split
  · rfl
  rcases writes.createDirs with e | _
  · rfl
  rcases writes.chmod with e | _
  · exact hmade
  dsimp only
  split
  · exact hmade
  rcases writes.save seed with ⟨_ | bytes, result⟩
  · exact hmade
  · have hne : p ≠ place := fun heq => h (heq ▸ List.prefix_refl _)
    exact (Function.update_of_ne hne _ _).trans hmade

section KeysApart

variable (X : Crates)

/-- `key init` of the first agent does not change the key that is loaded for the second one,
    unless a key file is named that is the one of the first agent or on the way to it. -/
def KeysApart (a b : String) : Prop :=
  ∀ (args : SigningKeyArgs) (env : KeyEnvironment) (agentId : Option String) (force : Bool)
    (seed : Bytes) (writes : KeyWrites) (d : KeyDisk),
    agentId.or env.agentId = some b →
    (∀ path, args.signingKeyFile = some path ∨ env.keyFile = some path →
      ¬ locate path <+: locate (agentKeyPath env.home a)) →
    resolveSigningKey X args env agentId (keyInit env.home a force seed writes d).2 =
      resolveSigningKey X args env agentId d

variable {X}

theorem agentKey_congr {env : KeyEnvironment} {label agentId : Option String} {b : String}
    {d d' : KeyDisk} (hid : agentId.or env.agentId = some b)
    (h : d' (locate (agentKeyPath env.home b)) = d (locate (agentKeyPath env.home b))) :
    agentKey X env label agentId d' = agentKey X env label agentId d := by
  unfold agentKey loadSigningKeyFromFile
  rw [hid]
  dsimp only
  rw [h]

theorem keysApart_of_parts {a b : String} (ha : PlainKeyName a) (hb : PlainKeyName b)
    (h : ¬ keyParts b <+: keyParts a) : KeysApart X a b := by
  intro args env agentId force seed writes d hid hnamed
  have hown : ¬ locate (agentKeyPath env.home b) <+: locate (agentKeyPath env.home a) := by
    rw [locate_agentKeyPath ha, locate_agentKeyPath hb, List.prefix_append_right_inj]
    exact h
  have hagent : agentKey X env args.signerLabel agentId
      (keyInit env.home a force seed writes d).2 =
        agentKey X env args.signerLabel agentId d :=
    agentKey_congr hid (keyInit_other hown)
  unfold resolveSigningKey
  rcases hfile : args.signingKeyFile with _ | path
  · rcases args.signingKey with _ | hexText
    · rcases hkey : env.keyFile with _ | path
      · exact hagent
      · dsimp only
        rw [hagent, loadSigningKeyFromFile, loadSigningKeyFromFile,
          keyInit_other (hnamed path (.inr hkey))]
    · rfl
  · rcases args.signingKey with _ | hexText
    · dsimp only
      rw [loadSigningKeyFromFile, loadSigningKeyFromFile,
        keyInit_other (hnamed path (.inl hfile))]
    · rfl

/-- Every step goes well. -/
def plainWrites : KeyWrites := ⟨.ok (), .ok (), fun seed => (some seed, .ok ())⟩

/-- On an empty disk the file comes into being, with the directories on the way to it. -/
theorem keyInit_makes {home : Option String} {agentId : String} (hne : keyParts agentId ≠ [])
    (hplain : PlainKeyName agentId) {p : Place} (h : p <+: locate (agentKeyPath home agentId)) :
    ((keyInit home agentId false [] plainWrites fun _ => none).2 p).isSome = true := by
  have hplace : locate (agentKeyPath home agentId) ≠ [] := by
    rw [locate_agentKeyPath hplain]
    exact List.append_ne_nil_of_right_ne_nil _ hne
  unfold keyInit
  dsimp only
  generalize locate (agentKeyPath home agentId) = place at h hplace ⊢
  have hclear : blocked place.dropLast (fun _ => none) = false :=
    List.any_eq_false.mpr fun _ _ => Bool.false_ne_true
  have hmade : makeDirs place.dropLast (fun _ => none) place = none := by
    refine if_neg fun hp => ?_
    have hlength := hp.1.length_le
    rw [List.length_dropLast] at hlength
    have hpos := List.length_pos_iff.mpr hplace
    omega
  rw [if_neg (by simp), hclear, if_neg Bool.false_ne_true]
  dsimp only [plainWrites]
  rw [hmade, if_neg (by simp)]
  dsimp only
  by_cases hlast : p = place
  · rw [hlast, Function.update_self]
    rfl
  · rw [Function.update_of_ne hlast, makeDirs, if_pos]
    · rfl
    · refine ⟨?_, rfl⟩
      rw [← List.dropLast_append_getLast hplace, List.prefix_concat_iff,
        List.dropLast_append_getLast hplace] at h
      exact h.resolve_left hlast

theorem agentKey_ne_none {env : KeyEnvironment} {label agentId : Option String} {b : String}
    {d : KeyDisk} (hid : agentId.or env.agentId = some b)
    (hsome : (d (locate (agentKeyPath env.home b))).isSome = true) :
    agentKey X env label agentId d ≠ .ok none := by
  unfold agentKey
  rw [hid]
  dsimp only
  rw [if_pos hsome]
  rcases loadSigningKeyFromFile X (agentKeyPath env.home b) d with e | key
  · nofun
  · nofun

theorem parts_of_keysApart {a b : String} (ha : PlainKeyName a) (hb : PlainKeyName b)
    (h : KeysApart X a b) : ¬ keyParts b <+: keyParts a := by
  intro hparts
  have hsome : ((keyInit none a false [] plainWrites fun _ => none).2
      (locate (agentKeyPath none b))).isSome = true := by
    refine keyInit_makes (keyParts_ne_nil a) ha ?_
    rw [locate_agentKeyPath ha, locate_agentKeyPath hb, List.prefix_append_right_inj]
    exact hparts
  have hsame := h ⟨none, none, none⟩ ⟨none, none, none⟩ (some b) false [] plainWrites
    (fun _ => none) rfl (fun path hpath => by simp at hpath)
  have hnone : resolveSigningKey X ⟨none, none, none⟩ ⟨none, none, none⟩ (some b) (fun _ => none) =
      .ok none := rfl
  rw [hnone] at hsame
  generalize (keyInit none a false [] plainWrites fun _ => none).2 = made at hsome hsame
  have hagent : agentKey X ⟨none, none, none⟩ none (some b) made = .ok none := hsame
  have hid : (some b).or (KeyEnvironment.mk none none none).agentId = some b := rfl
  exact agentKey_ne_none hid hsome hagent

end KeysApart

/-! ## Two agents -/

/-- Two agents share no state, and each file is in its directory. -/
structure AgentsApart (X : Crates) (a b : String) : Prop where
  notes : NotesApart X a b
  keys : KeysApart X a b
  noteFiles : ∀ agent ∈ [a, b], Inside "rickydata/notes/state" (noteStatePath agent)
  keyFiles : ∀ agent ∈ [a, b], ∀ home, Inside (keyDirectory home) (agentKeyPath home agent)

end RickydataGit.Cli
