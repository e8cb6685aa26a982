import Mathlib.Logic.Equiv.List
import HsUploader.Core.Types
import HsUploader.Transports.WsprdaemonFields

/-!
# The tar that is kept for a retry

A tar that could not be sent is not kept: `serialize_for_retry` builds it again from the same batch.
What a build reads besides the batch is gathered in `Surroundings`: the clock, once for each member
that is made in memory, the files of the spool, the public key of the station and whether zstd is
installed.  The second tar is the first one exactly when all of this is the same (`Unchanged`).

## What is here

* `Transport`, `Config` and `Channel` — the two transports as one: what they share, and by which
  channel a tar goes; the fallback of the one over `sftp` is a channel of its own.
* `tarOf` and `buildTar` — the tar of a batch: the members that are made in memory, each at its
  moment, and the files that are added.
* `compressTarBytes_eq` and `stamped_eq_iff` — what is packed tells what it was made of, by which
  compressor, and when.
* `rebuilt_iff` — two builds give one tar exactly when they read the same.

A batch without anything to ship has no tar at all.  A name that ends in a NUL would be cut in the
tar's header, and no member has such a name (`not_endsInNul_entries`), which is needed to read the
members off the bytes again.
-/

set_option autoImplicit false

namespace HsUploader.Wsprdaemon

/-! ## Transports -/

/-- How a tar is sent. -/
inductive Channel where
  | sftp
  | ftp
  deriving DecidableEq

/-- What both transports are configured with. -/
structure Config where
  spoolRoot : Option FilePath := none
  receiver : PyText := []
  version : PyText := .ofString "4.0"
  compression : String := "bz2"
  compressionLevel : ℤ := 9
  tarRoot : PyText := .ofString "wspr"
  forwardToWsprnet : Option Bool := none
  wsprnetReporter : Option (String × String) := none
  pskReporter : Option (String × String) := none

/-- `WsprdaemonTarSftp`, maybe with a fallback, or `WsprdaemonTarFtp`. -/
inductive Transport where
  | sftp (cfg : Config) (fallback : Option Config)
  | ftp (cfg : Config)

/-- The channel of the transport. -/
def Transport.channel : Transport → Channel
  | .sftp .. => .sftp
  | .ftp _ => .ftp

/-- The configuration of the transport. -/
def Transport.config : Transport → Config
  | .sftp cfg _ => cfg
  | .ftp cfg => cfg

/-- `StationIdentity`, what a tar is told by. -/
structure Station where
  call : PyText
  grid : PyText

/-- What a build reads besides the batch. -/
structure Surroundings (arch : Archiver) where
  /-- `int(time.time())`, where the n-th member is made. -/
  clock : ℕ → ℤ
  /-- `import zstandard` succeeds. -/
  zstdInstalled : Bool
  /-- `identity.public_key()`, once there is a key. -/
  publicKey : Except Exn PyText
  /-- The file that is added to the tar, `none` where that raises `OSError`. -/
  disk : FilePath → Option (arch.Stat × Bytes)

/-! ## A build -/

/-- What there is to ship: files of the spool or rows. -/
inductive Work (F : Type) where
  | files (root : FilePath) (paths : List FilePath)
  | rows (records : List (Rec F))

section

variable (py : Interpreter) (arch : Archiver)

/-- The settings of a tar. -/
def Config.settings (cfg : Config) (clientInfo : Option (PyText × PyText)) : Settings where
  version := cfg.version
  clientInfo := clientInfo
  tarRoot := cfg.tarRoot
  forwardToWsprnet := cfg.forwardToWsprnet
  wsprnetReporter := cfg.wsprnetReporter
  pskReporter := cfg.pskReporter

/-- The user that the gateway makes for a station. -/
def reporterId (station : Station) : PyText :=
  if station.call ≠ [] then replace "/" "_" station.call else .ofString "wsprdaemon"

/-- The client info, which only the FTP path has. -/
def clientInfoOf (channel : Channel) (env : Surroundings arch) (station : Station) :
    Except Exn (Option (PyText × PyText)) :=
  match channel with
  | .sftp => pure none
  | .ftp => do
    let key ← env.publicKey
    pure (some (reporterId station, key))

/-- What there is to ship of a batch, `none` for nothing. -/
def workOf (cfg : Config) (batch : List (Rec py.Finite)) : Except Exn (Option (Work py.Finite)) :=
  let paths := batch.filterMap Rec.payloadPath
  let records := batch.filter fun r ↦ !r.columns.isEmpty && r.payloadPath.isNone
  match (if paths = [] then none else cfg.spoolRoot) with
  | some root => pure (some (.files root paths))
  | none =>
    if records.isEmpty then pure none
    else if cfg.receiver = [] then
      throw (.valueError "SqliteSource records require `receiver=` to be set")
    else pure (some (.rows records))

/-- The members that are made in memory. -/
def entriesOf (cfg : Config) (clientInfo : Option (PyText × PyText)) (station : Station) :
    Work py.Finite → Except Exn (List Entry)
  | .files _ _ => metadata (cfg.settings clientInfo)
  | .rows records => buildEntries py
    { rxCall := station.call, rxGrid := station.grid, receiver := cfg.receiver,
      rxSite := buildRxSite station.call station.grid } (cfg.settings clientInfo) records

/-- The files that are added; one that cannot be read is left out. -/
def filesOf (cfg : Config) (env : Surroundings arch) (station : Station) :
    Work py.Finite → List (Member arch.Stat)
  | .files root paths => paths.filterMap fun path ↦ (env.disk path).map fun file ↦
    ⟨addedName (arcnameFor py path root (buildRxSite station.call station.grid) cfg.tarRoot),
      file.1, file.2⟩
  | .rows _ => []

/-- The tar of a batch's work. -/
def tarOf (cfg : Config) (clientInfo : Option (PyText × PyText)) (env : Surroundings arch)
    (station : Station) (work : Work py.Finite) : Except Exn Bytes := do
  let entries ← entriesOf py cfg clientInfo station work
  let raw ← arch.write (stamped arch env.clock entries ++ filesOf py arch cfg env station work)
  compressTarBytes arch env.zstdInstalled cfg.compression cfg.compressionLevel raw

/-- `_build_tar(batch, identity)`. -/
def buildTar (channel : Channel) (cfg : Config) (env : Surroundings arch) (station : Station)
    (batch : List (Rec py.Finite)) : Except Exn (Option Bytes) := do
  let clientInfo ← clientInfoOf arch channel env station
  match ← workOf py cfg batch with
  | none => pure none
  | some work =>
    let tar ← tarOf py arch cfg clientInfo env station work
    pure (some tar)

/-- The tar that `ship` builds and tries to send over the transport's own channel. -/
def tried (channel : Channel) (cfg : Config) (env : Surroundings arch) (station : Station)
    (batch : List (Rec py.Finite)) : Option Bytes :=
  match buildTar py arch channel cfg env station batch with
  | .ok tar => tar
  | .error _ => none

/-- `ship(batch, identity)`, as far as it sends: `upload` says how sending a tar went, and the
fallback has surroundings of its own. -/
def ship (tr : Transport) (env later : Surroundings arch) (upload : Bytes → OutcomeKind)
    (station : Station) (batch : List (Rec py.Finite)) : List (Channel × Bytes) :=
  match tried py arch tr.channel tr.config env station batch with
  | none => []
  | some tar =>
    match tr with
    | .sftp _ (some fallback) =>
      if upload tar = .retryLater then
        (.sftp, tar) :: ((tried py arch .ftp fallback later station batch).map
          fun tar ↦ (Channel.ftp, tar)).toList
      else [(.sftp, tar)]
    | _ => [(tr.channel, tar)]

/-- `serialize_for_retry(batch, identity)`. -/
def serializeForRetry (tr : Transport) (env : Surroundings arch) (station : Station)
    (batch : List (Rec py.Finite)) : Except Exn Bytes := do
  let tar ← buildTar py arch tr.channel tr.config env station batch
  pure (tar.getD [])

/-! ## Stability -/

/-- What is kept for a retry is what was sent over the transport's own channel. -/
def RetryStable (tr : Transport) (env later env' : Surroundings arch)
    (upload : Bytes → OutcomeKind) (station : Station) (batch : List (Rec py.Finite)) : Prop :=
  ∀ tar, (tr.channel, tar) ∈ ship py arch tr env later upload station batch →
    serializeForRetry py arch tr env' station batch = .ok tar

/-- Two builds read the same: the public key where the tar has it, whether zstd is installed where
it is asked for, the second in which each member is made, and the files. -/
structure Unchanged (tr : Transport) (env env' : Surroundings arch) (station : Station)
    (work : Work py.Finite) (made : ℕ) : Prop where
  key : tr.channel = .ftp → env'.publicKey = env.publicKey
  zstd : tr.config.compression = "zstd" → env'.zstdInstalled = env.zstdInstalled
  clock : ∀ i < made, env'.clock i = env.clock i
  files : filesOf py arch tr.config env' station work = filesOf py arch tr.config env station work

end

section

variable {py : Interpreter} {arch : Archiver}

/-! ## Names -/

theorem getLast?_slashJoin (parts : List PyText) {last : PyText} (h : last ≠ []) :
    (slashJoin (parts ++ [last])).getLast? = last.getLast? := by
  induction parts with
  | nil => simp [slashJoin]
  | cons part parts ih =>
    have hne : parts ++ [last] ≠ [] := by simp
    obtain ⟨next, rest, hcons⟩ := List.exists_cons_of_ne_nil hne
    have hjoin : slashJoin (part :: (parts ++ [last])) =
        part ++ [.scalar '/'] ++ slashJoin (parts ++ [last]) := by
      rw [hcons, slashJoin, List.intercalate_cons_cons, slashJoin]
    rw [List.cons_append, hjoin, List.getLast?_append, ih]
    cases hlast : last.getLast? with
    | none => exact absurd (List.getLast?_eq_none_iff.mp hlast) h
    | some c => rfl

theorem getLast?_append_ofString (s : PyText) {t : String} {c : Char}
    (h : t.toList.getLast? = some c) : (s ++ PyText.ofString t).getLast? = some (.scalar c) := by
  rw [List.getLast?_append, PyText.ofString, List.getLast?_map, h]
  rfl

/-- A name made of parts does not end in a NUL where the last part does not. -/
theorem not_endsInNul_slashJoin (parts : List PyText) {last : PyText} (hne : last ≠ [])
    (h : ¬ EndsInNul last) : ¬ EndsInNul (slashJoin (parts ++ [last])) := by
  rwa [EndsInNul, getLast?_slashJoin parts hne]

theorem not_endsInNul_append_ofString (s : PyText) {t : String} {c : Char}
    (h : t.toList.getLast? = some c) (hc : c ≠ '\x00') :
    s ++ PyText.ofString t ≠ [] ∧ ¬ EndsInNul (s ++ PyText.ofString t) := by
  have hlast := getLast?_append_ofString s h
  refine ⟨fun hnil ↦ ?_, ?_⟩
  · rw [hnil] at hlast
    cases hlast
  · rw [EndsInNul, hlast]
    intro heq
    exact hc (PyChar.scalar.inj (Option.some.inj heq))

theorem not_endsInNul_metadata {set : Settings} {start : List Entry}
    (h : metadata set = .ok start) : ∀ e ∈ start, ¬ EndsInNul e.1 := by
  intro e he
  have hname : e.1 ∈ metadataNames set := metadata_names h ▸ List.mem_map_of_mem he
  rw [metadataNames] at hname
  split at hname
  · rw [List.mem_singleton.mp hname]
    decide
  · rw [List.mem_pair] at hname
    rcases hname with hname | hname <;> rw [hname] <;> decide

/-- No member that is made in memory has a name that ends in a NUL. -/
theorem not_endsInNul_entries {up : Uploader} {set : Settings} {records : List (Rec py.Finite)}
    {entries : List Entry} (h : buildEntries py up set records = .ok entries) :
    ∀ e ∈ entries, ¬ EndsInNul e.1 := by
  simp only [buildEntries, Except.bind_eq_ok, Except.pure_eq_ok] at h
  obtain ⟨g, -, start, hstart, routing, hrouting, spots, hspots, noise, hnoise, psk, hpsk, rfl⟩ := h
  simp only [List.forall_mem_append]
  refine ⟨⟨⟨⟨not_endsInNul_metadata hstart, fun e he ↦ ?_⟩, fun e he ↦ ?_⟩, fun e he ↦ ?_⟩,
    fun e he ↦ ?_⟩
  · have hname : e.1 ∈ routing.map Prod.fst := List.mem_map_of_mem he
    rw [routingEntry_names hrouting] at hname
    split_ifs at hname
    · rw [List.mem_singleton.mp hname]
      decide
    · cases hname
  · obtain ⟨group, -, hentry⟩ := (Except.exists_of_mapM hspots).2 e he
    obtain ⟨mode, -, hname⟩ := spotEntry_name hentry
    rw [hname, spotName]
    split_ifs
    · obtain ⟨hne, hnul⟩ := not_endsInNul_append_ofString (t := "_wd_spots.txt") (c := 't')
        (underscoreJoin [group.1.rxId.recv, py.str group.2.band, mode, .ofString group.1.ts])
        (by decide) (by decide)
      exact not_endsInNul_slashJoin [_, _, _, _, _] hne hnul
    · obtain ⟨hne, hnul⟩ := not_endsInNul_append_ofString (t := "_spots.txt") (c := 't')
        (underscoreJoin [group.1.rxId.recv, py.str group.2.band, mode, .ofString group.1.ts])
        (by decide) (by decide)
      exact not_endsInNul_slashJoin [_, _, _, _, _] hne hnul
  · obtain ⟨group, -, hentry⟩ := (Except.exists_of_mapM hnoise).2 e he
    rw [noiseEntry_name hentry, noiseName]
    obtain ⟨hne, hnul⟩ := not_endsInNul_append_ofString (t := "_noise.txt") (c := 't')
      (underscoreJoin [group.1.rxId.recv, py.str group.2.band, .ofString group.1.ts])
      (by decide) (by decide)
    exact not_endsInNul_slashJoin [_, _, _, _, _] hne hnul
  · obtain ⟨group, -, hentry⟩ := (Except.exists_of_mapM hpsk).2 e he
    rw [pskEntry_name hentry, pskName]
    obtain ⟨hne, hnul⟩ := not_endsInNul_append_ofString (t := ".jsonl") (c := 'l')
      (underscoreJoin [.ofString group.1.cycle, group.1.mode]) (by decide) (by decide)
    exact not_endsInNul_slashJoin [_, _, _, _] hne hnul

/-- The last part of a path. -/
theorem FilePath.not_endsInNul {path : FilePath} {part : PyText} (h : part ∈ path.parts) :
    part ≠ [] ∧ ¬ EndsInNul part := by
  obtain ⟨hne, -, hnul⟩ := path.wellFormed part h
  exact ⟨hne, fun heq ↦ hnul (List.mem_of_getLast? heq)⟩

theorem not_endsInNul_asPosix {path : FilePath} {rel : List PyText}
    (h : ∀ part ∈ rel, part ∈ path.parts) :
    asPosix rel ≠ [] ∧ ¬ EndsInNul (asPosix rel) := by
  rw [asPosix]
  split_ifs with hnil
  · exact ⟨by decide, by decide⟩
  · obtain ⟨hne, hnul⟩ := path.not_endsInNul (h _ (List.getLast_mem hnil))
    have hlast := getLast?_slashJoin rel.dropLast hne
    rw [List.dropLast_concat_getLast hnil] at hlast
    refine ⟨fun heq ↦ ?_, ?_⟩
    · rw [heq, List.getLast?_nil, eq_comm, List.getLast?_eq_none_iff] at hlast
      exact hne hlast
    · rwa [EndsInNul, hlast]

theorem FilePath.mem_of_relativeTo {path root : FilePath} {rel : List PyText}
    (h : path.relativeTo root = some rel) : ∀ part ∈ rel, part ∈ path.parts := by
  rw [relativeTo] at h
  split_ifs at h
  obtain rfl := Option.some.inj h
  exact fun part hpart ↦ List.mem_of_mem_drop hpart

theorem not_endsInNul_noiseFileName (py : Interpreter) {name : PyText} (hne : name ≠ [])
    (h : ¬ EndsInNul name) :
    noiseFileName py name ≠ [] ∧ ¬ EndsInNul (noiseFileName py name) := by
  rw [noiseFileName]
  split
  · exact not_endsInNul_append_ofString (t := "_noise.txt") (c := 't') _ (by decide) (by decide)
  · exact ⟨hne, h⟩

/-- No file that is added has a name that ends in a NUL. -/
theorem not_endsInNul_arcnameFor (path root : FilePath) (rxSite tarRoot : PyText) :
    ¬ EndsInNul (arcnameFor py path root rxSite tarRoot) := by
  have hposix : ∀ rel, path.relativeTo root = some rel →
      ¬ EndsInNul (slashJoin [tarRoot, asPosix rel]) := fun rel hrel ↦ by
    obtain ⟨hne, hnul⟩ := not_endsInNul_asPosix (path.mem_of_relativeTo hrel)
    exact not_endsInNul_slashJoin [_] hne hnul
  have hname : path.parts ≠ [] → path.name ≠ [] ∧ ¬ EndsInNul path.name := fun hparts ↦ by
    have hlast : path.name = path.parts.getLast hparts := by
      rw [FilePath.name, List.getLastD_eq_getLast?, List.getLast?_eq_some_getLast hparts]
      rfl
    rw [hlast]
    exact path.not_endsInNul (List.getLast_mem hparts)
  rw [arcnameFor]
  cases hrel : path.relativeTo root with
  | none =>
    rcases eq_or_ne path.parts [] with hparts | hparts
    · have hnil : path.name = [] := by rw [FilePath.name, hparts]; rfl
      have hlast := getLast?_append_ofString (t := "/") (c := '/') tarRoot (by decide)
      dsimp only
      rw [hnil, EndsInNul, show slashJoin [tarRoot, []] = tarRoot ++ .ofString "/" by
        simp [slashJoin, List.intercalate, PyText.ofString], hlast]
      decide
    · obtain ⟨hne, hnul⟩ := hname hparts
      exact not_endsInNul_slashJoin [_] hne hnul
  | some rel =>
    dsimp only
    split
    · rename_i receiver band third rest
      have hparts : path.parts ≠ [] :=
        List.ne_nil_of_mem (path.mem_of_relativeTo hrel receiver List.mem_cons_self)
      obtain ⟨hne, hnul⟩ := hname hparts
      split_ifs
      · obtain ⟨hne', hnul'⟩ := not_endsInNul_noiseFileName py hne hnul
        exact not_endsInNul_slashJoin [_, _, _, _, _] hne' hnul'
      · exact hposix _ hrel
      · exact not_endsInNul_slashJoin [_, _, _, _, _] hne hnul
    · exact hposix _ hrel

theorem not_endsInNul_addedName {name : PyText} (h : ¬ EndsInNul name) :
    ¬ EndsInNul (addedName name) := by
  intro hadded
  obtain ⟨front, hfront⟩ : addedName name <:+ name := List.dropWhile_suffix _
  refine h ?_
  rw [EndsInNul, ← hfront, List.getLast?_append, hadded]
  rfl

theorem not_endsInNul_files {cfg : Config} {env : Surroundings arch} {station : Station}
    {work : Work py.Finite} : ∀ m ∈ filesOf py arch cfg env station work, ¬ EndsInNul m.name := by
  cases work with
  | rows records => exact fun m hm ↦ absurd hm List.not_mem_nil
  | files root paths =>
    intro m hm
    obtain ⟨path, -, hpath⟩ := List.mem_filterMap.mp hm
    obtain ⟨file, -, rfl⟩ := Option.map_eq_some_iff.mp hpath
    exact not_endsInNul_addedName (not_endsInNul_arcnameFor path root _ _)

/-! ## Two builds -/

theorem not_endsInNul_members {cfg : Config} {info : Option (PyText × PyText)}
    {env : Surroundings arch} {station : Station} {work : Work py.Finite} {entries : List Entry}
    (h : entriesOf py cfg info station work = .ok entries) :
    ∀ m ∈ stamped arch env.clock entries ++ filesOf py arch cfg env station work,
      ¬ EndsInNul m.name := by
  have hentries : ∀ e ∈ entries, ¬ EndsInNul e.1 := by
    cases work with
    | files root paths => exact not_endsInNul_metadata h
    | rows records => exact not_endsInNul_entries h
  rw [List.forall_mem_append]
  refine ⟨fun m hm ↦ ?_, not_endsInNul_files⟩
  obtain ⟨⟨e, i⟩, he, rfl⟩ := List.mem_map.mp hm
  exact hentries e (List.fst_mem_of_mem_zipIdx he)

theorem getElem?_stamped (clock : ℕ → ℤ) (entries : List Entry) (i : ℕ) :
    (stamped arch clock entries)[i]? =
      entries[i]?.map fun e ↦ ⟨e.1, arch.made (clock i), e.2⟩ := by
  rw [stamped, List.getElem?_map, List.getElem?_zipIdx, Option.map_map, Nat.zero_add]
  rfl

theorem length_stamped (clock : ℕ → ℤ) (entries : List Entry) :
    (stamped arch clock entries).length = entries.length := by
  rw [stamped, List.length_map, List.length_zipIdx]

/-- Members made in memory tell what they were made of and when. -/
theorem stamped_eq_iff {clock clock' : ℕ → ℤ} {entries entries' : List Entry} :
    stamped arch clock' entries' = stamped arch clock entries ↔
      entries' = entries ∧ ∀ i < entries.length, clock' i = clock i := by
  constructor
  · intro h
    have hat : ∀ i,
        (entries'[i]?.map fun e ↦ (⟨e.1, arch.made (clock' i), e.2⟩ : Member arch.Stat)) =
        entries[i]?.map fun e ↦ ⟨e.1, arch.made (clock i), e.2⟩ := fun i ↦ by
      rw [← getElem?_stamped, ← getElem?_stamped, h]
    refine ⟨List.ext_getElem? fun i ↦ ?_, fun i hi ↦ ?_⟩
    · have hi := hat i
      cases hleft : entries'[i]? with
      | none =>
        rw [hleft, Option.map_none, eq_comm, Option.map_eq_none_iff] at hi
        rw [hi]
      | some e =>
        rw [hleft, Option.map_some, eq_comm, Option.map_eq_some_iff] at hi
        obtain ⟨e', hright, heq⟩ := hi
        obtain ⟨hname, -, hdata⟩ := Member.mk.inj heq
        rw [hright, Prod.ext hname hdata]
    · have hi' := hat i
      rw [List.getElem?_eq_getElem hi, Option.map_some, Option.map_eq_some_iff] at hi'
      obtain ⟨e, -, heq⟩ := hi'
      exact arch.made_injective (Member.mk.inj heq).2.1
  · rintro ⟨rfl, hclock⟩
    refine List.ext_getElem? fun i ↦ ?_
    rw [getElem?_stamped, getElem?_stamped]
    rcases Nat.lt_or_ge i entries'.length with hi | hi
    · rw [hclock i hi]
    · rw [List.getElem?_eq_none hi]
      rfl

/-- zstd packs where it is asked for and installed, and bz2 else. -/
theorem compressTarBytes_cases {installed : Bool} {compression : String} {level : ℤ}
    {raw tar : Bytes} (h : compressTarBytes arch installed compression level raw = .ok tar) :
    (compression = "zstd" ∧ installed = true ∧ arch.zstd level raw = .ok tar) ∨
      ((compression = "zstd" → installed = false) ∧ ∃ level, arch.bz2 level raw = tar) := by
  rw [compressTarBytes] at h
  by_cases hcomp : compression = "zstd"
  · cases installed with
    | true => exact .inl ⟨hcomp, rfl, by simpa [hcomp] using h⟩
    | false =>
      rw [if_neg (by simp)] at h
      exact .inr ⟨fun _ ↦ rfl, _, Except.ok.inj h⟩
  · rw [if_neg (by simp [hcomp])] at h
    exact .inr ⟨fun heq ↦ absurd heq hcomp, _, Except.ok.inj h⟩

/-- What is packed tells what it was made of, and by which compressor. -/
theorem compressTarBytes_eq {installed installed' : Bool} {compression : String} {level : ℤ}
    {raw raw' tar : Bytes} (h : compressTarBytes arch installed compression level raw = .ok tar)
    (h' : compressTarBytes arch installed' compression level raw' = .ok tar) :
    raw' = raw ∧ (compression = "zstd" → installed' = installed) := by
  rcases compressTarBytes_cases h with ⟨-, hyes, hzstd⟩ | ⟨hno, level₁, hbz2⟩
  · rcases compressTarBytes_cases h' with ⟨-, hyes', hzstd'⟩ | ⟨-, level₂, hbz2'⟩
    · exact ⟨(arch.unpack_zstd _ _ _ hzstd').symm.trans (arch.unpack_zstd _ _ _ hzstd),
        fun _ ↦ hyes'.trans hyes.symm⟩
    · have hmagic := arch.isZstd_zstd _ _ _ hzstd
      rw [← hbz2', arch.isZstd_bz2] at hmagic
      cases hmagic
  · rcases compressTarBytes_cases h' with ⟨-, -, hzstd'⟩ | ⟨hno', level₂, hbz2'⟩
    · have hmagic := arch.isZstd_zstd _ _ _ hzstd'
      rw [← hbz2, arch.isZstd_bz2] at hmagic
      cases hmagic
    · refine ⟨?_, fun hcomp ↦ (hno' hcomp).trans (hno hcomp).symm⟩
      rw [← arch.unpack_bz2 level₂ raw', ← arch.unpack_bz2 level₁ raw, hbz2', hbz2]

/-- Client info of one channel and station that is written alike is the same. -/
theorem clientInfo_eq {channel : Channel} {env env' : Surroundings arch} {station : Station}
    {info info' : Option (PyText × PyText)} (h : clientInfoOf arch channel env station = .ok info)
    (h' : clientInfoOf arch channel env' station = .ok info') {cfg : Config} {start : List Entry}
    (hstart : metadata (cfg.settings info) = .ok start)
    (hstart' : metadata (cfg.settings info') = .ok start) :
    info' = info ∧ (channel = .ftp → env'.publicKey = env.publicKey) := by
  cases channel with
  | sftp =>
    obtain rfl := Except.pure_eq_ok.mp h
    obtain rfl := Except.pure_eq_ok.mp h'
    exact ⟨rfl, fun hftp ↦ nomatch hftp⟩
  | ftp =>
    simp only [clientInfoOf, Except.bind_eq_ok, Except.pure_eq_ok] at h h'
    obtain ⟨key, hkey, rfl⟩ := h
    obtain ⟨key', hkey', rfl⟩ := h'
    simp only [metadata, Config.settings, Except.bind_eq_ok, Except.pure_eq_ok] at hstart hstart'
    obtain ⟨config, -, data, hdata, rfl⟩ := hstart
    obtain ⟨config', -, data', hdata', heq⟩ := hstart'
    have hinfo : data' = data := by
      simpa using (List.cons.inj heq).2
    rw [hinfo] at hdata'
    have htext := Except.ok.inj
      ((PyText.decode_encode hdata').symm.trans (PyText.decode_encode hdata))
    simp only [List.intercalate_cons_cons, List.intercalate_singleton, List.append_assoc,
      List.append_cancel_left_eq, List.append_cancel_right_eq] at htext
    rw [htext, hkey, hkey', htext]
    exact ⟨rfl, fun _ ↦ rfl⟩

theorem compressTarBytes_congr {installed installed' : Bool} {compression : String} {level : ℤ}
    {raw : Bytes} (h : compression = "zstd" → installed' = installed) :
    compressTarBytes arch installed' compression level raw =
      compressTarBytes arch installed compression level raw := by
  by_cases hcomp : compression = "zstd"
  · rw [h hcomp]
  · simp [compressTarBytes, hcomp]

/-- The members are those that describe the shipment, and others that do not depend on whom it
comes from. -/
theorem exists_of_entriesOf {cfg : Config} {info : Option (PyText × PyText)} {station : Station}
    {work : Work py.Finite} {entries : List Entry}
    (h : entriesOf py cfg info station work = .ok entries) :
    ∃ start rest, metadata (cfg.settings info) = .ok start ∧ entries = start ++ rest ∧
      ∀ info' entries', entriesOf py cfg info' station work = .ok entries' →
        ∃ start', metadata (cfg.settings info') = .ok start' ∧ entries' = start' ++ rest := by
  cases work with
  | files root paths =>
    exact ⟨entries, [], h, (List.append_nil _).symm, fun info' entries' h' ↦
      ⟨entries', h', (List.append_nil _).symm⟩⟩
  | rows records =>
    simp only [entriesOf, buildEntries, Except.bind_eq_ok, Except.pure_eq_ok] at h ⊢
    obtain ⟨g, hg, start, hstart, routing, hrouting, spots, hspots, noise, hnoise, psk, hpsk,
      rfl⟩ := h
    refine ⟨start, routing ++ spots ++ noise ++ psk, hstart, by simp only [List.append_assoc], ?_⟩
    rintro info' _ ⟨g', hg', start', hstart', routing', hrouting', spots', hspots', noise', hnoise',
      psk', hpsk', rfl⟩
    obtain rfl := Except.ok.inj (hg'.symm.trans hg)
    obtain rfl := Except.ok.inj (hrouting'.symm.trans hrouting)
    obtain rfl := Except.ok.inj (hspots'.symm.trans hspots)
    obtain rfl := Except.ok.inj (hnoise'.symm.trans hnoise)
    obtain rfl := Except.ok.inj (hpsk'.symm.trans hpsk)
    exact ⟨start', hstart', by simp only [List.append_assoc]⟩

theorem length_metadata {set : Settings} {start : List Entry} (h : metadata set = .ok start) :
    start.length = (metadataNames set).length := by
  rw [← metadata_names h, List.length_map]

/-- Client info of one channel names the same members. -/
theorem metadataNames_eq {channel : Channel} {env env' : Surroundings arch} {station : Station}
    {info info' : Option (PyText × PyText)} (h : clientInfoOf arch channel env station = .ok info)
    (h' : clientInfoOf arch channel env' station = .ok info') (cfg : Config) :
    metadataNames (cfg.settings info') = metadataNames (cfg.settings info) := by
  cases channel with
  | sftp =>
    obtain rfl := Except.pure_eq_ok.mp h
    obtain rfl := Except.pure_eq_ok.mp h'
    rfl
  | ftp =>
    simp only [clientInfoOf, Except.bind_eq_ok, Except.pure_eq_ok] at h h'
    obtain ⟨key, -, rfl⟩ := h
    obtain ⟨key', -, rfl⟩ := h'
    rfl

theorem tarOf_eq_ok {cfg : Config} {info : Option (PyText × PyText)} {env : Surroundings arch}
    {station : Station} {work : Work py.Finite} {tar : Bytes} :
    tarOf py arch cfg info env station work = .ok tar ↔ ∃ entries raw,
      entriesOf py cfg info station work = .ok entries ∧
      arch.write (stamped arch env.clock entries ++ filesOf py arch cfg env station work) =
        .ok raw ∧
      compressTarBytes arch env.zstdInstalled cfg.compression cfg.compressionLevel raw =
        .ok tar := by
  simp only [tarOf, Except.bind_eq_ok]
  constructor
  · rintro ⟨entries, hentries, raw, hraw, htar⟩
    exact ⟨entries, raw, hentries, hraw, htar⟩
  · rintro ⟨entries, raw, hentries, hraw, htar⟩
    exact ⟨entries, hentries, raw, hraw, htar⟩

/-- **A tar is built again exactly when the build reads the same.** -/
theorem rebuilt_iff {tr : Transport} {env env' : Surroundings arch} {station : Station}
    {info : Option (PyText × PyText)} {work : Work py.Finite} {entries : List Entry} {tar : Bytes}
    (hinfo : clientInfoOf arch tr.channel env station = .ok info)
    (hentries : entriesOf py tr.config info station work = .ok entries)
    (htar : tarOf py arch tr.config info env station work = .ok tar) :
    (∃ info', clientInfoOf arch tr.channel env' station = .ok info' ∧
        tarOf py arch tr.config info' env' station work = .ok tar) ↔
      Unchanged py arch tr env env' station work entries.length := by
  obtain ⟨_, raw, hentries₀, hraw, hpack⟩ := tarOf_eq_ok.mp htar
  obtain rfl := Except.ok.inj (hentries₀.symm.trans hentries)
  constructor
  · rintro ⟨info', hinfo', htar'⟩
    obtain ⟨entries', raw', hentries', hraw', hpack'⟩ := tarOf_eq_ok.mp htar'
    obtain ⟨rfl, hzstd⟩ := compressTarBytes_eq hpack hpack'
    -- the members of the two tars are the same
    have hmembers := arch.write_injective _ _ _ (not_endsInNul_members hentries')
      (not_endsInNul_members hentries) hraw' hraw
    obtain ⟨start, rest, hstart, rfl, hrest⟩ := exists_of_entriesOf hentries
    obtain ⟨start', hstart', rfl⟩ := hrest info' entries' hentries'
    have hlength : start'.length = start.length := by
      rw [length_metadata hstart', length_metadata hstart, metadataNames_eq hinfo hinfo']
    obtain ⟨hstamped, hfiles⟩ := List.append_inj hmembers (by
      rw [length_stamped, length_stamped, List.length_append, List.length_append, hlength])
    obtain ⟨happend, hclock⟩ := stamped_eq_iff.mp hstamped
    obtain ⟨rfl, -⟩ := List.append_inj happend hlength
    exact ⟨(clientInfo_eq hinfo hinfo' hstart hstart').2, hzstd, hclock, hfiles⟩
  · intro hsame
    have hinfo' : clientInfoOf arch tr.channel env' station = .ok info := by
      rw [← hinfo]
      cases hchannel : tr.channel with
      | sftp => rfl
      | ftp => rw [clientInfoOf, clientInfoOf, hsame.key hchannel]
    refine ⟨info, hinfo', tarOf_eq_ok.mpr ⟨_, raw, hentries, ?_, ?_⟩⟩
    · rw [stamped_eq_iff.mpr ⟨rfl, hsame.clock⟩, hsame.files, hraw]
    · rw [compressTarBytes_congr hsame.zstd, hpack]

theorem tried_eq_some {channel : Channel} {cfg : Config} {env : Surroundings arch}
    {station : Station} {batch : List (Rec py.Finite)} {tar : Bytes} :
    tried py arch channel cfg env station batch = some tar ↔ ∃ info work,
      clientInfoOf arch channel env station = .ok info ∧ workOf py cfg batch = .ok (some work) ∧
      tarOf py arch cfg info env station work = .ok tar := by
  have hbuild : tried py arch channel cfg env station batch = some tar ↔
      buildTar py arch channel cfg env station batch = .ok (some tar) := by
    rw [tried]
    cases buildTar py arch channel cfg env station batch <;> simp
  rw [hbuild, buildTar, Except.bind_eq_ok]
  refine exists_congr fun info ↦ ?_
  rw [Except.bind_eq_ok]
  constructor
  · rintro ⟨hinfo, work, hwork, htar⟩
    cases work with
    | none => cases htar
    | some work =>
      dsimp only at htar
      obtain ⟨_, htar, heq⟩ := Except.bind_eq_ok.mp htar
      cases heq
      exact ⟨work, hinfo, hwork, htar⟩
  · rintro ⟨work, hinfo, hwork, htar⟩
    exact ⟨hinfo, some work, hwork, Except.bind_eq_ok.mpr ⟨tar, htar, rfl⟩⟩

/-- The own channel carries the tar that was built, and no other. -/
theorem mem_ship_iff {tr : Transport} {env later : Surroundings arch}
    {upload : Bytes → OutcomeKind} {station : Station} {batch : List (Rec py.Finite)}
    {tar : Bytes} :
    (tr.channel, tar) ∈ ship py arch tr env later upload station batch ↔
      tried py arch tr.channel tr.config env station batch = some tar := by
  rw [ship]
  cases tried py arch tr.channel tr.config env station batch with
  | none => simp
  | some tar' =>
    match tr with
    | .ftp cfg => simp [eq_comm]
    | .sftp cfg none => simp [eq_comm]
    | .sftp cfg (some fallback) =>
      dsimp only
      split_ifs
      · simp [Transport.channel, eq_comm]
      · simp [Transport.channel, eq_comm]

/-- What is kept for a retry, where there is something to ship. -/
theorem serializeForRetry_eq_ok {tr : Transport} {env : Surroundings arch} {station : Station}
    {batch : List (Rec py.Finite)} {work : Work py.Finite}
    (hwork : workOf py tr.config batch = .ok (some work)) {tar : Bytes} :
    serializeForRetry py arch tr env station batch = .ok tar ↔ ∃ info,
      clientInfoOf arch tr.channel env station = .ok info ∧
      tarOf py arch tr.config info env station work = .ok tar := by
  simp only [serializeForRetry, buildTar, hwork, Except.ok_bind, Except.bind_eq_ok,
    Except.pure_eq_ok]
  constructor
  · rintro ⟨_, ⟨info, hinfo, tar', htar, rfl⟩, rfl⟩
    exact ⟨info, hinfo, htar⟩
  · rintro ⟨info, hinfo, htar⟩
    exact ⟨some tar, ⟨info, hinfo, tar, htar, rfl⟩, rfl⟩

end

/-- **What is kept for a retry is what was sent exactly when the second build reads the same as the
first**: the clock for each member made in memory, the files, the public key where it is in the
tar, and whether zstd is installed where it is asked for. -/
theorem retry_stable_iff (py : Interpreter) (arch : Archiver) (tr : Transport)
    (env later env' : Surroundings arch) (upload : Bytes → OutcomeKind) (station : Station)
    (batch : List (Rec py.Finite)) :
    RetryStable py arch tr env later env' upload station batch ↔
      ∀ tar info work entries, tried py arch tr.channel tr.config env station batch = some tar →
        clientInfoOf arch tr.channel env station = .ok info →
        workOf py tr.config batch = .ok (some work) →
        entriesOf py tr.config info station work = .ok entries →
        Unchanged py arch tr env env' station work entries.length := by
  rw [RetryStable]
  constructor
  · intro hstable tar info work entries htried hinfo hwork hentries
    have hkept := hstable tar (mem_ship_iff.mpr htried)
    obtain ⟨info₀, work₀, hinfo₀, hwork₀, htar⟩ := tried_eq_some.mp htried
    obtain rfl := Except.ok.inj (hinfo₀.symm.trans hinfo)
    obtain rfl := Option.some.inj (Except.ok.inj (hwork₀.symm.trans hwork))
    exact (rebuilt_iff hinfo hentries htar).mp ((serializeForRetry_eq_ok hwork).mp hkept)
  · intro hsame tar htar
    have htried := mem_ship_iff.mp htar
    obtain ⟨info, work, hinfo, hwork, hbuilt⟩ := tried_eq_some.mp htried
    obtain ⟨entries, raw, hentries, -⟩ := tarOf_eq_ok.mp hbuilt
    exact (serializeForRetry_eq_ok hwork).mpr ((rebuilt_iff hinfo hentries hbuilt).mpr
      (hsame tar info work entries htried hinfo hwork hentries))

/-! ## A second later -/

instance encodableByte : Encodable UInt8 :=
  Encodable.ofLeftInverse UInt8.toNat UInt8.ofNat fun _ ↦ UInt8.ofNat_toNat

instance : Encodable PyChar :=
  Encodable.ofLeftInverse
    (fun | .scalar c => Sum.inl c.toNat | .surrogate n => Sum.inr n)
    (fun (x : ℕ ⊕ Fin 2048) ↦ match x with
      | .inl n => .scalar (Char.ofNat n)
      | .inr n => .surrogate n)
    (fun | .scalar c => congrArg PyChar.scalar (Char.ofNat_toNat c) | .surrogate _ => rfl)

/-- What a member of a plain tar is told by. -/
def memberParts (m : Member ℤ) : PyText × ℤ × Bytes := (m.name, m.stat, m.data)

theorem memberParts_injective : Function.Injective memberParts := by
  rintro ⟨name, stat, data⟩ ⟨name', stat', data'⟩ h
  cases h
  rfl

/-- Tars that are numbers, as long as they are large. -/
def plainArchiver : Archiver where
  Stat := ℤ
  made := id
  made_injective := Function.injective_id
  write ms :=
    if ∀ m ∈ ms, ∀ c ∈ m.name, isHighSurrogate c = false then
      .ok (List.replicate (Encodable.encode (ms.map memberParts)) 0)
    else .error (.other "UnicodeEncodeError" "surrogates not allowed")
  write_injective ms ms' raw _ _ h h' := by
    split_ifs at h h'
    have hlength := congrArg List.length ((Except.ok.inj h).trans (Except.ok.inj h').symm)
    rw [List.length_replicate, List.length_replicate] at hlength
    exact List.map_injective_iff.mpr memberParts_injective (Encodable.encode_injective hlength)
  encodable ms raw h := by
    split_ifs at h with hname
    exact hname
  bz2 _ raw := 0 :: raw
  zstd _ raw := .ok (1 :: raw)
  unpack := List.tail
  isZstd b := b.head? = some 1
  unpack_bz2 _ _ := rfl
  unpack_zstd _ _ _ h := Except.ok.inj h ▸ rfl
  isZstd_bz2 _ _ := rfl
  isZstd_zstd _ _ _ h := Except.ok.inj h ▸ rfl

/-- The clock stands at a second, and there are no files. -/
def plainSurroundings (second : ℤ) : Surroundings plainArchiver where
  clock _ := second
  zstdInstalled := false
  publicKey := .ok []
  disk _ := none

/-- A transport of a station with one receiver. -/
def plainTransport : Transport := .sftp { receiver := .ofString "kiwi" } none

/-- A station. -/
def plainStation : Station := { call := .ofString "AC0G", grid := .ofString "EM38ww" }

theorem exists_tried_plain : ∃ tar, tried plainNumbers plainArchiver plainTransport.channel
    plainTransport.config (plainSurroundings 0) plainStation [plainSpot "EM38ww"] = some tar := by
  rw [← Option.isSome_iff_exists]
  decide +kernel

/-- A tar that is built again in another second is another tar. -/
theorem retry_stable_fails :
    ¬ ∀ (py : Interpreter) (arch : Archiver) (tr : Transport) (env later : Surroundings arch)
      (clock : ℕ → ℤ) (upload : Bytes → OutcomeKind) (station : Station)
      (batch : List (Rec py.Finite)),
      RetryStable py arch tr env later { env with clock } upload station batch := by
  intro hall
  obtain ⟨tar, htried⟩ := exists_tried_plain
  have hstable := hall plainNumbers plainArchiver plainTransport (plainSurroundings 0)
    (plainSurroundings 0) (fun _ ↦ 1) (fun _ ↦ .retryLater) plainStation [plainSpot "EM38ww"]
  have hkept := hstable tar (mem_ship_iff.mpr htried)
  obtain ⟨info, work, hinfo, hwork, htar⟩ := tried_eq_some.mp htried
  obtain ⟨entries, raw, hentries, -⟩ := tarOf_eq_ok.mp htar
  have hclock := ((rebuilt_iff hinfo hentries htar).mp
    ((serializeForRetry_eq_ok hwork).mp hkept)).clock 0
  obtain ⟨start, rest, hstart, rfl, -⟩ := exists_of_entriesOf hentries
  have hpos : 0 < start.length := by
    rw [length_metadata hstart, metadataNames]
    split <;> simp
  have hone : (1 : ℤ) = 0 := hclock (by
    rw [List.length_append]
    omega)
  cases hone

end HsUploader.Wsprdaemon
