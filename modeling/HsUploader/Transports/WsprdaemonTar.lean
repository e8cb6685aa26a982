import HsUploader.Transports.WsprdaemonLines

/-!
# The tar of a wsprdaemon upload

A batch is shipped as one compressed tar.  Rows of a database are grouped by the receiver that heard
them, their band, mode and time, each group a member of the tar (`buildEntries`); files of a spool
are members under names of the same layout (`arcnameFor`).  The tar starts with what describes the
shipment: the configuration, for the FTP path who is to be let in, and `routing.json`, which says
for each receiver whether its spots are forwarded.

Groups are kept in dicts, in the order in which their keys came up.  Keys that are equal for Python
are one key (`Hashed`), and a group is named by the first of them.
-/

set_option autoImplicit false

namespace HsUploader.Wsprdaemon

/-! ## Records -/

/-- A path: its parts are not empty and have neither a slash nor a NUL. -/
structure FilePath where
  absolute : Bool
  parts : List PyText
  wellFormed : ∀ p ∈ parts, p ≠ [] ∧ PyChar.scalar '/' ∉ p ∧ PyChar.scalar '\x00' ∉ p
  deriving DecidableEq

/-- A record: a file of the spool, or the columns of a row. -/
structure Rec (F : Type) where
  table : String := "wspr.spots"
  payloadPath : Option FilePath := none
  columns : Columns F := []

/-- What the uploader is told by, which stands in for what a row does not say. -/
structure Uploader where
  rxCall : PyText
  rxGrid : PyText
  receiver : PyText
  rxSite : PyText

/-- The station-level settings of a tar. -/
structure Settings where
  version : PyText := .ofString "4.0"
  /-- The reporter and its public key, on the FTP path. -/
  clientInfo : Option (PyText × PyText) := none
  tarRoot : PyText := .ofString "wspr"
  forwardToWsprnet : Option Bool := none
  wsprnetReporter : Option (String × String) := none
  pskReporter : Option (String × String) := none

/-! ## Receivers -/

/-- `_build_rx_site(call, grid)`. -/
def buildRxSite (call grid : PyText) : PyText :=
  let base := replace "/" "=" call
  if grid ≠ [] then base ++ .ofString "_" ++ grid else base

/-- The identity of a row's receiver: its call and grid, the receiver and its site. -/
structure RxIdentity where
  call : PyText
  grid : PyText
  recv : PyText
  site : PyText
  deriving DecidableEq

section

variable (py : Interpreter)

/-- `(first or second or ... or "").strip()`. -/
def strippedText (v : PyValue py.Finite) : Except Exn PyText := do
  let s ← asText (py.orElse v (.str []))
  pure (py.strip s)

/-- `receiver or "rx"`. -/
def Uploader.receiverOr (up : Uploader) : PyText :=
  if up.receiver ≠ [] then up.receiver else .ofString "rx"

/-- The receiver of a row. -/
def recvOf (up : Uploader) (cols : Columns py.Finite) : Except Exn PyText := do
  let raw ← asText (py.orElse (py.orElse (cols.get "radiod_id") (cols.get "rx_source"))
    (.str up.receiverOr))
  let recv := replace "-status.local" "" (replace "radiod:" "" raw)
  pure (if recv ≠ [] then recv else up.receiverOr)

/-- The call and the grid, the receiver and its site, from the columns that hold the first two. -/
def identityOf (up : Uploader) (call grid : PyValue py.Finite) (cols : Columns py.Finite) :
    Except Exn RxIdentity := do
  let call ← strippedText py (py.orElse call (.str up.rxCall))
  let grid ← strippedText py (py.orElse grid (.str up.rxGrid))
  let recv ← recvOf py up cols
  pure { call, grid, recv, site := if call ≠ [] then buildRxSite call grid else up.rxSite }

/-- `_row_rx_identity(cols)`. -/
def rowRxIdentity (up : Uploader) (cols : Columns py.Finite) : Except Exn RxIdentity :=
  identityOf py up (cols.get "rx_call") (cols.get "rx_grid") cols

/-- The identity of a psk row. -/
def pskIdentity (up : Uploader) (cols : Columns py.Finite) : Except Exn RxIdentity :=
  identityOf py up (py.orElse (cols.get "reporter_id") (cols.get "host_call"))
    (cols.get "host_grid") cols

/-! ## Groups -/

/-- A value as the key of a dict: numbers are equal whatever their type. -/
inductive Hashed where
  | none
  | number (q : ℚ)
  | inf (negative : Bool)
  | nan
  | str (s : PyText)
  deriving DecidableEq

/-- `hash(v)`. -/
def hashed : PyValue py.Finite → Except Exn Hashed
  | .none => .ok .none
  | .bool b => .ok (.number (if b then 1 else 0))
  | .int n => .ok (.number n)
  | .float (.finite x) => .ok (.number (py.value x))
  | .float (.inf negative) => .ok (.inf negative)
  | .float .nan => .ok .nan
  | .str s => .ok (.str s)
  | .list _ => .error (.typeError "unhashable type: 'list'")
  | .dict _ => .error (.typeError "unhashable type: 'dict'")

/-- The key of a group of spots. -/
structure SpotKey where
  rxId : RxIdentity
  band : Hashed
  mode : Hashed
  ts : String
  deriving DecidableEq

/-- A group of spots: the band and the mode of its first row, and its rows. -/
structure SpotGroup where
  band : PyValue py.Finite
  mode : PyValue py.Finite
  rows : List (Columns py.Finite)

/-- The key of a group of noise. -/
structure NoiseKey where
  rxId : RxIdentity
  band : Hashed
  ts : String
  deriving DecidableEq

/-- A group of noise: the band of its first row, and its last row. -/
structure NoiseGroup where
  band : PyValue py.Finite
  row : Columns py.Finite

/-- The key of a group of psk spots. -/
structure PskKey where
  site : PyText
  recv : PyText
  mode : PyText
  band : Hashed
  cycle : String
  deriving DecidableEq

/-- A group of psk spots. -/
structure PskGroup where
  band : PyValue py.Finite
  rows : List (Columns py.Finite)

/-- `spot_groups`, `noise_groups`, `psk_groups` and `receivers_forward`. -/
structure Groups where
  spots : List (SpotKey × SpotGroup py) := []
  noise : List (NoiseKey × NoiseGroup py) := []
  psk : List (PskKey × PskGroup py) := []
  forward : List (PyText × Bool) := []

/-- The modes of psk rows that are shipped. -/
def pskModes : List PyText := [.ofString "ft8", .ofString "ft4", .ofString "msk144"]

/-- The band of a psk row, from its frequency where it does not say. -/
def pskBand (cols : Columns py.Finite) : Except Exn (PyValue py.Finite) :=
  if py.truthy (cols.get "band") then pure (cols.get "band")
  else do
    let hz ← intOr py cols "frequency" 0
    if hz ≠ 0 then
      let x ← WsprNet.float.ofInt py.toInterpreter hz
      let band ← freqToBand py (WsprNet.onFinite py.perMillion x)
      pure (.int band)
    else pure (.int 0)

/-- `_psk_cycle_key(time_iso)`. -/
def pskCycleKey (time : PyValue py.Finite) : String :=
  match time with
  | .str iso =>
    match py.fromIsoFormat (replace "Z" "+00:00" iso) with
    | some t => t.ymd ++ "_" ++ WsprNet.twoDigits t.hour ++ WsprNet.twoDigits (t.minute / 2 * 2)
    | none => "000000_0000"
  | _ => "000000_0000"

/-- The key of a receiver in `receivers_forward`. -/
def receiverKey (site recv : PyText) : PyText := site ++ .ofString "/" ++ recv

/-- `bool(cols.get("forward_to_pskreporter", True))`. -/
def forwardFlag (cols : Columns py.Finite) : Bool :=
  py.truthy ((cols.lookup "forward_to_pskreporter").getD (.bool true))

/-- What a record is filed as: its key, and the columns a group is named by. -/
inductive Filed where
  | skipped
  | psk (key : PskKey) (band : PyValue py.Finite)
  | noise (key : NoiseKey) (band : PyValue py.Finite)
  | spot (key : SpotKey) (band mode : PyValue py.Finite)

/-- What a psk row is filed as; rows of other modes are left out. -/
def filePsk (up : Uploader) (cols : Columns py.Finite) : Except Exn (Filed py) := do
  let text ← asText (py.orElse (cols.get "mode") (.str []))
  let mode := py.lower text
  if mode ∉ pskModes then pure .skipped
  else
    let band ← pskBand py cols
    let cycle := pskCycleKey py ((cols.lookup "time").getD (.str []))
    let rxId ← pskIdentity py up cols
    let b ← hashed py band
    pure (.psk { site := rxId.site, recv := rxId.recv, mode, band := b, cycle } band)

/-- `except (KeyError, ValueError)`. -/
def isMalformed : Exn → Bool
  | .valueError _ => true
  | .other type _ => type = "KeyError"
  | _ => false

/-- The band and the time of a row. -/
def bandAndTime (cols : Columns py.Finite) : Except Exn (PyValue py.Finite × Moment) := do
  let band ← getItem cols "band"
  let time ← getItem cols "time"
  let t ← tsFromIso py time
  pure (band, t)

/-- What a row of WSPR is filed as; malformed rows are left out. -/
def fileWspr (up : Uploader) (table : String) (cols : Columns py.Finite) :
    Except Exn (Filed py) :=
  match bandAndTime py cols with
  | .error e => if isMalformed e then pure .skipped else throw e
  | .ok (band, t) => do
    let rxId ← rowRxIdentity py up cols
    if table = "wspr.noise" then
      let b ← hashed py band
      pure (.noise { rxId, band := b, ts := t.stamp } band)
    else
      match getItem cols "mode" with
      | .error _ => pure .skipped
      | .ok mode =>
        let b ← hashed py band
        let m ← hashed py mode
        pure (.spot { rxId, band := b, mode := m, ts := t.stamp } band mode)

/-- `getattr(r, "table", "wspr.spots") or "wspr.spots"`. -/
def Rec.tableOr {F : Type} (r : Rec F) : String := if r.table ≠ "" then r.table else "wspr.spots"

/-- What a record is filed as. -/
def fileRecord (up : Uploader) (r : Rec py.Finite) : Except Exn (Filed py) :=
  if r.columns.isEmpty then pure .skipped
  else if r.tableOr = "psk.spots" then filePsk py up r.columns
  else fileWspr py up r.tableOr r.columns

/-- `setdefault(key, []).append(cols)` for spots. -/
def SpotGroup.append (band mode : PyValue py.Finite) (cols : Columns py.Finite)
    (group : Option (SpotGroup py)) : SpotGroup py :=
  match group with
  | none => { band, mode, rows := [cols] }
  | some g => { g with rows := g.rows ++ [cols] }

/-- `noise_groups[key] = cols`: the last row of a key stays. -/
def NoiseGroup.replace (band : PyValue py.Finite) (cols : Columns py.Finite)
    (group : Option (NoiseGroup py)) : NoiseGroup py :=
  match group with
  | none => { band, row := cols }
  | some g => { g with row := cols }

/-- `setdefault(key, []).append(cols)` for psk spots. -/
def PskGroup.append (band : PyValue py.Finite) (cols : Columns py.Finite)
    (group : Option (PskGroup py)) : PskGroup py :=
  match group with
  | none => { band, rows := [cols] }
  | some g => { g with rows := g.rows ++ [cols] }

/-- A record in its group. -/
def Groups.add (g : Groups py) (cols : Columns py.Finite) : Filed py → Groups py
  | .skipped => g
  | .psk key band =>
    let receiver := receiverKey key.site key.recv
    { g with
      psk := Table.upsert key (PskGroup.append py band cols (Table.lookup key g.psk)) g.psk
      forward := Table.upsert receiver
        ((Table.lookup receiver g.forward).getD true && forwardFlag py cols) g.forward }
  | .noise key band =>
    { g with
      noise := Table.upsert key (NoiseGroup.replace py band cols (Table.lookup key g.noise))
        g.noise }
  | .spot key band mode =>
    { g with
      spots := Table.upsert key (SpotGroup.append py band mode cols (Table.lookup key g.spots))
        g.spots }

/-- The groups of the records. -/
def groupRecords (up : Uploader) (records : List (Rec py.Finite)) : Except Exn (Groups py) :=
  records.foldlM (fun g r ↦ do
    let filed ← fileRecord py up r
    pure (g.add py r.columns filed)) {}

/-! ## `routing.json` -/

/-- `{"forward_to_pskreporter": flag}`. -/
def flagObject (flag : Bool) : PyValue py.Finite :=
  .dict [(.ofString "forward_to_pskreporter", .bool flag)]

/-- The default flag: that of every receiver where they agree, and else that of the majority. -/
def defaultFlag (forward : List (PyText × Bool)) : Bool :=
  match (forward.map Prod.snd).dedup with
  | [] => true
  | [flag] => flag
  | _ => forward.length ≤ 2 * (forward.filter Prod.snd).length

/-- `sorted(receivers_forward.items())`. -/
def sortedItems (forward : List (PyText × Bool)) : List (PyText × Bool) :=
  forward.mergeSort fun a b ↦ !WsprNet.textLt b.1 a.1

/-- The entries of receivers whose flag is not the default one. -/
def overrides (forward : List (PyText × Bool)) : List (PyText × Bool) :=
  if (forward.map Prod.snd).dedup.length ≤ 1 then []
  else (sortedItems forward).filter fun item ↦ item.2 ≠ defaultFlag forward

/-- `obj["default"][name] = value`. -/
def setDefault (name : String) (value : PyValue py.Finite)
    (obj : List (PyText × PyValue py.Finite)) : List (PyText × PyValue py.Finite) :=
  match Table.lookup (PyText.ofString "default") obj with
  | some (.dict members) =>
    Table.upsert (.ofString "default") (.dict (Table.upsert (.ofString name) value members)) obj
  | _ => obj

/-- A reporter's entry, which a reporter without a call does not have. -/
def setReporter (name : String) (reporter : Option (String × String))
    (obj : List (PyText × PyValue py.Finite)) : List (PyText × PyValue py.Finite) :=
  match reporter with
  | some (call, grid) =>
    if call ≠ "" then
      setDefault py name (.dict [(.ofString "call", .str (.ofString call)),
        (.ofString "grid", .str (.ofString grid))]) obj
    else obj
  | none => obj

/-- `_render_routing_json`, the object. -/
def routingObject (set : Settings) (forward : List (PyText × Bool)) :
    List (PyText × PyValue py.Finite) :=
  let obj := (overrides forward).foldl
    (fun obj item ↦ Table.upsert item.1 (flagObject py item.2) obj)
    [(.ofString "default", flagObject py (defaultFlag forward))]
  let obj := match set.forwardToWsprnet with
    | some flag => setDefault py "forward_to_wsprnet" (.bool flag) obj
    | none => obj
  setReporter py "psk_reporter" set.pskReporter
    (setReporter py "wsprnet_reporter" set.wsprnetReporter obj)

/-! ## Members -/

/-- A member that is made in memory: its name and its content. -/
abbrev Entry : Type := PyText × Bytes

/-- `"\n".join(lines) + "\n"`, encoded. -/
def encodeLines (lines : List PyText) : Except Exn Bytes :=
  PyText.encode (List.intercalate [.scalar '\n'] lines ++ [.scalar '\n'])

/-- `_config_bytes(version)`. -/
def configBytes (version : PyText) : Except Exn Bytes :=
  encodeLines [.ofString "CLIENT_VERSION=" ++ version,
    .ofString "UPLOADS_WSPRNET_LINE_FORMAT_VERSION=1",
    .ofString "UPLOADS_WSPRDAEMON_SPOT_LINE_FORMAT_VERSION=3", .ofString "SIGNAL_LEVEL_UPLOAD=yes"]

/-- `_client_info_bytes(reporter_id, ssh_pubkey)`. -/
def clientInfoBytes (reporterId sshPubkey : PyText) : Except Exn Bytes :=
  encodeLines [.ofString "reporter_id=" ++ reporterId, .ofString "ssh_public_key=" ++ sshPubkey]

/-- What describes the shipment, at the root of the tar. -/
def metadata (set : Settings) : Except Exn (List Entry) := do
  let config ← configBytes set.version
  match set.clientInfo with
  | none => pure [(.ofString "uploads_config.txt", config)]
  | some (reporterId, pubkey) =>
    let info ← clientInfoBytes reporterId pubkey
    pure [(.ofString "uploads_config.txt", config), (.ofString "client_upload_info.txt", info)]

/-- There is a `routing.json`. -/
def hasRouting (set : Settings) (g : Groups py) : Bool :=
  !g.psk.isEmpty || set.forwardToWsprnet.isSome || set.wsprnetReporter.isSome ||
    set.pskReporter.isSome

/-- `routing.json`, where there is one. -/
def routingEntry (set : Settings) (g : Groups py) : Except Exn (List Entry) :=
  if hasRouting py set g then do
    let text ← py.dumps (.dict (routingObject py set g.forward))
    let bytes ← PyText.encode (text ++ [.scalar '\n'])
    pure [(.ofString "routing.json", bytes)]
  else pure []

/-- Parts of a name with a slash between each two. -/
def slashJoin (parts : List PyText) : PyText := List.intercalate [.scalar '/'] parts

/-- Parts of a file's name with an underscore between each two. -/
def underscoreJoin (parts : List PyText) : PyText := List.intercalate [.scalar '_'] parts

/-- The mode is a W mode. -/
def isW (mode : PyText) : Bool := mode.head? = some (.scalar 'W')

/-- The name of a member of spots. -/
def spotName (tarRoot : PyText) (rxId : RxIdentity) (band mode : PyText) (ts : String) : PyText :=
  slashJoin [tarRoot, .ofString "spots", rxId.site, rxId.recv, band,
    underscoreJoin [rxId.recv, band, mode, .ofString ts] ++
      .ofString (if isW mode then "_wd_spots.txt" else "_spots.txt")]

/-- The lines of a group of spots. -/
def spotLines (set : Settings) (rxId : RxIdentity) (mode : PyText)
    (rows : List (Columns py.Finite)) : Except Exn (List PyText) :=
  if isW mode then
    rows.mapM fun r ↦
      formatExtendedLine py r rxId.call rxId.grid (set.forwardToWsprnet.getD false)
  else rows.mapM fun r ↦ formatShortLine py r false

/-- The member of a group of spots. -/
def spotEntry (set : Settings) (group : SpotKey × SpotGroup py) : Except Exn Entry := do
  let (key, g) := group
  let mode ← asText g.mode
  let lines ← spotLines py set key.rxId mode g.rows
  let content ← encodeLines lines
  pure (spotName set.tarRoot key.rxId (py.str g.band) mode key.ts, content)

/-- The name of a member of noise. -/
def noiseName (tarRoot : PyText) (rxId : RxIdentity) (band : PyText) (ts : String) : PyText :=
  slashJoin [tarRoot, .ofString "noise", rxId.site, rxId.recv, band,
    underscoreJoin [rxId.recv, band, .ofString ts] ++ .ofString "_noise.txt"]

/-- The member of a group of noise. -/
def noiseEntry (set : Settings) (group : NoiseKey × NoiseGroup py) : Except Exn Entry := do
  let (key, g) := group
  let line ← formatNoiseLine py g.row
  let content ← encodeLines [line]
  pure (noiseName set.tarRoot key.rxId (py.str g.band) key.ts, content)

/-- The name of a member of psk spots. -/
def pskName (key : PskKey) (band : PyText) : PyText :=
  slashJoin [key.mode, key.site, key.recv, band,
    underscoreJoin [.ofString key.cycle, key.mode] ++ .ofString ".jsonl"]

/-- The member of a group of psk spots, in the order of their times and frequencies. -/
def pskEntry (group : PskKey × PskGroup py) : Except Exn Entry := do
  let (key, g) := group
  let rows ← py.sortRows g.rows
  let lines ← rows.mapM fun c ↦ py.dumps (.dict (c.map fun m ↦ (.ofString m.1, m.2)))
  let content ← encodeLines lines
  pure (pskName key (py.str g.band), content)

/-- The members `build_wsprdaemon_tar_from_records` adds, in order. -/
def buildEntries (up : Uploader) (set : Settings) (records : List (Rec py.Finite)) :
    Except Exn (List Entry) := do
  let g ← groupRecords py up records
  let start ← metadata set
  let routing ← routingEntry py set g
  let spots ← g.spots.mapM (spotEntry py set)
  let noise ← g.noise.mapM (noiseEntry py set)
  let psk ← g.psk.mapM (pskEntry py)
  pure (start ++ routing ++ spots ++ noise ++ psk)

/-! ## Files of a spool -/

/-- `path.name`. -/
def FilePath.name (path : FilePath) : PyText := path.parts.getLastD []

/-- `path.relative_to(root)`, `none` where it raises `ValueError`. -/
def FilePath.relativeTo (path root : FilePath) : Option (List PyText) :=
  if path.absolute = root.absolute && root.parts.isPrefixOf path.parts then
    some (path.parts.drop root.parts.length)
  else none

/-- `rel.as_posix()`. -/
def asPosix (rel : List PyText) : PyText := if rel = [] then .ofString "." else slashJoin rel

/-- The groups of `_NOISE_TS_RE` at the end of a name: two digits of the year and the rest up to
the minute, as digits. -/
def noiseStamp (name : PyText) : Option (PyText × PyText) :=
  let stamp := (name.drop (name.length - 25)).take 15
  let day := stamp.take 8
  let clock := stamp.drop 9
  if name.length < 25 then none
  else if day.all py.isDecimal && stamp[8]? = some (.scalar '_') && clock.all py.isDecimal &&
      name.drop (name.length - 10) = PyText.ofString "_noise.txt" then
    some (day.drop 2, clock.take 4)
  else none

/-- The name of a noise file in the tar: up to the minute. -/
def noiseFileName (name : PyText) : PyText :=
  match noiseStamp py name with
  | some (day, clock) => underscoreJoin [day, clock] ++ .ofString "_noise.txt"
  | none => name

/-- `_arcname_for(path, root, rx_site, tar_root)`. -/
def arcnameFor (path root : FilePath) (rxSite tarRoot : PyText) : PyText :=
  match path.relativeTo root with
  | none => slashJoin [tarRoot, path.name]
  | some rel =>
    let isNoise := (PyText.ofString "_noise.txt").isSuffixOf path.name
    match rel with
    | receiver :: band :: _ :: rest =>
      if isNoise then
        if rest ≠ [] then
          slashJoin [tarRoot, .ofString "noise", rxSite, receiver, band,
            noiseFileName py path.name]
        else slashJoin [tarRoot, asPosix rel]
      else slashJoin [tarRoot, .ofString "spots", rxSite, receiver, band, path.name]
    | _ => slashJoin [tarRoot, asPosix rel]

/-- The name `TarFile.add` gives a member: no slash is left in front. -/
def addedName (arcname : PyText) : PyText := arcname.dropWhile fun c ↦ c = .scalar '/'

end

/-! ## The archive -/

/-- A member of a tar: its name, what its header keeps beside it, and its content. -/
structure Member (Stat : Type) where
  name : PyText
  stat : Stat
  data : Bytes

/-- The first half of a surrogate pair. -/
def isHighSurrogate : PyChar → Bool
  | .scalar _ => false
  | .surrogate n => n.val < 1024

/-- The name ends in a NUL, with which a header is filled up. -/
def EndsInNul (name : PyText) : Prop := name.getLast? = some (.scalar '\x00')

instance (name : PyText) : Decidable (EndsInNul name) := inferInstanceAs (Decidable (_ = _))

/-- `tarfile`, and the two compressors, of which one may not be installed. -/
structure Archiver where
  /-- What a header keeps of a member, beside its name: its time, mode and owner. -/
  Stat : Type
  /-- The header of a member that is made in memory in a second of the clock. -/
  made : ℤ → Stat
  made_injective : Function.Injective made
  /-- The tar of the members, which raises where one cannot be written. -/
  write : List (Member Stat) → Except Exn Bytes
  write_injective : ∀ ms ms' raw, (∀ m ∈ ms, ¬ EndsInNul m.name) →
    (∀ m ∈ ms', ¬ EndsInNul m.name) → write ms = .ok raw → write ms' = .ok raw → ms = ms'
  /-- A name is encoded in UTF-8, where the second half of a pair may stand for a byte. -/
  encodable : ∀ ms raw, write ms = .ok raw → ∀ m ∈ ms, ∀ c ∈ m.name, isHighSurrogate c = false
  /-- `bz2.compress(raw, compresslevel=level)`. -/
  bz2 : ℤ → Bytes → Bytes
  /-- `ZstdCompressor(level=level).compress(raw)`. -/
  zstd : ℤ → Bytes → Except Exn Bytes
  /-- What is unpacked, after a look at the leading bytes. -/
  unpack : Bytes → Bytes
  /-- The leading bytes are those of zstd. -/
  isZstd : Bytes → Bool
  unpack_bz2 : ∀ level raw, unpack (bz2 level raw) = raw
  unpack_zstd : ∀ level raw b, zstd level raw = .ok b → unpack b = raw
  isZstd_bz2 : ∀ level raw, isZstd (bz2 level raw) = false
  isZstd_zstd : ∀ level raw b, zstd level raw = .ok b → isZstd b = true

/-- The members that are made in memory, each in the second at which it is added. -/
def stamped (arch : Archiver) (clock : ℕ → ℤ) (entries : List Entry) : List (Member arch.Stat) :=
  entries.zipIdx.map fun e ↦ ⟨e.1.1, arch.made (clock e.2), e.1.2⟩

/-- `_compress_tar_bytes(raw, compression, level)`. -/
def compressTarBytes (arch : Archiver) (zstdInstalled : Bool) (compression : String) (level : ℤ)
    (raw : Bytes) : Except Exn Bytes :=
  if compression = "zstd" && zstdInstalled then arch.zstd level raw
  else
    let level := if compression = "zstd" then 9 else level
    .ok (arch.bz2 (max 1 (min 9 level)) raw)

end HsUploader.Wsprdaemon
