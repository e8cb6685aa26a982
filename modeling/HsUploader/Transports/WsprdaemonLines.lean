import HsUploader.Sources.WsprCycle
import HsUploader.Transports.WsprNet

/-!
# The lines of a wsprdaemon upload

Spots of a W mode are written to wsprdaemon.org as lines of 34 fields, which carry where the two
stations are and how the path between them runs (`formatExtendedLine`); those of the other modes as
short lines (`formatShortLine`), and a noise row as a line of 15 fields (`formatNoiseLine`).

The formats are lists of conversions (`Cell`), with a blank between each two.  What a float is, how
it is rounded and written, and what the mathematical library makes of it, is the interpreter's, of
which nothing is assumed.
-/

set_option autoImplicit false

namespace HsUploader.Wsprdaemon

open WsprNet (DateTime padLeft padRight floatField intField blankJoin gt)

/-- A `datetime`, as far as a line or a name shows it. -/
structure Moment extends DateTime where
  second : ℕ
  deriving DecidableEq

/-- `t.strftime("%Y%m%d_%H%M%S")`. -/
def Moment.stamp (t : Moment) : String :=
  toString t.year ++ WsprNet.twoDigits t.month ++ WsprNet.twoDigits t.day ++ "_" ++
    WsprNet.twoDigits t.hour ++ WsprNet.twoDigits t.minute ++ WsprNet.twoDigits t.second

/-- What the interpreter and its library make of floats and times, beside what a wsprnet line
needs. -/
structure Interpreter extends WsprNet.Interpreter where
  /-- The float a literal stands for. -/
  lit : ℚ → Finite
  add : PyNumber Finite → PyNumber Finite → PyNumber Finite
  sub : PyNumber Finite → PyNumber Finite → PyNumber Finite
  mul : PyNumber Finite → PyNumber Finite → PyNumber Finite
  div : PyNumber Finite → PyNumber Finite → Except Exn (PyNumber Finite)
  mod : PyNumber Finite → PyNumber Finite → Except Exn (PyNumber Finite)
  /-- `x ** 2`. -/
  square : PyNumber Finite → Except Exn (PyNumber Finite)
  neg : PyNumber Finite → PyNumber Finite
  abs : PyNumber Finite → PyNumber Finite
  radians : PyNumber Finite → PyNumber Finite
  degrees : PyNumber Finite → PyNumber Finite
  sin : PyNumber Finite → Except Exn (PyNumber Finite)
  cos : PyNumber Finite → Except Exn (PyNumber Finite)
  acos : PyNumber Finite → Except Exn (PyNumber Finite)
  sqrt : PyNumber Finite → Except Exn (PyNumber Finite)
  atan2 : PyNumber Finite → PyNumber Finite → PyNumber Finite
  /-- `datetime.fromisoformat(text)`, `none` where it raises `ValueError`. -/
  fromIsoFormat : PyText → Option Moment
  /-- `json.dumps(v, default=str, sort_keys=True)`. -/
  dumps : PyValue Finite → Except Exn PyText
  /-- `sorted(rows, key=lambda c: (c.get("time", ""), c.get("frequency", 0)))`, which raises where
  two keys cannot be compared. -/
  sortRows : List (Columns Finite) → Except Exn (List (Columns Finite))
  /-- The characters that `\d` matches. -/
  isDecimal : PyChar → Bool

/-! ## Texts and columns -/

/-- `s.replace(old, new)` from a place on, `skip` letters of which belong to the last match. -/
def replaceFrom (old new : PyText) : ℕ → PyText → PyText
  | _, [] => []
  | skip + 1, _ :: cs => replaceFrom old new skip cs
  | 0, c :: cs =>
    if old.isPrefixOf (c :: cs) then new ++ replaceFrom old new (old.length - 1) cs
    else c :: replaceFrom old new 0 cs

/-- `s.replace(old, new)`, for an `old` that is not empty. -/
def replace (old new : String) (s : PyText) : PyText :=
  replaceFrom (.ofString old) (.ofString new) 0 s

/-- `cols[name]`. -/
def getItem {F : Type} (cols : Columns F) (name : String) : Except Exn (PyValue F) :=
  match cols.lookup name with
  | some v => .ok v
  | none => .error (.other "KeyError" name)

/-- A value used as a text. -/
def asText {F : Type} : PyValue F → Except Exn PyText
  | .str s => .ok s
  | _ => .error (.attributeError "object has no such attribute")

section

variable (py : Interpreter)

/-- A value used as a float, by an operator or a conversion. -/
def real : PyValue py.Finite → Except Exn (PyNumber py.Finite)
  | .float x => .ok x
  | .int n => WsprNet.float.ofInt py.toInterpreter n
  | .bool b => WsprNet.float.ofInt py.toInterpreter (if b then 1 else 0)
  | _ => .error (.typeError "must be real number")

/-- `cols.get(name) or 0.0`. -/
def orZero (cols : Columns py.Finite) (name : String) : PyValue py.Finite :=
  py.orElse (cols.get name) (.float (.finite py.zero))

/-- `int(cols.get(name) or n)`. -/
def intOr (cols : Columns py.Finite) (name : String) (n : ℤ) : Except Exn ℤ :=
  py.int (py.orElse (cols.get name) (.int n))

/-- `int(round(x))`. -/
def roundInt : PyNumber py.Finite → Except Exn ℤ
  | .finite x => .ok (py.roundInt x)
  | .inf _ => .error (.overflowError "cannot convert float infinity to integer")
  | .nan => .error (.valueError "cannot convert float NaN to integer")

/-- `cols["frequency_hz"] / 1_000_000.0`. -/
def freqMhz (cols : Columns py.Finite) : Except Exn (PyNumber py.Finite) := do
  let hz ← getItem cols "frequency_hz"
  let x ← real py hz
  pure (WsprNet.onFinite py.perMillion x)

/-- `_ts_from_iso(iso)`. -/
def tsFromIso (v : PyValue py.Finite) : Except Exn Moment := do
  let iso ← asText v
  let s := if iso.getLast? = some (.scalar 'Z') then replace "Z" "+00:00" iso else iso
  match py.fromIsoFormat s with
  | some t => pure t
  | none => throw (.valueError "Invalid isoformat string")

/-! ## Where the stations are -/

/-- A float literal. -/
def num (q : ℚ) : PyNumber py.Finite := .finite (py.lit q)

/-- The bands, by the tenths of a megahertz. -/
def bands : List (ℤ × ℤ) :=
  [(1, 2200), (4, 630), (18, 160), (35, 80), (52, 60), (53, 60), (70, 40), (101, 30), (140, 20),
   (181, 17), (210, 15), (249, 12), (281, 10), (502, 6), (700, 4), (1444, 2), (4323, 70),
   (12965, 23)]

/-- `_freq_to_band(freq_mhz)`. -/
def freqToBand (freqMhz : PyNumber py.Finite) : Except Exn ℤ := do
  let freq10 ← py.int (.float (py.mul (num py 10) freqMhz))
  pure ((bands.lookup freq10).getD 9999)

/-- `ord(d[i])`. -/
def ord (d : PyText) (i : ℕ) : Except Exn ℤ :=
  match d[i]? with
  | some c => .ok (WsprNet.code c)
  | none => .error (.other "IndexError" "list index out of range")

/-- `_loc_to_lat_lon(locator)`: the latitude and the longitude. -/
def locToLatLon (locator : PyText) : Except Exn (PyNumber py.Finite × PyNumber py.Finite) := do
  let ofInt := WsprNet.float.ofInt py.toInterpreter
  let d := py.strip locator
  let d₁ ← ord d 1
  let d₃ ← ord d 3
  let lat ← ofInt ((d₁ - 65) * 10 + (d₃ - 48))
  let lat := py.sub (py.add lat (num py (1 / 2))) (num py 90)
  let d₀ ← ord d 0
  let d₂ ← ord d 2
  let lon ← ofInt ((d₀ - 65) * 20 + (d₂ - 48) * 2)
  let lon := py.sub (py.add lon (num py 1)) (num py 180)
  if d.length = 6 then
    let d₄ ← ord d 4
    let d₅ ← ord d 5
    let base := if 88 < d₄ then 96 else 64
    let north ← ofInt (d₅ - base)
    let north ← py.div north (num py 24)
    let half ← py.div (num py 1) (num py 48)
    let east ← ofInt (d₄ - base)
    let east ← py.div east (num py 12)
    let half' ← py.div (num py 1) (num py 24)
    pure (py.sub (py.add (py.sub lat (num py (1 / 2))) north) half,
      py.sub (py.add (py.sub lon (num py 1)) east) half')
  else pure (lat, lon)

/-- What `_derive_geo` returns: the band, the distance, and for each station the azimuth to the
other, its latitude and its longitude; last the vertex of the path. -/
structure Geo where
  band : ℤ
  km : PyNumber py.Finite
  rxAz : PyNumber py.Finite
  rxLat : PyNumber py.Finite
  rxLon : PyNumber py.Finite
  txAz : PyNumber py.Finite
  txLat : PyNumber py.Finite
  txLon : PyNumber py.Finite
  vLat : PyNumber py.Finite
  vLon : PyNumber py.Finite

/-- `_ABSENT`. -/
def absent : PyNumber py.Finite := num py (-999)

/-- `(band,) + (_ABSENT,) * 9`. -/
def Geo.absent (band : ℤ) : Geo py :=
  let a := Wsprdaemon.absent py
  ⟨band, a, a, a, a, a, a, a, a, a⟩

/-- `max(x, y)`. -/
def maxNumber (x y : PyNumber py.Finite) : PyNumber py.Finite :=
  if gt py.toInterpreter y x then y else x

/-- `atan2` in degrees from 0 to 360. -/
def azimuth (y x : PyNumber py.Finite) : Except Exn (PyNumber py.Finite) :=
  py.mod (py.degrees (py.atan2 y x)) (num py 360)

/-- The vertex of the path between two places, `c` being the angle between them. -/
def vertex (phiRx phiTx dLam c txLat txLon rxLat rxLon : PyNumber py.Finite) :
    Except Exn (PyNumber py.Finite × PyNumber py.Finite) := do
  let rad ← if gt py.toInterpreter c (num py (1 / 1000000000)) then do
      let cosRx ← py.cos phiRx
      let cosTx ← py.cos phiTx
      let halfLam ← py.div dLam (num py 2)
      let sinLam ← py.sin halfLam
      let halfC ← py.div c (num py 2)
      let sinC ← py.sin halfC
      let q ← py.div (py.mul (py.mul cosRx cosTx) (py.abs sinLam)) sinC
      py.acos q
    else pure phiRx
  let vLon ← py.div (py.add txLon rxLon) (num py 2)
  let sign := if gt py.toInterpreter txLat rxLat then num py 1 else num py (-1)
  pure (py.mul (py.degrees rad) sign, vLon)

/-- The distance, the azimuths and the vertex, from where the two stations are. -/
def greatCircle (band : ℤ) (txLat txLon rxLat rxLon : PyNumber py.Finite) :
    Except Exn (Geo py) := do
  let phiTx := py.radians txLat
  let lamTx := py.radians txLon
  let phiRx := py.radians rxLat
  let lamRx := py.radians rxLon
  let dPhi := py.sub phiTx phiRx
  let dLam := py.sub lamTx lamRx
  let sinLam ← py.sin dLam
  let cosTx ← py.cos phiTx
  let cosRx ← py.cos phiRx
  let sinTx ← py.sin phiTx
  let sinRx ← py.sin phiRx
  let cosLam ← py.cos dLam
  let y := py.mul sinLam cosTx
  let x := py.sub (py.mul cosRx sinTx) (py.mul (py.mul sinRx cosTx) cosLam)
  let rxAz ← azimuth py y x
  let sinBack ← py.sin (py.neg dLam)
  let cosBack ← py.cos (py.neg dLam)
  let y₂ := py.mul sinBack cosRx
  let x₂ := py.sub (py.mul cosTx sinRx) (py.mul (py.mul sinTx cosRx) cosBack)
  let txAz ← azimuth py y₂ x₂
  let halfPhi ← py.div dPhi (num py 2)
  let sinPhi ← py.sin halfPhi
  let a₁ ← py.square sinPhi
  let halfLam ← py.div dLam (num py 2)
  let sinHalf ← py.sin halfLam
  let a₂ ← py.square sinHalf
  let a := py.add a₁ (py.mul (py.mul cosRx cosTx) a₂)
  let rootA ← py.sqrt (maxNumber py (num py 0) a)
  let rootB ← py.sqrt (maxNumber py (num py 0) (py.sub (num py 1) a))
  let c := py.mul (num py 2) (py.atan2 rootA rootB)
  let km := py.mul (num py 6371) c
  -- `except Exception` around the vertex
  let (vLat, vLon) := (vertex py phiRx phiTx dLam c txLat txLon rxLat rxLon).toOption.getD
    (absent py, absent py)
  pure ⟨band, km, rxAz, rxLat, rxLon, txAz, txLat, txLon, vLat, vLon⟩

/-- `_derive_geo(tx_grid, rx_grid, freq_mhz)`. -/
def deriveGeo (txGrid rxGrid : PyText) (freqMhz : PyNumber py.Finite) : Except Exn (Geo py) := do
  let band ← freqToBand py freqMhz
  if txGrid = [] || py.lower txGrid = .ofString "none" || (py.strip txGrid).length < 4 then
    pure (Geo.absent py band)
  else
    match locToLatLon py txGrid, locToLatLon py rxGrid with
    | .ok (txLat, txLon), .ok (rxLat, rxLon) => greatCircle py band txLat txLon rxLat rxLon
    | _, _ => pure (Geo.absent py band)

/-! ## Formats -/

/-- A conversion of a format, with its width, and what it converts. -/
inductive Cell where
  /-- `%{width}s`. -/
  | left (width : ℕ) (s : PyText)
  /-- `%-{width}s`. -/
  | right (width : ℕ) (s : PyText)
  /-- `%{width}.{places}f`. -/
  | float (width places : ℕ) (x : PyNumber py.Finite)
  /-- `%{width}d`. -/
  | int (width : ℕ) (n : ℤ)

/-- What a conversion writes. -/
def Cell.write : Cell py → Except Exn PyText
  | .left width s => .ok (padLeft width s)
  | .right width s => .ok (padRight width s)
  | .float width places x => .ok (floatField py.toInterpreter width places x)
  | .int width n => intField py.toInterpreter width n

/-- `fmt % values`, for a format with a blank between each two conversions. -/
def format (cells : List (Cell py)) : Except Exn PyText := do
  let parts ← cells.mapM (Cell.write py)
  pure (blankJoin parts)

/-- The numbers of an extended line between the grid and the receiver. -/
structure Counts where
  pwr : ℤ
  drift : ℤ
  cycles : ℤ
  jitter : ℤ
  blocksize : ℤ
  metric : ℤ
  decodetype : ℤ
  ipass : ℤ
  nhardmin : ℤ
  pktMode : ℤ

/-- `_W_EXT_FMT`, up to the callsign. -/
def extHead (t : Moment) (sync snr dt freqMhz : PyNumber py.Finite) : List (Cell py) :=
  [.left 6 (.ofString t.ymd), .left 4 (.ofString t.hm), .float 5 2 sync, .float 6 2 snr,
   .float 5 2 dt, .float 12 7 freqMhz]

/-- `_W_EXT_FMT`, from the grid to the receiver; the noise fields are zero. -/
def extCounts (n : Counts) (band : ℤ) : List (Cell py) :=
  [.int 2 n.pwr, .int 2 n.drift, .int 4 n.cycles, .int 4 n.jitter, .int 4 n.blocksize,
   .int 4 n.metric, .int 2 n.decodetype, .int 3 n.ipass, .int 3 n.nhardmin, .int 2 n.pktMode,
   .float 6 1 (num py 0), .float 6 1 (num py 0), .int 4 band]

/-- `_W_EXT_FMT`, past the receiver; there are no overloads to count. -/
def extTail (geo : Geo py) (km : ℤ) (proxyUpload : Bool) : List (Cell py) :=
  [.int 5 km, .float 6 1 geo.rxAz, .float 6 1 geo.rxLat, .float 6 1 geo.rxLon,
   .float 6 1 geo.txAz, .float 6 1 geo.txLat, .float 6 1 geo.txLon, .float 6 1 geo.vLat,
   .float 6 1 geo.vLon, .int 4 0, .int 4 (if proxyUpload then 1 else 0)]

/-- The numbers of a row. -/
def counts (cols : Columns py.Finite) (drift metric : ℤ) : Except Exn Counts := do
  let power ← getItem cols "pwr_dbm"
  let pwr ← py.int power
  let cycles ← intOr py cols "cycles" 0
  let jitter ← intOr py cols "jitter" 0
  let blocksize ← intOr py cols "blocksize" 0
  let decodetype ← intOr py cols "decodetype" 0
  let ipass ← intOr py cols "ipass" 0
  let nhardmin ← intOr py cols "nhardmin" 0
  let pktMode ← intOr py cols "pkt_mode" 2
  pure { pwr, drift, cycles, jitter, blocksize, metric, decodetype, ipass, nhardmin, pktMode }

/-- `int(round((cols.get(name) or 0.0) * factor))`. -/
def scaled (cols : Columns py.Finite) (name : String) (factor : ℚ) : Except Exn ℤ := do
  let x ← real py (orZero py cols name)
  roundInt py (py.mul x (num py factor))

/-- `_format_extended_line(cols, rx_call, rx_grid, proxy_upload)`. -/
def formatExtendedLine (cols : Columns py.Finite) (rxCall rxGrid : PyText) (proxyUpload : Bool) :
    Except Exn PyText := do
  let time ← getItem cols "time"
  let t ← tsFromIso py time
  let freqMhz ← freqMhz py cols
  let drift ← scaled py cols "drift_hz_per_s" 60
  let metric ← scaled py cols "metric" 1000
  let grid ← asText (py.orElse (cols.get "grid") (.str (.ofString "none")))
  let geo ← deriveGeo py grid rxGrid freqMhz
  let snrDb ← getItem cols "snr_db"
  let snr ← WsprNet.float py.toInterpreter snrDb
  let callsign ← getItem cols "callsign"
  let counts ← counts py cols drift metric
  let km ← roundInt py geo.km
  let sync ← real py (orZero py cols "sync_quality")
  let dt ← real py (orZero py cols "dt")
  format py (extHead py t sync snr dt freqMhz ++ [.right 14 (py.str callsign), .right 6 grid] ++
    extCounts py counts geo.band ++ [.left 6 rxGrid, .left 12 rxCall] ++
    extTail py geo km proxyUpload)

/-- `_format_noise_line(cols)`. -/
def formatNoiseLine (cols : Columns py.Finite) : Except Exn PyText := do
  let rms ← WsprNet.float py.toInterpreter (orZero py cols "rms_noise_dbm")
  let fft ← WsprNet.float py.toInterpreter (orZero py cols "fft_noise_dbm")
  let overloads ← intOr py cols "overload_count" 0
  format py (List.replicate 12 (.float 5 2 (num py 0)) ++ [.float 5 2 rms, .float 5 2 fft,
    .int 0 overloads])

/-- `_format_short_line(cols, w_mode)`. -/
def formatShortLine (cols : Columns py.Finite) (wMode : Bool) : Except Exn PyText := do
  let time ← getItem cols "time"
  let t ← tsFromIso py time
  let freqMhz ← freqMhz py cols
  let grid := py.orElse (cols.get "grid") (.str [])
  let snr ← getItem cols "snr_db"
  let date : Cell py := .right 6 (.ofString t.ymd)
  let time : Cell py := .left 4 (.ofString t.hm)
  if wMode then
    let snr ← py.int snr
    let callsign ← getItem cols "callsign"
    let power ← getItem cols "pwr_dbm"
    let pwr ← py.int power
    let drift ← scaled py cols "drift_hz_per_s" 60
    let ntype ← intOr py cols "pkt_mode" 2
    let sync ← real py (orZero py cols "sync_quality")
    let dt ← real py (orZero py cols "dt")
    format py [date, time, .float 5 2 sync, .int 3 snr, .float 5 2 dt, .float 12 7 freqMhz,
      .right 14 (py.str callsign), .right 6 (py.str grid), .int 2 pwr, .int 2 drift, .int 4 ntype]
  else
    let snr ← WsprNet.float py.toInterpreter snr
    let callsign ← getItem cols "callsign"
    let power ← getItem cols "pwr_dbm"
    let pwr ← py.int power
    let ntype ← intOr py cols "pkt_mode" 3
    let sync ← real py (orZero py cols "sync_quality")
    let dt ← real py (orZero py cols "dt")
    format py [date, time, .float 5 1 sync, .float 3 0 snr, .float 5 2 dt, .float 12 7 freqMhz,
      .right 14 (py.str callsign), .right 6 (py.str grid), .int 2 pwr, .left 2 (.ofString "0"),
      .int 4 ntype]

end

end HsUploader.Wsprdaemon
