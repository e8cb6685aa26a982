import HsUploader.Core.Types
import HsUploader.Payload.PskPskr

/-!
# The PSK Reporter transport

`PskReporterTcp` turns rows into spots, keeps one connection open over its calls and sends the
spots in packets over it.  The network, `os.urandom` and the clock are outside: each answer is a
function of the transport's own steps, so that any failure may come at any of them.  What the
transport tried to send is on record, in `attempts`.
-/

set_option autoImplicit false

namespace HsUploader.PskReporter

open Psk

/-! ## Rows into spots -/

/-- A record, with what `record.time.timestamp()` gives: microseconds, or what it raises. -/
structure Record (F : Type) where
  time : Except Exn ℤ
  columns : Columns F

/-- `StationIdentity`, what a receiver is told by. -/
structure Identity where
  call : PyText
  grid : PyText

/-- The values of a `PskReporterTcp` that its calls read. -/
structure Config where
  decodingSoftware : PyText := .ofString "hs-uploader/0.1"
  antenna : PyText := []
  maxSendAttemptsPerPacket : ℕ := 5
  maxPacketLen : ℤ := maxPacketLenTcp

/-- `_MODE_MAP`. -/
def modeMap : List (PyText × PyText) :=
  [(.ofString "ft8", .ofString "FT8"), (.ofString "ft4", .ofString "FT4"),
   (.ofString "msk144", .ofString "MSK144"), (.ofString "fst4", .ofString "FST4")]

/-- `type(v).__name__`. -/
def typeName {F : Type} : PyValue F → String
  | .none => "NoneType"
  | .bool _ => "bool"
  | .int _ => "int"
  | .float _ => "float"
  | .str _ => "str"
  | .list _ => "list"
  | .dict _ => "dict"

/-- `len(v)`, where it does not raise. -/
def lengthOf {F : Type} : PyValue F → Option ℕ
  | .str s => some s.length
  | .list items => some items.length
  | .dict members => some members.length
  | _ => none

/-- The value of a hexadecimal digit. -/
def hexDigit : PyChar → Option ℕ
  | .scalar c =>
    if '0' ≤ c ∧ c ≤ '9' then some (c.toNat - 48)
    else if 'a' ≤ c ∧ c ≤ 'f' then some (c.toNat - 87)
    else if 'A' ≤ c ∧ c ≤ 'F' then some (c.toNat - 55)
    else none
  | .surrogate _ => none

/-- A blank that `bytes.fromhex` skips. -/
def isBlank : PyChar → Bool
  | .scalar c => c = ' ' || ('\t' ≤ c && c ≤ '\r')
  | .surrogate _ => false

/-- `bytes.fromhex(text)`, `none` where it raises `ValueError`. -/
def fromHex : PyText → Option Bytes
  | [] => some []
  | [c] => if isBlank c then some [] else none
  | c :: d :: rest =>
    if isBlank c then fromHex (d :: rest)
    else
      match hexDigit c, hexDigit d with
      | some high, some low => (fromHex rest).map (UInt8.ofNat (16 * high + low) :: ·)
      | _, _ => none

section Rows

variable (py : Python)

/-- `_mode_for_pskr(mode)`. -/
def modeForPskr : PyValue py.Finite → Except Exn PyText
  | .str mode => .ok ((modeMap.lookup (py.lower mode)).getD (py.upper mode))
  | v => .error (.attributeError ("'" ++ typeName v ++ "' object has no attribute 'lower'"))

/-- The call of a row. -/
def callOf (cols : Columns py.Finite) : PyValue py.Finite :=
  py.orElse (cols.get "tx_call") (py.orElse (cols.get "callsign") (.str []))

/-- The frequency of a row. -/
def freqOf (cols : Columns py.Finite) : PyValue py.Finite :=
  py.orElse (cols.get "frequency") (py.orElse (cols.get "frequency_hz") (.int 0))

/-- The SNR of a row, or the score that stands for it. -/
def snrOf (cols : Columns py.Finite) : PyValue py.Finite :=
  match cols.get "snr_db" with
  | .none => (cols.lookup "score").getD (.int (-128))
  | v => v

/-- `int(snr) if snr is not None else -128`, where a value that is no number counts as -128. -/
def snrInt : PyValue py.Finite → Except Exn ℤ
  | .none => .ok (-128)
  | v =>
    match py.int v with
    | .error (.typeError _) => .ok (-128)
    | .error (.valueError _) => .ok (-128)
    | r => r

/-- The mode of a row. -/
def modeOf (cols : Columns py.Finite) : PyValue py.Finite :=
  py.orElse (cols.get "mode") (.str (.ofString "FT8"))

/-- The locator of a row. -/
def locatorOf (cols : Columns py.Finite) : PyValue py.Finite :=
  py.orElse (cols.get "grid") (py.orElse (cols.get "locator") (.str []))

/-- The message of a row: a text is read as hexadecimal, and one that is not gives no bytes. -/
def messageOf (cols : Columns py.Finite) : Message :=
  let v := cols.get "message_bytes"
  if py.truthy v then
    match v with
    | .str s => .bytes ((fromHex s).getD [])
    | v => .other (typeName v) (lengthOf v)
  else .bytes []

/-- `int(record.time.timestamp())`. -/
def timeOf (record : Record py.Finite) : Except Exn ℤ := do
  let micros ← record.time
  pure (micros.tdiv 1000000)

/-- `_record_to_spot(record)`. -/
def recordToSpot (record : Record py.Finite) : Except Exn (Option Spot) := do
  let cols := record.columns
  let call := callOf py cols
  let freq := freqOf py cols
  if !py.truthy call || !py.truthy freq then
    return none
  let snrDb ← snrInt py (snrOf py cols)
  let mode ← modeForPskr py (modeOf py cols)
  let locator := locatorOf py cols
  let timestamp ← timeOf py record
  let messageBytes := messageOf py cols
  let frequencyHz ← py.int freq
  return some { callsign := py.str call, frequencyHz, snrDb, mode, locator := py.str locator,
                timestamp, messageBytes }

/-- The spots of a batch. -/
def spotsOf (records : List (Record py.Finite)) : Except Exn (List Spot) := do
  let spots ← records.mapM (recordToSpot py)
  pure (spots.filterMap id)

end Rows

/-- `_receiver_info(identity)`. -/
def receiverInfo (cfg : Config) (identity : Identity) : ReceiverInfo where
  callsign := identity.call
  locator := identity.grid
  decodingSoftware := cfg.decodingSoftware
  antenna := cfg.antenna

/-! ## Sending -/

/-- `_Conn`, and which of the connections it is. -/
structure Conn where
  number : ℕ
  sessionId : Bytes
  sequence : ℕ

/-- How an attempt to send a packet ended: `build_packet` raised, or the packet was handed to the
connection, which took all of it or failed. -/
inductive Handing where
  | raised (e : Exn)
  | sent (packet : Bytes)
  | failed (packet : Bytes)

/-- An attempt to send a packet: the connection as it was, what was to be sent, and how it
ended. -/
structure Attempt where
  conn : Conn
  receiver : ReceiverInfo
  chunk : List Bytes
  timestamp : ℤ
  handing : Handing

/-- The network, `os.urandom` and the clock, at each of the transport's steps.  An `OSError` is its
text. -/
structure Outside where
  /-- The socket factory. -/
  connect : ℕ → Except String Unit
  /-- `session_id()`. -/
  sessionId : ℕ → {b : Bytes // b.length = 4}
  /-- `int(time.time())`. -/
  clock : ℕ → ℤ
  /-- `sock.sendall(packet)`. -/
  sendall : ℕ → Except String Unit

/-- The transport between its calls: its connection, the session ids of those it has opened, how
many steps it has made, and its attempts, the oldest first. -/
structure State where
  conn : Option Conn := none
  opened : List Bytes := []
  tick : ℕ := 0
  attempts : List Attempt := []

section Sending

variable (cfg : Config) (o : Outside)

/-- `_close_locked()`. -/
def closeLocked (s : State) : State := { s with conn := none }

/-- `_connect_if_needed_locked()`: the connection there is then, or the `OSError` of the socket
factory. -/
def connectIfNeededLocked (s : State) : Except String Conn × State :=
  match s.conn with
  | some conn => (.ok conn, s)
  | none =>
    match o.connect s.tick with
    | .error text => (.error text, { s with tick := s.tick + 1 })
    | .ok () =>
      let conn : Conn :=
        { number := s.opened.length, sessionId := o.sessionId s.tick, sequence := 0 }
      (.ok conn, { s with conn := some conn
                          opened := s.opened ++ [conn.sessionId]
                          tick := s.tick + 1 })

/-- One attempt at a packet over a connection. -/
def attemptOn (chunk : List Bytes) (receiver : ReceiverInfo) (conn : Conn) (s : State) :
    Handing × State :=
  let timestamp := o.clock s.tick
  let attempt (handing : Handing) : Attempt := { conn, receiver, chunk, timestamp, handing }
  match buildPacket receiver chunk timestamp conn.sequence conn.sessionId with
  | .error e =>
    (.raised e, { s with tick := s.tick + 1, attempts := s.attempts ++ [attempt (.raised e)] })
  | .ok packet =>
    match o.sendall s.tick with
    | .ok () =>
      (.sent packet,
        { s with conn := some { conn with sequence := conn.sequence + chunk.length }
                 tick := s.tick + 1
                 attempts := s.attempts ++ [attempt (.sent packet)] })
    | .error _ =>
      (.failed packet,
        { closeLocked s with tick := s.tick + 1
                             attempts := s.attempts ++ [attempt (.failed packet)] })

/-- The attempts of `_send_one_packet_locked`, of which `left` are left: whether the packet was
sent, and the last error. -/
def sendAttempts (chunk : List Bytes) (receiver : ReceiverInfo) :
    ℕ → String → State → Except Exn (Bool × String) × State
  | 0, lastErr, s => (.ok (false, lastErr), s)
  | left + 1, _, s =>
    let failed (text : String) : String :=
      "send attempt " ++ toString (cfg.maxSendAttemptsPerPacket - left) ++ " failed: " ++ text
    match connectIfNeededLocked o s with
    | (.error text, s) => sendAttempts chunk receiver left (failed text) (closeLocked s)
    | (.ok conn, s) =>
      match attemptOn o chunk receiver conn s with
      | (.raised e, s) => (.error e, s)
      | (.sent _, s) => (.ok (true, ""), s)
      | (.failed _, s') =>
        sendAttempts chunk receiver left
          (failed (match o.sendall s.tick with | .error text => text | .ok () => "")) s'

/-- `_send_one_packet_locked(chunk, receiver)`. -/
def sendOnePacketLocked (chunk : List Bytes) (receiver : ReceiverInfo) (s : State) :
    Except Exn (Bool × String) × State :=
  sendAttempts cfg o chunk receiver cfg.maxSendAttemptsPerPacket "no attempts made" s

/-- The loop of `_send_encoded_chunks` over the chunks. -/
def sendChunks (receiver : ReceiverInfo) : List (List Bytes) → State →
    Except Exn (Outcome Unit) × State
  | [], s => (.ok .acked, s)
  | chunk :: rest, s =>
    if chunk = [] then sendChunks receiver rest s
    else
      match sendOnePacketLocked cfg o chunk receiver s with
      | (.error e, s) => (.error e, s)
      | (.ok (true, _), s) => sendChunks receiver rest s
      | (.ok (false, err), s) => (.ok (.retryLater err), s)

/-- `_send_encoded_chunks(encoded, receiver)`. -/
def sendEncodedChunks (encoded : List Bytes) (receiver : ReceiverInfo) (s : State) :
    Except Exn (Outcome Unit) × State :=
  match chunkSpots encoded cfg.maxPacketLen receiver with
  | .error e => (.error e, s)
  | .ok chunks => sendChunks cfg o receiver chunks s

/-- `_send_spots(spots, receiver)`. -/
def sendSpots (spots : List Spot) (receiver : ReceiverInfo) (s : State) :
    Except Exn (Outcome Unit) × State :=
  match spots.mapM encodeSpot with
  | .error e => (.error e, s)
  | .ok encoded => sendEncodedChunks cfg o encoded receiver s

/-- `ship(batch, identity)`. -/
def ship (py : Python) (records : List (Record py.Finite)) (identity : Identity) (s : State) :
    Except Exn (Outcome Unit) × State :=
  match spotsOf py records with
  | .error e => (.error e, s)
  | .ok spots =>
    if spots = [] then (.ok .acked, s)
    else sendSpots cfg o spots (receiverInfo cfg identity) s

/-! ## The retry blob -/

/-- `_u16(n)`. -/
def u16 (n : ℕ) : Except Exn Bytes := toBytes 2 n

/-- Bytes after their length. -/
def prefixed (b : Bytes) : Except Exn Bytes := do
  let length ← u16 b.length
  pure (length ++ b)

/-- A text after the length of its bytes. -/
def prefixedText (t : PyText) : Except Exn Bytes := do
  let raw ← t.encode
  prefixed raw

/-- The receiver's part of a retry blob. -/
def receiverBlob (rx : ReceiverInfo) : Except Exn Bytes := do
  let callsign ← prefixedText rx.callsign
  let locator ← prefixedText rx.locator
  let software ← prefixedText rx.decodingSoftware
  let antenna ← prefixedText rx.antenna
  pure (callsign ++ locator ++ software ++ antenna)

/-- The retry blob of a receiver's part and encoded spots. -/
def retryBlob (rxBlob : Bytes) (encoded : List Bytes) : Except Exn Bytes := do
  let receiver ← prefixed rxBlob
  let count ← toBytes 4 encoded.length
  let spots ← encoded.mapM prefixed
  pure (receiver ++ count ++ spots.flatten)

/-- `serialize_for_retry(batch, identity)`. -/
def serializeForRetry (py : Python) (records : List (Record py.Finite)) (identity : Identity) :
    Except Exn Bytes := do
  let rxBlob ← receiverBlob (receiverInfo cfg identity)
  let spots ← spotsOf py records
  let encoded ← spots.mapM encodeSpot
  retryBlob rxBlob encoded

/-- The fields `_decode_receiver_blob` reads, of which `left` are left. -/
def decodeFields : ℕ → Bytes → Except Exn (List PyText)
  | 0, _ => .ok []
  | left + 1, blob =>
    if blob = [] then .ok []
    else do
      let length := ofBigEndian (blob.take 2)
      let text ← PyText.decode ((blob.drop 2).take length)
      let rest ← decodeFields left ((blob.drop 2).drop length)
      pure (text :: rest)

/-- `_decode_receiver_blob(blob)`. -/
def decodeReceiverBlob (blob : Bytes) : Except Exn ReceiverInfo := do
  let fields ← decodeFields 4 blob
  pure { callsign := fields.getD 0 [], locator := fields.getD 1 []
         decodingSoftware := fields.getD 2 [], antenna := fields.getD 3 [] }

/-- The spots `replay` reads, of which `left` are left. -/
def decodeSpots : ℕ → Bytes → List Bytes
  | 0, _ => []
  | left + 1, blob =>
    let length := ofBigEndian (blob.take 2)
    (blob.drop 2).take length :: decodeSpots left ((blob.drop 2).drop length)

/-- The receiver's part that `replay` cuts out of a blob. -/
def receiverPart (blob : Bytes) : Bytes := (blob.drop 2).take (ofBigEndian (blob.take 2))

/-- What `replay` cuts off behind the receiver's part. -/
def spotsPart (blob : Bytes) : Bytes := (blob.drop 2).drop (ofBigEndian (blob.take 2))

/-- The text of an exception. -/
def exnText : Exn → String
  | .valueError m => m
  | .attributeError m => m
  | .typeError m => m
  | .runtimeError m => m
  | .overflowError m => m
  | .operationalError m => m
  | .other _ m => m

/-- `replay(payload_blob, identity)`. -/
def replay (blob : Bytes) (s : State) : Except Exn (Outcome Unit) × State :=
  match decodeReceiverBlob (receiverPart blob) with
  | .error e => (.ok (.permanentFailure ("could not decode retry blob: " ++ exnText e)), s)
  | .ok receiver =>
    let encoded := decodeSpots (ofBigEndian ((spotsPart blob).take 4)) ((spotsPart blob).drop 4)
    if encoded = [] then (.ok .acked, s)
    else sendEncodedChunks cfg o encoded receiver s

/-! ## Runs -/

/-- A call of the transport. -/
inductive Call (F : Type) where
  | ship (records : List (Record F)) (identity : Identity)
  | replay (blob : Bytes)
  | close

/-- The transport after a call, whether it returned or raised. -/
def afterCall (py : Python) (s : State) : Call py.Finite → State
  | .ship records identity => (ship cfg o py records identity s).2
  | .replay blob => (replay cfg o blob s).2
  | .close => closeLocked s

/-- The transport after calls. -/
def after (py : Python) (calls : List (Call py.Finite)) : State :=
  calls.foldl (afterCall cfg o py) {}

end Sending

end HsUploader.PskReporter
