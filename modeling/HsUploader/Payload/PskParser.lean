import Mathlib.Algebra.GroupWithZero.Nat
import HsUploader.Library.Reader
import HsUploader.Payload.PskChunks

/-!
# Reading a packet back

A reader of IPFIX-style packets that knows of the layout of a block only what the templates in the
packet say: set 2 declares templates, set 3 option templates, and every other set holds records of
the template it is named after.  A field of length 0xFFFF is one byte of length and as many bytes
as that, as the encoder's "length-prefixed".  What is left of a set and is shorter than any record
of its template is padding.
-/

set_option autoImplicit false

namespace HsUploader.Psk

open Reader

/-! ## The reader -/

/-- A field of a template. -/
structure FieldSpec where
  element : ℕ
  length : ℕ
  deriving DecidableEq

/-- The length that declares a field of variable length. -/
def variableLength : ℕ := 0xFFFF

/-- A template: the set its records are in and their fields in order. -/
structure Template where
  id : ℕ
  fields : List FieldSpec
  deriving DecidableEq

/-- A record: the set it was in and its fields' values. -/
structure Record where
  id : ℕ
  values : List (ℕ × Bytes)

/-- The bytes a field has at least. -/
def FieldSpec.least (f : FieldSpec) : ℕ := if f.length = variableLength then 1 else f.length

/-- The bytes a record has at least. -/
def Template.least (t : Template) : ℕ := (t.fields.map FieldSpec.least).sum

/-- A field of a template, with the number of its enterprise behind it when its highest bit is
set. -/
def fieldSpec : Reader UInt8 FieldSpec := do
  let element ← number 2
  let length ← number 2
  if 0x8000 ≤ element then
    let _ ← number 4
    pure ⟨element, length⟩
  else pure ⟨element, length⟩

/-- A template. -/
def template : Reader UInt8 Template := do
  let id ← number 2
  let count ← number 2
  let fields ← (List.range count).mapM fun _ ↦ fieldSpec
  pure ⟨id, fields⟩

/-- An option template, which says after its fields' number how many of them are its scope. -/
def optionTemplate : Reader UInt8 Template := do
  let id ← number 2
  let count ← number 2
  let _ ← number 2
  let fields ← (List.range count).mapM fun _ ↦ fieldSpec
  pure ⟨id, fields⟩

/-- The value of a field. -/
def fieldValue (f : FieldSpec) : Reader UInt8 (ℕ × Bytes) :=
  if f.length = variableLength then do
    let n ← number 1
    let value ← take n
    pure (f.element, value)
  else do
    let value ← take f.length
    pure (f.element, value)

/-- A record of a template. -/
def record (t : Template) : Reader UInt8 Record := do
  let values ← t.fields.mapM fieldValue
  pure ⟨t.id, values⟩

/-- A set: its number and what is in it. -/
def dataSet : Reader UInt8 (ℕ × Bytes) := do
  let id ← number 2
  let length ← number 2
  let content ← take (length - 4)
  pure (id, content)

/-- The records of sets, with the templates declared so far. -/
def readSets : List Template → List (ℕ × Bytes) → Option (List Record)
  | _, [] => some []
  | ts, (2, content) :: sets => do
    let new ← many 4 template content
    readSets (new ++ ts) sets
  | ts, (3, content) :: sets => do
    let new ← many 6 optionTemplate content
    readSets (new ++ ts) sets
  | ts, (id, content) :: sets => do
    let t ← ts.find? (·.id = id)
    let records ← many t.least (record t) content
    let more ← readSets ts sets
    pure (records ++ more)

/-- A packet: its version is 10, and it is as long as it says. -/
def readPacket (b : Bytes) : Option (List Record) := do
  let (version, b₁) ← (number 2).run b
  let (length, b₂) ← (number 2).run b₁
  let (_, body) ← (take 12).run b₂
  if version = 10 ∧ length = b.length then
    let sets ← many 4 dataSet body
    readSets [] sets
  else none

/-! ## What the elements say -/

/-- The bytes of an element. -/
def Record.bytes (r : Record) (element : ℕ) : Option Bytes := r.values.lookup element

/-- The text of an element. -/
def Record.text (r : Record) (element : ℕ) : Option PyText := do
  let raw ← r.bytes element
  (PyText.decode raw).toOption

/-- The number of an element. -/
def Record.number (r : Record) (element : ℕ) : Option ℕ := (r.bytes element).map ofBigEndian

/-- A byte in two's complement. -/
def signed (n : ℕ) : ℤ := if n < 128 then n else n - 256

/-- The spot of a record. -/
def spotOf (r : Record) : Option Spot := do
  let callsign ← r.text 0x8001
  let frequencyHz ← r.number 0x8005
  let snr ← r.number 0x8006
  let mode ← r.text 0x800A
  let locator ← r.text 0x8003
  let timestamp ← r.number 0x0096
  let message ← r.bytes 0x800E
  pure { callsign, frequencyHz, snrDb := signed snr, mode, locator, timestamp,
         messageBytes := .bytes message }

/-- The receiver of a record. -/
def receiverOf (r : Record) : Option ReceiverInfo := do
  let callsign ← r.text 0x8002
  let locator ← r.text 0x8004
  let decodingSoftware ← r.text 0x8008
  let antenna ← r.text 0x8009
  pure { callsign, locator, decodingSoftware, antenna }

/-- The receivers and the spots of a packet. -/
def decodePacket (b : Bytes) : Option (List ReceiverInfo × List Spot) := do
  let records ← readPacket b
  let receivers ← (records.filter (·.id = 0x9992)).mapM receiverOf
  let spots ← (records.filter (·.id = 0x9994)).mapM spotOf
  pure (receivers, spots)

/-! ## Fields -/

/-- A text that is written whole. -/
def ShortText (t : PyText) : Prop := ∃ raw, t.encode = .ok raw ∧ raw.length ≤ 255

/-- The bytes of a text. -/
def rawText (t : PyText) : Bytes := t.encode.toOption.getD []

theorem ShortText.encode {t : PyText} (h : ShortText t) : t.encode = .ok (rawText t) := by
  obtain ⟨raw, hraw, -⟩ := h
  rw [rawText, hraw]
  rfl

theorem ShortText.length_le {t : PyText} (h : ShortText t) : (rawText t).length ≤ 255 := by
  obtain ⟨raw, hraw, hlen⟩ := h
  rw [rawText, hraw]
  exact hlen

theorem ShortText.encStr {t : PyText} (h : ShortText t) :
    encStr t = .ok (counted (rawText t)) := by
  rw [Psk.encStr, h.encode]
  rfl

theorem counted_eq {raw : Bytes} (h : raw.length ≤ 255) :
    counted raw = bigEndian 1 raw.length ++ raw := by
  rw [counted, List.take_of_length_le h]
  rfl

theorem reads_variable {element : ℕ} {raw : Bytes} (h : raw.length ≤ 255) :
    Reads (fieldValue ⟨element, 0xFFFF⟩) (counted raw) (element, raw) := by
  have hvariable : (⟨element, 0xFFFF⟩ : FieldSpec).length = variableLength := rfl
  rw [counted_eq h, fieldValue, if_pos hvariable]
  exact (reads_number (by omega)).bind (reads_take rfl).bind_pure

theorem reads_fixed {element n : ℕ} {raw : Bytes} (hn : n ≠ 0xFFFF) (h : raw.length = n) :
    Reads (fieldValue ⟨element, n⟩) raw (element, raw) := by
  have hfixed : ¬ (⟨element, n⟩ : FieldSpec).length = variableLength := hn
  rw [fieldValue, if_neg hfixed]
  exact (reads_take h).bind_pure

theorem signed_i8 (n : ℤ) : signed (ofBigEndian (i8 n)) = max (-128) (min 127 n) := by
  have hbyte : ofBigEndian (i8 n) = ((max (-128) (min 127 n)) % 256).toNat := by
    have := ofBigEndian_bigEndian (w := 1) (n := ((max (-128) (min 127 n)) % 256).toNat) (by omega)
    exact this
  rw [hbyte, signed]
  split_ifs <;> omega

/-! ## The templates of a packet -/

/-- The template of the receiver. -/
def receiverTemplate : Template where
  id := 0x9992
  fields := [⟨0x8002, 0xFFFF⟩, ⟨0x8004, 0xFFFF⟩, ⟨0x8008, 0xFFFF⟩, ⟨0x8009, 0xFFFF⟩]

/-- The template of the spots. -/
def senderTemplate : Template where
  id := 0x9994
  fields := [⟨0x8001, 0xFFFF⟩, ⟨0x8005, 4⟩, ⟨0x8006, 1⟩, ⟨0x800A, 0xFFFF⟩, ⟨0x8003, 0xFFFF⟩,
    ⟨0x800B, 1⟩, ⟨0x0096, 4⟩, ⟨0x800E, 0xFFFF⟩]

theorem many_optionTemplate :
    many 6 optionTemplate (receiverInfoHeader.drop 4) = some [receiverTemplate] := by
  decide

theorem many_template : many 4 template (senderInfoHeader.drop 4) = some [senderTemplate] := by
  decide

/-! ## Records -/

/-- A spot whose fields are all written whole. -/
structure Spot.Short (s : Spot) : Prop where
  callsign : ShortText s.callsign
  frequency : 0 ≤ s.frequencyHz ∧ s.frequencyHz < 2 ^ 32
  mode : ShortText s.mode
  locator : ShortText s.locator
  timestamp : 0 ≤ s.timestamp ∧ s.timestamp < 2 ^ 32
  message : ∃ raw, s.messageBytes = .bytes raw ∧ raw.length ≤ 255

/-- A receiver whose strings are all written whole. -/
structure ReceiverInfo.Short (rx : ReceiverInfo) : Prop where
  callsign : ShortText rx.callsign
  locator : ShortText rx.locator
  software : ShortText rx.decodingSoftware
  antenna : ShortText rx.antenna

/-- The spot with its SNR clamped to -128..127. -/
def Spot.clamped (s : Spot) : Spot := { s with snrDb := max (-128) (min 127 s.snrDb) }

/-- The bytes of a spot's message. -/
def Spot.rawMessage (s : Spot) : Bytes :=
  match s.messageBytes with
  | .bytes b => b
  | .other _ _ => []

/-- The record of a spot. -/
def spotRecord (s : Spot) : Record where
  id := 0x9994
  values :=
    [(0x8001, rawText s.callsign), (0x8005, bigEndian 4 s.frequencyHz.toNat), (0x8006, i8 s.snrDb),
     (0x800A, rawText s.mode), (0x8003, rawText s.locator), (0x800B, [0x01]),
     (0x0096, bigEndian 4 s.timestamp.toNat), (0x800E, s.rawMessage)]

/-- The bytes of a spot. -/
def spotBytes (s : Spot) : Bytes :=
  counted (rawText s.callsign) ++ bigEndian 4 s.frequencyHz.toNat ++ i8 s.snrDb ++
    counted (rawText s.mode) ++ counted (rawText s.locator) ++ [0x01] ++
    bigEndian 4 s.timestamp.toNat ++ counted s.rawMessage

/-- The record of a receiver. -/
def receiverRecord (rx : ReceiverInfo) : Record where
  id := 0x9992
  values :=
    [(0x8002, rawText rx.callsign), (0x8004, rawText rx.locator),
     (0x8008, rawText rx.decodingSoftware), (0x8009, rawText rx.antenna)]

/-- The strings of a receiver. -/
def receiverText (rx : ReceiverInfo) : ReceiverText where
  callsign := counted (rawText rx.callsign)
  locator := counted (rawText rx.locator)
  software := counted (rawText rx.decodingSoftware)
  antenna := counted (rawText rx.antenna)

theorem Spot.Short.rawMessage {s : Spot} (h : s.Short) :
    s.messageBytes = .bytes s.rawMessage ∧ s.rawMessage.length ≤ 255 := by
  obtain ⟨raw, hraw, hlen⟩ := h.message
  rw [Spot.rawMessage, hraw]
  exact ⟨rfl, hlen⟩

theorem encodeSpot_of_short {s : Spot} (h : s.Short) : encodeSpot s = .ok (spotBytes s) := by
  have hfreq : toBytes 4 s.frequencyHz = .ok (bigEndian 4 s.frequencyHz.toNat) :=
    toBytes_eq_ok.mpr ⟨h.frequency.1, h.frequency.2, rfl⟩
  have htime : toBytes 4 s.timestamp = .ok (bigEndian 4 s.timestamp.toNat) :=
    toBytes_eq_ok.mpr ⟨h.timestamp.1, h.timestamp.2, rfl⟩
  have hmessage : encBytes s.messageBytes = .ok (counted s.rawMessage) :=
    encBytes_eq_ok.mpr ⟨_, h.rawMessage.1, rfl⟩
  rw [encodeSpot, h.callsign.encStr, hfreq, h.mode.encStr, h.locator.encStr, htime, hmessage]
  rfl

theorem reads_spotRecord {s : Spot} (h : s.Short) :
    Reads (record senderTemplate) (spotBytes s) (spotRecord s) := by
  have hvalues : Reads (senderTemplate.fields.mapM fieldValue)
      (counted (rawText s.callsign) ++ (bigEndian 4 s.frequencyHz.toNat ++ (i8 s.snrDb ++
        (counted (rawText s.mode) ++ (counted (rawText s.locator) ++ ([0x01] ++
          (bigEndian 4 s.timestamp.toNat ++ (counted s.rawMessage ++ []))))))))
      (spotRecord s).values :=
    (reads_variable h.callsign.length_le).mapM_cons <|
    (reads_fixed (by decide) (length_bigEndian 4 _)).mapM_cons <|
    (reads_fixed (n := 1) (by decide) rfl).mapM_cons <|
    (reads_variable h.mode.length_le).mapM_cons <|
    (reads_variable h.locator.length_le).mapM_cons <|
    (reads_fixed (n := 1) (by decide) rfl).mapM_cons <|
    (reads_fixed (by decide) (length_bigEndian 4 _)).mapM_cons <|
    (reads_variable h.rawMessage.2).mapM_cons <| Reads.mapM_nil _
  refine Reads.of_eq
    (hvalues.bind_pure (f := fun values ↦ (⟨senderTemplate.id, values⟩ : Record))) ?_
  simp only [spotBytes, List.append_assoc, List.append_nil]

theorem reads_receiverRecord {rx : ReceiverInfo} (h : rx.Short) :
    Reads (record receiverTemplate) (receiverText rx).body (receiverRecord rx) := by
  have hvalues : Reads (receiverTemplate.fields.mapM fieldValue)
      (counted (rawText rx.callsign) ++ (counted (rawText rx.locator) ++
        (counted (rawText rx.decodingSoftware) ++ (counted (rawText rx.antenna) ++ []))))
      (receiverRecord rx).values :=
    (reads_variable h.callsign.length_le).mapM_cons <|
    (reads_variable h.locator.length_le).mapM_cons <|
    (reads_variable h.software.length_le).mapM_cons <|
    (reads_variable h.antenna.length_le).mapM_cons <| Reads.mapM_nil _
  refine Reads.of_eq
    (hvalues.bind_pure (f := fun values ↦ (⟨receiverTemplate.id, values⟩ : Record))) ?_
  simp only [ReceiverText.body, receiverText, List.append_assoc, List.append_nil]

theorem text_eq {r : Record} {element : ℕ} {t : PyText} (ht : ShortText t)
    (h : r.bytes element = some (rawText t)) : r.text element = some t := by
  rw [Record.text, h, Option.bind_eq_bind, Option.bind_some, PyText.decode_encode ht.encode]
  rfl

theorem number_eq {r : Record} {element : ℕ} {n : ℤ} (hn : n < 2 ^ 32)
    (h : r.bytes element = some (bigEndian 4 n.toNat)) : r.number element = some n.toNat := by
  rw [Record.number, h, Option.map_some, ofBigEndian_bigEndian (by omega)]

theorem spotOf_spotRecord {s : Spot} (h : s.Short) : spotOf (spotRecord s) = some s.clamped := by
  have hcall : (spotRecord s).text 0x8001 = some s.callsign := text_eq h.callsign rfl
  have hmode : (spotRecord s).text 0x800A = some s.mode := text_eq h.mode rfl
  have hlocator : (spotRecord s).text 0x8003 = some s.locator := text_eq h.locator rfl
  have hfreq : (spotRecord s).number 0x8005 = some s.frequencyHz.toNat :=
    number_eq h.frequency.2 rfl
  have htime : (spotRecord s).number 0x0096 = some s.timestamp.toNat := number_eq h.timestamp.2 rfl
  have hsnr : (spotRecord s).number 0x8006 = some (ofBigEndian (i8 s.snrDb)) := rfl
  have hmessage : (spotRecord s).bytes 0x800E = some s.rawMessage := rfl
  rw [spotOf, hcall, hfreq, hsnr, hmode, hlocator, htime, hmessage]
  simp only [Option.bind_eq_bind, Option.bind_some, signed_i8, Int.toNat_of_nonneg h.frequency.1,
    Int.toNat_of_nonneg h.timestamp.1, ← h.rawMessage.1]
  rfl

theorem receiverOf_receiverRecord {rx : ReceiverInfo} (h : rx.Short) :
    receiverOf (receiverRecord rx) = some rx := by
  have hcall : (receiverRecord rx).text 0x8002 = some rx.callsign := text_eq h.callsign rfl
  have hlocator : (receiverRecord rx).text 0x8004 = some rx.locator := text_eq h.locator rfl
  have hsoftware : (receiverRecord rx).text 0x8008 = some rx.decodingSoftware :=
    text_eq h.software rfl
  have hantenna : (receiverRecord rx).text 0x8009 = some rx.antenna := text_eq h.antenna rfl
  rw [receiverOf, hcall, hlocator, hsoftware, hantenna]
  rfl

/-! ## Packets -/

/-- The bytes of a set. -/
def setBytes (x : ℕ × Bytes) : Bytes :=
  bigEndian 2 x.1 ++ (bigEndian 2 (x.2.length + 4) ++ x.2)

theorem reads_dataSet {x : ℕ × Bytes} (hid : x.1 < 65536) (hlen : x.2.length + 4 < 65536) :
    Reads dataSet (setBytes x) x := by
  refine (reads_number (by omega)).bind ((reads_number (by omega)).bind ?_)
  exact (reads_take (by omega)).bind_pure

theorem many_record_receiver {rx : ReceiverInfo} (h : rx.Short) :
    many receiverTemplate.least (record receiverTemplate) (pad (receiverText rx).body 4) =
      some [receiverRecord rx] := by
  have hone : (([rx].map fun rx ↦ (receiverText rx).body).flatten ++
      List.replicate ((-((receiverText rx).body.length : ℤ)) % 4).toNat 0) =
        pad (receiverText rx).body 4 := by
    rw [List.map_singleton, List.flatten_singleton]
    rfl
  rw [← hone]
  refine many_eq (by decide) (fun x hx ↦ ?_) (fun x _ ↦ ?_) ?_
  · obtain rfl := List.mem_singleton.mp hx
    exact reads_receiverRecord h
  · simp only [ReceiverText.body, receiverText, List.length_append, length_counted,
      show receiverTemplate.least = 4 from rfl]
    omega
  · rw [List.length_replicate, show receiverTemplate.least = 4 from rfl]
    omega

theorem many_record_sender {spots : List Spot} (h : ∀ s ∈ spots, s.Short) :
    many senderTemplate.least (record senderTemplate) (pad (spots.map spotBytes).flatten 4) =
      some (spots.map spotRecord) := by
  refine many_eq (by decide) (fun s hs ↦ reads_spotRecord (h s hs)) (fun s _ ↦ ?_) ?_
  · simp only [spotBytes, List.length_append, length_bigEndian, length_counted, i8,
      List.length_singleton, show senderTemplate.least = 14 from rfl]
    omega
  · rw [List.length_replicate, show senderTemplate.least = 14 from rfl]
    omega

theorem readSets_data {ts : List Template} {id : ℕ} {content : Bytes} {sets : List (ℕ × Bytes)}
    {t : Template} {records more : List Record} (h₂ : id ≠ 2) (h₃ : id ≠ 3)
    (ht : ts.find? (·.id = id) = some t) (hrecords : many t.least (record t) content = some records)
    (hmore : readSets ts sets = some more) :
    readSets ts ((id, content) :: sets) = some (records ++ more) := by
  rw [readSets, ht, Option.bind_eq_bind, Option.bind_some, hrecords, Option.bind_eq_bind,
    Option.bind_some, hmore]
  · rfl
  · exact h₂
  · exact h₃

/-- The sets of a packet. -/
def packetSets (rx : ReceiverInfo) (spots : List Spot) : List (ℕ × Bytes) :=
  [(3, receiverInfoHeader.drop 4), (2, senderInfoHeader.drop 4),
   (0x9992, pad (receiverText rx).body 4), (0x9994, pad (spots.map spotBytes).flatten 4)]

theorem readSets_packetSets {rx : ReceiverInfo} (hrx : rx.Short) {spots : List Spot}
    (hspots : ∀ s ∈ spots, s.Short) :
    readSets [] (packetSets rx spots) = some (receiverRecord rx :: spots.map spotRecord) := by
  have hsender : readSets [senderTemplate, receiverTemplate]
      [(0x9994, pad (spots.map spotBytes).flatten 4)] = some (spots.map spotRecord ++ []) :=
    readSets_data (by decide) (by decide) rfl (many_record_sender hspots) rfl
  have hreceiver := readSets_data (by decide : 0x9992 ≠ 2) (by decide) rfl
    (many_record_receiver hrx) hsender
  rw [packetSets, readSets, many_optionTemplate, Option.bind_eq_bind, Option.bind_some, readSets,
    many_template, Option.bind_eq_bind, Option.bind_some]
  rw [List.append_nil] at hreceiver
  exact hreceiver

theorem packetBody_eq (rx : ReceiverInfo) (spots : List Spot) :
    packetBody (receiverText rx).block (spots.map spotBytes) =
      ((packetSets rx spots).map setBytes).flatten := by
  have hreceiver : setBytes (3, receiverInfoHeader.drop 4) = receiverInfoHeader := by
    decide
  have hsender : setBytes (2, senderInfoHeader.drop 4) = senderInfoHeader := by decide
  rw [packetSets, List.map_cons, List.map_cons, hreceiver, hsender]
  simp only [packetBody, ReceiverText.block, senderBlock, setBytes, List.map_cons, List.map_nil,
    List.flatten_cons, List.flatten_nil, List.append_nil, List.append_assoc]
  rfl

theorem readPacket_packet {rx : ReceiverInfo} (hrx : rx.Short) {spots : List Spot}
    (hspots : ∀ s ∈ spots, s.Short)
    (hlen : 16 + (packetBody (receiverText rx).block (spots.map spotBytes)).length < 65536)
    (timestamp sequence : ℕ) {sessionId : Bytes} (hid : sessionId.length = 4) :
    readPacket (packet (receiverText rx).block (spots.map spotBytes) timestamp sequence sessionId) =
      some (receiverRecord rx :: spots.map spotRecord) := by
  have hsets : many 4 dataSet (packetBody (receiverText rx).block (spots.map spotBytes)) =
      some (packetSets rx spots) := by
    rw [packetBody_eq] at hlen ⊢
    have hmany : many 4 dataSet (((packetSets rx spots).map setBytes).flatten ++ []) =
        some ((packetSets rx spots).map id) := by
      refine many_eq (by decide) (fun x hx ↦ ?_) (fun x _ ↦ ?_) (by decide)
      · have hshort : (setBytes x).length ≤ ((packetSets rx spots).map setBytes).flatten.length :=
          (List.sublist_flatten_of_mem (List.mem_map_of_mem hx)).length_le
        have hx' : (setBytes x).length = x.2.length + 4 := by
          simp only [setBytes, List.length_append, length_bigEndian]
          omega
        refine reads_dataSet ?_ (by omega)
        simp only [packetSets, List.mem_cons, List.not_mem_nil, or_false] at hx
        rcases hx with rfl | rfl | rfl | rfl <;> dsimp only <;> omega
      · simp only [setBytes, List.length_append, length_bigEndian]
        omega
    rwa [List.append_nil, List.map_id] at hmany
  obtain ⟨total, htotal⟩ :
      ∃ n, n = 16 + (packetBody (receiverText rx).block (spots.map spotBytes)).length := ⟨_, rfl⟩
  have hlength : (packet (receiverText rx).block (spots.map spotBytes) timestamp sequence
      sessionId).length = total := by
    simp only [packet, List.length_append, length_bigEndian, hid, htotal]
    rfl
  have hparts : packet (receiverText rx).block (spots.map spotBytes) timestamp sequence sessionId =
      bigEndian 2 10 ++ (bigEndian 2 total ++ ((bigEndian 4 timestamp ++ bigEndian 4 sequence ++
        sessionId) ++ packetBody (receiverText rx).block (spots.map spotBytes))) := by
    simp only [packet, List.append_assoc, htotal]
    rfl
  have hhead : (bigEndian 4 timestamp ++ bigEndian 4 sequence ++ sessionId).length = 12 := by
    simp only [List.length_append, length_bigEndian, hid]
  rw [readPacket, hlength, hparts, reads_number (by decide), Option.bind_eq_bind, Option.bind_some]
  dsimp only
  rw [reads_number (by omega), Option.bind_eq_bind, Option.bind_some]
  dsimp only
  rw [reads_take hhead, Option.bind_eq_bind, Option.bind_some]
  dsimp only
  rw [if_pos ⟨rfl, rfl⟩, hsets, Option.bind_some, readSets_packetSets hrx hspots]

/-- What a packet decodes to. -/
theorem decodePacket_packet {rx : ReceiverInfo} (hrx : rx.Short) {spots : List Spot}
    (hspots : ∀ s ∈ spots, s.Short)
    (hlen : 16 + (packetBody (receiverText rx).block (spots.map spotBytes)).length < 65536)
    (timestamp sequence : ℕ) {sessionId : Bytes} (hid : sessionId.length = 4) :
    decodePacket (packet (receiverText rx).block (spots.map spotBytes) timestamp sequence
      sessionId) = some ([rx], spots.map Spot.clamped) := by
  have hreceivers : (receiverRecord rx :: spots.map spotRecord).filter (·.id = 0x9992) =
      [receiverRecord rx] := by
    rw [List.filter_cons_of_pos (by rfl), List.filter_eq_nil_iff.mpr]
    intro r hr
    obtain ⟨s, -, rfl⟩ := List.mem_map.mp hr
    exact Bool.false_ne_true
  have hsenders : (receiverRecord rx :: spots.map spotRecord).filter (·.id = 0x9994) =
      spots.map spotRecord := by
    rw [List.filter_cons_of_neg Bool.false_ne_true, List.filter_eq_self]
    intro r hr
    obtain ⟨s, -, rfl⟩ := List.mem_map.mp hr
    rfl
  have hspotsOf : (spots.map spotRecord).mapM spotOf = some (spots.map Spot.clamped) := by
    clear hlen hreceivers hsenders
    induction spots with
    | nil => rfl
    | cons s spots ih =>
      rw [List.map_cons, List.mapM_cons, spotOf_spotRecord (hspots s List.mem_cons_self),
        ih fun s hs ↦ hspots s (List.mem_cons_of_mem _ hs)]
      rfl
  rw [decodePacket, readPacket_packet hrx hspots hlen timestamp sequence hid, Option.bind_eq_bind,
    Option.bind_some, hreceivers, hsenders, hspotsOf, List.mapM_cons,
    receiverOf_receiverRecord hrx]
  rfl

theorem mapM_encodeSpot {spots : List Spot} (h : ∀ s ∈ spots, s.Short) :
    spots.mapM encodeSpot = .ok (spots.map spotBytes) := by
  induction spots with
  | nil => rfl
  | cons s spots ih =>
    rw [List.mapM_cons, encodeSpot_of_short (h s List.mem_cons_self),
      ih fun s hs ↦ h s (List.mem_cons_of_mem _ hs)]
    rfl

/-- **A packet decodes to what was encoded**: spots whose fields are within the format are all
encoded, a packet is made of them exactly when it is shorter than 65536 bytes, and from the packet
the templates give back the receiver and just these spots. -/
theorem decodePacket_buildPacket {rx : ReceiverInfo} (hrx : rx.Short) {spots : List Spot}
    (hspots : ∀ s ∈ spots, s.Short) {timestamp sequence : ℤ}
    (htime : 0 ≤ timestamp ∧ timestamp < 2 ^ 32) (hseq : 0 ≤ sequence ∧ sequence < 2 ^ 32)
    {sessionId : Bytes} (hid : sessionId.length = 4) :
    ∃ encoded rxInfo, spots.mapM encodeSpot = .ok encoded ∧ encodeReceiverInfo rx = .ok rxInfo ∧
      ((∃ out, buildPacket rx encoded timestamp sequence sessionId = .ok out) ↔
        overhead rxInfo + (pad encoded.flatten 4).length < 65536) ∧
      ∀ out, buildPacket rx encoded timestamp sequence sessionId = .ok out →
        decodePacket out = some ([rx], spots.map Spot.clamped) := by
  have hrxInfo : encodeReceiverInfo rx = .ok (receiverText rx).block :=
    encodeReceiverInfo_eq_ok.mpr ⟨_, { callsign := hrx.callsign.encStr
                                       locator := hrx.locator.encStr
                                       software := hrx.software.encStr
                                       antenna := hrx.antenna.encStr }, rfl⟩
  have hlen : overhead (receiverText rx).block + (pad (spots.map spotBytes).flatten 4).length =
      16 + (packetBody (receiverText rx).block (spots.map spotBytes)).length := by
    rw [length_packetBody, length_pad, overhead, length_receiverInfoHeader,
      length_senderInfoHeader]
    push_cast
    omega
  refine ⟨_, _, mapM_encodeSpot hspots, hrxInfo, ?_, ?_⟩
  · rw [hlen]
    constructor
    · rintro ⟨out, hout⟩
      obtain ⟨rxInfo, hrx', -, hshort, -⟩ := buildPacket_eq_ok.mp hout
      obtain rfl : (receiverText rx).block = rxInfo := Except.ok.inj (hrxInfo.symm.trans hrx')
      omega
    · intro hshort
      exact ⟨_, buildPacket_eq_ok.mpr ⟨_, hrxInfo, hid, by omega, htime, hseq, rfl⟩⟩
  · intro out hout
    obtain ⟨rxInfo, hrx', -, hshort, -, -, rfl⟩ := buildPacket_eq_ok.mp hout
    obtain rfl : (receiverText rx).block = rxInfo := Except.ok.inj (hrxInfo.symm.trans hrx')
    exact decodePacket_packet hrx hspots hshort _ _ hid

theorem shortText_ofString {s : String} (h : s.toByteArray.data.toList.length ≤ 255) :
    ShortText (.ofString s) := ⟨_, PyText.encode_ofString s, h⟩

/-- A spot with a message and an SNR out of range. -/
def sampleSpot : Spot where
  callsign := .ofString "K1ABC"
  frequencyHz := 14074000
  snrDb := 200
  mode := .ofString "FT8"
  locator := .ofString "FN42aa"
  timestamp := 1700000000
  messageBytes := .bytes [0xAA, 0xBB, 0xCC]

theorem decodePacket_buildPacket_sample :
    ∃ encoded rxInfo, [sampleSpot, sampleSpot].mapM encodeSpot = .ok encoded ∧
      encodeReceiverInfo sampleReceiver = .ok rxInfo ∧
      ((∃ out, buildPacket sampleReceiver encoded 1700000000 7 [1, 2, 3, 4] = .ok out) ↔
        overhead rxInfo + (pad encoded.flatten 4).length < 65536) ∧
      ∀ out, buildPacket sampleReceiver encoded 1700000000 7 [1, 2, 3, 4] = .ok out →
        decodePacket out = some ([sampleReceiver], [sampleSpot, sampleSpot].map Spot.clamped) := by
  refine decodePacket_buildPacket ?_ ?_ (by decide) (by decide) rfl
  · exact { callsign := shortText_ofString (by decide)
            locator := shortText_ofString (by decide)
            software := shortText_ofString (by decide)
            antenna := ⟨_, rfl, by decide⟩ }
  · intro s hs
    obtain rfl : s = sampleSpot := by simpa using hs
    exact { callsign := shortText_ofString (by decide)
            frequency := by decide
            mode := shortText_ofString (by decide)
            locator := shortText_ofString (by decide)
            timestamp := by decide
            message := ⟨_, rfl, by decide⟩ }

end HsUploader.Psk
