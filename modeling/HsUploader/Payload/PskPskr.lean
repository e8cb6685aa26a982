import HsUploader.Library.BigEndian
import HsUploader.Library.Except
import HsUploader.PyValue

/-!
# The packets of PSK Reporter

`psk_pskr.py` writes IPFIX-style packets: a header of 16 bytes, two template descriptors, a block
of receiver strings and a block of encoded spots, each block padded to a multiple of four bytes and
led by its own length.
-/

set_option autoImplicit false

namespace HsUploader.Psk

/-- `MAX_PACKET_LEN_TCP`. -/
def maxPacketLenTcp : ℤ := 25000

/-- `PROTOCOL_VERSION`. -/
def protocolVersion : Bytes := [0x00, 0x0A]

/-- `_RECEIVER_DELIM`. -/
def receiverDelim : Bytes := [0x99, 0x92]

/-- `_SENDER_DELIM`. -/
def senderDelim : Bytes := [0x99, 0x94]

/-- `_RECEIVER_INFO_HEADER`. -/
def receiverInfoHeader : Bytes :=
  [0x00, 0x03, 0x00, 0x2C] ++ receiverDelim ++ [0x00, 0x04, 0x00, 0x01] ++
    [0x80, 0x02, 0xFF, 0xFF, 0x00, 0x00, 0x76, 0x8F] ++
    [0x80, 0x04, 0xFF, 0xFF, 0x00, 0x00, 0x76, 0x8F] ++
    [0x80, 0x08, 0xFF, 0xFF, 0x00, 0x00, 0x76, 0x8F] ++
    [0x80, 0x09, 0xFF, 0xFF, 0x00, 0x00, 0x76, 0x8F] ++ [0x00, 0x00]

/-- `_SENDER_INFO_HEADER`. -/
def senderInfoHeader : Bytes :=
  [0x00, 0x02, 0x00, 0x44] ++ senderDelim ++ [0x00, 0x08] ++
    [0x80, 0x01, 0xFF, 0xFF, 0x00, 0x00, 0x76, 0x8F] ++
    [0x80, 0x05, 0x00, 0x04, 0x00, 0x00, 0x76, 0x8F] ++
    [0x80, 0x06, 0x00, 0x01, 0x00, 0x00, 0x76, 0x8F] ++
    [0x80, 0x0A, 0xFF, 0xFF, 0x00, 0x00, 0x76, 0x8F] ++
    [0x80, 0x03, 0xFF, 0xFF, 0x00, 0x00, 0x76, 0x8F] ++
    [0x80, 0x0B, 0x00, 0x01, 0x00, 0x00, 0x76, 0x8F] ++
    [0x00, 0x96, 0x00, 0x04] ++
    [0x80, 0x0E, 0xFF, 0xFF, 0x00, 0x00, 0x76, 0x8F]

/-- What a spot holds as its message: bytes, or a value of the row that is none, with its length
when `len` takes it. -/
inductive Message where
  | bytes (b : Bytes)
  | other (typeName : String) (length : Option ℕ)

/-- `Spot`. -/
structure Spot where
  callsign : PyText
  frequencyHz : ℤ
  snrDb : ℤ
  mode : PyText
  locator : PyText
  timestamp : ℤ
  messageBytes : Message := .bytes []

/-- `ReceiverInfo`. -/
structure ReceiverInfo where
  callsign : PyText
  locator : PyText
  decodingSoftware : PyText := .ofString "hs-uploader/0.1"
  antenna : PyText := []

/-! ## Fields -/

/-- `n.to_bytes(width, "big")`. -/
def toBytes (width : ℕ) (n : ℤ) : Except Exn Bytes :=
  if n < 0 then .error (.overflowError "can't convert negative int to unsigned")
  else if n.toNat < 256 ^ width then .ok (bigEndian width n.toNat)
  else .error (.overflowError "int too big to convert")

/-- A field of at most 255 bytes after its length, longer ones cut off. -/
def counted (raw : Bytes) : Bytes := UInt8.ofNat (raw.take 255).length :: raw.take 255

/-- `_enc_str(s)`. -/
def encStr (s : PyText) : Except Exn Bytes := do
  let raw ← s.encode
  pure (counted raw)

/-- `_enc_bytes(b)`. -/
def encBytes : Message → Except Exn Bytes
  | .bytes b => .ok (counted b)
  | .other typeName none => .error (.typeError ("object of type '" ++ typeName ++ "' has no len()"))
  | .other typeName (some n) =>
    -- a slice of a dict is looked up as a key
    if typeName = "dict" ∧ 255 < n then .error (.typeError "unhashable type: 'slice'")
    else .error (.typeError ("can't concat " ++ typeName ++ " to bytes"))

/-- `_i8(n)`: the byte of a number clamped to -128..127, in two's complement. -/
def i8 (n : ℤ) : Bytes := [UInt8.ofNat ((max (-128) (min 127 n)) % 256).toNat]

/-- `_pad(b, alignment)`. -/
def pad (b : Bytes) (alignment : ℕ) : Bytes :=
  b ++ List.replicate ((-(b.length : ℤ)) % alignment).toNat 0

/-! ## Spots and packets -/

/-- `encode_spot(spot)`. -/
def encodeSpot (spot : Spot) : Except Exn Bytes := do
  let callsign ← encStr spot.callsign
  let frequency ← toBytes 4 spot.frequencyHz
  let mode ← encStr spot.mode
  let locator ← encStr spot.locator
  let timestamp ← toBytes 4 spot.timestamp
  let message ← encBytes spot.messageBytes
  pure (callsign ++ frequency ++ i8 spot.snrDb ++ mode ++ locator ++ [0x01] ++ timestamp ++ message)

/-- `encode_receiver_info(rx)`. -/
def encodeReceiverInfo (rx : ReceiverInfo) : Except Exn Bytes := do
  let callsign ← encStr rx.callsign
  let locator ← encStr rx.locator
  let software ← encStr rx.decodingSoftware
  let antenna ← encStr rx.antenna
  let body := pad (callsign ++ locator ++ software ++ antenna) 4
  let length ← toBytes 2 (body.length + 4)
  pure (receiverDelim ++ length ++ body)

/-- `build_packet(...)`. -/
def buildPacket (receiver : ReceiverInfo) (encodedSpots : List Bytes) (timestamp sequence : ℤ)
    (sessionId : Bytes) : Except Exn Bytes := do
  if sessionId.length ≠ 4 then
    throw (.valueError ("session_id must be 4 bytes, got " ++ toString sessionId.length))
  let rxInfo ← encodeReceiverInfo receiver
  let senderInfo := pad encodedSpots.flatten 4
  let senderLength ← toBytes 2 (senderInfo.length + 4)
  let senderBlock := senderDelim ++ senderLength ++ senderInfo
  let body := receiverInfoHeader ++ senderInfoHeader ++ rxInfo ++ senderBlock
  let totalLength ← toBytes 2 (16 + body.length)
  let timestamp ← toBytes 4 timestamp
  let sequence ← toBytes 4 sequence
  pure (protocolVersion ++ totalLength ++ timestamp ++ sequence ++ sessionId ++ body)

/-! ## Chunks -/

/-- The bytes of a packet beside its spots. -/
def overhead (rxInfo : Bytes) : ℤ :=
  16 + receiverInfoHeader.length + senderInfoHeader.length + rxInfo.length + 4

/-- The loop of `chunk_spots`: the chunk under way and its size. -/
def chunkLoop (budget : ℤ) : List Bytes → ℤ → List Bytes → List (List Bytes)
  | chunk, _, [] => if chunk = [] then [] else [chunk]
  | chunk, chunkSize, sp :: rest =>
    if chunk ≠ [] ∧ budget < chunkSize + sp.length then
      chunk :: chunkLoop budget [sp] sp.length rest
    else chunkLoop budget (chunk ++ [sp]) (chunkSize + sp.length) rest

/-- `chunk_spots(encoded_spots, max_packet_len, receiver=receiver)`: the chunks it yields. -/
def chunkSpots (encodedSpots : List Bytes) (maxPacketLen : ℤ) (receiver : ReceiverInfo) :
    Except Exn (List (List Bytes)) := do
  let rxInfo ← encodeReceiverInfo receiver
  let budget := maxPacketLen - overhead rxInfo
  if budget ≤ 0 then
    throw (.valueError ("max_packet_len " ++ toString maxPacketLen ++
      " too small for header overhead " ++ toString (overhead rxInfo)))
  pure (chunkLoop budget [] 0 encodedSpots)

/-! ## What the encoders write -/

theorem toBytes_eq_ok {width : ℕ} {n : ℤ} {b : Bytes} :
    toBytes width n = .ok b ↔ 0 ≤ n ∧ n < 256 ^ width ∧ bigEndian width n.toNat = b := by
  have hlt : n.toNat < 256 ^ width ↔ n < 256 ^ width := by
    have hw : ((256 ^ width : ℕ) : ℤ) = 256 ^ width := Int.natCast_pow 256 width
    have hpos : 0 < 256 ^ width := Nat.pow_pos (by omega)
    rw [← hw]
    omega
  rw [toBytes]
  split_ifs with h₀ h₁
  · simp only [false_iff]
    omega
  · rw [Except.ok.injEq]
    exact ⟨fun h ↦ ⟨by omega, hlt.mp h₁, h⟩, fun h ↦ h.2.2⟩
  · simp only [false_iff]
    exact fun h ↦ h₁ (hlt.mpr h.2.1)

@[simp] theorem length_counted (raw : Bytes) : (counted raw).length = (raw.take 255).length + 1 :=
  rfl

theorem length_pad (b : Bytes) : (pad b 4).length = (b.length + 3) / 4 * 4 := by
  rw [pad, List.length_append, List.length_replicate]
  omega

theorem length_receiverInfoHeader : receiverInfoHeader.length = 44 := rfl

theorem length_senderInfoHeader : senderInfoHeader.length = 68 := rfl

theorem encStr_eq_ok {s : PyText} {b : Bytes} :
    encStr s = .ok b ↔ ∃ raw, s.encode = .ok raw ∧ counted raw = b := by
  simp only [encStr, Except.bind_eq_ok, Except.pure_eq_ok]

theorem encStr_ofString (s : String) :
    encStr (.ofString s) = .ok (counted s.toByteArray.data.toList) := by
  rw [encStr, PyText.encode_ofString, Except.ok_bind]
  rfl

theorem encBytes_eq_ok {m : Message} {b : Bytes} :
    encBytes m = .ok b ↔ ∃ raw, m = .bytes raw ∧ counted raw = b := by
  cases m with
  | bytes raw => simp [encBytes]
  | other typeName length =>
    cases length with
    | none => simp [encBytes]
    | some n =>
      rw [encBytes]
      split_ifs <;> simp

theorem length_encStr_le {s : PyText} {b : Bytes} (h : encStr s = .ok b) :
    1 ≤ b.length ∧ b.length ≤ 256 := by
  obtain ⟨raw, -, rfl⟩ := encStr_eq_ok.mp h
  rw [length_counted, List.length_take]
  omega

/-- The strings of a receiver, as they are written. -/
structure ReceiverText where
  callsign : Bytes
  locator : Bytes
  software : Bytes
  antenna : Bytes

/-- The strings one after the other. -/
def ReceiverText.body (t : ReceiverText) : Bytes :=
  t.callsign ++ t.locator ++ t.software ++ t.antenna

/-- The strings are those of the receiver. -/
structure ReceiverText.Of (rx : ReceiverInfo) (t : ReceiverText) : Prop where
  callsign : encStr rx.callsign = .ok t.callsign
  locator : encStr rx.locator = .ok t.locator
  software : encStr rx.decodingSoftware = .ok t.software
  antenna : encStr rx.antenna = .ok t.antenna

/-- The block of a receiver: its strings, padded, after the delimiter and the block's length. -/
def ReceiverText.block (t : ReceiverText) : Bytes :=
  receiverDelim ++ bigEndian 2 ((pad t.body 4).length + 4) ++ pad t.body 4

theorem ReceiverText.Of.length_le {rx : ReceiverInfo} {t : ReceiverText} (h : t.Of rx) :
    4 ≤ t.body.length ∧ t.body.length ≤ 1024 := by
  have h₁ := length_encStr_le h.callsign
  have h₂ := length_encStr_le h.locator
  have h₃ := length_encStr_le h.software
  have h₄ := length_encStr_le h.antenna
  simp only [body, List.length_append]
  omega

theorem encodeReceiverInfo_eq_ok {rx : ReceiverInfo} {block : Bytes} :
    encodeReceiverInfo rx = .ok block ↔ ∃ t : ReceiverText, t.Of rx ∧ t.block = block := by
  simp only [encodeReceiverInfo, Except.bind_eq_ok, Except.pure_eq_ok]
  constructor
  · rintro ⟨callsign, hc, locator, hl, software, hs, antenna, ha, length, hn, rfl⟩
    obtain ⟨-, -, rfl⟩ := toBytes_eq_ok.mp hn
    exact ⟨⟨callsign, locator, software, antenna⟩, ⟨hc, hl, hs, ha⟩, rfl⟩
  · rintro ⟨t, ht, rfl⟩
    have hlen := ht.length_le
    have hpad := length_pad t.body
    refine ⟨t.callsign, ht.callsign, t.locator, ht.locator, t.software, ht.software, t.antenna,
      ht.antenna, _, toBytes_eq_ok.mpr ⟨by omega, ?_, rfl⟩, rfl⟩
    rw [ReceiverText.body] at hlen hpad
    omega

theorem ReceiverText.length_block (t : ReceiverText) :
    t.block.length = (t.body.length + 3) / 4 * 4 + 4 := by
  simp only [block, List.length_append, length_bigEndian, length_pad]
  simp [receiverDelim]
  omega

/-- The block of the spots: the spots, padded, after the delimiter and the block's length. -/
def senderBlock (encodedSpots : List Bytes) : Bytes :=
  senderDelim ++ bigEndian 2 ((pad encodedSpots.flatten 4).length + 4) ++
    pad encodedSpots.flatten 4

theorem length_senderBlock (encodedSpots : List Bytes) :
    (senderBlock encodedSpots).length = (encodedSpots.flatten.length + 3) / 4 * 4 + 4 := by
  simp only [senderBlock, List.length_append, length_bigEndian, length_pad]
  simp [senderDelim]
  omega

/-- A packet after its header. -/
def packetBody (rxInfo : Bytes) (encodedSpots : List Bytes) : Bytes :=
  receiverInfoHeader ++ senderInfoHeader ++ rxInfo ++ senderBlock encodedSpots

theorem length_packetBody (rxInfo : Bytes) (encodedSpots : List Bytes) :
    (packetBody rxInfo encodedSpots).length =
      116 + rxInfo.length + (encodedSpots.flatten.length + 3) / 4 * 4 := by
  simp only [packetBody, List.length_append, length_senderBlock, length_receiverInfoHeader,
    length_senderInfoHeader]
  omega

/-- The packet with its header. -/
def packet (rxInfo : Bytes) (encodedSpots : List Bytes) (timestamp sequence : ℕ)
    (sessionId : Bytes) : Bytes :=
  protocolVersion ++ bigEndian 2 (16 + (packetBody rxInfo encodedSpots).length) ++
    bigEndian 4 timestamp ++ bigEndian 4 sequence ++ sessionId ++ packetBody rxInfo encodedSpots

/-- **What `build_packet` makes**, and when: the whole must be shorter than 65536 bytes, and the
time and the sequence number must fit into four bytes. -/
theorem buildPacket_eq_ok {rx : ReceiverInfo} {encodedSpots : List Bytes} {timestamp sequence : ℤ}
    {sessionId out : Bytes} :
    buildPacket rx encodedSpots timestamp sequence sessionId = .ok out ↔
      ∃ rxInfo, encodeReceiverInfo rx = .ok rxInfo ∧ sessionId.length = 4 ∧
        16 + (packetBody rxInfo encodedSpots).length < 65536 ∧
        (0 ≤ timestamp ∧ timestamp < 2 ^ 32) ∧ (0 ≤ sequence ∧ sequence < 2 ^ 32) ∧
        packet rxInfo encodedSpots timestamp.toNat sequence.toNat sessionId = out := by
  by_cases hid : sessionId.length = 4
  · simp only [buildPacket, hid, ne_eq, not_true_eq_false, if_false, Except.bind_eq_ok,
      Except.pure_eq_ok, true_and]
    constructor
    · rintro ⟨rxInfo, hrx, n₁, hn₁, n₂, hn₂, n₃, hn₃, n₄, hn₄, rfl⟩
      obtain ⟨-, -, rfl⟩ := toBytes_eq_ok.mp hn₁
      obtain ⟨-, htotal, rfl⟩ := toBytes_eq_ok.mp hn₂
      obtain ⟨ht₀, ht, rfl⟩ := toBytes_eq_ok.mp hn₃
      obtain ⟨hs₀, hs, rfl⟩ := toBytes_eq_ok.mp hn₄
      refine ⟨rxInfo, hrx, ?_, ⟨ht₀, ht⟩, ⟨hs₀, hs⟩, rfl⟩
      have : (16 + (packetBody rxInfo encodedSpots).length : ℤ) < 256 ^ 2 := htotal
      omega
    · rintro ⟨rxInfo, hrx, htotal, ⟨ht₀, ht⟩, ⟨hs₀, hs⟩, rfl⟩
      have hlen := length_packetBody rxInfo encodedSpots
      have hpad := length_pad encodedSpots.flatten
      refine ⟨rxInfo, hrx, _, toBytes_eq_ok.mpr ⟨by omega, by omega, rfl⟩, _,
        toBytes_eq_ok.mpr ⟨by omega, ?_, rfl⟩, _, toBytes_eq_ok.mpr ⟨ht₀, ht, rfl⟩, _,
        toBytes_eq_ok.mpr ⟨hs₀, hs, rfl⟩, rfl⟩
      change (16 + (packetBody rxInfo encodedSpots).length : ℤ) < 256 ^ 2
      omega
  · simp only [buildPacket, hid, ne_eq, not_false_eq_true, if_true, Except.throw_bind,
      false_and, and_false, exists_const, iff_false]
    exact Except.throw_ne_ok

end HsUploader.Psk
