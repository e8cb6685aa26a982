import HsUploader.Payload.PskPskr

/-!
# Packets stay below the limit

`chunk_spots` keeps the spots of a chunk within a budget, and `build_packet` then pads them to a
multiple of four bytes.  All the rest of a packet is a multiple of four bytes long, so padding
stays within the limit exactly when the limit is a multiple of four itself.
-/

set_option autoImplicit false

namespace HsUploader.Psk

/-! ## The chunks -/

theorem flatten_chunkLoop (budget : ℤ) (chunk : List Bytes) (chunkSize : ℤ) (rest : List Bytes) :
    (chunkLoop budget chunk chunkSize rest).flatten = chunk ++ rest := by
  induction rest generalizing chunk chunkSize with
  | nil =>
    rw [chunkLoop]
    split_ifs with h <;> simp [h]
  | cons sp rest ih =>
    rw [chunkLoop]
    split_ifs
    · rw [List.flatten_cons, ih, List.singleton_append]
    · rw [ih, List.append_assoc, List.singleton_append]

theorem ne_nil_of_mem_chunkLoop {budget : ℤ} {chunk : List Bytes} {chunkSize : ℤ}
    {rest c : List Bytes} (h : c ∈ chunkLoop budget chunk chunkSize rest) : c ≠ [] := by
  induction rest generalizing chunk chunkSize with
  | nil =>
    rw [chunkLoop] at h
    split_ifs at h with hc
    · simp at h
    · obtain rfl := List.mem_singleton.mp h
      exact hc
  | cons sp rest ih =>
    rw [chunkLoop] at h
    split_ifs at h with hc
    · rcases List.mem_cons.mp h with rfl | h
      · exact hc.1
      · exact ih h
    · exact ih h

/-- Every chunk keeps to the budget when every spot does. -/
theorem length_le_of_mem_chunkLoop {budget : ℤ} {chunk rest c : List Bytes}
    (hchunk : (chunk.flatten.length : ℤ) ≤ budget) (hrest : ∀ s ∈ rest, (s.length : ℤ) ≤ budget)
    (h : c ∈ chunkLoop budget chunk chunk.flatten.length rest) :
    (c.flatten.length : ℤ) ≤ budget := by
  induction rest generalizing chunk with
  | nil =>
    rw [chunkLoop] at h
    split_ifs at h with hc
    · simp at h
    · obtain rfl := List.mem_singleton.mp h
      exact hchunk
  | cons sp rest ih =>
    have hrest' : ∀ s ∈ rest, (s.length : ℤ) ≤ budget :=
      fun s hs ↦ hrest s (List.mem_cons_of_mem _ hs)
    have hone : [sp].flatten.length = sp.length := by simp
    have hmore : (chunk ++ [sp]).flatten.length = chunk.flatten.length + sp.length := by simp
    rw [chunkLoop] at h
    split_ifs at h with hc
    · rcases List.mem_cons.mp h with rfl | h
      · exact hchunk
      · rw [← hone] at h
        exact ih (by rw [hone]; exact hrest sp List.mem_cons_self) hrest' h
    · rw [show (chunk.flatten.length : ℤ) + sp.length = ((chunk ++ [sp]).flatten.length : ℕ) by
        rw [hmore]; push_cast; rfl] at h
      refine ih ?_ hrest' h
      by_cases hnil : chunk = []
      · subst hnil
        exact (by simpa using hrest sp List.mem_cons_self)
      · have := not_and.mp hc hnil
        rw [hmore]
        push_cast
        omega

/-- Spots that fit into one chunk together are one chunk. -/
theorem chunkLoop_of_le {budget : ℤ} {chunk rest : List Bytes}
    (h : (chunk.flatten.length + rest.flatten.length : ℤ) ≤ budget) (hne : chunk ++ rest ≠ []) :
    chunkLoop budget chunk chunk.flatten.length rest = [chunk ++ rest] := by
  induction rest generalizing chunk with
  | nil =>
    rw [List.append_nil] at hne ⊢
    rw [chunkLoop, if_neg hne]
  | cons sp rest ih =>
    have hmore : (chunk ++ [sp]).flatten.length = chunk.flatten.length + sp.length := by simp
    rw [List.flatten_cons, List.length_append] at h
    push_cast at h
    rw [chunkLoop, if_neg (by omega),
      show (chunk.flatten.length : ℤ) + sp.length = ((chunk ++ [sp]).flatten.length : ℕ) by
        rw [hmore]; push_cast; rfl,
      ih (by rw [hmore]; push_cast; omega) (by simp), List.append_assoc]
    rfl

/-! ## Packets with their lengths -/

/-- The length a packet or a block gives itself, in its third and fourth byte. -/
def lengthField (b : Bytes) : ℕ := ofBigEndian ((b.drop 2).take 2)

/-- A packet that is as long as it says, made of a header and four blocks that are as long as they
say. -/
structure Framed (out : Bytes) : Prop where
  total : lengthField out = out.length
  blocks : ∃ header b₁ b₂ b₃ b₄ : Bytes, header.length = 16 ∧
    out = header ++ b₁ ++ b₂ ++ b₃ ++ b₄ ∧ ∀ b ∈ [b₁, b₂, b₃, b₄], lengthField b = b.length

theorem lengthField_eq {delim rest : Bytes} (hd : delim.length = 2) {n : ℕ} (hn : n < 65536) :
    lengthField (delim ++ bigEndian 2 n ++ rest) = n := by
  rw [lengthField, List.append_assoc, List.drop_left' hd,
    List.take_left' (length_bigEndian 2 n), ofBigEndian_bigEndian hn]

theorem framed_packet {rx : ReceiverInfo} {rxInfo : Bytes}
    (hrx : encodeReceiverInfo rx = .ok rxInfo) {chunk : List Bytes}
    (hlen : 16 + (packetBody rxInfo chunk).length < 65536)
    (timestamp sequence : ℕ) {sessionId : Bytes} (hid : sessionId.length = 4) :
    Framed (packet rxInfo chunk timestamp sequence sessionId) ∧
      (packet rxInfo chunk timestamp sequence sessionId).length =
        16 + (packetBody rxInfo chunk).length := by
  obtain ⟨t, ht, rfl⟩ := encodeReceiverInfo_eq_ok.mp hrx
  have hbody := length_packetBody t.block chunk
  have hblock := t.length_block
  have hpad := length_pad t.body
  have hpad' := length_pad chunk.flatten
  have hsender := length_senderBlock chunk
  have htotal : (packet t.block chunk timestamp sequence sessionId).length =
      16 + (packetBody t.block chunk).length := by
    simp only [packet, List.length_append, length_bigEndian, hid]
    simp [protocolVersion]
  refine ⟨⟨?_, ?_⟩, htotal⟩
  · rw [htotal, packet, List.append_assoc, List.append_assoc, List.append_assoc]
    exact lengthField_eq rfl hlen
  · refine ⟨protocolVersion ++ bigEndian 2 (16 + (packetBody t.block chunk).length) ++
      bigEndian 4 timestamp ++ bigEndian 4 sequence ++ sessionId, receiverInfoHeader,
      senderInfoHeader, t.block, senderBlock chunk, ?_, ?_, ?_⟩
    · simp only [List.length_append, length_bigEndian, hid]
      rfl
    · simp only [packet, packetBody, List.append_assoc]
    · intro b hb
      simp only [List.mem_cons, List.not_mem_nil, or_false] at hb
      rcases hb with rfl | rfl | rfl | rfl
      · rfl
      · rfl
      · rw [hblock, ReceiverText.block, lengthField_eq rfl (by omega), hpad]
      · rw [hsender, senderBlock, lengthField_eq rfl (by omega), hpad']

/-- What is asked of the packets of a list of spots: the chunks are the list, none is empty, and
each makes a packet within the limit whose length fields are right. -/
def Fits (rx : ReceiverInfo) (maxPacketLen : ℤ) (spots : List Bytes) : Prop :=
  ∃ chunks, chunkSpots spots maxPacketLen rx = .ok chunks ∧ chunks.flatten = spots ∧
    ∀ c ∈ chunks, c ≠ [] ∧ ∀ (timestamp sequence : ℤ) (sessionId : Bytes),
      0 ≤ timestamp → timestamp < 2 ^ 32 → 0 ≤ sequence → sequence < 2 ^ 32 →
      sessionId.length = 4 →
      ∃ out, buildPacket rx c timestamp sequence sessionId = .ok out ∧
        (out.length : ℤ) ≤ maxPacketLen ∧ Framed out

theorem chunkSpots_eq {rx : ReceiverInfo} {rxInfo : Bytes}
    (hrx : encodeReceiverInfo rx = .ok rxInfo) {maxPacketLen : ℤ}
    (h : overhead rxInfo < maxPacketLen) (spots : List Bytes) :
    chunkSpots spots maxPacketLen rx =
      .ok (chunkLoop (maxPacketLen - overhead rxInfo) [] 0 spots) := by
  rw [chunkSpots, hrx, Except.ok_bind]
  simp only [show ¬ maxPacketLen - overhead rxInfo ≤ 0 by omega, if_false]
  rfl

theorem overhead_eq {rx : ReceiverInfo} {rxInfo : Bytes}
    (hrx : encodeReceiverInfo rx = .ok rxInfo) :
    overhead rxInfo = 132 + rxInfo.length ∧ (rxInfo.length : ℤ) % 4 = 0 := by
  obtain ⟨t, -, rfl⟩ := encodeReceiverInfo_eq_ok.mp hrx
  have := t.length_block
  rw [overhead, length_receiverInfoHeader, length_senderInfoHeader]
  omega

/-- A limit that is a multiple of four is kept, whatever the byte strings are that make the
spots. -/
theorem fits_of_dvd {rx : ReceiverInfo} {rxInfo : Bytes}
    (hrx : encodeReceiverInfo rx = .ok rxInfo) {maxPacketLen : ℤ}
    (h₀ : overhead rxInfo < maxPacketLen) (h₁ : maxPacketLen ≤ 65535) (hdvd : 4 ∣ maxPacketLen)
    {spots : List Bytes} (hspots : ∀ s ∈ spots, (s.length : ℤ) ≤ maxPacketLen - overhead rxInfo) :
    Fits rx maxPacketLen spots := by
  obtain ⟨hover, hmod⟩ := overhead_eq hrx
  refine ⟨_, chunkSpots_eq hrx h₀ spots, flatten_chunkLoop _ _ _ _, ?_⟩
  intro c hc
  refine ⟨ne_nil_of_mem_chunkLoop hc, ?_⟩
  intro timestamp sequence sessionId ht₀ ht hs₀ hs hid
  have hnone : (([] : List Bytes).flatten.length : ℤ) ≤ maxPacketLen - overhead rxInfo := by
    rw [List.flatten_nil, List.length_nil]
    omega
  have hle := length_le_of_mem_chunkLoop hnone hspots hc
  have hbody := length_packetBody rxInfo c
  have hlen : 16 + (packetBody rxInfo c).length < 65536 := by omega
  obtain ⟨hframed, htotal⟩ := framed_packet hrx hlen timestamp.toNat sequence.toNat hid
  refine ⟨_, buildPacket_eq_ok.mpr ⟨rxInfo, hrx, hid, hlen, ⟨ht₀, ht⟩, ⟨hs₀, hs⟩, rfl⟩, ?_, hframed⟩
  rw [htotal]
  omega

/-- The bytes are an encoded spot. -/
def IsEncoded (b : Bytes) : Prop := ∃ spot, encodeSpot spot = .ok b

theorem length_of_isEncoded {b : Bytes} (h : IsEncoded b) : 14 ≤ b.length := by
  obtain ⟨spot, h⟩ := h
  simp only [encodeSpot, Except.bind_eq_ok, Except.pure_eq_ok] at h
  obtain ⟨callsign, hc, frequency, hf, mode, hm, locator, hl, timestamp, ht, message, hb, rfl⟩ := h
  have h₁ := length_encStr_le hc
  have h₂ := length_encStr_le hm
  have h₃ := length_encStr_le hl
  obtain ⟨-, -, rfl⟩ := toBytes_eq_ok.mp hf
  obtain ⟨-, -, rfl⟩ := toBytes_eq_ok.mp ht
  obtain ⟨raw, -, rfl⟩ := encBytes_eq_ok.mp hb
  simp only [List.length_append, length_bigEndian, i8, length_counted, List.length_singleton]
  omega

/-- A spot whose message alone has bytes in it. -/
def messageSpot (n : ℕ) : Spot where
  callsign := []
  frequencyHz := 0
  snrDb := 0
  mode := []
  locator := []
  timestamp := 0
  messageBytes := .bytes (List.replicate n 0)

theorem encodeSpot_messageSpot (n : ℕ) (hn : n ≤ 255) :
    ∃ b, encodeSpot (messageSpot n) = .ok b ∧ b.length = 14 + n := by
  have hnone : encStr [] = .ok [0] := rfl
  refine ⟨[0] ++ bigEndian 4 0 ++ i8 0 ++ [0] ++ [0] ++ [0x01] ++ bigEndian 4 0 ++
    counted (List.replicate n 0), ?_, ?_⟩
  · simp only [encodeSpot, messageSpot, hnone, Except.ok_bind]
    rfl
  · simp only [List.length_append, length_bigEndian, i8, length_counted, List.length_take,
      List.length_replicate, List.length_singleton]
    omega

/-- Encoded spots of any total length from fourteen bytes on. -/
theorem exists_isEncoded {n : ℕ} (h : 14 ≤ n) :
    ∃ spots : List Bytes, (∀ s ∈ spots, IsEncoded s) ∧ spots.flatten.length = n := by
  induction n using Nat.strong_induction_on with
  | h n ih =>
    by_cases hn : n < 28
    · obtain ⟨b, hb, hlen⟩ := encodeSpot_messageSpot (n - 14) (by omega)
      refine ⟨[b], fun s hs ↦ ?_, by rw [List.flatten_singleton, hlen]; omega⟩
      obtain rfl := List.mem_singleton.mp hs
      exact ⟨_, hb⟩
    · obtain ⟨b, hb, hlen⟩ := encodeSpot_messageSpot 0 (by omega)
      obtain ⟨spots, hspots, htotal⟩ := ih (n - 14) (by omega) (by omega)
      refine ⟨b :: spots, fun s hs ↦ ?_, by
        rw [List.flatten_cons, List.length_append, hlen, htotal]; omega⟩
      rcases List.mem_cons.mp hs with rfl | hs
      · exact ⟨_, hb⟩
      · exact hspots s hs

/-- Under any other limit some spots that fit into the budget make a packet that is too long: those
that fill the budget to the last byte. -/
theorem exists_not_fits {rx : ReceiverInfo} {rxInfo : Bytes}
    (hrx : encodeReceiverInfo rx = .ok rxInfo) {maxPacketLen : ℤ}
    (h₀ : overhead rxInfo + 14 ≤ maxPacketLen) (hno : ¬ 4 ∣ maxPacketLen) :
    ∃ spots : List Bytes,
      (∀ s ∈ spots, IsEncoded s ∧ (s.length : ℤ) ≤ maxPacketLen - overhead rxInfo) ∧
      ¬ Fits rx maxPacketLen spots := by
  obtain ⟨hover, hmod⟩ := overhead_eq hrx
  obtain ⟨spots, hspots, htotal⟩ :=
    exists_isEncoded (n := (maxPacketLen - overhead rxInfo).toNat) (by omega)
  refine ⟨spots, fun s hs ↦ ⟨hspots s hs, ?_⟩, ?_⟩
  · have := List.Sublist.length_le (List.sublist_flatten_of_mem hs)
    omega
  · rintro ⟨chunks, hchunks, -, hfits⟩
    have hne : spots ≠ [] := by
      rintro rfl
      rw [List.flatten_nil, List.length_nil] at htotal
      omega
    have hfit : (([] : List Bytes).flatten.length + spots.flatten.length : ℤ) ≤
        maxPacketLen - overhead rxInfo := by
      rw [htotal, List.flatten_nil, List.length_nil]
      omega
    have hloop : chunkLoop (maxPacketLen - overhead rxInfo) [] 0 spots = [spots] :=
      chunkLoop_of_le hfit hne
    rw [chunkSpots_eq hrx (by omega)] at hchunks
    cases hchunks
    rw [hloop] at hfits
    obtain ⟨out, hout, hle, -⟩ := (hfits spots (List.mem_singleton_self _)).2 0 0 [0, 0, 0, 0]
      (by omega) (by omega) (by omega) (by omega) rfl
    obtain ⟨rxInfo', hrx', -, hlen, -, -, rfl⟩ := buildPacket_eq_ok.mp hout
    obtain rfl : rxInfo = rxInfo' := Except.ok.inj (hrx.symm.trans hrx')
    obtain ⟨-, hsize⟩ := framed_packet hrx hlen 0 0 (rfl : ([0, 0, 0, 0] : Bytes).length = 4)
    have hbody := length_packetBody rxInfo spots
    have hlen' : (packet rxInfo spots (0 : ℤ).toNat (0 : ℤ).toNat [0, 0, 0, 0]).length =
        16 + (packetBody rxInfo spots).length := hsize
    rw [hlen'] at hle
    omega

/-- **Every packet fits exactly when the limit is a multiple of four**, or so small that no spot
fits into it at all. -/
theorem every_packet_fits_iff {rx : ReceiverInfo} {rxInfo : Bytes}
    (hrx : encodeReceiverInfo rx = .ok rxInfo) {maxPacketLen : ℤ}
    (h₀ : overhead rxInfo < maxPacketLen) (h₁ : maxPacketLen ≤ 65535) :
    (∀ spots : List Bytes,
      (∀ s ∈ spots, IsEncoded s ∧ (s.length : ℤ) ≤ maxPacketLen - overhead rxInfo) →
      Fits rx maxPacketLen spots) ↔
    4 ∣ maxPacketLen ∨ maxPacketLen < overhead rxInfo + 14 := by
  constructor
  · intro hall
    by_contra hno
    rw [not_or] at hno
    obtain ⟨spots, hspots, hnot⟩ := exists_not_fits hrx (by omega) hno.1
    exact hnot (hall spots hspots)
  · rintro (hdvd | hsmall) spots hspots
    · exact fits_of_dvd hrx h₀ h₁ hdvd fun s hs ↦ (hspots s hs).2
    · have hnil : spots = [] := by
        by_contra hne
        obtain ⟨s, rest, rfl⟩ := List.exists_cons_of_ne_nil hne
        have := hspots s List.mem_cons_self
        have hlen := length_of_isEncoded this.1
        omega
      subst hnil
      exact ⟨[], by rw [chunkSpots_eq hrx h₀]; rfl, rfl, fun c hc ↦ absurd hc List.not_mem_nil⟩

/-- A receiver. -/
def sampleReceiver : ReceiverInfo where
  callsign := .ofString "N0CALL"
  locator := .ofString "EM38"
  decodingSoftware := .ofString "test-sw"

/-- The strings of the receiver. -/
def sampleText : ReceiverText where
  callsign := counted "N0CALL".toByteArray.data.toList
  locator := counted "EM38".toByteArray.data.toList
  software := counted "test-sw".toByteArray.data.toList
  antenna := counted []

/-- The block of the receiver. -/
def sampleBlock : Bytes := sampleText.block

theorem encodeReceiverInfo_sampleReceiver :
    encodeReceiverInfo sampleReceiver = .ok sampleBlock :=
  encodeReceiverInfo_eq_ok.mpr ⟨sampleText,
    { callsign := encStr_ofString "N0CALL"
      locator := encStr_ofString "EM38"
      software := encStr_ofString "test-sw"
      antenna := rfl }, rfl⟩

theorem overhead_sampleBlock : overhead sampleBlock = 160 := by
  have : sampleBlock.length = 28 := by decide +kernel
  rw [(overhead_eq encodeReceiverInfo_sampleReceiver).1, this]
  rfl

theorem every_packet_fits_iff_default :
    (∀ spots : List Bytes,
      (∀ s ∈ spots, IsEncoded s ∧ (s.length : ℤ) ≤ maxPacketLenTcp - overhead sampleBlock) →
      Fits sampleReceiver maxPacketLenTcp spots) ↔
    4 ∣ maxPacketLenTcp ∨ maxPacketLenTcp < overhead sampleBlock + 14 :=
  every_packet_fits_iff encodeReceiverInfo_sampleReceiver
    (by rw [overhead_sampleBlock]; decide) (by decide)

/-- A packet meant to stay below 601 bytes has 604. -/
theorem every_packet_fits_fails :
    ¬ ∀ (rx : ReceiverInfo) (rxInfo : Bytes) (maxPacketLen : ℤ),
      encodeReceiverInfo rx = .ok rxInfo → overhead rxInfo < maxPacketLen → maxPacketLen ≤ 65535 →
      ∀ spots : List Bytes,
        (∀ s ∈ spots, IsEncoded s ∧ (s.length : ℤ) ≤ maxPacketLen - overhead rxInfo) →
        Fits rx maxPacketLen spots := by
  intro hall
  obtain ⟨spots, hspots, hnot⟩ := exists_not_fits encodeReceiverInfo_sampleReceiver
    (by rw [overhead_sampleBlock]; decide : overhead sampleBlock + 14 ≤ 601) (by decide)
  exact hnot (hall sampleReceiver sampleBlock 601 encodeReceiverInfo_sampleReceiver
    (by rw [overhead_sampleBlock]; decide) (by decide) spots hspots)

end HsUploader.Psk
