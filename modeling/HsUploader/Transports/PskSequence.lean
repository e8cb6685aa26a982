import HsUploader.Payload.PskChunks
import HsUploader.Transports.PskReporter

/-!
# Session ids and sequence numbers

Every packet handed to a connection carries the connection's session id and the number of spots
sent completely over it before.  The counter is unbounded and its field is four bytes wide, so the
packet that would begin at the 2^32-th spot is never built.
-/

set_option autoImplicit false

namespace HsUploader.PskReporter

open Psk

/-! ## What a packet says -/

/-- The sequence number in a packet's header. -/
def sequenceField (packet : Bytes) : ℕ := ofBigEndian ((packet.drop 8).take 4)

/-- The session id in a packet's header. -/
def sessionField (packet : Bytes) : Bytes := (packet.drop 12).take 4

theorem packet_fields {rx : ReceiverInfo} {chunk : List Bytes} {timestamp : ℤ} {sequence : ℕ}
    {sessionId out : Bytes} (h : buildPacket rx chunk timestamp sequence sessionId = .ok out) :
    sequenceField out = sequence ∧ sessionField out = sessionId := by
  obtain ⟨rxInfo, -, hid, -, -, ⟨-, hseq⟩, rfl⟩ := buildPacket_eq_ok.mp h
  have hhead : (protocolVersion ++ bigEndian 2 (16 + (packetBody rxInfo chunk).length) ++
      bigEndian 4 timestamp.toNat).length = 8 := by
    simp only [List.length_append, length_bigEndian]
    rfl
  have hhead' : (protocolVersion ++ bigEndian 2 (16 + (packetBody rxInfo chunk).length) ++
      bigEndian 4 timestamp.toNat ++ bigEndian 4 (sequence : ℤ).toNat).length = 12 := by
    rw [List.length_append, hhead, length_bigEndian]
  constructor
  · rw [sequenceField, packet, List.append_assoc, List.append_assoc, List.drop_left' hhead,
      List.take_left' (length_bigEndian 4 _), ofBigEndian_bigEndian (by omega), Int.toNat_natCast]
  · rw [sessionField, packet, List.append_assoc, List.drop_left' hhead', List.take_left' hid]

/-- The spots sent completely over a connection. -/
def sentOn (number : ℕ) : List Attempt → ℕ
  | [] => 0
  | a :: rest =>
    match a.handing with
    | .sent _ => (if a.conn.number = number then a.chunk.length else 0) + sentOn number rest
    | _ => sentOn number rest

theorem sentOn_append (number : ℕ) (l l' : List Attempt) :
    sentOn number (l ++ l') = sentOn number l + sentOn number l' := by
  induction l with
  | nil => simp [sentOn]
  | cons a l ih =>
    rw [List.cons_append, sentOn, sentOn, ih]
    split <;> omega

theorem sentOn_eq_zero {number : ℕ} {l : List Attempt} (h : ∀ a ∈ l, a.conn.number ≠ number) :
    sentOn number l = 0 := by
  induction l with
  | nil => rfl
  | cons a l ih =>
    rw [sentOn, if_neg (h a List.mem_cons_self), ih fun b hb ↦ h b (List.mem_cons_of_mem _ hb)]
    split <;> rfl

/-! ## Chunks -/

/-- A chunk with more than one spot keeps to the budget, whatever the spots. -/
theorem length_le_or_single_of_mem_chunkLoop {budget : ℤ} {chunk rest c : List Bytes}
    (hchunk : chunk.length ≤ 1 ∨ (chunk.flatten.length : ℤ) ≤ budget)
    (h : c ∈ chunkLoop budget chunk chunk.flatten.length rest) :
    c.length ≤ 1 ∨ (c.flatten.length : ℤ) ≤ budget := by
  induction rest generalizing chunk with
  | nil =>
    rw [chunkLoop] at h
    split_ifs at h with hc
    · simp at h
    · obtain rfl := List.mem_singleton.mp h
      exact hchunk
  | cons sp rest ih =>
    have hone : [sp].flatten.length = sp.length := by rw [List.flatten_singleton]
    have hmore : (chunk ++ [sp]).flatten.length = chunk.flatten.length + sp.length := by simp
    rw [chunkLoop] at h
    split_ifs at h with hc
    · rcases List.mem_cons.mp h with rfl | h
      · exact hchunk
      · rw [← hone] at h
        exact ih (.inl (by simp)) h
    · rw [show (chunk.flatten.length : ℤ) + sp.length = ((chunk ++ [sp]).flatten.length : ℕ) by
        rw [hmore]; push_cast; rfl] at h
      refine ih ?_ h
      by_cases hnil : chunk = []
      · exact .inl (by simp [hnil])
      · have := not_and.mp hc hnil
        refine .inr ?_
        rw [hmore]
        push_cast
        omega

/-! ## The invariant -/

/-- The attempt was made of what it says, on a connection that was opened with its session id and
over which as many spots were sent before as its sequence number says. -/
structure Attempt.Sound (cfg : Config) (opened : List Bytes) (before : List Attempt) (a : Attempt) :
    Prop where
  opened : opened[a.conn.number]? = some a.conn.sessionId
  sequence : a.conn.sequence = sentOn a.conn.number before
  chunk : ∃ rxInfo, encodeReceiverInfo a.receiver = .ok rxInfo ∧
    (a.chunk.length ≤ 1 ∨ (a.chunk.flatten.length : ℤ) ≤ cfg.maxPacketLen - overhead rxInfo)
  built : match a.handing with
    | .raised e =>
      buildPacket a.receiver a.chunk a.timestamp a.conn.sequence a.conn.sessionId = .error e
    | .sent packet =>
      buildPacket a.receiver a.chunk a.timestamp a.conn.sequence a.conn.sessionId = .ok packet
    | .failed packet =>
      buildPacket a.receiver a.chunk a.timestamp a.conn.sequence a.conn.sessionId = .ok packet

/-- The connection was opened with its session id, and its counter says what was sent over it. -/
structure Conn.Sound (s : State) (conn : Conn) : Prop where
  opened : s.opened[conn.number]? = some conn.sessionId
  sequence : conn.sequence = sentOn conn.number s.attempts

/-- What holds of the transport between any two of its steps. -/
structure State.Sound (cfg : Config) (s : State) : Prop where
  attempts : ∀ i (a : Attempt), s.attempts[i]? = some a → a.Sound cfg s.opened (s.attempts.take i)
  conn : ∀ conn : Conn, s.conn = some conn → conn.Sound s

section Steps

variable {cfg : Config} {o : Outside} {s s' : State}

theorem sound_init : State.Sound cfg {} := ⟨by simp, by simp⟩

theorem State.Sound.closeLocked (h : s.Sound cfg) : (closeLocked s).Sound cfg :=
  ⟨h.attempts, by simp [PskReporter.closeLocked]⟩

theorem State.Sound.ticked (h : s.Sound cfg) : State.Sound cfg { s with tick := s.tick + 1 } :=
  ⟨h.attempts, fun c hc ↦ ⟨(h.conn c hc).opened, (h.conn c hc).sequence⟩⟩

theorem Attempt.Sound.opened_append {opened more : List Bytes} {before : List Attempt} {a : Attempt}
    (h : a.Sound cfg opened before) : a.Sound cfg (opened ++ more) before := by
  refine { h with opened := ?_ }
  rw [List.getElem?_append_left (List.getElem?_eq_some_iff.mp h.opened).1, h.opened]

/-- Connecting keeps the record right: a new connection has a number no attempt has. -/
theorem sound_connectIfNeededLocked (h : s.Sound cfg) {r : Except String Conn}
    (hr : connectIfNeededLocked o s = (r, s')) :
    s'.Sound cfg ∧ ∀ conn, r = .ok conn → s'.conn = some conn := by
  rw [connectIfNeededLocked] at hr
  split at hr
  · rename_i conn hconn
    cases hr
    exact ⟨h, fun c hc ↦ by rw [hconn, Except.ok.inj hc]⟩
  · split at hr
    · cases hr
      exact ⟨h.ticked, by simp⟩
    · cases hr
      refine ⟨⟨fun i a ha ↦ (h.attempts i a ha).opened_append, ?_⟩, fun c hc ↦ by cases hc; rfl⟩
      intro c hc
      obtain rfl := Option.some.inj hc
      refine ⟨by simp, (sentOn_eq_zero ?_).symm⟩
      intro a ha
      obtain ⟨i, hi⟩ := List.getElem?_of_mem ha
      exact Nat.ne_of_lt (List.getElem?_eq_some_iff.mp (h.attempts i a hi).opened).1

/-- An attempt that is made of what the transport holds goes on record as it should. -/
theorem sound_append (h : s.Sound cfg) {a : Attempt} (ha : a.Sound cfg s.opened s.attempts)
    {conn : Option Conn} {tick : ℕ}
    (hconn : ∀ c, conn = some c → s.opened[c.number]? = some c.sessionId ∧
      c.sequence = sentOn c.number (s.attempts ++ [a])) :
    State.Sound cfg { s with conn, tick, attempts := s.attempts ++ [a] } := by
  constructor
  · intro i b hb
    dsimp only at hb ⊢
    by_cases hi : i < s.attempts.length
    · rw [List.getElem?_append_left hi] at hb
      rw [List.take_append_of_le_length (by omega)]
      exact h.attempts i b hb
    · have hlen := (List.getElem?_eq_some_iff.mp hb).1
      rw [List.length_append, List.length_singleton] at hlen
      obtain rfl : i = s.attempts.length := by omega
      rw [List.getElem?_concat_length] at hb
      rw [List.take_left', ← Option.some.inj hb]
      · exact ha
      · rfl
  · intro c hc
    exact ⟨(hconn c hc).1, (hconn c hc).2⟩

theorem sound_attemptOn (h : s.Sound cfg) {conn : Conn} (hconn : s.conn = some conn)
    {chunk : List Bytes} {receiver : ReceiverInfo}
    (hchunk : ∃ rxInfo, encodeReceiverInfo receiver = .ok rxInfo ∧
      (chunk.length ≤ 1 ∨ (chunk.flatten.length : ℤ) ≤ cfg.maxPacketLen - overhead rxInfo)) :
    (attemptOn o chunk receiver conn s).2.Sound cfg := by
  have hc := h.conn conn hconn
  rw [attemptOn]
  split
  · rename_i e he
    refine sound_append h ⟨hc.opened, hc.sequence, hchunk, he⟩ fun c hc' ↦ ?_
    obtain rfl : conn = c := Option.some.inj (hconn.symm.trans hc')
    refine ⟨hc.opened, ?_⟩
    rw [sentOn_append, hc.sequence]
    rfl
  · rename_i packet hpacket
    split
    · refine sound_append h ⟨hc.opened, hc.sequence, hchunk, hpacket⟩ fun c hc' ↦ ?_
      obtain rfl := Option.some.inj hc'
      refine ⟨hc.opened, ?_⟩
      rw [sentOn_append, ← hc.sequence]
      simp [sentOn]
    · exact sound_append h ⟨hc.opened, hc.sequence, hchunk, hpacket⟩ (by simp [closeLocked])

theorem sound_sendAttempts {chunk : List Bytes} {receiver : ReceiverInfo}
    (hchunk : ∃ rxInfo, encodeReceiverInfo receiver = .ok rxInfo ∧
      (chunk.length ≤ 1 ∨ (chunk.flatten.length : ℤ) ≤ cfg.maxPacketLen - overhead rxInfo))
    (left : ℕ) (lastErr : String) (h : s.Sound cfg) :
    (sendAttempts cfg o chunk receiver left lastErr s).2.Sound cfg := by
  induction left generalizing s lastErr with
  | zero => exact h
  | succ left ih =>
    rw [sendAttempts]
    split
    · rename_i text s₁ hs₁
      exact ih _ (sound_connectIfNeededLocked h hs₁).1.closeLocked
    · rename_i conn s₁ hs₁
      obtain ⟨h₁, hconn⟩ := sound_connectIfNeededLocked h hs₁
      have h₂ := sound_attemptOn (o := o) h₁ (hconn conn rfl) hchunk
      split
      · rename_i e s₂ hs₂
        rwa [hs₂] at h₂
      · rename_i packet s₂ hs₂
        rwa [hs₂] at h₂
      · rename_i packet s₂ hs₂
        rw [hs₂] at h₂
        exact ih _ h₂

theorem sound_sendChunks {receiver : ReceiverInfo} {rxInfo : Bytes}
    (hrx : encodeReceiverInfo receiver = .ok rxInfo) {chunks : List (List Bytes)}
    (hchunks : ∀ chunk ∈ chunks,
      chunk.length ≤ 1 ∨ (chunk.flatten.length : ℤ) ≤ cfg.maxPacketLen - overhead rxInfo)
    (h : s.Sound cfg) : (sendChunks cfg o receiver chunks s).2.Sound cfg := by
  induction chunks generalizing s with
  | nil => exact h
  | cons chunk rest ih =>
    have hrest := fun c hc ↦ hchunks c (List.mem_cons_of_mem chunk hc)
    have h₁ := sound_sendAttempts (o := o) ⟨rxInfo, hrx, hchunks chunk List.mem_cons_self⟩
      cfg.maxSendAttemptsPerPacket "no attempts made" h
    rw [← sendOnePacketLocked] at h₁
    rw [sendChunks]
    split_ifs
    · exact ih hrest h
    · split
      · rename_i e s₁ hs₁
        rwa [hs₁] at h₁
      · rename_i err s₁ hs₁
        rw [hs₁] at h₁
        exact ih hrest h₁
      · rename_i err s₁ hs₁
        rwa [hs₁] at h₁

theorem sound_sendEncodedChunks (encoded : List Bytes) (receiver : ReceiverInfo)
    (h : s.Sound cfg) : (sendEncodedChunks cfg o encoded receiver s).2.Sound cfg := by
  rw [sendEncodedChunks]
  split
  · exact h
  · rename_i chunks hchunks
    rw [chunkSpots, Except.bind_eq_ok] at hchunks
    obtain ⟨rxInfo, hrx, hchunks⟩ := hchunks
    refine sound_sendChunks hrx (fun chunk hchunk ↦ ?_) h
    by_cases hbudget : cfg.maxPacketLen - overhead rxInfo ≤ 0
    · simp only [hbudget, if_true] at hchunks
      exact absurd hchunks Except.throw_ne_ok
    · simp only [hbudget, if_false] at hchunks
      obtain rfl := Except.ok.inj hchunks
      exact length_le_or_single_of_mem_chunkLoop (.inl (by simp)) hchunk

theorem sound_afterCall (py : Python) (call : Call py.Finite) (h : s.Sound cfg) :
    (afterCall cfg o py s call).Sound cfg := by
  cases call with
  | ship records identity =>
    rw [afterCall, ship]
    split
    · exact h
    · split_ifs
      · exact h
      · rw [sendSpots]
        split
        · exact h
        · exact sound_sendEncodedChunks _ _ h
  | replay blob =>
    rw [afterCall, replay]
    split
    · exact h
    · dsimp only
      split_ifs
      · exact h
      · exact sound_sendEncodedChunks _ _ h
  | close => exact h.closeLocked

theorem sound_after (py : Python) (calls : List (Call py.Finite)) :
    (after cfg o py calls).Sound cfg := by
  suffices ∀ s : State, s.Sound cfg → (calls.foldl (afterCall cfg o py) s).Sound cfg from
    this _ sound_init
  induction calls with
  | nil => exact fun s h ↦ h
  | cons call calls ih => exact fun s h ↦ ih _ (sound_afterCall py call h)

end Steps

/-! ## The discipline -/

/-- The packet handed to the connection. -/
def Handing.packet? : Handing → Option Bytes
  | .raised _ => none
  | .sent packet => some packet
  | .failed packet => some packet

/-- But for their number nothing is amiss with the spots: with sequence number 0 there is a packet
without spots, and one for each of them alone. -/
def Attempt.Buildable (a : Attempt) : Prop :=
  (∃ out, buildPacket a.receiver [] a.timestamp 0 a.conn.sessionId = .ok out) ∧
    ∀ spot ∈ a.chunk,
      ∃ out, buildPacket a.receiver [spot] a.timestamp 0 a.conn.sessionId = .ok out

/-- The packet is shorter than the 65536 bytes that its length field cannot say. -/
def Attempt.Fits (a : Attempt) : Prop :=
  ∀ rxInfo, encodeReceiverInfo a.receiver = .ok rxInfo →
    16 + (packetBody rxInfo a.chunk).length < 65536

/-- What is asked of the `i`-th attempt: a packet that was handed to the connection carries the
connection's session id and, modulo 2^32, the number of spots sent completely over it before, which
is 0 for its first packet; and no number of spots makes the attempt raise. -/
structure Disciplined (s : State) (i : ℕ) (a : Attempt) : Prop where
  session : ∀ packet, a.handing.packet? = some packet →
    s.opened[a.conn.number]? = some (sessionField packet)
  sequence : ∀ packet, a.handing.packet? = some packet →
    sequenceField packet = sentOn a.conn.number (s.attempts.take i) % 2 ^ 32
  first : (∀ b ∈ s.attempts.take i, b.conn.number ≠ a.conn.number) →
    ∀ packet, a.handing.packet? = some packet → sequenceField packet = 0
  total : a.Buildable → ∀ e, a.handing ≠ .raised e

theorem Attempt.Sound.packet {cfg : Config} {opened : List Bytes} {before : List Attempt}
    {a : Attempt} (h : a.Sound cfg opened before) {packet : Bytes}
    (hp : a.handing.packet? = some packet) :
    buildPacket a.receiver a.chunk a.timestamp a.conn.sequence a.conn.sessionId = .ok packet := by
  have hbuilt := h.built
  cases hh : a.handing with
  | raised e => rw [hh] at hp; cases hp
  | sent p => rw [hh] at hp hbuilt; cases hp; exact hbuilt
  | failed p => rw [hh] at hp hbuilt; cases hp; exact hbuilt

/-- An attempt at spots with which nothing else is amiss raises just where the counter has reached
2^32 or the packet is too long. -/
theorem Attempt.Sound.raised_iff {cfg : Config} {opened : List Bytes} {before : List Attempt}
    {a : Attempt} (h : a.Sound cfg opened before) (ha : a.Buildable) :
    (∀ e, a.handing ≠ .raised e) ↔ sentOn a.conn.number before < 2 ^ 32 ∧ a.Fits := by
  obtain ⟨out, hout⟩ := ha.1
  obtain ⟨rxInfo, hrx, hid, -, htime, -, -⟩ := buildPacket_eq_ok.mp hout
  have hok : (∃ out, buildPacket a.receiver a.chunk a.timestamp a.conn.sequence a.conn.sessionId =
      .ok out) ↔ sentOn a.conn.number before < 2 ^ 32 ∧ a.Fits := by
    rw [← h.sequence]
    constructor
    · rintro ⟨out, hout⟩
      obtain ⟨rxInfo', hrx', -, hlen, -, ⟨-, hseq⟩, -⟩ := buildPacket_eq_ok.mp hout
      refine ⟨by omega, fun rxInfo'' hrx'' ↦ ?_⟩
      obtain rfl := Except.ok.inj (hrx'.symm.trans hrx'')
      exact hlen
    · rintro ⟨hseq, hfits⟩
      exact ⟨_, buildPacket_eq_ok.mpr
        ⟨rxInfo, hrx, hid, hfits rxInfo hrx, htime, ⟨by omega, by omega⟩, rfl⟩⟩
  rw [← hok]
  have hbuilt := h.built
  cases hh : a.handing with
  | raised e =>
    rw [hh] at hbuilt
    rw [hbuilt]
    simp
  | sent p =>
    rw [hh] at hbuilt
    rw [hbuilt]
    simp
  | failed p =>
    rw [hh] at hbuilt
    rw [hbuilt]
    simp

/-- A limit of at most 65532 keeps packets short, whatever the number of spots. -/
theorem Attempt.Sound.fits {cfg : Config} {opened : List Bytes} {before : List Attempt}
    {a : Attempt} (h : a.Sound cfg opened before) (ha : a.Buildable)
    (hcfg : cfg.maxPacketLen ≤ 65532) : a.Fits := by
  intro rxInfo hrx
  obtain ⟨rxInfo', hrx', hchunk⟩ := h.chunk
  obtain rfl := Except.ok.inj (hrx.symm.trans hrx')
  obtain ⟨hover, hmod⟩ := overhead_eq hrx
  have hbody := length_packetBody rxInfo a.chunk
  rcases hchunk with hone | hbudget
  · -- a single spot is a packet that was looked at alone
    match hc : a.chunk with
    | [] =>
      obtain ⟨out, hout⟩ := ha.1
      obtain ⟨rxInfo', hrx', -, hlen, -⟩ := buildPacket_eq_ok.mp hout
      obtain rfl := Except.ok.inj (hrx.symm.trans hrx')
      exact hlen
    | [spot] =>
      obtain ⟨out, hout⟩ := ha.2 spot (by rw [hc]; exact List.mem_cons_self)
      obtain ⟨rxInfo', hrx', -, hlen, -⟩ := buildPacket_eq_ok.mp hout
      obtain rfl := Except.ok.inj (hrx.symm.trans hrx')
      exact hlen
    | _ :: _ :: _ => rw [hc] at hone; simp at hone
  · omega

/-- **The sequence discipline holds in a run exactly when no packet is begun at the 2^32-th spot of
a connection or later** and none is longer than its length field can say, which a limit of at most
65532 rules out. -/
theorem sequence_discipline (cfg : Config) (o : Outside) (py : Python)
    (calls : List (Call py.Finite)) :
    ((∀ (i : ℕ) (a : Attempt), (after cfg o py calls).attempts[i]? = some a →
        Disciplined (after cfg o py calls) i a) ↔
      ∀ (i : ℕ) (a : Attempt), (after cfg o py calls).attempts[i]? = some a → a.Buildable →
        sentOn a.conn.number ((after cfg o py calls).attempts.take i) < 2 ^ 32 ∧ a.Fits) ∧
    (cfg.maxPacketLen ≤ 65532 →
      ∀ (i : ℕ) (a : Attempt), (after cfg o py calls).attempts[i]? = some a → a.Buildable →
        a.Fits) := by
  have hsound : ∀ (i : ℕ) (a : Attempt), (after cfg o py calls).attempts[i]? = some a →
      a.Sound cfg (after cfg o py calls).opened ((after cfg o py calls).attempts.take i) :=
    (sound_after py calls).attempts
  refine ⟨⟨fun h i a hi ha ↦ ?_, fun h i a hi ↦ ?_⟩, fun hcfg i a hi ha ↦ ?_⟩
  · exact ((hsound i a hi).raised_iff ha).mp ((h i a hi).total ha)
  · have hseq : ∀ packet, a.handing.packet? = some packet →
        sequenceField packet = sentOn a.conn.number ((after cfg o py calls).attempts.take i) ∧
          sequenceField packet < 2 ^ 32 := by
      intro packet hp
      have hpacket := (hsound i a hi).packet hp
      obtain ⟨-, -, -, -, -, ⟨-, hlt⟩, -⟩ := buildPacket_eq_ok.mp hpacket
      rw [(packet_fields hpacket).1, ← (hsound i a hi).sequence]
      exact ⟨rfl, by omega⟩
    refine ⟨fun packet hp ↦ ?_, fun packet hp ↦ ?_, fun hfirst packet hp ↦ ?_, fun ha ↦ ?_⟩
    · rw [(packet_fields ((hsound i a hi).packet hp)).2]
      exact (hsound i a hi).opened
    · rw [← (hseq packet hp).1, Nat.mod_eq_of_lt (hseq packet hp).2]
    · rw [(hseq packet hp).1, sentOn_eq_zero hfirst]
    · exact ((hsound i a hi).raised_iff ha).mpr (h i a hi ha)
  · exact (hsound i a hi).fits ha hcfg

/-! ## A run past the field -/

/-- A receiver without any text. -/
def blankReceiver : ReceiverInfo where
  callsign := []
  locator := []
  decodingSoftware := []

/-- The bytes of a spot without any text. -/
def blankSpot : Bytes := [0, 0, 0, 0, 0, 0, 0, 0, 1, 0, 0, 0, 0, 0]

/-- The retry blob of one spot. -/
def blankBlob : Bytes :=
  [0, 8, 0, 0, 0, 0, 0, 0, 0, 0] ++ [0, 0, 0, 1] ++ [0, 14] ++ blankSpot

/-- A network that takes everything. -/
def calm : Outside where
  connect _ := .ok ()
  sessionId _ := ⟨[1, 2, 3, 4], rfl⟩
  clock _ := 0
  sendall _ := .ok ()

/-- The connection of a run on that network, after some spots. -/
def calmConn (sequence : ℕ) : Conn where
  number := 0
  sessionId := [1, 2, 3, 4]
  sequence := sequence

theorem encodeReceiverInfo_blank :
    encodeReceiverInfo blankReceiver = .ok [0x99, 0x92, 0, 8, 0, 0, 0, 0] := rfl

theorem replay_blankBlob (s : State) :
    replay {} calm blankBlob s = sendChunks {} calm blankReceiver [[blankSpot]] s := by
  have hrx : decodeReceiverBlob (receiverPart blankBlob) = .ok blankReceiver := by
    have hpart : receiverPart blankBlob = [0, 0, 0, 0, 0, 0, 0, 0] := rfl
    have hnone : PyText.decode [] = .ok [] := PyText.decode_encode (s := []) rfl
    have hzero : ofBigEndian [0, 0] = 0 := rfl
    rw [hpart, decodeReceiverBlob]
    simp only [decodeFields, List.take, List.drop, hzero, hnone]
    rfl
  have hspots : decodeSpots (ofBigEndian ((spotsPart blankBlob).take 4))
      ((spotsPart blankBlob).drop 4) = [blankSpot] := rfl
  have hchunks : chunkSpots [blankSpot] maxPacketLenTcp blankReceiver = .ok [[blankSpot]] := by
    rw [chunkSpots_eq encodeReceiverInfo_blank (by decide)]
    exact congrArg Except.ok (chunkLoop_of_le (by decide) (List.cons_ne_nil _ _))
  rw [replay, hrx]
  simp only [hspots, List.cons_ne_nil, if_false, sendEncodedChunks, hchunks]

theorem buildPacket_blank {spots : List Bytes} (hspots : spots.flatten.length ≤ 14) {sequence : ℤ}
    (h : 0 ≤ sequence ∧ sequence < 2 ^ 32) :
    ∃ out, buildPacket blankReceiver spots 0 sequence [1, 2, 3, 4] = .ok out := by
  refine ⟨_, buildPacket_eq_ok.mpr ⟨_, encodeReceiverInfo_blank, rfl, ?_, by omega, h, rfl⟩⟩
  rw [length_packetBody]
  simp only [List.length_cons, List.length_nil]
  omega

theorem replay_below {s : State} {k : ℕ} (hk : k < 2 ^ 32)
    (hconn : (connectIfNeededLocked calm s).1 = .ok (calmConn k)) :
    (replay {} calm blankBlob s).2.conn = some (calmConn (k + 1)) := by
  obtain ⟨out, hout⟩ := buildPacket_blank (by decide : [blankSpot].flatten.length ≤ 14)
    (⟨by omega, by omega⟩ : 0 ≤ (k : ℤ) ∧ (k : ℤ) < 2 ^ 32)
  have hs : connectIfNeededLocked calm s =
      (.ok (calmConn k), (connectIfNeededLocked calm s).2) := by
    rw [← hconn]
  have hsent : ∃ s', attemptOn calm [blankSpot] blankReceiver (calmConn k)
      (connectIfNeededLocked calm s).2 = (.sent out, s') ∧ s'.conn = some (calmConn (k + 1)) := by
    rw [attemptOn]
    dsimp only [calm, calmConn]
    rw [hout]
    exact ⟨_, rfl, rfl⟩
  obtain ⟨s', hs', hconn'⟩ := hsent
  have hsend : sendOnePacketLocked {} calm [blankSpot] blankReceiver s = (.ok (true, ""), s') := by
    change sendAttempts {} calm [blankSpot] blankReceiver (4 + 1) "no attempts made" s = _
    rw [sendAttempts, hs]
    dsimp only
    rw [hs']
  rw [replay_blankBlob, sendChunks, if_neg (List.cons_ne_nil _ _), hsend]
  exact hconn'

theorem replay_at_limit {s : State} (hconn : s.conn = some (calmConn (2 ^ 32))) :
    ∃ a e, (replay {} calm blankBlob s).2.attempts = s.attempts ++ [a] ∧ a.Buildable ∧
      a.handing = .raised e := by
  have hs : connectIfNeededLocked calm s = (.ok (calmConn (2 ^ 32)), s) := by
    rw [connectIfNeededLocked, hconn]
  obtain ⟨e, he⟩ : ∃ e, buildPacket blankReceiver [blankSpot] 0 ((2 ^ 32 : ℕ) : ℤ) [1, 2, 3, 4] =
      .error e := by
    cases hb : buildPacket blankReceiver [blankSpot] 0 ((2 ^ 32 : ℕ) : ℤ) [1, 2, 3, 4] with
    | error e => exact ⟨e, rfl⟩
    | ok out =>
      obtain ⟨-, -, -, -, -, ⟨-, hlt⟩, -⟩ := buildPacket_eq_ok.mp hb
      norm_num at hlt
  have hraised : ∃ a s', attemptOn calm [blankSpot] blankReceiver (calmConn (2 ^ 32)) s =
      (.raised e, s') ∧ s'.attempts = s.attempts ++ [a] ∧ a.Buildable ∧ a.handing = .raised e := by
    rw [attemptOn]
    dsimp only [calm, calmConn]
    rw [he]
    refine ⟨_, _, rfl, rfl, ⟨buildPacket_blank (by decide) (by decide), ?_⟩, rfl⟩
    intro spot hspot
    obtain rfl := List.mem_singleton.mp hspot
    exact buildPacket_blank (by decide) (by decide)
  obtain ⟨a, s', hs', hattempts, ha, hh⟩ := hraised
  have hsend : sendOnePacketLocked {} calm [blankSpot] blankReceiver s = (.error e, s') := by
    change sendAttempts {} calm [blankSpot] blankReceiver (4 + 1) "no attempts made" s = _
    rw [sendAttempts, hs]
    dsimp only
    rw [hs']
  rw [replay_blankBlob, sendChunks, if_neg (List.cons_ne_nil _ _), hsend]
  exact ⟨a, e, hattempts, ha, hh⟩

theorem after_replay (cfg : Config) (o : Outside) (py : Python) (calls : List (Call py.Finite))
    (blob : Bytes) :
    after cfg o py (calls ++ [.replay blob]) = (replay cfg o blob (after cfg o py calls)).2 := by
  rw [after, List.foldl_append, List.foldl_cons, List.foldl_nil, afterCall, after]

theorem conn_after_replays (py : Python) {k : ℕ} (h : k < 2 ^ 32) :
    (after {} calm py (List.replicate (k + 1) (.replay blankBlob))).conn =
      some (calmConn (k + 1)) := by
  induction k with
  | zero =>
    rw [List.replicate_succ', after_replay]
    exact replay_below h rfl
  | succ k ih =>
    rw [List.replicate_succ', after_replay]
    refine replay_below h ?_
    rw [connectIfNeededLocked, ih (by omega)]

/-- The packet at the 2^32-th spot of a connection is never built: `build_packet` raises, and the
transport with it. -/
theorem sequence_discipline_fails :
    ¬ ∀ (cfg : Config) (o : Outside) (py : Python) (calls : List (Call py.Finite)) (i : ℕ)
      (a : Attempt), (after cfg o py calls).attempts[i]? = some a →
        Disciplined (after cfg o py calls) i a := by
  intro hall
  have py : Python := ⟨ℕ, fun _ ↦ false, fun _ ↦ 0, fun _ ↦ none, fun _ ↦ [], id, id⟩
  have hconn := conn_after_replays py (k := 2 ^ 32 - 1) (by omega)
  rw [Nat.sub_add_cancel (by omega)] at hconn
  obtain ⟨a, e, hattempts, ha, hh⟩ := replay_at_limit hconn
  have hget : (after {} calm py (List.replicate (2 ^ 32) (.replay blankBlob) ++
      [.replay blankBlob])).attempts[(after {} calm py
        (List.replicate (2 ^ 32) (.replay blankBlob))).attempts.length]? = some a := by
    rw [after_replay, hattempts, List.getElem?_concat_length]
  exact (hall {} calm py _ _ a hget).total ha e hh

end HsUploader.PskReporter
