import HsUploader.Transports.PskRetryBlob
import HsUploader.Transports.PskSequence

/-!
# Rows that cannot be sent

`_record_to_spot` leaves out a row without a call or a frequency, and `encode_spot` writes what it
lets through.  What of a row makes one of the two raise, and the whole batch with it, is said here
field by field; where no row does, the rows that can be put on the wire are sent and the others
left out.
-/

set_option autoImplicit false

namespace HsUploader.PskReporter

open Psk

section

variable (py : Python)

/-! ## One row -/

/-- The row has no call or no frequency. -/
def Missing (r : Record py.Finite) : Prop :=
  py.truthy (callOf py r.columns) = false ∨ py.truthy (freqOf py r.columns) = false

/-- The number fits into the four bytes of its field. -/
def FitsField (n : ℤ) : Prop := 0 ≤ n ∧ n < 2 ^ 32

/-- Call, frequency and time of the row can be put on the wire. -/
structure OnWire (r : Record py.Finite) : Prop where
  there : ¬ Missing py r
  call : (py.str (callOf py r.columns)).Encodable
  freq : ∃ n, py.int (freqOf py r.columns) = .ok n ∧ FitsField n
  time : ∃ micros, r.time = .ok micros ∧ FitsField (micros.tdiv 1000000)

/-- The other fields of the row can be put on the wire too. -/
structure RestOnWire (r : Record py.Finite) : Prop where
  snr : ∀ negative, snrOf py r.columns ≠ .float (.inf negative)
  mode : ∃ m, modeOf py r.columns = .str m ∧
    PyText.Encodable ((modeMap.lookup (py.lower m)).getD (py.upper m))
  locator : (py.str (locatorOf py r.columns)).Encodable
  message : py.truthy (r.columns.get "message_bytes") = false ∨
    ∃ text, r.columns.get "message_bytes" = .str text

/-- No step of the row's way to the wire raises: something is missing, so that it is left out at
once, or every field can be put on the wire. -/
def Tolerable (r : Record py.Finite) : Prop := Missing py r ∨ (OnWire py r ∧ RestOnWire py r)

/-- The bytes are a spot with the row's call, frequency and time. -/
def Carries (r : Record py.Finite) (b : Bytes) : Prop :=
  ∃ spot, encodeSpot spot = .ok b ∧ spot.callsign = py.str (callOf py r.columns) ∧
    py.int (freqOf py r.columns) = .ok spot.frequencyHz ∧ timeOf py r = .ok spot.timestamp

variable {py}

theorem recordToSpot_of_missing {r : Record py.Finite} (h : Missing py r) :
    recordToSpot py r = .ok none := by
  have hm : (!py.truthy (callOf py r.columns) || !py.truthy (freqOf py r.columns)) = true := by
    rcases h with h | h <;> simp [h]
  simp only [recordToSpot, hm, if_true]
  rfl

theorem timeOf_eq_ok {r : Record py.Finite} {t : ℤ} :
    timeOf py r = .ok t ↔ ∃ micros, r.time = .ok micros ∧ micros.tdiv 1000000 = t := by
  simp only [timeOf, Except.bind_eq_ok, Except.pure_eq_ok]

/-- A message is bytes where the column is false or holds a text. -/
theorem messageOf_eq_bytes {cols : Columns py.Finite} :
    (∃ raw, messageOf py cols = .bytes raw) ↔
      py.truthy (cols.get "message_bytes") = false ∨
        ∃ text, cols.get "message_bytes" = .str text := by
  rw [messageOf]
  cases htrue : py.truthy (cols.get "message_bytes") with
  | false => simp
  | true => cases cols.get "message_bytes" <;> simp

theorem snrInt_eq_ok {v : PyValue py.Finite} :
    (∃ n, snrInt py v = .ok n) ↔ ∀ negative, v ≠ .float (.inf negative) := by
  cases v with
  | float x => cases x <;> simp [snrInt, Python.int]
  | str s => cases h : py.intOfText s <;> simp [snrInt, Python.int, h]
  | _ => simp [snrInt, Python.int]

theorem modeForPskr_eq_ok {v : PyValue py.Finite} {m : PyText} :
    modeForPskr py v = .ok m ↔
      ∃ s, v = .str s ∧ (modeMap.lookup (py.lower s)).getD (py.upper s) = m := by
  cases v <;> simp [modeForPskr]

theorem recordToSpot_eq_some {r : Record py.Finite} (h : ¬ Missing py r) {spot : Spot} :
    recordToSpot py r = .ok (some spot) ↔
      spot.callsign = py.str (callOf py r.columns) ∧
      py.int (freqOf py r.columns) = .ok spot.frequencyHz ∧
      snrInt py (snrOf py r.columns) = .ok spot.snrDb ∧
      modeForPskr py (modeOf py r.columns) = .ok spot.mode ∧
      spot.locator = py.str (locatorOf py r.columns) ∧ timeOf py r = .ok spot.timestamp ∧
      spot.messageBytes = messageOf py r.columns := by
  have hm : (!py.truthy (callOf py r.columns) || !py.truthy (freqOf py r.columns)) = false := by
    rw [Missing, not_or] at h
    simpa using h
  simp only [recordToSpot, hm, Bool.false_eq_true, if_false, Except.bind_eq_ok,
    Except.pure_eq_ok, Option.some.injEq]
  constructor
  · rintro ⟨snr, hsnr, mode, hmode, t, ht, freq, hfreq, rfl⟩
    exact ⟨rfl, hfreq, hsnr, hmode, rfl, ht, rfl⟩
  · rintro ⟨hcall, hfreq, hsnr, hmode, hlocator, ht, hmessage⟩
    refine ⟨_, hsnr, _, hmode, _, ht, _, hfreq, ?_⟩
    rw [← hcall, ← hlocator, ← hmessage]

theorem missing_of_recordToSpot {r : Record py.Finite} (h : recordToSpot py r = .ok none) :
    Missing py r := by
  by_contra hmiss
  have hm : (!py.truthy (callOf py r.columns) || !py.truthy (freqOf py r.columns)) = false := by
    rw [Missing, not_or] at hmiss
    simpa using hmiss
  simp only [recordToSpot, hm, Bool.false_eq_true, if_false, Except.bind_eq_ok, Except.pure_eq_ok,
    reduceCtorEq, and_false, exists_false] at h

theorem encStr_ok_iff {t : PyText} : (∃ b, encStr t = .ok b) ↔ t.Encodable := by
  simp only [encStr_eq_ok, PyText.Encodable]
  constructor
  · rintro ⟨b, raw, hraw, -⟩
    exact ⟨raw, hraw⟩
  · rintro ⟨raw, hraw⟩
    exact ⟨_, raw, hraw, rfl⟩

theorem toBytes_ok_iff {n : ℤ} : (∃ b, toBytes 4 n = .ok b) ↔ FitsField n := by
  simp only [toBytes_eq_ok, FitsField]
  constructor
  · rintro ⟨b, h₀, h₁, -⟩
    exact ⟨h₀, h₁⟩
  · rintro ⟨h₀, h₁⟩
    exact ⟨_, h₀, h₁, rfl⟩

theorem encodeSpot_ok_iff {spot : Spot} :
    (∃ b, encodeSpot spot = .ok b) ↔
      spot.callsign.Encodable ∧ FitsField spot.frequencyHz ∧ spot.mode.Encodable ∧
      spot.locator.Encodable ∧ FitsField spot.timestamp ∧
      ∃ raw, spot.messageBytes = .bytes raw := by
  simp only [encodeSpot, Except.bind_eq_ok, Except.pure_eq_ok, ← encStr_ok_iff, ← toBytes_ok_iff]
  constructor
  · rintro ⟨b, callsign, hc, frequency, hf, mode, hm, locator, hl, timestamp, ht, message, hb, -⟩
    obtain ⟨raw, hraw, -⟩ := encBytes_eq_ok.mp hb
    exact ⟨⟨_, hc⟩, ⟨_, hf⟩, ⟨_, hm⟩, ⟨_, hl⟩, ⟨_, ht⟩, raw, hraw⟩
  · rintro ⟨⟨_, hc⟩, ⟨_, hf⟩, ⟨_, hm⟩, ⟨_, hl⟩, ⟨_, ht⟩, raw, hraw⟩
    exact ⟨_, _, hc, _, hf, _, hm, _, hl, _, ht, _, encBytes_eq_ok.mpr ⟨raw, hraw, rfl⟩, rfl⟩

/-- A row that is there gets to the wire exactly when every field of it can be put there. -/
theorem sent_iff {r : Record py.Finite} (h : ¬ Missing py r) :
    (∃ spot b, recordToSpot py r = .ok (some spot) ∧ encodeSpot spot = .ok b) ↔
      OnWire py r ∧ RestOnWire py r := by
  constructor
  · rintro ⟨spot, b, hspot, hb⟩
    obtain ⟨hcall, hfreq, hsnr, hmode, hlocator, ht, hmessage⟩ := (recordToSpot_eq_some h).mp hspot
    obtain ⟨hc, hf, hm, hl, htf, raw, hraw⟩ := encodeSpot_ok_iff.mp ⟨b, hb⟩
    obtain ⟨m, hm', hmode'⟩ := modeForPskr_eq_ok.mp hmode
    obtain ⟨micros, hmicros, hsecs⟩ := timeOf_eq_ok.mp ht
    refine ⟨⟨h, hcall ▸ hc, ⟨_, hfreq, hf⟩, micros, hmicros, hsecs ▸ htf⟩, ?_⟩
    exact ⟨snrInt_eq_ok.mp ⟨_, hsnr⟩, ⟨m, hm', hmode' ▸ hm⟩, hlocator ▸ hl,
      messageOf_eq_bytes.mp ⟨raw, hmessage ▸ hraw⟩⟩
  · rintro ⟨hwire, hrest⟩
    obtain ⟨n, hn, hnf⟩ := hwire.freq
    obtain ⟨micros, hmicros, htf⟩ := hwire.time
    have ht := timeOf_eq_ok.mpr ⟨micros, hmicros, rfl⟩
    obtain ⟨snr, hsnr⟩ := snrInt_eq_ok.mpr hrest.snr
    obtain ⟨m, hm, hmode⟩ := hrest.mode
    obtain ⟨raw, hraw⟩ := messageOf_eq_bytes.mpr hrest.message
    let spot : Spot :=
      { callsign := py.str (callOf py r.columns), frequencyHz := n, snrDb := snr
        mode := (modeMap.lookup (py.lower m)).getD (py.upper m)
        locator := py.str (locatorOf py r.columns), timestamp := micros.tdiv 1000000
        messageBytes := messageOf py r.columns }
    obtain ⟨b, hb⟩ : ∃ b, encodeSpot spot = .ok b := encodeSpot_ok_iff.mpr
      ⟨hwire.call, hnf, hmode, hrest.locator, htf, raw, hraw⟩
    exact ⟨spot, b, (recordToSpot_eq_some h).mpr
      ⟨rfl, hn, hsnr, modeForPskr_eq_ok.mpr ⟨m, hm, rfl⟩, rfl, ht, rfl⟩, hb⟩

/-! ## A batch -/

variable (py) in
/-- The encoded spots are those of the rows that can be put on the wire, in order; the others are
left out. -/
inductive SentRows : List (Record py.Finite) → List Bytes → Prop where
  | nil : SentRows [] []
  | sent {r : Record py.Finite} {b : Bytes} {rs : List (Record py.Finite)} {bs : List Bytes}
      (hwire : OnWire py r) (hb : Carries py r b) (h : SentRows rs bs) :
      SentRows (r :: rs) (b :: bs)
  | leftOut {r : Record py.Finite} {rs : List (Record py.Finite)} {bs : List Bytes}
      (hwire : ¬ OnWire py r) (h : SentRows rs bs) : SentRows (r :: rs) bs

variable (py) in
/-- Every row is tolerated: neither `ship` nor `serialize_for_retry` raises because of one, a row
that cannot be put on the wire is left out and all others are sent. -/
def Tolerant (records : List (Record py.Finite)) : Prop :=
  ∃ encoded, SentRows py records encoded ∧ ∀ (cfg : Config) (identity : Identity),
    (∀ o s, ship cfg o py records identity s =
      if encoded = [] then (.ok .acked, s)
      else sendEncodedChunks cfg o encoded (receiverInfo cfg identity) s) ∧
    serializeForRetry cfg py records identity = (do
      let rxBlob ← receiverBlob (receiverInfo cfg identity)
      retryBlob rxBlob encoded)

theorem spotsOf_cons (r : Record py.Finite) (rs : List (Record py.Finite)) :
    spotsOf py (r :: rs) = (do
      let spot ← recordToSpot py r
      let spots ← spotsOf py rs
      pure (spot.toList ++ spots)) := by
  rw [spotsOf, List.mapM_cons]
  cases recordToSpot py r with
  | error e => rfl
  | ok spot =>
    rw [spotsOf]
    cases rs.mapM (recordToSpot py) with
    | error e => rfl
    | ok spots => cases spot <;> rfl

/-- Where every row is tolerable the spots of the batch are all encoded. -/
theorem exists_encoded {records : List (Record py.Finite)} (h : ∀ r ∈ records, Tolerable py r) :
    ∃ spots encoded, spotsOf py records = .ok spots ∧ spots.mapM encodeSpot = .ok encoded ∧
      SentRows py records encoded := by
  induction records with
  | nil => exact ⟨[], [], rfl, rfl, .nil⟩
  | cons r rs ih =>
    obtain ⟨spots, encoded, hspots, hencoded, hsent⟩ :=
      ih fun r' hr ↦ h r' (List.mem_cons_of_mem _ hr)
    rw [spotsOf_cons]
    rcases h r List.mem_cons_self with hmiss | hok
    · refine ⟨spots, encoded, ?_, hencoded, .leftOut (fun hwire ↦ hwire.there hmiss) hsent⟩
      rw [recordToSpot_of_missing hmiss, hspots]
      rfl
    · obtain ⟨spot, b, hspot, hb⟩ := (sent_iff hok.1.there).mpr hok
      obtain ⟨hcall, hfreq, -, -, -, ht, -⟩ := (recordToSpot_eq_some hok.1.there).mp hspot
      refine ⟨spot :: spots, b :: encoded, ?_, ?_, .sent hok.1 ⟨spot, hb, hcall, hfreq, ht⟩ hsent⟩
      · rw [hspot, hspots]
        rfl
      · rw [List.mapM_cons, hb, hencoded]
        rfl

/-- Where the spots of the batch are all encoded every row is tolerable. -/
theorem tolerable_of_encoded {records : List (Record py.Finite)} {spots : List Spot}
    {encoded : List Bytes} (hspots : spotsOf py records = .ok spots)
    (hencoded : spots.mapM encodeSpot = .ok encoded) : ∀ r ∈ records, Tolerable py r := by
  induction records generalizing spots encoded with
  | nil => exact fun r hr ↦ absurd hr List.not_mem_nil
  | cons r rs ih =>
    simp only [spotsOf_cons, Except.bind_eq_ok, Except.pure_eq_ok] at hspots
    obtain ⟨spot?, hspot, spots, hspots, rfl⟩ := hspots
    rw [List.forall_mem_cons]
    by_cases hmiss : Missing py r
    · rw [recordToSpot_of_missing hmiss] at hspot
      obtain rfl := Except.ok.inj hspot
      exact ⟨.inl hmiss, ih hspots hencoded⟩
    · cases spot? with
      | none => exact absurd (missing_of_recordToSpot hspot) hmiss
      | some spot =>
        rw [Option.toList_some, List.singleton_append, List.mapM_cons,
          Except.bind_eq_ok] at hencoded
        obtain ⟨b, hb, hencoded⟩ := hencoded
        simp only [Except.bind_eq_ok, Except.pure_eq_ok] at hencoded
        obtain ⟨encoded, hencoded, rfl⟩ := hencoded
        exact ⟨.inr ((sent_iff hmiss).mp ⟨spot, b, hspot, hb⟩), ih hspots hencoded⟩

theorem sendChunks_without_attempts {cfg : Config} (hcfg : cfg.maxSendAttemptsPerPacket = 0)
    (o : Outside) (receiver : ReceiverInfo) (chunks : List (List Bytes)) (s : State) :
    ∃ out, (sendChunks cfg o receiver chunks s).1 = .ok out := by
  induction chunks with
  | nil => exact ⟨_, rfl⟩
  | cons chunk rest ih =>
    rw [sendChunks]
    split_ifs
    · exact ih
    · rw [sendOnePacketLocked, hcfg]
      exact ⟨_, rfl⟩

theorem encoded_of_ship {cfg : Config} {o : Outside} {records : List (Record py.Finite)}
    {identity : Identity} {s : State} {out : Outcome Unit}
    (h : (ship cfg o py records identity s).1 = .ok out) :
    ∃ spots encoded, spotsOf py records = .ok spots ∧ spots.mapM encodeSpot = .ok encoded := by
  rw [ship] at h
  cases hspots : spotsOf py records with
  | error e => rw [hspots] at h; cases h
  | ok spots =>
    cases hencoded : spots.mapM encodeSpot with
    | ok encoded => exact ⟨spots, encoded, rfl, hencoded⟩
    | error e =>
      have hne : spots ≠ [] := by
        rintro rfl
        cases hencoded
      rw [hspots] at h
      simp only [hne, if_false, sendSpots, hencoded] at h
      cases h

theorem tolerable_of_tolerant {records : List (Record py.Finite)} (h : Tolerant py records) :
    ∀ r ∈ records, Tolerable py r := by
  obtain ⟨encoded, -, hall⟩ := h
  -- a transport that makes no attempt raises for no batch of its own accord
  let cfg : Config := { decodingSoftware := [], maxSendAttemptsPerPacket := 0 }
  have hok : ∃ out, (ship cfg calm py records ⟨[], []⟩ {}).1 = .ok out := by
    rw [(hall cfg ⟨[], []⟩).1 calm {}]
    split_ifs
    · exact ⟨_, rfl⟩
    · have hrx : receiverInfo cfg ⟨[], []⟩ = blankReceiver := rfl
      have hchunks : chunkSpots encoded cfg.maxPacketLen blankReceiver = _ :=
        chunkSpots_eq encodeReceiverInfo_blank (by decide) encoded
      rw [sendEncodedChunks, hrx, hchunks]
      exact sendChunks_without_attempts rfl calm blankReceiver _ _
  obtain ⟨out, hout⟩ := hok
  obtain ⟨spots, encoded', hspots, hencoded⟩ := encoded_of_ship hout
  exact tolerable_of_encoded hspots hencoded

end

/-- **Every row of a batch is tolerated exactly when each of them is tolerable**: nothing is
missing in it and every field can be put on the wire, or its call or frequency is missing. -/
theorem tolerant_iff (py : Python) (records : List (Record py.Finite)) :
    Tolerant py records ↔ ∀ r ∈ records, Tolerable py r := by
  refine ⟨tolerable_of_tolerant, fun h ↦ ?_⟩
  obtain ⟨spots, encoded, hspots, hencoded, hsent⟩ := exists_encoded h
  refine ⟨encoded, hsent, fun cfg identity ↦ ⟨fun o s ↦ ?_, ?_⟩⟩
  · rw [ship, hspots]
    simp only [sendSpots, hencoded, mapM_eq_nil hencoded]
  · rw [serializeForRetry, hspots]
    simp only [Except.ok_bind, hencoded]

/-- A row whose frequency is a text that is no number makes `ship` raise. -/
theorem tolerant_fails :
    ¬ ∀ (py : Python) (records : List (Record py.Finite)), Tolerant py records := by
  intro hall
  let py : Python := ⟨ℕ, fun _ ↦ false, fun _ ↦ 0, fun _ ↦ none, fun _ ↦ [], id, id⟩
  let row : Record py.Finite :=
    { time := .ok 0
      columns := [("tx_call", .str (.ofString "K1ABC")), ("frequency", .str (.ofString "high"))] }
  rcases tolerable_of_tolerant (hall py [row]) row List.mem_cons_self with hmiss | ⟨hwire, -⟩
  · rcases hmiss with h | h <;> cases h
  · obtain ⟨n, hn, -⟩ := hwire.freq
    cases hn

end HsUploader.PskReporter
