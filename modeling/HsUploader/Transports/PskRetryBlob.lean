import HsUploader.Transports.PskReporter

/-!
# The retry blob

`serialize_for_retry` writes the receiver and the encoded spots with their lengths, and `replay`
reads them back by slicing.  What was written is read back exactly; what was not is read too, since
a slice past the end is only shorter: the one thing that makes `replay` refuse a blob is a text of
the receiver that is not UTF-8.
-/

set_option autoImplicit false

namespace HsUploader.PskReporter

open Psk

/-! ## What was written is read back -/

theorem prefixed_eq_ok {b out : Bytes} :
    prefixed b = .ok out ↔ b.length < 65536 ∧ bigEndian 2 b.length ++ b = out := by
  simp only [prefixed, u16, Except.bind_eq_ok, Except.pure_eq_ok]
  constructor
  · rintro ⟨length, hlength, rfl⟩
    obtain ⟨-, hlt, rfl⟩ := toBytes_eq_ok.mp hlength
    exact ⟨by omega, rfl⟩
  · rintro ⟨hlt, rfl⟩
    exact ⟨_, toBytes_eq_ok.mpr ⟨by omega, by omega, rfl⟩, rfl⟩

/-- What stands behind its length is cut out whole, and the rest is what is left. -/
theorem cut_prefixed {b out : Bytes} (h : prefixed b = .ok out) (rest : Bytes) :
    ofBigEndian ((out ++ rest).take 2) = b.length ∧ ((out ++ rest).drop 2).take b.length = b ∧
      ((out ++ rest).drop 2).drop b.length = rest := by
  obtain ⟨hlt, rfl⟩ := prefixed_eq_ok.mp h
  rw [List.append_assoc, List.take_left' (length_bigEndian 2 _),
    List.drop_left' (length_bigEndian 2 _)]
  exact ⟨ofBigEndian_bigEndian (by omega), List.take_left' rfl, List.drop_left' rfl⟩

theorem ne_nil_of_prefixed {b out : Bytes} (h : prefixed b = .ok out) (rest : Bytes) :
    out ++ rest ≠ [] := by
  obtain ⟨-, rfl⟩ := prefixed_eq_ok.mp h
  exact List.cons_ne_nil _ _

theorem decodeFields_prefixedText {t : PyText} {out : Bytes} (h : prefixedText t = .ok out)
    (left : ℕ) (rest : Bytes) :
    decodeFields (left + 1) (out ++ rest) = (do
      let more ← decodeFields left rest
      pure (t :: more)) := by
  obtain ⟨raw, hraw, hout⟩ := Except.bind_eq_ok.mp h
  obtain ⟨hlen, htake, hdrop⟩ := cut_prefixed hout rest
  rw [decodeFields, if_neg (ne_nil_of_prefixed hout rest), hlen]
  dsimp only
  rw [htake, hdrop, PyText.decode_encode hraw, Except.ok_bind]

theorem decodeReceiverBlob_receiverBlob {rx : ReceiverInfo} {blob : Bytes}
    (h : receiverBlob rx = .ok blob) : decodeReceiverBlob blob = .ok rx := by
  simp only [receiverBlob, Except.bind_eq_ok, Except.pure_eq_ok] at h
  obtain ⟨callsign, hc, locator, hl, software, hs, antenna, ha, rfl⟩ := h
  have hnil := decodeFields_prefixedText ha 0 []
  rw [List.append_nil] at hnil
  rw [decodeReceiverBlob, List.append_assoc, List.append_assoc, decodeFields_prefixedText hc,
    decodeFields_prefixedText hl, decodeFields_prefixedText hs, hnil]
  rfl

theorem decodeSpots_prefixed {encoded blobs : List Bytes} (h : encoded.mapM prefixed = .ok blobs) :
    decodeSpots encoded.length blobs.flatten = encoded := by
  induction encoded generalizing blobs with
  | nil => rfl
  | cons b encoded ih =>
    simp only [List.mapM_cons, Except.bind_eq_ok, Except.pure_eq_ok] at h
    obtain ⟨out, hout, blobs, hblobs, rfl⟩ := h
    obtain ⟨hlen, htake, hdrop⟩ := cut_prefixed hout blobs.flatten
    rw [List.length_cons, decodeSpots, List.flatten_cons, hlen, htake, hdrop, ih hblobs]

/-- A retry blob gives back the receiver and the encoded spots it was made of. -/
theorem decode_retryBlob {rx : ReceiverInfo} {rxBlob blob : Bytes} {encoded : List Bytes}
    (hrx : receiverBlob rx = .ok rxBlob) (h : retryBlob rxBlob encoded = .ok blob) :
    decodeReceiverBlob (receiverPart blob) = .ok rx ∧
      decodeSpots (ofBigEndian ((spotsPart blob).take 4)) ((spotsPart blob).drop 4) = encoded := by
  simp only [retryBlob, Except.bind_eq_ok, Except.pure_eq_ok] at h
  obtain ⟨receiver, hreceiver, count, hcount, blobs, hblobs, rfl⟩ := h
  obtain ⟨-, hlt, rfl⟩ := toBytes_eq_ok.mp hcount
  obtain ⟨hlen, htake, hdrop⟩ :=
    cut_prefixed hreceiver (bigEndian 4 (encoded.length : ℤ).toNat ++ blobs.flatten)
  rw [List.append_assoc, receiverPart, spotsPart, hlen, htake, hdrop,
    List.take_left' (length_bigEndian 4 _), List.drop_left' (length_bigEndian 4 _),
    ofBigEndian_bigEndian (by omega), Int.toNat_natCast]
  exact ⟨decodeReceiverBlob_receiverBlob hrx, decodeSpots_prefixed hblobs⟩

theorem mapM_eq_nil {α β : Type} {f : α → Except Exn β} {l : List α} {l' : List β}
    (h : l.mapM f = .ok l') : l' = [] ↔ l = [] := by
  cases l with
  | nil => cases h; simp
  | cons a l =>
    simp only [List.mapM_cons, Except.bind_eq_ok, Except.pure_eq_ok] at h
    obtain ⟨b, -, l'', -, rfl⟩ := h
    simp

section

variable (cfg : Config) (o : Outside) (py : Python)

theorem replay_serializeForRetry {records : List (Record py.Finite)} {identity : Identity}
    {blob : Bytes} (h : serializeForRetry cfg py records identity = .ok blob) (s : State) :
    replay cfg o blob s = ship cfg o py records identity s := by
  simp only [serializeForRetry, Except.bind_eq_ok] at h
  obtain ⟨rxBlob, hrx, spots, hspots, encoded, hencoded, hblob⟩ := h
  obtain ⟨hreceiver, hdecoded⟩ := decode_retryBlob hrx hblob
  rw [replay, ship, hreceiver, hspots]
  simp only [hdecoded, sendSpots, hencoded, mapM_eq_nil hencoded]

/-! ## What was not is read too -/

/-- The fields that `_decode_receiver_blob` cuts out, of which `left` are left. -/
def fieldCuts : ℕ → Bytes → List Bytes
  | 0, _ => []
  | left + 1, blob =>
    if blob = [] then []
    else
      (blob.drop 2).take (ofBigEndian (blob.take 2)) ::
        fieldCuts left ((blob.drop 2).drop (ofBigEndian (blob.take 2)))

theorem decodeFields_eq (left : ℕ) (blob : Bytes) :
    decodeFields left blob = (fieldCuts left blob).mapM PyText.decode := by
  induction left generalizing blob with
  | zero => rfl
  | succ left ih =>
    rw [decodeFields, fieldCuts]
    split_ifs
    · rfl
    · rw [List.mapM_cons, ← ih]

/-- A text of the receiver, as the blob's lengths cut it out, is not UTF-8. -/
def Undecodable (blob : Bytes) : Prop :=
  ∃ field ∈ fieldCuts 4 (receiverPart blob), String.fromUTF8? ⟨⟨field⟩⟩ = none

/-- The blob is refused as a permanent failure, and nothing is sent. -/
def Rejected (blob : Bytes) (s : State) : Prop :=
  ∃ reason, replay cfg o blob s = (.ok (.permanentFailure reason), s)

/-- The blob is the serialization of a receiver and spots. -/
def IsSerialization (blob : Bytes) : Prop :=
  ∃ (rx : ReceiverInfo) (spots : List Spot) (rxBlob : Bytes) (encoded : List Bytes),
    receiverBlob rx = .ok rxBlob ∧ spots.mapM encodeSpot = .ok encoded ∧
      retryBlob rxBlob encoded = .ok blob

theorem decodeReceiverBlob_eq_error {part : Bytes} :
    (∃ e, decodeReceiverBlob part = .error e) ↔
      ∃ field ∈ fieldCuts 4 part, String.fromUTF8? ⟨⟨field⟩⟩ = none := by
  have hmapM : ∀ l : List Bytes, (∃ e, l.mapM PyText.decode = .error e) ↔
      ∃ field ∈ l, String.fromUTF8? ⟨⟨field⟩⟩ = none := by
    intro l
    induction l with
    | nil => simp [pure, Except.pure]
    | cons b l ih =>
      rw [List.mapM_cons, List.exists_mem_cons_iff, ← ih, PyText.decode]
      cases String.fromUTF8? ⟨⟨b⟩⟩ with
      | none => exact ⟨fun _ ↦ .inl rfl, fun _ ↦ ⟨_, rfl⟩⟩
      | some t =>
        rw [Except.ok_bind]
        cases hl : l.mapM PyText.decode with
        | ok ts => simp [bind, Except.bind, pure, Except.pure]
        | error e => simp [bind, Except.bind]
  rw [← hmapM, ← decodeFields_eq, decodeReceiverBlob]
  cases decodeFields 4 part with
  | ok fields => simp [bind, Except.bind, pure, Except.pure]
  | error e => simp [bind, Except.bind]

theorem kind_sendChunks {receiver : ReceiverInfo} {chunks : List (List Bytes)} {s : State}
    {out : Outcome Unit} (h : (sendChunks cfg o receiver chunks s).1 = .ok out) :
    out.kind ≠ .permanent := by
  induction chunks generalizing s with
  | nil =>
    cases h
    simp [Outcome.acked]
  | cons chunk rest ih =>
    rw [sendChunks] at h
    split_ifs at h
    · exact ih h
    · split at h
      · cases h
      · exact ih h
      · cases h
        simp [Outcome.retryLater]

theorem rejected_iff {blob : Bytes} {s : State} :
    Rejected cfg o blob s ↔ Undecodable blob := by
  rw [Undecodable, ← decodeReceiverBlob_eq_error, Rejected, replay]
  cases hrx : decodeReceiverBlob (receiverPart blob) with
  | error e => simp
  | ok rx =>
    simp only [reduceCtorEq, exists_false, iff_false]
    rintro ⟨reason, h⟩
    split_ifs at h
    · cases h
    · rw [sendEncodedChunks] at h
      split at h
      · cases h
      · exact kind_sendChunks cfg o (congrArg Prod.fst h) rfl

/-- **The retry blob**: what was serialized is sent as `ship` would send it, and what was not is
refused exactly when a text of the receiver in it is not UTF-8. -/
theorem retry_blob :
    (∀ (records : List (Record py.Finite)) (identity : Identity) (blob : Bytes),
      serializeForRetry cfg py records identity = .ok blob →
      ∀ s, replay cfg o blob s = ship cfg o py records identity s) ∧
    ∀ blob s, (¬ IsSerialization blob → Rejected cfg o blob s) ↔
      IsSerialization blob ∨ Undecodable blob := by
  refine ⟨fun records identity blob h s ↦ replay_serializeForRetry cfg o py h s, ?_⟩
  intro blob s
  rw [rejected_iff]
  exact (or_iff_not_imp_left).symm

end

/-- The empty blob is acknowledged. -/
theorem retry_blob_fails :
    ¬ ∀ (cfg : Config) (o : Outside) (blob : Bytes) (s : State),
      ¬ IsSerialization blob → Rejected cfg o blob s := by
  have hnot : ¬ IsSerialization [] := by
    rintro ⟨rx, spots, rxBlob, encoded, -, -, h⟩
    simp only [retryBlob, Except.bind_eq_ok, Except.pure_eq_ok] at h
    obtain ⟨receiver, hreceiver, count, -, blobs, -, h⟩ := h
    rw [List.append_assoc] at h
    exact ne_nil_of_prefixed hreceiver (count ++ blobs.flatten) h
  intro hall
  obtain ⟨reason, h⟩ := hall {} ⟨fun _ ↦ .ok (), fun _ ↦ ⟨[0, 0, 0, 0], rfl⟩, fun _ ↦ 0,
    fun _ ↦ .ok ()⟩ [] {} hnot
  cases h

end HsUploader.PskReporter
