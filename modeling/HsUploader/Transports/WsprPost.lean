import Mathlib.Algebra.Order.Archimedean.Basic
import Mathlib.Data.Rat.Floor
import Mathlib.Tactic.Linarith
import HsUploader.Core.Types
import HsUploader.Transports.WsprRows

/-!
# A wsprnet upload

`ship` posts the body of a batch, `replay` a stored one, either to `meptspots.php`, where the answer
ends it, or to the asynchronous API, where a nonce comes back and the status is polled until it is
done, has failed or the time for it is over.  Whatever the server answers, the batch counts as
acked: it is not to be posted twice.

What urllib, the connection and the clock do is outside (`Client`).  Only some of the errors they
raise are caught, and an answer of an unexpected JSON type raises one of its own;
`neverReposts_iff` says when neither happens.

## What is here

* The exchange: `buildMultipart` is the form that is posted, `exchanged` the upload over `urlopen`,
  `postLegacy` what becomes of it without the asynchronous API.
* The poll loop: `pollLoop` counts its turns, and `pollLoop_enoughTurns` shows that the turns it is
  given are never used up, so that `pollStatus` is the loop of the source.
* `Raised` — what an upload can raise, by class: an `except` clause catches the classes it names,
  and `asyncCatches` and `uploadCatches` are the two clauses.
* `LegacySafe`, `PollSafe` and `AsyncSafe` — that nothing is raised but what is caught, and that
  what comes back is of the JSON types the code reads.  `post_acked_iff` shows that they say
  exactly when an upload is acked.

The conditions are about what the client answers, turn by turn.  A turn counts only if it is made,
that is, before the deadline and while no turn before it has ended the loop (`PollsSafe`).
-/

set_option autoImplicit false

namespace HsUploader.WsprNet

/-! ## Outside -/

/-- What an upload can raise.  An error of a subclass is one of the class that an `except` names. -/
inductive Raised where
  /-- `HTTPError`, with what reading its body gives; `none` where that raises. -/
  | httpError (code : ℤ) (body : Option Bytes)
  /-- `URLError`, `TimeoutError` or `OSError`, with its text. -/
  | osError (text : PyText)
  /-- Any other exception: `ValueError`, `HTTPException`, ... -/
  | exn (e : Exn)
  deriving DecidableEq

/-- What `urlopen` gives: the status, and the bytes that `read` gives or what it raises. -/
structure Response where
  status : ℤ
  read : Except Raised Bytes

/-- The values of a `WsprNet` that an upload reads. -/
structure Config where
  url : PyText
  version : PyText
  /-- The base of the asynchronous API, where it is used. -/
  apiBaseUrl : Option PyText
  pollIntervalSec : ℚ
  pollMaxSec : ℚ
  /-- The constructor raises a smaller interval to this one. -/
  interval_le : 1 / 20 ≤ pollIntervalSec

/-- `StationIdentity`, what a reporter is told by. -/
structure Identity where
  call : PyText
  grid : PyText

/-- What urllib, `json`, `re`, the connection and the clock do during one upload. -/
structure Client (py : Interpreter) (cfg : Config) where
  /-- `Request(url, ...)`. -/
  newRequest : PyText → Except Raised Unit
  /-- `urlopen` of the request that carries the data. -/
  upload : PyText → Bytes → Except Raised Response
  /-- `urlopen` of the status request made in the turn of the loop. -/
  poll : ℕ → PyText → Except Raised Response
  /-- `raw.decode(errors="replace")`. -/
  decode : Bytes → PyText
  /-- `json.loads(text)`. -/
  loads : PyText → Except Raised (PyValue py.Finite)
  /-- The two numbers of the first match of `(\d+)\s+out\s+of\s+(\d+)\s+spot`. -/
  searchAdded : PyText → Option (PyText × PyText)
  /-- The seconds the upload took, as an outcome's reason has them. -/
  elapsed : PyText
  /-- The reading the deadline is counted from. -/
  started : ℚ
  /-- The reading of `monotonic` before the turn of the loop. -/
  clock : ℕ → ℚ
  started_le : started ≤ clock 0
  /-- A sleep takes as long as was asked for. -/
  slept : ∀ n, clock n + cfg.pollIntervalSec ≤ clock (n + 1)

/-- `Outcome`, the part of it that an upload sets. -/
structure Outcome where
  kind : OutcomeKind
  reason : PyText

/-- `Outcome(kind="acked", reason=reason)`. -/
def acked (reason : PyText) : Outcome := { kind := .acked, reason }

/-- An exception of the program's own. -/
def own {α : Type} : Except Exn α → Except Raised α
  | .ok a => .ok a
  | .error e => .error (.exn e)

/-! ## The request -/

/-- The bytes of an ASCII text. -/
def ascii (s : String) : Bytes := .ofAscii s.toList

/-- `_BOUNDARY`. -/
def boundary : Bytes := ascii "--------WD4MeptBoundary"

/-- `_CRLF`. -/
def crlf : Bytes := ascii "\r\n"

/-- One text field of the form. -/
def textField (name : String) (value : PyText) : Except Exn Bytes := do
  let raw ← value.encode
  pure (ascii "--" ++ boundary ++ crlf ++ ascii "Content-Disposition: form-data; name=\"" ++
    ascii name ++ ascii "\"" ++ crlf ++ crlf ++ raw ++ crlf)

/-- `_build_multipart(version, call, grid, allmept)`. -/
def buildMultipart (version call grid : PyText) (allmept : Bytes) : Except Exn Bytes := do
  let versionField ← textField "version" version
  let callField ← textField "call" call
  let gridField ← textField "grid" grid
  pure (versionField ++ callField ++ gridField ++ ascii "--" ++ boundary ++ crlf ++
    ascii "Content-Disposition: form-data; name=\"allmept\"; " ++
    ascii "filename=\"spots.txt\"" ++ crlf ++ ascii "Content-Type: text/plain" ++ crlf ++ crlf ++
    allmept ++ crlf ++ ascii "--" ++ boundary ++ ascii "--" ++ crlf)

section

variable {py : Interpreter} {cfg : Config} (c : Client py cfg)

/-- The body of an error's answer as text, empty where it cannot be read. -/
def errorText (body : Option Bytes) : PyText :=
  match body with
  | some raw => c.decode raw
  | none => []

/-- The reason of an answer with an error's status. -/
def httpReason (code : ℤ) (body : PyText) : PyText :=
  .ofString s!"HTTP {code} (no retry): " ++ body.take 200

/-- The upload of the data: the status of the answer and its bytes as text. -/
def exchanged (url : PyText) (data : Bytes) : Except Raised (ℤ × PyText) := do
  let resp ← c.upload url data
  let raw ← resp.read
  pure (resp.status, c.decode raw)

/-- `_post` without the asynchronous API: what becomes of the exchange. -/
def postLegacy (data : Bytes) : Except Raised Outcome :=
  match exchanged c cfg.url data with
  | .error (.httpError code body) => pure (acked (httpReason code (errorText c body)))
  | .error (.osError text) =>
    pure (acked (.ofString "timeout/network error after " ++ c.elapsed ++
      .ofString "s (no retry): " ++ text))
  | .error e => throw e
  | .ok (status, responseBody) =>
    if !(200 ≤ status && status < 300) then pure (acked (httpReason status responseBody))
    else
      match c.searchAdded responseBody with
      | some (added, total) => pure (acked (added ++ .ofString "/" ++ total ++ .ofString " added"))
      | none => pure (acked [])

/-! ## The asynchronous API -/

/-- The bytes of an answer as JSON, an empty answer as an empty object. -/
def answered (resp : Response) : Except Raised (PyValue py.Finite) := do
  let raw ← resp.read
  let text := c.decode raw
  c.loads (if text = [] then .ofString "\x7b\x7d" else text)

/-- The data submitted: what comes back. -/
def submitted (url : PyText) (data : Bytes) : Except Raised (PyValue py.Finite) := do
  let resp ← c.upload url data
  answered c resp

/-- One status request. -/
def polled (n : ℕ) (url : PyText) : Except Raised (PyValue py.Finite) := do
  c.newRequest url
  let resp ← c.poll n url
  answered c resp

/-- `(v or {}).get(name)`. -/
def getItem (v : PyValue py.Finite) (name : String) : Except Raised (PyValue py.Finite) :=
  if !py.truthy v then pure .none
  else
    match v with
    | .dict members => pure ((members.lookup (.ofString name)).getD .none)
    | _ => throw (.exn (.attributeError "object has no attribute 'get'"))

/-- `st in ("done", "failed")`. -/
def isFinal (st : PyValue py.Finite) : Bool :=
  match st with
  | .str s => s = .ofString "done" || s = .ofString "failed"
  | _ => false

/-- What the submission and the poll loop catch. -/
def asyncCatches : Raised → Bool
  | .httpError _ _ => true
  | .osError _ => true
  | .exn (.valueError _) => true
  | .exn _ => false

/-- The poll loop from its `n`-th turn on, with the last status it got; `none` when the turns it
is given run out. -/
def pollLoop (url : PyText) :
    ℕ → ℕ → PyValue py.Finite → Option (Except Raised (PyValue py.Finite))
  | 0, _, _ => none
  | turns + 1, n, result =>
    if c.clock n < c.started + cfg.pollMaxSec then
      match polled c n url with
      | .error e => if asyncCatches e then pollLoop url turns (n + 1) result else some (.error e)
      | .ok v =>
        match getItem v "status" with
        | .error e => some (.error e)
        | .ok st => if isFinal st then some (.ok v) else pollLoop url turns (n + 1) v
    else some (.ok result)

/-- As many turns as there are intervals until the deadline, and one more. -/
def enoughTurns (cfg : Config) : ℕ := ⌈cfg.pollMaxSec / cfg.pollIntervalSec⌉₊ + 1

theorem clock_le (n : ℕ) : c.started + n * cfg.pollIntervalSec ≤ c.clock n := by
  induction n with
  | zero => simpa using c.started_le
  | succ n ih =>
    have h := c.slept n
    push_cast
    linarith

theorem pollLoop_isSome (url : PyText) {turns n : ℕ} {result : PyValue py.Finite}
    (h : c.started + cfg.pollMaxSec ≤ c.clock (n + turns)) :
    (pollLoop c url (turns + 1) n result).isSome := by
  induction turns generalizing n result with
  | zero =>
    rw [add_zero] at h
    rw [pollLoop, if_neg (not_lt.mpr h), Option.isSome_some]
  | succ turns ih =>
    have h' : c.started + cfg.pollMaxSec ≤ c.clock (n + 1 + turns) := by
      rw [add_right_comm, add_assoc]
      exact h
    rw [pollLoop]
    split_ifs
    · cases polled c n url with
      | error e =>
        dsimp only
        split_ifs
        · exact ih h'
        · rfl
      | ok v =>
        dsimp only
        cases getItem v "status" with
        | error e => rfl
        | ok st =>
          dsimp only
          split_ifs
          · rfl
          · exact ih h'
    · rfl

/-- **The loop ends**: the time for it is over after the turns it is given. -/
theorem pollLoop_enoughTurns (url : PyText) (result : PyValue py.Finite) :
    (pollLoop c url (enoughTurns cfg) 0 result).isSome := by
  refine pollLoop_isSome c url ?_
  have hpos : 0 < cfg.pollIntervalSec := lt_of_lt_of_le (by norm_num) cfg.interval_le
  have hceil := (div_le_iff₀ hpos).mp (Nat.le_ceil (cfg.pollMaxSec / cfg.pollIntervalSec))
  have hclock := clock_le c ⌈cfg.pollMaxSec / cfg.pollIntervalSec⌉₊
  rw [zero_add]
  linarith

/-- The poll loop: the last status it got. -/
def pollStatus (url : PyText) : Except Raised (PyValue py.Finite) :=
  (pollLoop c url (enoughTurns cfg) 0 .none).get (pollLoop_enoughTurns c url .none)

/-- What the log line of the rejections reads of them. -/
def itemised (rejections : PyValue py.Finite) : Except Raised Unit :=
  match rejections with
  | .list _ => pure ()
  | .str _ => pure ()
  | .dict _ => throw (.exn (.typeError "unhashable type: 'slice'"))
  | _ => throw (.exn (.typeError "object has no len()"))

/-- The outcome of the status that the poll loop ended with. -/
def finished (result nonce : PyValue py.Finite) : Except Raised Outcome := do
  let st ← getItem result "status"
  if !isFinal st then
    pure (acked (.ofString "async " ++ py.str (py.orElse st (.str (.ofString "pending"))) ++
      .ofString " (nonce " ++ py.str nonce ++ .ofString ")"))
  else
    let accepted ← getItem result "accepted"
    let submitted ← getItem result "submitted"
    let rejected ← getItem result "rejected"
    let rejections ← getItem result "rejections"
    let reason :=
      if !isNone accepted && !isNone submitted then
        py.str accepted ++ .ofString "/" ++ py.str submitted ++ .ofString " added" ++
          (if py.truthy rejected then .ofString ", " ++ py.str rejected ++ .ofString " rejected"
          else [])
      else py.str st
    if py.truthy rejections then itemised rejections
    pure (acked reason)

/-- `_post_async(multipart, ...)`. -/
def postAsync (base : PyText) (data : Bytes) : Except Raised Outcome := do
  let uploadUrl := base ++ .ofString "/upload"
  c.newRequest uploadUrl
  match submitted c uploadUrl data with
  | .error (.httpError code body) => pure (acked (httpReason code (errorText c body)))
  | .error (.osError text) =>
    pure (acked (.ofString "timeout/network error (no retry): " ++ text))
  | .error (.exn (.valueError _)) => pure (acked (.ofString "bad submit response"))
  | .error e => throw e
  | .ok submit =>
    let nonce ← getItem submit "nonce"
    if !py.truthy nonce then pure (acked (.ofString "no nonce returned"))
    else
      let result ← pollStatus c (base ++ .ofString "/status/" ++ py.str nonce)
      finished result nonce

/-! ## The transport -/

/-- The reason of an upload without a call. -/
def callIsEmpty : PyText :=
  .ofString "wsprnet: identity.call is empty — wsprnet rejects anonymous uploads"

/-- `_post(body, identity)`. -/
def post (body : Bytes) (identity : Identity) : Except Raised Outcome := do
  let call := py.strip identity.call
  let grid := py.strip identity.grid
  if call = [] then pure { kind := .permanent, reason := callIsEmpty }
  else
    let multipart ← own (buildMultipart (.ofString "WD_" ++ cfg.version) call grid body)
    c.newRequest cfg.url
    match cfg.apiBaseUrl with
    | some base => postAsync c base multipart
    | none => postLegacy c multipart

/-- `ship(batch, identity)`. -/
def ship (records : List (Record py.Finite)) (identity : Identity) : Except Raised Outcome := do
  -- only the log reads the rows that the first pass leaves
  let _ ← own (dedupRecordsForWsprnet py records)
  let body ← own (buildMeptBody py records)
  if body = [] then pure (acked []) else post c body identity

/-- `replay(payload_blob, identity)`. -/
def replay (payloadBlob : Bytes) (identity : Identity) : Except Raised Outcome :=
  if payloadBlob = [] then pure (acked []) else post c payloadBlob identity

/-! ## What an upload survives -/

/-- The upload ends with an acked outcome. -/
def Acked (x : Except Raised Outcome) : Prop := ∃ reason, x = .ok (acked reason)

/-- What the legacy upload catches. -/
def uploadCatches : Raised → Bool
  | .httpError _ _ => true
  | .osError _ => true
  | .exn _ => false

/-- The value counts as false or is an object. -/
def IsObject (v : PyValue py.Finite) : Prop := py.truthy v = false ∨ ∃ members, v = .dict members

/-- The value counts as false or has a length and can be cut. -/
def Listed (v : PyValue py.Finite) : Prop :=
  py.truthy v = false ∨ (∃ items, v = .list items) ∨ ∃ s, v = .str s

/-- The turn's status request ends the loop with a status. -/
def Ends (url : PyText) (n : ℕ) : Prop :=
  ∃ v st, polled c n url = .ok v ∧ getItem v "status" = .ok st ∧ isFinal st = true

/-- The turn's status request raises nothing but what the loop catches, what it gets is an object,
and the rejections of a final status are a list or a text. -/
structure PollSafe (url : PyText) (n : ℕ) : Prop where
  raises : ∀ e, polled c n url = .error e → asyncCatches e = true
  object : ∀ v, polled c n url = .ok v → IsObject v
  rejections : ∀ v st rejections, polled c n url = .ok v → getItem v "status" = .ok st →
    isFinal st = true → getItem v "rejections" = .ok rejections → Listed rejections

/-- Every turn is safe that is made from the `n`-th on: before the deadline, and no turn ended the
loop before. -/
def PollsSafe (url : PyText) (n : ℕ) : Prop :=
  ∀ k, n ≤ k → c.clock k < c.started + cfg.pollMaxSec → (∀ m, n ≤ m → m < k → ¬ Ends c url m) →
    PollSafe c url k

/-- The legacy exchange raises nothing but what is caught. -/
def LegacySafe (data : Bytes) : Prop :=
  ∀ e, exchanged c cfg.url data = .error e → uploadCatches e = true

/-- The asynchronous exchange raises nothing but what is caught, and what comes back is of the
types that are read. -/
structure AsyncSafe (base : PyText) (data : Bytes) : Prop where
  request : c.newRequest (base ++ .ofString "/upload") = .ok ()
  raises : ∀ e, submitted c (base ++ .ofString "/upload") data = .error e → asyncCatches e = true
  object : ∀ v, submitted c (base ++ .ofString "/upload") data = .ok v → IsObject v
  polls : ∀ v nonce, submitted c (base ++ .ofString "/upload") data = .ok v →
    getItem v "nonce" = .ok nonce → py.truthy nonce = true →
      PollsSafe c (base ++ .ofString "/status/" ++ py.str nonce) 0

/-- Nothing of an upload of the body raises past it. -/
structure Survives (body : Bytes) (identity : Identity) : Prop where
  version : cfg.version.Encodable
  call : (py.strip identity.call).Encodable
  grid : (py.strip identity.grid).Encodable
  request : c.newRequest cfg.url = .ok ()
  legacy : cfg.apiBaseUrl = none → ∀ data, buildMultipart (.ofString "WD_" ++ cfg.version)
    (py.strip identity.call) (py.strip identity.grid) body = .ok data → LegacySafe c data
  async : ∀ base, cfg.apiBaseUrl = some base → ∀ data, buildMultipart
    (.ofString "WD_" ++ cfg.version) (py.strip identity.call) (py.strip identity.grid) body =
      .ok data → AsyncSafe c base data

variable {c}

theorem acked_ok (reason : PyText) : Acked (pure (acked reason)) := ⟨reason, rfl⟩

theorem not_acked_error (e : Raised) : ¬ Acked (.error e) := by
  rintro ⟨reason, h⟩
  cases h

theorem getItem_ok_iff {v : PyValue py.Finite} {name : String} :
    (∃ x, getItem v name = .ok x) ↔ IsObject v := by
  unfold getItem IsObject
  cases ht : py.truthy v with
  | false => exact iff_of_true ⟨_, rfl⟩ (.inl rfl)
  | true =>
    rw [if_neg (by simp)]
    cases v with
    | dict members => exact iff_of_true ⟨_, rfl⟩ (.inr ⟨members, rfl⟩)
    | _ => simp [Except.throw_ne_ok]

theorem postLegacy_acked_iff {data : Bytes} : Acked (postLegacy c data) ↔ LegacySafe c data := by
  rw [postLegacy, LegacySafe]
  cases exchanged c cfg.url data with
  | error e =>
    cases e with
    | httpError code body => exact iff_of_true (acked_ok _) fun e he ↦ by cases he; rfl
    | osError text => exact iff_of_true (acked_ok _) fun e he ↦ by cases he; rfl
    | exn e => exact iff_of_false (not_acked_error _) fun h ↦ Bool.false_ne_true (h _ rfl)
  | ok answer =>
    refine iff_of_true ?_ fun e he ↦ by cases he
    dsimp only
    split_ifs
    · exact acked_ok _
    · cases c.searchAdded answer.2 with
      | none => exact acked_ok _
      | some counts => exact acked_ok _

/-! ### The poll loop -/

theorem finished_acked_of_running {result nonce st : PyValue py.Finite}
    (hst : getItem result "status" = .ok st) (hfinal : isFinal st = false) :
    Acked (finished result nonce) := by
  rw [finished, hst, Except.ok_bind, hfinal]
  exact acked_ok _

theorem itemised_ok_iff {rejections : PyValue py.Finite} (ht : py.truthy rejections = true) :
    itemised rejections = .ok () ↔ Listed rejections := by
  rw [Listed, ht]
  cases rejections <;> simp [itemised, Except.pure_eq_ok, Except.throw_ne_ok]

theorem finished_acked_iff {result nonce st : PyValue py.Finite}
    (hst : getItem result "status" = .ok st) (hfinal : isFinal st = true) :
    Acked (finished result nonce) ↔
      ∀ rejections, getItem result "rejections" = .ok rejections → Listed rejections := by
  have hget : ∀ name, ∃ x, getItem result name = .ok x := fun name ↦
    getItem_ok_iff.mpr (getItem_ok_iff.mp ⟨st, hst⟩)
  obtain ⟨accepted, haccepted⟩ := hget "accepted"
  obtain ⟨submitted, hsubmitted⟩ := hget "submitted"
  obtain ⟨rejected, hrejected⟩ := hget "rejected"
  obtain ⟨rejections, hrejections⟩ := hget "rejections"
  rw [finished, hst, Except.ok_bind, hfinal]
  simp only [Bool.not_true, Bool.false_eq_true, if_false, haccepted, hsubmitted, hrejected,
    hrejections, Except.ok_bind, Except.ok.injEq, forall_eq']
  cases ht : py.truthy rejections with
  | false =>
    refine iff_of_true ?_ (.inl ht)
    exact acked_ok _
  | true =>
    rw [← itemised_ok_iff ht]
    cases hitems : itemised rejections with
    | error e => exact iff_of_false (not_acked_error e) nofun
    | ok u => exact iff_of_true (acked_ok _) rfl

theorem clock_mono : Monotone c.clock := by
  refine monotone_nat_of_le_succ fun n ↦ ?_
  have hpos : (0 : ℚ) < cfg.pollIntervalSec := lt_of_lt_of_le (by norm_num) cfg.interval_le
  have h := c.slept n
  linarith

theorem pollsSafe_of_late {url : PyText} {n : ℕ}
    (h : ¬ c.clock n < c.started + cfg.pollMaxSec) : PollsSafe c url n := fun _ hk hclock ↦
  absurd (lt_of_le_of_lt (clock_mono hk) hclock) h

/-- The turns from the `n`-th on are the `n`-th and, unless it ends the loop, those after it. -/
theorem pollsSafe_iff {url : PyText} {n : ℕ} (h : c.clock n < c.started + cfg.pollMaxSec) :
    PollsSafe c url n ↔ PollSafe c url n ∧ (¬ Ends c url n → PollsSafe c url (n + 1)) := by
  constructor
  · intro hsafe
    refine ⟨hsafe n le_rfl h fun m hm hlt ↦ absurd hlt (not_lt.mpr hm), fun hends k hk hclock hm ↦
      hsafe k (by omega) hclock fun m hnm hmk ↦ ?_⟩
    rcases Nat.eq_or_lt_of_le hnm with rfl | hlt
    · exact hends
    · exact hm m hlt hmk
  · rintro ⟨hfirst, hrest⟩ k hk hclock hm
    rcases Nat.eq_or_lt_of_le hk with rfl | hlt
    · exact hfirst
    · exact hrest (hm n le_rfl hlt) k hlt hclock fun m hnm hmk ↦ hm m (by omega) hmk

/-- **The loop and what follows it end with an ack exactly when every turn is safe.** -/
theorem pollLoop_acked_iff {url : PyText} {nonce : PyValue py.Finite} {turns n : ℕ}
    {result st : PyValue py.Finite} (hst : getItem result "status" = .ok st)
    (hfinal : isFinal st = false) {x : Except Raised (PyValue py.Finite)}
    (hx : pollLoop c url turns n result = some x) :
    Acked (x >>= fun result ↦ finished result nonce) ↔ PollsSafe c url n := by
  induction turns generalizing n result st with
  | zero => cases hx
  | succ turns ih =>
    rw [pollLoop] at hx
    by_cases hclock : c.clock n < c.started + cfg.pollMaxSec
    · rw [if_pos hclock] at hx
      rw [pollsSafe_iff hclock]
      cases hpolled : polled c n url with
      | error e =>
        have hends : ¬ Ends c url n := by
          rintro ⟨v, st', hv, -⟩
          rw [hpolled] at hv
          cases hv
        rw [hpolled] at hx
        dsimp only at hx
        cases hcatch : asyncCatches e with
        | true =>
          have hsafe : PollSafe c url n := by
            refine ⟨fun e' he ↦ ?_, fun v hv ↦ ?_, fun v _ _ hv ↦ ?_⟩
            · obtain rfl := Except.error.inj (hpolled.symm.trans he)
              exact hcatch
            · cases hpolled.symm.trans hv
            · cases hpolled.symm.trans hv
          rw [hcatch, if_pos rfl] at hx
          rw [ih hst hfinal hx]
          exact ⟨fun h ↦ ⟨hsafe, fun _ ↦ h⟩, fun h ↦ h.2 hends⟩
        | false =>
          rw [hcatch, if_neg Bool.false_ne_true] at hx
          obtain rfl := Option.some.inj hx
          refine iff_of_false (not_acked_error e) fun h ↦ ?_
          exact Bool.false_ne_true (hcatch.symm.trans (h.1.raises e hpolled))
      | ok v =>
        rw [hpolled] at hx
        dsimp only at hx
        cases hstatus : getItem v "status" with
        | error e =>
          rw [hstatus] at hx
          obtain rfl := Option.some.inj hx
          refine iff_of_false (not_acked_error e) fun h ↦ ?_
          have hget : ∃ x, getItem v "status" = .ok x := getItem_ok_iff.mpr (h.1.object v hpolled)
          obtain ⟨x, hx⟩ := hget
          cases hstatus.symm.trans hx
        | ok st' =>
          have hobject : IsObject v := getItem_ok_iff.mp ⟨st', hstatus⟩
          rw [hstatus] at hx
          dsimp only at hx
          cases hfinal' : isFinal st' with
          | true =>
            rw [hfinal', if_pos rfl] at hx
            obtain rfl := Option.some.inj hx
            have hends : Ends c url n := ⟨v, st', hpolled, hstatus, hfinal'⟩
            rw [Except.ok_bind, finished_acked_iff hstatus hfinal']
            constructor
            · intro h
              refine ⟨⟨fun e he ↦ ?_, fun v' hv ↦ ?_, fun v' st'' rej hv hst'' hf hrej ↦ ?_⟩,
                fun hno ↦ absurd hends hno⟩
              · rw [hpolled] at he
                cases he
              · obtain rfl := Except.ok.inj (hpolled.symm.trans hv)
                exact hobject
              · obtain rfl := Except.ok.inj (hpolled.symm.trans hv)
                exact h rej hrej
            · intro h rej hrej
              exact h.1.rejections v st' rej hpolled hstatus hfinal' hrej
          | false =>
            rw [hfinal', if_neg Bool.false_ne_true] at hx
            have hends : ¬ Ends c url n := by
              rintro ⟨v', st'', hv, hst'', hf⟩
              obtain rfl := Except.ok.inj (hpolled.symm.trans hv)
              obtain rfl := Except.ok.inj (hstatus.symm.trans hst'')
              exact Bool.false_ne_true (hfinal'.symm.trans hf)
            have hsafe : PollSafe c url n := by
              refine ⟨fun e he ↦ ?_, fun v' hv ↦ ?_, fun v' st'' rej hv hst'' hf hrej ↦ ?_⟩
              · rw [hpolled] at he
                cases he
              · obtain rfl := Except.ok.inj (hpolled.symm.trans hv)
                exact hobject
              · exact absurd ⟨v', st'', hv, hst'', hf⟩ hends
            rw [ih hstatus hfinal' hx]
            exact ⟨fun h ↦ ⟨hsafe, fun _ ↦ h⟩, fun h ↦ h.2 hends⟩
    · rw [if_neg hclock] at hx
      obtain rfl := Option.some.inj hx
      exact iff_of_true (finished_acked_of_running hst hfinal) (pollsSafe_of_late hclock)

theorem pollStatus_acked_iff {url : PyText} {nonce : PyValue py.Finite} :
    Acked (pollStatus c url >>= fun result ↦ finished result nonce) ↔ PollsSafe c url 0 := by
  have hstart : getItem (.none : PyValue py.Finite) "status" = .ok .none := rfl
  exact pollLoop_acked_iff hstart rfl (Option.some_get _).symm

/-! ### The whole upload -/

theorem postAsync_acked_iff {base : PyText} {data : Bytes} :
    Acked (postAsync c base data) ↔ AsyncSafe c base data := by
  rw [postAsync]
  cases hrequest : c.newRequest (base ++ .ofString "/upload") with
  | error e =>
    refine iff_of_false (not_acked_error e) fun h ↦ ?_
    cases hrequest.symm.trans h.request
  | ok u =>
    rw [Except.ok_bind]
    cases hsubmit : submitted c (base ++ .ofString "/upload") data with
    | error e =>
      have hsafe : asyncCatches e = true → AsyncSafe c base data := fun hcatch ↦
        { request := hrequest
          raises := fun e' he ↦ Except.error.inj (hsubmit.symm.trans he) ▸ hcatch
          object := fun v hv ↦ by cases hsubmit.symm.trans hv
          polls := fun v nonce hv ↦ by cases hsubmit.symm.trans hv }
      have hraises : asyncCatches e = false → ¬ AsyncSafe c base data := fun hcatch h ↦
        Bool.false_ne_true (hcatch.symm.trans (h.raises e hsubmit))
      cases e with
      | httpError code body => exact iff_of_true (acked_ok _) (hsafe rfl)
      | osError text => exact iff_of_true (acked_ok _) (hsafe rfl)
      | exn e =>
        cases e with
        | valueError message => exact iff_of_true (acked_ok _) (hsafe rfl)
        | _ => exact iff_of_false (not_acked_error _) (hraises rfl)
    | ok v =>
      have hsafe : IsObject v → (∀ nonce, getItem v "nonce" = .ok nonce → py.truthy nonce = true →
          PollsSafe c (base ++ .ofString "/status/" ++ py.str nonce) 0) → AsyncSafe c base data :=
        fun hobject hpolls ↦
        { request := hrequest
          raises := fun e he ↦ by cases hsubmit.symm.trans he
          object := fun v' hv ↦ Except.ok.inj (hsubmit.symm.trans hv) ▸ hobject
          polls := fun v' nonce hv ↦ by
            obtain rfl := Except.ok.inj (hsubmit.symm.trans hv)
            exact hpolls nonce }
      dsimp only
      cases hnonce : getItem v "nonce" with
      | error e =>
        refine iff_of_false (not_acked_error e) fun h ↦ ?_
        have hget : ∃ x, getItem v "nonce" = .ok x := getItem_ok_iff.mpr (h.object v hsubmit)
        obtain ⟨x, hx⟩ := hget
        cases hnonce.symm.trans hx
      | ok nonce =>
        have hobject : IsObject v := getItem_ok_iff.mp ⟨nonce, hnonce⟩
        rw [Except.ok_bind]
        cases ht : py.truthy nonce with
        | false =>
          rw [if_pos (by rfl)]
          refine iff_of_true (acked_ok _) (hsafe hobject fun nonce' hn ht' ↦ ?_)
          obtain rfl := Except.ok.inj (hnonce.symm.trans hn)
          exact absurd ht' (by rw [ht]; exact Bool.false_ne_true)
        | true =>
          rw [if_neg (by simp), pollStatus_acked_iff]
          constructor
          · intro h
            refine hsafe hobject fun nonce' hn _ ↦ ?_
            obtain rfl := Except.ok.inj (hnonce.symm.trans hn)
            exact h
          · exact fun h ↦ h.polls v nonce hsubmit hnonce ht

theorem textField_ok_iff (name : String) {value : PyText} :
    (∃ b, textField name value = .ok b) ↔ value.Encodable := by
  rw [textField, map_ok_iff, PyText.Encodable]

theorem buildMultipart_ok_iff {version call grid : PyText} {allmept : Bytes} :
    (∃ data, buildMultipart version call grid allmept = .ok data) ↔
      version.Encodable ∧ call.Encodable ∧ grid.Encodable := by
  rw [← textField_ok_iff "version", ← textField_ok_iff "call",
    ← textField_ok_iff "grid"]
  simp only [buildMultipart, Except.bind_eq_ok, Except.pure_eq_ok]
  constructor
  · rintro ⟨_, v, hv, c, hc, g, hg, -⟩
    exact ⟨⟨v, hv⟩, ⟨c, hc⟩, g, hg⟩
  · rintro ⟨⟨v, hv⟩, ⟨c, hc⟩, g, hg⟩
    exact ⟨_, v, hv, c, hc, g, hg, rfl⟩

/-- **An upload is acked exactly when nothing raises past it**, with a call to report under. -/
theorem post_acked_iff {body : Bytes} {identity : Identity} (hcall : py.strip identity.call ≠ []) :
    Acked (post c body identity) ↔ Survives c body identity := by
  have htexts : (∃ data, buildMultipart (.ofString "WD_" ++ cfg.version) (py.strip identity.call)
      (py.strip identity.grid) body = .ok data) ↔
      cfg.version.Encodable ∧ (py.strip identity.call).Encodable ∧
        (py.strip identity.grid).Encodable := by
    rw [buildMultipart_ok_iff, encodable_append, and_iff_right (encodable_ofString "WD_")]
  rw [post, if_neg hcall]
  cases hdata : buildMultipart (.ofString "WD_" ++ cfg.version) (py.strip identity.call)
      (py.strip identity.grid) body with
  | error e =>
    refine iff_of_false (not_acked_error _) fun h ↦ ?_
    obtain ⟨data, hok⟩ := htexts.mpr ⟨h.version, h.call, h.grid⟩
    cases hdata.symm.trans hok
  | ok data =>
    obtain ⟨hversion, hcallText, hgrid⟩ := htexts.mp ⟨data, hdata⟩
    rw [own, Except.ok_bind]
    cases hrequest : c.newRequest cfg.url with
    | error e =>
      refine iff_of_false (not_acked_error e) fun h ↦ ?_
      cases hrequest.symm.trans h.request
    | ok u =>
      rw [Except.ok_bind]
      cases hbase : cfg.apiBaseUrl with
      | none =>
        dsimp only
        rw [postLegacy_acked_iff]
        constructor
        · intro h
          exact {
            version := hversion, call := hcallText, grid := hgrid, request := hrequest
            legacy := fun _ data' hd ↦ Except.ok.inj (hdata.symm.trans hd) ▸ h
            async := fun base hb ↦ by cases hbase.symm.trans hb }
        · exact fun h ↦ h.legacy hbase data hdata
      | some base =>
        dsimp only
        rw [postAsync_acked_iff]
        constructor
        · intro h
          exact {
            version := hversion, call := hcallText, grid := hgrid, request := hrequest
            legacy := fun hb ↦ by cases hbase.symm.trans hb
            async := fun base' hb data' hd ↦ by
              obtain rfl := Option.some.inj (hbase.symm.trans hb)
              obtain rfl := Except.ok.inj (hdata.symm.trans hd)
              exact h }
        · exact fun h ↦ h.async base hbase data hdata

variable (c) in
/-- Both a batch that is shipped and a body that is replayed end with an acked outcome, so that
neither is posted again. -/
def NeverReposts (records : List (Record py.Finite)) (blob : Bytes) (identity : Identity) : Prop :=
  Acked (ship c records identity) ∧ Acked (replay c blob identity)

theorem ship_acked_iff {records : List (Record py.Finite)} {identity : Identity}
    (hcall : py.strip identity.call ≠ []) :
    Acked (ship c records identity) ↔ Harmless py records ∧
      ∀ body, buildMeptBody py records = .ok body → body = [] ∨ Survives c body identity := by
  rw [← buildMeptBody_ok_iff, ship]
  cases hbody : buildMeptBody py records with
  | error e =>
    refine iff_of_false ?_ fun h ↦ ?_
    · cases dedupRecordsForWsprnet py records with
      | error e => exact not_acked_error _
      | ok out => exact not_acked_error _
    · obtain ⟨⟨body, hb⟩, -⟩ := h
      cases hb
  | ok body =>
    have hdedup := dedup_of_reads (buildMeptBody_ok_iff.mp ⟨body, hbody⟩).1
    rw [hdedup]
    simp only [own, Except.ok_bind, Except.ok.injEq, exists_eq', true_and, forall_eq']
    split_ifs with hnil
    · exact iff_of_true (acked_ok _) (.inl hnil)
    · rw [post_acked_iff hcall, or_iff_right hnil]

theorem replay_acked_iff {blob : Bytes} {identity : Identity}
    (hcall : py.strip identity.call ≠ []) :
    Acked (replay c blob identity) ↔ blob = [] ∨ Survives c blob identity := by
  rw [replay]
  split_ifs with hnil
  · exact iff_of_true (acked_ok _) (.inl hnil)
  · rw [post_acked_iff hcall, or_iff_right hnil]

end

/-- **No batch is posted twice exactly when its rows are harmless and no upload raises past what
is caught.** -/
theorem neverReposts_iff (py : Interpreter) (cfg : Config) (c : Client py cfg)
    (records : List (Record py.Finite)) (blob : Bytes) (identity : Identity)
    (hcall : py.strip identity.call ≠ []) :
    NeverReposts c records blob identity ↔
      (Harmless py records ∧
        ∀ body, buildMeptBody py records = .ok body → body = [] ∨ Survives c body identity) ∧
      (blob = [] ∨ Survives c blob identity) := by
  rw [NeverReposts, ship_acked_iff hcall, replay_acked_iff hcall]

/-! ## A connection that breaks off -/

/-- The legacy upload, with the constructor's other values. -/
def legacyConfig : Config where
  url := .ofString "http://wsprnet.org/meptspots.php"
  version := .ofString "hs-uploader/0.1"
  apiBaseUrl := none
  pollIntervalSec := 5
  pollMaxSec := 60
  interval_le := by norm_num

/-- The server answers, and the connection breaks off while the answer is read. -/
def brokenOff : Client wholeNumbers legacyConfig where
  newRequest _ := .ok ()
  upload _ _ := .ok
    { status := 200
      read := .error (.exn (.other "IncompleteRead" "IncompleteRead(0 bytes read)")) }
  poll _ _ := .error (.osError [])
  decode _ := []
  loads _ := .error (.exn (.valueError ""))
  searchAdded _ := none
  elapsed := .ofString "0"
  started := 0
  clock n := 5 * n
  started_le := by norm_num
  slept n := by
    push_cast
    simp only [legacyConfig]
    linarith

/-- Who reports. -/
def reporter : Identity := { call := .ofString "AC0G", grid := .ofString "EM38" }

/-- The spot has a line. -/
theorem exists_body_heard :
    ∃ body, buildMeptBody wholeNumbers [heard "K1ABC" (-20)] = .ok body ∧ body ≠ [] := by
  have hread : ∃ v, readRow wholeNumbers (0, heard "K1ABC" (-20)) = .ok v :=
    (readRow_of_wellTyped (wellTyped_heard "K1ABC" (-20))).imp fun _ ↦ And.left
  have hsome : (recordToMept wholeNumbers (heard "K1ABC" (-20))).toOption.join.any
      (fun line : PyText ↦ decide (line ≠ []) && line.toString?.isSome) = true := by
    decide +kernel
  cases hline : recordToMept wholeNumbers (heard "K1ABC" (-20)) with
  | error e =>
    rw [hline] at hsome
    cases hsome
  | ok line =>
    rw [hline] at hsome
    cases line with
    | none => cases hsome
    | some line =>
      obtain ⟨hne, henc⟩ := Bool.and_eq_true_iff.mp hsome
      obtain ⟨s, hs⟩ := Option.isSome_iff_exists.mp henc
      exact buildMeptBody_singleton (readRow_ok_iff.mp hread) hline (of_decide_eq_true hne)
        ⟨_, by rw [PyText.encode, hs]⟩

/-- The server answers, and its answer is read. -/
def answering : Client wholeNumbers legacyConfig where
  __ := brokenOff
  upload _ _ := .ok { status := 200, read := .ok [] }

theorem survives_answering (body : Bytes) : Survives answering body reporter where
  version := encodable_ofString _
  call := encodable_ofString _
  grid := encodable_ofString _
  request := rfl
  legacy _ _ _ := nofun
  async _ h := nomatch h

/-- A connection that breaks off, where a batch is posted again, and one where the answer is read. -/
theorem neverReposts_iff_brokenOff :
    (NeverReposts brokenOff [heard "K1ABC" (-20)] [10] reporter ↔
      (Harmless wholeNumbers [heard "K1ABC" (-20)] ∧
        ∀ body, buildMeptBody wholeNumbers [heard "K1ABC" (-20)] = .ok body →
          body = [] ∨ Survives brokenOff body reporter) ∧
      (([10] : Bytes) = [] ∨ Survives brokenOff [10] reporter)) ∧
    NeverReposts answering [heard "K1ABC" (-20)] [10] reporter := by
  refine ⟨neverReposts_iff wholeNumbers legacyConfig brokenOff [heard "K1ABC" (-20)] [10] reporter
    (by decide), (neverReposts_iff wholeNumbers legacyConfig answering [heard "K1ABC" (-20)] [10]
      reporter (by decide)).mpr ⟨⟨?_, fun body _ ↦ .inr (survives_answering body)⟩,
        .inr (survives_answering _)⟩⟩
  obtain ⟨body, hbody, -⟩ := exists_body_heard
  exact buildMeptBody_ok_iff.mp ⟨body, hbody⟩

theorem not_survives_brokenOff (body : Bytes) : ¬ Survives brokenOff body reporter := by
  intro h
  have htexts : ∃ data, buildMultipart (.ofString "WD_" ++ legacyConfig.version)
      (wholeNumbers.strip reporter.call) (wholeNumbers.strip reporter.grid) body = .ok data :=
    buildMultipart_ok_iff.mpr
      ⟨encodable_append.mpr ⟨encodable_ofString _, h.version⟩, h.call, h.grid⟩
  obtain ⟨data, hdata⟩ := htexts
  exact Bool.false_ne_true (h.legacy rfl data hdata _ rfl)

/-- An answer that breaks off is not caught, and the batch is posted again. -/
theorem neverReposts_fails :
    ¬ ∀ (py : Interpreter) (cfg : Config) (c : Client py cfg) (records : List (Record py.Finite))
      (blob : Bytes) (identity : Identity), py.strip identity.call ≠ [] →
      (∃ body, buildMeptBody py records = .ok body ∧ body ≠ []) → blob ≠ [] →
      NeverReposts c records blob identity := by
  intro hall
  have hspot := exists_body_heard
  have h := hall wholeNumbers legacyConfig brokenOff [heard "K1ABC" (-20)] [10] reporter
    (by decide) hspot (by decide)
  obtain ⟨body, hbody, hne⟩ := hspot
  have hship := ((ship_acked_iff (by decide)).mp h.1).2 body hbody
  exact hship.elim hne (not_survives_brokenOff body)

end HsUploader.WsprNet
