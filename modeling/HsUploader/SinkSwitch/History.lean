import HsUploader.SinkSwitch.Changed

/-!
# The history of a switch file

A call of `write_switch` that returns has changed what it was asked to change, added one entry to
the history and kept everything else; a call that raises before the directory is synced has left the
file as it was (`Kept`).  So it is with every call of a sequence (`kept_run`), and over the sequence
the history grows by the entries of the calls that got through, and loses nothing (`grown_run`).

## What is here

* `Call` and `run` — a call with what the operating system answers it, and calls one after another.
* `atomicWrite_cases` — the new text is in place or the old file is, whatever fails on the way; only
  the sync of the directory can fail after that.
* `on_cases` — what a call does, from the lock to that sync.
* `Rewritten` — how what is written under the lock was made of what was read there.
* `Unbroken` — no key that the file holds has a line break in it.  Such a key would be written
  bare and read as another line, and the writer keeps the keys it does not know, so the property
  is one of the file that is found and is kept from there on.
-/

set_option autoImplicit false

namespace HsUploader.SinkSwitch

variable {fl : Floats} (lib : Stdlib fl)

/-! ## Calls -/

/-- A call: what the operating system answers, what it asks for and the time. -/
structure Call (F : Type) where
  os : Os
  change : Change F
  now : Text

/-- The call on the file at the path. -/
def Call.on (parts : List String) (c : Call fl.Finite) (file : Option Bytes) :
    Ended Text × Option Bytes :=
  writeSwitch lib c.os parts c.change c.now file

/-- The file after calls that come one after another. -/
def run (parts : List String) (calls : List (Call fl.Finite)) (file : Option Bytes) :
    Option Bytes :=
  calls.foldl (fun file c ↦ (c.on lib parts file).2) file

/-- The file reads as `cur`, which was made from what read as `old` as the call asked. -/
structure Rewritten (parts : List String) (c : Call fl.Finite) (old : SwitchRead fl.Finite)
    (file : Option Bytes) (name state : Text) (data : Members fl.Finite) : Prop where
  isName : checkPath parts = .ok name
  isState : newState c.change = .ok state
  reads : parse lib.toInterpreter (pathText parts) file =
    .ok { state := some state, missing := false, error := [], data }
  asAsked : AsAsked name c.change (timeOf lib c.change c.now) state old data
  oneMore : OneMore name c.change (timeOf lib c.change c.now) state old data

/-- **What a call keeps to**, on the file before it, on how it ends and on the file after it. -/
structure Kept (parts : List String) (c : Call fl.Finite) (file : Option Bytes)
    (result : Ended Text × Option Bytes) : Prop where
  /-- Where it failed before the sync of the directory, the file is as it was. -/
  failed : ∀ e, result.1 = .failed e → result.2 = file
  /-- Where it did not, the file was no broken one, and it is changed as asked. -/
  through : (∀ e, result.1 ≠ .failed e) →
    ∃ old, parse lib.toInterpreter (pathText parts) file = .ok old ∧ old.failed = false ∧
      (∀ answer, result.1 = .returned answer → answer = before old) ∧
      ∃ name state data, Rewritten lib parts c old result.2 name state data

/-! ## The steps of a call -/

theorem underLock_eq_ok {os : Os} {path name state : Text} {change : Change fl.Finite} {now : Text}
    {file : Option Bytes} {answer : Text} {bytes : Bytes}
    (h : underLock lib os path name state change now file = .ok (answer, bytes)) :
    ∃ cur data text, parse lib.toInterpreter path file = .ok cur ∧ cur.failed = false ∧
      changed name change (timeOf lib change now) (.str state) cur = .ok data ∧
      unprintable lib (.table data) = false ∧ dumpsToml fl data = .ok text ∧
      answer = before cur ∧ bytes = encodeUtf8 text := by
  rw [underLock, Except.bind_eq_ok] at h
  obtain ⟨-, -, h⟩ := h
  rw [Except.bind_eq_ok] at h
  obtain ⟨-, -, h⟩ := h
  rw [Except.bind_eq_ok] at h
  obtain ⟨cur, hcur, h⟩ := h
  cases hfailed : cur.failed with
  | true =>
    rw [hfailed] at h
    cases h
  | false =>
    rw [hfailed] at h
    obtain ⟨data, hdata, h⟩ := Except.bind_eq_ok.mp h
    obtain ⟨-, -, h⟩ := Except.bind_eq_ok.mp h
    cases hint : unprintable lib (.table data) with
    | true =>
      rw [hint] at h
      cases h
    | false =>
      rw [hint] at h
      cases htext : dumpsToml fl data with
      | error e =>
        rw [htext] at h
        cases h
      | ok text =>
        rw [htext] at h
        cases h
        refine ⟨cur, data, text, ?_, hfailed, hdata, hint, htext, rfl, rfl⟩
        rw [readNow] at hcur
        cases hos : os.unreadable with
        | none =>
          rw [hos] at hcur
          exact hcur
        | some e =>
          rw [hos] at hcur
          cases hcur
          cases hfailed

theorem fillTemp_eq {os : Os} {data temp : Bytes} (h : fillTemp os data = (temp, none)) :
    temp = data := by
  rw [fillTemp] at h
  cases hchmod : os.chmodTemp with
  | some e =>
    rw [hchmod] at h
    cases h
  | none =>
    cases hwrite : os.write with
    | some p =>
      rw [hchmod, hwrite] at h
      cases h
    | none =>
      rw [hchmod, hwrite] at h
      exact (Prod.mk.inj h).1.symm

/-- `_atomic_write` leaves the file as it was, or puts all of the data in its place. -/
theorem atomicWrite_cases (os : Os) (data : Bytes) (file : Option Bytes) :
    (∃ e, atomicWrite os data file = (.failed e, file)) ∨
      (∃ e, atomicWrite os data file = (.late e, some data)) ∨
      atomicWrite os data file = (.returned (), some data) := by
  unfold atomicWrite
  split
  · exact .inl ⟨_, rfl⟩
  · exact .inl ⟨_, rfl⟩
  all_goals
    split
    · exact .inl ⟨_, rfl⟩
    · split
      · exact .inl ⟨_, rfl⟩
      · next temp hfill =>
        rw [fillTemp_eq hfill]
        split
        · exact .inl ⟨_, rfl⟩
        · split
          · exact .inr (.inl ⟨_, rfl⟩)
          · exact .inr (.inr rfl)

/-- **What a call does**: it fails and leaves the file as it was, or it puts in its place what it
made under the lock. -/
theorem on_cases (parts : List String) (c : Call fl.Finite) (file : Option Bytes) :
    (∃ e, c.on lib parts file = (.failed e, file)) ∨
      ∃ name state answer data, openLock c.os parts c.change = .ok (name, state) ∧
        underLock lib c.os (pathText parts) name state c.change c.now file = .ok (answer, data) ∧
        ((∃ e, c.on lib parts file = (.late e, some data)) ∨
          c.on lib parts file = (.returned answer, some data)) := by
  cases hopen : openLock c.os parts c.change with
  | error e => exact .inl ⟨e, by rw [Call.on, writeSwitch, hopen]⟩
  | ok p =>
    obtain ⟨name, state⟩ := p
    cases hlock : underLock lib c.os (pathText parts) name state c.change c.now file with
    | error e =>
      refine .inl ⟨c.os.closeLock.getD e, ?_⟩
      simp only [Call.on, writeSwitch, hopen, hlock]
    | ok q =>
      obtain ⟨answer, data⟩ := q
      rcases atomicWrite_cases c.os data file with ⟨e, hw⟩ | ⟨e, hw⟩ | hw
      · refine .inl ⟨c.os.closeLock.getD e, ?_⟩
        simp only [Call.on, writeSwitch, hopen, hlock, hw]
      · refine .inr ⟨name, state, answer, data, rfl, hlock, .inl ⟨c.os.closeLock.getD e, ?_⟩⟩
        simp only [Call.on, writeSwitch, hopen, hlock, hw]
      · refine .inr ⟨name, state, answer, data, rfl, hlock, ?_⟩
        simp only [Call.on, writeSwitch, hopen, hlock, hw]
        cases c.os.closeLock with
        | none => exact .inr rfl
        | some e => exact .inl ⟨e, rfl⟩

theorem newState_eq_ok {F : Type} {change : Change F} {s : Text} (h : newState change = .ok s) :
    s ∈ states := by
  unfold newState at h
  split at h
  · split_ifs at h with hs
    cases h
    exact hs
  · cases h

theorem openLock_eq_ok {os : Os} {parts : List String} {change : Change fl.Finite}
    {name state : Text} (h : openLock os parts change = .ok (name, state)) :
    checkPath parts = .ok name ∧ newState change = .ok state := by
  rw [openLock] at h
  obtain ⟨name', hname, h⟩ := Except.bind_eq_ok.mp h
  obtain ⟨state', hstate, h⟩ := Except.bind_eq_ok.mp h
  have hpair : (name', state') = (name, state) := by
    dsimp only at h
    split_ifs at h
    · obtain ⟨-, -, h⟩ := Except.bind_eq_ok.mp h
      obtain ⟨-, -, h⟩ := Except.bind_eq_ok.mp h
      obtain ⟨-, -, h⟩ := Except.bind_eq_ok.mp h
      exact Except.pure_eq_ok.mp h
    · obtain ⟨-, -, h⟩ := Except.bind_eq_ok.mp h
      exact Except.pure_eq_ok.mp h
  cases hpair
  exact ⟨hname, hstate⟩

/-! ## One call -/

/-- No key has a line break in what the file holds. -/
def Unbroken (file : Option Bytes) : Prop :=
  ∀ path cur, parse lib.toInterpreter path file = .ok cur →
    ∀ k ∈ (Value.table cur.data).keys, '\n' ∉ k

/-- What the file holds is sound. -/
def SoundFile (file : Option Bytes) : Prop :=
  ∀ path cur, parse lib.toInterpreter path file = .ok cur → Sound (.table cur.data)

theorem ofData_data {F : Type} (it : Interpreter F) (path : Text) (data : Members F) :
    (SwitchRead.ofData it path data).data = data := by
  rw [SwitchRead.ofData]
  cases stateOf data <;> rfl

theorem soundFile_of_unbroken {file : Option Bytes} (h : Unbroken lib file) :
    SoundFile lib file := by
  intro path cur hcur
  refine ⟨?_, h path cur hcur⟩
  have hnil : Distinct (Value.table ([] : Members fl.Finite)).parts := sound_nil.1
  unfold parse at hcur
  split at hcur
  · cases hcur
    exact hnil
  · split at hcur
    · cases hcur
      exact hnil
    · split at hcur
      · next hloads =>
        cases hcur
        rw [ofData_data]
        exact lib.distinct _ _ hloads
      · cases hcur
        exact hnil
      · cases hcur

/-- **What a written file reads as.** -/
theorem parse_written {data : Members fl.Finite} {text state : Text}
    (htext : dumpsToml fl data = .ok text) (hsound : Sound (.table data))
    (hint : unprintable lib (.table data) = false) (hstate : state ∈ states)
    (hlookup : (written data).lookup "state".toList = some (.str state)) (path : Text) :
    parse lib.toInterpreter path (some (encodeUtf8 text)) =
      .ok { state := some state, missing := false, error := [], data := written data } := by
  have hprint : ∀ n, .int n ∈ (Value.table (written data)).parts → lib.printable n := by
    intro n hn
    have hmem := int_mem_plainFirst (.table data) hn
    rw [unprintable, List.any_eq_false] at hint
    simpa using hint _ hmem
  have hloads := lib.loads_eq text (written data) (loads_dumpsToml fl htext hsound)
    (sound_written hsound).1 hprint
  have hof : stateOf (written data) = some state := by
    rw [stateOf, hlookup]
    exact if_pos hstate
  simp only [parse, decodeUtf8_encodeUtf8, hloads, SwitchRead.ofData, hof]

theorem sound_timeOf {change : Change fl.Finite} (h : SoundChange change) (now : Text) :
    Sound (timeOf lib change now) := by
  unfold timeOf
  split
  · next v hv =>
    split_ifs
    · exact h.setAt v hv
    · exact sound_str now
  · exact sound_str now

/-- **One call keeps to what it says**, and what the file then holds is sound again. -/
theorem kept_on {parts : List String} {c : Call fl.Finite} {file : Option Bytes}
    (hfile : SoundFile lib file) (hchange : SoundChange c.change) :
    Kept lib parts c file (c.on lib parts file) ∧ SoundFile lib (c.on lib parts file).2 := by
  rcases on_cases lib parts c file with ⟨e, heq⟩ | ⟨name, state, answer, bytes, hopen, hlock, heq⟩
  · rw [heq]
    exact ⟨⟨fun e' _ ↦ rfl, fun h ↦ absurd rfl (h e)⟩, hfile⟩
  · obtain ⟨hname, hstate⟩ := openLock_eq_ok hopen
    obtain ⟨old, data, text, hold, hfailed, hdata, hint, htext, rfl, rfl⟩ :=
      underLock_eq_ok lib hlock
    have hat := sound_timeOf lib hchange c.now
    have hcur := hfile _ _ hold
    have hsound := sound_changed hdata hchange hat (sound_str state) hcur
    have hasked := asAsked_written hdata hchange hat hcur
    have hparse := parse_written lib htext hsound hint (newState_eq_ok hstate) hasked.state
    have hwritten : Rewritten lib parts c old (some (encodeUtf8 text)) name state (written data) :=
      ⟨hname, hstate, hparse _, hasked, oneMore_written hdata hchange hat hcur⟩
    have hagain : SoundFile lib (some (encodeUtf8 text)) := by
      intro path cur h
      rw [hparse path] at h
      cases h
      exact sound_written hsound
    rcases heq with ⟨e, heq⟩ | heq
    · rw [heq]
      refine ⟨⟨fun e' h ↦ ?_, fun _ ↦ ⟨old, hold, hfailed, fun answer h ↦ ?_, ?_⟩⟩, hagain⟩
      · cases h
      · cases h
      · exact ⟨name, state, written data, hwritten⟩
    · rw [heq]
      refine ⟨⟨fun e h ↦ ?_, fun _ ↦ ⟨old, hold, hfailed, fun answer h ↦ ?_, ?_⟩⟩, hagain⟩
      · cases h
      · exact (Ended.returned.inj h).symm
      · exact ⟨name, state, written data, hwritten⟩

/-! ## Over a sequence of calls -/

theorem soundFile_run {parts : List String} {calls : List (Call fl.Finite)} {file : Option Bytes}
    (hfile : SoundFile lib file) (hcalls : ∀ c ∈ calls, SoundChange c.change) :
    SoundFile lib (run lib parts calls file) := by
  induction calls generalizing file with
  | nil => exact hfile
  | cons c calls ih =>
    rw [List.forall_mem_cons] at hcalls
    exact ih (kept_on lib hfile hcalls.1).2 hcalls.2

/-- **Every call of a sequence keeps to what it says**, on the file the calls before it left. -/
theorem kept_run (parts : List String) (calls : List (Call fl.Finite)) (file : Option Bytes)
    (hfile : Unbroken lib file) (hcalls : ∀ c ∈ calls, SoundChange c.change) :
    ∀ done c rest, calls = done ++ c :: rest →
      Kept lib parts c (run lib parts done file) (c.on lib parts (run lib parts done file)) := by
  rintro done c rest rfl
  have hdone : SoundFile lib (run lib parts done file) :=
    soundFile_run lib (soundFile_of_unbroken lib hfile) fun c hc ↦
      hcalls c (List.mem_append_left _ hc)
  exact (kept_on lib hdone (hcalls c (List.mem_append_right _ List.mem_cons_self))).1

/-- No dict in the values has a key twice. -/
def allDistinct {F : Type} (vs : List (Value F)) : Bool :=
  vs.all fun
    | .table ms => (ms.map Prod.fst).Nodup
    | _ => true

theorem allDistinct_iff {F : Type} {vs : List (Value F)} : allDistinct vs ↔ Distinct vs := by
  rw [allDistinct, List.all_eq_true]
  constructor
  · exact fun h ms hms ↦ of_decide_eq_true (h _ hms)
  · intro h v hv
    cases v with
    | table ms => exact decide_eq_true (h ms hv)
    | _ => rfl

/-- The standard library with the floats of `wholeFloats`. -/
def wholeStdlib : Stdlib wholeFloats where
  loads text :=
    match loads wholeFloats text with
    | some d =>
      if allDistinct (Value.table d).parts then .ok d
      else .error (.decodeError "Cannot overwrite a value".toList)
    | none => .error (.decodeError "Invalid statement".toList)
  undecodable _ := "'utf-8' codec can't decode byte: invalid start byte".toList
  reprState
    | some (.str s) => '\'' :: s ++ ['\'']
    | some (.bool b) => (if b then "True" else "False").toList
    | some (.int n) => pyStr n
    | _ => "None".toList
  truthy
    | .str s => s ≠ []
    | .bool b => b
    | .int n => n ≠ 0
    | .float (.finite (x : ℤ)) => x ≠ 0
    | .arr items => !items.isEmpty
    | .table ms => !ms.isEmpty
    | _ => true
  distinct text d h := by
    split at h
    · split_ifs at h with hd
      cases h
      exact allDistinct_iff.mp hd
    · cases h
  printable n := (Nat.toDigits 10 n.natAbs).length ≤ 4300
  loads_eq text d h hd _ := by
    rw [h]
    exact if_pos (allDistinct_iff.mpr hd)

/-- Every step of the operating system succeeds. -/
def Os.fine : Os where
  isDir := true
  mkdir := none
  chmodDir := none
  openLock := none
  chmodLock := none
  waits := 0
  held := []
  lock := none
  unreadable := none
  emit := none
  stat := .replaceable
  temp _ := .opened
  chmodTemp := none
  write := none
  syncTemp := none
  replace := none
  unlink := none
  syncDir := none
  closeLock := none

/-- A call whose file reads well and whose dict has a text returns, where every step succeeds. -/
theorem on_fine {parts : List String} {change : Change fl.Finite} {now : Text}
    {file : Option Bytes} {name state text : Text} {cur : SwitchRead fl.Finite}
    {data : Members fl.Finite} (hopen : openLock Os.fine parts change = .ok (name, state))
    (hcur : parse lib.toInterpreter (pathText parts) file = .ok cur) (hfailed : cur.failed = false)
    (hdata : changed name change (timeOf lib change now) (.str state) cur = .ok data)
    (hint : unprintable lib (.table data) = false) (htext : dumpsToml fl data = .ok text) :
    Call.on lib parts { os := Os.fine, change, now } file =
      (.returned (before cur), some (encodeUtf8 text)) := by
  have hlock : underLock lib Os.fine (pathText parts) name state change now file =
      .ok (before cur, encodeUtf8 text) := by
    refine Except.bind_eq_ok.mpr ⟨(), rfl, Except.bind_eq_ok.mpr ⟨(), rfl, ?_⟩⟩
    refine Except.bind_eq_ok.mpr ⟨cur, hcur, ?_⟩
    rw [hfailed]
    refine Except.bind_eq_ok.mpr ⟨data, hdata, Except.bind_eq_ok.mpr ⟨(), rfl, ?_⟩⟩
    rw [hint, htext]
    rfl
  rw [Call.on, writeSwitch, hopen]
  simp only [hlock]
  rfl

/-- A client's switch is set to `fill`, by a call that names a station. -/
def firstCall : Call wholeFloats.Finite where
  os := Os.fine
  change :=
    { state := some (.str "fill".toList)
      setAt := some (.str "t1".toList)
      setBy := some (.str "x".toList)
      reason := some (.str "a".toList)
      identity := [("AC0G=S".toList, .table [("callsign".toList, .str "AC0G/S".toList),
        ("psws".toList, .table [("station".toList, .str "S1".toList),
          ("instrument".toList, .str "1".toList)])])] }
  now := "2026-10-06T21:30:00Z".toList

/-- It is set to `upload`. -/
def secondCall : Call wholeFloats.Finite where
  os := Os.fine
  change :=
    { state := some (.str "upload".toList)
      setAt := some (.str "t2".toList)
      setBy := some (.str "y".toList)
      reason := some (.str "b".toList) }
  now := "2026-10-06T21:31:00Z".toList

/-- What the first call writes into a new file and the second over that, and their texts. -/
theorem texts_twice : ∃ data text again text',
    changed "c".toList firstCall.change (timeOf wholeStdlib firstCall.change firstCall.now)
      (.str "fill".toList) .absent = .ok data ∧
    unprintable wholeStdlib (.table data) = false ∧ dumpsToml wholeFloats data = .ok text ∧
    changed "c".toList secondCall.change (timeOf wholeStdlib secondCall.change secondCall.now)
      (.str "upload".toList)
      { state := some "fill".toList, missing := false, error := [], data := written data } =
        .ok again ∧
    unprintable wholeStdlib (.table again) = false ∧ dumpsToml wholeFloats again = .ok text' := by
  exact ⟨_, _, _, _, rfl, rfl, rfl, rfl, rfl, rfl⟩

theorem kept_run_twice :
    (secondCall.on wholeStdlib ["c.toml"] (run wholeStdlib ["c.toml"] [firstCall] none)).1 =
      .returned "fill".toList ∧
    Kept wholeStdlib ["c.toml"] secondCall (run wholeStdlib ["c.toml"] [firstCall] none)
      (secondCall.on wholeStdlib ["c.toml"] (run wholeStdlib ["c.toml"] [firstCall] none)) := by
  have hfile : Unbroken wholeStdlib none := by
    intro path cur h k hk
    cases h
    cases hk
  have hstr : ∀ {o : Option (Value ℤ)} {s : Text}, o = some (.str s) → ∀ v ∈ o, Sound v := by
    rintro o s rfl v hv
    cases hv
    exact sound_str s
  have hidentity : Sound (.table firstCall.change.identity) :=
    ⟨allDistinct_iff.mp (by decide), by decide⟩
  have hcalls : ∀ c ∈ [firstCall, secondCall], SoundChange c.change := by
    rw [List.forall_mem_cons, List.forall_mem_singleton]
    exact ⟨⟨hstr rfl, hstr rfl, hstr rfl, sound_nil, hidentity⟩,
      ⟨hstr rfl, hstr rfl, hstr rfl, sound_nil, sound_nil⟩⟩
  have hlist : [firstCall, secondCall] = [firstCall] ++ secondCall :: [] := rfl
  refine ⟨?_, kept_run wholeStdlib ["c.toml"] [firstCall, secondCall] none hfile hcalls
    [firstCall] secondCall [] hlist⟩
  obtain ⟨data, text, again, text', hdata, hint, htext, hagain, hint', htext'⟩ := texts_twice
  have hfirst : firstCall.on wholeStdlib ["c.toml"] none = (_, some (encodeUtf8 text)) :=
    on_fine wholeStdlib rfl rfl rfl hdata hint htext
  have hchange := hcalls firstCall List.mem_cons_self
  have hat := sound_timeOf wholeStdlib hchange firstCall.now
  have hsound := sound_changed hdata hchange hat (sound_str "fill".toList) sound_nil
  have hwritten := asAsked_written hdata hchange hat sound_nil
  have hparse := parse_written wholeStdlib htext hsound hint (by decide) hwritten.state
  have hrun : run wholeStdlib ["c.toml"] [firstCall] none = some (encodeUtf8 text) :=
    congrArg Prod.snd hfirst
  rw [hrun]
  exact congrArg Prod.fst (on_fine wholeStdlib rfl (hparse _) rfl hagain hint' htext')

/-- The calls that put a new file in the place of the old one. -/
def gotThrough (parts : List String) : List (Call fl.Finite) → Option Bytes → List (Call fl.Finite)
  | [], _ => []
  | c :: calls, file =>
    match c.on lib parts file with
    | (.failed _, file) => gotThrough parts calls file
    | (_, file) => c :: gotThrough parts calls file

/-- The entry is one of the call. -/
def IsEntryOf (parts : List String) (c : Call fl.Finite) (entry : Members fl.Finite) : Prop :=
  ∃ name state old, checkPath parts = .ok name ∧ newState c.change = .ok state ∧
    IsEntry name c.change (timeOf lib c.change c.now) old state entry

/-- **The history grows by one entry for each call that got through**, and loses nothing. -/
theorem grown_run {parts : List String} {calls : List (Call fl.Finite)} {file : Option Bytes}
    (hfile : SoundFile lib file) (hcalls : ∀ c ∈ calls, SoundChange c.change)
    {old : SwitchRead fl.Finite} {items : List (Value fl.Finite)}
    (hold : parse lib.toInterpreter (pathText parts) file = .ok old)
    (hitems : listOf (old.data.lookup "history".toList) = .ok items) :
    ∃ new items' added,
      parse lib.toInterpreter (pathText parts) (run lib parts calls file) = .ok new ∧
      listOf (new.data.lookup "history".toList) = .ok items' ∧
      items'.map plainFirst =
        items.map plainFirst ++ added.map (fun entry ↦ plainFirst (.table entry)) ∧
      List.Forall₂ (IsEntryOf lib parts) (gotThrough lib parts calls file) added := by
  induction calls generalizing file old items with
  | nil => exact ⟨old, items, [], hold, hitems, by simp, .nil⟩
  | cons c calls ih =>
    rw [List.forall_mem_cons] at hcalls
    have hon : Kept lib parts c file (c.on lib parts file) ∧
        SoundFile lib (c.on lib parts file).2 := kept_on lib hfile hcalls.1
    obtain ⟨hkept, hsound⟩ := hon
    rw [run, List.foldl_cons, ← run, gotThrough]
    rcases hon : c.on lib parts file with ⟨ended, file'⟩
    rw [hon] at hkept hsound
    have hthrough : (∀ e, ended ≠ .failed e) → ∃ new items' added,
        parse lib.toInterpreter (pathText parts) (run lib parts calls file') = .ok new ∧
        listOf (new.data.lookup "history".toList) = .ok items' ∧
        items'.map plainFirst =
          items.map plainFirst ++ added.map (fun entry ↦ plainFirst (.table entry)) ∧
        List.Forall₂ (IsEntryOf lib parts) (c :: gotThrough lib parts calls file') added := by
      intro hended
      obtain ⟨old', hold', -, -, name, state, data, hnew⟩ := hkept.through hended
      rw [hold] at hold'
      cases hold'
      obtain ⟨items₀, items₁, entry, hitems₀, hlookup, hsame, hentry⟩ := hnew.oneMore
      rw [hitems] at hitems₀
      cases hitems₀
      have hnext : listOf (data.lookup "history".toList) = .ok (items₁ ++ [.table entry]) := by
        rw [hlookup]
        rfl
      obtain ⟨new, items', added, hparse, hlist, heq, hall⟩ := ih hsound hcalls.2 hnew.reads hnext
      refine ⟨new, items', entry :: added, hparse, hlist, ?_, .cons ?_ hall⟩
      · rw [heq, List.map_append, hsame, List.append_assoc]
        rfl
      · exact ⟨name, state, _, hnew.isName, hnew.isState, hentry⟩
    cases ended with
    | failed e =>
      obtain rfl : file' = file := hkept.failed e rfl
      exact ih hfile hcalls.2 hold hitems
    | late e => exact hthrough fun e' h ↦ by cases h
    | returned answer => exact hthrough fun e h ↦ by cases h

end HsUploader.SinkSwitch
