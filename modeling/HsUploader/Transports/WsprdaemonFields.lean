import HsUploader.Library.Fields
import HsUploader.Transports.WsprDedup
import HsUploader.Transports.WsprdaemonGroups

/-!
# The fields of an extended line

The server reads an extended line by the positions of its fields.  The line is made of 34
conversions with a blank between each two, and a number is always one field; but the callsign, the
two grids and the receiver's call are texts, which are written as they are.  The line has its 34
fields where they belong exactly when the callsign and the grid are one field each and the receiver
is two.
-/

set_option autoImplicit false

namespace HsUploader.Wsprdaemon

open Fields (fields Word)
open WsprCycleSource (isStripped)

/-- White space, as `str.split` has it. -/
def isSpace : PyChar → Bool
  | .scalar c => isStripped c
  | .surrogate _ => false

/-- `text.split()`. -/
def split (text : PyText) : List PyText := fields isSpace text

/-- A text that is one field. -/
def OneField (text : PyText) : Prop := Word isSpace text

/-- A number is written without white space: `%f` and `%d` write a sign, digits and a point, or the
name of what is no number. -/
structure Printf (py : Interpreter) : Prop where
  fixed : ∀ places x, OneField (.ofString (py.fixed places x))
  decimal : ∀ n s, py.decimal n = some s → OneField (.ofString s)

/-- The line has 34 fields, with the callsign seventh, the grid eighth and the flag last. -/
structure Keeps34 (line callsign grid flag : PyText) : Prop where
  length : (split line).length = 34
  callsign : (split line)[6]? = some callsign
  grid : (split line)[7]? = some grid
  flag : (split line).getLast? = some flag

section

variable {py : Interpreter}

/-! ## One conversion -/

/-- What the conversion writes is one field. -/
def Cell.IsField (c : Cell py) : Prop := ∀ part, c.write py = .ok part → (split part).length = 1

theorem isSpace_blank : isSpace (.scalar ' ') = true := by decide

theorem split_padLeft (width : ℕ) (s : PyText) : split (WsprNet.padLeft width s) = split s :=
  Fields.fields_replicate_append isSpace_blank _ _

theorem split_padRight (width : ℕ) (s : PyText) : split (WsprNet.padRight width s) = split s :=
  Fields.fields_append_replicate isSpace_blank _ _

theorem split_of_oneField {s : PyText} (h : OneField s) : split s = [s] := Fields.fields_of_word h

theorem isField_left {width : ℕ} {s : PyText} (h : OneField s) :
    (Cell.left width s : Cell py).IsField := by
  rintro part ⟨⟩
  rw [split_padLeft, split_of_oneField h]
  rfl

theorem isField_float (hprintf : Printf py) (width places : ℕ) (x : PyNumber py.Finite) :
    (Cell.float width places x).IsField := by
  rintro part ⟨⟩
  rw [WsprNet.floatField, split_padLeft, split_of_oneField (hprintf.fixed places x)]
  rfl

theorem write_int {width : ℕ} {n : ℤ} {part : PyText}
    (h : (Cell.int width n : Cell py).write py = .ok part) :
    ∃ s, py.decimal n = some s ∧ part = WsprNet.padLeft width (.ofString s) := by
  rw [Cell.write, WsprNet.intField] at h
  cases hs : py.decimal n with
  | none =>
    rw [hs] at h
    cases h
  | some s =>
    rw [hs] at h
    exact ⟨s, rfl, (Except.ok.inj h).symm⟩

theorem isField_int (hprintf : Printf py) (width : ℕ) (n : ℤ) :
    (Cell.int width n : Cell py).IsField := by
  intro part h
  obtain ⟨s, hs, rfl⟩ := write_int h
  rw [split_padLeft, split_of_oneField (hprintf.decimal n s hs)]
  rfl

/-! ## Dates -/

theorem isStripped_of_all {cs : List Char} (h : (cs.all fun c ↦ !isStripped c) = true) :
    ∀ c ∈ cs, isStripped c = false := by
  simpa using h

theorem oneField_ofString {s : String} (hne : s.toList ≠ [])
    (h : ∀ c ∈ s.toList, isStripped c = false) : OneField (.ofString s) := by
  refine ⟨by simpa [PyText.ofString] using hne, fun a ha ↦ ?_⟩
  obtain ⟨c, hc, rfl⟩ := List.mem_map.mp ha
  exact h c hc

theorem isStripped_digitChar : ∀ n < 10, isStripped (Nat.digitChar n) = false := by decide

theorem isStripped_twoDigits (n : ℕ) :
    ∀ c ∈ (WsprNet.twoDigits n).toList, isStripped c = false := by
  intro c hc
  simp only [WsprNet.twoDigits, String.toList_ofList, List.mem_cons, List.not_mem_nil,
    or_false] at hc
  rcases hc with rfl | rfl
  · exact isStripped_digitChar _ (Nat.mod_lt _ (by decide))
  · exact isStripped_digitChar _ (Nat.mod_lt _ (by decide))

theorem oneField_ymd (t : Moment) : OneField (.ofString t.ymd) := by
  refine oneField_ofString (by simp [WsprNet.DateTime.ymd, WsprNet.twoDigits]) fun c hc ↦ ?_
  simp only [WsprNet.DateTime.ymd, String.toList_append, List.mem_append] at hc
  rcases hc with (hc | hc) | hc
  · exact isStripped_twoDigits _ c hc
  · exact isStripped_twoDigits _ c hc
  · exact isStripped_twoDigits _ c hc

theorem oneField_hm (t : Moment) : OneField (.ofString t.hm) := by
  refine oneField_ofString (by simp [WsprNet.DateTime.hm, WsprNet.twoDigits]) fun c hc ↦ ?_
  simp only [WsprNet.DateTime.hm, String.toList_append, List.mem_append] at hc
  rcases hc with hc | hc
  · exact isStripped_twoDigits _ c hc
  · exact isStripped_twoDigits _ c hc

/-! ## A line -/

theorem mapM_append_eq_ok {α β : Type} {f : α → Except Exn β} {l l' : List α} {bs : List β} :
    (l ++ l').mapM f = .ok bs ↔
      ∃ b b', l.mapM f = .ok b ∧ l'.mapM f = .ok b' ∧ bs = b ++ b' := by
  simp only [List.mapM_append, Except.bind_eq_ok, Except.pure_eq_ok]
  constructor
  · rintro ⟨b, hb, b', hb', rfl⟩
    exact ⟨b, b', hb, hb', rfl⟩
  · rintro ⟨b, b', hb, hb', rfl⟩
    exact ⟨b, hb, b', hb', rfl⟩

/-- Conversions that write one field each write as many fields as they are. -/
theorem length_flatMap_split {cells : List (Cell py)} {parts : List PyText}
    (h : cells.mapM (Cell.write py) = .ok parts) (hfield : ∀ c ∈ cells, c.IsField) :
    (parts.flatMap split).length = cells.length := by
  induction cells generalizing parts with
  | nil =>
    obtain rfl := Except.pure_eq_ok.mp h
    rfl
  | cons c cells ih =>
    obtain ⟨part, rest, hpart, hrest, rfl⟩ := Except.mapM_cons_eq_ok.mp h
    rw [List.forall_mem_cons] at hfield
    rw [List.flatMap_cons, List.length_append, hfield.1 part hpart, ih hrest hfield.2,
      List.length_cons, Nat.add_comm]

/-- What the last conversion writes is the last field. -/
theorem getLast?_flatMap_split {cells : List (Cell py)} {parts : List PyText} {width : ℕ} {n : ℤ}
    (hprintf : Printf py) (h : (cells ++ [Cell.int width n]).mapM (Cell.write py) = .ok parts) :
    (parts.flatMap split).getLast? = (py.decimal n).map PyText.ofString := by
  obtain ⟨b, b', -, hlast, rfl⟩ := mapM_append_eq_ok.mp h
  obtain ⟨part, rest, hpart, hrest, rfl⟩ := Except.mapM_cons_eq_ok.mp hlast
  obtain rfl : [] = rest := Except.pure_eq_ok.mp hrest
  obtain ⟨s, hs, rfl⟩ := write_int hpart
  rw [List.flatMap_append, List.flatMap_singleton, split_padLeft,
    split_of_oneField (hprintf.decimal n s hs), List.getLast?_concat, hs]
  rfl

theorem isField_extHead (hprintf : Printf py) {t : Moment} {sync snr dt freq : PyNumber py.Finite} :
    ∀ c ∈ extHead py t sync snr dt freq, c.IsField := by
  simp only [extHead, List.forall_mem_cons, List.not_mem_nil, false_imp_iff, implies_true, and_true]
  exact ⟨isField_left (oneField_ymd t), isField_left (oneField_hm t), isField_float hprintf _ _ _,
    isField_float hprintf _ _ _, isField_float hprintf _ _ _, isField_float hprintf _ _ _⟩

theorem isField_extCounts (hprintf : Printf py) {n : Counts} {band : ℤ} :
    ∀ c ∈ extCounts py n band, c.IsField := by
  simp only [extCounts, List.forall_mem_cons, List.not_mem_nil, false_imp_iff, implies_true,
    and_true, isField_int hprintf, isField_float hprintf]

theorem isField_extTail (hprintf : Printf py) {geo : Geo py} {km : ℤ} {proxyUpload : Bool} :
    ∀ c ∈ extTail py geo km proxyUpload, c.IsField := by
  simp only [extTail, List.forall_mem_cons, List.not_mem_nil, false_imp_iff, implies_true,
    and_true, isField_int hprintf, isField_float hprintf]

theorem extTail_eq (geo : Geo py) (km : ℤ) (proxyUpload : Bool) :
    extTail py geo km proxyUpload = (extTail py geo km proxyUpload).dropLast ++
      [.int 4 (if proxyUpload then 1 else 0)] := rfl

/-- The fields of an extended line: six, those of the callsign and the grid, thirteen, those of the
receiver, and eleven, the last of which is the flag. -/
theorem split_extendedLine (hprintf : Printf py) {cols : Columns py.Finite} {rxCall rxGrid : PyText}
    {proxyUpload : Bool} {line : PyText}
    (h : formatExtendedLine py cols rxCall rxGrid proxyUpload = .ok line) :
    ∃ callsign grid head counts tail,
      getItem cols "callsign" = .ok callsign ∧
      asText (py.orElse (cols.get "grid") (.str (.ofString "none"))) = .ok grid ∧
      split line = head ++ (split (py.str callsign) ++ (split grid ++ (counts ++
        (split rxGrid ++ (split rxCall ++ tail))))) ∧
      head.length = 6 ∧ counts.length = 13 ∧ tail.length = 11 ∧
      tail.getLast? = (py.decimal (if proxyUpload then 1 else 0)).map PyText.ofString := by
  simp only [formatExtendedLine, format, Except.bind_eq_ok, Except.pure_eq_ok] at h
  obtain ⟨time, -, t, -, freq, -, drift, -, metric, -, grid, hgrid, geo, -, snrDb, -, snr, -,
    callsign, hcall, n, -, km, -, sync, -, dt, -, parts, hparts, rfl⟩ := h
  simp only [mapM_append_eq_ok] at hparts
  obtain ⟨_, tail, ⟨_, receiver, ⟨_, counts, ⟨head, texts, hhead, htexts, rfl⟩, hcounts, rfl⟩,
    hreceiver, rfl⟩, htail, rfl⟩ := hparts
  simp only [Except.mapM_cons_eq_ok, List.mapM_nil, Except.pure_eq_ok, Cell.write,
    Except.ok.injEq] at htexts hreceiver
  obtain ⟨_, _, rfl, ⟨_, _, rfl, rfl, rfl⟩, rfl⟩ := htexts
  obtain ⟨_, _, rfl, ⟨_, _, rfl, rfl, rfl⟩, rfl⟩ := hreceiver
  refine ⟨callsign, grid, head.flatMap split, counts.flatMap split, tail.flatMap split, hcall,
    hgrid, ?_, length_flatMap_split hhead (isField_extHead hprintf),
    length_flatMap_split hcounts (isField_extCounts hprintf),
    length_flatMap_split htail (isField_extTail hprintf), ?_⟩
  · have hline : ∀ parts : List PyText, split (WsprNet.blankJoin parts) = parts.flatMap split :=
      Fields.fields_intercalate isSpace_blank
    simp only [hline, List.flatMap_append, List.flatMap_cons, List.flatMap_nil, List.append_nil,
      List.append_assoc, split_padLeft, split_padRight]
  · rw [extTail_eq] at htail
    exact getLast?_flatMap_split hprintf htail

/-- The row and its receiver fill the four places of a line that are texts: the callsign and the
grid are one field each, the receiver's grid and its call two together. -/
structure Fits (py : Interpreter) (cols : Columns py.Finite) (rxCall rxGrid : PyText) : Prop where
  callsign : ∀ v, getItem cols "callsign" = .ok v → OneField (py.str v)
  grid : ∀ s, asText (py.orElse (cols.get "grid") (.str (.ofString "none"))) = .ok s → OneField s
  receiver : (split rxGrid).length + (split rxCall).length = 2

/-- The line keeps its fields: what stands seventh, eighth and last is what the row and the
uploader say. -/
def Keeps (py : Interpreter) (cols : Columns py.Finite) (proxyUpload : Bool) (line : PyText) :
    Prop :=
  ∃ callsign grid flag, getItem cols "callsign" = .ok callsign ∧
    asText (py.orElse (cols.get "grid") (.str (.ofString "none"))) = .ok grid ∧
    py.decimal (if proxyUpload then 1 else 0) = some flag ∧
    Keeps34 line (py.str callsign) grid (.ofString flag)

theorem getElem?_six {head rest : List PyText} {x : PyText} (h : head.length = 6) :
    (head ++ x :: rest)[6]? = some x := by
  rw [List.getElem?_append_right (by omega), h]
  rfl

/-- **An extended line keeps its 34 fields exactly when its texts fill their places.** -/
theorem keeps_iff_fits (hprintf : Printf py) {cols : Columns py.Finite} {rxCall rxGrid : PyText}
    {proxyUpload : Bool} {line : PyText}
    (h : formatExtendedLine py cols rxCall rxGrid proxyUpload = .ok line) :
    Keeps py cols proxyUpload line ↔ Fits py cols rxCall rxGrid := by
  obtain ⟨callsign, grid, head, counts, tail, hcall, hgrid, hline, hhead, hcounts, htail, hflag⟩ :=
    split_extendedLine hprintf h
  constructor
  · rintro ⟨callsign', grid', flag, hcall', hgrid', -, hkeeps⟩
    obtain rfl := Except.ok.inj (hcall.symm.trans hcall')
    obtain rfl := Except.ok.inj (hgrid.symm.trans hgrid')
    -- what stands in a place is a field
    have hword : OneField (py.str callsign) :=
      Fields.word_of_mem_fields (List.mem_of_getElem? hkeeps.callsign)
    have hword' : OneField grid := Fields.word_of_mem_fields (List.mem_of_getElem? hkeeps.grid)
    have hlength := hkeeps.length
    rw [hline, split_of_oneField hword, split_of_oneField hword'] at hlength
    simp only [List.length_append, List.length_cons, List.length_nil, hhead, hcounts, htail]
      at hlength
    refine ⟨fun v hv ↦ ?_, fun s hs ↦ ?_, by omega⟩
    · rwa [← Except.ok.inj (hcall.symm.trans hv)]
    · rwa [← Except.ok.inj (hgrid.symm.trans hs)]
  · intro hfits
    have hword := hfits.callsign callsign hcall
    have hword' := hfits.grid grid hgrid
    rw [split_of_oneField hword, split_of_oneField hword'] at hline
    have hne : tail ≠ [] := fun hnil ↦ by
      rw [hnil] at htail
      cases htail
    obtain ⟨flag, hdecimal⟩ : ∃ flag, py.decimal (if proxyUpload then 1 else 0) = some flag := by
      cases hs : py.decimal (if proxyUpload then 1 else 0) with
      | some flag => exact ⟨flag, rfl⟩
      | none =>
        rw [hs, Option.map_none, List.getLast?_eq_none_iff] at hflag
        exact absurd hflag hne
    refine ⟨callsign, grid, flag, hcall, hgrid, hdecimal, ?_, ?_, ?_, ?_⟩
    · have hreceiver := hfits.receiver
      rw [hline]
      simp only [List.length_append, List.length_cons, List.length_nil, hhead, hcounts, htail]
      omega
    · rw [hline]
      exact getElem?_six hhead
    · rw [hline, List.getElem?_append_right (by omega), hhead]
      rfl
    · rw [hdecimal] at hflag
      simp only [hline, List.getLast?_append, hflag, Option.map_some, Option.some_or]

/-! ## The lines in the tar -/

/-- A row of a W mode is a line of a member, which is written for the receiver of the row. -/
theorem exists_line {up : Uploader} {set : Settings} {records : List (Rec py.Finite)}
    {entries : List Entry} (h : buildEntries py up set records = .ok entries)
    {r : Rec py.Finite} (hr : r ∈ records) {key : SpotKey} {band : PyValue py.Finite}
    {mode : PyText} (hfile : fileRecord py up r = .ok (.spot key band (.str mode)))
    (hw : isW mode = true) :
    ∃ name content lines line, (name, content) ∈ entries ∧ encodeLines lines = .ok content ∧
      line ∈ lines ∧ formatExtendedLine py r.columns key.rxId.call key.rxId.grid
        (set.forwardToWsprnet.getD false) = .ok line := by
  simp only [buildEntries, Except.bind_eq_ok, Except.pure_eq_ok] at h
  obtain ⟨g, hg, start, -, routing, -, spots, hspots, noise, -, psk, -, rfl⟩ := h
  obtain ⟨items, hitems, hfold⟩ := groupRecords_eq_ok.mp hg
  obtain ⟨group, hgroup, hrow⟩ :=
    exists_group_of_spot hfold ((mem_items hitems).mpr ⟨r, hr, hfile, rfl⟩)
  -- the group is named by its first row, whose mode is the same
  have hmode : group.mode = .str mode := by
    obtain ⟨x, rest, hfilter, rfl⟩ := exists_of_mem_spots hfold hgroup
    obtain ⟨hx, hkey⟩ := List.mem_filter.mp (hfilter ▸ List.mem_cons_self : x ∈ _)
    obtain ⟨⟨filed, cols⟩, hitem, hspot⟩ := List.mem_filterMap.mp hx
    obtain ⟨r', -, hfile', -⟩ := (mem_items hitems).mp hitem
    cases filed with
    | spot key' band' mode' =>
      cases hspot
      obtain ⟨-, -, hm', -⟩ := of_fileRecord_spot hfile'
      obtain ⟨-, -, hm, -⟩ := of_fileRecord_spot hfile
      obtain rfl : key' = key := of_decide_eq_true hkey
      exact hashed_eq_str.mp (hm'.trans (congrArg Except.ok (Except.ok.inj hm).symm))
    | _ => cases hspot
  obtain ⟨⟨name, content⟩, hentry, hwrite⟩ := (Except.exists_of_mapM hspots).1 _ hgroup
  simp only [spotEntry, hmode, asText, Except.ok_bind, Except.bind_eq_ok, Except.pure_eq_ok,
    spotLines, hw, if_true] at hwrite
  obtain ⟨lines, hlines, content', hcontent, heq⟩ := hwrite
  cases heq
  obtain ⟨line, hline, hformat⟩ := (Except.exists_of_mapM hlines).1 _ hrow
  exact ⟨_, content, lines, line,
    List.mem_append_left _ (List.mem_append_left _ (List.mem_append_right _ hentry)), hcontent,
    hline, hformat⟩

end

/-! ## A receiver without a grid -/

/-- An operator on finite floats. -/
def onWholes (f : ℤ → ℤ → ℤ) : PyNumber ℤ → PyNumber ℤ → PyNumber ℤ
  | .finite x, .finite y => .finite (f x y)
  | _, _ => .nan

/-- A whole number with zeros behind the point. -/
def plainFixed (places : ℕ) : PyNumber ℤ → List Char
  | .finite n => pyStr n ++ (if places = 0 then [] else '.' :: List.replicate places '0')
  | .inf true => ['-', 'i', 'n', 'f']
  | .inf false => ['i', 'n', 'f']
  | .nan => ['n', 'a', 'n']

/-- The whole numbers as floats, with one minute to read. -/
def plainNumbers : Interpreter where
  toInterpreter :=
    { WsprNet.wholeNumbers with
      fixed := fun places x ↦ String.ofList (plainFixed places x)
      decimal := fun n ↦ some (String.ofList (pyStr n)) }
  lit q := (q.floor : ℤ)
  add := onWholes (· + ·)
  sub := onWholes (· - ·)
  mul := onWholes (· * ·)
  div x y := .ok (onWholes (· / ·) x y)
  mod x y := .ok (onWholes (· % ·) x y)
  square x := .ok (onWholes (· * ·) x x)
  neg x := onWholes (· - ·) (.finite (0 : ℤ)) x
  abs := WsprNet.onFinite fun x ↦ (Int.natAbs x : ℤ)
  radians := id
  degrees := id
  sin := .ok
  cos := .ok
  acos := .ok
  sqrt := .ok
  atan2 := onWholes (· - ·)
  fromIsoFormat s :=
    if s = .ofString "2026-05-23T01:02:00+00:00" then
      some { year := 2026, month := 5, day := 23, hour := 1, minute := 2, second := 0 }
    else none
  dumps _ := .ok (.ofString "\x7b\x7d")
  sortRows := .ok
  isDecimal c := match c with
    | .scalar c => c.isDigit
    | .surrogate _ => false

theorem isStripped_of_isDigit {c : Char} (h : c.isDigit = true) : isStripped c = false := by
  have hrange := toNat_of_isDigit h
  have hne : c ≠ ' ' := fun hc ↦ by
    rw [hc] at hrange
    exact absurd hrange (by decide)
  simp only [isStripped, isPySpace, Bool.or_eq_false_iff, Bool.and_eq_false_iff,
    decide_eq_false_iff_not, List.contains_eq_mem, List.mem_cons, List.not_mem_nil, or_false, hne,
    not_false_eq_true, true_and]
  omega

theorem isStripped_of_mem_pyStr {n : ℤ} {c : Char} (h : c ∈ pyStr n) : isStripped c = false := by
  rcases isDigit_or_eq_of_mem_pyStr h with hdigit | rfl
  · exact isStripped_of_isDigit hdigit
  · decide

theorem pyStr_ne_nil (n : ℤ) : pyStr n ≠ [] := by
  cases n with
  | ofNat n => exact Nat.toDigits_ne_nil
  | negSucc n => exact List.cons_ne_nil _ _

theorem isStripped_plainFixed (places : ℕ) (x : PyNumber ℤ) :
    ∀ c ∈ plainFixed places x, isStripped c = false := by
  cases x with
  | finite n =>
    rw [plainFixed, List.forall_mem_append]
    refine ⟨fun c hc ↦ isStripped_of_mem_pyStr hc, ?_⟩
    split_ifs
    · simp
    · rw [List.forall_mem_cons]
      refine ⟨by decide, fun c hc ↦ ?_⟩
      rw [List.eq_of_mem_replicate hc]
      decide
  | inf negative =>
    cases negative
    · exact @isStripped_of_all ['i', 'n', 'f'] (by decide)
    · exact @isStripped_of_all ['-', 'i', 'n', 'f'] (by decide)
  | nan => exact @isStripped_of_all ['n', 'a', 'n'] (by decide)

theorem printf_plainNumbers : Printf plainNumbers := by
  constructor
  · intro places x
    have hne : plainFixed places x ≠ [] := by
      rcases x with n | (_ | _) | _
      · exact List.append_ne_nil_of_left_ne_nil (pyStr_ne_nil n) _
      all_goals exact List.cons_ne_nil _ _
    refine oneField_ofString (s := String.ofList (plainFixed places x)) ?_ ?_
    · rwa [String.toList_ofList]
    · rw [String.toList_ofList]
      exact isStripped_plainFixed places x
  · intro n s hs
    cases hs
    refine oneField_ofString ?_ fun c hc ↦ isStripped_of_mem_pyStr (n := n) ?_
    · rw [String.toList_ofList]
      exact pyStr_ne_nil n
    · rwa [String.toList_ofList] at hc

/-- A spot of the minute 01:02, whose receiver has a call and maybe a grid. -/
def plainSpot (rxGrid : String) : Rec plainNumbers.Finite where
  columns := [("time", .str (.ofString "2026-05-23T01:02:00Z")), ("frequency_hz", .int 14000000),
    ("snr_db", .int (-20)), ("callsign", .str (.ofString "K1ABC")), ("pwr_dbm", .int 23),
    ("band", .int 20), ("mode", .str (.ofString "W2")), ("rx_call", .str (.ofString "AC0G")),
    ("rx_grid", .str (.ofString rxGrid))]

/-- An uploader that has a call and no grid. -/
def gridless : Uploader where
  rxCall := .ofString "AC0G"
  rxGrid := []
  receiver := .ofString "kiwi"
  rxSite := .ofString "AC0G"

/-- **The line of a row of a W mode keeps its 34 fields exactly when the callsign and the grid of
the row are one field each and its receiver is two.** -/
theorem extended_line_keeps_iff (py : Interpreter) (hprintf : Printf py) (up : Uploader)
    (set : Settings) (records : List (Rec py.Finite)) (entries : List Entry)
    (h : buildEntries py up set records = .ok entries) (r : Rec py.Finite) (hr : r ∈ records)
    (key : SpotKey) (band : PyValue py.Finite) (mode : PyText)
    (hfile : fileRecord py up r = .ok (.spot key band (.str mode))) (hw : isW mode = true) :
    ∃ name content lines line, (name, content) ∈ entries ∧ encodeLines lines = .ok content ∧
      line ∈ lines ∧ formatExtendedLine py r.columns key.rxId.call key.rxId.grid
        (set.forwardToWsprnet.getD false) = .ok line ∧
      (Keeps py r.columns (set.forwardToWsprnet.getD false) line ↔
        Fits py r.columns key.rxId.call key.rxId.grid) := by
  obtain ⟨name, content, lines, line, hentry, hcontent, hline, hformat⟩ := exists_line h hr hfile hw
  exact ⟨name, content, lines, line, hentry, hcontent, hline, hformat,
    keeps_iff_fits hprintf hformat⟩

theorem exists_entries_plainSpot (rxGrid : String) (h : rxGrid = "" ∨ rxGrid = "EM38ww") :
    ∃ entries, buildEntries plainNumbers gridless {} [plainSpot rxGrid] = .ok entries := by
  have htrue : (buildEntries plainNumbers gridless {} [plainSpot rxGrid]).toBool = true := by
    rcases h with rfl | rfl <;> decide +kernel
  cases hbuild : buildEntries plainNumbers gridless {} [plainSpot rxGrid] with
  | ok entries => exact ⟨entries, rfl⟩
  | error e =>
    rw [hbuild] at htrue
    cases htrue

/-- What the spot is filed under. -/
def plainKey (rxGrid : String) : SpotKey where
  rxId := { call := .ofString "AC0G", grid := .ofString rxGrid, recv := .ofString "kiwi",
            site := buildRxSite (.ofString "AC0G") (.ofString rxGrid) }
  band := .number 20
  mode := .str (.ofString "W2")
  ts := "20260523_010200"

theorem fileRecord_plainSpot (rxGrid : String) (h : rxGrid = "" ∨ rxGrid = "EM38ww") :
    fileRecord plainNumbers gridless (plainSpot rxGrid) =
      .ok (.spot (plainKey rxGrid) (.int 20) (.str (.ofString "W2"))) := by
  rcases h with rfl | rfl <;> rfl

theorem oneField_call : OneField (.ofString "AC0G") :=
  oneField_ofString (by decide) (isStripped_of_all (by decide))

theorem fits_plainSpot :
    Fits plainNumbers (plainSpot "EM38ww").columns (.ofString "AC0G") (.ofString "EM38ww") where
  callsign v hv := by
    obtain rfl : .str (.ofString "K1ABC") = v := Except.ok.inj hv
    exact oneField_ofString (by decide) (isStripped_of_all (by decide))
  grid s hs := by
    obtain rfl : .ofString "none" = s := Except.ok.inj hs
    exact oneField_ofString (by decide) (isStripped_of_all (by decide))
  receiver := by
    have hgrid : OneField (.ofString "EM38ww") :=
      oneField_ofString (by decide) (isStripped_of_all (by decide))
    rw [split_of_oneField hgrid, split_of_oneField oneField_call]
    rfl

theorem extended_line_keeps_iff_spot :
    ∃ entries name content lines line,
      buildEntries plainNumbers gridless {} [plainSpot "EM38ww"] = .ok entries ∧
      (name, content) ∈ entries ∧ encodeLines lines = .ok content ∧ line ∈ lines ∧
      Keeps plainNumbers (plainSpot "EM38ww").columns false line := by
  obtain ⟨entries, hbuild⟩ := exists_entries_plainSpot "EM38ww" (.inr rfl)
  obtain ⟨name, content, lines, line, hentry, hcontent, hline, -, hkeeps⟩ :=
    extended_line_keeps_iff plainNumbers printf_plainNumbers gridless {} _ entries hbuild
      (plainSpot "EM38ww") (List.mem_singleton.mpr rfl) (plainKey "EM38ww") (.int 20)
      (.ofString "W2") (fileRecord_plainSpot _ (.inr rfl)) rfl
  exact ⟨entries, name, content, lines, line, hbuild, hentry, hcontent, hline,
    hkeeps.mpr fits_plainSpot⟩

/-- A receiver without a grid leaves a line of 33 fields. -/
theorem extended_line_keeps_fails :
    ¬ ∀ (py : Interpreter) (up : Uploader) (set : Settings) (records : List (Rec py.Finite))
      (entries : List Entry), Printf py → buildEntries py up set records = .ok entries →
      ∀ r ∈ records, ∀ (key : SpotKey) (band : PyValue py.Finite) (mode : PyText),
        fileRecord py up r = .ok (.spot key band (.str mode)) → isW mode = true →
        ∃ line, formatExtendedLine py r.columns key.rxId.call key.rxId.grid
          (set.forwardToWsprnet.getD false) = .ok line ∧
          Keeps py r.columns (set.forwardToWsprnet.getD false) line := by
  intro hall
  obtain ⟨entries, hbuild⟩ := exists_entries_plainSpot "" (.inl rfl)
  obtain ⟨line, hformat, hkeeps⟩ := hall plainNumbers gridless {} _ entries printf_plainNumbers
    hbuild (plainSpot "") (List.mem_singleton.mpr rfl) (plainKey "") (.int 20) (.ofString "W2")
    (fileRecord_plainSpot _ (.inl rfl)) rfl
  have hreceiver := ((keeps_iff_fits printf_plainNumbers hformat).mp hkeeps).receiver
  have hnone : split (plainKey "").rxId.grid = [] := Fields.fields_nil
  rw [hnone, show (plainKey "").rxId.call = .ofString "AC0G" from rfl,
    split_of_oneField oneField_call] at hreceiver
  cases hreceiver

end HsUploader.Wsprdaemon
