import HsUploader.SinkSwitch.Rebuilt

/-!
# A written mapping reads back

`tomllib.loads(dumps_toml(data)) == data` holds of every mapping that `dumps_toml` writes, unless a
key is a bare text with one line break after it.  Such a key is written without quotes, and its
line break ends the line in the middle of the statement.
-/

set_option autoImplicit false

namespace HsUploader.SinkSwitch

/-! ## Carriage returns -/

theorem unixLines_eq {s : Text} (h : '\r' ∉ s) : unixLines s = s := by
  induction s with
  | nil => rfl
  | cons c s ih =>
    have hs := ih fun hc ↦ h (List.mem_cons_of_mem _ hc)
    unfold unixLines
    split
    · rename_i heq
      cases heq
    · rename_i heq
      cases heq
      exact absurd List.mem_cons_self h
    · rename_i heq
      cases heq
      rw [hs]

theorem notMem_escape (c : Char) : '\r' ∉ escape c := by
  rw [escape]
  split_ifs with h₁ h₂ h₃ h₄ h₅ h₆ h₇ h₈
  all_goals try decide
  · have hn : c.toNat < 128 := by
      simp only [Bool.or_eq_true, decide_eq_true_eq] at h₈
      omega
    have hall : ∀ n < 128, '\r' ∉ '\\' :: 'u' :: hex4 n := by decide +kernel
    exact hall _ hn
  · simpa using fun h ↦ h₇ h.symm

theorem notMem_str (s : Text) : '\r' ∉ str s := by
  simp [str, notMem_escape]

theorem notMem_keyText (k : Text) : '\r' ∉ keyText k := by
  rw [keyText]
  split_ifs with hbare
  · obtain ⟨body, -, hall, heq⟩ := bareKey_body hbare
    have hbody : '\r' ∉ body := fun h ↦ absurd (hall _ h) (by decide)
    rw [heq]
    split <;> simp [hbody]
  · exact notMem_str k

theorem notMem_dotted (path : List Text) : '\r' ∉ dotted (path.map keyText) := by
  cases path with
  | nil => simp [dotted]
  | cons k ks =>
    rw [dotted_cons]
    simp [dottedRest, notMem_keyText]

theorem notMem_of_isDigit {ds : Text} (h : ∀ c ∈ ds, c.isDigit) : '\r' ∉ ds :=
  fun hc ↦ absurd (h _ hc) (by decide)

theorem FloatForm.notMem_text (f : FloatForm) : '\r' ∉ f.text := by
  have hwhole := notMem_of_isDigit (isDigit_of_mem_toDigits (n := f.whole))
  have hfraction := notMem_of_isDigit f.fraction_digits
  have hexponent : '\r' ∉ f.exponentText := by
    rw [exponentText]
    split
    · simp
    · rename_i sign ds he
      obtain ⟨hsign, -, hds⟩ := f.exponent_digits (sign, ds) he
      have := notMem_of_isDigit hds
      rcases hsign with rfl | rfl <;> simpa using this
  have hfractionText : '\r' ∉ f.fractionText := by
    rw [fractionText]
    split_ifs <;> simp [hfraction]
  rw [text]
  split_ifs <;> simp [hwhole, hfractionText, hexponent]

variable (fl : Floats)

theorem notMem_valueText {v : Value fl.Finite} (h : Inline fl v) : '\r' ∉ valueText fl v := by
  rcases h with rfl | ⟨t, ht⟩
  · simp [valueText]
  · rw [valueText_scalar fl ht]
    cases v with
    | str s => cases ht; exact notMem_str s
    | bool b => cases b <;> cases ht <;> decide
    | int n =>
      cases ht
      intro hc
      rcases isDigit_or_eq_of_mem_pyStr hc with h | h <;> exact absurd h (by decide)
    | float x =>
      rcases x with x | negative | _
      · cases ht
        obtain ⟨f, hf⟩ := fl.form x
        rw [hf]
        exact f.notMem_text
      · cases negative <;> cases ht <;> decide
      · cases ht; decide
    | arr => cases ht
    | table => cases ht
    | other => cases ht

theorem notMem_lines {s : Stmt fl.Finite} (h : s.Good fl) : '\r' ∉ joinLines (s.lines fl) := by
  cases s with
  | pair k v => simp [joinLines, Stmt.lines, notMem_keyText, notMem_valueText fl h]
  | dict path => simp [joinLines, Stmt.lines, notMem_dotted]
  | list path => simp [joinLines, Stmt.lines, notMem_dotted]

theorem notMem_allLines {ss : List (Stmt fl.Finite)} (h : ∀ s ∈ ss, s.Good fl) :
    '\r' ∉ joinLines (allLines fl ss) := by
  induction ss with
  | nil => simp [joinLines]
  | cons s ss ih =>
    have htext : joinLines (allLines fl (s :: ss)) =
        joinLines (s.lines fl) ++ joinLines (allLines fl ss) := by
      simp [joinLines, allLines]
    rw [htext, List.mem_append, not_or]
    exact ⟨notMem_lines fl (h s List.mem_cons_self),
      ih fun s hs ↦ h s (List.mem_cons_of_mem _ hs)⟩

/-! ## The text as a whole -/

/-- The text that `dumps_toml` makes of the lines. -/
def fileText (lines : List Text) : Text :=
  (['\n'].intercalate lines).dropWhile (· = '\n') ++ ['\n']

theorem joinLines_eq {lines : List Text} (h : lines ≠ []) :
    joinLines lines = ['\n'].intercalate lines ++ ['\n'] := by
  induction lines with
  | nil => exact absurd rfl h
  | cons line lines ih =>
    cases lines with
    | nil => simp [joinLines, List.intercalate]
    | cons line' lines =>
      have := ih (List.cons_ne_nil _ _)
      simp only [joinLines, List.flatMap_cons, List.intercalate_cons_cons, List.append_assoc]
        at this ⊢
      rw [this]

/-- The text is the lines, up to line breaks before them. -/
theorem fileText_eq (lines : List Text) : ∃ a b,
    List.replicate a '\n' ++ fileText lines = List.replicate b '\n' ++ joinLines lines := by
  by_cases h : lines = []
  · exact ⟨0, 1, by simp [h, fileText, joinLines]⟩
  · refine ⟨((['\n'].intercalate lines).takeWhile (· = '\n')).length, 0, ?_⟩
    have hbreaks : (['\n'].intercalate lines).takeWhile (· = '\n') =
        List.replicate ((['\n'].intercalate lines).takeWhile (· = '\n')).length '\n' := by
      rw [List.eq_replicate_iff]
      exact ⟨rfl, fun c hc ↦ by simpa using List.mem_takeWhile_imp hc⟩
    rw [← hbreaks, fileText, ← List.append_assoc, List.takeWhile_append_dropWhile, joinLines_eq h]
    rfl

theorem loop_lineBreaks (n a : ℕ) (st : State fl.Finite) (text : Text) :
    loop fl (n + a) st (List.replicate a '\n' ++ text) = loop fl n st text := by
  induction a with
  | zero => rfl
  | succ a ih =>
    rw [List.replicate_succ, List.cons_append, ← Nat.add_assoc, loop_lineBreak, ih]

theorem length_le_joinLines (lines : List Text) : lines.length ≤ (joinLines lines).length := by
  induction lines with
  | nil => simp
  | cons line lines ih =>
    simp only [joinLines, List.flatMap_cons, List.length_append, List.length_cons] at ih ⊢
    omega

/-- The turns of `loads` suffice for the lines that were written. -/
theorem loop_fileText (st : State fl.Finite) (lines : List Text) : ∃ n,
    loop fl ((fileText lines).length + 1) st (fileText lines) =
      loop fl (n + 1 + lines.length) st (joinLines lines) := by
  obtain ⟨a, b, h⟩ := fileText_eq lines
  have hlen := congrArg List.length h
  simp only [List.length_append, List.length_replicate] at hlen
  have hle := length_le_joinLines lines
  refine ⟨(joinLines lines).length - lines.length, ?_⟩
  rw [← loop_lineBreaks fl _ a, h,
    show (fileText lines).length + 1 + a =
      (joinLines lines).length - lines.length + 1 + lines.length + b by omega,
    loop_lineBreaks]

theorem notMem_fileText {lines : List Text} (h : '\r' ∉ joinLines lines) :
    '\r' ∉ fileText lines := by
  obtain ⟨a, b, heq⟩ := fileText_eq lines
  intro hc
  have hmem : '\r' ∈ List.replicate b '\n' ++ joinLines lines := by
    rw [← heq]
    exact List.mem_append_right _ hc
  rcases List.mem_append.mp hmem with hc | hc
  · exact absurd (List.eq_of_mem_replicate hc) (by decide)
  · exact h hc

/-- The state `loads` starts in. -/
def State.start {F : Type} : State F := ⟨[], ⟨[], []⟩, [], []⟩

/-- **What `loads` makes of statements**: it runs them, unless a key among them is broken. -/
theorem loads_stmts {ss : List (Stmt fl.Finite)} (h : ∀ s ∈ ss, s.Good fl)
    (hk : ∀ s ∈ ss, ¬ s.Broken) :
    loads fl (fileText (allLines fl ss)) = (runAll State.start ss).map State.data := by
  obtain ⟨n, hloop⟩ := loop_fileText fl State.start (allLines fl ss)
  have hrun := loop_stmts fl (n + 1) State.start h hk []
  rw [List.append_nil] at hrun
  rw [loads, unixLines_eq (notMem_fileText (notMem_allLines fl h))]
  refine congrArg (Option.map State.data) (hloop.trans (hrun.trans ?_))
  cases runAll State.start ss <;> rfl

theorem loads_broken {ss : List (Stmt fl.Finite)} (h : ∀ s ∈ ss, s.Good fl)
    (hk : ∃ s ∈ ss, s.Broken) : loads fl (fileText (allLines fl ss)) = none := by
  obtain ⟨n, hloop⟩ := loop_fileText fl State.start (allLines fl ss)
  have hrun := loop_stmts_broken fl (n + 1) State.start h hk []
  rw [List.append_nil] at hrun
  rw [loads, unixLines_eq (notMem_fileText (notMem_allLines fl h))]
  exact congrArg (Option.map State.data) (hloop.trans hrun)

/-! ## Equal mappings -/

theorem lookup_of_mem {F : Type} {k : Text} {v : Value F} {ms : Members F}
    (hms : (ms.map Prod.fst).Nodup) (h : (k, v) ∈ ms) : ms.lookup k = some v := by
  induction ms with
  | nil => simp at h
  | cons m ms ih =>
    obtain ⟨k', v'⟩ := m
    obtain ⟨hk', hms⟩ := List.nodup_cons.mp hms
    rcases List.mem_cons.mp h with heq | hmem
    · cases heq
      simp
    · have hne : k ≠ k' := by
        rintro rfl
        exact hk' (List.mem_map.mpr ⟨_, hmem, rfl⟩)
      simp [List.lookup_cons, beq_false_of_ne hne, ih hms hmem]

theorem sameMembers_of {F : Type} [DecidableEq F] {ms ns : Members F}
    (h : ∀ m ∈ ms, ∃ w, ns.lookup m.1 = some w ∧ m.2.same w) : Value.sameMembers ms ns := by
  induction ms with
  | nil => rfl
  | cons m ms ih =>
    obtain ⟨w, hw, hsame⟩ := h m List.mem_cons_self
    have := ih fun m hm ↦ h m (List.mem_cons_of_mem _ hm)
    rw [Value.sameMembers, hw, this, Bool.and_true]
    exact hsame

theorem plainFirst_of_plain {F : Type} {v : Value F} (h : v.isSub = false) : plainFirst v = v := by
  cases v with
  | arr items =>
    cases items with
    | nil => rfl
    | cons item items => cases h
  | table => cases h
  | _ => rfl

/-- Every member is written. -/
theorem mem_plainFirst {F : Type} {k : Text} {v : Value F} {ms : Members F} (h : (k, v) ∈ ms) :
    (k, plainFirst v) ∈ plainMembers ms ++ subMembers ms := by
  cases hv : v.isSub with
  | false =>
    rw [plainFirst_of_plain hv]
    exact List.mem_append_left _ (List.mem_filter.mpr ⟨h, by simp [hv]⟩)
  | true =>
    refine List.mem_append_right _ ?_
    induction ms with
    | nil => simp at h
    | cons m ms ih =>
      obtain ⟨k', v'⟩ := m
      rcases List.mem_cons.mp h with heq | h
      · cases heq
        simp [subMembers, hv]
      · rw [subMembers]
        split_ifs
        · exact List.mem_cons_of_mem _ (ih h)
        · exact ih h

mutual

/-- The order in which a value is written does not count. -/
theorem same_plainFirst : ∀ (v : Value fl.Finite), Shaped fl v → Distinct v.parts →
    .float .nan ∉ v.parts → v.same (plainFirst v)
  | .table ms, hs, hd, hn => by
    have hms := hd ms List.mem_cons_self
    have hmembers := same_members ms hs hd.tail fun h ↦ hn (List.mem_cons_of_mem _ h)
    have hlen := (keys_perm ms).length_eq
    rw [List.length_map, List.length_map] at hlen
    simp only [plainFirst, Value.same, hlen, decide_true, Bool.true_and]
    refine sameMembers_of fun m hm ↦ ⟨plainFirst m.2, ?_, hmembers m hm⟩
    exact lookup_of_mem ((keys_perm ms).nodup_iff.mpr hms) (mem_plainFirst hm)
  | .arr items, hs, hd, hn => by
    rw [plainFirst, Value.same]
    exact same_items items hs hd.tail fun h ↦ hn (List.mem_cons_of_mem _ h)
  | .str s, _, _, _ => by simp [plainFirst, Value.same]
  | .bool b, _, _, _ => by simp [plainFirst, Value.same]
  | .int n, _, _, _ => by simp [plainFirst, Value.same]
  | .float x, _, _, hn => by
    have hx : x ≠ .nan := by
      rintro rfl
      exact hn (by simp [Value.parts])
    simp [plainFirst, Value.same, hx]
  | .other t, hs, _, _ => by
    rcases hs with hs | ⟨t, hs⟩ <;> cases hs

theorem same_items : ∀ (items : List (Value fl.Finite)), ShapedItems fl items →
    Distinct (Value.itemParts items) → .float .nan ∉ Value.itemParts items →
    Value.sameItems items (plainFirstItems items)
  | [], _, _, _ => rfl
  | v :: vs, hs, hd, hn => by
    have hv := same_plainFirst v hs.1.2 hd.left fun h ↦ hn (List.mem_append_left _ h)
    have hvs := same_items vs hs.2 hd.right fun h ↦ hn (List.mem_append_right _ h)
    rw [plainFirstItems, Value.sameItems, hv, hvs]
    rfl

theorem same_members : ∀ (ms : Members fl.Finite), ShapedMembers fl ms →
    Distinct (Value.memberParts ms) → .float .nan ∉ Value.memberParts ms →
    ∀ m ∈ ms, m.2.same (plainFirst m.2)
  | [], _, _, _, _, hm => by simp at hm
  | (k, v) :: ms, hs, hd, hn, m, hm => by
    rcases List.mem_cons.mp hm with rfl | hm
    · exact same_plainFirst v hs.1 hd.left fun h ↦ hn (List.mem_append_left _ h)
    · exact same_members ms hs.2 hd.right (fun h ↦ hn (List.mem_append_right _ h)) m hm

end

/-! ## The round trip -/

theorem dumpsToml_eq_ok {ms : Members fl.Finite} {text : Text} (h : dumpsToml fl ms = .ok text) :
    text = fileText (allLines fl (stmts [] ms)) ∧ ShapedMembers fl ms := by
  rw [dumpsToml] at h
  cases hout : emit fl ms [] with
  | error e => rw [hout] at h; cases h
  | ok out =>
    rw [hout] at h
    cases h
    obtain ⟨rfl, hs⟩ := emit_ok fl hout
    exact ⟨rfl, hs⟩

theorem brokenKey_iff {k : Text} :
    brokenKey k ↔ ∃ body, body ≠ [] ∧ (∀ c ∈ body, isBare c) ∧ k = body ++ ['\n'] := by
  constructor
  · intro h
    simp only [brokenKey, Bool.and_eq_true, decide_eq_true_eq] at h
    obtain ⟨body, hbody, hall, heq⟩ := bareKey_body h.1
    rw [if_pos h.2] at heq
    exact ⟨body, hbody, hall, heq⟩
  · rintro ⟨body, hbody, hall, rfl⟩
    simpa [brokenKey, bareKey, hbody] using hall

/-- **The round trip holds exactly of the mappings without a broken key**: none, at any depth, is a
text of `[A-Za-z0-9_-]` with one line break after it. -/
theorem dumpsToml_round_trip (data : Mapping fl.Finite) {text : Text}
    (h : dumpsToml fl data.members = .ok text)
    (hnan : .float .nan ∉ (Value.table data.members).parts) :
    (∃ back, loads fl text = some back ∧ (Value.table data.members).same (.table back)) ↔
      ∀ body, body ≠ [] → (∀ c ∈ body, isBare c) →
        body ++ ['\n'] ∉ (Value.table data.members).keys := by
  obtain ⟨rfl, hs⟩ := dumpsToml_eq_ok fl h
  have hgood : ∀ s ∈ stmts [] data.members, s.Good fl := fun s hs' ↦ (stmts_of fl hs hs').good
  constructor
  · rintro ⟨back, hback, -⟩ body hbody hall hmem
    have hbroken := (broken_iff fl hs).mpr
      ⟨_, hmem, brokenKey_iff.mpr ⟨body, hbody, hall, rfl⟩⟩
    rw [loads_broken fl hgood hbroken] at hback
    cases hback
  · intro hkeys
    have hsound : ∀ s ∈ stmts [] data.members, ¬ s.Broken := by
      intro s hs' hb
      obtain ⟨k, hk, hkb⟩ := (broken_iff fl hs).mp ⟨s, hs', hb⟩
      obtain ⟨body, hbody, hall, rfl⟩ := brokenKey_iff.mp hkb
      exact hkeys body hbody hall hk
    refine ⟨_, (loads_stmts fl hgood hsound).trans (run_document fl hs data.distinct), ?_⟩
    exact same_plainFirst fl (.table data.members) hs data.distinct hnan

/-- The floats that are whole numbers: below 10^16 `repr` writes them out, with `.0` at the end. -/
def wholeFloats : Floats where
  Finite := ℤ
  decEq := inferInstance
  repr n := pyStr n ++ ".0".toList
  ofText text := ((pyInt text.dropLast.dropLast).map .finite).getD .nan
  form n := by
    have hzero : ∀ c ∈ ['0'], c.isDigit := fun c hc ↦ by
      rw [List.mem_singleton.mp hc]
      rfl
    cases n with
    | ofNat n =>
      exact ⟨⟨false, n, ['0'], none, hzero, by simp, by simp⟩, (List.append_nil _).symm⟩
    | negSucc n =>
      exact ⟨⟨true, n + 1, ['0'], none, hzero, by simp, by simp⟩, (List.append_nil _).symm⟩
  ofText_repr n := by
    have : (pyStr n ++ ".0".toList).dropLast.dropLast = pyStr n := by
      rw [show ".0".toList = ['.'] ++ ['0'] from rfl, ← List.append_assoc, List.dropLast_concat,
        List.dropLast_concat]
    rw [this, pyInt_pyStr]
    rfl

/-- A switch file with a scalar after a table, a quoted key and an array of tables in another. -/
def nestedFile : Mapping ℤ where
  members := [
    ("t".toList, .table [("odd key".toList, .float (.finite (-2))), ("xs".toList, .arr [])]),
    ("state".toList, .str "a \"b\"\n".toList),
    ("arr".toList, .arr [.table [("x".toList, .int 1)],
      .table [("arr".toList, .arr [.table [], .table [("x".toList, .bool true)]])]])]
  distinct := by
    intro ms h
    simp only [Value.parts, Value.memberParts, Value.itemParts, List.mem_cons, List.mem_append,
      List.append_nil, Value.table.injEq, reduceCtorEq, List.not_mem_nil,
      false_or, or_false] at h
    rcases h with rfl | rfl | rfl | rfl | rfl | rfl <;> decide

/-- A mapping with one broken key. -/
def brokenFile : Mapping ℤ where
  members := [("a\n".toList, .int 1)]
  distinct := by
    intro ms h
    simp only [Value.parts, Value.memberParts, List.mem_cons, List.append_nil,
      Value.table.injEq, reduceCtorEq, List.not_mem_nil, or_false] at h
    subst h
    decide

theorem dumpsToml_round_trip_nested :
    ∃ text, dumpsToml wholeFloats nestedFile.members = .ok text ∧
      ∃ back, loads wholeFloats text = some back ∧
        (Value.table nestedFile.members).same (.table back) := by
  have htext : ∃ text, dumpsToml wholeFloats nestedFile.members = .ok text := ⟨_, rfl⟩
  obtain ⟨text, htext⟩ := htext
  have hnan : (.float .nan : Value ℤ) ∉ (Value.table nestedFile.members).parts := by
    simp [nestedFile, Value.parts, Value.memberParts, Value.itemParts]
  have hlast : ∀ k ∈ (Value.table nestedFile.members).keys, k.getLast? ≠ some '\n' := by decide
  refine ⟨text, htext, (dumpsToml_round_trip wholeFloats nestedFile htext hnan).mpr ?_⟩
  intro body _ _ hmem
  exact hlast _ hmem (by simp)

/-- The round trip does not hold of every mapping: `{"a\n": 1}` is written `a`, line break, ` = 1`,
and the parser looks for `=` at the end of the first line. -/
theorem dumpsToml_round_trip_fails :
    ¬ ∀ (fl : Floats) (data : Mapping fl.Finite) (text : Text),
      dumpsToml fl data.members = .ok text →
      .float .nan ∉ (Value.table data.members).parts →
      ∃ back, loads fl text = some back ∧ (Value.table data.members).same (.table back) := by
  intro h
  have hnan : (.float .nan : Value ℤ) ∉ (Value.table brokenFile.members).parts := by
    simp [brokenFile, Value.parts, Value.memberParts]
  obtain ⟨back, hback, -⟩ := h wholeFloats brokenFile "a\n = 1\n".toList rfl hnan
  have hnone : loads wholeFloats "a\n = 1\n".toList = none := rfl
  rw [hnone] at hback
  cases hback

end HsUploader.SinkSwitch
