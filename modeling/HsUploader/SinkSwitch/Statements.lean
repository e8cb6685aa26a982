import HsUploader.SinkSwitch.Scalars

/-!
# A file as a list of statements

Every line `_emit` writes is a key with its value or a header after an empty line.  Here the parser
is taken from the characters to these statements: it applies one after the other, unless a
statement has a broken key, where it stops.
-/

set_option autoImplicit false

namespace HsUploader.SinkSwitch

/-- A statement of a switch file: a key and its value, the header of a table, or the header of an
item of an array of tables. -/
inductive Stmt (F : Type) where
  | pair (k : Text) (v : Value F)
  | dict (path : List Text)
  | list (path : List Text)

namespace Stmt

/-- The keys the statement spells. -/
def keys {F : Type} : Stmt F → List Text
  | pair k _ => [k]
  | dict path | list path => path

/-- A key of the statement is broken. -/
def Broken {F : Type} (s : Stmt F) : Prop := ∃ k ∈ s.keys, brokenKey k

/-- What the statement does to the state of `loads`. -/
def run {F : Type} (st : State F) : Stmt F → Option (State F)
  | pair k v => keyValue st [k] v
  | dict path => createDict st path
  | list path => createList st path

end Stmt

variable (fl : Floats)

/-- The text of a value that stands in a line. -/
def valueText : Value fl.Finite → Text
  | .arr _ => "[]".toList
  | v => ((scalar fl v).toOption).getD []

/-- The value can stand in a line: a scalar that is written, or an empty list. -/
def Inline (v : Value fl.Finite) : Prop := v = .arr [] ∨ ∃ t, scalar fl v = .ok t

namespace Stmt

/-- The lines of the statement. -/
def lines : Stmt fl.Finite → List Text
  | pair k v => [keyText k ++ " = ".toList ++ valueText fl v]
  | dict path => [[], '[' :: dotted (path.map keyText) ++ [']']]
  | list path => [[], '[' :: '[' :: dotted (path.map keyText) ++ [']', ']']]

/-- The statement is one `_emit` can write. -/
def Good : Stmt fl.Finite → Prop
  | pair _ v => Inline fl v
  | dict path | list path => path ≠ []

end Stmt

/-- Lines, each with its line break. -/
def joinLines (lines : List Text) : Text := lines.flatMap (· ++ ['\n'])

/-! ## A line with a value -/

theorem valueText_scalar {v : Value fl.Finite} {t : Text} (h : scalar fl v = .ok t) :
    valueText fl v = t := by
  cases v with
  | arr => cases h
  | _ => simp [valueText, h, Except.toOption]

theorem parseValue_valueText {v : Value fl.Finite} (h : Inline fl v) (rest : Text) :
    parseValue fl (valueText fl v ++ '\n' :: rest) = some (v, '\n' :: rest) := by
  rcases h with rfl | ⟨t, ht⟩
  · rfl
  · rw [valueText_scalar fl ht]
    exact parseValue_scalar fl ht rest

theorem isWs_of_isDigit {c : Char} (h : c.isDigit) : isWs c = false := by
  by_contra hws
  simp only [isWs, Bool.not_eq_false, Bool.or_eq_true, decide_eq_true_eq] at hws
  rcases hws with rfl | rfl <;> exact absurd h (by decide)

theorem skipWs_number (negative : Bool) (n : ℕ) (rest : Text) :
    skipWs (signText negative ++ Nat.toDigits 10 n ++ rest) =
      signText negative ++ Nat.toDigits 10 n ++ rest := by
  cases negative with
  | true => exact skipWs_cons (by decide) _
  | false =>
    obtain ⟨c, cs, hcs⟩ := List.exists_cons_of_ne_nil (Nat.toDigits_ne_nil : Nat.toDigits 10 n ≠ [])
    have hc : isWs c = false :=
      isWs_of_isDigit (isDigit_of_mem_toDigits c (hcs ▸ List.mem_cons_self))
    rw [hcs]
    exact skipWs_cons hc _

theorem skipWs_valueText {v : Value fl.Finite} (h : Inline fl v) (rest : Text) :
    skipWs (valueText fl v ++ rest) = valueText fl v ++ rest := by
  rcases h with rfl | ⟨t, ht⟩
  · rfl
  · rw [valueText_scalar fl ht]
    cases v with
    | str s => cases ht; exact skipWs_cons (by decide) _
    | bool b => cases b <;> cases ht <;> exact skipWs_cons (by decide) _
    | int z =>
      cases ht
      cases z with
      | ofNat n => exact skipWs_number false n rest
      | negSucc n => exact skipWs_number true (n + 1) rest
    | float x =>
      rcases x with x | negative | _
      · cases ht
        obtain ⟨f, hf⟩ := fl.form x
        have := skipWs_number f.negative f.whole (f.fractionText ++ (f.exponentText ++ rest))
        rw [hf, FloatForm.text]
        simpa [signText] using this
      · cases negative <;> cases ht <;> exact skipWs_cons (by decide) _
      · cases ht; exact skipWs_cons (by decide) _
    | arr => cases ht
    | table => cases ht
    | other => cases ht

/-! ## One statement -/

theorem ends_equals (rest : Text) : Ends (" = ".toList ++ rest) :=
  ⟨fun c hc ↦ by cases hc; decide, by simp [skipWs, isWs]⟩

theorem keyText_eq_dotted (k : Text) : keyText k = dotted ([k].map keyText) := by
  simp [dotted, List.intercalate]

/-- A line that starts with a key goes to `key_value_rule`. -/
theorem rule_keyText (st : State fl.Finite) (k rest : Text) :
    rule fl st (keyText k ++ rest) = keyValueRule fl st (keyText k ++ rest) := by
  obtain ⟨c, cs, hk, hc⟩ := keyText_head k
  rw [hk, List.cons_append, rule.eq_def]
  rcases hc with hc | rfl
  · simp [hc]
  · simp

theorem rule_pair (st : State fl.Finite) {k : Text} {v : Value fl.Finite} (hv : Inline fl v)
    (hk : brokenKey k = false) (rest : Text) :
    rule fl st (keyText k ++ (" = ".toList ++ (valueText fl v ++ '\n' :: rest))) =
      (keyValue st [k] v).map fun st ↦ (st, '\n' :: rest) := by
  have hpath : ∀ k' ∈ [k], brokenKey k' = false := by simpa using hk
  have hkey := parseKey_dotted (by simp) hpath (ends_equals (valueText fl v ++ '\n' :: rest))
  have hskip : skipWs (" = ".toList ++ (valueText fl v ++ '\n' :: rest)) =
      '=' :: ' ' :: (valueText fl v ++ '\n' :: rest) := rfl
  have hval : skipWs (' ' :: (valueText fl v ++ '\n' :: rest)) = valueText fl v ++ '\n' :: rest :=
    skipWs_valueText fl hv ('\n' :: rest)
  rw [← keyText_eq_dotted, hskip] at hkey
  rw [rule_keyText, keyValueRule]
  simp only [hkey, Option.bind_eq_bind, Option.bind_some, hval, parseValue_valueText fl hv]
  cases keyValue st [k] v <;> rfl

theorem rule_pair_broken (st : State fl.Finite) {k : Text} (hk : brokenKey k) (rest : Text) :
    rule fl st (keyText k ++ rest) = none := by
  have hpath : ∃ k' ∈ [k], brokenKey k' := by simpa using hk
  obtain ⟨front, tail, hkey⟩ := parseKey_broken hpath rest
  rw [← keyText_eq_dotted] at hkey
  rw [rule_keyText, keyValueRule]
  simp only [hkey, Option.bind_eq_bind, Option.bind_some]
  rfl

/-- A header's path starts with neither white space nor a bracket. -/
theorem dotted_head {path : List Text} (h : path ≠ []) : ∃ c cs,
    dotted (path.map keyText) = c :: cs ∧ (isBare c ∨ c = '"') := by
  obtain ⟨k, ks, rfl⟩ := List.exists_cons_of_ne_nil h
  obtain ⟨c, cs, hk, hc⟩ := keyText_head k
  exact ⟨c, cs ++ dottedRest ks, by rw [dotted_cons, hk, List.cons_append], hc⟩

theorem skipWs_dotted {path : List Text} (h : path ≠ []) (rest : Text) :
    skipWs (dotted (path.map keyText) ++ rest) = dotted (path.map keyText) ++ rest := by
  obtain ⟨c, cs, hp, hc⟩ := dotted_head h
  rw [hp, List.cons_append, skipWs_cons (isWs_of_head hc)]

theorem rule_bracket (st : State fl.Finite) {path : List Text} (h : path ≠ []) (rest : Text) :
    rule fl st ('[' :: (dotted (path.map keyText) ++ rest)) =
      createDictRule st (dotted (path.map keyText) ++ rest) := by
  obtain ⟨c, cs, hp, hc⟩ := dotted_head h
  have hne : c ≠ '[' := by
    rintro rfl
    rcases hc with hc | hc <;> exact absurd hc (by decide)
  rw [hp, List.cons_append, rule.eq_def]
  simp only [show (isBare '[' || decide ('[' = '"') || decide ('[' = '\'')) = false by decide,
    Bool.false_eq_true, if_false, if_true]
  split
  · rename_i heq
    exact absurd (List.cons.inj heq).1 hne
  · rfl

theorem rule_dict (st : State fl.Finite) {path : List Text} (h : path ≠ [])
    (hk : ∀ k ∈ path, brokenKey k = false) (rest : Text) :
    rule fl st ('[' :: (dotted (path.map keyText) ++ (']' :: '\n' :: rest))) =
      (createDict st path).map fun st ↦ (st, '\n' :: rest) := by
  have hskip : skipWs (']' :: '\n' :: rest) = ']' :: '\n' :: rest := skipWs_cons (by decide) _
  rw [rule_bracket fl st h, createDictRule, skipWs_dotted h, parseKey_dotted h hk (ends_bracket _),
    hskip]
  cases hd : createDict st path <;> simp [hd]

theorem rule_dict_broken (st : State fl.Finite) {path : List Text}
    (hk : ∃ k ∈ path, brokenKey k) (rest : Text) :
    rule fl st ('[' :: (dotted (path.map keyText) ++ rest)) = none := by
  have h : path ≠ [] := by rintro rfl; simp at hk
  obtain ⟨front, tail, hkey⟩ := parseKey_broken hk rest
  rw [rule_bracket fl st h, createDictRule, skipWs_dotted h, hkey]
  cases hd : createDict st front <;> simp [hd]

theorem rule_list (st : State fl.Finite) {path : List Text} (h : path ≠ [])
    (hk : ∀ k ∈ path, brokenKey k = false) (rest : Text) :
    rule fl st ('[' :: '[' :: (dotted (path.map keyText) ++ (']' :: ']' :: '\n' :: rest))) =
      (createList st path).map fun st ↦ (st, '\n' :: rest) := by
  have hskip : skipWs (']' :: ']' :: '\n' :: rest) = ']' :: ']' :: '\n' :: rest :=
    skipWs_cons (by decide) _
  have hrule : rule fl st
      ('[' :: '[' :: (dotted (path.map keyText) ++ (']' :: ']' :: '\n' :: rest))) =
      createListRule st (dotted (path.map keyText) ++ (']' :: ']' :: '\n' :: rest)) := rfl
  rw [hrule, createListRule, skipWs_dotted h, parseKey_dotted h hk (ends_bracket _), hskip]
  cases hl : createList st path <;> simp [hl]

theorem rule_list_broken (st : State fl.Finite) {path : List Text}
    (hk : ∃ k ∈ path, brokenKey k) (rest : Text) :
    rule fl st ('[' :: '[' :: (dotted (path.map keyText) ++ rest)) = none := by
  have h : path ≠ [] := by rintro rfl; simp at hk
  obtain ⟨front, tail, hkey⟩ := parseKey_broken hk rest
  have hrule : rule fl st ('[' :: '[' :: (dotted (path.map keyText) ++ rest)) =
      createListRule st (dotted (path.map keyText) ++ rest) := rfl
  rw [hrule, createListRule, skipWs_dotted h, hkey]
  cases hl : createList st front <;> simp [hl]

/-! ## The loop -/

theorem loop_lineBreak (n : ℕ) (st : State fl.Finite) (rest : Text) :
    loop fl (n + 1) st ('\n' :: rest) = loop fl n st rest := rfl

/-- The turn that reads a line. -/
theorem loop_line (n : ℕ) (st : State fl.Finite) {c : Char} {cs rest : Text}
    (hws : isWs c = false) (hc : c ≠ '\n') {r : Option (State fl.Finite)}
    (h : rule fl st (c :: cs) = r.map fun st ↦ (st, '\n' :: rest)) :
    loop fl (n + 1) st (c :: cs) = r.bind fun st ↦ loop fl n st rest := by
  rw [loop, skipWs_cons hws]
  split
  · rename_i heq
    cases heq
  · rename_i heq
    exact absurd (List.cons.inj heq).1 hc
  · rename_i heq
    cases heq
    rw [h]
    cases r with
    | none => rfl
    | some st => rfl

/-- The turn that meets an error. -/
theorem loop_error (n : ℕ) (st : State fl.Finite) {c : Char} {cs : Text}
    (hws : isWs c = false) (hc : c ≠ '\n') (h : rule fl st (c :: cs) = none) :
    loop fl (n + 1) st (c :: cs) = none := by
  have hnone : rule fl st (c :: cs) = Option.map (fun st ↦ (st, ['\n'])) none := h
  exact loop_line fl n st hws hc hnone

theorem ne_lineBreak_of_head {c : Char} (h : isBare c ∨ c = '"') : c ≠ '\n' := by
  rintro rfl
  rcases h with h | h <;> exact absurd h (by decide)

/-- **The parser runs a statement** in as many turns as it has lines. -/
theorem loop_stmt (n : ℕ) (st : State fl.Finite) {s : Stmt fl.Finite} (hs : s.Good fl)
    (hk : ¬ s.Broken) (rest : Text) :
    loop fl (n + (s.lines fl).length) st (joinLines (s.lines fl) ++ rest) =
      (s.run st).bind fun st ↦ loop fl n st rest := by
  cases s with
  | pair k v =>
    have hk : brokenKey k = false := by simpa [Stmt.Broken, Stmt.keys] using hk
    have hrule := rule_pair fl st hs hk rest
    obtain ⟨c, cs, hc, hhead⟩ := keyText_head k
    have htext : joinLines (Stmt.lines fl (.pair k v)) ++ rest =
        keyText k ++ (" = ".toList ++ (valueText fl v ++ '\n' :: rest)) := by
      simp [joinLines, Stmt.lines]
    rw [htext]
    rw [hc, List.cons_append] at hrule ⊢
    exact loop_line fl n st (isWs_of_head hhead) (ne_lineBreak_of_head hhead) hrule
  | dict path =>
    have hk : ∀ k ∈ path, brokenKey k = false := by simpa [Stmt.Broken, Stmt.keys] using hk
    have htext : joinLines (Stmt.lines fl (.dict path)) ++ rest =
        '\n' :: '[' :: (dotted (path.map keyText) ++ (']' :: '\n' :: rest)) := by
      simp [joinLines, Stmt.lines]
    rw [htext]
    exact loop_line fl n st (by decide) (by decide) (rule_dict fl st hs hk rest)
  | list path =>
    have hk : ∀ k ∈ path, brokenKey k = false := by simpa [Stmt.Broken, Stmt.keys] using hk
    have htext : joinLines (Stmt.lines fl (.list path)) ++ rest =
        '\n' :: '[' :: '[' :: (dotted (path.map keyText) ++ (']' :: ']' :: '\n' :: rest)) := by
      simp [joinLines, Stmt.lines]
    rw [htext]
    exact loop_line fl n st (by decide) (by decide) (rule_list fl st hs hk rest)

/-- **A statement with a broken key stops the parser.** -/
theorem loop_stmt_broken (n : ℕ) (st : State fl.Finite) {s : Stmt fl.Finite} (hk : s.Broken)
    (rest : Text) :
    loop fl (n + (s.lines fl).length) st (joinLines (s.lines fl) ++ rest) = none := by
  cases s with
  | pair k v =>
    have hk : brokenKey k := by simpa [Stmt.Broken, Stmt.keys] using hk
    have hrule := rule_pair_broken fl st hk (" = ".toList ++ (valueText fl v ++ '\n' :: rest))
    obtain ⟨c, cs, hc, hhead⟩ := keyText_head k
    have htext : joinLines (Stmt.lines fl (.pair k v)) ++ rest =
        keyText k ++ (" = ".toList ++ (valueText fl v ++ '\n' :: rest)) := by
      simp [joinLines, Stmt.lines]
    rw [htext]
    rw [hc, List.cons_append] at hrule ⊢
    exact loop_error fl n st (isWs_of_head hhead) (ne_lineBreak_of_head hhead) hrule
  | dict path =>
    have htext : joinLines (Stmt.lines fl (.dict path)) ++ rest =
        '\n' :: '[' :: (dotted (path.map keyText) ++ (']' :: '\n' :: rest)) := by
      simp [joinLines, Stmt.lines]
    rw [htext]
    exact loop_error fl n st (by decide) (by decide) (rule_dict_broken fl st hk _)
  | list path =>
    have htext : joinLines (Stmt.lines fl (.list path)) ++ rest =
        '\n' :: '[' :: '[' :: (dotted (path.map keyText) ++ (']' :: ']' :: '\n' :: rest)) := by
      simp [joinLines, Stmt.lines]
    rw [htext]
    exact loop_error fl n st (by decide) (by decide) (rule_list_broken fl st hk _)

/-- The statements of a file, run one after the other. -/
def runAll {F : Type} (st : State F) (ss : List (Stmt F)) : Option (State F) :=
  ss.foldlM Stmt.run st

/-- The lines of a list of statements. -/
def allLines (ss : List (Stmt fl.Finite)) : List Text := ss.flatMap (Stmt.lines fl)

/-- The parser runs statements without broken keys and goes on. -/
theorem loop_stmts (n : ℕ) (st : State fl.Finite) {ss : List (Stmt fl.Finite)}
    (hs : ∀ s ∈ ss, s.Good fl) (hk : ∀ s ∈ ss, ¬ s.Broken) (rest : Text) :
    loop fl (n + (allLines fl ss).length) st (joinLines (allLines fl ss) ++ rest) =
      (runAll st ss).bind fun st ↦ loop fl n st rest := by
  induction ss generalizing st with
  | nil => rfl
  | cons s ss ih =>
    have htext : joinLines (allLines fl (s :: ss)) ++ rest =
        joinLines (s.lines fl) ++ (joinLines (allLines fl ss) ++ rest) := by
      simp [joinLines, allLines]
    have hlen : n + (allLines fl (s :: ss)).length =
        n + (allLines fl ss).length + (s.lines fl).length := by
      simp only [allLines, List.flatMap_cons, List.length_append]
      omega
    rw [htext, hlen, loop_stmt fl _ st (hs s List.mem_cons_self) (hk s List.mem_cons_self), runAll,
      List.foldlM_cons]
    cases s.run st with
    | none => rfl
    | some st =>
      exact ih st (fun s h ↦ hs s (List.mem_cons_of_mem _ h))
        (fun s h ↦ hk s (List.mem_cons_of_mem _ h))

/-- A broken key among the statements stops the parser. -/
theorem loop_stmts_broken (n : ℕ) (st : State fl.Finite) {ss : List (Stmt fl.Finite)}
    (hs : ∀ s ∈ ss, s.Good fl) (hk : ∃ s ∈ ss, s.Broken) (rest : Text) :
    loop fl (n + (allLines fl ss).length) st (joinLines (allLines fl ss) ++ rest) = none := by
  induction ss generalizing st with
  | nil => simp at hk
  | cons s ss ih =>
    have htext : joinLines (allLines fl (s :: ss)) ++ rest =
        joinLines (s.lines fl) ++ (joinLines (allLines fl ss) ++ rest) := by
      simp [joinLines, allLines]
    have hlen : n + (allLines fl (s :: ss)).length =
        n + (allLines fl ss).length + (s.lines fl).length := by
      simp only [allLines, List.flatMap_cons, List.length_append]
      omega
    rw [htext, hlen]
    by_cases hb : s.Broken
    · exact loop_stmt_broken fl _ st hb _
    · rw [loop_stmt fl _ st (hs s List.mem_cons_self) hb]
      cases s.run st with
      | none => rfl
      | some st =>
        exact ih st (fun s h ↦ hs s (List.mem_cons_of_mem _ h)) (by simpa [hb] using hk)

end HsUploader.SinkSwitch
