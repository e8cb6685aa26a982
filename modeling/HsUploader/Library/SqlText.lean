import Mathlib.Data.Nat.Digits.Defs
import HsUploader.Bytes

/-!
# SQL text

How SQLite reads a script, as far as scripts of `INSERT` statements go: a text between quotes in
which a quote is written twice, a blob in hexadecimal, words, and marks.  Anything else ends the
reading with `none`, and so does a NUL, at which a script's text is over.

A script is written from `Piece`s.  `lex_spell` says that it is read back as the tokens of its
pieces, as long as nothing follows a piece that would be read with it.

## What is here

* `doubled` and `readDoubled` — a text between quotes, written and read.
* `hex` and `readHex` — a blob.
* `next` and `lex` — the reading of a script, token by token.
* `Piece`, `spell`, `apart` — the writing, and what may follow what.
* `lex_spell` — the two go together.
* `statement` and `statements` — the `INSERT`s of a script, with the table, the columns and the
  values of each.
-/

set_option autoImplicit false

namespace HsUploader
namespace Sql

/-! ## Quoting -/

section quoting

variable {α : Type} [DecidableEq α]

/-- Write each `d` twice. -/
def doubled (d : α) (xs : List α) : List α := xs.flatMap fun x ↦ if x = d then [d, d] else [x]

/-- Read up to the first `d` that is not written twice. -/
def readDoubled (d : α) : List α → Option (List α × List α)
  | [] => none
  | [x] => if x = d then some ([], []) else none
  | x :: y :: xs =>
    if x = d then
      if y = d then (readDoubled d xs).map fun r ↦ (d :: r.1, r.2) else some ([], y :: xs)
    else (readDoubled d (y :: xs)).map fun r ↦ (x :: r.1, r.2)

theorem readDoubled_cons {d x : α} (h : x ≠ d) (xs : List α) :
    readDoubled d (x :: xs) = (readDoubled d xs).map fun r ↦ (x :: r.1, r.2) := by
  cases xs with
  | nil => rw [readDoubled, readDoubled, if_neg h, Option.map_none]
  | cons y xs => rw [readDoubled, if_neg h]

/-- **What is written with its quotes doubled is read back**, where no quote follows. -/
theorem readDoubled_doubled (d : α) (xs : List α) {rest : List α} (h : rest.head? ≠ some d) :
    readDoubled d (doubled d xs ++ d :: rest) = some (xs, rest) := by
  induction xs with
  | nil =>
    cases rest with
    | nil => exact if_pos rfl
    | cons y rest =>
      rw [doubled, List.flatMap_nil, List.nil_append, readDoubled, if_pos rfl, if_neg]
      rintro rfl
      exact h rfl
  | cons x xs ih =>
    rw [doubled, List.flatMap_cons, List.append_assoc]
    by_cases hx : x = d
    · subst hx
      rw [if_pos rfl]
      change readDoubled x (x :: x :: (doubled x xs ++ x :: rest)) = _
      rw [readDoubled, if_pos rfl, if_pos rfl, ih]
      rfl
    · rw [if_neg hx, List.singleton_append, readDoubled_cons hx]
      change Option.map _ (readDoubled d (doubled d xs ++ d :: rest)) = _
      rw [ih]
      rfl

end quoting

/-! ## Blobs -/

/-- The digit in base 16, in lower case. -/
def hexDigit (n : ℕ) : Char := Nat.digitChar (n % 16)

/-- `bytes.hex()`. -/
def hex (b : Bytes) : List Char := b.flatMap fun x ↦ [hexDigit (x.toNat / 16), hexDigit x.toNat]

/-- The value of a digit in base 16, in either case. -/
def hexValue (c : Char) : Option ℕ :=
  if '0' ≤ c ∧ c ≤ '9' then some (c.toNat - '0'.toNat)
  else if 'a' ≤ c ∧ c ≤ 'f' then some (c.toNat - 'a'.toNat + 10)
  else if 'A' ≤ c ∧ c ≤ 'F' then some (c.toNat - 'A'.toNat + 10)
  else none

/-- Pairs of digits up to a quote. -/
def readHex : List Char → Option (Bytes × List Char)
  | [] => none
  | [c] => if c = '\'' then some ([], []) else none
  | c :: c' :: cs =>
    if c = '\'' then some ([], c' :: cs)
    else do
      let high ← hexValue c
      let low ← hexValue c'
      let (b, rest) ← readHex cs
      pure (UInt8.ofNat (16 * high + low) :: b, rest)

theorem hexValue_hexDigit (n : ℕ) : hexValue (hexDigit n) = some (n % 16) := by
  have h : ∀ m < 16, hexValue (Nat.digitChar m) = some m := by decide
  exact h _ (Nat.mod_lt _ (by decide))

theorem hexDigit_ne_quote (n : ℕ) : hexDigit n ≠ '\'' := by
  have h : ∀ m < 16, Nat.digitChar m ≠ '\'' := by decide
  exact h _ (Nat.mod_lt _ (by decide))

theorem readHex_hex (b : Bytes) (rest : List Char) :
    readHex (hex b ++ '\'' :: rest) = some (b, rest) := by
  induction b with
  | nil => cases rest <;> exact if_pos rfl
  | cons x b ih =>
    have hx : UInt8.ofNat (16 * (x.toNat / 16 % 16) + x.toNat % 16) = x := by
      have hlt := x.toNat_lt
      rw [Nat.mod_eq_of_lt (show x.toNat / 16 < 16 by omega), Nat.div_add_mod, UInt8.ofNat_toNat]
    change readHex (hexDigit (x.toNat / 16) :: hexDigit x.toNat :: (hex b ++ '\'' :: rest)) = _
    rw [readHex, if_neg (hexDigit_ne_quote _), hexValue_hexDigit, hexValue_hexDigit, ih]
    simp only [Option.bind_eq_bind, Option.bind_some, Option.pure_def, hx]

/-! ## Tokens -/

inductive Token where
  | word (w : String)
  | text (s : List Char)
  | blob (b : Bytes)
  | mark (c : Char)
  deriving DecidableEq

def isBlank (c : Char) : Bool := c = ' ' || c = '\n' || c = '\t' || c = '\r'

def isMark (c : Char) : Bool := c = '(' || c = ')' || c = ',' || c = ';'

def isWordStart (c : Char) : Bool := c.isAlpha || c = '_'

def isWordChar (c : Char) : Bool := c.isAlphanum || c = '_'

/-- The first token, or none at white space, and what follows it. -/
def next : List Char → Option (Option Token × List Char)
  | [] => none
  | c :: cs =>
    if isBlank c then some (none, cs)
    else if isMark c then some (some (.mark c), cs)
    else if c = '\'' then (readDoubled '\'' cs).map fun r ↦ (some (.text r.1), r.2)
    else if (c = 'x' ∨ c = 'X') ∧ cs.head? = some '\'' then
      (readHex cs.tail).map fun r ↦ (some (.blob r.1), r.2)
    else if isWordStart c then
      some (some (.word (String.ofList (c :: cs.takeWhile isWordChar))), cs.dropWhile isWordChar)
    else none

def lexLoop : ℕ → List Char → Option (List Token)
  | _, [] => some []
  | 0, _ :: _ => none
  | n + 1, c :: cs => do
    let (t, rest) ← next (c :: cs)
    let ts ← lexLoop n rest
    pure (t.toList ++ ts)

/-- The tokens of a script. -/
def lex (cs : List Char) : Option (List Token) :=
  if '\x00' ∈ cs then none else lexLoop cs.length cs

/-! ## Writing a script -/

/-- What a script is written from. -/
inductive Piece where
  | word (w : String)
  | blank (c : Char)
  | mark (c : Char)
  | text (s : List Char)
  | blob (b : Bytes)

namespace Piece

def spell : Piece → List Char
  | word w => w.toList
  | blank c | mark c => [c]
  | text s => '\'' :: doubled '\'' s ++ ['\'']
  | blob b => 'X' :: '\'' :: hex b ++ ['\'']

def token : Piece → Option Token
  | word w => some (.word w)
  | blank _ => none
  | mark c => some (.mark c)
  | text s => some (.text s)
  | blob b => some (.blob b)

/-- The piece is spelled as what it is. -/
def fits : Piece → Bool
  | word w =>
    match w.toList with
    | [] => false
    | c :: cs => isWordStart c && cs.all isWordChar
  | blank c => isBlank c
  | mark c => isMark c
  | _ => true

/-- The character that may follow the piece. -/
def before (following : Option Char) : Piece → Bool
  | word _ => following.all fun c ↦ !isWordChar c && c ≠ '\''
  | text _ => following ≠ some '\''
  | _ => true

end Piece

/-- What the pieces are spelled. -/
def spell (ps : List Piece) : List Char := ps.flatMap Piece.spell

/-- Each piece is what it is, and stands apart from what follows it. -/
def apart : List Piece → Bool
  | [] => true
  | p :: ps => p.fits && p.before (spell ps).head? && apart ps

/-- A word's first character begins nothing else. -/
theorem not_of_isWordStart {c : Char} (h : isWordStart c = true) :
    isBlank c = false ∧ isMark c = false ∧ c ≠ '\'' := by
  refine ⟨?_, ?_, ?_⟩
  · rw [Bool.eq_false_iff, isBlank, Ne, Bool.or_eq_true, Bool.or_eq_true, Bool.or_eq_true]
    simp only [decide_eq_true_eq]
    rintro (((rfl | rfl) | rfl) | rfl) <;> exact absurd h (by decide)
  · rw [Bool.eq_false_iff, isMark, Ne, Bool.or_eq_true, Bool.or_eq_true, Bool.or_eq_true]
    simp only [decide_eq_true_eq]
    rintro (((rfl | rfl) | rfl) | rfl) <;> exact absurd h (by decide)
  · rintro rfl
    exact absurd h (by decide)

theorem isBlank_of_isMark {c : Char} (h : isMark c = true) : isBlank c = false := by
  rw [isMark, Bool.or_eq_true, Bool.or_eq_true, Bool.or_eq_true] at h
  simp only [decide_eq_true_eq] at h
  rcases h with ((rfl | rfl) | rfl) | rfl <;> rfl

/-- A word ends where no character of a word follows. -/
theorem span_word {cs rest : List Char} (hcs : cs.all isWordChar = true)
    (hrest : rest.head?.all fun c ↦ !isWordChar c && c ≠ '\'') :
    (cs ++ rest).takeWhile isWordChar = cs ∧ (cs ++ rest).dropWhile isWordChar = rest := by
  rw [List.takeWhile_append_of_pos (List.all_eq_true.mp hcs),
    List.dropWhile_append_of_pos (List.all_eq_true.mp hcs)]
  cases rest with
  | nil => exact ⟨List.append_nil _, rfl⟩
  | cons c rest =>
    rw [List.head?_cons, Option.all_some, Bool.and_eq_true, Bool.not_eq_true'] at hrest
    rw [List.takeWhile_cons, List.dropWhile_cons, hrest.1]
    exact ⟨List.append_nil _, rfl⟩

/-- Nor does a blob begin with a word. -/
theorem head?_word_ne_quote {cs rest : List Char} (hcs : cs.all isWordChar = true)
    (hrest : rest.head?.all fun c ↦ !isWordChar c && c ≠ '\'') : (cs ++ rest).head? ≠ some '\'' := by
  cases cs with
  | nil =>
    intro h
    rw [List.nil_append] at h
    rw [h] at hrest
    exact absurd hrest (by decide)
  | cons c cs =>
    intro h
    obtain rfl := Option.some.inj h
    rw [List.all_cons, Bool.and_eq_true] at hcs
    exact absurd hcs.1 (by decide)

theorem exists_of_fits_word {w : String} (h : (Piece.word w).fits = true) :
    ∃ c cs, w.toList = c :: cs ∧ isWordStart c = true ∧ cs.all isWordChar = true := by
  rw [Piece.fits] at h
  split at h
  · cases h
  · rename_i c cs hw
    rw [Bool.and_eq_true] at h
    exact ⟨c, cs, hw, h.1, h.2⟩

/-- **The first token of what a piece and the rest are spelled is the piece's.** -/
theorem next_spell {p : Piece} {rest : List Char} (hp : p.fits = true)
    (hrest : p.before rest.head? = true) :
    next (p.spell ++ rest) = some (p.token, rest) := by
  cases p with
  | blank c =>
    have hblank : isBlank c = true := hp
    rw [Piece.spell, List.singleton_append, next, if_pos hblank]
    rfl
  | mark c =>
    have hmark : isMark c = true := hp
    rw [Piece.spell, List.singleton_append, next, isBlank_of_isMark hmark,
      if_neg Bool.false_ne_true, if_pos hmark]
    rfl
  | text s =>
    have hread := readDoubled_doubled '\'' s (of_decide_eq_true hrest)
    have hspell : (Piece.text s).spell ++ rest = '\'' :: (doubled '\'' s ++ '\'' :: rest) := by
      simp [Piece.spell]
    rw [hspell, next, if_neg (by decide), if_neg (by decide), if_pos rfl, hread]
    rfl
  | blob b =>
    have hspell : (Piece.blob b).spell ++ rest = 'X' :: '\'' :: (hex b ++ '\'' :: rest) := by
      simp [Piece.spell]
    rw [hspell, next, if_neg (by decide), if_neg (by decide), if_neg (by decide),
      if_pos ⟨.inr rfl, rfl⟩, List.tail_cons, readHex_hex]
    rfl
  | word w =>
    obtain ⟨c, cs, hw, hc, hcs⟩ := exists_of_fits_word hp
    obtain ⟨hblank, hmark, hquote⟩ := not_of_isWordStart hc
    obtain ⟨htake, hdrop⟩ := span_word hcs hrest
    have hname : String.ofList (c :: cs) = w := by rw [← hw, String.ofList_toList]
    rw [Piece.spell, hw, List.cons_append, next, hblank, if_neg Bool.false_ne_true, hmark,
      if_neg Bool.false_ne_true, if_neg hquote, if_neg fun h ↦ head?_word_ne_quote hcs hrest h.2,
      if_pos hc, htake, hdrop, hname]
    rfl

theorem spell_ne_nil {p : Piece} (hp : p.fits = true) : p.spell ≠ [] := by
  cases p with
  | word w =>
    obtain ⟨c, cs, hw, -, -⟩ := exists_of_fits_word hp
    rw [Piece.spell, hw]
    exact List.cons_ne_nil c cs
  | _ => exact List.cons_ne_nil _ _

theorem lexLoop_spell {ps : List Piece} (h : apart ps = true) {n : ℕ} (hn : (spell ps).length ≤ n) :
    lexLoop n (spell ps) = some (ps.filterMap Piece.token) := by
  induction ps generalizing n with
  | nil => cases n <;> rfl
  | cons p ps ih =>
    rw [apart, Bool.and_eq_true, Bool.and_eq_true] at h
    obtain ⟨⟨hp, hbefore⟩, hps⟩ := h
    have hnext := next_spell hp hbefore
    have hspell : spell (p :: ps) = p.spell ++ spell ps := List.flatMap_cons
    rw [hspell, List.length_append] at hn
    rw [hspell]
    cases hp' : p.spell with
    | nil => exact absurd hp' (spell_ne_nil hp)
    | cons c cs =>
      rw [hp', List.length_cons] at hn
      rw [hp'] at hnext
      obtain ⟨m, rfl⟩ : ∃ m, n = m + 1 := ⟨n - 1, by omega⟩
      have hrest := ih hps (n := m) (by omega)
      rw [List.cons_append] at hnext ⊢
      rw [lexLoop, hnext]
      simp only [Option.bind_eq_bind, Option.bind_some, hrest, Option.pure_def]
      cases htoken : p.token <;> simp [htoken]

theorem mem_doubled {c d : Char} {xs : List Char} (h : c ∈ doubled d xs) : c ∈ xs ∨ c = d := by
  obtain ⟨x, hx, hc⟩ := List.mem_flatMap.mp h
  split at hc
  · exact .inr (by simpa using hc)
  · exact .inl (List.mem_singleton.mp hc ▸ hx)

theorem nul_not_mem_hex (b : Bytes) : '\x00' ∉ hex b := by
  have hdigit : ∀ n, hexDigit n ≠ '\x00' := fun n ↦ by
    have h : ∀ m < 16, Nat.digitChar m ≠ '\x00' := by decide
    exact h _ (Nat.mod_lt _ (by decide))
  intro h
  obtain ⟨x, -, hx⟩ := List.mem_flatMap.mp h
  rcases List.mem_cons.mp hx with hx | hx
  · exact hdigit _ hx.symm
  · exact hdigit _ (List.mem_singleton.mp hx).symm

/-- Only a text can bring a NUL into a script. -/
theorem nul_not_mem_spell {p : Piece} (hp : p.fits = true) (htext : ∀ s, p = .text s → '\x00' ∉ s) :
    '\x00' ∉ p.spell := by
  intro h
  cases p with
  | word w =>
    obtain ⟨c, cs, hw, hc, hcs⟩ := exists_of_fits_word hp
    rw [Piece.spell, hw] at h
    rcases List.mem_cons.mp h with rfl | h
    · exact absurd hc (by decide)
    · exact absurd (List.all_eq_true.mp hcs _ h) (by decide)
  | blank c =>
    obtain rfl := List.mem_singleton.mp h
    exact absurd hp (by decide)
  | mark c =>
    obtain rfl := List.mem_singleton.mp h
    exact absurd hp (by decide)
  | text s =>
    rw [Piece.spell, List.cons_append, List.mem_cons, List.mem_append, List.mem_singleton] at h
    rcases h with h | h | h
    · cases h
    · exact (mem_doubled h).elim (htext s rfl) fun h ↦ by cases h
    · cases h
  | blob b =>
    rw [Piece.spell, List.cons_append, List.cons_append, List.mem_cons, List.mem_cons,
      List.mem_append, List.mem_singleton] at h
    rcases h with h | h | h | h
    · cases h
    · cases h
    · exact nul_not_mem_hex b h
    · cases h

theorem spell_append (ps qs : List Piece) : spell (ps ++ qs) = spell ps ++ spell qs :=
  List.flatMap_append

/-- Behind a piece that anything may follow, the pieces begin anew. -/
theorem apart_append_cons {ps qs : List Piece} {p : Piece} {c : Char} (hspell : p.spell = [c])
    (hbefore : ∀ f, p.before f = true) : apart (ps ++ p :: qs) = (apart (ps ++ [p]) && apart qs) := by
  induction ps with
  | nil =>
    rw [List.nil_append, List.nil_append, apart, apart, apart, hbefore, hbefore, Bool.and_true,
      Bool.and_true]
  | cons q ps ih =>
    have hhead : (spell (ps ++ p :: qs)).head? = (spell (ps ++ [p])).head? := by
      rw [spell_append, spell_append]
      change (spell ps ++ (p.spell ++ spell qs)).head? = (spell ps ++ (p.spell ++ [])).head?
      rw [hspell]
      cases spell ps <;> rfl
    rw [List.cons_append, List.cons_append, apart, apart, ih, hhead, ← Bool.and_assoc]

theorem fits_of_apart {ps : List Piece} (h : apart ps = true) : ∀ p ∈ ps, p.fits = true := by
  induction ps with
  | nil => exact fun _ hp ↦ nomatch hp
  | cons p ps ih =>
    rw [apart, Bool.and_eq_true, Bool.and_eq_true] at h
    exact List.forall_mem_cons.mpr ⟨h.1.1, ih h.2⟩

/-- **A script is read back as the tokens it was written from.** -/
theorem lex_spell {ps : List Piece} (h : apart ps = true)
    (htext : ∀ s, Piece.text s ∈ ps → '\x00' ∉ s) :
    lex (spell ps) = some (ps.filterMap Piece.token) := by
  rw [lex, if_neg]
  · exact lexLoop_spell h (Nat.le_refl _)
  · intro hnul
    obtain ⟨p, hp, hmem⟩ := List.mem_flatMap.mp hnul
    exact nul_not_mem_spell (fits_of_apart h p hp) (fun s hs ↦ htext s (hs ▸ hp)) hmem

/-! ## Statements -/

/-- A value in a statement. -/
inductive Literal where
  | text (s : List Char)
  | blob (b : Bytes)
  deriving DecidableEq

inductive Statement where
  | begin
  | commit
  | insert (table : String) (columns : List String) (values : List Literal)
  deriving DecidableEq

def Token.name : Token → Option String
  | .word w => some w
  | _ => none

def Token.literal : Token → Option Literal
  | .text s => some (.text s)
  | .blob b => some (.blob b)
  | _ => none

/-- Items between commas, up to the closing bracket. -/
def listOf {α : Type} (item : Token → Option α) : List Token → Option (List α × List Token)
  | t :: .mark c :: ts => do
    let a ← item t
    if c = ')' then pure ([a], ts)
    else if c = ',' then do
      let (as, rest) ← listOf item ts
      pure (a :: as, rest)
    else none
  | _ => none

/-- The first statement, and what follows it. -/
def statement : List Token → Option (Statement × List Token)
  | .word "BEGIN" :: .mark ';' :: ts => some (.begin, ts)
  | .word "COMMIT" :: .mark ';' :: ts => some (.commit, ts)
  | .word "INSERT" :: .word "INTO" :: .word table :: .mark '(' :: ts => do
    let (columns, ts) ← listOf Token.name ts
    match ts with
    | .word "VALUES" :: .mark '(' :: ts => do
      let (values, ts) ← listOf Token.literal ts
      match ts with
      | .mark ';' :: ts => pure (.insert table columns values, ts)
      | _ => none
    | _ => none
  | _ => none

def statementsLoop : ℕ → List Token → Option (List Statement)
  | _, [] => some []
  | 0, _ :: _ => none
  | n + 1, t :: ts => do
    let (s, rest) ← statement (t :: ts)
    let ss ← statementsLoop n rest
    pure (s :: ss)

theorem statementsLoop_cons {ts rest : List Token} {s : Statement}
    (h : statement ts = some (s, rest)) (n : ℕ) :
    statementsLoop (n + 1) ts = (statementsLoop n rest).map (s :: ·) := by
  cases ts with
  | nil => cases h
  | cons t ts =>
    rw [statementsLoop, h, Option.bind_eq_bind, Option.bind_some]
    dsimp only
    cases statementsLoop n rest <;> rfl

/-- The statements of a script. -/
def statements (cs : List Char) : Option (List Statement) := do
  let ts ← lex cs
  statementsLoop ts.length ts

end Sql
end HsUploader
