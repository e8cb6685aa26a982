import Mathlib.Algebra.Order.Ring.Rat
import Mathlib.Data.List.Sort
import HsUploader.Json
import HsUploader.Library.Table

/-!
# TOML values, as Python holds them

A manifest entry is the dict `tomllib` makes of a `[[pipeline]]` table.  The daemon asks it three
things: what stands under a key, whether that is truthy, and whether two entries are equal.  The
last is Python's `==` on dicts: the order of the keys does not count, and an integer, a float and a
boolean of one value are equal.

A NaN carries the object it is.  Inside a container Python compares it by identity first, so a NaN
is equal to itself and to no other NaN, read again from the same text included.

## What is here

* `Toml` and `Entry` — the values, and the members of a table with each key once.
* `code` and `eq` — what a value compares by, as a list of tokens in which the members of a dict
  stand in the order of their keys.  Two values are equal when the lists are, so that equality is
  decided and is an equivalence without a proof by cases.
* `truthy`, `pyStr`, `repr` — what an `if`, `str` and `repr` make of a value.
* `get`, `has`, `text`, `flag` — the four ways in which the daemon looks a key up.
* `truthyCode` — equal values are truthy together.
-/

set_option autoImplicit false

namespace HsUploader

/-- A TOML value.  `float` and the times carry the text `str` gives for them; a time with an offset
is the instant it names, a local time, date or date-time its text. -/
inductive Toml where
  | str (s : String)
  | int (n : ℤ)
  | float (q : ℚ) (text : String)
  | inf (negative : Bool)
  | nan (object : ℕ)
  | bool (b : Bool)
  | offsetTime (micros : ℤ) (text : String)
  | localTime (text : String)
  | arr (items : List Toml)
  | table (members : List (String × Toml))

namespace Toml

/-- A piece of a value's code. -/
inductive Token where
  | text (s : String)
  | number (q : ℚ)
  | inf (negative : Bool)
  | nan (object : ℕ)
  | instant (micros : ℤ)
  | clock (text : String)
  | listOpen
  | dictOpen
  | close
  deriving DecidableEq

mutual

/-- What a value compares by: two values are `==` when their codes are the same.  Numbers and
booleans of one value have one code, and the members of a dict stand in the order of their keys. -/
def code : Toml → List Token
  | str s => [.text s]
  | int n => [.number n]
  | float q _ => [.number q]
  | inf negative => [.inf negative]
  | nan object => [.nan object]
  | bool b => [.number (if b then 1 else 0)]
  | offsetTime micros _ => [.instant micros]
  | localTime text => [.clock text]
  | arr items => .listOpen :: codeItems items ++ [.close]
  | table members =>
    .dictOpen :: ((codeMembers members).insertionSort fun m n ↦ m.1 ≤ n.1).flatMap (fun m ↦
      .text m.1 :: m.2) ++ [.close]

/-- The codes of a list's items, one after the other. -/
def codeItems : List Toml → List Token
  | [] => []
  | v :: vs => code v ++ codeItems vs

/-- Each key of a dict with the code of its value. -/
def codeMembers : List (String × Toml) → List (String × List Token)
  | [] => []
  | (k, v) :: ms => (k, code v) :: codeMembers ms

end

/-- `a == b`. -/
def eq (a b : Toml) : Bool := a.code = b.code

/-- The value counts as true in an `if`. -/
def truthy : Toml → Bool
  | str s => s ≠ ""
  | int n => n ≠ 0
  | float q _ => q ≠ 0
  | bool b => b
  | arr items => !items.isEmpty
  | table members => !members.isEmpty
  | inf _ | nan _ | offsetTime _ _ | localTime _ => true

/-- `repr(s)`, for a text of printable characters and line breaks. -/
def reprText (s : String) : String :=
  let quote := if s.contains '\'' && !s.contains '"' then '"' else '\''
  let body := s.toList.flatMap fun c ↦
    if c = '\\' then ['\\', '\\']
    else if c = '\n' then ['\\', 'n']
    else if c = '\r' then ['\\', 'r']
    else if c = '\t' then ['\\', 't']
    else if c = quote then ['\\', c]
    else [c]
  String.ofList (quote :: body ++ [quote])

mutual

/-- `repr(value)`. -/
def repr : Toml → String
  | str s => reprText s
  | int n => toString n
  | float _ text => text
  | inf negative => if negative then "-inf" else "inf"
  | nan _ => "nan"
  | bool b => if b then "True" else "False"
  | offsetTime _ text => text
  | localTime text => text
  | arr items => "[" ++ reprItems items ++ "]"
  | table members => "\x7b" ++ reprMembers members ++ "\x7d"

/-- The items of a list, separated by commas. -/
def reprItems : List Toml → String
  | [] => ""
  | [v] => repr v
  | v :: vs => repr v ++ ", " ++ reprItems vs

/-- The members of a dict, separated by commas. -/
def reprMembers : List (String × Toml) → String
  | [] => ""
  | [(k, v)] => reprText k ++ ": " ++ repr v
  | (k, v) :: ms => reprText k ++ ": " ++ repr v ++ ", " ++ reprMembers ms

end

/-- `str(value)`. -/
def pyStr : Toml → String
  | str s => s
  | v => repr v

end Toml

/-- A manifest entry: the members of its table, each key once. -/
abbrev Entry := List (String × Toml)

namespace Entry

/-- `entry.get(key)`. -/
def get (e : Entry) (key : String) : Option Toml := e.lookup key

/-- `entry.get(key) or ...` takes the value. -/
def has (e : Entry) (key : String) : Bool := (e.get key).any Toml.truthy

/-- `str(entry.get(key) or default)`. -/
def text (e : Entry) (key default : String) : String :=
  match e.get key with
  | some v => if v.truthy then v.pyStr else default
  | none => default

/-- `bool(entry.get(key, default))`. -/
def flag (e : Entry) (key : String) (default : Bool) : Bool :=
  match e.get key with
  | some v => v.truthy
  | none => default

/-- What an entry compares by: two entries are `==` when each key has the same code in both. -/
def code (e : Entry) : List (String × List Toml.Token) :=
  (Toml.codeMembers e).insertionSort fun m n ↦ m.1 ≤ n.1

end Entry

/-- `entries == others`, on two lists of entries. -/
def eqEntries (es es' : List Entry) : Bool := es.map Entry.code = es'.map Entry.code

/-! ## What equal entries have in common -/

namespace Toml

theorem code_ne_nil (v : Toml) : v.code ≠ [] := by
  cases v <;> simp [code]

theorem lookup_cons_eq {α : Type} (k k' : String) (v : α) (l : List (String × α)) :
    ((k', v) :: l).lookup k = if k = k' then some v else l.lookup k := by
  rw [List.lookup_cons]
  by_cases hk : k = k'
  · simp [hk]
  · rw [beq_eq_false_iff_ne.mpr hk, if_neg hk]

theorem lookup_codeMembers (ms : List (String × Toml)) (k : String) :
    (codeMembers ms).lookup k = (ms.lookup k).map code := by
  induction ms with
  | nil => rfl
  | cons m ms ih =>
    obtain ⟨k', v⟩ := m
    rw [codeMembers, lookup_cons_eq, lookup_cons_eq, ih]
    split <;> rfl

/-- Sorting by key leaves what stands first under a key first. -/
theorem lookup_orderedInsert {α : Type} (k k' : String) (v : α) (l : List (String × α)) :
    (l.orderedInsert (fun m n : String × α ↦ m.1 ≤ n.1) (k', v)).lookup k =
      if k = k' then some v else l.lookup k := by
  induction l with
  | nil => exact lookup_cons_eq k k' v []
  | cons m l ih =>
    obtain ⟨k₂, v₂⟩ := m
    rw [List.orderedInsert]
    split
    · exact lookup_cons_eq k k' v _
    · rename_i hle
      rw [lookup_cons_eq, lookup_cons_eq, ih]
      by_cases hk : k = k₂
      · have hne : k ≠ k' := fun h ↦ hle (by rw [← h, hk])
        rw [if_pos hk, if_neg hne, if_pos hk]
      · rw [if_neg hk, if_neg hk]

theorem lookup_insertionSort {α : Type} (k : String) (l : List (String × α)) :
    (l.insertionSort fun m n : String × α ↦ m.1 ≤ n.1).lookup k = l.lookup k := by
  induction l with
  | nil => rfl
  | cons m l ih =>
    obtain ⟨k', v⟩ := m
    rw [List.insertionSort_cons, lookup_orderedInsert, ih, lookup_cons_eq]

/-- Whether a value is truthy, read off its code. -/
def truthyCode : List Token → Bool
  | [.text s] => s ≠ ""
  | [.number q] => q ≠ 0
  | [.listOpen, .close] => false
  | [.dictOpen, .close] => false
  | _ => true

theorem truthy_eq (v : Toml) : v.truthy = truthyCode v.code := by
  cases v with
  | str s => rfl
  | int n => simp [truthy, code, truthyCode]
  | float q text => rfl
  | inf negative => rfl
  | nan object => rfl
  | bool b => cases b <;> simp [truthy, code, truthyCode]
  | offsetTime micros text => rfl
  | localTime text => rfl
  | arr items =>
    cases items with
    | nil => rfl
    | cons v vs =>
      obtain ⟨t, ts, hv⟩ := List.exists_cons_of_ne_nil (code_ne_nil v)
      have hne : ts ++ codeItems vs ++ [Token.close] ≠ [] := by simp
      obtain ⟨u, us, hu⟩ := List.exists_cons_of_ne_nil hne
      simp only [truthy, code, codeItems, hv, List.cons_append, hu, truthyCode]
      rfl
  | table members =>
    cases members with
    | nil => rfl
    | cons m ms =>
      have hsort : ((codeMembers (m :: ms)).insertionSort fun m n ↦ m.1 ≤ n.1) ≠ [] := fun h ↦ by
        have hlen := congrArg List.length h
        obtain ⟨k, v⟩ := m
        rw [List.length_insertionSort, codeMembers] at hlen
        cases hlen
      obtain ⟨n, ns, hn⟩ := List.exists_cons_of_ne_nil hsort
      simp only [truthy, code, hn, List.flatMap_cons, List.cons_append, truthyCode]
      rfl

end Toml

namespace Entry

variable {e e' : Entry}

theorem get_code (h : e.code = e'.code) (key : String) :
    (e.get key).map Toml.code = (e'.get key).map Toml.code := by
  have hlookup : ∀ e : Entry, (e.get key).map Toml.code = e.code.lookup key := fun e ↦ by
    rw [get, code, Toml.lookup_insertionSort, Toml.lookup_codeMembers]
  rw [hlookup, hlookup, h]

/-- Equal entries agree on what is truthy. -/
theorem has_eq (h : e.code = e'.code) (key : String) : e.has key = e'.has key := by
  have hhas : ∀ e : Entry, e.has key = ((e.get key).map Toml.code).any Toml.truthyCode := fun e ↦ by
    rw [has]
    cases e.get key with
    | none => rfl
    | some v => exact v.truthy_eq
  rw [hhas, hhas, get_code h]

theorem flag_eq (h : e.code = e'.code) (key : String) (default : Bool) :
    e.flag key default = e'.flag key default := by
  have hflag : ∀ e : Entry, e.flag key default =
      (((e.get key).map Toml.code).map Toml.truthyCode).getD default := fun e ↦ by
    rw [flag]
    cases e.get key with
    | none => rfl
    | some v => exact v.truthy_eq
  rw [hflag, hflag, get_code h]

end Entry

end HsUploader
