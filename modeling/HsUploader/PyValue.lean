import Mathlib.Data.Rat.Defs
import HsUploader.Bytes

/-!
# Python values a row's columns can hold

`json.loads` builds texts, numbers, booleans, `None`, lists and dicts, and the transports turn them
into texts and numbers with `str`, `int`, `float` and the truth of a value.  A text is a sequence
of code points, and a lone surrogate is one of them: `json.loads` makes one of an escape such as
`\ud800`, and `encode("utf-8")` then raises.

What a float is, and what `int` and `str` make of a text or a value, is the interpreter's: these
are the fields of `Python`, of which nothing is assumed.
-/

set_option autoImplicit false

namespace HsUploader

/-- A code point of a Python text: a Unicode scalar value or a lone surrogate. -/
inductive PyChar where
  | scalar (c : Char)
  | surrogate (n : Fin 2048)
  deriving DecidableEq

/-- A Python `str`. -/
abbrev PyText := List PyChar

namespace PyText

/-- The text of a string. -/
def ofString (s : String) : PyText := s.toList.map .scalar

theorem ofString_append (s t : String) : ofString (s ++ t) = ofString s ++ ofString t := by
  simp [ofString]

theorem ofString_join (ss : List String) : ofString (String.join ss) = ss.flatMap ofString := by
  rw [ofString, String.toList_join, List.map_flatMap]
  rfl

/-- The text as a string, `none` when a lone surrogate is in it. -/
def toString? : PyText → Option String
  | [] => some ""
  | .scalar c :: cs => (toString? cs).map fun s ↦ String.ofList (c :: s.toList)
  | .surrogate _ :: _ => none

/-- `s.encode("utf-8")`. -/
def encode (s : PyText) : Except Exn Bytes :=
  match s.toString? with
  | some s => .ok s.toByteArray.data.toList
  | none => .error (.other "UnicodeEncodeError" "surrogates not allowed")

/-- `b.decode("utf-8")`. -/
def decode (b : Bytes) : Except Exn PyText :=
  match String.fromUTF8? ⟨⟨b⟩⟩ with
  | some s => .ok (ofString s)
  | none => .error (.other "UnicodeDecodeError" "invalid utf-8")

/-- The text has no lone surrogate. -/
def Encodable (s : PyText) : Prop := ∃ b, s.encode = .ok b

@[simp] theorem toString?_ofString (s : String) : (ofString s).toString? = some s := by
  have h : ∀ cs : List Char, toString? (cs.map .scalar) = some (String.ofList cs) := by
    intro cs
    induction cs with
    | nil => rfl
    | cons c cs ih => simp [toString?, ih]
  rw [ofString, h, String.ofList_toList]

theorem encode_ofString (s : String) : (ofString s).encode = .ok s.toByteArray.data.toList := by
  rw [encode, toString?_ofString]

theorem eq_ofString {t : PyText} {s : String} (h : t.toString? = some s) : t = ofString s := by
  induction t generalizing s with
  | nil => cases h; rfl
  | cons c t ih =>
    cases c with
    | surrogate n => cases h
    | scalar c =>
      obtain ⟨s', hs', rfl⟩ := Option.map_eq_some_iff.mp h
      rw [ih hs']
      simp [ofString]

/-- A text that can be encoded is what its bytes decode to. -/
theorem decode_encode {s : PyText} {b : Bytes} (h : s.encode = .ok b) : decode b = .ok s := by
  rw [encode] at h
  cases hs : s.toString? with
  | none => rw [hs] at h; cases h
  | some t =>
    rw [hs] at h
    cases h
    rw [decode, eq_ofString hs]
    simp [String.fromUTF8?, String.fromUTF8, t.isValidUTF8]

/-- Only the empty text has no bytes. -/
theorem eq_nil_of_encode {s : PyText} (h : s.encode = .ok []) : s = [] := by
  have hempty : decode [] = .ok [] := decode_encode (encode_ofString "")
  exact Except.ok.inj ((decode_encode h).symm.trans hempty)

/-- The bytes of a text that was decoded. -/
theorem encode_decode {b : Bytes} {s : PyText} (h : decode b = .ok s) : s.encode = .ok b := by
  rw [decode] at h
  split at h
  · rename_i t ht
    cases h
    rw [encode, toString?_ofString]
    rw [String.fromUTF8?] at ht
    split at ht
    · cases ht
      rfl
    · cases ht
  · cases h

end PyText

/-- A float: a finite one, an infinity or not a number. -/
inductive PyNumber (F : Type) where
  | finite (x : F)
  | inf (negative : Bool)
  | nan
  deriving DecidableEq

/-- A value `json.loads` builds. -/
inductive PyValue (F : Type) where
  | none
  | bool (b : Bool)
  | int (n : ℤ)
  | float (x : PyNumber F)
  | str (s : PyText)
  | list (items : List (PyValue F))
  | dict (members : List (PyText × PyValue F))

/-- What the interpreter makes of floats, and of texts and values turned into numbers and texts. -/
structure Python where
  /-- The finite floats. -/
  Finite : Type
  /-- `x == 0.0`. -/
  isZero : Finite → Bool
  /-- `int(x)`. -/
  trunc : Finite → ℤ
  /-- `int(text)`, `none` where it raises `ValueError`. -/
  intOfText : PyText → Option ℤ
  /-- `str(v)`, for a value that is no text. -/
  strOf : PyValue Finite → PyText
  /-- `text.lower()`. -/
  lower : PyText → PyText
  /-- `text.upper()`. -/
  upper : PyText → PyText

namespace Python

variable (py : Python)

/-- The value counts as true in an `if`. -/
def truthy : PyValue py.Finite → Bool
  | .none => false
  | .bool b => b
  | .int n => n ≠ 0
  | .float (.finite x) => !py.isZero x
  | .float _ => true
  | .str s => s ≠ []
  | .list items => !items.isEmpty
  | .dict members => !members.isEmpty

/-- `a or b`. -/
def orElse (a b : PyValue py.Finite) : PyValue py.Finite := if py.truthy a then a else b

/-- `str(v)`. -/
def str : PyValue py.Finite → PyText
  | .str s => s
  | v => py.strOf v

/-- `int(v)`. -/
def int : PyValue py.Finite → Except Exn ℤ
  | .bool b => .ok (if b then 1 else 0)
  | .int n => .ok n
  | .float (.finite x) => .ok (py.trunc x)
  | .float (.inf _) => .error (.overflowError "cannot convert float infinity to integer")
  | .float .nan => .error (.valueError "cannot convert float NaN to integer")
  | .str s =>
    match py.intOfText s with
    | some n => .ok n
    | none => .error (.valueError "invalid literal for int() with base 10")
  | .none => .error (.typeError "int() argument must be a string or a real number, not 'NoneType'")
  | .list _ => .error (.typeError "int() argument must be a string or a real number, not 'list'")
  | .dict _ => .error (.typeError "int() argument must be a string or a real number, not 'dict'")

end Python

/-- A row's columns: each name once. -/
abbrev Columns (F : Type) := List (String × PyValue F)

/-- `cols.get(name)`. -/
def Columns.get {F : Type} (cols : Columns F) (name : String) : PyValue F :=
  (cols.lookup name).getD .none

end HsUploader
