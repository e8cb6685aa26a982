import HsUploader.Bytes
import HsUploader.Daemon.Toml

/-!
# Writing a switch file: `dumps_toml`

`sinkswitch.py` writes its own TOML: the scalars of a table first, then its sub-tables, each under
a header that spells the whole path.  A key is written bare when `_BARE_KEY` matches it and as a
basic string otherwise.

The floats are the machine's.  What the code takes from them is a parameter: the text `repr` writes
for a finite float, which has the form of a TOML float, and that `float` reads it back.
-/

set_option autoImplicit false

namespace HsUploader.SinkSwitch

/-- A Python `str` that can be encoded: `write_switch` writes its text as UTF-8. -/
abbrev Text := List Char

/-- A float: a finite one, an infinity or not a number. -/
inductive PyFloat (F : Type) where
  | finite (x : F)
  | inf (negative : Bool)
  | nan
  deriving DecidableEq

/-- The form of a float's text: a sign, a whole part without leading zeros, and a fraction, an
exponent or both. -/
structure FloatForm where
  negative : Bool
  whole : ℕ
  /-- The digits after the point. -/
  fraction : Text
  /-- The sign of the exponent and its digits. -/
  exponent : Option (Char × Text)
  fraction_digits : ∀ c ∈ fraction, c.isDigit
  exponent_digits : ∀ e ∈ exponent, (e.1 = '+' ∨ e.1 = '-') ∧ e.2 ≠ [] ∧ ∀ c ∈ e.2, c.isDigit
  written : fraction ≠ [] ∨ exponent ≠ none

namespace FloatForm

/-- The fraction with its point. -/
def fractionText (f : FloatForm) : Text := if f.fraction = [] then [] else '.' :: f.fraction

/-- The exponent with its letter. -/
def exponentText (f : FloatForm) : Text :=
  match f.exponent with
  | none => []
  | some (sign, digits) => 'e' :: sign :: digits

/-- The text in full. -/
def text (f : FloatForm) : Text :=
  (if f.negative then ['-'] else []) ++ Nat.toDigits 10 f.whole ++ f.fractionText ++ f.exponentText

end FloatForm

/-- The machine's finite floats. -/
structure Floats where
  Finite : Type
  decEq : DecidableEq Finite
  /-- `repr(x)`. -/
  repr : Finite → Text
  /-- `float(text)`, for the text of a TOML number. -/
  ofText : Text → PyFloat Finite
  /-- `repr` writes a sign, digits, a fraction and an exponent. -/
  form : ∀ x, ∃ f : FloatForm, repr x = f.text
  /-- `float(repr(x)) == x`. -/
  ofText_repr : ∀ x, ofText (repr x) = .finite x

instance (fl : Floats) : DecidableEq fl.Finite := fl.decEq

/-- A Python value, as far as `dumps_toml` and `tomllib` tell values apart.  `other` is a value of
any further type, by the type's name. -/
inductive Value (F : Type) where
  | str (s : Text)
  | bool (b : Bool)
  | int (n : ℤ)
  | float (x : PyFloat F)
  | arr (items : List (Value F))
  | table (members : List (Text × Value F))
  | other (typeName : String)

/-- The items of a dict, in its order. -/
abbrev Members (F : Type) := List (Text × Value F)

namespace Value

variable {F : Type}

mutual

/-- A value and all the values in it. -/
def parts : Value F → List (Value F)
  | arr items => arr items :: itemParts items
  | table members => table members :: memberParts members
  | v => [v]

/-- The parts of a list's items. -/
def itemParts : List (Value F) → List (Value F)
  | [] => []
  | v :: vs => parts v ++ itemParts vs

/-- The parts of a dict's values. -/
def memberParts : Members F → List (Value F)
  | [] => []
  | (_, v) :: ms => parts v ++ memberParts ms

end

mutual

/-- The keys of a value's tables, at any depth. -/
def keys : Value F → List Text
  | arr items => itemKeys items
  | table members => memberKeys members
  | _ => []

/-- The keys in a list's items. -/
def itemKeys : List (Value F) → List Text
  | [] => []
  | v :: vs => keys v ++ itemKeys vs

/-- The keys of a dict and those in its values. -/
def memberKeys : Members F → List Text
  | [] => []
  | (k, v) :: ms => k :: (keys v ++ memberKeys ms)

end

mutual

/-- `a == b` for two values of one type: two dicts are equal when they have the same keys with
equal values, in whatever order, and a NaN is equal to nothing. -/
def same [DecidableEq F] : Value F → Value F → Bool
  | str a, str b => a = b
  | bool a, bool b => a = b
  | int a, int b => a = b
  | float a, float b => a = b && a ≠ .nan
  | arr xs, arr ys => sameItems xs ys
  | table ms, table ns => ms.length = ns.length && sameMembers ms ns
  | _, _ => false

/-- Two lists are equal item by item. -/
def sameItems [DecidableEq F] : List (Value F) → List (Value F) → Bool
  | [], [] => true
  | x :: xs, y :: ys => same x y && sameItems xs ys
  | _, _ => false

/-- Every item of the first dict is in the second. -/
def sameMembers [DecidableEq F] : Members F → Members F → Bool
  | [], _ => true
  | (k, v) :: ms, ns =>
    (match ns.lookup k with
      | some w => same v w
      | none => false) && sameMembers ms ns

end

end Value

/-- A dict: no table in it has a key twice. -/
structure Mapping (F : Type) where
  members : Members F
  distinct : ∀ ms, .table ms ∈ (Value.table members).parts → (ms.map Prod.fst).Nodup

/-! ## Keys and scalars -/

/-- A character of `[A-Za-z0-9_-]`. -/
def isBare (c : Char) : Bool := c.isAlphanum || c = '_' || c = '-'

/-- `_BARE_KEY.match(k)`.  The `$` of the pattern matches at the end and before a line break that
ends the text. -/
def bareKey (k : Text) : Bool :=
  let body := if k.getLast? = some '\n' then k.dropLast else k
  body ≠ [] && body.all isBare

/-- `"%04x" % n`. -/
def hex4 (n : ℕ) : Text :=
  [Nat.digitChar (n / 4096 % 16), Nat.digitChar (n / 256 % 16), Nat.digitChar (n / 16 % 16),
    Nat.digitChar (n % 16)]

/-- What `_str` writes for a character. -/
def escape (c : Char) : Text :=
  if c = '\\' then ['\\', '\\']
  else if c = '"' then ['\\', '"']
  else if c = '\x08' then ['\\', 'b']
  else if c = '\t' then ['\\', 't']
  else if c = '\n' then ['\\', 'n']
  else if c = '\x0c' then ['\\', 'f']
  else if c = '\r' then ['\\', 'r']
  else if c.toNat < 0x20 || c.toNat = 0x7F then '\\' :: 'u' :: hex4 c.toNat
  else [c]

/-- `_str(v)`. -/
def str (v : Text) : Text := '"' :: v.flatMap escape ++ ['"']

/-- `_key(k)`. -/
def key (k : Text) : Except String Text :=
  if k = [] then .error "TOML key must be a non-empty string, not ''"
  else if bareKey k then .ok k
  else .ok (str k)

variable (fl : Floats)

/-- `_scalar(v)`. -/
def scalar : Value fl.Finite → Except String Text
  | .bool b => .ok (if b then "true".toList else "false".toList)
  | .int n => .ok (pyStr n)
  | .float .nan => .ok "nan".toList
  | .float (.inf negative) => .ok (if negative then "-inf".toList else "inf".toList)
  | .float (.finite x) => .ok (fl.repr x)
  | .str s => .ok (str s)
  | .arr _ => .error "cannot write list as a TOML value"
  | .table _ => .error "cannot write dict as a TOML value"
  | .other typeName => .error ("cannot write " ++ typeName ++ " as a TOML value")

/-! ## Tables -/

/-- The value is a mapping or a list that is not empty: `_emit` keeps it for its second loop. -/
def Value.isSub {F : Type} : Value F → Bool
  | .table _ => true
  | .arr items => !items.isEmpty
  | _ => false

/-- The value is a mapping. -/
def Value.isTable {F : Type} : Value F → Bool
  | .table _ => true
  | _ => false

/-- `_is_table_array(v)`, for a list. -/
def isTableArray {F : Type} (items : List (Value F)) : Bool :=
  !items.isEmpty && items.all Value.isTable

/-- The lines of one part of the output and then those of the next. -/
def followed (first second : Except String (List Text)) : Except String (List Text) := do
  let lines ← first
  let more ← second
  pure (lines ++ more)

/-- The line of a key that holds a scalar or an empty list. -/
def plainLine (k : Text) (v : Value fl.Finite) : Except String (List Text) := do
  match v with
  | .arr [] => pure [(← key k) ++ " = []".toList]
  | .arr (_ :: _) | .table _ => pure []
  | v => pure [(← key k) ++ " = ".toList ++ (← scalar fl v)]

/-- The first loop of `_emit`. -/
def emitPlain : Members fl.Finite → Except String (List Text)
  | [] => pure []
  | (k, v) :: rest => followed (plainLine fl k v) (emitPlain rest)

/-- `".".join(here)`. -/
def dotted (here : List Text) : Text := ['.'].intercalate here

mutual

/-- The second loop of `_emit`. -/
def emitSubs (path : List Text) : Members fl.Finite → Except String (List Text)
  | [] => pure []
  | (k, v) :: rest => followed (emitSub path k v) (emitSubs path rest)

/-- One turn of the second loop, for a key that the first loop kept. -/
def emitSub (path : List Text) (k : Text) : Value fl.Finite → Except String (List Text)
  | .table members => do
    let here := path ++ [← key k]
    followed (pure [[], '[' :: dotted here ++ [']']])
      (followed (emitPlain fl members) (emitSubs here members))
  | .arr [] => pure []
  | .arr (item :: items) => do
    let here := path ++ [← key k]
    if isTableArray (item :: items) then
      followed (emitItem here item) (emitItems here items)
    else throw (Toml.reprText (String.ofList k) ++ ": only arrays of tables are supported")
  | _ => pure []

/-- The items of an array of tables. -/
def emitItems (here : List Text) : List (Value fl.Finite) → Except String (List Text)
  | [] => pure []
  | item :: items => followed (emitItem here item) (emitItems here items)

/-- One item of an array of tables.  An item of another kind does not come here. -/
def emitItem (here : List Text) : Value fl.Finite → Except String (List Text)
  | .table members =>
    followed (pure [[], '[' :: '[' :: dotted here ++ [']', ']']])
      (followed (emitPlain fl members) (emitSubs here members))
  | _ => pure []

end

/-- `_emit(table, path, out)`: the lines it appends. -/
def emit (table : Members fl.Finite) (path : List Text) : Except String (List Text) :=
  followed (emitPlain fl table) (emitSubs fl path table)

/-- `dumps_toml(data)`. -/
def dumpsToml (data : Members fl.Finite) : Except String Text := do
  let out ← emit fl data []
  pure ((['\n'].intercalate out).dropWhile (· = '\n') ++ ['\n'])

end HsUploader.SinkSwitch
