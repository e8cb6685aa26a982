import Mathlib.Algebra.Order.Ring.Rat
import Mathlib.Data.String.Basic

/-!
# JSON values and what SQLite reads out of them

A queued row carries its payload as JSON text, and that text is read twice by two different
programs.  Python's `json.loads` reads it when a batch is built; SQLite's `json_extract` reads it
inside the `WHERE`, `PARTITION BY` and `ORDER BY` of the query that selects the rows.  `Payload`
keeps the two readings side by side, so that a text only one of them accepts (`NaN` is the
standing example) is not confused with one that both do.

`SqlValue` is a value as SQLite sees it, `compare` its order on values of any storage class, and
the operators of a `WHERE` clause are three-valued: `none` is SQL's NULL.
-/

set_option autoImplicit false

namespace HsUploader

/-- The exceptions the modelled code raises or lets through, with their messages. -/
inductive Exn where
  | valueError (message : String)
  | attributeError (message : String)
  | typeError (message : String)
  | runtimeError (message : String)
  | overflowError (message : String)
  | operationalError (message : String)
  | other (type message : String)
  deriving DecidableEq, Repr

/-- A JSON value.  A number written with a fraction or an exponent is `float m e`, standing for
`m * 10 ^ e`; an object keeps its members in the order of the text, repeated keys included. -/
inductive Json where
  | null
  | bool (b : Bool)
  | int (n : ℤ)
  | float (m e : ℤ)
  | str (s : String)
  | arr (items : List Json)
  | obj (members : List (String × Json))
  deriving Repr

namespace Json

mutual

/-- The text of a JSON value, without spaces. -/
def render : Json → String
  | null => "null"
  | bool b => if b then "true" else "false"
  | int n => toString n
  | float m e => toString m ++ "e" ++ toString e
  | str s => "\"" ++ s ++ "\""
  | arr items => "[" ++ renderItems items ++ "]"
  | obj members => "\x7b" ++ renderMembers members ++ "\x7d"

/-- The items of an array, separated by commas. -/
def renderItems : List Json → String
  | [] => ""
  | [j] => render j
  | j :: js => render j ++ "," ++ renderItems js

/-- The members of an object, separated by commas. -/
def renderMembers : List (String × Json) → String
  | [] => ""
  | [(k, j)] => "\"" ++ k ++ "\":" ++ render j
  | (k, j) :: ms => "\"" ++ k ++ "\":" ++ render j ++ "," ++ renderMembers ms

end

/-- Python's name for the type of the value `json.loads` makes of it. -/
def pyType : Json → String
  | null => "NoneType"
  | bool _ => "bool"
  | int _ => "int"
  | float _ _ => "float"
  | str _ => "str"
  | arr _ => "list"
  | obj _ => "dict"

/-- The value is an object. -/
def IsObject : Json → Prop
  | obj _ => True
  | _ => False

instance : DecidablePred IsObject
  | null | bool _ | int _ | float _ _ | str _ | arr _ => isFalse id
  | obj _ => isTrue trivial

/-- `payload.get(key)` on the dict `json.loads` built: of a repeated key the last member counts. -/
def get (members : List (String × Json)) (key : String) : Option Json :=
  ((members.filter fun m ↦ m.1 = key).getLast?).map Prod.snd

/-- `dict(payload)`: each key once, where it first stood, with its last value. -/
def dict : List (String × Json) → List (String × Json)
  | [] => []
  | (k, j) :: ms => (k, (get ms k).getD j) :: (dict ms).filter fun m ↦ m.1 ≠ k

end Json

/-! ## SQLite values -/

/-- A value as SQLite holds it. -/
inductive SqlValue where
  | null
  | integer (n : ℤ)
  | real (q : ℚ)
  | text (s : String)
  deriving DecidableEq

/-- What two values have in common when SQLite compares or groups them: numbers compare by value,
whichever of the two number classes they are stored in. -/
inductive SqlKey where
  | null
  | number (q : ℚ)
  | text (s : String)
  deriving DecidableEq

namespace SqlValue

/-- The key a value compares and groups by. -/
def key : SqlValue → SqlKey
  | null => .null
  | integer n => .number n
  | real q => .number q
  | text s => .text s

/-- SQLite's order on two values: every number lies below every text, and a comparison with NULL
has no answer. -/
def compare (x y : SqlValue) : Option Ordering :=
  match x.key, y.key with
  | .null, _ => none
  | _, .null => none
  | .number a, .number b => some (Ord.compare a b)
  | .number _, .text _ => some .lt
  | .text _, .number _ => some .gt
  | .text a, .text b => some (Ord.compare a b)

/-- `x = y`. -/
def eq (x y : SqlValue) : Option Bool := (x.compare y).map (· == .eq)

/-- `x IN (ys)`: NULL when no listed value is equal but some comparison had no answer. -/
def isIn (x : SqlValue) (ys : List SqlValue) : Option Bool :=
  if ys.any fun y ↦ x.eq y == some true then some true
  else if ys.any fun y ↦ x.eq y == none then none
  else some false

/-- The number at the front of a text, as `CAST(... AS REAL)` reads it: an optional sign, digits,
an optional fraction, an optional exponent; 0 when there is none. -/
def numericPrefix (s : String) : ℚ :=
  let cs := s.toList.dropWhile fun c ↦ c = ' ' || c = '\t' || c = '\n' || c = '\r'
  let neg := cs.head? = some '-'
  let cs := if neg || cs.head? = some '+' then cs.tail else cs
  let int := cs.takeWhile Char.isDigit
  let rest := cs.dropWhile Char.isDigit
  let frac := if rest.head? = some '.' then rest.tail.takeWhile Char.isDigit else []
  let rest := if rest.head? = some '.' then rest.tail.dropWhile Char.isDigit else rest
  let digits : ℚ := (Nat.ofDigitChars 10 (int ++ frac) 0 : ℕ)
  let expNeg := rest.tail.head? = some '-'
  let expDigits :=
    if rest.head? = some 'e' || rest.head? = some 'E' then
      (if expNeg || rest.tail.head? = some '+' then rest.tail.tail else rest.tail).takeWhile
        Char.isDigit
    else []
  let exp : ℤ := Nat.ofDigitChars 10 expDigits 0
  let scale : ℤ := (if expNeg then -exp else exp) - frac.length
  (if neg then -digits else digits) * (10 : ℚ) ^ scale

/-- `CAST(x AS REAL)`; NULL stays NULL. -/
def castReal : SqlValue → Option ℚ
  | null => none
  | integer n => some n
  | real q => some q
  | text s => some (numericPrefix s)

/-- The value as text, as `lower` and `trim` read their argument; NULL stays NULL.  A real number
is written as numerator and denominator: what matters of it is that it begins like a number. -/
def asText : SqlValue → Option String
  | null => none
  | integer n => some (toString n)
  | real q => some (toString q.num ++ "/" ++ toString q.den)
  | text s => some s

end SqlValue

/-- `trim(s)`: SQLite strips spaces, and nothing else, from both ends. -/
def sqlTrim (s : String) : String :=
  String.ofList (((s.toList.dropWhile (· = ' ')).reverse.dropWhile (· = ' ')).reverse)

/-- `lower(s)`: SQLite folds the ASCII capitals alone. -/
def sqlLower (s : String) : String := String.ofList (s.toList.map Char.toLower)

/-! ## Payload texts -/

/-- What `json.loads` makes of a text: a value, a `JSONDecodeError`, or some other exception
(`RecursionError` on a text nested too deep). -/
inductive Loaded where
  | value (j : Json)
  | corrupt (message : String)
  | refused (e : Exn)

/-- The text is a JSON object. -/
def Loaded.IsObject : Loaded → Prop
  | value j => j.IsObject
  | corrupt _ | refused _ => False

instance : DecidablePred Loaded.IsObject
  | .value j => inferInstanceAs (Decidable j.IsObject)
  | .corrupt _ | .refused _ => isFalse id

/-- A payload text, by what its two readers make of it. -/
structure Payload where
  /-- `json.loads(payload_json)`. -/
  loads : Loaded
  /-- What SQLite's JSON functions read, `none` where they say the text is malformed. -/
  sql : Option Json

namespace Payload

/-- The text of a JSON value both readers accept. -/
def ofJson (j : Json) : Payload := ⟨.value j, some j⟩

/-- A text neither reader accepts. -/
def notJson : Payload := ⟨.corrupt "Expecting value: line 1 column 1 (char 0)", none⟩

/-- The payload is a JSON object. -/
def IsObject (p : Payload) : Prop := p.loads.IsObject

instance (p : Payload) : Decidable p.IsObject := inferInstanceAs (Decidable p.loads.IsObject)

theorem isObject_iff {p : Payload} : p.IsObject ↔ ∃ ms, p.loads = .value (.obj ms) := by
  rw [IsObject]
  constructor
  · intro h
    match hl : p.loads, h with
    | .value (.obj ms), _ => exact ⟨ms, rfl⟩
  · rintro ⟨ms, h⟩
    rw [h]
    exact trivial

/-- The SQL value of a JSON value: booleans become 0 and 1, arrays and objects their text. -/
def toSql : Json → SqlValue
  | .null => .null
  | .bool b => .integer (if b then 1 else 0)
  | .int n => .integer n
  | .float m e => .real (m * (10 : ℚ) ^ e)
  | .str s => .text s
  | .arr items => .text (Json.arr items).render
  | .obj members => .text (Json.obj members).render

/-- `json_extract(payload_json, '$.<field>')`: NULL when the value is no object or lacks the
field, of a repeated field the first; an error when the text is malformed. -/
def jsonExtract (p : Payload) (field : String) : Except Exn SqlValue :=
  match p.sql with
  | none => .error (.operationalError "malformed JSON")
  | some (.obj members) =>
    .ok (((members.find? fun m ↦ m.1 = field).map fun m ↦ toSql m.2).getD .null)
  | some _ => .ok .null

end Payload

end HsUploader
