import HsUploader.SinkSwitch.Dumps

/-!
# Reading a switch file: `tomllib.loads`

The parser of the standard library, statement by statement: the header in force, the dict built so
far, and the flags that say which tables were opened by a header (`EXPLICIT_NEST`) and which values
may not be added to (`FROZEN`).  `none` is a `TOMLDecodeError`.

The values are those `dumps_toml` can write.  A multi-line string, a date or a time, an array with
items, an inline table and an integer in another base end the parse here; the first two at the test
by which `parse_value` turns to them, before it looks for a number.
-/

set_option autoImplicit false

namespace HsUploader.SinkSwitch

/-! ## Texts and keys -/

/-- `TOML_WS`. -/
def isWs (c : Char) : Bool := c = ' ' || c = '\t'

/-- `skip_chars(src, pos, TOML_WS)`. -/
def skipWs (text : Text) : Text := text.dropWhile isWs

/-- `ASCII_CTRL - "\t"`. -/
def isIllegal (c : Char) : Bool := (c.toNat < 0x20 || c.toNat = 0x7F) && c ≠ '\t'

/-- The value of a hexadecimal digit. -/
def hexDigit (c : Char) : Option ℕ :=
  if c.isDigit then some (c.toNat - 48)
  else if 97 ≤ c.toNat && c.toNat ≤ 102 then some (c.toNat - 87)
  else if 65 ≤ c.toNat && c.toNat ≤ 70 then some (c.toNat - 55)
  else none

/-- `parse_hex_char` on the digits of an escape. -/
def hexChar (digits : Text) : Option Char := do
  let n ← digits.foldlM (fun n c ↦ (hexDigit c).map (16 * n + ·)) 0
  if n.isValidChar then some (Char.ofNat n) else none

/-- `BASIC_STR_ESCAPE_REPLACEMENTS`, by the character after the backslash. -/
def unescape (c : Char) : Option Char :=
  if c = 'b' then some '\x08'
  else if c = 't' then some '\t'
  else if c = 'n' then some '\n'
  else if c = 'f' then some '\x0c'
  else if c = 'r' then some '\r'
  else if c = '"' then some '"'
  else if c = '\\' then some '\\'
  else none

/-- What is put before a text that was read. -/
def prepend (c : Char) (read : Text × Text) : Text × Text := (c :: read.1, read.2)

/-- `parse_basic_str` on one line, after the opening quote: the text and what follows it. -/
def parseBasicStr : Text → Option (Text × Text)
  | [] => none
  | c :: rest =>
    if c = '"' then some ([], rest)
    else if c = '\\' then
      match rest with
      | [] => none
      | 'u' :: a :: b :: c :: d :: rest => do
        let e ← hexChar [a, b, c, d]
        (parseBasicStr rest).map (prepend e)
      | 'U' :: a :: b :: c :: d :: e :: f :: g :: h :: rest => do
        let x ← hexChar [a, b, c, d, e, f, g, h]
        (parseBasicStr rest).map (prepend x)
      | e :: rest => do
        let e ← unescape e
        (parseBasicStr rest).map (prepend e)
    else if isIllegal c then none
    else (parseBasicStr rest).map (prepend c)

/-- `parse_literal_str`, after the opening quote. -/
def parseLiteralStr (text : Text) : Option (Text × Text) :=
  let (body, rest) := text.span (· ≠ '\'')
  if body.any isIllegal then none
  else match rest with
    | [] => none
    | _ :: rest => some (body, rest)

/-- `parse_key_part`. -/
def parseKeyPart : Text → Option (Text × Text)
  | [] => none
  | c :: rest =>
    if isBare c then some ((c :: rest).span isBare)
    else if c = '\'' then parseLiteralStr rest
    else if c = '"' then parseBasicStr rest
    else none

/-- The loop of `parse_key`, for the parts after the first. -/
def parseKeyRest : ℕ → Text → Option (List Text × Text)
  | n + 1, '.' :: text => do
    let (part, text) ← parseKeyPart (skipWs text)
    let (parts, text) ← parseKeyRest n (skipWs text)
    some (part :: parts, text)
  | _, text => some ([], text)

/-- `parse_key`.  There are no more parts than characters. -/
def parseKey (text : Text) : Option (List Text × Text) := do
  let (part, text) ← parseKeyPart text
  let (parts, text) ← parseKeyRest text.length (skipWs text)
  some (part :: parts, text)

/-! ## Values -/

/-- `(?:_?[0-9])*`, as far as it goes. -/
def digits : Text → Text × Text
  | [] => ([], [])
  | c :: rest =>
    if c.isDigit then prepend c (digits rest)
    else if c = '_' then
      match rest with
      | [] => ([], [c])
      | d :: rest =>
        if d.isDigit then prepend c (prepend d (digits rest)) else ([], c :: d :: rest)
    else ([], c :: rest)

/-- `[+-]?`. -/
def optSign : Text → Text × Text
  | '+' :: rest => (['+'], rest)
  | '-' :: rest => (['-'], rest)
  | text => ([], text)

/-- `0|[1-9](?:_?[0-9])*`. -/
def wholePart : Text → Option (Text × Text)
  | [] => none
  | c :: rest =>
    if c = '0' then some ([c], rest)
    else if c.isDigit then some (prepend c (digits rest))
    else none

/-- `(?:\.[0-9](?:_?[0-9])*)?`. -/
def optFraction : Text → Text × Text
  | '.' :: c :: rest =>
    if c.isDigit then prepend '.' (prepend c (digits rest)) else ([], '.' :: c :: rest)
  | text => ([], text)

/-- `(?:[eE][+-]?[0-9](?:_?[0-9])*)?`. -/
def optExponent : Text → Text × Text
  | [] => ([], [])
  | e :: rest =>
    if e = 'e' || e = 'E' then
      let (sign, rest') := optSign rest
      match rest' with
      | c :: rest'' =>
        if c.isDigit then
          let (ds, rest''') := digits rest''
          (e :: sign ++ c :: ds, rest''')
        else ([], e :: rest)
      | [] => ([], e :: rest)
    else ([], e :: rest)

variable (fl : Floats)

/-- `RE_NUMBER` in its decimal form, and `match_to_number`. -/
def parseNumber (text : Text) : Option (Value fl.Finite × Text) := do
  let (sign, text) := optSign text
  let (whole, text) ← wholePart text
  let (fraction, text) := optFraction text
  let (exponent, text) := optExponent text
  if fraction ++ exponent = [] then
    let n ← pyInt (sign ++ whole)
    some (.int n, text)
  else some (.float (fl.ofText (sign ++ whole ++ fraction ++ exponent)), text)

/-- The text starts as a date or a time does. -/
def startsTime (text : Text) : Bool :=
  match text.dropWhile Char.isDigit with
  | c :: _ =>
    (c = '-' && (text.takeWhile Char.isDigit).length = 4) ||
      (c = ':' && (text.takeWhile Char.isDigit).length = 2)
  | [] => false

/-- The special floats. -/
def parseSpecial {F : Type} (text : Text) : Option (Value F × Text) :=
  if text.take 3 = "inf".toList then some (.float (.inf false), text.drop 3)
  else if text.take 3 = "nan".toList then some (.float .nan, text.drop 3)
  else if text.take 4 = "-inf".toList then some (.float (.inf true), text.drop 4)
  else if text.take 4 = "+inf".toList then some (.float (.inf false), text.drop 4)
  else if text.take 4 = "-nan".toList || text.take 4 = "+nan".toList then
    some (.float .nan, text.drop 4)
  else none

/-- `parse_array`, after the bracket, for an array without items. -/
def parseArray {F : Type} (text : Text) : Option (Value F × Text) :=
  match text.dropWhile fun c ↦ isWs c || c = '\n' with
  | ']' :: rest => some (.arr [], rest)
  | _ => none

/-- `parse_value`. -/
def parseValue (text : Text) : Option (Value fl.Finite × Text) :=
  match text with
  | [] => none
  | c :: rest =>
    if c = '"' then
      if ['"', '"', '"'].isPrefixOf text then none
      else (parseBasicStr rest).map fun (s, rest) ↦ (.str s, rest)
    else if c = '\'' then
      if ['\'', '\'', '\''].isPrefixOf text then none
      else (parseLiteralStr rest).map fun (s, rest) ↦ (.str s, rest)
    else if "true".toList.isPrefixOf text then some (.bool true, text.drop 4)
    else if "false".toList.isPrefixOf text then some (.bool false, text.drop 5)
    else if c = '[' then parseArray rest
    else if c = '{' then none
    else if startsTime text then none
    else (parseNumber fl text) <|> (parseSpecial text)

/-! ## The document -/

/-- The flags: the tables opened by a header, and the values that may not be added to, with all
that is under them. -/
structure Flags where
  explicitNest : List (List Text)
  frozen : List (List Text)

namespace Flags

/-- `is_(key, EXPLICIT_NEST)`. -/
def isExplicit (flags : Flags) (key : List Text) : Bool :=
  key ≠ [] && flags.explicitNest.contains key

/-- `is_(key, FROZEN)`. -/
def isFrozen (flags : Flags) (key : List Text) : Bool :=
  key ≠ [] && flags.frozen.any (·.isPrefixOf key)

/-- `set(key, EXPLICIT_NEST, recursive=False)`. -/
def setExplicit (flags : Flags) (key : List Text) : Flags :=
  { flags with explicitNest := key :: flags.explicitNest }

/-- `set(key, FROZEN, recursive=True)`. -/
def setFrozen (flags : Flags) (key : List Text) : Flags :=
  { flags with frozen := key :: flags.frozen }

/-- `unset_all(key)`. -/
def unsetAll (flags : Flags) (key : List Text) : Flags where
  explicitNest := flags.explicitNest.filter fun k ↦ !key.isPrefixOf k
  frozen := flags.frozen.filter fun k ↦ !key.isPrefixOf k

end Flags

/-- `loads` between two statements. -/
structure State (F : Type) where
  data : Members F
  flags : Flags
  header : List Text
  /-- The tables that dotted keys have opened since the last header. -/
  pending : List (List Text)

section Rules

variable {F : Type}

/-- `d[k] = v`. -/
def setItem (ms : Members F) (k : Text) (v : Value F) : Members F :=
  if (ms.lookup k).isSome then ms.map fun m ↦ if m.1 = k then (k, v) else m
  else ms ++ [(k, v)]

/-- `get_or_create_nest(key)` and a change `f` to the dict it gives.  A list on the way stands for
its last item. -/
def atNest (f : Members F → Option (Members F)) : List Text → Members F → Option (Members F)
  | [], cont => f cont
  | k :: ks, cont =>
    match cont.lookup k with
    | none => do
      let nest ← atNest f ks []
      some (setItem cont k (.table nest))
    | some (.table nest) => do
      let nest ← atNest f ks nest
      some (setItem cont k (.table nest))
    | some (.arr items) =>
      match items.getLast? with
      | some (.table nest) => do
        let nest ← atNest f ks nest
        some (setItem cont k (.arr (items.dropLast ++ [.table nest])))
      | _ => none
    | some _ => none

/-- `append_nest_to_list(key)`. -/
def appendNestToList (data : Members F) (key : List Text) : Option (Members F) := do
  let last ← key.getLast?
  atNest (fun cont ↦
    match cont.lookup last with
    | none => some (setItem cont last (.arr [.table []]))
    | some (.arr items) => some (setItem cont last (.arr (items ++ [.table []])))
    | some _ => none) key.dropLast data

/-- `finalize_pending()`. -/
def State.finalizePending (st : State F) : State F :=
  { st with flags := st.pending.foldl Flags.setExplicit st.flags, pending := [] }

/-- `create_dict_rule`, once the key is read. -/
def createDict (st : State F) (key : List Text) : Option (State F) :=
  let st := st.finalizePending
  if st.flags.isExplicit key || st.flags.isFrozen key then none
  else do
    let data ← atNest some key st.data
    some { st with data, flags := st.flags.setExplicit key, header := key }

/-- `create_list_rule`, once the key is read. -/
def createList (st : State F) (key : List Text) : Option (State F) :=
  let st := st.finalizePending
  if st.flags.isFrozen key then none
  else do
    let data ← appendNestToList st.data key
    some { st with data, flags := (st.flags.unsetAll key).setExplicit key, header := key }

/-- The namespaces a dotted key opens: its proper beginnings under the header. -/
def relativeConts (header key : List Text) : List (List Text) :=
  ((List.range key.length).drop 1).map fun i ↦ header ++ key.take i

/-- `key_value_rule`, once key and value are read. -/
def keyValue (st : State F) (key : List Text) (value : Value F) : Option (State F) := do
  let conts := relativeConts st.header key
  let stem ← key.getLast?
  let parent := st.header ++ key.dropLast
  if conts.any st.flags.isExplicit then none
  else if st.flags.isFrozen parent then none
  else do
    let data ← atNest (fun nest ↦
      if (nest.lookup stem).isSome then none else some (setItem nest stem value)) parent st.data
    let flags := match value with
      | .arr _ | .table _ => st.flags.setFrozen (st.header ++ key)
      | _ => st.flags
    some { st with data, flags, pending := st.pending ++ conts }

end Rules

/-- `parse_key_value_pair` and `key_value_rule`. -/
def keyValueRule (st : State fl.Finite) (text : Text) : Option (State fl.Finite × Text) := do
  let (key, text) ← parseKey text
  match text with
  | '=' :: text =>
    let (value, text) ← parseValue fl (skipWs text)
    let st ← keyValue st key value
    some (st, text)
  | _ => none

/-- `create_dict_rule`, after its bracket. -/
def createDictRule {F : Type} (st : State F) (text : Text) : Option (State F × Text) := do
  let (key, text) ← parseKey (skipWs text)
  let st ← createDict st key
  match text with
  | ']' :: text => some (st, text)
  | _ => none

/-- `create_list_rule`, after its two brackets. -/
def createListRule {F : Type} (st : State F) (text : Text) : Option (State F × Text) := do
  let (key, text) ← parseKey (skipWs text)
  let st ← createList st key
  match text with
  | ']' :: ']' :: text => some (st, text)
  | _ => none

/-- The rule a line that is not blank is read by. -/
def rule (st : State fl.Finite) (text : Text) : Option (State fl.Finite × Text) :=
  match text with
  | [] => none
  | c :: rest =>
    if isBare c || c = '"' || c = '\'' then keyValueRule fl st text
    else if c = '[' then
      match rest with
      | '[' :: rest => createListRule st rest
      | _ => createDictRule st rest
    else if c = '#' then some (st, text)
    else none

/-- `skip_comment`. -/
def skipComment : Text → Option Text
  | '#' :: rest =>
    let (comment, rest) := rest.span (· ≠ '\n')
    if comment.any isIllegal then none else some rest
  | text => some text

/-- The loop of `loads`: a line a turn. -/
def loop : ℕ → State fl.Finite → Text → Option (State fl.Finite)
  | 0, _, _ => none
  | n + 1, st, text =>
    match skipWs text with
    | [] => some st
    | '\n' :: rest => loop n st rest
    | c :: rest => do
      let (st, text) ← rule fl st (c :: rest)
      let text ← skipComment (skipWs text)
      match text with
      | [] => some st
      | '\n' :: text => loop n st text
      | _ => none

/-- `s.replace("\r\n", "\n")`. -/
def unixLines : Text → Text
  | [] => []
  | '\r' :: '\n' :: rest => '\n' :: unixLines rest
  | c :: rest => c :: unixLines rest

/-- `tomllib.loads(s)`.  Every turn of the loop takes a character, so the turns suffice. -/
def loads (s : Text) : Option (Members fl.Finite) :=
  let src := unixLines s
  (loop fl (src.length + 1) ⟨[], ⟨[], []⟩, [], []⟩ src).map State.data

end HsUploader.SinkSwitch
