import HsUploader.SinkSwitch.Dumps

/-!
# Reading a switch file: `read_switch`

`_parse` turns what stands at a path into a `SwitchRead`.  `tomllib.loads` and the texts of its
errors, of `UnicodeDecodeError` and of `repr` are the interpreter's.
-/

set_option autoImplicit false

namespace HsUploader.SinkSwitch

/-- What `tomllib.loads` raises: its own error, or another one, as for a number of too many
digits. -/
inductive LoadError where
  | decodeError (text : Text)
  | other (e : Exn)

/-- What the interpreter brings. -/
structure Interpreter (F : Type) where
  /-- `tomllib.loads(text)`. -/
  loads : Text → Except LoadError (Members F)
  /-- The text of the `UnicodeDecodeError` for bytes. -/
  undecodable : Bytes → Text
  /-- `f"{state!r}"`. -/
  reprState : Option (Value F) → Text

/-- `STATES`. -/
def states : List Text := ["off".toList, "fill".toList, "upload".toList]

/-- `SwitchRead`. -/
structure SwitchRead (F : Type) where
  state : Option Text
  missing : Bool
  error : Text
  data : Members F := []
  failed : Bool := false

/-- `raw.decode("utf-8")`. -/
def decodeUtf8 (raw : Bytes) : Option Text := (String.fromUTF8? ⟨⟨raw⟩⟩).map String.toList

/-- `text.encode("utf-8")`. -/
def encodeUtf8 (text : Text) : Bytes := (String.ofList text).toByteArray.data.toList

theorem decodeUtf8_encodeUtf8 (text : Text) : decodeUtf8 (encodeUtf8 text) = some text := by
  have hstring (s : String) : String.fromUTF8? ⟨⟨s.toByteArray.data.toList⟩⟩ = some s := by
    simp [String.fromUTF8?, String.fromUTF8, s.isValidUTF8]
  rw [decodeUtf8, encodeUtf8, hstring, Option.map_some, String.toList_ofList]

section

variable {F : Type}

/-- What a missing file reads as. -/
def SwitchRead.absent : SwitchRead F where
  state := none
  missing := true
  error := []

/-- What a file reads as that cannot be looked at or read. -/
def SwitchRead.unreadable (path e : Text) : SwitchRead F where
  state := none
  missing := false
  error := path ++ ": unreadable: ".toList ++ e
  failed := true

/-- What a file reads as that is no TOML. -/
def SwitchRead.parseError (path e : Text) : SwitchRead F where
  state := none
  missing := false
  error := path ++ ": parse error: ".toList ++ e
  failed := true

/-- `data.get("state")`, where it is one of `STATES`. -/
def stateOf (data : Members F) : Option Text :=
  match data.lookup "state".toList with
  | some (.str s) => if s ∈ states then some s else none
  | _ => none

/-- What data read as. -/
def SwitchRead.ofData (it : Interpreter F) (path : Text) (data : Members F) : SwitchRead F :=
  match stateOf data with
  | some s => { state := some s, missing := false, error := [], data }
  | none =>
    { state := none
      missing := false
      error := path ++ ": state ".toList ++ it.reprState (data.lookup "state".toList) ++
        " is not one of off/fill/upload".toList
      data }

/-- `_parse(path)`, where the file at the path, if there is one, can be read. -/
def parse (it : Interpreter F) (path : Text) : Option Bytes → Except Exn (SwitchRead F)
  | none => .ok .absent
  | some raw =>
    match decodeUtf8 raw with
    | none => .ok (.parseError path (it.undecodable raw))
    | some text =>
      match it.loads text with
      | .ok data => .ok (.ofData it path data)
      | .error (.decodeError e) => .ok (.parseError path e)
      | .error (.other e) => .error e

end

end HsUploader.SinkSwitch
