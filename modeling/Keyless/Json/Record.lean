/-
Decoding JSON values.

A record is decoded in one walk over the object's fields, in their order, so the
first fault in the text is the one reported.  A field whose key is known is
refused if the key came before, and decoded otherwise; any other field is passed
over.  Missing fields are noticed after the walk, in the order in which the
record declares its fields.

An array may stand for a record as well, with the values of the fields in that
order.  It is walked over like an object whose keys are the record's.

`Record α` describes such a walk: `required`, `optional` and `defaulted` describe
one field, and records combine as an applicative functor.
-/
import Keyless.ChainError
import Keyless.Json

namespace Keyless

/-- Why a JSON value, or the text of one, does not decode. -/
inductive DecodeError where
  /-- The text is no JSON. -/
  | brokenText
  /-- The value is of another JSON type, or a number out of range. -/
  | wrongType
  | missingField (key : String)
  | duplicateField (key : String)
  | unknownVariant (name : String) (known : List String)
  /-- The value is of a type that cannot name one of several choices. -/
  | notAChoice
  /-- An object names several choices; the first of them is in order. -/
  | crowdedChoice
  /-- An object names several choices; this is wrong with the first of them. -/
  | crowdedFault (first : DecodeError)
  /-- An array goes on behind the last field of a record; the fields are in order. -/
  | crowdedArray
  | illegalTime (seconds : Int)
  | notHexadecimal (fault : HexError)
  | chain (cause : ChainError)
deriving DecidableEq

namespace DecodeError

/-- A name between backticks. -/
def ticked (name : String) : String := "`" ++ name ++ "`"

/-- The known names of a choice, in prose. -/
def alternatives : List String → String
  | [a, b] => ticked a ++ " or " ++ ticked b
  | names => "one of " ++ String.intercalate ", " (names.map ticked)

/--
The error as a text shows it.  In a text the end of a choice or of an array is a matter
of the text, and the first fault in the text is the one that counts.
-/
def inText : DecodeError → DecodeError
  | .notAChoice | .crowdedChoice | .crowdedArray => .brokenText
  | .crowdedFault first => first.inText
  | fault => fault

/-- The error as a value shows it, where a choice is an object with one field. -/
def inValue : DecodeError → DecodeError
  | .notAChoice | .crowdedChoice | .crowdedFault _ | .crowdedArray => .wrongType
  | fault => fault

/-- The wording of an error; faults of the text and of types have none that is fixed. -/
def message : DecodeError → String
  | .brokenText => "invalid JSON"
  | .wrongType | .notAChoice | .crowdedChoice | .crowdedArray => "invalid type"
  | .crowdedFault first => first.message
  | .missingField key => "missing field " ++ ticked key
  | .duplicateField key => "duplicate field " ++ ticked key
  | .unknownVariant name known =>
    "unknown variant " ++ ticked name ++ ", expected " ++ alternatives known
  | .illegalTime seconds => "value is not a legal timestamp: " ++ toString seconds
  | .notHexadecimal fault => fault.message
  | .chain cause => cause.message

end DecodeError

namespace Json

/-- The refusal of a value that is not of the wanted type. -/
def refuse {α : Type} : Json → Except DecodeError α
  | .broken | .unreadable => .error .brokenText
  | _ => .error .wrongType

/-- A string. -/
def toText : Json → Except DecodeError String
  | .string text => .ok text
  | value => value.refuse

/-- An integer. -/
def toInteger : Json → Except DecodeError Int
  | .int value => .ok value
  | value => value.refuse

/-- A number from zero to `bound`. -/
def toBounded (bound : Nat) (value : Json) : Except DecodeError Nat := do
  let number ← value.toInteger
  if 0 ≤ number ∧ number ≤ bound then return number.toNat else throw .wrongType

/-- An unsigned 64-bit number. -/
def toUInt64 (value : Json) : Except DecodeError UInt64 :=
  UInt64.ofNat <$> value.toBounded (UInt64.size - 1)

/-- An octet. -/
def toUInt8 (value : Json) : Except DecodeError UInt8 := UInt8.ofNat <$> value.toBounded 255

/-- A truth value. -/
def toBool : Json → Except DecodeError Bool
  | .bool value => .ok value
  | value => value.refuse

/-- A list, item by item. -/
def toList {α : Type} (decode : Json → Except DecodeError α) : Json → Except DecodeError (List α)
  | .array items => items.mapM decode
  | value => value.refuse

/-- A value that `null` stands in for when it is absent. -/
def toOption {α : Type} (decode : Json → Except DecodeError α) :
    Json → Except DecodeError (Option α)
  | .null => .ok none
  | value => some <$> decode value

/-- A time in whole seconds. -/
def toTime (value : Json) : Except DecodeError Time := do
  let seconds ← value.toInteger
  match Time.ofSeconds? seconds with
  | some time => return time
  | none => throw (.illegalTime seconds)

/-- Octets in hexadecimal. -/
def toOctets (value : Json) : Except DecodeError Bytes := do
  let text ← value.toText
  match Hex.decode text with
  | .ok octets => return octets
  | .error fault => throw (.notHexadecimal fault)

/--
A choice: a name alone, if `plain` says so, or an object whose one field has the
name for its key.  `decode` gets the name and the field's value.  A key that is
no name is refused like any value that is not of the wanted type.
-/
def toChoice {α : Type} (plain : String → Except DecodeError α)
    (decode : String → Json → Except DecodeError α) : Json → Except DecodeError α
  | .string name => plain name
  | .broken | .unreadable => .error .brokenText
  | .object ((_, .nameless key _) :: _) => key.refuse
  | .object [(name, value)] => decode name value
  | .object ((name, value) :: _) =>
    match decode name value with
    | .ok _ => .error .crowdedChoice
    | .error first => .error (.crowdedFault first)
  | _ => .error .notAChoice

/-- A choice among names that carry nothing; in an object the name stands before `null`. -/
def toName {α : Type} (choices : List (String × α)) : Json → Except DecodeError α :=
  toChoice pick fun name value => do
    let choice ← pick name
    match value with
    | .null => return choice
    | value => value.refuse
where
  /-- The choice with a name. -/
  pick (name : String) : Except DecodeError α :=
    match choices.find? (·.1 = name) with
    | some (_, choice) => .ok choice
    | none => .error (.unknownVariant name (choices.map Prod.fst))

/-- Passes a value over, which only a fault in its text prevents. -/
def pass (value : Json) : Except DecodeError Unit :=
  if value.isFaulty then .error .brokenText else .ok ()

end Json

/-- A walk over the fields of an object that ends in an `α`. -/
structure Record (α : Type) where
  /-- The keys of the fields, in the order in which they are declared. -/
  keys : List String
  /-- What the walk has found so far. -/
  State : Type
  start : State
  /-- Takes one field, if its key is one of the record's. -/
  accept : State → String → Json → Option (Except DecodeError State)
  /-- The result, or the first field that is missing. -/
  finish : State → Except DecodeError α

namespace Record

/-- The field with the given key; `absent` is the result without it. -/
def field {α : Type} (key : String) (decode : Json → Except DecodeError α)
    (absent : Except DecodeError α) : Record α where
  keys := [key]
  State := Option α
  start := none
  accept found k value :=
    if k = key then
      match found with
      | some _ => some (.error (.duplicateField key))
      | none => some (some <$> decode value)
    else none
  finish
    | some value => .ok value
    | none => absent

/-- A field that must be there. -/
def required {α : Type} (key : String) (decode : Json → Except DecodeError α) : Record α :=
  field key decode (.error (.missingField key))

/-- A field that may be missing or `null`. -/
def optional {α : Type} (key : String) (decode : Json → Except DecodeError α) :
    Record (Option α) :=
  field key (Json.toOption decode) (.ok none)

/-- A field that has a default when missing, but not for `null`. -/
def defaulted {α : Type} (key : String) (decode : Json → Except DecodeError α) (default : α) :
    Record α :=
  field key decode (.ok default)

/-- A record that consists of two; of their faults at the end the first one's comes first. -/
def both {α β γ : Type} (combine : α → β → γ) (first : Record α) (second : Record β) :
    Record γ where
  keys := first.keys ++ second.keys
  State := first.State × second.State
  start := (first.start, second.start)
  accept state key value :=
    match first.accept state.1 key value with
    | some result => some (result.map (·, state.2))
    | none => (second.accept state.2 key value).map (·.map (state.1, ·))
  finish state := do
    let a ← first.finish state.1
    let b ← second.finish state.2
    return combine a b

instance : Functor Record where
  map f r := { r with finish := fun state => f <$> r.finish state }

instance : Seq Record where
  seq f r := both (fun g a => g a) f (r ())

/-- Walks over fields from a state. -/
def walk {α : Type} (r : Record α) : r.State → List (String × Json) → Except DecodeError r.State
  | state, [] => .ok state
  | _, (_, .nameless ..) :: _ => .error .brokenText
  | state, (key, value) :: rest =>
    match r.accept state key value with
    | some result => do
      let state ← result
      r.walk state rest
    | none => do
      value.pass
      r.walk state rest

/--
Decodes an object, or an array of the fields' values in the order of the fields.  An array may
end before fields that need not be there; one that ends too early is of the wrong type.
-/
def decode {α : Type} (r : Record α) : Json → Except DecodeError α
  | .object fields => do
    let state ← r.walk r.start fields
    r.finish state
  | .array items => do
    let state ← r.walk r.start (r.keys.zip items)
    let result ← (r.finish state).mapError fun _ => .wrongType
    if items.length ≤ r.keys.length then return result else throw .crowdedArray
  | value => value.refuse

end Record

/-- Decodes a value that was not read from a text: every object has its keys in order, once. -/
def Json.decodeSorted {α : Type} (decode : Json → Except DecodeError α) (value : Json) :
    Except DecodeError α :=
  (decode value.sorted).mapError DecodeError.inValue

end Keyless
