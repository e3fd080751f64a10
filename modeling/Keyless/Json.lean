/-
JSON values.

Numbers are integers: those from the least signed to the greatest unsigned
64-bit one are kept, and any other number is just `real`, since nothing here
takes one.  Objects keep their fields in order, repeated keys included, because
a reader of records has to notice both.

Three more constructors let a text that goes wrong be a value as well, so that a
decoder meets a fault in the text exactly where it stands among the other
faults: `broken` is where reading stopped, `unreadable` is a complete number or
string that has no value, and `nameless` stands in a field whose key is no
string with a value.
-/

namespace Keyless

/-- A JSON value, or as much of one as its text allowed. -/
inductive Json where
  | null
  | bool (value : Bool)
  | int (value : Int)
  /-- A number that is no 64-bit integer. -/
  | real
  | string (value : String)
  | array (items : List Json)
  | object (fields : List (String × Json))
  /-- The text is at fault from here on. -/
  | broken
  /-- A number beyond all range, or a string with half a surrogate pair. -/
  | unreadable
  /-- A field's value behind what stands for its key; the field then has the empty name. -/
  | nameless (key value : Json)
deriving Inhabited

namespace Json

/-- An unsigned number. -/
def nat (value : Nat) : Json := .int value

/-- A list of values, each by its own form. -/
def list {α : Type} (form : α → Json) (values : List α) : Json := .array (values.map form)

/-- A value that may be absent, as `null` when it is. -/
def orNull {α : Type} (form : α → Json) : Option α → Json
  | none => .null
  | some value => form value

/-- The field with a key, the last one if the key is repeated. -/
def field? (key : String) : Json → Option Json
  | .object fields => (fields.reverse.find? (·.1 = key)).map Prod.snd
  | _ => none

mutual

/-- Whether reading stopped inside the value. -/
def isFaulty : Json → Bool
  | .broken => true
  | .array items => anyFaulty items
  | .object fields => anyFieldFaulty fields
  | .nameless _ value => value.isFaulty
  | _ => false

/-- Whether reading stopped inside one of the values. -/
def anyFaulty : List Json → Bool
  | [] => false
  | item :: rest => item.isFaulty || anyFaulty rest

/-- Whether reading stopped inside one of the fields. -/
def anyFieldFaulty : List (String × Json) → Bool
  | [] => false
  | (_, value) :: rest => value.isFaulty || anyFieldFaulty rest

end

/-- Puts a field into a list in ascending order of keys, in place of one with its key. -/
def insertField (key : String) (value : Json) :
    List (String × Json) → List (String × Json)
  | [] => [(key, value)]
  | (other, otherValue) :: rest =>
    if key < other then (key, value) :: (other, otherValue) :: rest
    else if key = other then (key, value) :: rest
    else (other, otherValue) :: insertField key value rest

mutual

/-- The value with the fields of every object in ascending order, the last of equal keys. -/
def sorted : Json → Json
  | .array items => .array (sortedItems items)
  | .object fields => .object (sortedFields [] fields)
  | value => value

/-- Every value sorted. -/
def sortedItems : List Json → List Json
  | [] => []
  | item :: rest => item.sorted :: sortedItems rest

/-- The fields in ascending order, put into those already in order. -/
def sortedFields : List (String × Json) → List (String × Json) → List (String × Json)
  | done, [] => done
  | done, (key, value) :: rest => sortedFields (insertField key value.sorted done) rest

end

end Json

end Keyless
