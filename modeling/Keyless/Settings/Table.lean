/-
What a settings file says: keys, and the values and tables that they lead to.

A table comes to be in one of four ways, and each has a rule of its own about
what may still be added to it.  A heading may name tables inside one that has a
heading, later or earlier, but only once each; keys with points only add to
tables that such keys have made; a table inside a line is complete.
-/

namespace Keyless

/-- A value that is no table. -/
inductive SettingValue where
  | flag (value : Bool)
  | number (value : Int)
  | text (value : String)
  /-- An array without items, which is the only kind that a setting can take. -/
  | emptyArray
deriving DecidableEq

/-- How a table came to be. -/
inductive TableOrigin where
  /-- A heading names a table inside it. -/
  | implied
  /-- It has a heading of its own. -/
  | headed
  /-- Keys with points between them lead into it. -/
  | dotted
  /-- It stands in braces inside a line. -/
  | enclosed
deriving DecidableEq

/-- What a key leads to. -/
inductive SettingItem where
  | value (value : SettingValue)
  | table (origin : TableOrigin) (entries : List (String × SettingItem))

/-- Keys in the order in which they came, none of them twice, and what they lead to. -/
abbrev SettingTable := List (String × SettingItem)

namespace SettingTable

/-- Changes what a key leads to, or adds the key, where the change allows it. -/
def alter? (key : String) (change : Option SettingItem → Option SettingItem) :
    SettingTable → Option SettingTable
  | [] => (change none).map fun item => [(key, item)]
  | (other, item) :: rest =>
    if other = key then (change (some item)).map fun item => (other, item) :: rest
    else (alter? key change rest).map ((other, item) :: ·)

/-- Changes the table that a heading's keys lead to. -/
def within? (change : SettingTable → Option SettingTable) :
    List String → SettingTable → Option SettingTable
  | [], table => change table
  | key :: path, table =>
    table.alter? key fun
      | none => (within? change path []).map (.table .implied)
      | some (.table .enclosed _) | some (.value _) => none
      | some (.table origin entries) => (within? change path entries).map (.table origin)

/-- The table with a heading's table in it, which no heading has named before. -/
def declare? (path : List String) (table : SettingTable) : Option SettingTable := do
  let key ← path.getLast?
  let give (parent : SettingTable) := parent.alter? key fun
    | none => some (.table .headed [])
    | some (.table .implied entries) => some (.table .headed entries)
    | some _ => none
  within? give path.dropLast table

/-- The table with an item under keys with points between them, which lead to nothing yet. -/
def assign? (item : SettingItem) : List String → SettingTable → Option SettingTable
  | [], _ => none
  | [key], table => table.alter? key fun
    | none => some item
    | some _ => none
  | key :: path, table =>
    table.alter? key fun
      | none => (assign? item path []).map (.table .dotted)
      | some (.table .dotted entries) => (assign? item path entries).map (.table .dotted)
      | some _ => none

end SettingTable

end Keyless
