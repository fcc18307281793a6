import MarkupShorthand.Text.Case
import MarkupShorthand.Toml.Table

/-!
# Setting values

What a layer of settings holds before anyone asks for types: plain values, lists and tables. Keys of
tables are in lower case. `put` and `putAll` lay one value over another: tables are merged key by
key, and anything else is replaced.
-/

namespace MarkupShorthand

open Text

/-- A value of a setting. -/
inductive Setting where
  /-- The place of a value that was never given. -/
  | absent
  | boolean (b : Bool)
  | integer (n : Int)
  | float (x : Toml.Float)
  | text (content : String)
  | list (items : List Setting)
  | table (entries : List (String × Setting))

namespace Setting

instance : Inhabited Setting := ⟨.absent⟩

/-- The value of a key in a list of entries. -/
def lookup (entries : List (String × Setting)) (key : String) : Option Setting :=
  (entries.find? (·.1 == key)).map (·.2)

/-- The entries with the value of a key changed; a missing key has no value before. -/
def alter (entries : List (String × Setting)) (key : String) (f : Option Setting → Setting) :
    List (String × Setting) :=
  if entries.any (·.1 == key) then
    entries.map fun entry => if entry.1 == key then (key, f (some entry.2)) else entry
  else entries ++ [(key, f none)]

/-- The entries of a table; any other value gives way to an empty table. -/
def entries : Setting → List (String × Setting)
  | table entries => entries
  | _ => []

/-- The items of a list; any other value gives way to an empty list. -/
def items : Setting → List Setting
  | list items => items
  | _ => []

mutual

/-- A table with a value laid over the one of a key. A table is merged into what is there; where
nothing is there, an empty table is. -/
def put (base : Setting) (key : String) : Setting → Setting
  | table incoming =>
    .table (alter base.entries (lower key) fun existing =>
      putAll (existing.getD (.table [])) incoming)
  | value => .table (alter base.entries (lower key) fun _ => value)

/-- A value with entries laid over it in order. -/
def putAll (base : Setting) : List (String × Setting) → Setting
  | [] => base
  | (key, value) :: rest => putAll (put base key value) rest

end

/-- The first key of a table that stands for a date or time. -/
def dateTimeKey : String := "$__toml_private_datetime"

/-- The date or time that the value of `dateTimeKey` gives, as a setting. -/
def ofDateTimeText? : Toml → Option Setting
  | .string content => (Toml.DateTime.ofText? content).map fun d => .text d.text
  | _ => none

mutual

/-- A TOML value as a setting. Dates and times are texts. There is none if a table stands for a date
or time and its text is no such thing. -/
def ofToml? : Toml → Option Setting
  | .string content => some (.text content)
  | .integer n => some (.integer n)
  | .float x => some (.float x)
  | .boolean b => some (.boolean b)
  | .dateTime d => some (.text d.text)
  | .array items => (ofItems? items).map .list
  | .table _ entries => ofTable? entries
  | .tables earlier last => do return .list ((← ofTables? earlier) ++ [← ofTable? last])

/-- The items of a TOML list as settings. -/
def ofItems? : List Toml → Option (List Setting)
  | [] => some []
  | item :: rest => do return (← ofToml? item) :: (← ofItems? rest)

/-- A TOML table as a setting: one that starts with `dateTimeKey` is a date or time, whatever else
there is in it. -/
def ofTable? : List (String × Toml) → Option Setting
  | [] => some (.table [])
  | (key, value) :: rest =>
    if key = dateTimeKey then ofDateTimeText? value
    else do return .table ((key, ← ofToml? value) :: (← ofEntries? rest))

/-- The entries of a TOML table as settings. -/
def ofEntries? : List (String × Toml) → Option (List (String × Setting))
  | [] => some []
  | (key, value) :: rest => do return (key, ← ofToml? value) :: (← ofEntries? rest)

/-- TOML tables as settings. -/
def ofTables? : List (List (String × Toml)) → Option (List Setting)
  | [] => some []
  | entries :: rest => do return (← ofTable? entries) :: (← ofTables? rest)

end

/-! ## Types -/

/-- A setting as a truth value: a number other than zero is true, and there are four words each. -/
def toBool? : Setting → Option Bool
  | .boolean b => some b
  | .integer n => some (n != 0)
  | .float x => some !x.isZero
  | .text content =>
    let word := lower content
    if word ∈ ["1", "true", "on", "yes"] then some true
    else if word ∈ ["0", "false", "off", "no"] then some false
    else none
  | _ => none

/-- A setting as a text: plain values are written out. -/
def toText? : Setting → Option String
  | .text content => some content
  | .boolean b => some (if b then "true" else "false")
  | .integer n => some (toString n)
  | .float x => some x.text
  | _ => none

/-- A setting as one of several words in any case: a text, or the key of a table that has one. -/
def toWord? (words : List String) (setting : Setting) : Option String :=
  match setting with
  | text content => words.find? (· == lower content)
  | table [(key, _)] => words.find? (· == lower key)
  | _ => none

/-- The values of a record's fields in order: of a table by name, of a list by position. -/
def toRecord? (names : List String) : Setting → Option (List Setting)
  | table entries => names.mapM (lookup entries)
  | list items => if names.length ≤ items.length then some (items.take names.length) else none
  | _ => none

end Setting

end MarkupShorthand
