import MarkupShorthand.Toml.DateTime
import MarkupShorthand.Toml.Number

/-!
# TOML values and tables

The values of a document, and how its lines put them into tables. How a table came to be decides
who may add to it: one between braces is closed; one with a header is not defined again; one that
dotted keys made takes more dotted keys; one that is only implied by the headers of tables in it can
still get its own header.
-/

namespace MarkupShorthand

/-- How a table came to be. -/
inductive Toml.Origin where
  | braces
  | header
  | dottedKey
  | implied
deriving DecidableEq

/-- A TOML value. The entries of a table are in the order of their definition. -/
inductive Toml where
  | string (text : String)
  | integer (n : Int)
  | float (x : Toml.Float)
  | boolean (b : Bool)
  | dateTime (d : Toml.DateTime)
  | array (items : List Toml)
  | table (origin : Toml.Origin) (entries : List (String × Toml))
  /-- Tables under one repeated header; there is always a last one, which is the open one. -/
  | tables (earlier : List (List (String × Toml))) (last : List (String × Toml))

namespace Toml

/-- The entries of a table. -/
abbrev Entries := List (String × Toml)

namespace Entries

/-- The value of a key. -/
def get? (entries : Entries) (key : String) : Option Toml :=
  (entries.find? (·.1 == key)).map (·.2)

/-- The entries with the value of a key replaced, or added at the end. -/
def set (entries : Entries) (key : String) (value : Toml) : Entries :=
  if entries.any (·.1 == key) then
    entries.map fun entry => if entry.1 == key then (key, value) else entry
  else entries ++ [(key, value)]

/-- Changes the table at the end of a path, which starts in a table of some origin. Tables that are
missing on the way are made: by dotted keys or by headers, as `dotted` says. Dotted keys do not
lead into a table that has a header. -/
def within (dotted : Bool) (edit : Origin → Entries → Option Entries) :
    List String → Origin → Entries → Option Entries
  | [], origin, entries => edit origin entries
  | key :: path, _, entries =>
    match entries.get? key with
    | none => do
      let origin := if dotted then Origin.dottedKey else .implied
      return entries.set key (.table origin (← within dotted edit path origin []))
    | some (.table .braces _) => none
    | some (.table origin inner) =>
      if dotted ∧ origin = .header then none
      else do
        return entries.set key (.table origin (← within dotted edit path origin inner))
    | some (.tables earlier last) => do
      return entries.set key (.tables earlier (← within dotted edit path .header last))
    | some _ => none

/-- The entries with a value under a dotted key. Only the table that a plain key stands in may be
one that no dotted key made. -/
def insert? (origin : Origin) (entries : Entries) (path : List String) (key : String)
    (value : Toml) : Option Entries :=
  within true
    (fun reached inner =>
      if (reached = .dottedKey) ↔ path.isEmpty then none
      else if (inner.get? key).isSome then none
      else some (inner.set key value))
    path origin entries

/-- The entries with one of them moved behind the others, and its value replaced. -/
def setLast (entries : Entries) (key : String) (value : Toml) : Entries :=
  entries.filter (·.1 != key) ++ [(key, value)]

/-- The document with the table of a header opened. A table that was implied before counts from now
on as defined here, behind all others. -/
def openTable? (root : Entries) (path : List String) (key : String) : Option Entries :=
  within false
    (fun _ parent =>
      match parent.get? key with
      | none => some (parent.set key (.table .header []))
      | some (.table .implied inner) => some (parent.setLast key (.table .header inner))
      | some _ => none)
    path .header root

/-- The document with one more table of a repeated header opened. -/
def openNext? (root : Entries) (path : List String) (key : String) : Option Entries :=
  within false
    (fun _ parent =>
      match parent.get? key with
      | none => some (parent.set key (.tables [] []))
      | some (.tables earlier last) => some (parent.set key (.tables (earlier ++ [last]) []))
      | some _ => none)
    path .header root

/-- The document with a value under a dotted key in the table that was opened last. -/
def insertBelow? (root : Entries) (header path : List String) (key : String) (value : Toml) :
    Option Entries :=
  within false (fun origin entries => entries.insert? origin path key value) header .header root

end Entries

end Toml

end MarkupShorthand
