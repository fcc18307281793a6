import MarkupShorthand.Markup.Options
import MarkupShorthand.Settings.Files
import MarkupShorthand.Settings.KeyPath
import MarkupShorthand.Toml.Reader

/-!
# Settings

How markup is written and in which format, from layers: defaults, then files in order, then single
values on top of all files. Every layer may be partial; only what they come to has to be complete
and of the right types.
-/

namespace MarkupShorthand

/-- The settings of the program. -/
structure Settings where
  /-- One level of indentation. -/
  indent : String := "\t"
  numbering : Numbering := .flat
  /-- Whether markup has tab stops. -/
  jumps : Bool := false
  /-- The name of the output format. -/
  format : String := "tag"
deriving DecidableEq

namespace Settings

/-- The mode that markup is written in. -/
def mode (s : Settings) : RenderMode :=
  if s.jumps then .counting else .silent

/-- The options that markup is written with. -/
def options (s : Settings) : RenderOptions :=
  ⟨s.mode, s.numbering, s.indent⟩

/-- Why there are no settings. -/
inductive Failure where
  /-- There is no file, or none that can be read as text. -/
  | missingFile (path : String)
  | malformedFile (path : String)
  | malformedKey (key : String)
  /-- A value is missing or of the wrong type. -/
  | unfit
deriving DecidableEq

/-- The sentence shown to the user. -/
def Failure.message : Failure → String
  | missingFile path => s!"configuration file \"{path}\" not found"
  | malformedFile path => s!"configuration file \"{path}\" is not valid TOML"
  | malformedKey key => s!"invalid configuration key \"{key}\""
  | unfit => "a configuration value is missing or of the wrong type"

/-- One layer over those before it. -/
inductive Layer where
  /-- A file that must exist, or one that need not. -/
  | file (path : String) (isRequired : Bool)
  /-- A single value, which goes on top of all files. -/
  | value (key : String) (value : Setting)

/-- The settings that no other layer has to give, as a table. -/
def defaults : Setting :=
  let s : Settings := {}
  .table [
    ("render", .table [
      ("indent_string", .text s.indent),
      ("numbering", .text s.numbering.name),
      ("jumps", .boolean s.jumps)]),
    ("cli", .table [("format", .text s.format)])]

/-- The table with a file laid over it. -/
def putFile (files : Files) (base : Setting) (path : String) (isRequired : Bool) :
    Except Failure Setting :=
  match files.settings? path with
  | none => if isRequired then .error (.missingFile path) else .ok base
  | some text =>
    match (Toml.document? text).bind Setting.ofTable? with
    | some (.table entries) => .ok (base.putFile entries)
    | _ => .error (.malformedFile path)

/-- The table with the files among some layers laid over it in order. -/
def putFiles (files : Files) (base : Setting) : List Layer → Except Failure Setting
  | [] => .ok base
  | .file path isRequired :: rest => do
    let base ← putFile files base path isRequired
    putFiles files base rest
  | .value _ _ :: rest => putFiles files base rest

/-- The table with the single values among some layers laid over it in order. -/
def putValues (base : Setting) : List Layer → Except Failure Setting
  | [] => .ok base
  | .file _ _ :: rest => putValues base rest
  | .value key value :: rest =>
    match KeyPath.ofText? key with
    | none => .error (.malformedKey key)
    | some path => putValues (path.put value base) rest

/-- The settings in a table. -/
def ofSetting? (root : Setting) : Option Settings := do
  let [render, cli] ← root.toRecord? ["render", "cli"] | none
  let [indent, numbering, jumps] ← render.toRecord? ["indent_string", "numbering", "jumps"] | none
  let [format] ← cli.toRecord? ["format"] | none
  return {
    indent := ← indent.toText?
    numbering := ← Numbering.ofName? (← numbering.toWord? [Numbering.flat.name, Numbering.stacked.name])
    jumps := ← jumps.toBool?
    format := ← format.toText? }

/-- The settings that layers come to. -/
def load (files : Files) (layers : List Layer) : Except Failure Settings := do
  let table ← putFiles files defaults layers
  let table ← putValues table layers
  match ofSetting? table with
  | some settings => .ok settings
  | none => .error .unfit

end Settings

end MarkupShorthand
