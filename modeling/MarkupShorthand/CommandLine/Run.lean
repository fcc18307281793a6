import MarkupShorthand.Abbreviation.Parse
import MarkupShorthand.CommandLine.Arguments
import MarkupShorthand.CommandLine.Log
import MarkupShorthand.Format

/-!
# Running the program

What the program prints and with which code it ends, as a function of its arguments, the settings
files, the bytes of its input and what the environment lets through to the log. The input is asked
for only where it matters (`Progress`). The order of decisions is: arguments, settings, the list of
formats, an unknown format, unreadable input, blank input, an abbreviation that cannot be read, and
the tree. The log goes to the stream of errors, in front of them; an outcome keeps it apart, as its
lines have the time in them (`Outcome.stderr`).
-/

namespace MarkupShorthand

open Text

/-- What a run of the program leaves behind. -/
structure Outcome where
  code : Nat
  output : String := ""
  /-- Why the run failed. -/
  errors : String := ""
  /-- What was logged, all of it before the errors. -/
  log : List LogEntry := []
deriving DecidableEq

/-- The name and version of the program. -/
def versionText : String := "emmet 0.1.0"

/-- What is printed for a blank abbreviation. -/
def syntaxHint : String := "Syntax: http://docs.emmet.io/abbreviations/syntax/"

/-- How the program is used. -/
def usageText : String :=
  "Usage: emmet [OPTIONS] [ABBREVIATION]\n\n" ++
  "  -j, --jumps          Emit $N tab stops for a snippet engine\n" ++
  "  -s, --stacked        Keep numbering across nested multiplications\n" ++
  "  -i, --indent <STR>   Indentation unit (default: tab)\n" ++
  "  -f, --format <NAME>  Output format (tag, treeviz, json)\n" ++
  "  -c, --config <FILE>  Configuration file layered over the defaults and .emmet.toml\n" ++
  "      --preview        Print the silent preview and the tab-stop render of the same tree\n" ++
  "      --list-formats   List available output formats\n" ++
  "  -v, --verbose        Log parser decisions to stderr\n" ++
  "  -h, --help           Print help\n" ++
  "  -V, --version        Print version\n"

namespace Outcome

/-- A run that succeeds. -/
def success (output : String) (log : List LogEntry := []) : Outcome :=
  { code := 0, output, log }

/-- A run that fails with a sentence, and lines that show the place of the fault. -/
def failure (message : String) (log : List LogEntry) (diagnostic : String := "") : Outcome :=
  { code := 1, errors := "error: " ++ message ++ "\n" ++ diagnostic, log }

/-- The lines of the log, with its `n`th entry as `line n` writes it, which knows the time. -/
def logged (o : Outcome) (line : Nat → LogEntry → String) : String :=
  String.join (o.log.mapIdx line)

/-- All that is printed to the stream of errors. -/
def stderr (o : Outcome) (line : Nat → LogEntry → String) : String :=
  o.logged line ++ o.errors

end Outcome

/-! ## Faults in an abbreviation -/

/-- The number of characters before the byte at an offset, if a character starts or the text ends
there. -/
def columnAt? : List Char → Nat → Option Nat
  | _, 0 => some 0
  | [], _ + 1 => none
  | c :: rest, offset + 1 =>
    if c.utf8Size ≤ offset + 1 then (columnAt? rest (offset + 1 - c.utf8Size)).map (· + 1) else none

/-- The abbreviation with a caret in the column of a fault on the next line. -/
def diagnostic? (abbreviation : String) (e : ParseError) : Option String := do
  let column ← columnAt? abbreviation.toList (← e.offset?)
  return "  " ++ abbreviation ++ "\n  " ++ "".pushn ' ' column ++ "^\n"

/-! ## Output -/

/-- The list of formats, one per line with its description. -/
def Registry.listing (r : Registry) : String :=
  let line (name : String) : String :=
    let description := ((r.get? name).map Formatter.description).getD ""
    "  " ++ name ++ "".pushn ' ' (8 - name.length) ++ " " ++ description ++ "\n"
  "Available formats:\n\n" ++ String.join (r.names.map line)

/-- The plain markup of a tree, and the markup with tab stops. -/
def Arena.preview (t : Arena) (options : RenderOptions) : String :=
  t.render { options with mode := .silent } ++ "\n---\n" ++
    t.render { options with mode := .counting } ++ "\n"

namespace Invocation

/-- The layers of settings that an invocation asks for: the project's file, the named file, and what
is given as arguments. -/
def layers (inv : Invocation) : List Settings.Layer :=
  [.file ".emmet.toml" false] ++
  (inv.config.map (Settings.Layer.file · true)).toList ++
  (if inv.has .jumps then [.value "render.jumps" (.boolean true)] else []) ++
  (if inv.has .stacked then [.value "render.numbering" (.text "stacked")] else []) ++
  (inv.indent.map (Settings.Layer.value "render.indent_string" <| .text ·)).toList ++
  (inv.format.map (Settings.Layer.value "cli.format" <| .text ·)).toList

/-- Those entries that are logged: with `--verbose` all but traces, and otherwise what the
environment lets through. -/
def log (inv : Invocation) (admits : LogEntry → Bool) (entries : List LogEntry) : List LogEntry :=
  entries.filter fun entry => if inv.has .verbose then entry.level == .debug else admits entry

/-- Expands a text and prints the tree. -/
def expand (inv : Invocation) (settings : Settings) (registry : Registry)
    (admits : LogEntry → Bool) (text : String) : Outcome :=
  let abbreviation := trim text
  if abbreviation.isEmpty then
    .success (syntaxHint ++ "\n") (inv.log admits [.enabled, .loaded settings])
  else
    let reading := parseLogged abbreviation
    let log := inv.log admits <|
      [.enabled, .loaded settings] ++ reading.events.toList.map LogEntry.reading
    match reading.result with
    | .error e => .failure e.message log ((diagnostic? abbreviation e).getD "")
    | .ok t =>
      if inv.has .preview then .success (t.preview settings.options) log
      else
        match registry.write t settings.format with
        | .ok written => .success (written ++ "\n") log
        | .error e => .failure e.message log

end Invocation

/-- How far a run gets without its input. -/
inductive Progress where
  | finished (outcome : Outcome)
  | awaitsInput (next : ByteArray → Outcome)

/-- A run up to the point where it needs its input. -/
def Invocation.start (inv : Invocation) (files : Files) (admits : LogEntry → Bool) : Progress :=
  match Settings.load files inv.layers with
  | .error e =>
    .finished (.failure ("configuration error: " ++ e.message) (inv.log admits [.enabled]))
  | .ok settings =>
    let registry := Registry.builtIn settings.options
    let log := inv.log admits [.enabled, .loaded settings]
    if inv.has .listFormats then .finished (.success registry.listing log)
    else if !registry.has settings.format then
      .finished (.failure (FormatError.notFound settings.format).message log)
    else
      match inv.abbreviation with
      | some text => .finished (inv.expand settings registry admits text)
      | none => .awaitsInput fun bytes =>
        match String.fromUTF8? bytes with
        | some text => inv.expand settings registry admits text
        | none => .failure "stream did not contain valid UTF-8" log

/-- A run from its arguments up to the point where it needs its input. An environment that asks for
no log lets nothing through. -/
def start (arguments : List String) (files : Files) (admits : LogEntry → Bool := fun _ => false) :
    Progress :=
  match Request.ofArguments arguments with
  | .error e => .finished { code := 2, errors := "error: " ++ e.message ++ "\n\n" ++ usageText }
  | .ok .version => .finished (.success (versionText ++ "\n"))
  | .ok .help => .finished (.success usageText)
  | .ok (.run inv) => inv.start files admits

/-- A run of the program. -/
def run (arguments : List String) (files : Files) (input : ByteArray)
    (admits : LogEntry → Bool := fun _ => false) : Outcome :=
  match start arguments files admits with
  | .finished outcome => outcome
  | .awaitsInput next => next input

end MarkupShorthand
