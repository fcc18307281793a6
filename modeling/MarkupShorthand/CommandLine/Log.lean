import MarkupShorthand.Abbreviation.Event
import MarkupShorthand.Settings.Load
import MarkupShorthand.Text.Quoted

/-!
# The log of a run

What a run reports while it works: that it was asked to, its settings, and what the reader of the
abbreviation did.
-/

namespace MarkupShorthand

open Text

/-- The word for a level. -/
def Level.name : Level → String
  | debug => "DEBUG"
  | trace => "TRACE"

/-- A detail without quotes. -/
def EventField.plain : EventField → String
  | text content => content
  | number n => toString n

/-- Settings as a log shows them. -/
def Settings.describe (s : Settings) : String :=
  let numbering := match s.numbering with
    | .flat => "Flat"
    | .stacked => "Stacked"
  "EmmetConfig \x7b render: RenderConfig \x7b indent_string: " ++ quoted s.indent ++
    ", numbering: " ++ numbering ++ ", jumps: " ++ toString s.jumps ++
    " \x7d, cli: CliConfig \x7b format: " ++ quoted s.format ++ " \x7d \x7d"

/-- Something that a run reports. -/
inductive LogEntry where
  /-- The log is on. -/
  | enabled
  | loaded (settings : Settings)
  | reading (event : Event)
deriving DecidableEq

namespace LogEntry

/-- How much detail it is. -/
def level : LogEntry → Level
  | enabled => .debug
  | loaded _ => .debug
  | reading event => event.level

/-- The part of the program that reports it. -/
def target : LogEntry → String
  | enabled => "emmet"
  | loaded _ => "emmet"
  | reading _ => "emmet::abbrev::parsing::parser"

/-- What happened. -/
def message : LogEntry → String
  | enabled => "Verbose mode enabled"
  | loaded _ => "loaded configuration"
  | reading event => event.message

/-- The details as they are written, each with its name. -/
def details : LogEntry → List (String × String)
  | enabled => []
  | loaded settings => [("config", settings.describe)]
  | reading (.parsing abbreviation) => [("abbreviation", quoted abbreviation)]
  | reading (.applying operator literal) =>
    [("operator", quoted operator.symbol), ("literal", literal)]
  | reading event => event.fields.map fun (name, value) => (name, value.plain)

/-- The entry in one line, without its time. -/
def text (entry : LogEntry) : String :=
  entry.level.name ++ " " ++ entry.target ++ ": " ++ entry.message ++
    String.join (entry.details.map fun (name, value) => " " ++ name ++ "=" ++ value)

end LogEntry

end MarkupShorthand
