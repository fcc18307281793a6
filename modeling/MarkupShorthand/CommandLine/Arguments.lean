/-!
# Command-line arguments

What the program is asked to do. Flags and parameters have long and mostly short names; short flags
combine, and the value of a parameter is attached (`-ix`, `-i=x`, `--indent=x`) or follows. A value
that follows does not start with a minus, except for a minus alone. Behind `--` nothing is a flag.
Arguments are read in order, and the first that cannot be accepted decides.
-/

namespace MarkupShorthand

/-- Something that is on or off. -/
inductive Flag where
  | jumps
  | stacked
  | preview
  | listFormats
  | verbose
deriving DecidableEq

/-- Something with a value. -/
inductive Parameter where
  | indent
  | format
  | config
deriving DecidableEq

/-- What a name starting with a minus asks for. -/
inductive Switch where
  | flag (flag : Flag)
  | parameter (parameter : Parameter)
  | version
  | help
deriving DecidableEq

/-- What a long name asks for. -/
def Switch.ofLong? : String → Option Switch
  | "jumps" => some (.flag .jumps)
  | "stacked" => some (.flag .stacked)
  | "preview" => some (.flag .preview)
  | "list-formats" => some (.flag .listFormats)
  | "verbose" => some (.flag .verbose)
  | "indent" => some (.parameter .indent)
  | "format" => some (.parameter .format)
  | "config" => some (.parameter .config)
  | "version" => some .version
  | "help" => some .help
  | _ => none

/-- What a short name asks for. -/
def Switch.ofShort? : Char → Option Switch
  | 'j' => some (.flag .jumps)
  | 's' => some (.flag .stacked)
  | 'v' => some (.flag .verbose)
  | 'i' => some (.parameter .indent)
  | 'f' => some (.parameter .format)
  | 'c' => some (.parameter .config)
  | 'V' => some .version
  | 'h' => some .help
  | _ => none

/-- Why arguments were refused. -/
inductive UsageError where
  | unknownArgument (argument : String)
  | unexpectedValue (name : String)
  | missingValue (parameter : Parameter)
  | repeatedFlag (flag : Flag)
  | repeatedParameter (parameter : Parameter)
  /-- A preview is always markup. -/
  | previewWithFormat
deriving DecidableEq

/-- The long name of a flag. -/
def Flag.name : Flag → String
  | jumps => "--jumps"
  | stacked => "--stacked"
  | preview => "--preview"
  | listFormats => "--list-formats"
  | verbose => "--verbose"

/-- The long name of a parameter. -/
def Parameter.name : Parameter → String
  | indent => "--indent"
  | format => "--format"
  | config => "--config"

/-- The sentence shown to the user. -/
def UsageError.message : UsageError → String
  | unknownArgument argument => s!"unexpected argument '{argument}' found"
  | unexpectedValue name => s!"unexpected value for '--{name}' found; no more were expected"
  | missingValue parameter => s!"a value is required for '{parameter.name}' but none was supplied"
  | repeatedFlag flag => s!"the argument '{flag.name}' cannot be used multiple times"
  | repeatedParameter parameter =>
    s!"the argument '{parameter.name}' cannot be used multiple times"
  | previewWithFormat => "the argument '--preview' cannot be used with '--format'"

/-- A request to expand an abbreviation or to list the formats. -/
structure Invocation where
  abbreviation : Option String := none
  flags : List Flag := []
  indent : Option String := none
  format : Option String := none
  config : Option String := none
deriving DecidableEq

/-- What the program is asked to do. -/
inductive Request where
  | run (invocation : Invocation)
  | version
  | help
deriving DecidableEq

namespace Invocation

/-- Whether a flag is on. -/
def has (inv : Invocation) (flag : Flag) : Bool :=
  inv.flags.contains flag

/-- The value of a parameter. -/
def get? (inv : Invocation) : Parameter → Option String
  | .indent => inv.indent
  | .format => inv.format
  | .config => inv.config

/-- The invocation with a flag on that was off. -/
def turnOn (inv : Invocation) (flag : Flag) : Except UsageError Invocation :=
  if inv.has flag then .error (.repeatedFlag flag)
  else .ok { inv with flags := inv.flags ++ [flag] }

/-- The invocation with a value for a parameter that had none. -/
def give (inv : Invocation) (parameter : Parameter) (value : String) :
    Except UsageError Invocation :=
  if (inv.get? parameter).isSome then .error (.repeatedParameter parameter)
  else
    match parameter with
    | .indent => .ok { inv with indent := some value }
    | .format => .ok { inv with format := some value }
    | .config => .ok { inv with config := some value }

/-- The invocation with an abbreviation where there was none. -/
def name (inv : Invocation) (text : String) : Except UsageError Invocation :=
  if inv.abbreviation.isSome then .error (.unknownArgument text)
  else .ok { inv with abbreviation := some text }

/-- What an argument leads to: the invocation so far and the parameter whose value must follow, or a
request that the remaining arguments do not change. -/
inductive Next where
  | more (inv : Invocation) (awaited : Option Parameter)
  | done (request : Request)

/-- Reads short names behind one minus. -/
def readShort (inv : Invocation) : List Char → Except UsageError Next
  | [] => .ok (.more inv none)
  | c :: rest =>
    match Switch.ofShort? c with
    | none => .error (.unknownArgument (String.ofList ['-', c]))
    | some .version => .ok (.done .version)
    | some .help => .ok (.done .help)
    | some (.flag flag) => do
      let inv ← inv.turnOn flag
      inv.readShort rest
    | some (.parameter parameter) =>
      match rest with
      | [] => .ok (.more inv (some parameter))
      | '=' :: value => return .more (← inv.give parameter (String.ofList value)) none
      | value => return .more (← inv.give parameter (String.ofList value)) none

/-- Reads a long name and the value attached to it, if there is one. -/
def readLong (inv : Invocation) (name : String) (value : Option String) :
    Except UsageError Next :=
  match Switch.ofLong? name, value with
  | none, _ => .error (.unknownArgument ("--" ++ name))
  | some (.parameter parameter), some value => return .more (← inv.give parameter value) none
  | some (.parameter parameter), none => .ok (.more inv (some parameter))
  | some _, some _ => .error (.unexpectedValue name)
  | some (.flag flag), none => return .more (← inv.turnOn flag) none
  | some .version, none => .ok (.done .version)
  | some .help, none => .ok (.done .help)

/-- What is before the first equals sign, and what is behind it. -/
def splitValue (chars : List Char) : String × Option String :=
  let name := String.ofList (chars.takeWhile (· != '='))
  match chars.dropWhile (· != '=') with
  | [] => (name, none)
  | _ :: value => (name, some (String.ofList value))

/-- Reads one argument where a name may stand; `--` is none. -/
def readArgument (inv : Invocation) (argument : String) : Except UsageError Next :=
  match argument.toList with
  | '-' :: '-' :: rest =>
    let (name, value) := splitValue rest
    inv.readLong name value
  | '-' :: c :: rest => inv.readShort (c :: rest)
  | _ => return .more (← inv.name argument) none

/-- Whether an argument cannot be a value that follows its parameter. -/
def startsSwitch (argument : String) : Bool :=
  match argument.toList with
  | '-' :: _ :: _ => true
  | _ => false

/-- The request of a complete invocation. -/
def finish (inv : Invocation) : Except UsageError Request :=
  if inv.has .preview ∧ inv.format.isSome then .error .previewWithFormat else .ok (.run inv)

/-- Reads arguments that are no names. -/
def readPlain (inv : Invocation) : List String → Except UsageError Request
  | [] => inv.finish
  | argument :: rest => do
    let inv ← inv.name argument
    inv.readPlain rest

/-- Reads arguments, the first of which is the value of an awaited parameter if there is one. -/
def read (inv : Invocation) : Option Parameter → List String → Except UsageError Request
  | none, [] => inv.finish
  | some parameter, [] => .error (.missingValue parameter)
  | some parameter, argument :: rest =>
    if startsSwitch argument then .error (.missingValue parameter)
    else do
      let inv ← inv.give parameter argument
      inv.read none rest
  | none, argument :: rest =>
    if argument = "--" then inv.readPlain rest
    else do
      match ← inv.readArgument argument with
      | .more inv awaited => inv.read awaited rest
      | .done request => return request

end Invocation

/-- What arguments ask for. -/
def Request.ofArguments (arguments : List String) : Except UsageError Request :=
  ({} : Invocation).read none arguments

end MarkupShorthand
