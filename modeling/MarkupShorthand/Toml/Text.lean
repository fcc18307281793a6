import MarkupShorthand.Toml.Number

/-!
# TOML strings and keys

Strings in their four forms, bare and quoted keys, blanks, line breaks and comments. A reader takes
the characters from its place on and gives back what follows; loops are bounded by a number of steps
that the caller sets to the length of the text.
-/

namespace MarkupShorthand.Toml

/-- Whether a character is a blank within a line. -/
def isBlank (c : Char) : Bool :=
  c == ' ' || c == '\t'

/-- A text without the blanks in front of it. -/
def skipBlanks (chars : List Char) : List Char :=
  chars.dropWhile isBlank

/-- Whether a character may stand in a comment, and in a string unless it ends it. -/
def isPlain (c : Char) : Bool :=
  c == '\t' || (0x20 ≤ c.toNat && c != '\x7f')

/-- What follows a line break, if there is one. -/
def lineBreak? : List Char → Option (List Char)
  | '\n' :: rest => some rest
  | '\r' :: '\n' :: rest => some rest
  | _ => none

/-- A text without the comment in front of it. -/
def skipComment : List Char → List Char
  | '#' :: rest => rest.dropWhile isPlain
  | chars => chars

/-- What follows the end of a line: blanks, a comment, and a line break or the end of the text. -/
def endOfLine? (chars : List Char) : Option (List Char) :=
  match skipComment (skipBlanks chars) with
  | [] => some []
  | rest => lineBreak? rest

/-- A text without the blanks, comments and line breaks in front of it, as between the items of a
list. -/
def skipLines : Nat → List Char → List Char
  | 0, chars => chars
  | steps + 1, chars =>
    let rest := skipComment (skipBlanks chars)
    match lineBreak? rest with
    | some next => skipLines steps next
    | none => rest

/-! ## Escapes -/

/-- The character with a code, if there is one. -/
def char? (code : Nat) : Option Char :=
  if h : code.isValidChar then some (Char.ofNatAux code h) else none

/-- The character that `n` hexadecimal digits stand for, and what follows them. -/
def hexChar? (n : Nat) (chars : List Char) : Option (Char × List Char) :=
  let digits := chars.take n
  if digits.length = n ∧ digits.all isHexDigit then
    (char? (ofDigits 16 digits)).map (·, chars.drop n)
  else none

/-- The character that an escape behind its backslash stands for, and what follows it. -/
def escape? : List Char → Option (Char × List Char)
  | 'b' :: rest => some ('\x08', rest)
  | 't' :: rest => some ('\t', rest)
  | 'n' :: rest => some ('\n', rest)
  | 'f' :: rest => some ('\x0c', rest)
  | 'r' :: rest => some ('\r', rest)
  | '\x22' :: rest => some ('\x22', rest)
  | '\\' :: rest => some ('\\', rest)
  | 'u' :: rest => hexChar? 4 rest
  | 'U' :: rest => hexChar? 8 rest
  | _ => none

/-! ## Strings -/

/-- The rest of a string between double quotes, and what follows it. -/
def basic? : Nat → List Char → Option (List Char × List Char)
  | 0, _ => none
  | _ + 1, [] => none
  | _ + 1, '\x22' :: rest => some ([], rest)
  | steps + 1, '\\' :: rest => do
    let (c, rest) ← escape? rest
    let (chars, after) ← basic? steps rest
    return (c :: chars, after)
  | steps + 1, c :: rest =>
    if isPlain c then do
      let (chars, after) ← basic? steps rest
      return (c :: chars, after)
    else none

/-- The rest of a string between single quotes, and what follows it. -/
def literal? : List Char → Option (List Char × List Char)
  | [] => none
  | '\x27' :: rest => some ([], rest)
  | c :: rest =>
    if isPlain c then do
      let (chars, after) ← literal? rest
      return (c :: chars, after)
    else none

/-- What a run of `quotes` means in a string of several lines: fewer than three belong to it, three
end it, and of up to five the surplus belongs to it. The number of quotes that belong to it is
given, and whether it ends. -/
def quoteRun? (quotes : Nat) : Option (Nat × Bool) :=
  if quotes < 3 then some (quotes, false)
  else if quotes ≤ 5 then some (quotes - 3, true)
  else none

/-- What follows a backslash at the end of a line: all blanks and line breaks are skipped. -/
def joinLines : Nat → List Char → List Char
  | 0, chars => chars
  | steps + 1, chars =>
    match lineBreak? (skipBlanks chars) with
    | some next => joinLines steps next
    | none => skipBlanks chars

/-- The rest of a string of several lines between runs of `quote`, and what follows it. Escapes
count only if `escapes` says so, and a line break is always a line feed. -/
def multiline? (quote : Char) (escapes : Bool) : Nat → List Char → Option (List Char × List Char)
  | 0, _ => none
  | _ + 1, [] => none
  | steps + 1, c :: rest =>
    if c = quote then do
      let run := (c :: rest).takeWhile (· == quote)
      let (inside, ends) ← quoteRun? run.length
      let behind := (c :: rest).drop run.length
      if ends then return (List.replicate inside quote, behind)
      else do
        let (chars, after) ← multiline? quote escapes steps behind
        return (run ++ chars, after)
    else if c = '\\' ∧ escapes then
      match lineBreak? (skipBlanks rest) with
      | some next => multiline? quote escapes steps (joinLines steps next)
      | none => do
        let (c, rest) ← escape? rest
        let (chars, after) ← multiline? quote escapes steps rest
        return (c :: chars, after)
    else
      match lineBreak? (c :: rest) with
      | some next => do
        let (chars, after) ← multiline? quote escapes steps next
        return ('\n' :: chars, after)
      | none =>
        if isPlain c then do
          let (chars, after) ← multiline? quote escapes steps rest
          return (c :: chars, after)
        else none

/-- A text without the line break in front of it, if there is one. -/
def dropLineBreak (chars : List Char) : List Char :=
  (lineBreak? chars).getD chars

/-- The string at the start of a text, and what follows it. -/
def string? (steps : Nat) : List Char → Option (String × List Char)
  | '\x22' :: '\x22' :: '\x22' :: rest =>
    (multiline? '\x22' true steps (dropLineBreak rest)).map fun (chars, after) =>
      (String.ofList chars, after)
  | '\x27' :: '\x27' :: '\x27' :: rest =>
    (multiline? '\x27' false steps (dropLineBreak rest)).map fun (chars, after) =>
      (String.ofList chars, after)
  | '\x22' :: rest => (basic? steps rest).map fun (chars, after) => (String.ofList chars, after)
  | '\x27' :: rest => (literal? rest).map fun (chars, after) => (String.ofList chars, after)
  | _ => none

/-! ## Keys -/

/-- Whether a character may stand in a key without quotes. -/
def isBareKeyChar (c : Char) : Bool :=
  c.isAlphanum || c == '-' || c == '_'

/-- One part of a key, and what follows it. A quoted part stands on one line. -/
def simpleKey? (steps : Nat) : List Char → Option (String × List Char)
  | '\x22' :: rest => (basic? steps rest).map fun (chars, after) => (String.ofList chars, after)
  | '\x27' :: rest => (literal? rest).map fun (chars, after) => (String.ofList chars, after)
  | chars =>
    match chars.takeWhile isBareKeyChar with
    | [] => none
    | name => some (String.ofList name, chars.dropWhile isBareKeyChar)

/-- A key has fewer parts than this. -/
def maxKeyParts : Nat := 80

/-- The parts of a key with points between them, and what follows it and the blanks around it. -/
def key? (steps : Nat) : Nat → List Char → Option (List String × List Char)
  | 0, _ => none
  | parts + 1, chars => do
    let (name, rest) ← simpleKey? steps (skipBlanks chars)
    match skipBlanks rest with
    | '.' :: rest =>
      let (more, after) ← key? steps parts rest
      return (name :: more, after)
    | after => return ([name], after)

end MarkupShorthand.Toml
