import MarkupShorthand.Text.WhiteSpace
import MarkupShorthand.Abbreviation.ParseError

/-!
# Lexemes

An abbreviation cut into tokens with their places. White space separates text and is otherwise
skipped; every token is the longest that starts at its place. A control character that is not white
space starts no token, and the first one refuses the abbreviation.
-/

namespace MarkupShorthand

open Text

/-- Whether a character is an ASCII control character. -/
def isControl (c : Char) : Bool :=
  c.toNat < 0x20 || c.toNat == 0x7F

/-- Whether a character can be part of a text. -/
def isTextChar (c : Char) : Bool :=
  !isWhiteSpace c && !isControl c && (Token.ofSymbol? c).isNone && c != '@'

/-- What belongs to a directive behind its `@`: one `-`, or digits, or nothing. -/
def directiveArgument : List Char → List Char
  | '-' :: _ => ['-']
  | chars => chars.takeWhile Char.isDigit

/-- The longest token that starts with `first`, and how many of the characters behind it belong to
it. White space and unknown characters start none. -/
def Token.starting? (first : Char) (rest : List Char) : Option (Token × Nat) :=
  match Token.ofSymbol? first with
  | some token => some (token, 0)
  | none =>
    if first = '@' then
      let argument := directiveArgument rest
      some (.directive (String.ofList (first :: argument)), argument.length)
    else if isTextChar first then
      let more := rest.takeWhile isTextChar
      some (.text (String.ofList (first :: more)), more.length)
    else none

/-- A token with the bytes of the abbreviation that it takes. -/
structure Lexeme where
  token : Token
  /-- The offset of the token's first byte. -/
  start : Nat
  /-- The offset behind the token's last byte. -/
  stop : Nat
deriving DecidableEq

/-- Cuts `chars`, which start at `offset`, and puts the lexemes behind those already read. -/
def scan (offset : Nat) (lexemes : Array Lexeme) : List Char → Except ParseError (Array Lexeme)
  | [] => .ok lexemes
  | c :: rest =>
    if isWhiteSpace c then scan (offset + c.utf8Size) lexemes rest
    else
      match Token.starting? c rest with
      | none => .error (.unknownToken c offset)
      | some (token, taken) =>
        let stop := offset + utf8Length (c :: rest.take taken)
        scan stop (lexemes.push ⟨token, offset, stop⟩) (rest.drop taken)
termination_by chars => chars.length
decreasing_by all_goals simp [List.length_drop]; try omega

/-- The lexemes of an abbreviation, or the first character that starts none. -/
def tokenize (source : String) : Except ParseError (List Lexeme) :=
  (scan 0 #[] source.toList).map Array.toList

end MarkupShorthand
