/-!
# Tokens

The words of an abbreviation: six operators, six brackets, directives (`@`, `@-`, `@3`) and text.
Brackets and directives are reserved: they end a literal and mean nothing else.
-/

namespace MarkupShorthand

/-- One word of an abbreviation. -/
inductive Token where
  | child
  | sibling
  | climb
  | id
  | className
  | multiply
  | openBracket
  | closeBracket
  | openBrace
  | closeBrace
  | openParen
  | closeParen
  /-- An `@` with the `-` or the digits behind it. -/
  | directive (text : String)
  /-- Part of a name, of an attribute value or of a count. -/
  | text (text : String)
deriving DecidableEq

namespace Token

/-- The token that a character is on its own. -/
def ofSymbol? : Char → Option Token
  | '>' => some child
  | '+' => some sibling
  | '^' => some climb
  | '#' => some id
  | '.' => some className
  | '*' => some multiply
  | '[' => some openBracket
  | ']' => some closeBracket
  | '\x7b' => some openBrace
  | '\x7d' => some closeBrace
  | '(' => some openParen
  | ')' => some closeParen
  | _ => none

/-- The name of a token's kind. -/
def kind : Token → String
  | child => "Child"
  | sibling => "Sibling"
  | climb => "Climb"
  | id => "Id"
  | className => "Class"
  | multiply => "Multiply"
  | openBracket => "OpenBracket"
  | closeBracket => "CloseBracket"
  | openBrace => "OpenBrace"
  | closeBrace => "CloseBrace"
  | openParen => "OpenParen"
  | closeParen => "CloseParen"
  | directive _ => "Directive"
  | text _ => "Text"

/-- The characters of a directive or a text. -/
def text? : Token → Option String
  | directive content => some content
  | text content => some content
  | _ => none

end Token

end MarkupShorthand
