/-!
# Lower case

Lower case for comparing with words in ASCII letters. Outside ASCII, the Kelvin sign alone has an
ASCII letter for its lower case; every other character stays as it is, and no word has it.
-/

namespace MarkupShorthand.Text

/-- A character in lower case. -/
def lowerChar (c : Char) : Char :=
  if 'A' ≤ c ∧ c ≤ 'Z' then Char.ofNat (c.toNat + 32)
  else if c = '\u212a' then 'k'
  else c

/-- A text in lower case. -/
def lower (text : String) : String :=
  String.ofList (text.toList.map lowerChar)

end MarkupShorthand.Text
