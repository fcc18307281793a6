/-!
# White space

The characters with the Unicode property `White_Space`, and trimming by them.

* `isWhiteSpace`: membership in the property;
* `trim`: a text without the white space around it.
-/

namespace MarkupShorthand.Text

/-- The code points with the property `White_Space`, as ranges with both ends included. -/
def whiteSpaceRanges : List (Nat × Nat) :=
  [(0x09, 0x0D), (0x20, 0x20), (0x85, 0x85), (0xA0, 0xA0), (0x1680, 0x1680), (0x2000, 0x200A),
   (0x2028, 0x2029), (0x202F, 0x202F), (0x205F, 0x205F), (0x3000, 0x3000)]

/-- Whether a character has the property `White_Space`. -/
def isWhiteSpace (c : Char) : Bool :=
  whiteSpaceRanges.any fun range => range.1 ≤ c.toNat && c.toNat ≤ range.2

/-- A text without the white space at its start and at its end. -/
def trim (text : String) : String :=
  let started := text.toList.dropWhile isWhiteSpace
  String.ofList (started.reverse.dropWhile isWhiteSpace).reverse

/-- The number of bytes that characters take in UTF-8. -/
def utf8Length (chars : List Char) : Nat :=
  chars.foldr (fun c length => c.utf8Size + length) 0

@[simp] theorem utf8Length_nil : utf8Length [] = 0 := rfl

@[simp] theorem utf8Length_cons (c : Char) (chars : List Char) :
    utf8Length (c :: chars) = c.utf8Size + utf8Length chars := rfl

@[simp] theorem utf8Length_append (before after : List Char) :
    utf8Length (before ++ after) = utf8Length before + utf8Length after := by
  induction before with
  | nil => simp
  | cons c before ih => simp [ih, Nat.add_assoc]

end MarkupShorthand.Text
