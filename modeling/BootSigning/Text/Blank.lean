/-!
# Blank characters

The characters with the property White_Space, and text without them at its two ends.

* `isBlank`: the property
* `trim`: the text between the first and the last character that is not blank
-/

namespace BootSigning.Text

def isBlank (c : Char) : Bool :=
  let v := c.toNat
  (0x09 ≤ v && v ≤ 0x0D) || v == 0x20 || v == 0x85 || v == 0xA0 || v == 0x1680 ||
    (0x2000 ≤ v && v ≤ 0x200A) || v == 0x2028 || v == 0x2029 || v == 0x202F || v == 0x205F ||
    v == 0x3000

/-- A list of characters without its longest blank beginning and its longest blank end. -/
def trimChars (cs : List Char) : List Char :=
  ((cs.dropWhile isBlank).reverse.dropWhile isBlank).reverse

/-- A text without its longest blank beginning and its longest blank end. -/
def trim (s : String) : String := String.ofList (trimChars s.toList)

end BootSigning.Text
