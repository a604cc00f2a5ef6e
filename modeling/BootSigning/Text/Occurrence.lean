/-!
# Occurrences

* `Text.occursIn`: a text stands somewhere in another, without gaps
-/

namespace BootSigning.Text

/-- The first list stands somewhere in the second, without gaps. -/
def occursInChars (needle : List Char) : List Char → Bool
  | [] => needle.isEmpty
  | c :: rest => needle.isPrefixOf (c :: rest) || occursInChars needle rest

/-- The first text stands somewhere in the second, without gaps. -/
def occursIn (needle text : String) : Bool := occursInChars needle.toList text.toList

end BootSigning.Text
