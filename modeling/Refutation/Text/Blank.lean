import Refutation.Text.Range

/-!
The characters with the Unicode property White_Space.
-/

namespace Refutation.Text

/-- The ranges of the property White_Space, in order. -/
def blankRanges : List Range :=
  [⟨9, 13⟩, ⟨32, 32⟩, ⟨133, 133⟩, ⟨160, 160⟩, ⟨5760, 5760⟩, ⟨8192, 8202⟩, ⟨8232, 8233⟩, ⟨8239, 8239⟩,
   ⟨8287, 8287⟩, ⟨12288, 12288⟩]

/-- Whether a character is white space. -/
def isBlank (c : Char) : Bool := blankRanges.any (·.contains c)

end Refutation.Text
