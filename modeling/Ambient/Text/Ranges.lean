/-!
# Tables of code point ranges

A character class beyond ASCII is a list of closed ranges of code points.
-/

namespace Ambient
namespace Text

/-- Whether the code point of `c` lies in one of the closed ranges of
`table`. -/
def inRanges (table : List (Nat × Nat)) (c : Char) : Bool :=
  table.any fun range => range.1 ≤ c.toNat && c.toNat ≤ range.2

end Text
end Ambient
