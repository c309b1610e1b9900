/-!
# Sets of code points

A property of characters that a standard gives as a table is kept as a list of closed ranges.
`CodePoints.contains` decides membership; it may stop at the first range that lies above the
character, which is right for a list in increasing order.
-/

namespace TwinScript

/-- A set of code points: closed ranges in increasing order. -/
abbrev CodePoints := List (Nat × Nat)

/-- Whether the code point of `c` lies in one of the ranges. -/
def CodePoints.contains : CodePoints → Char → Bool
  | [], _ => false
  | (first, last) :: rest, c =>
    if c.toNat < first then false
    else if c.toNat ≤ last then true
    else CodePoints.contains rest c

end TwinScript
