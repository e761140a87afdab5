import RouteMigration.Text.Basic

set_option autoImplicit false

namespace RouteMigration

/-- The property White_Space; U+001C to U+001F, U+180E, U+200B and U+FEFF do not have it. -/
def blankRanges : List (Nat × Nat) :=
  [(0x09, 0x0D), (0x20, 0x20), (0x85, 0x85), (0xA0, 0xA0), (0x1680, 0x1680), (0x2000, 0x200A),
    (0x2028, 0x2029), (0x202F, 0x202F), (0x205F, 0x205F), (0x3000, 0x3000)]

def isBlank (c : Char) : Bool :=
  blankRanges.any fun range => range.1 ≤ c.toNat && c.toNat ≤ range.2

namespace Text

def allBlank (text : Text) : Bool :=
  text.all isBlank

end Text

end RouteMigration
