import RouteMigration.Text.Basic

set_option autoImplicit false

namespace RouteMigration

-- Beyond A to Z, only the kelvin sign and the dotted capital I have an ASCII lower case.
def lowerLatinChar (c : Char) : Text :=
  if c.toNat = 0x212A then ['k']
  else if c.toNat = 0x130 then ['i', Char.ofNat 0x307]
  else [c.toLower]

namespace Text

def lowerLatin (text : Text) : Text :=
  text.flatMap lowerLatinChar

end Text

end RouteMigration
