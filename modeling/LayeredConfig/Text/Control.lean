/-!
# Control characters

The general category Cc: the code points below U+0020 and those from U+007F to U+009F.
-/

namespace LayeredConfig.Text

def isControl (c : Char) : Bool :=
  c.toNat < 0x20 || (0x7F ≤ c.toNat && c.toNat ≤ 0x9F)

end LayeredConfig.Text
