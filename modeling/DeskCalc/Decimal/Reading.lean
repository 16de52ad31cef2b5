import DeskCalc.Binary64.Nearest
import DeskCalc.Decimal.Numeral

/-!
Reading a typed number: an optional sign and one numeral, nothing else, whose nearest double is finite.
-/

namespace DeskCalc

/-- The double that an optional sign and a numeral denote, possibly infinite. -/
def signedDouble? (cs : List Char) : Option Float :=
  let sign := Numeral.scanSign cs
  (Numeral.ofChars? sign.2).map fun d => if sign.1 then -d.toFloat else d.toFloat

/-- The finite double that a text denotes. Names of non-finite numbers are refused, and so are
numerals beyond the largest double. -/
def readNumber? (cs : List Char) : Option Float := (signedDouble? cs).filter Float.isFinite

end DeskCalc
