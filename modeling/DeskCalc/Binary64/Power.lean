/-!
Powers of ten as doubles. A power with a natural exponent is computed by repeated squaring, from the lowest
binary digit of the exponent on, and every product is rounded; a negative exponent gives the reciprocal.
The powers up to `10 ^ 22` are exact, and those beyond the largest double are infinite.
-/

namespace DeskCalc.Binary64

/-- `product` times `base ^ n`, for an exponent `n` of `count` binary digits. -/
def timesPower : (count : Nat) → (product base : Float) → (n : Nat) → Float
  | 0, product, _, _ => product
  | count + 1, product, base, n =>
    timesPower count (if n % 2 = 1 then product * base else product) (base * base) (n / 2)

def naturalPower (base : Float) (n : Nat) : Float := timesPower (n.log2 + 1) 1 base n

def tenTo (e : Int) : Float :=
  let power := naturalPower 10 e.natAbs
  if e < 0 then 1 / power else power

end DeskCalc.Binary64
