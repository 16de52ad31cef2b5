/-!
Doubles as signed magnitudes. The magnitudes are numbered in increasing order: a magnitude's ordinal is
its bit pattern without the sign. Every finite magnitude is a whole number of units, the unit being the
smallest positive double, so that sizes are compared in the natural numbers.
-/

namespace DeskCalc.Binary64

/-- The unit of all magnitudes, the smallest positive double, is `2 ^ (-depth)`. -/
def depth : Nat := 1074

/-- The number of magnitudes from one power of two to the next, `2 ^ 52`. -/
def binade : Nat := 0x10000000000000

/-- The bit that tells negative doubles from the others, `2 ^ 63`. -/
def signBit : Nat := 0x8000000000000000

/-- The ordinal of infinity: those of finite magnitudes are below it, those of NaN above. -/
def infinite : Nat := 2047 * binade

def ordinal (x : Float) : Nat := x.toBits.toNat % signBit

/-- Whether the sign bit is set; negative zero counts as negative. -/
def isNegative (x : Float) : Bool := signBit ≤ x.toBits.toNat

/-- The nonnegative double with the given ordinal. -/
def ofOrdinal (k : Nat) : Float := Float.ofBits (UInt64.ofNat k)

/-- The power of two that one step at ordinal `k` is worth, in units. -/
def scale (k : Nat) : Nat := k / binade - 1

/-- The magnitude at ordinal `k` in steps of its own size. -/
def significand (k : Nat) : Nat := if k < binade then k else binade + k % binade

/-- The magnitude at ordinal `k` in units of `2 ^ (-depth)`. -/
def units (k : Nat) : Nat := significand k <<< scale k

/-- A numerator and a denominator of the magnitude at ordinal `k`, one of them free of the common
powers of two. -/
def fraction (k : Nat) : Nat × Nat :=
  (significand k <<< (scale k - depth), 1 <<< (depth - scale k))

theorem significand_lt (k : Nat) : significand k < 2 * binade := by
  unfold significand
  have := Nat.mod_lt k (show 0 < binade by decide)
  split <;> omega

theorem fraction_snd_pos (k : Nat) : 0 < (fraction k).2 := by
  rw [fraction, Nat.one_shiftLeft]
  exact Nat.two_pow_pos _

theorem fraction_fst_shiftLeft (k : Nat) :
    (fraction k).1 <<< depth = units k * (fraction k).2 := by
  have h : scale k - depth + depth = scale k + (depth - scale k) := by omega
  rw [fraction, units, Nat.one_shiftLeft, ← Nat.shiftLeft_add, h, Nat.shiftLeft_add,
    Nat.shiftLeft_eq _ (depth - scale k)]

end DeskCalc.Binary64
