import DeskCalc.Binary64.Basic

/-!
What the matrix algorithms ask of their entries beyond arithmetic and comparison. They are written
for any such type: doubles are the entries that are computed with, and exact fields are entries too.
-/

namespace DeskCalc

/-- Entries that tell numbers from results of operations that have left the range of numbers. -/
class RangeChecked (α : Type) where
  /-- Whether the entry is a number. -/
  isFinite : α → Bool

/-- Entries with what singular values need. -/
class Spectral (α : Type) where
  sqrt : α → α
  /-- One with the sign of the entry; zero has a sign too. -/
  signum : α → α
  /-- The distance from one to the next larger entry. -/
  epsilon : α

/-- The absolute value, by comparison with zero. -/
def magnitude {α : Type} [OfNat α 0] [Neg α] [LT α] [DecidableLT α] (x : α) : α :=
  if x < 0 then -x else x

instance : RangeChecked Float := ⟨Float.isFinite⟩

instance natCastFloat : NatCast Float := ⟨Float.ofNat⟩

instance : Spectral Float where
  sqrt := Float.sqrt
  signum x := if Binary64.isNegative x then -1 else 1
  epsilon := 2.220446049250313e-16

end DeskCalc
