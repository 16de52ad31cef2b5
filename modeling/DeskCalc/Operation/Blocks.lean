import DeskCalc.Matrix.Layout
import DeskCalc.Operation.Basic
import DeskCalc.Settings

/-!
An outcome as the user sees it: titled blocks of text. Only here are numbers rounded.
-/

namespace DeskCalc

structure Block where
  title : String
  text : String
deriving DecidableEq, Repr

namespace Outcome

def determinantBlock (settings : Settings) (determinant : Float) : Block :=
  ⟨"Déterminant", roundedText determinant settings.determinantPlaces⟩

def blocks (settings : Settings) : Outcome Float → List Block
  | .matrix a => [⟨"Résultat", a.text settings.significantDigits⟩]
  | .rank r => [⟨"Rang(A)", toString r⟩]
  | .determinant d => [determinantBlock settings d]
  | .inverse d (.ok a) =>
    [determinantBlock settings d, ⟨"Inverse", a.text settings.significantDigits⟩]
  | .inverse d (.error _) => [determinantBlock settings d]

end Outcome

end DeskCalc
