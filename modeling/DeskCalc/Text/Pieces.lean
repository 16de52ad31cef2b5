/-!
Cutting a text at chosen characters, and writing a list of texts with a separator between neighbours.
-/

namespace DeskCalc.Text

/-- The longest runs of characters that are no cut, in order. -/
def pieces (isCut : Char → Bool) (cs : List Char) : List (List Char) :=
  (cs.splitOnP isCut).filter (!·.isEmpty)

def withoutReturn (line : List Char) : List Char :=
  if line.getLast? = some '\r' then line.dropLast else line

/-- The lines among the texts between newlines. All but the last were ended by a newline, which takes a
carriage return before it along; the last one is a line only if there is something on it. -/
def endedLines : List (List Char) → List (List Char)
  | [] => []
  | [last] => if last.isEmpty then [] else [last]
  | line :: next :: rest => withoutReturn line :: endedLines (next :: rest)

def lines (cs : List Char) : List (List Char) := endedLines (cs.splitOnP (· == '\n'))

/-- The texts in order, with `separator` between neighbours. -/
def joined (separator : List Char) (parts : List (List Char)) : List Char :=
  (parts.intersperse separator).flatten

end DeskCalc.Text
