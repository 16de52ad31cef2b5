/-!
Reports have a level, from errors down to the finest traces, and the path of the part of the program that they come
from. A filter says which of them are written into the journal.
-/

namespace DeskCalc

/-- How grave a report is, the gravest first. -/
inductive Level
  | error
  | warn
  | info
  | debug
  | trace
deriving DecidableEq, Repr

namespace Level

def name : Level → String
  | error => "ERROR"
  | warn => "WARN"
  | info => "INFO"
  | debug => "DEBUG"
  | trace => "TRACE"

/-- The number of graver levels. -/
def rank : Level → Nat
  | error => 0
  | warn => 1
  | info => 2
  | debug => 3
  | trace => 4

end Level

/-- The parts of the program that report what they do. -/
inductive Part
  | reading
  | operations
  | functions
  | expressions
deriving DecidableEq, Repr

def Part.path : Part → String
  | reading => "calculatrice_matrices::noyau::lecture"
  | operations => "calculatrice_matrices::noyau::operations"
  | functions => "calculatrice_matrices::noyau::trig"
  | expressions => "calculatrice_matrices::noyau::eval"

/-- A filter lets through the reports whose path begins with its own and which are at least as grave as its level. -/
structure JournalFilter where
  path : String
  level : Level

namespace JournalFilter

/-- The filter `calculatrice_matrices=info`, in use unless another one is asked for. -/
def standard : JournalFilter := ⟨"calculatrice_matrices", .info⟩

def passes (filter : JournalFilter) (level : Level) (path : String) : Bool :=
  filter.path.toList.isPrefixOf path.toList && level.rank ≤ filter.level.rank

end JournalFilter

end DeskCalc
