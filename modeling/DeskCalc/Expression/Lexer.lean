import DeskCalc.Decimal.Numeral
import DeskCalc.Expression.Fault
import DeskCalc.Text.Blank

/-!
Cutting a text into tokens. Blanks separate and are dropped; at every other place the longest lexeme is
taken: a numeral, a whole word, `**` or a single sign.
-/

namespace DeskCalc.Token

/-- The characters of a word after its first. -/
def isWordPart (c : Char) : Bool := c.isAlphanum || c == '_'

/-- The word that starts with `c`, which must be a known name, and the text after it. -/
def word (c : Char) (cs : List Char) : Except SyntaxFault (Token × List Char) :=
  let written := String.ofList (c :: cs.takeWhile isWordPart)
  match Name.ofText? written with
  | some name => .ok (ofName name, cs.dropWhile isWordPart)
  | none => .error (.unknownName written)

/-- The first lexeme of a text that starts with `c`, which is no blank, and the text after it. -/
def lexeme (c : Char) (cs : List Char) : Except SyntaxFault (Token × List Char) :=
  if c = '(' then .ok (opening, cs)
  else if c = ')' then .ok (closing, cs)
  else if c = '+' then .ok (operator .add, cs)
  else if c = '-' then .ok (operator .sub, cs)
  else if c = '/' then .ok (operator .div, cs)
  else if c = '*' then
    match cs with
    | '*' :: rest => .ok (operator .pow, rest)
    | _ => .ok (operator .mul, cs)
  else if c.isDigit || c == '.' then
    match Numeral.scan? (c :: cs) with
    | some (d, rest) => .ok (number d.toFloat, rest)
    | none => .error .lonePoint
  else if c.isAlpha || c == '_' then word c cs
  else .error (.unexpectedCharacter c)

theorem length_word_le {c : Char} {cs rest : List Char} {t : Token} (h : word c cs = .ok (t, rest)) :
    rest.length ≤ cs.length := by
  simp only [word] at h
  split at h
  · simp only [Except.ok.injEq, Prod.mk.injEq] at h
    rw [← h.2]
    exact (List.dropWhile_suffix _).length_le
  · simp at h

theorem length_lexeme_le {c : Char} {cs rest : List Char} {t : Token}
    (h : lexeme c cs = .ok (t, rest)) : rest.length ≤ cs.length := by
  unfold lexeme at h
  repeat' split at h
  all_goals try simp only [Except.ok.injEq, Prod.mk.injEq, reduceCtorEq] at h
  all_goals try exact Nat.le_of_eq (congrArg List.length h.2.symm)
  · rw [← h.2]
    exact Nat.le_succ _
  · rename_i hscan
    rw [← h.2]
    exact Nat.le_of_lt_succ (Numeral.length_scan?_lt hscan)
  · exact length_word_le h

/-- The tokens of a text, or the fault of the first place where there is no lexeme. -/
def lex : List Char → Except SyntaxFault (List Token)
  | [] => .ok []
  | c :: cs =>
    if Text.isBlank c then lex cs
    else
      match h : lexeme c cs with
      | .error fault => .error fault
      | .ok (t, rest) =>
        have := length_lexeme_le h
        (lex rest).map (t :: ·)
termination_by cs => cs.length

end DeskCalc.Token
