import DeskCalc.Expression.Token

/-!
Why an expression or an angle has no value. Faults of the text come first, then those of the arithmetic.
-/

namespace DeskCalc

/-- Why a text is no expression. -/
inductive SyntaxFault
  | emptyInput
  | lonePoint
  | unknownName (word : String)
  | unexpectedCharacter (c : Char)
  | missingOperator
  | unexpectedFunction (f : Elementary)
  | functionWithoutParenthesis (f : Elementary)
  | callOnValue
  | missingOperand
  | unmatchedClosing
  | missingLeftOperand
  | signInInput
  | nestedTooDeeply
  | incomplete
  | unclosedParenthesis
  | parenthesisInPolish
  | minusWithoutOperand
  | plusWithoutOperand
  | functionWithoutArgument
  | unbalanced
deriving DecidableEq, Repr

def SyntaxFault.message : SyntaxFault → String
  | emptyInput => "entrée vide"
  | lonePoint => "point isolé"
  | unknownName word => "nom non autorisé « " ++ word ++ " »"
  | unexpectedCharacter c => "caractère inattendu « " ++ c.toString ++ " »"
  | missingOperator => "valeur inattendue (opérateur manquant)"
  | unexpectedFunction f => "fonction " ++ f.name ++ " inattendue"
  | functionWithoutParenthesis f => f.name ++ " doit être appelée : " ++ f.name ++ "(…)"
  | callOnValue => "appel sur une valeur qui n’est pas une fonction"
  | missingOperand => "parenthèses vides ou opérande manquant"
  | unmatchedClosing => "parenthèse fermante sans ouvrante"
  | missingLeftOperand => "opérateur sans opérande à gauche"
  | signInInput => "jeton unaire inattendu en entrée"
  | nestedTooDeeply => "expression trop imbriquée"
  | incomplete => "expression incomplète"
  | unclosedParenthesis => "parenthèses non fermées"
  | parenthesisInPolish => "parenthèse inattendue en RPN"
  | minusWithoutOperand => "moins sans opérande"
  | plusWithoutOperand => "plus sans opérande"
  | functionWithoutArgument => "fonction sans argument"
  | unbalanced => "expression invalide"

/-- Why a function or power has no real value. -/
inductive DomainFault
  | negativeRoot (x : Float)
  | nonPositiveLog (x : Float)
  | fractionalPower (base exponent : Float)
  | outside (f : Elementary) (x : Float)
deriving DecidableEq

def DomainFault.message : DomainFault → String
  | negativeRoot x => "sqrt(" ++ plainText x ++ ") : argument négatif"
  | nonPositiveLog x => "log(" ++ plainText x ++ ") : argument non positif"
  | fractionalPower a b =>
    "(" ++ plainText a ++ ") ** " ++ plainText b ++ " : puissance fractionnaire d’un nombre négatif"
  | outside f x => f.name ++ "(" ++ plainText x ++ ")"

/-- Where a value leaves the range of the finite doubles. -/
inductive RangeFault
  | literal
  | function (f : Elementary) (x : Float)
  | operation (op : BinaryOperator) (a b : Float)
deriving DecidableEq

def RangeFault.message : RangeFault → String
  | literal => "littéral hors des flottants"
  | function f x => f.name ++ "(" ++ plainText x ++ ") déborde"
  | operation op a b => plainText a ++ " " ++ op.symbol ++ " " ++ plainText b ++ " déborde"

/-- Why there is no value. -/
inductive EvalError
  | invalidNumber (text : String)
  | domain (fault : DomainFault)
  | doubleUnderscore
  | malformed (fault : SyntaxFault)
  | divisionByZero
  | notFinite (fault : RangeFault)
  | tooLong (length limit : Nat)
deriving DecidableEq

def EvalError.message : EvalError → String
  | invalidNumber text => "Nombre invalide « " ++ text ++ " »"
  | domain fault => "Erreur de domaine : " ++ fault.message
  | doubleUnderscore => "Jeton interdit « __ »"
  | malformed fault => "Syntaxe invalide ou interdite : " ++ fault.message
  | divisionByZero => "Division par zéro"
  | notFinite fault => "Résultat non fini (" ++ fault.message ++ ")"
  | tooLong length limit =>
    "Expression trop longue : " ++ toString length ++ " caractères (max " ++ toString limit ++ ")"

end DeskCalc
