import DeskCalc.Session.State

/-!
What a session shows, from top to bottom.
-/

namespace DeskCalc

/-- One thing on the screen, with the text that it shows. -/
inductive Widget
  | label (text : String)
  | button (text : String)
  /-- A list to choose from, with the choice made. -/
  | list (text : String)
  /-- A text field with its content. -/
  | field (text : String)
deriving DecidableEq, Repr

namespace Widget

def titled (title text : String) : List Widget := [label (title ++ " :"), label text]

end Widget

open Widget

def Output.screen : Output → List Widget
  | empty => []
  | failed message => [label message]
  | shown blocks notice? =>
    blocks.flatMap (fun b => titled b.title b.text) ++ notice?.toList.map (label ·.text)

def MatrixPanel.screen (p : MatrixPanel) : List Widget :=
  [label "Matrices", button "Opérations A/B", button "Déterminant & inverse"] ++
    match p.tab with
    | .operations =>
      [label "Lignes séparées par retour à la ligne, nombres par espaces ou virgules.",
        label "Matrice A :", field p.textA, label "Matrice B :", field p.textB,
        list p.operation.label, button "Calculer"] ++ p.operationOutput.screen
    | .inverse =>
      [label "Matrice (carrée) :", field p.textM, button "Déterminant & inverse"] ++
        p.inverseOutput.screen

def Workings.screen (w : Workings) : List Widget :=
  button "Démarche" :: (titled "Jetons" w.tokens ++ titled "RPN" w.polish ++ titled "Arbre" w.tree)

def TrigPanel.screen (p : TrigPanel) : List Widget :=
  [label "Trigonométrie", button "Fonction", button "Expression"] ++
    match p.tab with
    | .function =>
      [list p.function.name, list p.unit.label, label "Angle :", field p.angle,
        button "Calculer"] ++ p.functionOutput.screen
    | .expression =>
      [label "Expression :", field p.expression, button "Évaluer", button "Démarche"] ++
        p.expressionOutput.screen ++ (p.workings?.map Workings.screen).getD []

def Session.screen (s : Session) : List Widget :=
  [label "Calculatrice matrices & trigo", button "AC"] ++ s.matrices.screen ++
    s.trigonometry.screen

end DeskCalc
