import Seidel.Yaml.Scalar.Gap

/-!
Plain scalars, which nothing but their content marks. They end before a colon or comment that is
set off by white space, before the indicators of an enclosing flow collection, at a mark between
documents, and where a line is indented too little.
-/

namespace Seidel.Yaml

/-- A plain scalar that has been read. -/
structure Plain where
  text : List Char
  /-- Whether the white space after it, which has been read too, goes over a line break. -/
  endsLine : Bool
  after : Cursor
  deriving DecidableEq, Repr

/-- Whether, after white space, a plain scalar is over. -/
def endsPlain (inFlow : Bool) (least : Nat) (p : Position) (cs : List Char) : Bool :=
  (!inFlow && p.column < least) || (p.column == 0 && atDocumentMark cs) || cs.head? == some '#'

/-- Whether the characters that come next cannot belong to a plain scalar. -/
def stopsPlain (inFlow : Bool) : List Char → Bool
  | [] => true
  | c :: cs => (c == ':' && atSpace cs) || (inFlow && isFlowIndicator c)

/-- Whether a colon comes next that is an error inside a flow collection. -/
def misplacedColon : List Char → Bool
  | ':' :: c :: _ => isFlowIndicator c || c == '?'
  | _ => false

/-- The rest of a plain scalar after a gap. Outside of flow collections its lines start at column
`least` or later. None at a tab that stands for indentation and at a misplaced colon. -/
def readPlain (inFlow : Bool) (least : Nat) (gap : Gap) (p : Position) (cs : List Char) :
    Option Plain :=
  match cs with
  | [] => some ⟨[], gap.hasBreak, ⟨p, []⟩⟩
  | c :: rest =>
    if isSpace c then
      if c == '\t' && gap.hasBreak && p.column < least then none
      else readPlain inFlow least (gap.add c) (p.after c) rest
    else if !gap.isEmpty && endsPlain inFlow least p (c :: rest) then
      some ⟨[], gap.hasBreak, ⟨p, c :: rest⟩⟩
    else if inFlow && misplacedColon (c :: rest) then none
    else if stopsPlain inFlow (c :: rest) then some ⟨[], gap.hasBreak, ⟨p, c :: rest⟩⟩
    else (readPlain inFlow least .empty (p.after c) rest).map fun scalar =>
      { scalar with text := gap.text ++ c :: scalar.text }

end Seidel.Yaml
