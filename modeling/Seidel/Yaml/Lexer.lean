import Seidel.Yaml.Scalar.Block
import Seidel.Yaml.Scalar.Plain
import Seidel.Yaml.Scalar.Quoted
import Seidel.Yaml.Tag
import Seidel.Yaml.Token

/-!
Cutting a YAML stream into tokens. Indentation opens and closes block collections. That a node is
the key of a mapping shows only at the colon after it, so where a key may stand it is remembered
which token would come first, and the key token is put before that one when the colon comes.
-/

namespace Seidel.Yaml

/-- A node that becomes a key when a colon follows on its line. -/
structure PossibleKey where
  /-- Whether nothing but a key may stand here. -/
  required : Bool
  /-- How many tokens come before the node. -/
  tokensBefore : Nat
  position : Position
  deriving DecidableEq, Repr

/-- A stream of which some tokens have been read. -/
structure Lexer where
  cursor : Cursor
  /-- The columns of the open block collections, the innermost first. -/
  blocks : List Nat
  /-- Whether a node that starts here can be a key. -/
  keyAllowed : Bool
  /-- The possible key of the open block collections. -/
  blockKey : Option PossibleKey
  /-- The possible key of each open flow collection, the innermost first. -/
  flowKeys : List (Option PossibleKey)
  /-- The tokens, the last one first. -/
  tokens : List Token
  deriving DecidableEq, Repr

namespace Lexer

/-- Before the first token. -/
def start (cs : List Char) : Lexer := ⟨⟨⟨0, 0⟩, cs⟩, [], true, none, [], []⟩

def inFlow (l : Lexer) : Bool := !l.flowKeys.isEmpty

def push (l : Lexer) (t : Token) : Lexer := { l with tokens := t :: l.tokens }

/-- Moves over some characters. -/
def skip (l : Lexer) (n : Nat) : Lexer := { l with cursor := l.cursor.skip n }

/-- Moves to a later part of the text on the same line. -/
def skipTo (l : Lexer) (rest : List Char) : Lexer :=
  l.skip (l.cursor.rest.length - rest.length)

/-! ## Possible keys -/

/-- The possible key of the innermost collection. -/
def possibleKey (l : Lexer) : Option PossibleKey :=
  match l.flowKeys with
  | key :: _ => key
  | [] => l.blockKey

def setPossibleKey (l : Lexer) (key : Option PossibleKey) : Lexer :=
  match l.flowKeys with
  | _ :: keys => { l with flowKeys := key :: keys }
  | [] => { l with blockKey := key }

/-- Gives up the possible key, unless a key is required. -/
def dropKey? (l : Lexer) : Option Lexer :=
  if l.possibleKey.any (·.required) then none else some (l.setPossibleKey none)

/-- Remembers that a key can start here, if one can. -/
def saveKey? (l : Lexer) : Option Lexer :=
  if l.keyAllowed then
    let here := l.cursor.position
    let required := !l.inFlow && l.blocks.head? == some here.column
    l.dropKey?.map (·.setPossibleKey (some ⟨required, l.tokens.length, here⟩))
  else some l

/-- Whether a key that starts at one place cannot have its colon at another: not on another line and
not more than 1024 characters later. -/
def PossibleKey.isStale (here : Position) (key : PossibleKey) : Bool :=
  key.position.line < here.line || key.position.column + 1024 < here.column

/-- Gives up the keys whose colon comes too late, unless a key is required. -/
def dropStaleKeys? (l : Lexer) : Option Lexer :=
  let stale := PossibleKey.isStale l.cursor.position
  if (l.blockKey :: l.flowKeys).any fun key => key.any fun key => stale key && key.required then none
  else some { l with
    blockKey := l.blockKey.filter (!stale ·)
    flowKeys := l.flowKeys.map (·.filter (!stale ·)) }

/-! ## Block collections -/

/-- Whether a block collection that starts at `column` is inside the open ones. -/
def opensBlock (l : Lexer) (column : Nat) : Bool :=
  !l.inFlow && l.blocks.head?.all (· < column)

/-- Opens a block collection at a column that is further in than the open ones. -/
def openBlock (l : Lexer) (column : Nat) (t : Token) : Lexer :=
  if l.opensBlock column then { l.push t with blocks := column :: l.blocks } else l

/-- Closes the block collections at the given number of levels. -/
def closeBlocks (l : Lexer) (levels : Nat) : Lexer :=
  if l.inFlow then l
  else { l with
    blocks := l.blocks.drop levels
    tokens := List.replicate levels .blockEnd ++ l.tokens }

/-- Closes the block collections that this column is outside of. -/
def closeOuterBlocks (l : Lexer) : Lexer :=
  l.closeBlocks (l.blocks.takeWhile (l.cursor.position.column < ·)).length

/-- Closes all block collections, which no key may be missing in. -/
def closeAll? (l : Lexer) : Option Lexer :=
  (l.closeBlocks l.blocks.length).dropKey?

/-! ## Between tokens -/

/-- Moves over white space and comments. After a line break outside of flow collections a key can
start again; where one can start, tabs are no white space. A byte order mark at the start of a
line is passed over. -/
def skipGap (inFlow keyAllowed inComment : Bool) (p : Position) : List Char → Bool × Cursor
  | [] => (keyAllowed, ⟨p, []⟩)
  | c :: cs =>
    if isBreak c then skipGap inFlow (keyAllowed || !inFlow) false (p.after c) cs
    else if inComment then skipGap inFlow keyAllowed true (p.after c) cs
    else if c = ' ' || (c = '\t' && (inFlow || !keyAllowed)) || (c = '\uFEFF' && p.column = 0) then
      skipGap inFlow keyAllowed false (p.after c) cs
    else if c = '#' then skipGap inFlow keyAllowed true (p.after c) cs
    else (keyAllowed, ⟨p, c :: cs⟩)

/-- Moves to the next token, and settles what its place decides. -/
def advance? (l : Lexer) : Option Lexer :=
  let (keyAllowed, cursor) :=
    skipGap l.inFlow l.keyAllowed false l.cursor.position l.cursor.rest
  ({ l with keyAllowed, cursor }).dropStaleKeys?.map closeOuterBlocks

/-! ## Tokens -/

/-- A directive. -/
def directiveToken? (l : Lexer) : Option Lexer := do
  let l ← l.closeAll?
  let l := l.skip 1
  let (token, rest) ← directive? l.cursor.rest
  some { (l.skipTo rest).push token with keyAllowed := false }

/-- A mark between documents. -/
def documentToken? (l : Lexer) (t : Token) : Option Lexer := do
  let l ← l.closeAll?
  some { (l.skip 3).push t with keyAllowed := false }

/-- The start of a flow collection. -/
def openFlow? (l : Lexer) (t : Token) : Option Lexer := do
  let l ← l.saveKey?
  some { (l.skip 1).push t with keyAllowed := true, flowKeys := none :: l.flowKeys }

/-- The end of a flow collection. -/
def closeFlow? (l : Lexer) (t : Token) : Option Lexer := do
  let l ← l.dropKey?
  some { (l.skip 1).push t with keyAllowed := false, flowKeys := l.flowKeys.tail }

/-- A comma. -/
def flowEntry? (l : Lexer) : Option Lexer := do
  let l ← l.dropKey?
  some { (l.skip 1).push .flowEntry with keyAllowed := true }

/-- A hyphen before an item. -/
def blockEntry? (l : Lexer) : Option Lexer :=
  if !l.inFlow && !l.keyAllowed then none
  else do
    let l ← (l.openBlock l.cursor.position.column .blockSequenceStart).dropKey?
    some { (l.skip 1).push .blockEntry with keyAllowed := true }

/-- A question mark before a key. -/
def explicitKey? (l : Lexer) : Option Lexer :=
  if !l.inFlow && !l.keyAllowed then none
  else do
    let l ← (l.openBlock l.cursor.position.column .blockMappingStart).dropKey?
    some { (l.skip 1).push .key with keyAllowed := !l.inFlow }

/-- Puts a key token, and the start of its mapping if the key opens one, where the key started. -/
def insertKey (l : Lexer) (key : PossibleKey) : Lexer :=
  let later := l.tokens.length - key.tokensBefore
  let l := { l with tokens := l.tokens.insertIdx later .key }
  if l.opensBlock key.position.column then
    { l with
      tokens := l.tokens.insertIdx (later + 1) .blockMappingStart
      blocks := key.position.column :: l.blocks }
  else l

/-- A colon before a value. -/
def value? (l : Lexer) : Option Lexer :=
  match l.possibleKey with
  | some key =>
    let l := (l.insertKey key).setPossibleKey none
    some { (l.skip 1).push .value with keyAllowed := false }
  | none =>
    if !l.inFlow && !l.keyAllowed then none
    else
      let l := l.openBlock l.cursor.position.column .blockMappingStart
      some { (l.skip 1).push .value with keyAllowed := !l.inFlow }

/-- What may come right after the name of an anchor. -/
def endsAnchor : List Char → Bool
  | [] => true
  | c :: _ =>
    isSpace c || c == '?' || c == ':' || c == ',' || c == ']' || c == '\x7d' || c == '%' || c == '@'
      || c.toNat == 0x60

/-- An anchor or an alias. -/
def anchor? (l : Lexer) (token : List Char → Token) : Option Lexer := do
  let l ← l.saveKey?
  let (name, after) := (l.cursor.skip 1).takeWhile isNameChar
  if name ≠ [] ∧ endsAnchor after.rest then
    some { l.push (token name) with keyAllowed := false, cursor := after }
  else none

/-- A tag, after which white space must follow, or a comma in a flow collection. -/
def tagToken? (l : Lexer) : Option Lexer := do
  let l ← l.saveKey?
  let (token, rest) ← tag? l.cursor.rest
  if atSpace rest || (l.inFlow && rest.head? == some ',') then
    some { (l.skipTo rest).push token with keyAllowed := false }
  else none

/-- A block scalar. -/
def blockScalar? (l : Lexer) (style : ScalarStyle) : Option Lexer := do
  let l ← l.dropKey?
  let (text, after) ← readBlockScalar (style == .folded) l.blocks.head? (l.cursor.skip 1)
  some { l.push (.scalar style text) with keyAllowed := true, cursor := after }

/-- A quoted scalar. -/
def quotedScalar? (l : Lexer) (style : ScalarStyle) : Option Lexer := do
  let l ← l.saveKey?
  let inside := l.cursor.skip 1
  let (text, after) ← match style with
    | .singleQuoted => readSingleQuoted .empty inside.position inside.rest
    | _ => readDoubleQuoted .empty 0 inside.position inside.rest
  some { l.push (.scalar style text) with keyAllowed := false, cursor := after }

/-- A plain scalar. -/
def plainScalar? (l : Lexer) : Option Lexer := do
  let l ← l.saveKey?
  let least := (l.blocks.head?.map (· + 1)).getD 0
  let scalar ← readPlain l.inFlow least .empty l.cursor.position l.cursor.rest
  some { l.push (.scalar .plain scalar.text) with
    keyAllowed := scalar.endsLine, cursor := scalar.after }

/-- Whether a plain scalar can start with the characters that come next. -/
def startsPlain (inFlow : Bool) : List Char → Bool
  | [] => false
  | c :: cs =>
    if c = '-' then !cs.head?.any isBlank
    else if c = '?' || c = ':' then !inFlow && !atSpace cs
    else !isSpace c && !isIndicator c

/-- Reads the token that starts here. -/
def token? (l : Lexer) : Option Lexer :=
  let atLineStart := l.cursor.position.column == 0
  match l.cursor.rest with
  | [] => none
  | c :: cs =>
    if atLineStart && c == '%' then l.directiveToken?
    else if atLineStart && atDocumentMark (c :: cs) then
      l.documentToken? (if c = '-' then .documentStart else .documentEnd)
    else if c = '[' then l.openFlow? .flowSequenceStart
    else if c = '\x7b' then l.openFlow? .flowMappingStart
    else if c = ']' then l.closeFlow? .flowSequenceEnd
    else if c = '\x7d' then l.closeFlow? .flowMappingEnd
    else if c = ',' then l.flowEntry?
    else if c = '-' && atSpace cs then l.blockEntry?
    else if c = '?' && (l.inFlow || atSpace cs) then l.explicitKey?
    else if c = ':' && (l.inFlow || atSpace cs) then l.value?
    else if c = '*' then l.anchor? .alias
    else if c = '&' then l.anchor? .anchor
    else if c = '!' then l.tagToken?
    else if c = '|' && !l.inFlow then l.blockScalar? .literal
    else if c = '>' && !l.inFlow then l.blockScalar? .folded
    else if c = '\'' then l.quotedScalar? .singleQuoted
    else if c = '"' then l.quotedScalar? .doubleQuoted
    else if startsPlain l.inFlow (c :: cs) then l.plainScalar?
    else none

/-- Reads all tokens, of which there are fewer than `fuel`. -/
def run? (l : Lexer) : Nat → Option (List Token)
  | 0 => none
  | fuel + 1 => do
    let l ← l.advance?
    if l.cursor.rest = [] then l.closeAll?.map (·.tokens.reverse)
    else (← l.token?).run? fuel

end Lexer

/-- The tokens of a stream. Every token takes at least one character. -/
def tokens? (source : List Char) : Option (List Token) :=
  if source.all isAllowed then
    let cs := unifyBreaks source
    (Lexer.start cs).run? (cs.length + 1)
  else none

end Seidel.Yaml
