import Seidel.Yaml.Token

/-!
YAML nodes, and how they are made from tokens. `α` is what an alias refers to: a name as long as
the anchors have not been looked up.
-/

namespace Seidel.Yaml

/-- What may stand before the content of a node. -/
structure Properties where
  anchor : Option (List Char) := none
  tag : Option (List Char) := none
  deriving DecidableEq, Repr

inductive Node (α : Type)
  | alias (target : α)
  | scalar (properties : Properties) (style : ScalarStyle) (text : List Char)
  | sequence (properties : Properties) (items : List (Node α))
  | mapping (properties : Properties) (entries : List (Node α × Node α))

/-- The meaning of the handles of a document. -/
abbrev Handles := List (List Char × List Char)

/-- The handles that have a meaning without a directive. -/
def defaultHandles : Handles :=
  [(['!'], ['!']), (['!', '!'], "tag:yaml.org,2002:".toList)]

/-- A whole tag. -/
def wholeTag? (handles : Handles) (handle suffix : List Char) : Option (List Char) :=
  if handle = [] then some suffix
  else (handles.lookup handle).map (· ++ suffix)

/-- An anchor and a tag in either order, each at most once. -/
def properties? (handles : Handles) : List Token → Option (Properties × List Token)
  | .anchor name :: .tag handle suffix :: rest =>
    (wholeTag? handles handle suffix).map fun tag => (⟨some name, some tag⟩, rest)
  | .tag handle suffix :: .anchor name :: rest =>
    (wholeTag? handles handle suffix).map fun tag => (⟨some name, some tag⟩, rest)
  | .anchor name :: rest => some (⟨some name, none⟩, rest)
  | .tag handle suffix :: rest =>
    (wholeTag? handles handle suffix).map fun tag => (⟨none, some tag⟩, rest)
  | rest => some ({}, rest)

/-- The node that is not written. -/
def Node.empty {α : Type} : Node α := .scalar {} .plain []

/-- Whether a node inside a block mapping is not written. -/
def endsEntry : List Token → Bool
  | .key :: _ | .value :: _ | .blockEnd :: _ => true
  | _ => false

/-- Whether an item of a block sequence is not written. -/
def endsItem : List Token → Bool
  | .blockEntry :: _ | .blockEnd :: _ => true
  | _ => false

/-- Whether an item of a sequence at the indentation of its mapping is not written. -/
def endsIndentlessItem (ts : List Token) : Bool :=
  endsEntry ts || endsItem ts

/-- Whether a node before the end `close` of a flow collection is not written. -/
def endsFlowEntry (close : Token) : List Token → Bool
  | t :: _ => t == .flowEntry || t == close
  | [] => false

def endsFlowKey (close : Token) : List Token → Bool
  | .value :: _ => true
  | ts => endsFlowEntry close ts

/-- Where a node stands. -/
inductive Place
  /-- In a flow collection. -/
  | flow
  /-- In a block collection. -/
  | block
  /-- In a block mapping, where a sequence need not be indented. -/
  | entry
  deriving DecidableEq, Repr

mutual

/-- A node, and the tokens after it. Nothing nests deeper than `fuel`. -/
def Node.ofTokens? (handles : Handles) (place : Place) (fuel : Nat) (ts : List Token) :
    Option (Node (List Char) × List Token) :=
  match fuel with
  | 0 => none
  | fuel + 1 =>
    match ts with
    | .alias name :: rest => some (.alias name, rest)
    | ts => do
      let (properties, rest) ← properties? handles ts
      match rest, place with
      | .blockEntry :: _, .entry =>
        let (items, rest) ← indentlessItems? handles fuel rest
        some (.sequence properties items, rest)
      | .scalar style text :: rest, _ => some (.scalar properties style text, rest)
      | .flowSequenceStart :: rest, _ =>
        let (items, rest) ← flowItems? handles true fuel rest
        some (.sequence properties items, rest)
      | .flowMappingStart :: rest, _ =>
        let (entries, rest) ← flowEntries? handles true fuel rest
        some (.mapping properties entries, rest)
      | .blockSequenceStart :: rest, .block | .blockSequenceStart :: rest, .entry =>
        let (items, rest) ← blockItems? handles fuel rest
        some (.sequence properties items, rest)
      | .blockMappingStart :: rest, .block | .blockMappingStart :: rest, .entry =>
        let (entries, rest) ← blockEntries? handles fuel rest
        some (.mapping properties entries, rest)
      | rest, _ =>
        if properties = {} then none else some (.scalar properties .plain [], rest)

/-- The items of a block sequence. -/
def blockItems? (handles : Handles) (fuel : Nat) (ts : List Token) :
    Option (List (Node (List Char)) × List Token) :=
  match fuel with
  | 0 => none
  | fuel + 1 =>
    match ts with
    | .blockEntry :: rest => do
      let (item, rest) ←
        if endsItem rest then some (.empty, rest)
        else Node.ofTokens? handles .block fuel rest
      let (items, rest) ← blockItems? handles fuel rest
      some (item :: items, rest)
    | .blockEnd :: rest => some ([], rest)
    | _ => none

/-- The items of a sequence at the indentation of its mapping. -/
def indentlessItems? (handles : Handles) (fuel : Nat) (ts : List Token) :
    Option (List (Node (List Char)) × List Token) :=
  match fuel with
  | 0 => none
  | fuel + 1 =>
    match ts with
    | .blockEntry :: rest => do
      let (item, rest) ←
        if endsIndentlessItem rest then some (.empty, rest)
        else Node.ofTokens? handles .block fuel rest
      let (items, rest) ← indentlessItems? handles fuel rest
      some (item :: items, rest)
    | rest => some ([], rest)

/-- The entries of a block mapping. -/
def blockEntries? (handles : Handles) (fuel : Nat) (ts : List Token) :
    Option (List (Node (List Char) × Node (List Char)) × List Token) :=
  match fuel with
  | 0 => none
  | fuel + 1 =>
    match ts with
    | .key :: rest => do
      let (key, rest) ←
        if endsEntry rest then some (.empty, rest)
        else Node.ofTokens? handles .entry fuel rest
      let (value, rest) ← blockValue? handles fuel rest
      let (entries, rest) ← blockEntries? handles fuel rest
      some ((key, value) :: entries, rest)
    | .blockEnd :: rest => some ([], rest)
    | _ => none

/-- The value of an entry of a block mapping. -/
def blockValue? (handles : Handles) (fuel : Nat) (ts : List Token) :
    Option (Node (List Char) × List Token) :=
  match fuel with
  | 0 => none
  | fuel + 1 =>
    match ts with
    | .value :: rest =>
      if endsEntry rest then some (.empty, rest)
      else Node.ofTokens? handles .entry fuel rest
    | rest => some (.empty, rest)

/-- The items of a flow sequence, after a comma unless they are the first. An item can be a mapping
of one entry. -/
def flowItems? (handles : Handles) (first : Bool) (fuel : Nat) (ts : List Token) :
    Option (List (Node (List Char)) × List Token) :=
  match fuel with
  | 0 => none
  | fuel + 1 => do
    if ts.head? = some .flowSequenceEnd then some ([], ts.tail)
    else
      let ts ← if first then some ts else if ts.head? = some .flowEntry then some ts.tail else none
      match ts with
      | .flowSequenceEnd :: rest => some ([], rest)
      | .key :: rest =>
        let (key, rest) ←
          if endsFlowKey .flowSequenceEnd rest then some (.empty, rest.tail)
          else Node.ofTokens? handles .flow fuel rest
        let (value, rest) ← flowValue? handles .flowSequenceEnd fuel rest
        let (items, rest) ← flowItems? handles false fuel rest
        some (.mapping {} [(key, value)] :: items, rest)
      | ts =>
        let (item, rest) ← Node.ofTokens? handles .flow fuel ts
        let (items, rest) ← flowItems? handles false fuel rest
        some (item :: items, rest)

/-- The entries of a flow mapping, after a comma unless they are the first. -/
def flowEntries? (handles : Handles) (first : Bool) (fuel : Nat) (ts : List Token) :
    Option (List (Node (List Char) × Node (List Char)) × List Token) :=
  match fuel with
  | 0 => none
  | fuel + 1 => do
    if ts.head? = some .flowMappingEnd then some ([], ts.tail)
    else
      let ts ← if first then some ts else if ts.head? = some .flowEntry then some ts.tail else none
      match ts with
      | .flowMappingEnd :: rest => some ([], rest)
      | .key :: rest =>
        let (key, rest) ←
          if endsFlowKey .flowMappingEnd rest then some (.empty, rest)
          else Node.ofTokens? handles .flow fuel rest
        let (value, rest) ← flowValue? handles .flowMappingEnd fuel rest
        let (entries, rest) ← flowEntries? handles false fuel rest
        some ((key, value) :: entries, rest)
      | ts =>
        let (key, rest) ← Node.ofTokens? handles .flow fuel ts
        let (entries, rest) ← flowEntries? handles false fuel rest
        some ((key, .empty) :: entries, rest)

/-- The value of an entry of a flow collection that ends with `close`. -/
def flowValue? (handles : Handles) (close : Token) (fuel : Nat) (ts : List Token) :
    Option (Node (List Char) × List Token) :=
  match fuel with
  | 0 => none
  | fuel + 1 =>
    match ts with
    | .value :: rest =>
      if endsFlowEntry close rest then some (.empty, rest)
      else Node.ofTokens? handles .flow fuel rest
    | rest => some (.empty, rest)

end

/-! ## Documents -/

/-- The directives before a document: the handles they give a meaning, and whether a version has
been given. Neither may be repeated, and the version must be 1.1 or 1.2. -/
def directives? (versionSeen : Bool) (handles : Handles) :
    List Token → Option (Handles × List Token)
  | .version major minor :: rest =>
    if versionSeen || major != 1 || (minor != 1 && minor != 2) then none
    else directives? true handles rest
  | .handle name meaning :: rest =>
    if (handles.lookup name).isSome then none
    else directives? versionSeen (handles ++ [(name, meaning)]) rest
  | rest => some (handles, rest)

/-- Whether a document that has started explicitly has no content. -/
def endsDocument : List Token → Bool
  | [] => true
  | .version .. :: _ | .handle .. :: _ | .documentStart :: _ | .documentEnd :: _ => true
  | _ => false

/-- The only document of a stream. Its start need not be marked if it has no directives; its end may
be marked several times. -/
def document? (ts : List Token) : Option (Node (List Char)) := do
  let fuel := 2 * ts.length + 2
  let explicit := match ts with
    | .version .. :: _ | .handle .. :: _ | .documentStart :: _ => true
    | _ => false
  let (root, rest) ←
    if explicit then do
      let (handles, rest) ← directives? false [] ts
      match rest with
      | .documentStart :: rest =>
        if endsDocument rest then some (.empty, rest)
        else Node.ofTokens? (handles ++ defaultHandles) .block fuel rest
      | _ => none
    else Node.ofTokens? defaultHandles .block fuel ts
  if rest.all (· == .documentEnd) then some root else none

end Seidel.Yaml
