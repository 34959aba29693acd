/-
  Reading YAML documents from their tokens.

  Each reader yields a node together with the tokens behind it.  Where a node is
  missing before another token, nothing is written, which is a node too.

  Readers are given fuel; `fuelFor` is more than a number of tokens uses.
-/
import FigureData.Yaml.Lexer

namespace FigureData.Yaml

/-! ## Properties -/

/-- What may stand before a node, each at most once. -/
structure Properties where
  number : Option Nat := none
  tag : Option Tag := none

/-- Reads an anchor and a tag, in either order. -/
def readProperties (handles : Handles) : List Token → Option (Properties × List Token)
  | .anchor n :: .tag form :: rest => (handles.tag? form).map fun tag => (⟨some n, some tag⟩, rest)
  | .tag form :: .anchor n :: rest => (handles.tag? form).map fun tag => (⟨some n, some tag⟩, rest)
  | .anchor n :: rest => some (⟨some n, none⟩, rest)
  | .tag form :: rest => (handles.tag? form).map fun tag => (⟨none, some tag⟩, rest)
  | tokens => some ({}, tokens)

namespace Properties

def isEmpty (p : Properties) : Bool := p.number.isNone && p.tag.isNone

end Properties

/-! ## Missing nodes -/

/-- What comes next instead of an item of a list. -/
def lacksItem : List Token → Bool
  | .hyphen :: _ | .dedent :: _ => true
  | _ => false

/-- What comes next instead of a part of a record, or of an item at its column. -/
def lacksPart : List Token → Bool
  | .name :: _ | .colon :: _ | .dedent :: _ => true
  | _ => false

/-- What comes next instead of a value between brackets. -/
def lacksValue (close : Token → Bool) : List Token → Bool
  | .comma :: _ => true
  | t :: _ => close t
  | [] => false

def isBracket : Token → Bool
  | .closeBracket => true
  | _ => false

def isBrace : Token → Bool
  | .closeBrace => true
  | _ => false

/-- What comes next instead of a name between brackets. -/
def lacksName (close : Token → Bool) : List Token → Bool
  | .colon :: _ => true
  | tokens => lacksValue close tokens

/-- The tokens after a comma, which stands before every entry but the first. -/
def afterComma? (first : Bool) : List Token → Option (List Token)
  | .comma :: rest => if first then some (.comma :: rest) else some rest
  | tokens => if first then some tokens else none

/-! ## Nodes -/

mutual

/-- Reads a node.  Blocks may begin only where `mayIndent`; items at the column of
a name, whose block has no token of its own, where `mayHang`. -/
def readNode (handles : Handles) (mayIndent mayHang : Bool) (tokens : List Token) :
    Nat → Option (Yaml × List Token)
  | 0 => none
  | fuel + 1 =>
    match tokens with
    | .alias n :: rest => some (.alias n, rest)
    | _ => do
      let (p, tokens) ← readProperties handles tokens
      let list := fun (items, rest) => (Yaml.list p.number items, rest)
      let record := fun (members, rest) => (Yaml.record p.number members, rest)
      match tokens with
      | .scalar form text :: rest => return (.scalar p.number p.tag form text, rest)
      | .openBracket :: rest => return list (← readElements handles true [] rest fuel)
      | .openBrace :: rest => return record (← readFields handles true [] rest fuel)
      | .indentList :: rest =>
        if mayIndent then return list (← readItems handles [] rest fuel) else none
      | .indentRecord :: rest =>
        if mayIndent then return record (← readMembers handles [] rest fuel) else none
      | .hyphen :: _ =>
        if mayHang then return list (← readHanging handles [] tokens fuel)
        else if p.isEmpty then none
        else return (.scalar p.number p.tag .plain "", tokens)
      | _ => if p.isEmpty then none else return (.scalar p.number p.tag .plain "", tokens)

/-- Reads the items of a list up to the end of its block. -/
def readItems (handles : Handles) (done : List Yaml) (tokens : List Token) :
    Nat → Option (List Yaml × List Token)
  | 0 => none
  | fuel + 1 => do
    match tokens with
    | .dedent :: rest => return (done.reverse, rest)
    | .hyphen :: rest =>
      if lacksItem rest then readItems handles (nothing :: done) rest fuel
      else
        let (item, rest) ← readNode handles true false rest fuel
        readItems handles (item :: done) rest fuel
    | _ => none

/-- Reads items at the column of a name, up to anything else. -/
def readHanging (handles : Handles) (done : List Yaml) (tokens : List Token) :
    Nat → Option (List Yaml × List Token)
  | 0 => none
  | fuel + 1 => do
    match tokens with
    | .hyphen :: rest =>
      if lacksItem rest || lacksPart rest then readHanging handles (nothing :: done) rest fuel
      else
        let (item, rest) ← readNode handles true false rest fuel
        readHanging handles (item :: done) rest fuel
    | _ => return (done.reverse, tokens)

/-- Reads the members of a record up to the end of its block. -/
def readMembers (handles : Handles) (done : List (Yaml × Yaml)) (tokens : List Token) :
    Nat → Option (List (Yaml × Yaml) × List Token)
  | 0 => none
  | fuel + 1 => do
    match tokens with
    | .dedent :: rest => return (done.reverse, rest)
    | .name :: rest =>
      let (name, rest) ← readPart handles rest fuel
      match rest with
      | .colon :: rest =>
        let (value, rest) ← readPart handles rest fuel
        readMembers handles ((name, value) :: done) rest fuel
      | _ => readMembers handles ((name, nothing) :: done) rest fuel
    | _ => none

/-- Reads a name or a value in a block. -/
def readPart (handles : Handles) (tokens : List Token) : Nat → Option (Yaml × List Token)
  | 0 => none
  | fuel + 1 =>
    if lacksPart tokens then some (nothing, tokens) else readNode handles true true tokens fuel

/-- Reads the elements of a list up to its bracket.  A name and its value make a
record of their own; a name that is missing takes up the token in its place. -/
def readElements (handles : Handles) (first : Bool) (done : List Yaml) (tokens : List Token) :
    Nat → Option (List Yaml × List Token)
  | 0 => none
  | fuel + 1 => do
    match tokens with
    | .closeBracket :: rest => return (done.reverse, rest)
    | _ =>
      match ← afterComma? first tokens with
      | .closeBracket :: rest => return (done.reverse, rest)
      | .name :: rest =>
        let (name, rest) ←
          if lacksName isBracket rest then some (nothing, rest.drop 1)
          else readNode handles false false rest fuel
        let (value, rest) ← readValue handles isBracket rest fuel
        readElements handles false (.record none [(name, value)] :: done) rest fuel
      | rest =>
        let (element, rest) ← readNode handles false false rest fuel
        readElements handles false (element :: done) rest fuel

/-- Reads the members of a record up to its brace. -/
def readFields (handles : Handles) (first : Bool) (done : List (Yaml × Yaml))
    (tokens : List Token) : Nat → Option (List (Yaml × Yaml) × List Token)
  | 0 => none
  | fuel + 1 => do
    match tokens with
    | .closeBrace :: rest => return (done.reverse, rest)
    | _ =>
      match ← afterComma? first tokens with
      | .closeBrace :: rest => return (done.reverse, rest)
      | .name :: rest =>
        let (name, rest) ←
          if lacksName isBrace rest then some (nothing, rest)
          else readNode handles false false rest fuel
        let (value, rest) ← readValue handles isBrace rest fuel
        readFields handles false ((name, value) :: done) rest fuel
      | rest =>
        let (name, rest) ← readNode handles false false rest fuel
        readFields handles false ((name, nothing) :: done) rest fuel

/-- Reads the value after a name between brackets, if there is a colon. -/
def readValue (handles : Handles) (close : Token → Bool) (tokens : List Token) :
    Nat → Option (Yaml × List Token)
  | 0 => none
  | fuel + 1 =>
    match tokens with
    | .colon :: rest =>
      if lacksValue close rest then some (nothing, rest)
      else readNode handles false false rest fuel
    | _ => some (nothing, tokens)

end

/-! ## Documents -/

/-- More fuel than the readers use on a number of tokens. -/
def fuelFor (tokens : Nat) : Nat := 3 * tokens + 3

/-- What the directives before a document say. -/
structure Directives where
  hasVersion : Bool := false
  handles : Handles := []

/-- Enters a directive; the version is given once, and so is each handle. -/
def Directives.enter? (d : Directives) : Directive → Option Directives
  | .version => if d.hasVersion then none else some { d with hasVersion := true }
  | .handle name start =>
    if (d.handles.lookup name).isSome then none
    else some { d with handles := (name, start) :: d.handles }

/-- Takes the directives off the front. -/
def readDirectives (d : Directives) : List Token → Option (Directives × List Token)
  | .directive own :: rest => (d.enter? own).bind fun d => readDirectives d rest
  | tokens => some (d, tokens)

/-- Does a document end before it has a node? -/
def lacksNode : List Token → Bool
  | [] | .directive _ :: _ | .documentBegin :: _ | .documentEnd :: _ => true
  | _ => false

/-- Is nothing left but marks that end the document? -/
def isFinished (tokens : List Token) : Bool :=
  tokens.all fun t =>
    match t with
    | .documentEnd => true
    | _ => false

/-- Reads the only document of a text.  Without the mark that begins it, it has
no directives. -/
def ofTokens? (tokens : List Token) : Option Yaml := do
  let (d, rest) ← readDirectives {} tokens
  let handles := d.handles ++ standardHandles
  let (node, rest) ←
    match rest with
    | .documentBegin :: rest =>
      if lacksNode rest then some (nothing, rest)
      else readNode handles true false rest (fuelFor rest.length)
    | [] => if tokens.isEmpty then some (nothing, []) else none
    | _ =>
      if rest.length = tokens.length then readNode handles true false rest (fuelFor rest.length)
      else none
  if isFinished rest then return node else none

/-- Reads the content of a file as one YAML document. -/
def read? (content : Bytes) : Option Yaml := do
  let text ← Bytes.text? content
  let tokens ← tokens? text.toList
  ofTokens? tokens

end FigureData.Yaml
