/-
  Words of a command line, told apart before any of them is given a meaning.

  A word that begins with two hyphens names a flag or an option; the value of
  an option follows it, or stands behind an equals sign.  After two hyphens
  alone every word stands for itself.  Nothing may be said twice.
-/
import FigureData.Text.Split

namespace FigureData

/-- The names that a command knows. -/
structure Vocabulary where
  flags : List String := []
  /-- Names that take a value. -/
  options : List String := []

/-- What a command line says. -/
structure Arguments where
  flags : List String := []
  options : List (String × String) := []
  /-- Words that stand for themselves. -/
  plain : List String := []
  deriving DecidableEq

namespace Arguments

def hasFlag (a : Arguments) (name : String) : Bool := a.flags.contains name

def option? (a : Arguments) (name : String) : Option String := a.options.lookup name

/-! ## Words -/

/-- Does a word look like a flag or an option?  A single hyphen does not. -/
def looksNamed (word : List Char) : Bool :=
  match word with
  | '-' :: _ :: _ => true
  | _ => false

/-- A name after two hyphens, and the value behind an equals sign. -/
def named (word : List Char) : String × Option String :=
  match Text.cutAt? '=' word with
  | some (name, value) => (String.ofList name, some (String.ofList value))
  | none => (String.ofList word, none)

/-! ## Gathering -/

def addFlag? (a : Arguments) (name : String) : Option Arguments :=
  if a.hasFlag name then none else some { a with flags := a.flags ++ [name] }

def addOption? (a : Arguments) (name value : String) : Option Arguments :=
  if (a.option? name).isSome then none
  else some { a with options := a.options ++ [(name, value)] }

def addPlain (a : Arguments) (words : List String) : Arguments :=
  { a with plain := a.plain ++ words }

/-- Where the reader of a command line stands. -/
structure Gathering where
  said : Arguments := {}
  /-- An option that still needs its value. -/
  owed : Option String := none

/-- Takes a word with a name. -/
def takeNamed (v : Vocabulary) (a : Arguments) (word : List Char) : Option Gathering :=
  match named word with
  | (name, none) =>
    if v.flags.contains name then (a.addFlag? name).map fun said => { said }
    else if v.options.contains name then some { said := a, owed := some name }
    else none
  | (name, some value) =>
    if v.options.contains name then (a.addOption? name value).map fun said => { said }
    else none

/-- Takes the words one after the other. -/
def gatherFrom (v : Vocabulary) (g : Gathering) : List String → Option Arguments
  | [] => if g.owed.isSome then none else some g.said
  | word :: rest =>
    match g.owed with
    | some name =>
      if looksNamed word.toList then none
      else (g.said.addOption? name word).bind fun said => gatherFrom v { said } rest
    | none =>
      if word = "--" then some (g.said.addPlain rest)
      else if !looksNamed word.toList then gatherFrom v { said := g.said.addPlain [word] } rest
      else
        match Text.afterLead? ['-', '-'] word.toList with
        | some text => (takeNamed v g.said text).bind fun g => gatherFrom v g rest
        | none => none

/-- What the words of a command line say, if it knows all of their names. -/
def gather (v : Vocabulary) (words : List String) : Option Arguments := gatherFrom v {} words

end Arguments

end FigureData
