/-
  How deeply a pattern is nested.

  A pattern is a sequence of parts; sequences of several parts, choices, classes
  and repetitions each lie one level above what they hold.  A pattern that is
  nested more than `maxNesting` deep is refused.
-/
import FigureData.Bytes
import FigureData.Glob.Pattern

namespace FigureData.Glob

/-! ## Branches without effect -/

mutual

/-- A choice in which every branch is blank. -/
def Token.isBlank : Token → Bool
  | .choice branches => allBlank branches
  | _ => false

/-- A branch that asks for nothing. -/
def blankTokens : List Token → Bool
  | [] => true
  | t :: rest => t.isBlank && blankTokens rest

def allBlank : List (List Token) → Bool
  | [] => true
  | tokens :: rest => blankTokens tokens && allBlank rest

end

/-! ## Levels -/

/-- The levels of parts in a sequence or of alternatives, none of which is below a lone one. -/
def levelsOf (parts : List Nat) : Nat :=
  match parts with
  | [] => 0
  | [level] => level
  | _ => 1 + parts.foldl max 0

/-- How many bytes a character has. -/
def byteCount (c : Char) : Nat := (Bytes.ofText (String.singleton c)).length

/-- How many elements a class has: the characters of a range stand for their bytes,
two of which its hyphen joins. -/
def elementCount (ranges : List (Char × Char)) : Nat :=
  ranges.foldl (fun n r =>
    n + if r.1 = r.2 then byteCount r.1 else byteCount r.1 + byteCount r.2 - 1) 0

mutual

/-- The levels of the parts that a token stands for. -/
def Token.levels : Token → List Nat
  | .literal c => List.replicate (byteCount c) 0
  | .any => [0]
  | .zeroOrMore => [1]
  | .foldersBefore => [4]
  | .everythingBelow => [0, 1]
  | .foldersBetween => [4]
  | .oneOf _ ranges => [if elementCount ranges < 2 then 1 else 2]
  | .choice branches => if allBlank branches then [] else [1 + levelsOf (branchLevels branches)]

def levelsAll : List Token → List Nat
  | [] => []
  | t :: rest => t.levels ++ levelsAll rest

/-- The levels of the branches that are not blank. -/
def branchLevels : List (List Token) → List Nat
  | [] => []
  | tokens :: rest =>
    if blankTokens tokens then branchLevels rest
    else levelsOf (levelsAll tokens) :: branchLevels rest

end

/-- How deep a pattern is nested, its two ends being parts of it. -/
def nesting (tokens : List Token) : Nat := levelsOf (0 :: levelsAll tokens ++ [0])

def maxNesting : Nat := 250

end FigureData.Glob
