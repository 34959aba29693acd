/-
  Extraction driven by the strategies of a descriptor.

  A document contributes the samples of the strategies its name admits, the
  ideal value and the scalars.  Contributions with the same identifier meet in
  one entity: samples and scalars overwrite, an ideal value overwrites when
  present.
-/
import FigureData.Entity.Basic
import FigureData.Extraction.Reading

namespace FigureData.Extraction

/-- What a descriptor says about reading documents. -/
structure StrategyRules where
  strategies : List Strategy
  ideal : Option String
  scalars : List (String × String)

def StrategyRules.ofDescriptor (d : Descriptor) : StrategyRules :=
  ⟨d.strategies, d.ideal, d.entityScalars⟩

/-- What one document adds to an entity. -/
structure Contribution where
  id : String
  samples : List (String × Sample)
  ideal : Option Float
  scalars : SortedMap String Float

namespace StrategyRules

/-- Is the strategy held by files of this name? -/
def applies (s : Strategy) (file : String) : Bool :=
  match s.fileSuffix with
  | some suffix => (Text.beforeTail? suffix.toList file.toList).isSome
  | none => true

/-- The identifier a file name stands for: the name without the first declared
suffix that it has, else its stem. -/
def identify (rules : StrategyRules) (r : Record) : String :=
  let suffixes := rules.strategies.filterMap Strategy.fileSuffix
  match suffixes.findSome? fun suffix => Text.beforeTail? suffix.toList r.fileName.toList with
  | some front => String.ofList front
  | none => r.stem

def readIdeal (rules : StrategyRules) (j : Json) (file : String) : Except Fault (Option Float) :=
  match rules.ideal with
  | some pointer => do measurement (← require j pointer file) pointer file
  | none => .ok none

def readScalars (rules : StrategyRules) (j : Json) (file : String) :
    Except Fault (SortedMap String Float) := do
  let pairs ← rules.scalars.mapM fun (name, pointer) => do
    return (name, ← requireNumber j pointer file)
  return .ofList pairs

/-- What a record contributes; nothing when no strategy is held by its file. -/
def read (rules : StrategyRules) (r : Record) : Except Fault (Option Contribution) := do
  let j ← r.document
  let file := r.fileName
  let held := rules.strategies.filter fun s => applies s file
  let samples ← held.mapM fun s => do return (s.label, ← readSample j s.source file)
  if samples.isEmpty then return none
  else
    let ideal ← rules.readIdeal j file
    let scalars ← rules.readScalars j file
    return some ⟨rules.identify r, samples, ideal, scalars⟩

end StrategyRules

/-- Adds a contribution to the entity it belongs to. -/
def Contribution.addTo (c : Contribution) (e : Entity) : Entity where
  id := e.id
  discovery := e.discovery
  ideal := c.ideal.or e.ideal
  samples := e.samples.insertAll c.samples
  scalars := e.scalars.insertAll c.scalars.entries

/-- Adds a contribution to the entities found so far; a new entity is discovered after them. -/
def Contribution.enter (c : Contribution) (entities : OrderedMap Entity) : OrderedMap Entity :=
  let e := (entities.find? c.id).getD { id := c.id, discovery := entities.size }
  entities.insert c.id (c.addTo e)

end FigureData.Extraction

namespace FigureData

/-- An entity lacks the file of one of the strategies. -/
def Fault.missingStrategyFile (label id suffix : String) : Fault :=
  (inFile "missing_strategy_file" ("no " ++ label ++ " result for " ++ id)
    (id ++ suffix)).withContext "entity" id

namespace Extraction

/-- The first strategy with files of its own that an entity has no sample of. -/
def missingStrategy? (strategies : List Strategy) (e : Entity) : Option Fault :=
  strategies.findSome? fun s =>
    match s.fileSuffix with
    | some suffix =>
      if e.samples.contains s.label then none
      else some (.missingStrategyFile s.label e.id suffix)
    | none => none

/-- All entities, unless one is incomplete. -/
def StrategyRules.complete (rules : StrategyRules) (entities : List Entity) :
    Except Fault (List Entity) :=
  match entities.findSome? (missingStrategy? rules.strategies) with
  | some fault => .error fault
  | none => .ok entities

end Extraction

end FigureData
