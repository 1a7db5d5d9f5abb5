import Duel.Yaml.Scalar
import Duel.Yaml.Token

namespace Duel.Yaml

inductive Node
  | scalar (tag : Tag) (text : String)
  | sequence (tag : Tag) (items : List Node)
  | mapping (tag : Tag) (fields : List (Node × Node))
  /-- A node that has been given a name. -/
  | named (name : String) (node : Node)
  /-- The node that a name stands for, be it one that this node is in. -/
  | reference (name : String)
  deriving Inhabited

namespace Node

def empty : Node := scalar .nothing ""

/-- The tokens still to come, the names that were given, and what they stand for. -/
structure State where
  tokens : List Token
  names : List String := []
  anchors : List (String × Node) := []
  /-- The handles of tags, and what they stand for. -/
  handles : List (String × String) := Tag.handles
  /-- How many names were given to nodes that came without one. -/
  made : Nat := 0
  /-- How many lists and tables the next node is in. -/
  depth : Nat := 0

abbrev Parse (α : Type) := StateT State (Except Fault) α

def next : Parse Token := do
  match (← get).tokens with
  | .fault cause :: _ => throw cause
  | t :: _ => return t
  | [] => throw .tokens

def drop : Parse Unit := modify fun s => { s with tokens := s.tokens.drop 1 }

def accept (t : Token) : Parse Bool := do
  if (← next) == t then
    drop
    return true
  else return false

def expect (t : Token) : Parse Unit := do
  if !(← accept t) then throw .grammar

/-- Where in its surroundings a node stands: whether it can be a block, and whether entries
without an indent of their own make a list of it. -/
structure Position where
  block : Bool
  indentless : Bool := false

structure Properties where
  anchor : Option String := none
  tag : Option Tag.Spelling := none

def properties : Nat → Properties → Parse Properties
  | 0, p => return p
  | fuel + 1, p => do
    match ← next, p with
    | .anchor a, { anchor := none, .. } =>
      drop
      properties fuel { p with anchor := some a }
    | .tag t, { tag := none, .. } =>
      drop
      properties fuel { p with tag := some t }
    | _, _ => return p

inductive Mark
  | none
  /-- What the node is shows in its form, even if it is in quotes. -/
  | loose
  | known (tag : Tag)

def markOf (p : Properties) : Parse Mark := do
  match p.tag with
  | none => return .none
  | some spelling =>
    match spelling.name? (← get).handles with
    | none => throw .grammar
    | some "!" => return .loose
    | some name => return .known (.ofName name)

def Mark.tagOr (usual : Tag) : Mark → Tag
  | none | loose => usual
  | known tag => tag

def Mark.ofScalar (text : String) (plain : Bool) : Mark → Tag
  | none => if plain then Scalar.tagOf text else .text
  | loose => Scalar.tagOf text
  | known tag => tag

def depthLimit : Nat := 489

def inside {α : Type} (make : Parse α) : Parse α := do
  if depthLimit ≤ (← get).depth then throw .tooDeep
  modify fun s => { s with depth := s.depth + 1 }
  let a ← make
  modify fun s => { s with depth := s.depth - 1 }
  return a

/-- Gives a node its name, which the parts of the node know already. No name is given twice. What
gets none is named by a number, unless it is a scalar that is like any other of its text. -/
def naming (anchor : Option String) (make : Parse Node) : Parse Node := do
  match anchor with
  | none =>
    let number ← modifyGet fun s => (s.made, { s with made := s.made + 1 })
    let own (n : Node) : Node := named ("#" ++ toString number) n
    match ← make with
    | scalar tag text =>
      let isOwn := tag == .sign || (tag == .double && Scalar.becomesNaN text)
      return if isOwn then own (scalar tag text) else scalar tag text
    | n => return own n
  | some a =>
    if (← get).names.contains a then throw .composition
    modify fun s => { s with names := a :: s.names }
    let node ← make
    modify fun s => { s with anchors := (a, node) :: s.anchors }
    return named a node

mutual

def value (ends : List Token) (pos : Position) : Nat → Parse Node
  | 0 => throw .grammar
  | fuel + 1 => do
    if ends.contains (← next) then return empty else node pos fuel

def node (pos : Position) : Nat → Parse Node
  | 0 => throw .grammar
  | fuel + 1 => do
    match ← next with
    | .reference a => do
      drop
      if (← get).names.contains a then return reference a else throw .composition
    | _ => do
      let p ← properties 2 {}
      let mark ← markOf p
      let _ ← next
      naming p.anchor (content pos p.anchor.isSome mark fuel)

def content (pos : Position) (isNamed : Bool) (mark : Mark) : Nat → Parse Node
  | 0 => throw .grammar
  | fuel + 1 => do
    let t ← next
    let listTag := mark.tagOr .list
    let tableTag := mark.tagOr .table
    match t, pos.block, pos.indentless with
    | .blockEntry, _, true => return .sequence listTag (← inside (entries true fuel))
    | .scalar text plain, _, _ =>
      drop
      return .scalar (mark.ofScalar text plain) text
    | .flowSequenceStart, _, _ =>
      drop
      return .sequence listTag (← inside (flowItems true fuel))
    | .flowMappingStart, _, _ =>
      drop
      return .mapping tableTag (← inside (flowFields true fuel))
    | .sequenceStart, true, _ =>
      drop
      return .sequence listTag (← inside (entries false fuel))
    | .mappingStart, true, _ =>
      drop
      return .mapping tableTag (← inside (fields fuel))
    | _, _, _ =>
      match isNamed, mark with
      | false, .none => throw .grammar
      | _, mark => return .scalar (mark.ofScalar "" true) ""

/-- The entries of a list; one without an indent ends with its last entry. -/
def entries (indentless : Bool) : Nat → Parse (List Node)
  | 0 => throw .grammar
  | fuel + 1 => do
    if ← accept .blockEntry then
      let ends :=
        if indentless then [.blockEntry, .key, .value, .blockEnd] else [.blockEntry, .blockEnd]
      let item ← value ends { block := true } fuel
      return item :: (← entries indentless fuel)
    else
      if !indentless then expect .blockEnd
      return []

def fields : Nat → Parse (List (Node × Node))
  | 0 => throw .grammar
  | fuel + 1 => do
    let ends := [.key, .value, .blockEnd]
    let pos : Position := { block := true, indentless := true }
    match ← next with
    | .key =>
      drop
      let k ← value ends pos fuel
      let v ← if ← accept .value then value ends pos fuel else pure empty
      return (k, v) :: (← fields fuel)
    | _ =>
      expect .blockEnd
      return []

def flowItems (first : Bool) : Nat → Parse (List Node)
  | 0 => throw .grammar
  | fuel + 1 => do
    if ← accept .flowSequenceEnd then return []
    if !first then expect .flowEntry
    match ← next with
    | .key =>
      let item ← naming none do
        drop
        let k ← value [.value, .flowEntry, .flowSequenceEnd] { block := false } fuel
        let v ← if ← accept .value then
            value [.flowEntry, .flowSequenceEnd] { block := false } fuel
          else pure empty
        return .mapping .table [(k, v)]
      return item :: (← flowItems false fuel)
    | .flowSequenceEnd =>
      drop
      return []
    | _ =>
      let item ← node { block := false } fuel
      return item :: (← flowItems false fuel)

def flowFields (first : Bool) : Nat → Parse (List (Node × Node))
  | 0 => throw .grammar
  | fuel + 1 => do
    if ← accept .flowMappingEnd then return []
    if !first then expect .flowEntry
    match ← next with
    | .key =>
      drop
      let k ← value [.value, .flowEntry, .flowMappingEnd] { block := false } fuel
      let v ← if ← accept .value then
          value [.flowEntry, .flowMappingEnd] { block := false } fuel
        else pure empty
      return (k, v) :: (← flowFields false fuel)
    | .flowMappingEnd =>
      drop
      return []
    | _ =>
      let k ← node { block := false } fuel
      return (k, empty) :: (← flowFields false fuel)

end

/-- The directives before a document, which has to begin with a mark then. Only one of them tells
the version, and none gives a handle a second meaning. -/
def opening (versioned : Bool) (handles : List (String × String)) : Nat → Parse Unit
  | 0 => throw .grammar
  | fuel + 1 => do
    match ← next with
    | .directive said =>
      drop
      match said with
      | .version major =>
        if versioned || major ≠ 1 then throw .grammar
        opening true handles fuel
      | .handle name start =>
        if (handles.lookup name).isSome then throw .grammar
        opening versioned ((name, start) :: handles) fuel
      | .other => opening versioned handles fuel
    | _ =>
      modify fun s => { s with handles := handles ++ Tag.handles }
      expect .documentStart

def ends : Nat → Parse Unit
  | 0 => throw .grammar
  | fuel + 1 => do
    if ← accept .documentEnd then ends fuel

def isDirective : Token → Bool
  | .directive _ => true
  | _ => false

def root (fuel : Nat) : Parse (Option Node) := do
  let marksOff (t : Token) : Bool := isDirective t || t == .documentStart || t == .streamEnd
  let t ← next
  let top ←
    if t == .streamEnd then pure none
    else do
      if marksOff t then opening false [] fuel
      let u ← next
      if marksOff t && (marksOff u || u == .documentEnd) then pure (some empty)
      else some <$> node { block := true } fuel
  ends fuel
  if (← next) == .streamEnd then return top
  else
    opening false [] fuel
    throw .composition

def ofTokens (tokens : List Token) : Except Fault (Option Node × List (String × Node)) :=
  ((root (4 * tokens.length + 8)).run { tokens }).map fun (node, s) => (node, s.anchors)

end Node

end Duel.Yaml
