import Duel.Yaml.Node
import Duel.Yaml.Slots

/-!
The lists and tables that nodes make up. They know each other by name, so that one can be inside of
itself. A list or table is there before its parts are: the parts are looked at one level after the
other, so a fault in an outer part is found before those in the parts of its parts.
-/

namespace Duel.Yaml

/-- A value that is complete, or a list or table by its name. -/
inductive Part
  | leaf (value : Document)
  | branch (name : String)
  deriving Inhabited

inductive Shape
  | list (items : List Part)
  | table (fields : List (Document × Part))
  | set (items : List Document)
  deriving Inhabited

/-- A list or table that is still empty, and the node that tells what goes into it. -/
structure Opening where
  name : String
  tag : Tag
  node : Node

structure Graph where
  /-- What the names in the text stand for. -/
  anchors : List (String × Node)
  /-- The tables whose fields are others by now than in the text. -/
  tables : List (String × List (Node × Node)) := []
  /-- The signs that have become mere texts. -/
  texts : List String := []
  values : List (String × Part) := []
  shapes : List (String × Shape) := []
  /-- What is still empty, the last one first. -/
  openings : List Opening := []

namespace Graph

abbrev Build (α : Type) := StateT Graph (Except Fault) α

/-- A node without the name that it has or is meant by, and that name. -/
def locate (n : Node) : Build (String × Node) := do
  match n with
  | .named name n => return (name, n)
  | .reference name => return (name, ((← get).anchors.lookup name).getD .empty)
  | n => return ("", n)

def tagOf (n : Node) : Build Tag := do
  let (name, bare) ← locate n
  let tag := match bare with
    | .scalar tag _ | .sequence tag _ | .mapping tag _ => tag
    | .named .. | .reference _ => .unknown
  return if (← get).texts.contains name then .text else tag

def fieldsOf (name : String) (fields : List (Node × Node)) : Build (List (Node × Node)) := do
  return ((← get).tables.lookup name).getD fields

def setFields (name : String) (fields : List (Node × Node)) : Build Unit :=
  modify fun g => { g with tables := (name, fields) :: g.tables.filter (·.1 != name) }

def textOf : Nat → Node → Build String
  | 0, _ => throw .tooDeep
  | fuel + 1, n => do
    match ← locate n with
    | (_, .scalar _ text) => return text
    | (name, .mapping _ fields) =>
      match ← (← fieldsOf name fields).findM? fun f => return (← tagOf f.1) == .sign with
      | some (_, v) => textOf fuel v
      | none => throw .construction
    | _ => throw .construction

def textDepth : Nat := 960

/-- Puts the fields that a table takes over before its own, which are looked at from place `i` on;
`taken` is what it has taken so far. A sign among its keys is a mere text from then on. -/
def takeOver : Nat → String → List (Node × Node) → (i : Nat) → List (Node × Node) → Build Unit
  | 0, _, _, _, _ => throw .tooDeep
  | fuel + 1, name, written, i, taken => do
    let fields ← fieldsOf name written
    match fields[i]? with
    | none => if !taken.isEmpty then setFields name (taken ++ fields)
    | some (key, source) =>
      match ← tagOf key with
      | .merge =>
        setFields name (fields.eraseIdx i)
        let fromTable (n : Node) : Build (List (Node × Node)) := do
          match ← locate n with
          | (name, .mapping _ fields) =>
            takeOver fuel name fields 0 []
            fieldsOf name fields
          | _ => throw .construction
        let more ← match ← locate source with
          | (_, .sequence _ items) => pure (← items.mapM fromTable).reverse.flatten
          | _ => fromTable source
        takeOver fuel name written i (taken ++ more)
      | .sign =>
        let (sign, _) ← locate key
        modify fun g => { g with texts := sign :: g.texts }
        takeOver fuel name written (i + 1) taken
      | _ => takeOver fuel name written (i + 1) taken

def fieldLimit : Nat := 0x10000000000

def allFields (name : String) (fields : List (Node × Node)) : Build (List (Node × Node)) := do
  takeOver fieldLimit name fields 0 []
  fieldsOf name fields

/-- A value under a tag for texts. A date is looked for in the form of the node itself. -/
def valueOf (tag : Tag) (n : Node) : Build Document := do
  let text ← textOf textDepth n
  match tag, ← locate n with
  | .moment, (_, .mapping ..) => throw .noText
  | _, _ => Scalar.read tag text

/-- The part that a node is, made once. A list or table is empty at first. -/
def part (n : Node) : Build Part := do
  let (name, bare) ← locate n
  match (← get).values.lookup name with
  | some p => return p
  | none =>
    let keep (p : Part) : Build Part := do
      if name != "" then modify fun g => { g with values := (name, p) :: g.values }
      return p
    match ← tagOf n with
    | .merge | .sign | .unknown => throw .construction
    | tag =>
      if [.list, .table, .set, .pairs].contains tag then
        modify fun g => { g with openings := ⟨name, tag, bare⟩ :: g.openings }
        keep (.branch name)
      else keep (.leaf (← valueOf tag n))

def keyOf (n : Node) : Build Document := do
  match ← part n with
  | .leaf d => return d
  | .branch _ => throw .construction

/-- What tells a key from others that are read like it: a NaN is the same key as another if both
are the same node, or if both are written as such. -/
def markOf (n : Node) (key : Document) : Build String := do
  match key with
  | .number x =>
    if !x.isNaN || Scalar.isPlainNaN (← textOf textDepth n) then return ""
    return (← locate n).1
  | _ => return ""

def tableOf (fields : List (Node × Node)) : Build (List (Document × Part)) := do
  let known ← fields.foldlM (fun known (k, v) => do
    let key ← keyOf k
    let mark ← markOf k key
    return put mark key (← part v) known) []
  return known.map Prod.snd
where
  put (mark : String) (key : Document) (p : Part) :
      List (String × Document × Part) → List (String × Document × Part)
    | [] => [(mark, key, p)]
    | (m, k, q) :: rest =>
      if m == mark && Document.sameKey k key then (m, k, p) :: rest
      else (m, k, q) :: put mark key p rest

def pairOf (n : Node) : Build (Part × Part) := do
  match ← locate n with
  | (name, .mapping _ fields) =>
    match ← fieldsOf name fields with
    | [(k, v)] =>
      let key ← part k
      return (key, ← part v)
    | _ => throw .construction
  | _ => throw .construction

def shapeOf (o : Opening) : Build Shape := do
  match o.tag, o.node with
  | .list, .sequence _ items => return .list (← items.mapM part)
  | .pairs, .sequence _ items =>
    let pairs ← items.mapM pairOf
    let named := pairs.zipIdx.map fun ((k, v), i) => (o.name ++ "#" ++ toString i, k, v)
    modify fun g => { g with
      shapes := named.map (fun (name, k, v) => (name, .list [k, v])) ++ g.shapes }
    return .list (named.map fun (name, _, _) => .branch name)
  | .table, .mapping _ fields => return .table (← tableOf (← allFields o.name fields))
  | .set, .mapping _ fields =>
    return .set (Slots.order ((← tableOf (← allFields o.name fields)).map Prod.fst))
  | _, _ => throw .construction

def fill (o : Opening) : Build Unit := do
  let shape ← shapeOf o
  modify fun g => { g with shapes := (o.name, shape) :: g.shapes }

def fillAll : Nat → Build Unit
  | 0 => return
  | fuel + 1 => do
    match (← get).openings.reverse with
    | [] => return
    | openings =>
      modify fun g => { g with openings := [] }
      openings.forM fill
      fillAll fuel

/-- How often a list or table that is inside of itself is written out. -/
def unrolled : Nat := 4

def document (g : Graph) : Nat → List String → Part → Document
  | 0, _, _ => .endless
  | _ + 1, _, .leaf d => d
  | fuel + 1, inside, .branch name =>
    if unrolled ≤ inside.count name then .endless
    else
      let inner := g.document fuel (name :: inside)
      match g.shapes.lookup name with
      | some (.list items) => .list (items.map inner)
      | some (.table fields) => .table (fields.map fun (k, p) => (k, inner p))
      | some (.set items) => .set items
      | none => .endless

def documentOf (size : Nat) (n : Node) (anchors : List (String × Node)) :
    Except Fault Document := do
  let (p, g) ← (do
    let p ← part n
    fillAll (size + 2)
    return p : Build Part).run { anchors }
  return g.document ((unrolled + 2) * (size + 2)) [] p

end Graph

def isPrintable (c : Char) : Bool :=
  c == '\t' || c == '\n' || c == '\r' || (' ' ≤ c && c ≤ '~') || c == '\x85' ||
    ('\xa0' ≤ c && c != '\uFFFE' && c != '\uFFFF')

/-- Reads the only document of a text; a text without one stands for nothing. -/
def read (text : String) : Except Fault Document := do
  if text.toList.any (!isPrintable ·) then throw .unprintable
  let tokens := Token.ofText text
  match ← Node.ofTokens tokens with
  | (none, _) => return .null
  | (some node, anchors) => Graph.documentOf tokens.length node anchors

end Duel.Yaml
