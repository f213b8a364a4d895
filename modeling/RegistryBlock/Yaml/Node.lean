import RegistryBlock.Yaml.Tag
import RegistryBlock.Yaml.Token

/-!
# YAML nodes

The tree of a document. Every node bears its tag in full. An alias is replaced by the node it
stands for; inside that node itself it becomes a `loop`.
-/

namespace RegistryBlock.Yaml

inductive Node where
  | scalar (tag : String) (text : String)
  | seq (tag : String) (items : List Node)
  | map (tag : String) (entries : List (Node × Node))
  | loop

/-- What is left to read of a document. `anchors` holds the nodes that aliases stand for, and
nothing for a node that is not finished. -/
structure Reading where
  tokens : List Token
  anchors : List (String × Option Node) := []
  handles : List (String × String) := []

abbrev ReadM := StateT Reading (Except Error)

namespace Node

/-- The tag handles that need no directive. -/
def defaultHandles : List (String × String) := [("!", "!"), ("!!", Tag.core "")]

def peek? : ReadM (Option Token) := return (← get).tokens.head?

def skip : ReadM Unit := modify fun r => { r with tokens := r.tokens.tail }

def atAny (tokens : List Token) : ReadM Bool := do
  match ← peek? with
  | none => return true
  | some token => return tokens.contains token

def isAt (token : Token) : ReadM Bool := return (← peek?) = some token

/-- Moves past the given token, which has to be the next one. -/
def expect (token : Token) : ReadM Unit := do
  if ← isAt token then skip else throw .shape

def empty : Node := .scalar (Tag.ofPlain "") ""

structure Properties where
  anchor : Option String := none
  tag : Option String := none

def fullTag (h : Option String) (suffix : String) : ReadM String := do
  match h with
  | none => return suffix
  | some h =>
    match (← get).handles.lookup h with
    | some expansion => return expansion ++ suffix
    | none => throw .shape

/-- Reads at most one anchor and one tag. -/
def properties : ReadM Properties := do
  match ← peek? with
  | some (.anchor name) =>
    skip
    match ← peek? with
    | some (.tag h suffix) =>
      skip
      return { anchor := some name, tag := some (← fullTag h suffix) }
    | _ => return { anchor := some name }
  | some (.tag h suffix) =>
    skip
    match ← peek? with
    | some (.anchor name) =>
      skip
      return { anchor := some name, tag := some (← fullTag h suffix) }
    | _ => return { tag := some (← fullTag h suffix) }
  | _ => return {}

namespace Properties

def collectionTag (p : Properties) (default : String) : String :=
  match p.tag with
  | none | some "!" => default
  | some tag => tag

/-- The tag of a scalar. The tag `!` makes it plain. -/
def scalarTag (p : Properties) (text : String) (isPlain : Bool) : String :=
  match p.tag with
  | some "!" => Tag.ofPlain text
  | some tag => tag
  | none => if isPlain then Tag.ofPlain text else Tag.str

end Properties

/-- Reads a node that bears an anchor, if there is one. -/
def anchored (anchor : Option String) (read : ReadM Node) : ReadM Node := do
  match anchor with
  | none => read
  | some name =>
    if ((← get).anchors.lookup name).isSome then throw .anchor
    modify fun r => { r with anchors := (name, none) :: r.anchors }
    let node ← read
    modify fun r => { r with anchors := (name, some node) :: r.anchors }
    return node

def aliased (name : String) : ReadM Node := do
  match (← get).anchors.lookup name with
  | some (some node) => return node
  | some none => return .loop
  | none => throw .anchor

/-- Where a node stands: whether block collections may begin there, and whether a sequence may do
so without indentation. -/
inductive Place where
  | block
  | blockValue
  | flow
deriving DecidableEq

mutual

def node (place : Place) : Nat → ReadM Node
  | 0 => throw .shape
  | depth + 1 => do
    match ← peek? with
    | some (.alias name) =>
      skip
      aliased name
    | _ =>
      let p ← properties
      let token ← peek?
      match token with
      | some .blockItem =>
        if place = .blockValue then
          anchored p.anchor do
            return .seq (p.collectionTag Tag.seq) (← bareItems depth)
        else bare p
      | some (.scalar text isPlain) =>
        anchored p.anchor do
          skip
          return .scalar (p.scalarTag text isPlain) text
      | some .flowSequenceStart =>
        anchored p.anchor do
          skip
          return .seq (p.collectionTag Tag.seq) (← flowItems true depth)
      | some .flowMappingStart =>
        anchored p.anchor do
          skip
          return .map (p.collectionTag Tag.map) (← flowEntries true depth)
      | some .blockSequenceStart =>
        if place = .flow then bare p
        else
          anchored p.anchor do
            skip
            return .seq (p.collectionTag Tag.seq) (← blockItems depth)
      | some .blockMappingStart =>
        if place = .flow then bare p
        else
          anchored p.anchor do
            skip
            return .map (p.collectionTag Tag.map) (← blockEntries depth)
      | _ => bare p

/-- A node with properties and no content. -/
def bare (p : Properties) : ReadM Node :=
  match p.anchor, p.tag with
  | none, none => throw .shape
  | anchor, _ => anchored anchor (return .scalar (p.scalarTag "" true) "")

/-- A node, or an empty one if one of the given tokens comes next. -/
def nodeUnless (tokens : List Token) (place : Place) : Nat → ReadM Node
  | 0 => throw .shape
  | depth + 1 => do
    if ← atAny tokens then return empty else node place depth

def blockItems : Nat → ReadM (List Node)
  | 0 => throw .shape
  | depth + 1 => do
    if ← isAt .blockItem then
      skip
      let item ← nodeUnless [.blockItem, .blockEnd] .block depth
      return item :: (← blockItems depth)
    else
      expect .blockEnd
      return []

def bareItems : Nat → ReadM (List Node)
  | 0 => throw .shape
  | depth + 1 => do
    if ← isAt .blockItem then
      skip
      let item ← nodeUnless [.blockItem, .key, .value, .blockEnd] .block depth
      return item :: (← bareItems depth)
    else return []

def blockEntries : Nat → ReadM (List (Node × Node))
  | 0 => throw .shape
  | depth + 1 => do
    if ← isAt .key then
      skip
      let key ← nodeUnless [.key, .value, .blockEnd] .blockValue depth
      let entry ←
        if ← isAt .value then
          skip
          pure (key, ← nodeUnless [.key, .value, .blockEnd] .blockValue depth)
        else pure (key, empty)
      return entry :: (← blockEntries depth)
    else
      expect .blockEnd
      return []

/-- The items of a flow sequence up to its closing mark. A key makes an item of its own. -/
def flowItems (first : Bool) : Nat → ReadM (List Node)
  | 0 => throw .shape
  | depth + 1 => do
    if ← isAt .flowSequenceEnd then
      skip
      return []
    else
      if !first then expect .flowItem
      if ← isAt .key then
        skip
        let key ← nodeUnless [.value, .flowItem, .flowSequenceEnd] .flow depth
        let value ←
          if ← isAt .value then
            skip
            nodeUnless [.flowItem, .flowSequenceEnd] .flow depth
          else pure empty
        return .map Tag.map [(key, value)] :: (← flowItems false depth)
      else if ← isAt .flowSequenceEnd then
        skip
        return []
      else
        let item ← node .flow depth
        return item :: (← flowItems false depth)

def flowEntries (first : Bool) : Nat → ReadM (List (Node × Node))
  | 0 => throw .shape
  | depth + 1 => do
    if ← isAt .flowMappingEnd then
      skip
      return []
    else
      if !first then expect .flowItem
      if ← isAt .key then
        skip
        let key ← nodeUnless [.value, .flowItem, .flowMappingEnd] .flow depth
        let value ←
          if ← isAt .value then
            skip
            nodeUnless [.flowItem, .flowMappingEnd] .flow depth
          else pure empty
        return (key, value) :: (← flowEntries false depth)
      else if ← isAt .flowMappingEnd then
        skip
        return []
      else
        let key ← node .flow depth
        return (key, empty) :: (← flowEntries false depth)

end

/-! ### Documents -/

def skipEnds : Nat → ReadM Unit
  | 0 => return
  | turns + 1 => do
    if ← isAt .documentEnd then
      skip
      skipEnds turns

def directives (version : Bool) (handles : List (String × String)) :
    Nat → ReadM (List (String × String))
  | 0 => throw .shape
  | turns + 1 => do
    match ← peek? with
    | some (.directive (.version major)) =>
      if version || major ≠ 1 then throw .shape
      skip
      directives true handles turns
    | some (.directive (.tag h expansion)) =>
      if (handles.lookup h).isSome then throw .shape
      skip
      directives version ((h, expansion) :: handles) turns
    | some (.directive .other) =>
      skip
      directives version handles turns
    | _ => return handles

/-- Whether the next token belongs to the frame of a document. -/
def atFrame : ReadM Bool := do
  match ← peek? with
  | none | some .documentStart | some .documentEnd | some (.directive _) => return true
  | _ => return false

def markedDocument? (turns : Nat) : ReadM (Option Node) := do
  skipEnds turns
  if (← peek?).isNone then return none
  let handles ← directives false [] turns
  modify fun r => { r with handles := handles ++ defaultHandles }
  expect .documentStart
  if ← atFrame then return some empty
  return some (← node .block turns)

def document? (turns : Nat) : ReadM (Option Node) := do
  let found ← (do
    match ← peek? with
    | none | some .documentStart | some (.directive _) => markedDocument? turns
    | _ =>
      modify fun r => { r with handles := defaultHandles }
      return some (← node .block turns))
  skipEnds turns
  if (← peek?).isSome then throw .shape
  return found

/-- The node that a row of tokens describes, if it holds a document at all. -/
def ofTokens? (tokens : List Token) : Except Error (Option Node) := do
  let (found, _) ← (document? (6 * tokens.length + 6)).run { tokens }
  return found

end Node

end RegistryBlock.Yaml
