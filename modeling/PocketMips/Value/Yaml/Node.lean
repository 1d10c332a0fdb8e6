import PocketMips.Value.Yaml.Scalar
import PocketMips.Value.Yaml.Token

/-!
The node of a YAML text: scalars and collections with their types, references being replaced by what
they refer to, where a collection within itself is an empty one. A text holds one document at most.
-/
namespace PocketMips.Value.Yaml

inductive Node
  | scalar (type : NodeType) (text : List Char)
  | sequence (type : NodeType) (items : List Node)
  | mapping (type : NodeType) (entries : List (Node × Node))
  /-- A node that may stand in several places, by a number of its own. -/
  | shared (number : Nat) (n : Node)

/-- The scalar that stands where nothing is written. -/
def Node.absent : Node := .scalar .null []

/-- How deep nodes may lie in one another. -/
def maxDepth : Nat := 485

/-- The tokens ahead and what is wrong behind them, the anchored nodes (without what is in them while they
are being read), and what the handles of tags stand for. -/
structure Ahead where
  tokens : List Token
  fault : Option Error
  anchors : List (List Char × Node) := []
  handles : List (List Char × List Char)

/-- A step over tokens. -/
abbrev Step := StateT Ahead (Except Error)

namespace Step

/-- The next token. -/
def peek : Step Token := do
  let a ← get
  match a.tokens, a.fault with
  | t :: _, _ => return t
  | [], some e => throw e
  | [], none => return .streamEnd

/-- Moves on behind the next token. -/
def drop : Step Unit := modify fun a => { a with tokens := a.tokens.tail }

/-- The text is malformed. -/
def fail {α : Type} : Step α := throw .malformed

/-- Moves on behind a token that has to come next. -/
def expect (t : Token) : Step Unit := do
  if (← peek) = t then drop else fail

/-- The type of a tag; a tag of one mark alone says no more than none. -/
def typeOf (t : Tag) : Step (Option NodeType) := do
  let text ← match t.handle with
    | none => pure t.suffix
    | some h =>
      match (← get).handles.lookup h with
      | some start => pure (start ++ t.suffix)
      | none => fail
  return if text = ['!'] then none else some (NodeType.ofTag text)

/-- The node of a reference. -/
def referred (name : List Char) : Step Node := do
  match (← get).anchors.lookup name with
  | some n => return n
  | none => fail

/-- Lets a name refer to a node. -/
def anchor (name : List Char) (n : Node) : Step Unit :=
  modify fun a => { a with anchors := (name, n) :: a.anchors }

/-- Lets a name, which must be new, refer to a node that is being read; the number of the node. -/
def reserve (name : List Char) (n : Node) : Step Nat := do
  let anchors := (← get).anchors
  if (anchors.lookup name).isSome then fail
  anchor name n
  return anchors.length

/-- The anchor and the tag before a node, in any order. -/
def properties : Step (Option (List Char) × Option Tag) := do
  match ← peek with
  | .anchor name => do
    drop
    match ← peek with
    | .tag t => drop; return (some name, some t)
    | _ => return (some name, none)
  | .tag t => do
    drop
    match ← peek with
    | .anchor name => drop; return (some name, some t)
    | _ => return (none, some t)
  | _ => return (none, none)

/-- The token that opens a collection, if it may stand here. -/
def opening (inBlock bare : Bool) (t : Token) : Bool :=
  match t with
  | .flowSequence | .flowMapping => true
  | .blockSequence | .blockMapping => inBlock
  | .item => bare
  | _ => false

/-- The collection that a token opens, without what is in it. -/
def empty (type : Option NodeType) (t : Token) : Node :=
  match t with
  | .flowSequence | .blockSequence | .item => .sequence (type.getD .list) []
  | .flowMapping | .blockMapping => .mapping (type.getD .map) []
  | _ => .scalar (type.getD .null) []

mutual
/-- A node. In block context block collections may stand, and in some places a sequence that is not
indented. -/
def node : Nat → Nat → Bool → Bool → Step Node
  | 0, _, _, _ => fail
  | fuel + 1, depth, inBlock, bare => do
    if maxDepth < depth then throw .tooDeep
    match ← peek with
    | .reference name => drop; referred name
    | _ =>
      let (name?, tag) ← properties
      let type ← match tag with
        | some t => typeOf t
        | none => pure none
      let t ← peek
      let number? ← name?.mapM fun name => reserve name (empty type t)
      let n ← match t with
        | .scalar cs isPlain => do
          drop
          let implied := if isPlain || tag.isSome then NodeType.ofPlain cs else .text
          pure (Node.scalar (type.getD implied) cs)
        | t =>
          if opening inBlock bare t then collection fuel depth type t
          else if name?.isSome || tag.isSome then pure (Node.scalar (type.getD .null) [])
          else fail
      match name?, number? with
      | some name, some number =>
        anchor name (.shared number n)
        return .shared number n
      | _, _ => return n

/-- A collection from the token that opens it on. -/
def collection : Nat → Nat → Option NodeType → Token → Step Node
  | 0, _, _, _ => fail
  | fuel + 1, depth, type, t =>
    match t with
    | .flowSequence => do drop; return .sequence (type.getD .list) (← flowItems fuel depth true)
    | .flowMapping => do drop; return .mapping (type.getD .map) (← flowEntries fuel depth true)
    | .blockSequence => do drop; return .sequence (type.getD .list) (← blockItems fuel depth)
    | .blockMapping => do drop; return .mapping (type.getD .map) (← blockEntries fuel depth)
    | .item => return .sequence (type.getD .list) (← bareItems fuel depth)
    | _ => fail

/-- A node, unless one of some tokens comes next. -/
def nodeUnless : Nat → Nat → Bool → Bool → List Token → Step Node
  | 0, _, _, _, _ => fail
  | fuel + 1, depth, inBlock, bare, ends => do
    if (← peek) ∈ ends then return .absent else node fuel (depth + 1) inBlock bare

/-- A value behind its mark, or nothing without the mark. -/
def valueUnless : Nat → Nat → Bool → List Token → Step Node
  | 0, _, _, _ => fail
  | fuel + 1, depth, inBlock, ends => do
    if (← peek) = .value then
      drop
      nodeUnless fuel depth inBlock inBlock ends
    else return .absent

/-- The items of a block sequence up to its end. -/
def blockItems : Nat → Nat → Step (List Node)
  | 0, _ => fail
  | fuel + 1, depth => do
    match ← peek with
    | .item => do
      drop
      let n ← nodeUnless fuel depth true false [.item, .blockEnd]
      return n :: (← blockItems fuel depth)
    | .blockEnd => drop; return []
    | _ => fail

/-- The items of a block sequence that is not indented. -/
def bareItems : Nat → Nat → Step (List Node)
  | 0, _ => fail
  | fuel + 1, depth => do
    match ← peek with
    | .item => do
      drop
      let n ← nodeUnless fuel depth true false [.item, .key, .value, .blockEnd]
      return n :: (← bareItems fuel depth)
    | _ => return []

/-- The entries of a block mapping up to its end. -/
def blockEntries : Nat → Nat → Step (List (Node × Node))
  | 0, _ => fail
  | fuel + 1, depth => do
    match ← peek with
    | .key => do
      drop
      let ends := [.key, .value, .blockEnd]
      let k ← nodeUnless fuel depth true true ends
      let v ← valueUnless fuel depth true ends
      return (k, v) :: (← blockEntries fuel depth)
    | .blockEnd => drop; return []
    | _ => fail

/-- The items of a flow sequence up to its end. An item with a key is a mapping of one entry. -/
def flowItems : Nat → Nat → Bool → Step (List Node)
  | 0, _, _ => fail
  | fuel + 1, depth, isFirst => do
    if (← peek) = .flowSequenceEnd then
      drop
      return []
    else
      if !isFirst then expect .comma
      match ← peek with
      | .flowSequenceEnd => drop; return []
      | .key => do
        drop
        let k ← nodeUnless fuel (depth + 1) false false [.value, .comma, .flowSequenceEnd]
        let v ← valueUnless fuel (depth + 1) false [.comma, .flowSequenceEnd]
        return .mapping .map [(k, v)] :: (← flowItems fuel depth false)
      | _ => do
        let n ← node fuel (depth + 1) false false
        return n :: (← flowItems fuel depth false)

/-- The entries of a flow mapping up to its end. An entry without a key mark has no value. -/
def flowEntries : Nat → Nat → Bool → Step (List (Node × Node))
  | 0, _, _ => fail
  | fuel + 1, depth, isFirst => do
    if (← peek) = .flowMappingEnd then
      drop
      return []
    else
      if !isFirst then expect .comma
      match ← peek with
      | .flowMappingEnd => drop; return []
      | .key => do
        drop
        let k ← nodeUnless fuel depth false false [.value, .comma, .flowMappingEnd]
        let v ← valueUnless fuel depth false [.comma, .flowMappingEnd]
        return (k, v) :: (← flowEntries fuel depth false)
      | _ => do
        let k ← node fuel (depth + 1) false false
        return (k, .absent) :: (← flowEntries fuel depth false)
end

/-- Reads directives: one version at most, which has to be the first one, and handles once each. -/
def directives : Nat → Bool → List (List Char × List Char) → Step (List (List Char × List Char))
  | 0, _, _ => fail
  | fuel + 1, versioned, handles => do
    match ← peek with
    | .version major => do
      if versioned || major ≠ 1 then fail
      drop
      directives fuel true handles
    | .handle name start => do
      if (handles.lookup name).isSome then fail
      drop
      directives fuel versioned (handles ++ [(name, start)])
    | .reserved => drop; directives fuel versioned handles
    | _ => return handles

/-- Drops the marks of a document's end. -/
def documentEnds : Nat → Step Unit
  | 0 => fail
  | fuel + 1 => do
    if (← peek) = .documentEnd then
      drop
      documentEnds fuel

/-- The handles of tags that need no directive. -/
def standardHandles : List (List Char × List Char) :=
  [(['!'], ['!']), (['!', '!'], NodeType.tagStart)]

/-- Whether a token comes before a document or ends it. -/
def isOutside (t : Token) : Bool :=
  match t with
  | .version _ | .handle .. | .reserved | .documentStart | .streamEnd => true
  | _ => false

/-- The node of a whole text, if it has a document. -/
def document (fuel : Nat) : Step (Option Node) := do
  match ← peek with
  | .streamEnd => return none
  | t =>
    let n ←
      if isOutside t then do
        let handles ← directives fuel false []
        modify fun a => { a with handles := handles ++ standardHandles }
        expect .documentStart
        let t ← peek
        if isOutside t || t = .documentEnd then pure .absent else node fuel 1 true false
      else node fuel 1 true false
    documentEnds fuel
    expect .streamEnd
    return some n

end Step

/-- The node of a text, which may be the start of a longer one, if it has a document. -/
def Node.ofText? (isWhole : Bool) (text : List Char) : Except Error (Option Node) := do
  let (tokens, fault) := Token.ofText isWhole text
  let (n, _) ← (Step.document (6 * (tokens.length + 1))).run
    { tokens, fault, handles := Step.standardHandles }
  return n

/-! ## Types -/

namespace Node

/-- A node without its number. -/
def bare : Node → Node
  | shared _ n => n.bare
  | n => n

def type : Node → NodeType
  | scalar type _ | sequence type _ | mapping type _ => type
  | shared _ n => n.type

mutual
/-- The text of a node where a scalar is due: its own, or that of the value that stands for a whole
mapping. -/
def scalarText : Node → Except Error (List Char)
  | scalar _ cs => .ok cs
  | sequence _ _ => .error .malformed
  | mapping _ entries => standInText entries
  | shared _ n => n.scalarText

/-- The text of the value that stands for a mapping. -/
def standInText : List (Node × Node) → Except Error (List Char)
  | [] => .error .malformed
  | (k, v) :: rest => if k.type = .standIn then v.scalarText else standInText rest
end

/-- The type of a node as a key: the one for stand-ins is that of texts. -/
def keyType (k : Node) : NodeType := if k.type = .standIn then .text else k.type

/-- The value of a node of a scalar's type. -/
def valueAs (type : NodeType) (n : Node) : Except Error Value := do
  scalarValue type (← n.scalarText)

/-! ## Merged mappings -/

mutual
/-- The entries that a mapping takes over from others, and its own. -/
def flatten : List (Node × Node) → Except Error (List (Node × Node) × List (Node × Node))
  | [] => .ok ([], [])
  | (k, v) :: rest =>
    if k.type = .merge then do
      let taken ← taken v
      let (merged, own) ← flatten rest
      return (taken ++ merged, own)
    else do
      let (merged, own) ← flatten rest
      return (merged, (k, v) :: own)

/-- The entries that are taken over from a mapping or from the items of a sequence. -/
def taken : Node → Except Error (List (Node × Node))
  | scalar _ _ => .error .malformed
  | sequence _ items => takenFrom items
  | mapping _ entries => do
    let (merged, own) ← flatten entries
    return merged ++ own
  | shared _ n => n.taken

/-- The entries that are taken over from mappings, those of the first one last. -/
def takenFrom : List Node → Except Error (List (Node × Node))
  | [] => .ok []
  | n :: rest => do
    let entries ← match n.bare with
      | mapping .. => n.taken
      | _ => .error .malformed
    return (← takenFrom rest) ++ entries
end

/-- All entries of a mapping, those taken over before its own. -/
def allEntries (entries : List (Node × Node)) : Except Error (List (Node × Node)) := do
  let (merged, own) ← flatten entries
  return merged ++ own

/-! ## Values -/

/-- Whether the value of a node is made after those of the nodes beside it: collections are. A scalar is
checked at once. -/
def isLater (type : NodeType) (n : Node) : Except Error Bool :=
  if type = .list ∨ type = .map then .ok true else (n.valueAs type).map fun _ => false

/-- The nodes in a collection whose values are made later, the others being checked. A collection is no
key. -/
def laterParts (n : Node) : Except Error (List Node) :=
  match n.bare with
  | sequence .list items => items.filterM fun n => isLater n.type n
  | mapping .map entries => do
    let checked ← (← allEntries entries).filterM fun (k, v) => do
      if ← isLater k.keyType k then throw .malformed
      isLater v.type v
    return checked.map (·.2)
  | _ => .error .malformed

/-- The nodes that have not been met yet, and the numbers of those that have been met with them. -/
def unmet (met : List Nat) : List Node → List Node × List Nat
  | [] => ([], met)
  | shared number n :: ns =>
    if number ∈ met then unmet met ns
    else
      let (rest, met) := unmet (number :: met) ns
      (n :: rest, met)
  | n :: ns =>
    let (rest, met) := unmet met ns
    (n :: rest, met)

/-- Checks collections, and then what lies in them. One that stands in several places is checked once. -/
def checkAll : Nat → List Nat → List Node → Except Error Unit
  | 0, _, _ | _, _, [] => .ok ()
  | fuel + 1, met, ns => do
    let (ns, met) := unmet met ns
    let parts ← ns.mapM laterParts
    checkAll fuel met parts.flatten

/-- Sets an entry; keys that are the same number are one key, which keeps its first form. -/
def setEntry (es : Entries) (e : Key × Value) : Entries :=
  let key := ((es.find? (·.1.number = e.1.number)).map (·.1)).getD e.1
  insert key e.2 es

/-- A node as a key. -/
def key (k : Node) : Except Error Key := do
  match key? (← k.valueAs k.keyType) with
  | some key => return key
  | none => throw .malformed

/-- The value of a node of some depth, given the values of numbered nodes that have been made before. -/
def valueWithin : Nat → Node → StateT (List (Nat × Value)) (Except Error) Value
  | 0, _ => throw .tooDeep
  | depth + 1, n =>
    match n with
    | shared number n => do
      match (← get).lookup number with
      | some v => return v
      | none =>
        let v ← valueWithin depth n
        modify ((number, v) :: ·)
        return v
    | sequence .list items => (items.mapM (valueWithin depth)).map .list
    | mapping .map entries => do
      let es ← (← allEntries entries).mapM fun (k, v) => do
        return (← k.key, ← valueWithin depth v)
      return .map (es.foldl setEntry [])
    | n => n.valueAs n.type

/-- The value of a node of some depth. What is wrong with it is met level by level. -/
def value (depth : Nat) (n : Node) : Except Error Value := do
  if ← isLater n.type n then checkAll depth [] [n]
  (n.valueWithin depth).run' []

end Node

end PocketMips.Value.Yaml
