import ProviderKit.Interpreter
import ProviderKit.Yaml.Token
import ProviderKit.Yaml.Tag

/-!
# Nodes of a YAML document

A document as a graph of tagged nodes. A node with an anchor is kept among the definitions of the
document, and both its own place and its aliases refer to it by its number, so that a collection
may hold itself. `Document.ofTokens` reads the only document in a list of tokens. Every call uses up
one unit of `fuel` and either consumes a token or is followed by one that does. Collections nest
only so deep.
-/

namespace ProviderKit.Yaml

/-- A tagged node. -/
inductive Node where
  | scalar (tag content : Text)
  | sequence (tag : Text) (items : List Node)
  | mapping (tag : Text) (entries : List (Node × Node))
  /-- The node that is defined under a number. -/
  | shared (number : Nat)
deriving Inhabited

/-- A document: its root, and the nodes with anchors by their numbers, each after the ones that end
before it. -/
structure Document where
  root : Node
  definitions : List (Nat × Node)

/-- The state of reading nodes: the tokens left, the numbers that anchors stand for, the nodes that
are defined, the last one first, the leaders that tag handles stand for, and how many levels deeper
reading may go. -/
structure Feed where
  tokens : List Token
  anchors : List (Text × Nat) := []
  definitions : List (Nat × Node) := []
  handles : List (Text × Text)
  room : Nat

/-- Reading of a part of a document. -/
abbrev Reading := StateT Feed (Except Fault)

namespace Reading

/-- The text is no document. -/
def fail {α : Type} : Reading α := fun _ => .error .malformed

/-- The next token, left where it is. -/
def peek : Reading Token := fun s =>
  match s.tokens with
  | [] => .error .malformed
  | .failure f :: _ => .error f
  | t :: _ => .ok (t, s)

/-- Consumes a token. -/
def skip : Reading Unit := fun s => .ok ((), { s with tokens := s.tokens.drop 1 })

/-- Reads what a collection holds, one level deeper. -/
def nested {α : Type} (read : Reading α) : Reading α := fun s =>
  match s.room with
  | 0 => .error .tooDeep
  | room + 1 => do
    let (part, s) ← read { s with room }
    pure (part, { s with room := room + 1 })

/-- The node that an anchor stands for. -/
def anchored (name : Text) : Reading Node := fun s =>
  match s.anchors.lookup name with
  | some number => .ok (.shared number, s)
  | none => .error .malformed

/-- The number of a new anchor, if there is one. -/
def openAnchor : Option Text → Reading (Option Nat)
  | none => pure none
  | some name => fun s =>
    if (s.anchors.lookup name).isSome then .error .malformed
    else .ok (some s.anchors.length, { s with anchors := (name, s.anchors.length) :: s.anchors })

/-- The node that has been read; under a number it is defined. -/
def define (number : Option Nat) (node : Node) : Reading Node := fun s =>
  match number with
  | none => .ok (node, s)
  | some n => .ok (.shared n, { s with definitions := (n, node) :: s.definitions })

/-- The full form of a tag. -/
def fullTag (t : WrittenTag) : Reading Text := fun s =>
  match t.handle with
  | none => .ok (t.suffix, s)
  | some handle =>
    match s.handles.lookup handle with
    | some leader => .ok (leader ++ t.suffix, s)
    | none => .error .malformed

end Reading

open Reading

/-- The node of a scalar that is not written. -/
def emptyScalar : Node := .scalar (Tag.ofPlain []) []

/-- An anchor and a tag in front of a node, in either order. -/
def readProperties : Reading (Option Text × Option Text) := do
  match ← peek with
  | .anchor name =>
    skip
    match ← peek with
    | .tag t =>
      skip
      pure (some name, some (← fullTag t))
    | _ => pure (some name, none)
  | .tag t =>
    skip
    match ← peek with
    | .anchor name =>
      skip
      pure (some name, some (← fullTag t))
    | _ => pure (none, some (← fullTag t))
  | _ => pure (none, none)

/-- The tag of a scalar: its own, or for a plain one and for the mark `!` the one of its form. -/
def scalarTag (tag : Option Text) (plain : Bool) (content : Text) : Text :=
  match tag with
  | none => if plain then Tag.ofPlain content else coreTag "str"
  | some t => if t = ("!" : Text) then Tag.ofPlain content else t

/-- The tag of a collection: its own, or the usual one. -/
def collectionTag (tag : Option Text) (usual : Text) : Text :=
  match tag with
  | none => usual
  | some t => if t = ("!" : Text) then usual else t

/-- The place where a node stands decides which forms it may have. -/
inductive Context where
  | flow
  | block
  /-- A key or value of a block mapping, where a sequence needs no indentation. -/
  | blockEntry
deriving DecidableEq

mutual

/-- Reads a node. -/
def readNode : Nat → Context → Reading Node
  | 0, _ => fail
  | fuel + 1, context => do
    match ← peek with
    | .alias name =>
      skip
      anchored name
    | _ =>
      let (anchor, tag) ← readProperties
      let token ← peek
      let number ← openAnchor anchor
      let sequenceTag := collectionTag tag (coreTag "seq")
      let mappingTag := collectionTag tag (coreTag "map")
      match token, context with
      | .blockEntry, .blockEntry =>
        define number (.sequence sequenceTag (← nested (readIndentless fuel)))
      | .scalar content plain, _ =>
        skip
        define number (.scalar (scalarTag tag plain content) content)
      | .flowSequenceStart, _ =>
        skip
        define number (.sequence sequenceTag (← nested (readFlowItems fuel true)))
      | .flowMappingStart, _ =>
        skip
        define number (.mapping mappingTag (← nested (readFlowEntries fuel true)))
      | .blockSequenceStart, .block | .blockSequenceStart, .blockEntry =>
        skip
        define number (.sequence sequenceTag (← nested (readBlockItems fuel)))
      | .blockMappingStart, .block | .blockMappingStart, .blockEntry =>
        skip
        define number (.mapping mappingTag (← nested (readBlockEntries fuel)))
      | _, _ =>
        if anchor.isSome || tag.isSome then
          define number (.scalar (scalarTag tag true []) [])
        else fail

/-- Reads the items of a block sequence, and its end. -/
def readBlockItems : Nat → Reading (List Node)
  | 0 => fail
  | fuel + 1 => do
    match ← peek with
    | .blockEntry =>
      skip
      let item ← match ← peek with
        | .blockEntry | .blockEnd => pure emptyScalar
        | _ => readNode fuel .block
      pure (item :: (← readBlockItems fuel))
    | .blockEnd =>
      skip
      pure []
    | _ => fail

/-- Reads the items of a sequence that is not indented in its mapping. -/
def readIndentless : Nat → Reading (List Node)
  | 0 => fail
  | fuel + 1 => do
    match ← peek with
    | .blockEntry =>
      skip
      let item ← match ← peek with
        | .blockEntry | .key | .value | .blockEnd => pure emptyScalar
        | _ => readNode fuel .block
      pure (item :: (← readIndentless fuel))
    | _ => pure []

/-- Reads the entries of a block mapping, and its end. A key or a value may be missing. -/
def readBlockEntries : Nat → Reading (List (Node × Node))
  | 0 => fail
  | fuel + 1 => do
    match ← peek with
    | .key =>
      skip
      let key ← match ← peek with
        | .key | .value | .blockEnd => pure emptyScalar
        | _ => readNode fuel .blockEntry
      let value ← match ← peek with
        | .value =>
          skip
          match ← peek with
          | .key | .value | .blockEnd => pure emptyScalar
          | _ => readNode fuel .blockEntry
        | _ => pure emptyScalar
      pure ((key, value) :: (← readBlockEntries fuel))
    | .blockEnd =>
      skip
      pure []
    | _ => fail

/-- Reads the items of a flow sequence, and its end. An item with a key mark is a mapping of one
entry. -/
def readFlowItems : Nat → Bool → Reading (List Node)
  | 0, _ => fail
  | fuel + 1, first => do
    match ← peek with
    | .flowSequenceEnd =>
      skip
      pure []
    | t =>
      if !first then
        match t with
        | .flowEntry => skip
        | _ => fail
      match ← peek with
      | .key =>
        skip
        let entry ← nested do
          let key ← match ← peek with
            | .value | .flowEntry | .flowSequenceEnd => pure emptyScalar
            | _ => readNode fuel .flow
          let value ← match ← peek with
            | .value =>
              skip
              match ← peek with
              | .flowEntry | .flowSequenceEnd => pure emptyScalar
              | _ => readNode fuel .flow
            | _ => pure emptyScalar
          pure (key, value)
        pure (.mapping (coreTag "map") [entry] :: (← readFlowItems fuel false))
      | .flowSequenceEnd =>
        skip
        pure []
      | _ =>
        let item ← readNode fuel .flow
        pure (item :: (← readFlowItems fuel false))

/-- Reads the entries of a flow mapping, and its end. A node on its own is a key without a
value. -/
def readFlowEntries : Nat → Bool → Reading (List (Node × Node))
  | 0, _ => fail
  | fuel + 1, first => do
    match ← peek with
    | .flowMappingEnd =>
      skip
      pure []
    | t =>
      if !first then
        match t with
        | .flowEntry => skip
        | _ => fail
      match ← peek with
      | .key =>
        skip
        let key ← match ← peek with
          | .value | .flowEntry | .flowMappingEnd => pure emptyScalar
          | _ => readNode fuel .flow
        let value ← match ← peek with
          | .value =>
            skip
            match ← peek with
            | .flowEntry | .flowMappingEnd => pure emptyScalar
            | _ => readNode fuel .flow
          | _ => pure emptyScalar
        pure ((key, value) :: (← readFlowEntries fuel false))
      | .flowMappingEnd =>
        skip
        pure []
      | _ =>
        let key ← readNode fuel .flow
        pure ((key, emptyScalar) :: (← readFlowEntries fuel false))

end

/-- The handles that every document knows. -/
def usualHandles : List (Text × Text) := [("!", "!"), ("!!", coreLeader)]

/-- Reads the directives before a document: at most one version, which must be 1, and at most one
leader for each handle. -/
def readDirectives : Nat → Bool → List (Text × Text) → Reading (List (Text × Text))
  | 0, _, _ => fail
  | fuel + 1, versionSeen, handles => do
    match ← peek with
    | .directive d =>
      skip
      match d with
      | .version major =>
        if versionSeen || major != 1 then fail else readDirectives fuel true handles
      | .tag handle leader =>
        if (handles.lookup handle).isSome then fail
        else readDirectives fuel versionSeen ((handle, leader) :: handles)
      | .other => readDirectives fuel versionSeen handles
    | _ => pure handles

/-- Skips marks of document ends. -/
def skipDocumentEnds : Nat → Reading Unit
  | 0 => fail
  | fuel + 1 => do
    match ← peek with
    | .documentEnd =>
      skip
      skipDocumentEnds fuel
    | _ => pure ()

/-- Reads the beginning of a document that starts with a mark; at the end of the stream there is
none. -/
def readDocumentStart (fuel : Nat) : Reading Bool := do
  skipDocumentEnds fuel
  match ← peek with
  | .streamEnd => pure false
  | _ =>
    let handles ← readDirectives fuel false []
    let known := usualHandles.filter fun (h, _) => (handles.lookup h).isNone
    modify fun s => { s with handles := handles ++ known }
    match ← peek with
    | .documentStart =>
      skip
      pure true
    | _ => fail

/-- Reads the first document; nothing if the stream has none. -/
def readDocument (fuel : Nat) : Reading (Option Node) := do
  match ← peek with
  | .directive _ | .documentStart | .streamEnd =>
    if !(← readDocumentStart fuel) then pure none
    else match ← peek with
      | .directive _ | .documentStart | .documentEnd | .streamEnd => pure (some emptyScalar)
      | _ => pure (some (← readNode fuel .block))
  | _ => pure (some (← readNode fuel .block))

/-- Reads the only document of a stream. -/
def readStream (fuel : Nat) : Reading (Option Node) := do
  match ← readDocument fuel with
  | none => pure none
  | some root =>
    if let .documentEnd ← peek then skip
    if ← readDocumentStart fuel then fail
    pure (some root)

/-- The only document of a stream; nothing if the stream is empty. -/
def Document.ofTokens [Interpreter] (tokens : List Token) : Except Fault (Option Document) := do
  let (root, feed) ← (readStream (4 * tokens.length + 8)).run
    { tokens, handles := usualHandles, room := Interpreter.composing }
  pure (root.map fun root => ⟨root, feed.definitions.reverse⟩)

end ProviderKit.Yaml
