import HeapDomains.Yaml.Lexer

/-!
# Documents as trees

The nodes that the tokens of a document describe. Aliases are replaced by the nodes they refer to,
and tags are written out in full; the tag of a mapping is of no use to anyone and left out.
-/

namespace HeapDomains.Yaml

/-- A node of a document. -/
inductive Node where
  /-- A scalar. -/
  | scalar (tag : Option String) (style : ScalarStyle) (text : String)
  /-- Keys and their values, in order. -/
  | mapping (entries : List (Node × Node))

/-- The node that stands where nothing is written. -/
def Node.empty : Node := .scalar none .plain ""

/-- What the directives of a document say. -/
structure Directives where
  /-- Whether one of them gives a version. -/
  hasVersion : Bool
  /-- The handles they define. -/
  handles : List (String × String)
  deriving DecidableEq

namespace Directives

/-- No directives. -/
def none : Directives := ⟨false, []⟩

/-- The handles that are known without a directive. -/
def standardHandles : List (String × String) := [("!", "!"), ("!!", "tag:yaml.org,2002:")]

/-- A tag in full. -/
def expand? (d : Directives) (handle rest : String) : Option String :=
  if handle = "" then some rest
  else ((d.handles ++ standardHandles).lookup handle).map (· ++ rest)

end Directives

/-- The directives in front of a document, and the tokens that follow them. A version is given once
and is 1.1 or 1.2; a handle is defined once. -/
def takeDirectives (d : Directives) : List Token → Option (Directives × List Token)
  | .version major minor :: rest =>
    if d.hasVersion ∨ major ≠ 1 ∨ (minor ≠ 1 ∧ minor ≠ 2) then Option.none
    else takeDirectives { d with hasVersion := true } rest
  | .tagHandle handle expansion :: rest =>
    if (d.handles.lookup handle).isSome then Option.none
    else takeDirectives { d with handles := d.handles ++ [(handle, expansion)] } rest
  | rest => some (d, rest)

/-- The nodes that aliases refer to, the latest first. A node that is not complete yet has no value.
-/
abbrev Anchors : Type := List (String × Option Node)

namespace Anchors

/-- The anchors after the start of a node. -/
def mark (anchors : Anchors) (name? : Option String) (node? : Option Node) : Anchors :=
  match name? with
  | some name => (name, node?) :: anchors
  | none => anchors

/-- The anchors after the end of a node whose start was marked. A later node of its own name keeps
the name. -/
def complete (anchors : Anchors) (name? : Option String) (node : Node) : Anchors :=
  match name? with
  | some name =>
    match anchors.lookup name with
    | some none => (name, some node) :: anchors
    | _ => anchors
  | none => anchors

/-- The complete node that an alias refers to. -/
def node? (anchors : Anchors) (name : String) : Option Node := (anchors.lookup name).bind id

end Anchors

/-- What may stand in front of a node. -/
structure Properties where
  /-- The name for aliases to it. -/
  anchor : Option String
  /-- Its tag, as handle and rest. -/
  tag : Option (String × String)
  deriving DecidableEq

/-- The properties in front of a node, in either order, and the tokens that follow them. -/
def takeProperties : List Token → Properties × List Token
  | .anchor name :: .tag handle tail :: rest => (⟨some name, some (handle, tail)⟩, rest)
  | .tag handle tail :: .anchor name :: rest => (⟨some name, some (handle, tail)⟩, rest)
  | .anchor name :: rest => (⟨some name, none⟩, rest)
  | .tag handle tail :: rest => (⟨none, some (handle, tail)⟩, rest)
  | rest => (⟨none, none⟩, rest)

/-- What was read, the anchors after it and the tokens that follow. -/
structure NodeRead (α : Type) where
  /-- What was read. -/
  value : α
  /-- The anchors after it. -/
  anchors : Anchors
  /-- The tokens that follow. -/
  rest : List Token

/-- The read of a node where nothing is written. -/
def NodeRead.nothing (anchors : Anchors) (rest : List Token) : NodeRead Node :=
  ⟨.empty, anchors, rest⟩

/-- Whether a key or value in a mapping by indentation is left out in front of these tokens. -/
def isLeftOutInBlock : List Token → Bool
  | .key :: _ | .value :: _ | .blockEnd :: _ => true
  | _ => false

/-- Whether a value in braces is left out in front of these tokens. -/
def isLeftOutInFlow : List Token → Bool
  | .comma :: _ | .flowEnd :: _ => true
  | _ => false

/-- Whether a marked key in braces is left out in front of these tokens. -/
def isKeyLeftOutInFlow : List Token → Bool
  | .value :: _ => true
  | tokens => isLeftOutInFlow tokens

/-- The value of an entry, given how to read a node. -/
def readValue (node : Anchors → List Token → Option (NodeRead Node)) (isLeftOut : List Token → Bool)
    (anchors : Anchors) (tokens : List Token) : Option (NodeRead Node) :=
  match tokens with
  | .value :: rest => if isLeftOut rest then some (.nothing anchors rest) else node anchors rest
  | _ => some (.nothing anchors tokens)

/-- The key of an entry after its mark, given how to read a node. -/
def readKey (node : Anchors → List Token → Option (NodeRead Node)) (isLeftOut : List Token → Bool)
    (anchors : Anchors) (tokens : List Token) : Option (NodeRead Node) :=
  if isLeftOut tokens then some (.nothing anchors tokens) else node anchors tokens

mutual

/-- The node at the start of tokens. -/
def readNode (d : Directives) : Nat → Anchors → List Token → Option (NodeRead Node)
  | 0, _, _ => none
  | fuel + 1, anchors, tokens =>
    match tokens with
    | .alias name :: rest => (anchors.node? name).map fun node => ⟨node, anchors, rest⟩
    | _ => do
      let (properties, rest) := takeProperties tokens
      let tag ←
        match properties.tag with
        | some (handle, tail) => (d.expand? handle tail).map some
        | none => some none
      match rest with
      | .scalar style text :: rest =>
        let node := Node.scalar (if tag = some "!" then none else tag) style text
        some ⟨node, anchors.mark properties.anchor (some node), rest⟩
      | .flowStart :: rest => do
        let r ← readFlowEntries d fuel true (anchors.mark properties.anchor none) rest
        let node := Node.mapping r.value
        some ⟨node, r.anchors.complete properties.anchor node, r.rest⟩
      | .blockStart :: rest => do
        let r ← readBlockEntries d fuel (anchors.mark properties.anchor none) rest
        let node := Node.mapping r.value
        some ⟨node, r.anchors.complete properties.anchor node, r.rest⟩
      | rest =>
        -- Properties alone are those of an empty scalar.
        if properties = ⟨none, none⟩ then none
        else
          let node := Node.scalar tag .plain ""
          some ⟨node, anchors.mark properties.anchor (some node), rest⟩

/-- The entries of a mapping that is written by indentation, to its end. -/
def readBlockEntries (d : Directives) :
    Nat → Anchors → List Token → Option (NodeRead (List (Node × Node)))
  | 0, _, _ => none
  | fuel + 1, anchors, tokens =>
    match tokens with
    | .blockEnd :: rest => some ⟨[], anchors, rest⟩
    | .key :: rest => do
      let key ← readKey (readNode d fuel) isLeftOutInBlock anchors rest
      let value ← readValue (readNode d fuel) isLeftOutInBlock key.anchors key.rest
      let more ← readBlockEntries d fuel value.anchors value.rest
      some { more with value := (key.value, value.value) :: more.value }
    | _ => none

/-- The entries of a mapping in braces, to its end. Commas stand between them, and one may follow
the last. -/
def readFlowEntries (d : Directives) :
    Nat → Bool → Anchors → List Token → Option (NodeRead (List (Node × Node)))
  | 0, _, _, _ => none
  | fuel + 1, isFirst, anchors, tokens =>
    match tokens with
    | .flowEnd :: rest => some ⟨[], anchors, rest⟩
    | _ => do
      let tokens ←
        match isFirst, tokens with
        | true, _ => some tokens
        | false, .comma :: rest => some rest
        | false, _ => none
      match tokens with
      | .flowEnd :: rest => some ⟨[], anchors, rest⟩
      | .key :: rest => do
        let key ← readKey (readNode d fuel) isKeyLeftOutInFlow anchors rest
        let value ← readValue (readNode d fuel) isLeftOutInFlow key.anchors key.rest
        let more ← readFlowEntries d fuel false value.anchors value.rest
        some { more with value := (key.value, value.value) :: more.value }
      | _ => do
        -- A node without the mark of a key is a key without a value.
        let key ← readNode d fuel anchors tokens
        let more ← readFlowEntries d fuel false key.anchors key.rest
        some { more with value := (key.value, .empty) :: more.value }

end

/-- Whether no document is left. -/
def isOver (tokens : List Token) : Bool := tokens.all (· = .documentEnd)

/-- The root of the one document that tokens describe; no tokens describe an empty one. Directives
have to be followed by the mark of a start, and after it the root may be left out. -/
def Node.ofTokens? (tokens : List Token) : Option Node :=
  match tokens with
  | [] => some .empty
  | _ => do
    let (directives, rest) ← takeDirectives .none tokens
    let (isMarked, content) :=
      match rest with
      | .documentStart :: rest => (true, rest)
      | rest => (false, rest)
    -- Directives were taken when fewer tokens are left.
    if !isMarked ∧ rest.length < tokens.length then none
    else if isMarked ∧ isOver content then some .empty
    else do
      let r ← readNode directives (2 * tokens.length + 1) [] content
      if isOver r.rest then some r.value else none

/-- The root of the document that a text holds. -/
def Node.ofText? (text : String) : Option Node := (tokens? text).bind ofTokens?

end HeapDomains.Yaml
