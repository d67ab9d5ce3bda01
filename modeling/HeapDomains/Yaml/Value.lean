import HeapDomains.Yaml.Node
import HeapDomains.Yaml.Plain

/-!
# Values of nodes

What a node says when a string, a number, a truth value, a name or a record is expected. A tag
counts only where it could change what an undecorated scalar says.
-/

namespace HeapDomains.Yaml

namespace Node

/-- The name of a tag of the core schema. -/
def coreTag (name : String) : String := "tag:yaml.org,2002:" ++ name

/-- The text of a scalar. -/
def text? : Node → Option String
  | scalar _ _ text => some text
  | mapping _ => none

/-- Whether a scalar of this form can be more than a string: a plain one, or one that keeps its line
breaks and has the tag of the type. -/
def isTyped (type : String) (tag : Option String) (style : ScalarStyle) : Bool :=
  style = .plain || (style = .literal && tag = some (coreTag type))

/-- The truth value of a node. -/
def bool? : Node → Option Bool
  | scalar tag style text => if isTyped "bool" tag style then boolOfText? text else none
  | mapping _ => none

/-- The number of a node, below a limit. -/
def nat? (limit : Nat) : Node → Option Nat
  | scalar tag style text =>
    if isTyped "int" tag style then
      (natOfText? text.toList).bind fun n => if n < limit then some n else none
    else none
  | mapping _ => none

/-- The name of a node: that of its own tag, when the scalar is null, and else the text. -/
def name? : Node → Option String
  | scalar (some tag) style text =>
    match tag.toList with
    | '!' :: name =>
      if style = .plain ∧ (text = "" ∨ isNullText text) then
        some (if name.isEmpty then tag else String.ofList name)
      else none
    | _ => some text
  | scalar none _ text => some text
  | mapping _ => none

/-- The value of a node, given how to read it, or no value for a plain scalar that is null. -/
def optional? {α : Type} (read : Node → Option α) (node : Node) : Option (Option α) :=
  match node with
  | scalar none .plain text =>
    if text = "" ∨ isNullText text then some none else (read node).map some
  | scalar (some tag) .plain text =>
    if tag = coreTag "null" then (if isNullText text then some none else none)
    else (read node).map some
  | _ => (read node).map some

/-- The values of a record by the names of its fields. Every key is one of the names and occurs
once; where nothing is written, there are no fields. -/
def fields? (names : List String) : Node → Option (List (String × Node))
  | mapping entries => do
    let fields ← entries.mapM fun (key, value) => (key.text?).map fun name => (name, value)
    let keys := fields.map (·.1)
    if keys.Nodup ∧ ∀ key ∈ keys, key ∈ names then some fields else none
  | scalar _ style text => if style = .plain ∧ text = "" then some [] else none

end Node

/-- The value of a field that may be missing or null, given how to read it. -/
def readField {α : Type} (fields : List (String × Node)) (name : String) (read : Node → Option α) :
    Option (Option α) :=
  match fields.lookup name with
  | some node => node.optional? read
  | none => some none

end HeapDomains.Yaml
