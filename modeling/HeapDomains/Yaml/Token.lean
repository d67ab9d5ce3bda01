/-!
# Tokens of YAML documents

The pieces that a document of this library's configuration format is made of. The format has no
lists, so there are no tokens for them, and a document with a list is refused as soon as the list is
met.
-/

namespace HeapDomains.Yaml

/-- How a scalar is written. -/
inductive ScalarStyle where
  /-- Without quotes. -/
  | plain
  /-- Between quotes. -/
  | quoted
  /-- As lines that keep their breaks. -/
  | literal
  /-- As lines that are folded. -/
  | folded
  deriving DecidableEq

/-- A piece of a document. -/
inductive Token where
  /-- The version of the language. -/
  | version (major minor : Nat)
  /-- What a tag handle stands for. -/
  | tagHandle (handle expansion : String)
  /-- Three dashes. -/
  | documentStart
  /-- Three dots. -/
  | documentEnd
  /-- The start of a mapping that is written by indentation. -/
  | blockStart
  /-- The end of such a mapping. -/
  | blockEnd
  /-- The start of a mapping in braces. -/
  | flowStart
  /-- The end of such a mapping. -/
  | flowEnd
  /-- A comma. -/
  | comma
  /-- The mark of a key. -/
  | key
  /-- The mark of a value. -/
  | value
  /-- A reference to an anchor. -/
  | alias (name : String)
  /-- A name for the node that follows. -/
  | anchor (name : String)
  /-- A tag of the node that follows. -/
  | tag (handle rest : String)
  /-- A scalar. -/
  | scalar (style : ScalarStyle) (text : String)
  deriving DecidableEq

end HeapDomains.Yaml
