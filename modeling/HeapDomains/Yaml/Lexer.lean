import HeapDomains.Yaml.Scan
import HeapDomains.Yaml.Tag

/-!
# The tokens of a document

`Scan.step` reads one token, and `tokens?` all tokens of a text. A text without a meaning, or with a
list in it, has none.
-/

namespace HeapDomains.Yaml

/-- Whether a text starts a plain scalar. -/
def startsPlain (inFlow : Bool) (c : Char) (rest : List Char) : Bool :=
  if c = '-' then !startsWithGap rest
  else if c = '?' ∨ c = ':' then !inFlow && !startsWithGap rest
  else !isIndicator c && !startsWithGap (c :: rest)

namespace Scan

/-- The state after a directive, from the state at its percent sign. -/
def pushDirective (s : Scan) (rest : List Char) : Option Scan := do
  let (token, hasBreak, more) ← scanDirective rest
  let s ← s.pushBoundary (rest.length + 1 - more.length) more token
  some (if hasBreak then { s with place := s.place.down } else s)

/-- The state after a tag, from the state at its exclamation mark. -/
def pushTag (s : Scan) (rest : List Char) : Option Scan := do
  let (handle, name, more) ← scanTag rest
  if endsTag s.inFlow more then
    s.pushKeyLike (rest.length + 1 - more.length) more (.tag handle name)
  else none

/-- The state after a block scalar, from the state at its first character. A block scalar is no
key. -/
def pushBlock (s : Scan) (style : ScalarStyle) (rest : List Char) : Option Scan := do
  let s ← s.dropCandidate
  let r ← scanBlock (style = .literal) s.indents.head? (s.place.right 1) rest
  some ({ s with place := r.place, rest := r.rest, keyAllowed := true }.push
    (.scalar style (String.ofList r.text)))

/-- The column from which on the later lines of a plain scalar have to start. -/
def plainIndent (s : Scan) : Nat := s.indents.head?.elim 0 (· + 1)

/-- The state after the next token, from the state at its first character. -/
def step (s : Scan) (c : Char) (rest : List Char) : Option Scan :=
  -- What stands between documents counts only at the start of a line.
  if s.place.column = 0 ∧ c = '%' then s.pushDirective rest
  else if s.place.column = 0 ∧ startsWithMarker (c :: rest) then
    s.pushBoundary 3 (rest.drop 2) (if c = '-' then .documentStart else .documentEnd)
  -- The marks of mappings.
  else if c = '\x7b' then s.openFlow rest
  else if c = '\x7d' then s.closeFlow rest
  else if c = ',' then s.pushComma rest
  else if c = '?' ∧ (s.inFlow ∨ startsWithGap rest) then s.pushKey rest
  else if c = ':' ∧ (s.inFlow ∨ startsWithGap rest) then s.pushValue rest
  -- What stands in front of a node, or in its place.
  else if c = '*' then s.pushName .alias rest
  else if c = '&' then s.pushName .anchor rest
  else if c = '!' then s.pushTag rest
  -- Scalars; those that are written as lines cannot stand within braces.
  else if c = '|' ∧ !s.inFlow then s.pushBlock .literal rest
  else if c = '>' ∧ !s.inFlow then s.pushBlock .folded rest
  else if c = '\'' then
    (scanSingleQuoted .nothing (s.place.right 1) rest).bind (s.pushScalar .quoted)
  else if c = '"' then
    (scanDoubleQuoted .nothing (s.place.right 1) rest).bind (s.pushScalar .quoted)
  else if startsPlain s.inFlow c rest then
    (scanPlain s.inFlow s.plainIndent .nothing s.place (c :: rest)).bind (s.pushScalar .plain)
  else none

/-- The tokens of a text whose end is reached. All mappings end there. -/
def finish (s : Scan) : Option (List Token) :=
  ((s.closeBlocks fun _ => true).dropCandidate).map tokens

/-- The tokens of the text from a state on. -/
def run : Nat → Scan → Option (List Token)
  | 0, _ => none
  | fuel + 1, s => do
    let s ← s.settle
    let s := s.closeBlocks fun column => s.place.column < column
    match s.rest with
    | [] => s.finish
    | c :: rest => run fuel (← s.step c rest)

end Scan

/-- The tokens of a text. Each takes a character at least. -/
def tokens? (text : String) : Option (List Token) :=
  if text.toList.all isReadable then
    let chars := uniformBreaks text.toList
    (Scan.start chars).run (chars.length + 1)
  else none

end HeapDomains.Yaml
