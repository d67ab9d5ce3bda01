import HeapDomains.Yaml.Scalar
import HeapDomains.Yaml.Token

/-!
# From text to tokens

A scalar, an alias or an opening brace may turn out to be a key, which shows only when a colon is
met. So each of them is remembered as a candidate, and the marks in front of a key are put in when
its colon comes. A candidate is given up when its line ends; where only a key can stand, that is an
error.
-/

namespace HeapDomains.Yaml

/-- A token that may turn out to start a key. -/
structure KeyCandidate where
  /-- Whether nothing but a key can stand in its place. -/
  required : Bool
  /-- The number of tokens before it. -/
  index : Nat
  /-- Where it starts. -/
  place : Place
  deriving DecidableEq

/-- A key and its colon stand in one line and are at most this many columns apart. -/
def longestKey : Nat := 1024

/-- Whether a place is too far on for the colon of a key. -/
def KeyCandidate.isOver (k : KeyCandidate) (place : Place) : Bool :=
  k.place.line < place.line || k.place.column + longestKey < place.column

/-- What is left of a possible candidate at a place; a required one may not be given up. -/
def keptCandidate? (place : Place) (candidate : Option KeyCandidate) :
    Option (Option KeyCandidate) :=
  match candidate with
  | none => some none
  | some k => if k.isOver place then (if k.required then none else some none) else some (some k)

/-- How far the reading of a text has come. -/
structure Scan where
  /-- The place that is reached. -/
  place : Place
  /-- The text from there on. -/
  rest : List Char
  /-- The tokens so far. -/
  tokens : List Token
  /-- Whether a key may start here. -/
  keyAllowed : Bool
  /-- The candidate for a key within the innermost open brace. -/
  candidate : Option KeyCandidate
  /-- The candidates outside of it, one for each open brace, the innermost first. -/
  outer : List (Option KeyCandidate)
  /-- The columns of the mappings that are open by indentation, the innermost first. -/
  indents : List Nat
  deriving DecidableEq

/-- The end of the blanks, comments and line breaks at the start of a text: whether a key may start
there, the place and the text from there on. Tabs are blanks only where no key may start. -/
def skipGap (inFlow inComment keyAllowed : Bool) (place : Place) :
    List Char → Bool × Place × List Char
  | [] => (keyAllowed, place, [])
  | c :: rest =>
    if isBreak c then skipGap inFlow false (keyAllowed || !inFlow) place.down rest
    else if inComment || c = ' ' || (c = '\t' && (inFlow || !keyAllowed)) then
      skipGap inFlow inComment keyAllowed (place.right 1) rest
    else if c = '#' then skipGap inFlow true keyAllowed (place.right 1) rest
    else (keyAllowed, place, c :: rest)

namespace Scan

/-- The state before a text. A byte order mark in front of it takes a column. -/
def start (text : List Char) : Scan :=
  let (column, rest) :=
    match text with
    | c :: rest => if c = '\uFEFF' then (1, rest) else (0, text)
    | [] => (0, [])
  { place := ⟨0, column⟩, rest, tokens := [], keyAllowed := true, candidate := none, outer := [],
    indents := [] }

/-- Whether a brace is open. -/
def inFlow (s : Scan) : Bool := !s.outer.isEmpty

/-- The state some columns further on. -/
def advance (s : Scan) (columns : Nat) (rest : List Char) : Scan :=
  { s with place := s.place.right columns, rest }

/-- The state with one more token. -/
def push (s : Scan) (token : Token) : Scan := { s with tokens := s.tokens ++ [token] }

/-- The state with a token put in after the first tokens. -/
def insert (s : Scan) (index : Nat) (token : Token) : Scan :=
  { s with tokens := s.tokens.take index ++ token :: s.tokens.drop index }

/-- The state at the next token, with the candidates that are over given up and the mappings closed
that are indented further. -/
def settle (s : Scan) : Option Scan := do
  let (keyAllowed, place, rest) := skipGap s.inFlow false s.keyAllowed s.place s.rest
  -- The candidates outside the innermost brace may be over as well.
  let candidate ← keptCandidate? place s.candidate
  let outer ← s.outer.mapM (keptCandidate? place)
  some { s with place, rest, keyAllowed, candidate, outer }

/-- The state with the mappings closed that a test picks, outside braces. -/
def closeBlocks (s : Scan) (isClosed : Nat → Bool) : Scan :=
  if s.inFlow then s
  else
    { s with
      tokens := s.tokens ++ (s.indents.takeWhile isClosed).map fun _ => .blockEnd
      indents := s.indents.dropWhile isClosed }

/-- The state with a mapping opened at a column and its mark put in after the first tokens. In
braces, and in a mapping that is indented as far, nothing is opened. -/
def openBlock (s : Scan) (column index : Nat) : Scan :=
  if s.inFlow || s.indents.head?.any fun n => column ≤ n then s
  else { s.insert index .blockStart with indents := column :: s.indents }

/-- The state without a candidate of the innermost level, which may not be a required one. -/
def dropCandidate (s : Scan) : Option Scan :=
  if s.candidate.any fun k => k.required then none else some { s with candidate := none }

/-- The state in which the token that follows is a candidate for a key, if one may start here. -/
def noteCandidate (s : Scan) : Option Scan :=
  if s.keyAllowed then
    (s.dropCandidate).map fun t =>
      { t with
        candidate := some
          { required := !s.inFlow && s.indents.head? == some s.place.column
            index := s.tokens.length
            place := s.place } }
  else some s

/-- The state after a token that may be a key, from the state at its start. -/
def pushKeyLike (s : Scan) (columns : Nat) (rest : List Char) (token : Token) : Option Scan :=
  (s.noteCandidate).map fun s => ({ s with keyAllowed := false }.advance columns rest).push token

/-- The state after a scalar that may be a key, from the state at its start. -/
def pushScalar (s : Scan) (style : ScalarStyle) (r : ScalarRead) : Option Scan :=
  (s.noteCandidate).map fun s =>
    { s with place := r.place, rest := r.rest, keyAllowed := r.breaksFollow }.push
      (.scalar style (String.ofList r.text))

/-- The state after a mark that stands between documents, from the state at its start. -/
def pushBoundary (s : Scan) (columns : Nat) (rest : List Char) (token : Token) : Option Scan :=
  ((s.closeBlocks fun _ => true).dropCandidate).map fun s =>
    ({ s with keyAllowed := false }.advance columns rest).push token

/-- The state after an opening brace. -/
def openFlow (s : Scan) (rest : List Char) : Option Scan :=
  (s.noteCandidate).map fun s =>
    ({ s with candidate := none, outer := s.candidate :: s.outer, keyAllowed := true }.advance 1
      rest).push .flowStart

/-- The state after a closing brace. -/
def closeFlow (s : Scan) (rest : List Char) : Option Scan := do
  let s ← s.dropCandidate
  match s.outer with
  | [] => none
  | candidate :: outer =>
    some (({ s with candidate, outer, keyAllowed := false }.advance 1 rest).push .flowEnd)

/-- The state after a comma. -/
def pushComma (s : Scan) (rest : List Char) : Option Scan :=
  (s.dropCandidate).map fun s => ({ s with keyAllowed := true }.advance 1 rest).push .comma

/-- The state in a mapping for a mark at the present place. Outside braces the mark has to stand
where a key may start. -/
def blockForMark (s : Scan) : Option Scan :=
  if s.inFlow then some s
  else if s.keyAllowed then some (s.openBlock s.place.column s.tokens.length)
  else none

/-- The state after the mark of a key. -/
def pushKey (s : Scan) (rest : List Char) : Option Scan := do
  let s ← (← s.blockForMark).dropCandidate
  some (({ s with keyAllowed := !s.inFlow }.advance 1 rest).push .key)

/-- The state after the mark of a value. With a candidate at hand, that is its key. -/
def pushValue (s : Scan) (rest : List Char) : Option Scan :=
  match s.candidate with
  | some k =>
    -- The start of the mapping comes in front of the mark of its first key.
    let s := (s.insert k.index .key).openBlock k.place.column k.index
    some (({ s with candidate := none, keyAllowed := false }.advance 1 rest).push .value)
  | none =>
    (s.blockForMark).map fun s =>
      ({ s with keyAllowed := !s.inFlow }.advance 1 rest).push .value

/-- Whether a text may follow the name of an anchor. -/
def endsName : List Char → Bool
  | [] => true
  | c :: _ => isBlank c || isBreak c || [ '?', ':', ',', ']', '\x7d', '%', '@', '\x60' ].contains c

/-- The state after an anchor or an alias, from the state at the mark in front of its name. -/
def pushName (s : Scan) (token : String → Token) (rest : List Char) : Option Scan :=
  let name := rest.takeWhile isWordChar
  let rest := rest.dropWhile isWordChar
  if name.isEmpty || !endsName rest then none
  else s.pushKeyLike (name.length + 1) rest (token (String.ofList name))

end Scan

end HeapDomains.Yaml
