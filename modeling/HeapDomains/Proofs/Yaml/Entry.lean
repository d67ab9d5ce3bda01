import HeapDomains.Proofs.Yaml.Literal

/-!
# Reading the entries of mappings

The tokens that a text gives, from the states in which a key (`Scan.Gives.of_key`) or its value is
met: without quotes (`readsValue_of_allowsPlain`), between quotes (`readsValue_of_quote`) or as
lines (`readsValue_renderLines`). A mapping that is written by indentation opens with its first key,
and ends in front of a key that is indented less or at the end of the text.
-/

namespace HeapDomains.Yaml

variable {c : Char} {rest next more : List Char} {line column columns outer : Nat}
  {indents : List Nat} {tokens all : List Token} {keyAllowed : Bool} {place : Place}

/-! ## Gaps between tokens -/

/-- Spaces in front of a token are skipped. -/
theorem skipGap_replicate :
    skipGap false false keyAllowed ⟨line, column⟩ (List.replicate columns ' ' ++ rest) =
      skipGap false false keyAllowed ⟨line, column + columns⟩ rest := by
  induction columns generalizing column with
  | zero => rfl
  | succ columns ih =>
    rw [List.replicate_succ, List.cons_append]
    change skipGap false false keyAllowed ⟨line, column + 1⟩ _ = _
    rw [ih, Nat.add_assoc, Nat.add_comm 1]

/-- No gap stands in front of a token. -/
theorem StartsToken.skipGap_eq (h : StartsToken next) :
    skipGap false false keyAllowed place next = (keyAllowed, place, next) := by
  cases next with
  | nil => rfl
  | cons c rest =>
    obtain ⟨hblank, hbreak, hcomment⟩ := h c rfl
    simp only [isBlank, Bool.or_eq_false_iff, decide_eq_false_iff_not] at hblank
    simp [skipGap, hbreak, hblank, hcomment]

/-! ## States -/

namespace Scan

/-- A state outside of braces with no key at hand. -/
def block (keyAllowed : Bool) (place : Place) (tokens : List Token) (indents : List Nat)
    (rest : List Char) : Scan :=
  { place, rest, tokens, keyAllowed, candidate := none, outer := [], indents }

/-- Whether the text from a state on gives these tokens, with those before it. Each token takes a
character at least. -/
def Gives (s : Scan) (tokens : List Token) : Prop :=
  ∀ fuel, s.rest.length < fuel → s.run fuel = some tokens

/-- At the next token of a state, only the gap in front of it is read. -/
theorem settle_block (keyAllowed : Bool) (place : Place) (tokens : List Token) (indents : List Nat)
    (rest : List Char) : (block keyAllowed place tokens indents rest).settle =
      some (block (skipGap false false keyAllowed place rest).1
        (skipGap false false keyAllowed place rest).2.1 tokens indents
        (skipGap false false keyAllowed place rest).2.2) := by
  simp [settle, block, inFlow, keptCandidate?]

variable {s s' t u : Scan}

/-- States that are the same at the next token give the same tokens. -/
theorem Gives.of_settle (hsettle : s.settle = s'.settle) (hless : s'.rest.length ≤ s.rest.length)
    (h : s'.Gives all) : s.Gives all := by
  intro fuel hfuel
  obtain ⟨fuel, rfl⟩ : ∃ n, fuel = n + 1 := ⟨fuel - 1, by omega⟩
  have hrun := h (fuel + 1) (by omega)
  rw [run] at hrun ⊢
  rw [hsettle, hrun]

/-- A state gives what the state after its next token gives. -/
theorem Gives.of_step (hsettle : s.settle = some t)
    (hclose : t.closeBlocks (fun n => t.place.column < n) = u) (hrest : u.rest = c :: rest)
    (hstep : u.step c rest = some s') (hless : s'.rest.length < s.rest.length)
    (h : s'.Gives all) : s.Gives all := by
  intro fuel hfuel
  obtain ⟨fuel, rfl⟩ : ∃ n, fuel = n + 1 := ⟨fuel - 1, by omega⟩
  have hrun := h fuel (by omega)
  rw [run, hsettle, Option.bind_eq_bind, Option.bind_some]
  simp only [hclose, hrest, hstep]
  exact hrun

/-- The mappings that are indented further than a column are closed. -/
theorem closeBlocks_block (keyAllowed : Bool) (place : Place) (tokens : List Token)
    (indents : List Nat) (rest : List Char) (isClosed : Nat → Bool) :
    (block keyAllowed place tokens indents rest).closeBlocks isClosed =
      block keyAllowed place
        (tokens ++ (indents.takeWhile isClosed).map fun _ => .blockEnd)
        (indents.dropWhile isClosed) rest := rfl

/-- The end of a text closes what is open. -/
theorem gives_nil :
    (block keyAllowed place tokens indents []).Gives
      (tokens ++ indents.map fun _ => .blockEnd) := by
  intro fuel hfuel
  obtain ⟨fuel, rfl⟩ : ∃ n, fuel = n + 1 := ⟨fuel - 1, by omega⟩
  have hall : (indents.dropWhile fun n => place.column < n).takeWhile (fun _ => true) =
      indents.dropWhile fun n => place.column < n := by simp
  have hrun : (block keyAllowed place tokens indents []).run (fuel + 1) =
      some ((tokens ++ (indents.takeWhile fun n => place.column < n).map fun _ => .blockEnd) ++
        ((indents.dropWhile fun n => place.column < n).takeWhile fun _ => true).map
          fun _ => .blockEnd) := rfl
  rw [hrun, hall, List.append_assoc, ← List.map_append, List.takeWhile_append_dropWhile]

end Scan

/-! ## Keys -/

/-- Whether a text is a name that can stand in front of a colon. -/
def IsKey (key : List Char) : Prop :=
  key.all (fun c => c.isAlphanum || c = '_') = true ∧ 0 < key.length ∧ key.length ≤ longestKey

instance {key : List Char} : Decidable (IsKey key) := inferInstanceAs (Decidable (_ ∧ _ ∧ _))

/-- A key consists of letters, digits and low lines. -/
theorem IsKey.isAlphanum_or {key : List Char} (h : IsKey key) :
    ∀ c ∈ key, c.isAlphanum = true ∨ c = '_' := by
  intro c hc
  simpa using List.all_eq_true.1 h.1 c hc

/-- Other characters do not occur in a key. -/
theorem IsKey.ne_of_mem {key : List Char} {other : Char} (h : IsKey key) (hc : c ∈ key)
    (hother : other.isAlphanum = false) (hline : other ≠ '_') : c ≠ other := by
  rintro rfl
  rcases h.isAlphanum_or c hc with hletter | heq
  · rw [hother] at hletter
    cases hletter
  · exact hline heq

/-- The columns of the open mappings in a line with a key. -/
def indentsAt (column : Nat) (indents : List Nat) : List Nat :=
  let others := indents.dropWhile fun n => column < n
  if others.head?.any fun n => column ≤ n then others else column :: others

/-- The tokens of a key and its colon, with those that close and open mappings in front of it. -/
def keyTokens (column : Nat) (indents : List Nat) (key : String) : List Token :=
  ((indents.takeWhile fun n => column < n).map fun _ => .blockEnd) ++
    (if (indents.dropWhile fun n => column < n).head?.any fun n => column ≤ n then []
      else [.blockStart]) ++
    [.key, .scalar .plain key, .value]

/-- The innermost open mapping is that of the line. -/
theorem exists_indentsAt (column : Nat) (indents : List Nat) :
    ∃ others, indentsAt column indents = column :: others := by
  unfold indentsAt
  cases hdrop : indents.dropWhile fun n => column < n with
  | nil => exact ⟨[], rfl⟩
  | cons n others =>
    have hn : n ≤ column := by
      simpa [hdrop] using List.head?_dropWhile_not (fun n => decide (column < n)) indents
    by_cases heq : column ≤ n
    · obtain rfl := Nat.le_antisymm hn heq
      exact ⟨others, by simp⟩
    · exact ⟨n :: others, by simp [heq]⟩

/-- No character with a meaning of its own starts a plain scalar. -/
theorem isIndicator_of_startsPlain (h : startsPlain false c rest = true) :
    isIndicator c = false := by
  by_cases hdash : c = '-'
  · rw [hdash]
    rfl
  · by_cases hmark : c = '?' ∨ c = ':'
    · rcases hmark with rfl | rfl
      · rfl
      · rfl
    · simp only [startsPlain, hdash, hmark, if_false, Bool.and_eq_true, Bool.not_eq_true'] at h
      exact h.1

/-- A mark that starts a plain scalar does not stand alone. -/
theorem not_mark_of_startsPlain {d : Char} (hd : d = '?' ∨ d = ':')
    (h : startsPlain false c rest = true) : ¬(c = d ∧ startsWithGap rest = true) := by
  rintro ⟨rfl, hgap⟩
  have hdash : c ≠ '-' := by
    rcases hd with rfl | rfl
    · decide
    · decide
  simp [startsPlain, hdash, hd, hgap] at h

/-- A plain scalar is read where it starts. -/
theorem Scan.step_of_startsPlain {s : Scan} (hflow : s.inFlow = false)
    (hstart : startsPlain false c rest = true)
    (hmarker : s.place.column = 0 → startsWithMarker (c :: rest) = false) :
    s.step c rest =
      (scanPlain false s.plainIndent .nothing s.place (c :: rest)).bind (s.pushScalar .plain) := by
  have hne : ∀ d, isIndicator d = true → c ≠ d := by
    rintro d hd rfl
    rw [isIndicator_of_startsPlain hstart] at hd
    cases hd
  have hboundary : ¬(s.place.column = 0 ∧ startsWithMarker (c :: rest) = true) := by
    rintro ⟨hcolumn, htrue⟩
    rw [hmarker hcolumn] at htrue
    cases htrue
  have hkey := not_mark_of_startsPlain (Or.inl (Eq.refl '?')) hstart
  have hvalue := not_mark_of_startsPlain (Or.inr (Eq.refl ':')) hstart
  simp only [step, hflow, Bool.false_eq_true, false_or, hboundary, hkey, hvalue, hstart, if_true,
    if_false, Bool.not_false, and_true, hne '%' rfl, hne '\x7b' rfl, hne '\x7d' rfl, hne ',' rfl,
    hne '*' rfl, hne '&' rfl, hne '!' rfl, hne '|' rfl, hne '>' rfl, hne '\'' rfl, hne '"' rfl,
    and_false]

/-- A mark of a value is met in a line. -/
theorem Scan.step_colon {s : Scan} (hflow : s.inFlow = false) (hmore : startsWithGap more = true) :
    s.step ':' more = s.pushValue more := by
  have hmark : startsWithMarker (':' :: more) = false := rfl
  simp [step, hflow, hmore, hmark]

/-- The state after a key, in front of its colon. -/
def Scan.afterKey (start : Place) (key : String) (tokens : List Token) (indents : List Nat)
    (rest : List Char) : Scan where
  place := start.right key.toList.length
  rest := rest
  tokens := tokens ++ [.scalar .plain key]
  keyAllowed := false
  candidate := some ⟨indents.head? == some start.column, tokens.length, start⟩
  outer := []
  indents := indents

/-- The colon after a key puts in the mark of the key, and that of the mapping it opens. -/
theorem Scan.pushValue_afterKey (start : Place) (key : String) (tokens : List Token)
    (indents : List Nat) (rest : List Char) :
    (afterKey start key tokens indents rest).pushValue more =
      some (block false (start.right (key.toList.length + 1))
        (tokens ++ (if indents.head?.any fun n => start.column ≤ n then [] else [.blockStart]) ++
          [.key, .scalar .plain key, .value])
        (if indents.head?.any fun n => start.column ≤ n then indents else start.column :: indents)
        more) := by
  cases hopen : indents.head?.any fun n => decide (start.column ≤ n) with
  | true => simp [pushValue, afterKey, insert, openBlock, hopen, advance, push, block, inFlow,
      Place.right_right]
  | false => simp [pushValue, afterKey, insert, openBlock, hopen, advance, push, block, inFlow,
      Place.right_right]

/-- The colon after a key is the next token. -/
theorem Scan.settle_afterKey {start : Place} {key : String}
    (hlength : key.toList.length ≤ longestKey) :
    (afterKey start key tokens indents (':' :: more)).settle =
      some (afterKey start key tokens indents (':' :: more)) := by
  have hcolon : StartsToken (':' :: more) := by
    rintro d ⟨⟩
    exact ⟨rfl, rfl, by decide⟩
  have hline : ¬start.column + longestKey < start.column + key.toList.length := by omega
  simp [settle, afterKey, inFlow, hcolon.skipGap_eq, keptCandidate?, KeyCandidate.isOver,
    Place.right, hline]

/-- No mapping is closed between a key and its colon. -/
theorem Scan.closeBlocks_afterKey {start : Place} {key : String}
    (hindents : ∀ n ∈ indents.head?, n ≤ start.column) :
    (afterKey start key tokens indents rest).closeBlocks
        (fun n => (afterKey start key tokens indents rest).place.column < n) =
      afterKey start key tokens indents rest := by
  have htest : ∀ n ∈ indents.head?, decide (start.column + key.toList.length < n) = false := by
    intro n hn
    have hle := hindents n hn
    simp only [decide_eq_false_iff_not]
    omega
  cases indents with
  | nil => simp [closeBlocks, afterKey, inFlow]
  | cons n others =>
    have hn := htest n rfl
    rw [decide_eq_false_iff_not] at hn
    simp [closeBlocks, afterKey, inFlow, Place.right, hn]

/-- A key is a plain scalar. -/
theorem IsKey.startsPlain {key : List Char} (h : IsKey (c :: key)) (rest : List Char) :
    startsPlain false c rest = true ∧ startsWithMarker (c :: rest) = false ∧
      ∀ d ∈ c :: key, isBlank d = false ∧ isBreak d = false ∧ d ≠ ':' := by
  have hgap : ∀ d ∈ c :: key, isBlank d = false ∧ isBreak d = false := by
    intro d hd
    have hne : ∀ d', d'.isAlphanum = false → d' ≠ '_' → d ≠ d' := fun _ => h.ne_of_mem hd
    simp [isBlank, isBreak, hne ' ' rfl (by decide), hne '\t' rfl (by decide),
      hne '\n' rfl (by decide), hne '\u2028' rfl (by decide), hne '\u2029' rfl (by decide)]
  have hc : ∀ d, d.isAlphanum = false → d ≠ '_' → c ≠ d := fun _ => h.ne_of_mem List.mem_cons_self
  have hsign : isIndicator c = false := by
    rw [← Bool.not_eq_true]
    intro hsign
    refine hc c (isAlphanum_of_isIndicator hsign) ?_ rfl
    rintro rfl
    cases hsign
  refine ⟨?_, ?_, fun d hd =>
    ⟨(hgap d hd).1, (hgap d hd).2, h.ne_of_mem hd rfl (by decide)⟩⟩
  · simp [Yaml.startsPlain, hc '-' rfl (by decide), hc '?' rfl (by decide), hc ':' rfl (by decide),
      hsign, startsWithGap, hgap c List.mem_cons_self]
  · rw [startsWithMarker.eq_def]
    split
    · next heq => exact absurd (List.cons.inj heq).1 (hc '-' rfl (by decide))
    · next heq => exact absurd (List.cons.inj heq).1 (hc '.' rfl (by decide))
    · rfl

/-- A text that starts with a key starts with a token. -/
theorem IsKey.startsToken {key : List Char} (h : IsKey key) : StartsToken (key ++ rest) := by
  obtain ⟨c, key, rfl⟩ := List.exists_cons_of_length_pos h.2.1
  rintro d ⟨⟩
  obtain ⟨-, -, hchars⟩ := h.startsPlain rest
  obtain ⟨hblank, hbreak, -⟩ := hchars c List.mem_cons_self
  exact ⟨hblank, hbreak, h.ne_of_mem List.mem_cons_self rfl (by decide)⟩

/-- A key is the token that is met first in its line. -/
theorem Scan.step_key {key : String} {chars : List Char} (hkey : IsKey key.toList)
    (hmore : startsWithGap more = true) (hchars : key.toList = c :: chars) (start : Place)
    (tokens : List Token) (indents : List Nat) :
    (block true start tokens indents (key.toList ++ ':' :: more)).step c (chars ++ ':' :: more) =
      some (afterKey start key tokens indents (':' :: more)) := by
  rw [hchars] at hkey
  obtain ⟨hstart, hmarker, hplain⟩ := hkey.startsPlain (chars ++ ':' :: more)
  rw [step_of_startsPlain rfl hstart fun _ => hmarker, ← List.cons_append,
    scanPlain_key hplain hmore, ← hchars]
  simp [pushScalar, noteCandidate, dropCandidate, block, afterKey, push, inFlow]

/-- What a line gives from its key on is what it gives from the colon on. -/
theorem Scan.Gives.of_key {key : String} (hkey : IsKey key.toList)
    (hmore : startsWithGap more = true)
    (h : (block false ⟨line, column + (key.toList.length + 1)⟩
      (tokens ++ keyTokens column indents key) (indentsAt column indents) more).Gives all) :
    (block true ⟨line, column⟩ tokens indents (key.toList ++ ':' :: more)).Gives all := by
  -- The key is read as a scalar, and only its colon shows that it is a key.
  obtain ⟨c, chars, hchars⟩ := List.exists_cons_of_length_pos hkey.2.1
  have hsettle := settle_block true ⟨line, column⟩ tokens indents (key.toList ++ ':' :: more)
  rw [hkey.startsToken.skipGap_eq] at hsettle
  have hstep := step_key hkey hmore hchars ⟨line, column⟩
    (tokens ++ (indents.takeWhile fun n => column < n).map fun _ => .blockEnd)
    (indents.dropWhile fun n => column < n)
  have hindents : ∀ n ∈ (indents.dropWhile fun n => decide (column < n)).head?, n ≤ column := by
    intro n hn
    have hnot := List.head?_dropWhile_not (fun n => decide (column < n)) indents
    rw [Option.mem_def.1 hn] at hnot
    simpa using hnot
  have hcolon := step_colon (s := afterKey ⟨line, column⟩ key
    (tokens ++ (indents.takeWhile fun n => column < n).map fun _ => .blockEnd)
    (indents.dropWhile fun n => column < n) (':' :: more)) rfl hmore
  rw [pushValue_afterKey] at hcolon
  refine Gives.of_step hsettle (closeBlocks_block ..) (by rw [hchars]; rfl) hstep ?_ ?_
  · simp only [afterKey, block, hchars, List.cons_append, List.length_cons, List.length_append]
    omega
  refine Gives.of_step (settle_afterKey hkey.2.2) (closeBlocks_afterKey hindents) rfl hcolon ?_ ?_
  · simp [afterKey, block]
  · simpa [keyTokens, indentsAt, Place.right, List.append_assoc] using h

/-! ## Values -/

/-- Whether a scalar with a text is read from these characters, which end with the line of a value
in a mapping that is indented by some columns. -/
def ReadsValue (outer : Nat) (style : ScalarStyle) (text : String) (chars : List Char) : Prop :=
  ∀ ⦃line column columns : Nat⦄ ⦃tokens : List Token⦄ ⦃indents : List Nat⦄ ⦃next : List Char⦄
    ⦃all : List Token⦄, outer < column → columns ≤ outer → StartsToken next →
    (∀ line', (Scan.block true ⟨line', columns⟩ (tokens ++ [.scalar style text]) (outer :: indents)
      next).Gives all) →
    (Scan.block false ⟨line, column⟩ tokens (outer :: indents)
      (' ' :: (chars ++ (List.replicate columns ' ' ++ next)))).Gives all

/-- After a line break, the next token is met in its own line. -/
theorem Scan.Gives.of_break (hnext : StartsToken next)
    (h : (block true ⟨place.line + 1, columns⟩ tokens indents next).Gives all) :
    (block keyAllowed place tokens indents
      ('\n' :: (List.replicate columns ' ' ++ next))).Gives all := by
  refine Gives.of_settle ?_ ?_ h
  · have hskip : skipGap false false keyAllowed place
        ('\n' :: (List.replicate columns ' ' ++ next)) =
          (true, ⟨place.line + 1, columns⟩, next) := by
      have hbreak : isBreak '\n' = true := rfl
      have hdown : place.down = ⟨place.line + 1, 0⟩ := rfl
      have hallowed : (keyAllowed || !false) = true := by simp
      rw [skipGap, if_pos hbreak, hdown, hallowed, skipGap_replicate, hnext.skipGap_eq,
        Nat.zero_add]
    rw [settle_block, settle_block, hskip, hnext.skipGap_eq]
  · simp only [block, List.length_cons, List.length_append]
    omega

/-- A value is the token that is met after the space that follows a colon. -/
theorem Scan.Gives.of_space {s' : Scan} (hstart : StartsToken (c :: rest))
    (hcolumn : outer < column)
    (hstep : (block false ⟨line, column + 1⟩ tokens (outer :: indents) (c :: rest)).step c rest =
      some s')
    (hless : s'.rest.length ≤ rest.length) (h : s'.Gives all) :
    (block false ⟨line, column⟩ tokens (outer :: indents) (' ' :: c :: rest)).Gives all := by
  have hsettle := settle_block false ⟨line, column⟩ tokens (outer :: indents) (' ' :: c :: rest)
  have hskip : skipGap false false false ⟨line, column⟩ (' ' :: c :: rest) =
      (false, ⟨line, column + 1⟩, c :: rest) := by
    change skipGap false false false ⟨line, column + 1⟩ (c :: rest) = _
    rw [hstart.skipGap_eq]
  rw [hskip] at hsettle
  have hopen : ¬column + 1 < outer := by omega
  refine Gives.of_step hsettle ?_ rfl hstep ?_ h
  · rw [closeBlocks_block]
    simp [block, hopen]
  · simp only [block, List.length_cons]
    omega

/-- A scalar that stands where no key may start is a value. -/
theorem Scan.pushScalar_block (place : Place) (tokens : List Token) (indents : List Nat)
    (rest : List Char) (style : ScalarStyle) (r : ScalarRead) :
    (block false place tokens indents rest).pushScalar style r = some (block r.breaksFollow r.place
      (tokens ++ [.scalar style (String.ofList r.text)]) indents r.rest) := rfl

/-- A text that does not start in a way with a meaning of its own. -/
theorem startsWithIndicator_eq_false {text : List Char}
    (h : startsWithIndicator (c :: text) = false) : isIndicator c = false ∧
      (c = '-' ∨ c = '?' ∨ c = ':' → startsWithGap text = false) := by
  rw [startsWithIndicator.eq_def] at h
  split at h
  · cases h
  · cases h
  · next heq =>
    obtain ⟨rfl, rfl⟩ := List.cons.inj heq
    rw [Bool.or_eq_false_iff, Bool.and_eq_false_iff] at h
    obtain ⟨hsign, hmark⟩ := h
    refine ⟨hsign, fun hc => hmark.resolve_left ?_⟩
    rcases hc with rfl | rfl | rfl
    · decide
    · decide
    · decide
  · next heq => cases heq

/-- A text that needs no quotes starts a plain scalar. -/
theorem startsPlain_of_allowsPlain {text : List Char} (h : allowsPlain (c :: text) = true)
    (rest : List Char) :
    startsPlain false c (text ++ rest) = true ∧ StartsToken (c :: text ++ rest) := by
  simp only [allowsPlain, hasOuterSpace, Bool.and_eq_true, Bool.not_eq_true', Bool.or_eq_false_iff,
    List.all_eq_true, beq_eq_false_iff_ne] at h
  obtain ⟨⟨⟨⟨⟨⟨-, hprint⟩, hspace, -⟩, hstart⟩, -⟩, -⟩, -⟩ := h
  obtain ⟨hsign, hmark⟩ := startsWithIndicator_eq_false hstart
  obtain ⟨hc, hbreak⟩ := hprint c List.mem_cons_self
  have hblank : isBlank c = false := by
    rw [← Bool.not_eq_true, isBlank_iff_of_isPrintable hc]
    rintro rfl
    exact hspace rfl
  have hgap : startsWithGap text = false → startsWithGap (text ++ rest) = false := by
    intro hgap
    cases text with
    | nil => cases hgap
    | cons d text => exact hgap
  constructor
  · rw [startsPlain]
    split
    · next hdash => rw [hgap (hmark (Or.inl hdash))]; rfl
    · split
      · next hother => rw [hgap (hmark (Or.inr hother))]; rfl
      · rw [hsign, startsWithGap, hblank, hbreak]
        rfl
  · rintro d ⟨⟩
    refine ⟨hblank, hbreak, ?_⟩
    rintro rfl
    cases hsign

/-- A text that needs no quotes is read. -/
theorem readsValue_of_allowsPlain {text : String} (h : allowsPlain text.toList = true) :
    ReadsValue outer .plain text (text.toList ++ ['\n']) := by
  intro line column columns tokens indents next all hcolumn hcolumns hnext hgives
  obtain ⟨c, chars, hchars⟩ : ∃ c chars, text.toList = c :: chars := by
    refine List.exists_cons_of_ne_nil ?_
    intro hnil
    rw [hnil] at h
    cases h
  obtain ⟨hplain, hstart⟩ :=
    startsPlain_of_allowsPlain (hchars ▸ h) ('\n' :: (List.replicate columns ' ' ++ next))
  have hscan : scanPlain false (outer + 1) .nothing ⟨line, column + 1⟩
      (text.toList ++ '\n' :: (List.replicate columns ' ' ++ next)) =
        some ⟨text.toList, true, ⟨line + 1, columns⟩, next⟩ :=
    scanPlain_of_allowsPlain h (Nat.succ_pos _) (by simp only; omega) (Nat.lt_succ_of_le hcolumns)
      hnext
  have hstep := Scan.step_of_startsPlain (s := Scan.block false ⟨line, column + 1⟩ tokens
    (outer :: indents) (c :: (chars ++ '\n' :: (List.replicate columns ' ' ++ next)))) rfl hplain
      fun hzero => absurd hzero (Nat.succ_ne_zero _)
  have hchars' : text.toList ++ ['\n'] ++ (List.replicate columns ' ' ++ next) =
      c :: (chars ++ '\n' :: (List.replicate columns ' ' ++ next)) := by simp [hchars]
  rw [hchars, List.cons_append] at hscan
  change _ = (scanPlain false (outer + 1) .nothing ⟨line, column + 1⟩ _).bind _ at hstep
  rw [hscan, Option.bind_some, Scan.pushScalar_block, ← hchars, String.ofList_toList] at hstep
  rw [hchars']
  refine Scan.Gives.of_space hstart hcolumn hstep ?_ (hgives (line + 1))
  simp only [Scan.block, List.length_append, List.length_cons]
  omega

/-- Within a line, a single quote starts a scalar. -/
theorem Scan.step_quote {s : Scan} (hcolumn : 0 < s.place.column) : s.step '\'' rest =
    (scanSingleQuoted .nothing (s.place.right 1) rest).bind (s.pushScalar .quoted) := by
  have hstart : ¬s.place.column = 0 := by omega
  simp [step, hstart]

/-- Within a line, a double quote starts a scalar. -/
theorem Scan.step_doubleQuote {s : Scan} (hcolumn : 0 < s.place.column) : s.step '"' rest =
    (scanDoubleQuoted .nothing (s.place.right 1) rest).bind (s.pushScalar .quoted) := by
  have hstart : ¬s.place.column = 0 := by omega
  simp [step, hstart]

/-- Within a line and outside of braces, a bar starts a scalar that keeps its lines. -/
theorem Scan.step_bar {s : Scan} (hflow : s.inFlow = false) (hcolumn : 0 < s.place.column) :
    s.step '|' rest = s.pushBlock .literal rest := by
  have hstart : ¬s.place.column = 0 := by omega
  simp [step, hflow, hstart]

/-- A text between quotes is read as a value when the reader that its quote calls for reads it. -/
theorem readsValue_of_quote {text : String} {quoted : List Char} {quote : Char}
    {scan : Place → List Char → Option ScalarRead} (hquote : quote = '\'' ∨ quote = '"')
    (hstep : ∀ s : Scan, ∀ rest, 0 < s.place.column →
      s.step quote rest = (scan (s.place.right 1) rest).bind (s.pushScalar .quoted))
    (hscan : ∀ place : Place, ∀ rest : List Char, 0 < place.column → rest.head? ≠ some '\'' →
      ∃ place', scan place (quoted ++ rest) = some ⟨text.toList, false, place', rest⟩) :
    ReadsValue outer .quoted text (quote :: (quoted ++ ['\n'])) := by
  intro line column columns tokens indents next all hcolumn hcolumns hnext hgives
  obtain ⟨place', hread⟩ := hscan ⟨line, column + 1 + 1⟩
    ('\n' :: (List.replicate columns ' ' ++ next)) (Nat.succ_pos _) (by simp)
  have hstart :
      StartsToken (quote :: (quoted ++ '\n' :: (List.replicate columns ' ' ++ next))) := by
    rintro d ⟨⟩
    rcases hquote with rfl | rfl
    · exact ⟨rfl, rfl, by decide⟩
    · exact ⟨rfl, rfl, by decide⟩
  have hnow := hstep (Scan.block false ⟨line, column + 1⟩ tokens (outer :: indents)
    (quote :: (quoted ++ '\n' :: (List.replicate columns ' ' ++ next))))
      (quoted ++ '\n' :: (List.replicate columns ' ' ++ next)) (Nat.succ_pos _)
  change _ = (scan ⟨line, column + 1 + 1⟩ _).bind _ at hnow
  rw [hread, Option.bind_some, Scan.pushScalar_block, String.ofList_toList] at hnow
  have hchars : quote :: (quoted ++ ['\n']) ++ (List.replicate columns ' ' ++ next) =
      quote :: (quoted ++ '\n' :: (List.replicate columns ' ' ++ next)) := by simp
  rw [hchars]
  refine Scan.Gives.of_space hstart hcolumn hnow ?_ (Scan.Gives.of_break hnext (hgives _))
  simp only [Scan.block, List.length_append, List.length_cons]
  omega

/-- A text as lines is read. -/
theorem readsValue_renderLines {text : String} (hne : text.toList ≠ []) :
    ReadsValue outer .literal text (renderLines (outer + 2) text.toList) := by
  intro line column columns tokens indents next all hcolumn hcolumns hnext hgives
  obtain ⟨header, line', hheader, hscan⟩ := scanBlock_renderLines outer
    ⟨line, column + 1 + 1⟩ hne (by omega : columns < outer + 2) hnext
  rw [hheader, List.cons_append]
  have hstart : StartsToken ('|' :: (header ++ (List.replicate columns ' ' ++ next))) := by
    rintro d ⟨⟩
    exact ⟨rfl, rfl, by decide⟩
  have hstep : (Scan.block false ⟨line, column + 1⟩ tokens (outer :: indents)
      ('|' :: (header ++ (List.replicate columns ' ' ++ next)))).step '|'
        (header ++ (List.replicate columns ' ' ++ next)) =
      some (Scan.block true ⟨line', columns⟩ (tokens ++ [.scalar .literal text]) (outer :: indents)
        next) := by
    rw [Scan.step_bar rfl (Nat.succ_pos _)]
    have hdrop : (Scan.block false ⟨line, column + 1⟩ tokens (outer :: indents)
        ('|' :: (header ++ (List.replicate columns ' ' ++ next)))).dropCandidate =
      some (Scan.block false ⟨line, column + 1⟩ tokens (outer :: indents)
        ('|' :: (header ++ (List.replicate columns ' ' ++ next)))) := rfl
    rw [Scan.pushBlock, hdrop, Option.bind_eq_bind, Option.bind_some]
    change (scanBlock true (some outer) ⟨line, column + 1 + 1⟩ _).bind _ = _
    rw [hscan, Option.bind_some]
    simp [Scan.block, Scan.push]
  refine Scan.Gives.of_space hstart hcolumn hstep ?_ (hgives line')
  simp only [Scan.block, List.length_append]
  omega

end HeapDomains.Yaml
