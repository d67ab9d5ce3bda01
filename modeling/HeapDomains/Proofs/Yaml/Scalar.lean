import HeapDomains.Yaml.Render
import Mathlib.Algebra.Group.Nat.Defs
import Mathlib.Data.List.Basic

/-!
# Reading quoted texts

A text that was written between quotes is read back: between double quotes, where each character is
written on its own (`scanDoubleQuoted_flatMap`), and between single quotes, where line breaks are
kept and the lines are indented (`scanSingleQuoted_singleQuoted`). The readers collect the blanks
and line breaks in front of a character in a gap, so the lemmas are about a reader with a gap at
hand.
-/

namespace HeapDomains.Yaml

variable {c : Char} {chars text rest : List Char} {place : Place} {gap : Gap} {indent : Nat}

/-! ## Characters -/

/-- The only blank that is printed is the space. -/
theorem isBlank_iff_of_isPrintable (h : isPrintable c = true) : isBlank c = true ↔ c = ' ' := by
  constructor
  · intro hblank
    simp only [isBlank, Bool.or_eq_true, decide_eq_true_eq] at hblank
    rcases hblank with rfl | rfl
    · rfl
    · cases h
  · rintro rfl
    rfl

/-- No break is a blank. -/
theorem isBlank_of_isBreak (h : isBreak c = true) : isBlank c = false := by
  simp only [isBreak, Bool.or_eq_true, decide_eq_true_eq] at h
  rcases h with (rfl | rfl) | rfl
  · rfl
  · rfl
  · rfl

/-- Neighbours that pass two tests stand at the start of a text or further on. -/
theorem hasNeighbours_cons {first second : Char → Bool} :
    hasNeighbours first second (c :: chars) =
      ((first c && chars.head?.any second) || hasNeighbours first second chars) := by
  cases chars with
  | nil => simp [hasNeighbours]
  | cons d rest => rfl

/-- No neighbours pass two tests when no character passes the first one. -/
theorem hasNeighbours_eq_false {first second : Char → Bool} (h : ∀ c ∈ chars, first c = false) :
    hasNeighbours first second chars = false := by
  induction chars with
  | nil => rfl
  | cons c rest ih =>
    rw [hasNeighbours_cons, h c List.mem_cons_self, ih fun d hd => h d (List.mem_cons_of_mem c hd)]
    rfl

/-- The last character of a text with more characters is the last of the others. -/
theorem getLast?_cons_of_ne_nil (h : chars ≠ []) : (c :: chars).getLast? = chars.getLast? := by
  obtain ⟨d, rest, rfl⟩ := List.exists_cons_of_ne_nil h
  exact List.getLast?_cons_cons

/-! ## Between double quotes -/

/-- The value of a digit is the digit's. -/
theorem hexValue?_hexDigit {n : Nat} (h : n < 16) : hexValue? (hexDigit n) = some n := by
  have hall : ∀ m : Fin 16, hexValue? (hexDigit m) = some (m : Nat) := by decide
  exact hall ⟨n, h⟩

/-- The last digits of a number stand for what is left of it. -/
theorem hexNumber?_hexDigits (count n : Nat) :
    hexNumber? (hexDigits count n) = some (n % 16 ^ count) := by
  induction count generalizing n with
  | zero => simp [hexDigits, hexNumber?, Nat.mod_one]
  | succ count ih =>
    have hlow : n % 16 < 16 := Nat.mod_lt n (by omega)
    have hpush : pushDigit? 16 (n / 16 % 16 ^ count) (hexDigit (n % 16)) =
        some (16 * (n / 16 % 16 ^ count) + n % 16) := by
      rw [pushDigit?, hexValue?_hexDigit hlow]
      exact if_pos hlow
    have hmod : n % 16 ^ (count + 1) = 16 * (n / 16 % 16 ^ count) + n % 16 := by
      rw [Nat.pow_succ', Nat.mod_mul]
      omega
    have hhigh := ih (n / 16)
    rw [hexNumber?] at hhigh ⊢
    rw [hexDigits, List.foldlM_append, hhigh, hmod]
    simpa using hpush

/-- Enough digits of the number of a character stand for the character. -/
theorem hexChar?_hexDigits {count : Nat} (h : c.toNat < 16 ^ count) :
    hexChar? (hexDigits count c.toNat) = some c := by
  have hvalid : c.toNat.isValidChar := c.valid
  have hchar : Char.ofNatAux c.toNat hvalid = c := Char.toNat_inj.1 rfl
  rw [hexChar?, hexNumber?_hexDigits, Nat.mod_eq_of_lt h, Option.bind_some, dif_pos hvalid, hchar]

/-- The letter of an escape stands for the character that is escaped. -/
theorem escapedChar?_of_escapeLetter? {letter : Char} (h : escapeLetter? c = some letter) :
    escapedChar? letter = some c ∧ isBreak letter = false ∧
      letter ≠ 'x' ∧ letter ≠ 'u' ∧ letter ≠ 'U' := by
  unfold escapeLetter? at h
  split at h
  case h_15 => cases h
  all_goals
    obtain rfl := Option.some.inj h
    exact ⟨rfl, rfl, by decide, by decide, by decide⟩

/-- A letter after a backslash is read as the character it stands for. -/
theorem scanDoubleQuoted_letter {letter : Char} (h : escapeLetter? c = some letter) :
    scanDoubleQuoted gap place ('\\' :: letter :: rest) =
      (scanDoubleQuoted .nothing (place.right 2) rest).map (.prepend (gap.folded ++ [c])) := by
  obtain ⟨hletter, hbreak, hx, hu, hU⟩ := escapedChar?_of_escapeLetter? h
  rw [scanDoubleQuoted.eq_def]
  split
  · next hnil => cases hnil
  · next hcons => exact absurd (List.cons.inj (List.cons.inj hcons).2).1 hx
  · next hcons => exact absurd (List.cons.inj (List.cons.inj hcons).2).1 hu
  · next hcons => exact absurd (List.cons.inj (List.cons.inj hcons).2).1 hU
  · next hcons =>
    obtain ⟨rfl, rfl⟩ := List.cons.inj (List.cons.inj hcons).2
    simp [hbreak, hletter]
  · next hne hcons =>
    obtain ⟨rfl, rfl⟩ := List.cons.inj hcons
    exact absurd rfl (hne letter rest rfl)

/-- A blank between double quotes belongs to the gap. -/
theorem scanDoubleQuoted_space :
    scanDoubleQuoted gap place (' ' :: rest) =
      scanDoubleQuoted (gap.addBlank ' ') (place.right 1) rest := rfl

/-- A character that is printed as it is between double quotes is read. -/
theorem scanDoubleQuoted_printed (hblank : isBlank c = false) (hbreak : isBreak c = false)
    (hquote : c ≠ '"') (hslash : c ≠ '\\') (hcolumn : 0 < place.column) :
    scanDoubleQuoted gap place (c :: rest) =
      (scanDoubleQuoted .nothing (place.right 1) rest).map (.prepend (gap.folded ++ [c])) := by
  have hstart : ¬place.column = 0 := by omega
  rw [scanDoubleQuoted.eq_def]
  simp [hslash, hblank, hbreak, hstart, hquote]

/-- The closing quote ends a scalar between double quotes. -/
theorem scanDoubleQuoted_quote (hcolumn : 0 < place.column) :
    scanDoubleQuoted gap place ('"' :: rest) = some ⟨gap.folded, false, place.right 1, rest⟩ := by
  have hstart : ¬place.column = 0 := by omega
  rw [scanDoubleQuoted.eq_def]
  simp [isBlank, isBreak, hstart]

/-- The digits of a number after a backslash are read as the character with the number. -/
theorem scanDoubleQuoted_number (gap : Gap) (place : Place) (rest : List Char)
    (hletter : escapeLetter? c = none) (hprint : isPrintable c = false) :
    ∃ columns, scanDoubleQuoted gap place (escapeChar c ++ rest) =
      (scanDoubleQuoted .nothing (place.right columns) rest).map
        (.prepend (gap.folded ++ [c])) := by
  have hlarge : c.toNat ≤ 0xFFFF := by
    by_contra hlarge
    have hprinted : isPrintable c = true := by
      simp only [isPrintable, Bool.or_eq_true, decide_eq_true_eq]
      exact Or.inr (by omega)
    rw [hprinted] at hprint
    cases hprint
  by_cases hsmall : c.toNat ≤ 0xFF
  · have hchar : hexChar? (hexDigits 2 c.toNat) = some c := hexChar?_hexDigits (by omega)
    have hdigits : hexDigits 2 c.toNat =
        [hexDigit (c.toNat / 16 % 16), hexDigit (c.toNat % 16)] := rfl
    have hchars : escapeChar c = '\\' :: 'x' :: hexDigits 2 c.toNat := by
      simp [escapeChar, hletter, hprint, hsmall]
    refine ⟨4, ?_⟩
    rw [hdigits] at hchar hchars
    simp only [hchars, List.cons_append, List.nil_append, scanDoubleQuoted, hchar]
    rfl
  · have hchar : hexChar? (hexDigits 4 c.toNat) = some c := hexChar?_hexDigits (by omega)
    have hdigits : hexDigits 4 c.toNat =
        [hexDigit (c.toNat / 16 / 16 / 16 % 16), hexDigit (c.toNat / 16 / 16 % 16),
          hexDigit (c.toNat / 16 % 16), hexDigit (c.toNat % 16)] := rfl
    have hchars : escapeChar c = '\\' :: 'u' :: hexDigits 4 c.toNat := by
      simp [escapeChar, hletter, hprint, hsmall, hlarge]
    refine ⟨6, ?_⟩
    rw [hdigits] at hchar hchars
    simp only [hchars, List.cons_append, List.nil_append, scanDoubleQuoted, hchar]
    rfl

/-- A text that is written between double quotes is read up to the closing one. -/
theorem scanDoubleQuoted_flatMap (text rest : List Char) {blanks : List Char}
    (hcolumn : 0 < place.column) : ∃ place', scanDoubleQuoted (.blanks blanks) place
      (text.flatMap escapeChar ++ '"' :: rest) = some ⟨blanks ++ text, false, place', rest⟩ := by
  induction text generalizing blanks place with
  | nil => exact ⟨place.right 1, by simp [scanDoubleQuoted_quote hcolumn, Gap.folded]⟩
  | cons c text ih =>
    have hright : ∀ columns, 0 < (place.right columns).column := fun columns => by
      simp only [Place.right]
      omega
    rw [List.flatMap_cons, List.append_assoc]
    -- After a character that is no blank, the gap starts anew.
    have hread : ∀ columns, ∃ place', (scanDoubleQuoted (.blanks []) (place.right columns)
        (text.flatMap escapeChar ++ '"' :: rest)).map (ScalarRead.prepend (blanks ++ [c])) =
          some ⟨blanks ++ c :: text, false, place', rest⟩ := by
      intro columns
      obtain ⟨place', hscan⟩ := ih (hright columns)
      refine ⟨place', ?_⟩
      rw [hscan, Option.map_some, ScalarRead.prepend]
      simp
    cases hletter : escapeLetter? c with
    | some letter =>
      rw [escapeChar, hletter]
      exact (scanDoubleQuoted_letter hletter).symm ▸ hread 2
    | none =>
      cases hprint : isPrintable c with
      | false =>
        obtain ⟨columns, hnumber⟩ := scanDoubleQuoted_number (.blanks blanks) place
          (text.flatMap escapeChar ++ '"' :: rest) hletter hprint
        exact hnumber.symm ▸ hread columns
      | true =>
        have hne : ∀ c', (escapeLetter? c').isSome = true → c ≠ c' := by
          rintro c' hsome rfl
          rw [hletter] at hsome
          cases hsome
        have hbreak : isBreak c = false := by
          simp [isBreak, hne '\n' rfl, hne '\u2028' rfl, hne '\u2029' rfl]
        have hchars : escapeChar c = [c] := by simp [escapeChar, hletter, hprint]
        rw [hchars, List.singleton_append]
        by_cases hspace : c = ' '
        · subst hspace
          obtain ⟨place', hscan⟩ : ∃ place', scanDoubleQuoted (.blanks (blanks ++ [' ']))
              (place.right 1) (text.flatMap escapeChar ++ '"' :: rest) =
                some ⟨blanks ++ [' '] ++ text, false, place', rest⟩ := ih (hright 1)
          refine ⟨place', ?_⟩
          rw [scanDoubleQuoted_space, Gap.addBlank, hscan, List.append_assoc,
            List.singleton_append]
        · have hblank : isBlank c = false := by
            rw [← Bool.not_eq_true, isBlank_iff_of_isPrintable hprint]
            exact hspace
          rw [scanDoubleQuoted_printed hblank hbreak (hne '"' rfl) (hne '\\' rfl) hcolumn]
          exact hread 1

/-! ## Between single quotes -/

/-- How a character is written between single quotes. -/
def doubled (c : Char) : List Char := if c = '\'' then ['\'', '\''] else [c]

/-- The blanks in front of the closing quote, when it stands in a line of its own. -/
def closingIndent (columns : Nat) (atStart : Bool) (text : List Char) : List Char :=
  if text.getLast?.elim atStart isBreak then List.replicate columns ' ' else []

/-- The gap in front of a text that is written between single quotes. At the start of a line it has
a break that is kept, and the text does not start with a blank; within a line it has blanks, and
after a blank there is no break. -/
def Gap.Precedes (gap : Gap) (atStart : Bool) (text : List Char) : Prop :=
  if atStart then
    (∃ c more, gap = .lines (some c) more ∧ c ≠ '\n') ∧ text.head?.any (· = ' ') = false
  else ∃ blanks, gap = .blanks blanks ∧ (blanks = [] ∨ text.head?.any isBreak = false)

/-- Nothing stands in front of a text. -/
theorem Gap.precedes_nothing (text : List Char) : Gap.nothing.Precedes false text :=
  ⟨[], rfl, Or.inl rfl⟩

/-- A break adds to the gap, and a line starts after it. -/
theorem Gap.Precedes.addBreak {atStart : Bool} (h : gap.Precedes atStart (c :: text))
    (hbreak : isBreak c = true) (hfeed : c ≠ '\n') (hnext : text.head?.any (· = ' ') = false) :
    (gap.addBreak c).Precedes true text ∧ (gap.addBreak c).folded = gap.folded ++ [c] := by
  cases atStart with
  | true =>
    obtain ⟨⟨first, more, rfl, hfirst⟩, -⟩ := h
    refine ⟨⟨⟨first, more ++ [c], rfl, hfirst⟩, hnext⟩, ?_⟩
    simp [Gap.addBreak, Gap.folded, hfirst]
  | false =>
    obtain ⟨blanks, rfl, hblanks | hnone⟩ := h
    · refine ⟨⟨⟨c, [], rfl, hfeed⟩, hnext⟩, ?_⟩
      simp [Gap.addBreak, Gap.folded, hfeed, hblanks]
    · rw [List.head?_cons, Option.any_some, hbreak] at hnone
      cases hnone

/-- A blank adds to the gap, which is within a line. -/
theorem Gap.Precedes.addBlank {atStart : Bool} (h : gap.Precedes atStart (' ' :: text))
    (hnext : text.head?.any isBreak = false) : atStart = false ∧
      (gap.addBlank ' ').Precedes false text ∧ (gap.addBlank ' ').folded = gap.folded ++ [' '] := by
  cases atStart with
  | true =>
    obtain ⟨-, hhead⟩ := h
    cases hhead
  | false =>
    obtain ⟨blanks, rfl, -⟩ := h
    exact ⟨rfl, ⟨blanks ++ [' '], rfl, Or.inr hnext⟩, rfl⟩

/-- The place some characters further on, and then some more. -/
theorem Place.right_right (p : Place) (m n : Nat) : (p.right m).right n = p.right (m + n) := by
  simp [Place.right, Nat.add_assoc]

section SingleQuoted

/-- Blanks after a break do not count. -/
theorem scanSingleQuoted_replicate {first : Option Char} {more : List Char} (columns : Nat) :
    scanSingleQuoted (.lines first more) place (List.replicate columns ' ' ++ chars) =
      scanSingleQuoted (.lines first more) (place.right columns) chars := by
  induction columns generalizing place with
  | zero => rfl
  | succ columns ih =>
    rw [List.replicate_succ, List.cons_append]
    change scanSingleQuoted (.lines first more) (place.right 1) _ = _
    rw [ih, Place.right_right, Nat.add_comm]

/-- The blanks in front of a character that is no blank do not change what is read. -/
theorem Gap.Precedes.scanSingleQuoted_lead {atStart : Bool} {columns : Nat}
    (h : gap.Precedes atStart text) (chars : List Char) (hcolumns : 0 < columns)
    (hcolumn : atStart = false → 0 < place.column) : ∃ place' : Place, 0 < place'.column ∧
      scanSingleQuoted gap place
          ((if atStart then List.replicate columns ' ' else []) ++ chars) =
        scanSingleQuoted gap place' chars := by
  cases atStart with
  | false => exact ⟨place, hcolumn rfl, rfl⟩
  | true =>
    obtain ⟨⟨c, more, rfl, -⟩, -⟩ := h
    refine ⟨place.right columns, ?_, scanSingleQuoted_replicate columns⟩
    simp only [Place.right]
    omega

/-- A quote that is written twice is read. -/
theorem scanSingleQuoted_doubled (gap : Gap) (chars : List Char) (hcolumn : 0 < place.column)
    (hbreak : isBreak c = false) (hblank : isBlank c = false) :
    ∃ columns, scanSingleQuoted gap place (doubled c ++ chars) =
      (scanSingleQuoted .nothing (place.right columns) chars).map
        (.prepend (gap.folded ++ [c])) := by
  have hstart : ¬place.column = 0 := by omega
  by_cases hquote : c = '\''
  · subst hquote
    exact ⟨2, by simp [doubled, scanSingleQuoted, hstart]⟩
  · exact ⟨1, by simp [doubled, scanSingleQuoted, hquote, hstart, hbreak, hblank]⟩

/-- A break belongs to the gap. -/
theorem scanSingleQuoted_break (hbreak : isBreak c = true) :
    scanSingleQuoted gap place (c :: chars) =
      scanSingleQuoted (gap.addBreak c) place.down chars := by
  have hquote : c ≠ '\'' := by
    rintro rfl
    cases hbreak
  simp [scanSingleQuoted, hquote, isBlank_of_isBreak hbreak, hbreak]

/-- The closing quote ends a scalar between single quotes. -/
theorem scanSingleQuoted_quote (hrest : rest.head? ≠ some '\'') (hcolumn : 0 < place.column) :
    scanSingleQuoted gap place ('\'' :: rest) =
      some ⟨gap.folded, false, place.right 1, rest⟩ := by
  have hstart : ¬place.column = 0 := by omega
  rw [scanSingleQuoted.eq_def]
  split
  · next hnil => cases hnil
  · next hquotes =>
    rw [(List.cons.inj hquotes).2] at hrest
    exact absurd rfl hrest
  · next hcons =>
    obtain ⟨rfl, rfl⟩ := List.cons.inj hcons
    simp [isBlank, isBreak, hstart]

/-- Whether a line of its own is left at the end depends on the last character. -/
theorem closingIndent_cons {columns : Nat} {atStart : Bool} :
    closingIndent columns atStart (c :: text) = closingIndent columns (isBreak c) text := by
  cases text with
  | nil => rfl
  | cons d rest => rw [closingIndent, closingIndent, List.getLast?_cons_cons]; rfl

/-- A line is indented in front of its first character. -/
theorem indentLines_doubled {columns : Nat} {atStart : Bool} (hbreak : isBreak c = false) :
    indentLines columns atStart (doubled c ++ chars) =
      (if atStart then List.replicate columns ' ' else []) ++
        (doubled c ++ indentLines columns false chars) := by
  by_cases hquote : c = '\''
  · subst hquote
    simp [doubled, indentLines, hbreak]
  · simp [doubled, indentLines, hbreak, hquote]

/-- A text that is written between single quotes is read up to the closing one. -/
theorem scanSingleQuoted_indentLines {columns : Nat} {atStart : Bool} (text : List Char)
    (place : Place) (hrest : rest.head? ≠ some '\'')
    (hprint : ∀ c ∈ text, isPrintable c = true ∧ c ≠ '\n')
    (hbefore : hasNeighbours (· = ' ') isBreak text = false)
    (hafter : hasNeighbours isBreak (· = ' ') text = false)
    (hgap : gap.Precedes atStart text) (hcolumns : 0 < columns)
    (hcolumn : atStart = false → 0 < place.column) :
    ∃ place', scanSingleQuoted gap place (indentLines columns atStart (text.flatMap doubled) ++
        (closingIndent columns atStart text ++ '\'' :: rest)) =
      some ⟨gap.folded ++ text, false, place', rest⟩ := by
  induction text generalizing gap place atStart with
  | nil =>
    obtain ⟨place', hcolumn', hlead⟩ :=
      hgap.scanSingleQuoted_lead ('\'' :: rest) hcolumns hcolumn
    refine ⟨place'.right 1, ?_⟩
    rw [List.append_nil, ← scanSingleQuoted_quote hrest hcolumn', ← hlead]
    rfl
  | cons c text ih =>
    rw [hasNeighbours_cons, Bool.or_eq_false_iff] at hbefore hafter
    have hprint' : ∀ c ∈ text, isPrintable c = true ∧ c ≠ '\n' :=
      fun d hd => hprint d (List.mem_cons_of_mem c hd)
    obtain ⟨hc, hfeed⟩ := hprint c List.mem_cons_self
    rw [List.flatMap_cons, closingIndent_cons]
    cases hbreak : isBreak c with
    | true =>
      have hquote : c ≠ '\'' := by
        rintro rfl
        cases hbreak
      have hlines : indentLines columns atStart (doubled c ++ text.flatMap doubled) =
          c :: indentLines columns true (text.flatMap doubled) := by
        simp [doubled, hquote, indentLines, hbreak]
      rw [hbreak, Bool.true_and] at hafter
      obtain ⟨hgap', hfolded⟩ := hgap.addBreak hbreak hfeed hafter.1
      obtain ⟨place', hscan⟩ := ih place.down hprint' hbefore.2 hafter.2 hgap' nofun
      refine ⟨place', ?_⟩
      rw [hlines, List.cons_append, scanSingleQuoted_break hbreak, hscan, hfolded,
        List.append_assoc, List.singleton_append]
    | false =>
      by_cases hspace : c = ' '
      · subst hspace
        rw [decide_eq_true rfl, Bool.true_and] at hbefore
        obtain ⟨rfl, hgap', hfolded⟩ := hgap.addBlank hbefore.1
        have hright : 0 < (place.right 1).column := by simp [Place.right]
        obtain ⟨place', hscan⟩ := ih _ hprint' hbefore.2 hafter.2 hgap' fun _ => hright
        refine ⟨place', ?_⟩
        have hlines : indentLines columns false (doubled ' ' ++ text.flatMap doubled) =
            ' ' :: indentLines columns false (text.flatMap doubled) := rfl
        rw [hlines, List.cons_append]
        change scanSingleQuoted (gap.addBlank ' ') (place.right 1) _ = _
        rw [hscan, hfolded, List.append_assoc, List.singleton_append]
      · have hblank : isBlank c = false := by
          rw [← Bool.not_eq_true, isBlank_iff_of_isPrintable hc]
          exact hspace
        obtain ⟨start, hstart, hlead⟩ := hgap.scanSingleQuoted_lead
          (doubled c ++ (indentLines columns false (text.flatMap doubled) ++
            (closingIndent columns false text ++ '\'' :: rest))) hcolumns hcolumn
        obtain ⟨width, hdoubled⟩ := scanSingleQuoted_doubled gap
          (indentLines columns false (text.flatMap doubled) ++
            (closingIndent columns false text ++ '\'' :: rest)) hstart hbreak hblank
        have hright : 0 < (start.right width).column := by
          simp only [Place.right]
          omega
        obtain ⟨place', hscan⟩ := ih _ hprint' hbefore.2 hafter.2 (Gap.precedes_nothing text)
          fun _ => hright
        refine ⟨place', ?_⟩
        rw [indentLines_doubled hbreak, List.append_assoc, List.append_assoc, hlead, hdoubled,
          hscan, Option.map_some, ScalarRead.prepend]
        simp [Gap.nothing, Gap.folded]

/-- A text that is written between single quotes is read back. -/
theorem scanSingleQuoted_singleQuoted (columns : Nat) (h : allowsSingle text = true)
    (hfeed : '\n' ∉ text) (hcolumns : 0 < columns) :
    ∃ quoted, singleQuoted columns text = '\'' :: quoted ∧
      ∀ (place : Place) (rest : List Char), 0 < place.column → rest.head? ≠ some '\'' →
        ∃ place', scanSingleQuoted .nothing place (quoted ++ rest) =
          some ⟨text, false, place', rest⟩ := by
  simp only [allowsSingle, Bool.and_eq_true, Bool.not_eq_true', List.all_eq_true] at h
  have hprint : ∀ c ∈ text, isPrintable c = true ∧ c ≠ '\n' := by
    intro c hc
    refine ⟨h.1.1 c hc, ?_⟩
    rintro rfl
    exact hfeed hc
  have hclosing : (if text.getLast?.any isBreak then List.replicate columns ' ' else []) =
      closingIndent columns false text := by
    rw [closingIndent]
    cases text.getLast? with
    | none => rfl
    | some c => rfl
  refine ⟨indentLines columns false (text.flatMap doubled) ++
    (closingIndent columns false text ++ ['\'']), ?_, fun place rest hcolumn hrest => ?_⟩
  · rw [singleQuoted, hclosing, ← List.append_assoc]
    rfl
  · obtain ⟨place', hscan⟩ := scanSingleQuoted_indentLines text place hrest hprint h.1.2 h.2
      (Gap.precedes_nothing text) hcolumns fun _ => hcolumn
    refine ⟨place', ?_⟩
    rw [List.append_assoc, List.append_assoc, List.singleton_append, hscan]
    rfl

end SingleQuoted

end HeapDomains.Yaml
