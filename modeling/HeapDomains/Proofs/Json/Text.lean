import HeapDomains.Json.Basic
import HeapDomains.Json.Parser
import HeapDomains.Proofs.Decimal
import Mathlib.Data.List.DropRight

/-!
# Scanning what was written

A value is written without blanks or with one member or item a line, and from both texts the scanner
makes the same draft, `Json.draft`. `Scans` says so of a text whatever follows it; the steps of the
scanner that a text takes are at most twice its characters. A text between quotes is kept as it is
written, and stands for the text that was written (`JsonString.text_ofText`).
-/

namespace HeapDomains

/-! ## Texts between quotes -/

namespace JsonString

/-- A text as it stands between quotes. -/
def ofText (s : String) : JsonString := ⟨s.toList.flatMap Json.escapeChar, none⟩

/-- Two digits are written for a character that needs an escape by number. -/
theorem hexUnit?_hexDigit {n : Nat} (h : n < 0x20) :
    hexUnit? '0' '0' (Json.hexDigit (n / 16)) (Json.hexDigit (n % 16)) = some n := by
  have hall : ∀ m : Fin 0x20,
      hexUnit? '0' '0' (Json.hexDigit (m / 16)) (Json.hexDigit (m % 16)) = some (m : Nat) := by
    decide
  exact hall ⟨n, h⟩

/-- What is written for a character stands for it. -/
theorem units_escapeChar (c : Char) (chars : List Char) :
    units (Json.escapeChar c ++ chars) = c.toNat :: units chars := by
  unfold Json.escapeChar
  split_ifs with hquote hslash hn hr ht hb hf hcontrol
  · subst hquote; rfl
  · subst hslash; rfl
  · subst hn; rfl
  · subst hr; rfl
  · subst ht; rfl
  · subst hb; rfl
  · subst hf; rfl
  · simp only [List.cons_append, List.nil_append, units, hexUnit?_hexDigit hcontrol]
  · simp [units, hslash]

/-- The units of a text that is written are its characters. -/
theorem units_flatMap_escapeChar (chars : List Char) :
    units (chars.flatMap Json.escapeChar) = chars.map Char.toNat := by
  induction chars with
  | nil => rfl
  | cons c rest ih => rw [List.flatMap_cons, units_escapeChar, ih, List.map_cons]

/-- A character is no half of a surrogate pair. -/
theorem not_isLeading_toNat (c : Char) :
    isLeading c.toNat = false ∧ isTrailing c.toNat = false := by
  have hvalid : c.toNat < 0xD800 ∨ 0xDFFF < c.toNat ∧ c.toNat < 0x110000 := c.valid
  constructor
  · simp [isLeading]
    omega
  · simp [isTrailing]
    omega

/-- Units that are characters are read as they are. -/
theorem characters_map_toNat {atEnd : JsonFault} (chars : List Char) :
    characters atEnd (chars.map Char.toNat) = .ok chars := by
  induction chars with
  | nil => rfl
  | cons c rest ih =>
    obtain ⟨hleading, htrailing⟩ := not_isLeading_toNat c
    rw [List.map_cons, characters.eq_def]
    simp [hleading, htrailing, ih, Except.map]

/-- A text that is written between quotes is read back. -/
@[simp] theorem text_ofText (s : String) : (ofText s).text = .ok s := by
  rw [text, ofText, units_flatMap_escapeChar, characters_map_toNat]
  exact congrArg Except.ok String.ofList_toList

/-- Nothing is wrong with a text that is written between quotes. -/
@[simp] theorem textFault?_ofText (s : String) : (ofText s).textFault? = none := by
  rw [textFault?, text_ofText]

end JsonString

namespace JsonText

/-- The scanner passes over what is written for a character. -/
theorem scanString_escapeChar (c : Char) (chars : List Char) :
    scanString (Json.escapeChar c ++ chars) = prepend (Json.escapeChar c) (scanString chars) := by
  unfold Json.escapeChar
  split_ifs with hquote hslash hn hr ht hb hf hcontrol
  · rfl
  · rfl
  · rfl
  · rfl
  · rfl
  · rfl
  · rfl
  · simp only [List.cons_append, List.nil_append, scanString,
      JsonString.hexUnit?_hexDigit hcontrol]
  · simp [scanString, hslash, hquote, hcontrol]

/-- A text that is written is scanned up to the closing quote. -/
theorem scanString_ofText (s : String) (rest : List Char) :
    scanString (s.toList.flatMap Json.escapeChar ++ '"' :: rest) =
      (JsonString.ofText s, rest) := by
  rw [JsonString.ofText]
  induction s.toList with
  | nil => rfl
  | cons c chars ih =>
    rw [List.flatMap_cons, List.append_assoc, scanString_escapeChar, ih, prepend]

/-! ## Numbers -/

/-- Whether a character can go on a number. -/
def continuesNumber (c : Char) : Bool := c.isDigit || c = '.' || c = 'e' || c = 'E'

/-- A text that does not go on a number. -/
def EndsNumber (rest : List Char) : Prop := ∀ c ∈ rest.head?, continuesNumber c = false

/-- Nothing goes on no number. -/
theorem endsNumber_nil : EndsNumber [] := by simp [EndsNumber]

/-- The first character decides whether a text goes on a number. -/
theorem endsNumber_cons {c : Char} {rest : List Char} (h : continuesNumber c = false) :
    EndsNumber (c :: rest) := by
  intro c' hc'
  obtain rfl : c = c' := by simpa using hc'
  exact h

/-- A blank goes on no number. -/
theorem continuesNumber_of_isBlank {c : Char} (h : isBlank c = true) :
    continuesNumber c = false := by
  simp only [isBlank, Bool.or_eq_true, decide_eq_true_eq] at h
  rcases h with ((rfl | rfl) | rfl) | rfl
  · rfl
  · rfl
  · rfl
  · rfl

variable {n : Nat} {rest : List Char}

/-- The scanner passes over the digits of a number. -/
theorem scanDigits_toDigits (hrest : EndsNumber rest) :
    scanDigits (Nat.toDigits 10 n ++ rest) = .ok (Nat.toDigits 10 n, rest) := by
  have hdigits : ∀ c ∈ Nat.toDigits 10 n, c.isDigit = true := fun c => isDigit_of_mem_toDigits
  have hstop : rest.takeWhile Char.isDigit = [] ∧ rest.dropWhile Char.isDigit = rest := by
    cases rest with
    | nil => exact ⟨rfl, rfl⟩
    | cons c _ =>
      have hc : c.isDigit = false := by
        have hnone := hrest c rfl
        simp only [continuesNumber, Bool.or_eq_false_iff] at hnone
        exact hnone.1.1.1
      simp [hc]
  have htake : (Nat.toDigits 10 n ++ rest).takeWhile Char.isDigit = Nat.toDigits 10 n := by
    rw [List.takeWhile_append_of_pos hdigits, hstop.1, List.append_nil]
  have hdrop : (Nat.toDigits 10 n ++ rest).dropWhile Char.isDigit = rest := by
    rw [List.dropWhile_append_of_pos hdigits, hstop.2]
  obtain ⟨c, digits, hcons⟩ := List.exists_cons_of_ne_nil (Nat.toDigits_ne_nil (n := n) (b := 10))
  rw [hcons] at hdigits htake hdrop ⊢
  rw [List.cons_append] at htake hdrop ⊢
  rw [scanDigits, if_pos (hdigits c List.mem_cons_self), htake, hdrop]

/-- The scanner reads the digits of a number as an integer. -/
theorem scanMagnitude_toDigits (negative : Bool) (hrest : EndsNumber rest) :
    scanMagnitude negative (Nat.toDigits 10 n ++ rest) =
      .ok (numberOf negative (Nat.toDigits 10 n) none none, rest) := by
  have hzero : ¬(1 < (Nat.toDigits 10 n).length ∧ (Nat.toDigits 10 n).head? = some '0') := by
    rintro ⟨hlength, hhead⟩
    by_cases hn : n = 0
    · subst hn
      simp at hlength
    · exact head?_toDigits hn hhead
  have hinteger : scanInteger (Nat.toDigits 10 n ++ rest) = .ok (Nat.toDigits 10 n, rest) := by
    simp only [scanInteger, scanDigits_toDigits hrest, if_neg hzero]
  have hfraction : scanFraction rest = .ok (none, rest) := by
    cases rest with
    | nil => rfl
    | cons c _ =>
      have hc : c ≠ '.' := by
        rintro rfl
        exact absurd (hrest '.' rfl) (by decide)
      simp [scanFraction, hc]
  have hexponent : scanExponent rest = .ok (none, rest) := by
    cases rest with
    | nil => rfl
    | cons c _ =>
      have hc : ¬(c = 'e' ∨ c = 'E') := by
        rintro (rfl | rfl)
        · exact absurd (hrest 'e' rfl) (by decide)
        · exact absurd (hrest 'E' rfl) (by decide)
      simp [scanExponent, hc]
  simp only [scanMagnitude, hinteger, hfraction, hexponent, bind, Except.bind]
  rfl

/-- The digits of a natural number of 64 bits stand for it. -/
theorem numberOf_toDigits (h : n < wordLimit) :
    numberOf false (Nat.toDigits 10 n) none none = .integer n := by
  have hdigits : Nat.ofDigitChars 10 (Nat.toDigits 10 n) 0 = n :=
    Nat.ofDigitChars_toDigits (by omega) (by omega)
  rw [numberOf, hdigits, if_neg Bool.false_ne_true, if_pos h]

/-- The scanner reads the digits of a natural number. -/
theorem scanNumber_toDigits (hrest : EndsNumber rest) :
    scanNumber (Nat.toDigits 10 n ++ rest) =
      .ok (numberOf false (Nat.toDigits 10 n) none none, rest) := by
  rw [← scanMagnitude_toDigits false hrest]
  obtain ⟨c, digits, hcons⟩ := List.exists_cons_of_ne_nil (Nat.toDigits_ne_nil (n := n) (b := 10))
  have hc : c ≠ '-' := by
    rintro rfl
    have hdigit : ('-').isDigit = true := isDigit_of_mem_toDigits (hcons ▸ List.mem_cons_self)
    cases hdigit
  rw [hcons, List.cons_append]
  simp [scanNumber, hc]

/-- Skipping blanks once is enough. -/
theorem skipBlank_skipBlank (chars : List Char) : skipBlank (skipBlank chars) = skipBlank chars :=
  List.dropWhile_idempotent isBlank chars

/-- Blanks at the start are skipped. -/
theorem skipBlank_append {blank : List Char} (h : ∀ c ∈ blank, isBlank c = true)
    (chars : List Char) : skipBlank (blank ++ chars) = skipBlank chars :=
  List.dropWhile_append_of_pos h

/-- The scanner of values skips the blanks at the start. -/
theorem scanValue_congr {fuel : Nat} {chars chars' : List Char}
    (h : skipBlank chars = skipBlank chars') : scanValue fuel chars = scanValue fuel chars' := by
  rw [scanValue.eq_def fuel chars, scanValue.eq_def fuel chars', h]

/-- The scanner of items skips the blanks at the start. -/
theorem scanItems_congr {fuel : Nat} {chars chars' : List Char}
    (h : skipBlank chars = skipBlank chars') : scanItems fuel chars = scanItems fuel chars' := by
  cases fuel with
  | zero => rfl
  | succ fuel => rw [scanItems, scanItems, scanValue_congr h]

/-- A text whose items are scanned to their end starts with a character that can start one. -/
theorem exists_cons_of_scanItems {fuel : Nat} {chars rest : List Char} {ds : List JsonDraft}
    {ending : JsonEnding} (h : scanItems fuel chars = (ds, ending, some rest)) :
    ∃ c more, skipBlank chars = c :: more ∧ c ≠ ']' := by
  rw [← scanItems_congr (skipBlank_skipBlank chars)] at h
  cases fuel with
  | zero => cases h
  | succ fuel =>
    cases fuel with
    | zero => simp [scanItems, scanValue] at h
    | succ fuel =>
      cases hchars : skipBlank chars with
      | nil =>
        rw [hchars] at h
        cases h
      | cons c more =>
        refine ⟨c, more, rfl, ?_⟩
        rintro rfl
        rw [hchars] at h
        cases h

end JsonText

/-! ## Values -/

namespace Json

/-- What the digits of an integer are read as. -/
def number : Int → JsonNumber
  | .ofNat n => JsonText.numberOf false (Nat.toDigits 10 n) none none
  | .negSucc n => JsonText.numberOf true (Nat.toDigits 10 (n + 1)) none none

mutual

/-- What is read where a value was written. -/
def draft : Json → JsonDraft
  | null => .null
  | bool b => .bool b
  | int n => .number (number n)
  | str s => .string (.ofText s)
  | arr items => .array (draftItems items) .closed
  | obj members => .object (draftMembers members) .closed

/-- What is read where the items of a list were written. -/
def draftItems : List Json → List JsonDraft
  | [] => []
  | item :: rest => draft item :: draftItems rest

/-- What is read where named values were written. -/
def draftMembers : List (String × Json) → List (JsonString × JsonDraft)
  | [] => []
  | (name, value) :: rest => (.ofText name, draft value) :: draftMembers rest

end

variable {n : Nat}

/-- A natural number of 64 bits is read as an integer. -/
theorem number_natCast (h : n < wordLimit) : number n = .integer n :=
  JsonText.numberOf_toDigits h

mutual

/-- Nothing that was written is faulty when it is skipped. -/
theorem fault?_draft : ∀ j : Json, j.draft.fault? = none
  | null => rfl
  | bool _ => rfl
  | int _ => rfl
  | str _ => rfl
  | arr items => by
    rw [draft, JsonDraft.fault?, faultOfItems?_draftItems items]
    rfl
  | obj members => by
    rw [draft, JsonDraft.fault?, faultOfMembers?_draftMembers members]
    rfl

/-- No item that was written is faulty when it is skipped. -/
theorem faultOfItems?_draftItems : ∀ items : List Json,
    JsonDraft.faultOfItems? (draftItems items) = none
  | [] => rfl
  | item :: rest => by
    rw [draftItems, JsonDraft.faultOfItems?, fault?_draft item, faultOfItems?_draftItems rest]
    rfl

/-- No member that was written is faulty when it is skipped. -/
theorem faultOfMembers?_draftMembers : ∀ members : List (String × Json),
    JsonDraft.faultOfMembers? (draftMembers members) = none
  | [] => rfl
  | (name, value) :: rest => by
    rw [draftMembers, JsonDraft.faultOfMembers?, fault?_draft value,
      faultOfMembers?_draftMembers rest]
    rfl

end

end Json

namespace JsonText

variable {chars : List Char} {d : JsonDraft} {ds : List JsonDraft} {name : String}
  {members : List (JsonString × JsonDraft)} {lead trail : List Char}

/-- A text is scanned as a value, whatever follows that is not part of a number. -/
def Scans (chars : List Char) (d : JsonDraft) : Prop :=
  ∀ fuel rest, 2 * chars.length ≤ fuel → EndsNumber rest →
    scanValue fuel (chars ++ rest) = (d, some rest)

/-- A text is scanned as the items of a list up to the closing bracket. -/
def ScansItems (chars : List Char) (ds : List JsonDraft) : Prop :=
  ∀ fuel rest, 2 * chars.length + 1 ≤ fuel →
    scanItems fuel (chars ++ ']' :: rest) = (ds, .closed, some rest)

/-- A text is scanned as the members of an object up to the closing brace, from the quote on that is
its first character after blanks. -/
def ScansMembers (chars : List Char) (members : List (JsonString × JsonDraft)) : Prop :=
  ∀ rest, ∃ quoted, skipBlank (chars ++ '\x7d' :: rest) = '"' :: quoted ∧
    ∀ fuel, 2 * chars.length ≤ fuel + 1 →
      scanMembers fuel quoted = (members, .closed, some rest)

/-- Blanks may stand before a value. -/
theorem Scans.indent (h : Scans chars d) (hlead : ∀ c ∈ lead, isBlank c = true) :
    Scans (lead ++ chars) d := by
  intro fuel rest hfuel hrest
  rw [List.length_append] at hfuel
  rw [List.append_assoc, scanValue_congr (skipBlank_append hlead _)]
  exact h fuel rest (by omega) hrest

/-- What follows a value ends a number when a character comes first that does, or blanks do. -/
theorem endsNumber_trail (htrail : ∀ c ∈ trail, isBlank c = true) {c : Char} {rest : List Char}
    (hc : continuesNumber c = false) : EndsNumber (trail ++ c :: rest) := by
  cases trail with
  | nil => exact endsNumber_cons hc
  | cons c' _ => exact endsNumber_cons (continuesNumber_of_isBlank (htrail c' List.mem_cons_self))

/-! ### Scalars -/

/-- The null value is scanned. -/
theorem scans_null : Scans "null".toList .null := by
  intro fuel rest hfuel _
  obtain ⟨fuel, rfl⟩ : ∃ k, fuel = k + 1 := ⟨fuel - 1, by simp at hfuel; omega⟩
  rfl

/-- A truth value is scanned. -/
theorem scans_bool (b : Bool) : Scans (Json.compactChars (.bool b)) (.bool b) := by
  intro fuel rest hfuel _
  cases b with
  | false =>
    obtain ⟨fuel, rfl⟩ : ∃ k, fuel = k + 1 :=
      ⟨fuel - 1, by simp [Json.compactChars] at hfuel; omega⟩
    rfl
  | true =>
    obtain ⟨fuel, rfl⟩ : ∃ k, fuel = k + 1 :=
      ⟨fuel - 1, by simp [Json.compactChars] at hfuel; omega⟩
    rfl

/-- A text between quotes is scanned. -/
theorem scans_quote (s : String) : Scans (Json.quote s) (.string (.ofText s)) := by
  intro fuel rest hfuel _
  obtain ⟨fuel, rfl⟩ : ∃ k, fuel = k + 1 := ⟨fuel - 1, by simp [Json.quote] at hfuel; omega⟩
  have hskip : skipBlank (Json.quote s ++ rest) =
      '"' :: (s.toList.flatMap Json.escapeChar ++ '"' :: rest) := by
    simp [Json.quote, skipBlank, isBlank]
  simp only [scanValue, hskip, scanString_ofText]
  rfl

/-- A character that starts a number starts no other value. -/
theorem scanValue_digit {c : Char} (hc : c = '-' ∨ c.isDigit = true) (fuel : Nat)
    (chars : List Char) : scanValue (fuel + 1) (c :: chars) =
      valueOr ((scanNumber (c :: chars)).map fun (n, rest) => (.number n, rest)) := by
  have hne : ∀ c', c'.isDigit = false → c' ≠ '-' → c ≠ c' := by
    rintro c' hdigit hsign rfl
    rcases hc with rfl | hc
    · exact hsign rfl
    · rw [hc] at hdigit
      cases hdigit
  have hskip : skipBlank (c :: chars) = c :: chars := by
    have hblank : isBlank c = false := by
      simp [isBlank, hne ' ' rfl (by decide), hne '\n' rfl (by decide), hne '\t' rfl (by decide),
        hne '\r' rfl (by decide)]
    rw [skipBlank, List.dropWhile_cons, hblank, if_neg Bool.false_ne_true]
  rw [scanValue.eq_def, hskip]
  split
  · next hfuel => cases hfuel
  · next hnil _ => cases hnil
  · next hquote _ => exact absurd (List.cons.inj hquote).1 (hne '"' rfl (by decide))
  · next hbracket => exact absurd (List.cons.inj hbracket).1 (hne '[' rfl (by decide))
  · next hbrace => exact absurd (List.cons.inj hbrace).1 (hne '\x7b' rfl (by decide))
  · next hcons _ _ _ =>
    obtain ⟨rfl, rfl⟩ := List.cons.inj hcons
    rw [if_neg (hne 'n' rfl (by decide)), if_neg (hne 't' rfl (by decide)),
      if_neg (hne 'f' rfl (by decide)), if_pos hc]

/-- The digits of an integer are scanned as a number. -/
theorem scans_decimal (n : Int) : Scans (Json.decimal n) (.number (Json.number n)) := by
  intro fuel rest hfuel hrest
  cases n with
  | ofNat n =>
    have hscan := scanNumber_toDigits (n := n) hrest
    obtain ⟨c, digits, hcons⟩ := List.exists_cons_of_ne_nil (Nat.toDigits_ne_nil (n := n) (b := 10))
    have hc : c.isDigit = true := isDigit_of_mem_toDigits (hcons ▸ List.mem_cons_self)
    have hfuel : 2 * (c :: digits).length ≤ fuel := hcons ▸ hfuel
    obtain ⟨fuel, rfl⟩ : ∃ k, fuel = k + 1 := ⟨fuel - 1, by simp at hfuel; omega⟩
    rw [Json.decimal, Json.number]
    rw [hcons, List.cons_append] at hscan ⊢
    rw [scanValue_digit (Or.inr hc), hscan]
    rfl
  | negSucc n =>
    obtain ⟨fuel, rfl⟩ : ∃ k, fuel = k + 1 := ⟨fuel - 1, by simp [Json.decimal] at hfuel; omega⟩
    rw [Json.decimal, List.cons_append, scanValue_digit (Or.inl rfl), scanNumber,
      scanMagnitude_toDigits true hrest]
    rfl

/-! ### Lists -/

/-- The last item of a list is scanned. -/
theorem scansItems_singleton (h : Scans chars d) (htrail : ∀ c ∈ trail, isBlank c = true) :
    ScansItems (chars ++ trail) [d] := by
  intro fuel rest hfuel
  obtain ⟨fuel, rfl⟩ : ∃ k, fuel = k + 1 := ⟨fuel - 1, by omega⟩
  rw [List.length_append] at hfuel
  have hvalue := h fuel (trail ++ ']' :: rest) (by omega) (endsNumber_trail htrail rfl)
  have hskip : skipBlank (trail ++ ']' :: rest) = ']' :: rest := skipBlank_append htrail _
  rw [List.append_assoc, scanItems, hvalue]
  simp only [hskip]

/-- An item before others is scanned. -/
theorem scansItems_cons (h : Scans chars d) {more : List Char} (hmore : ScansItems more ds) :
    ScansItems (chars ++ ',' :: more) (d :: ds) := by
  intro fuel rest hfuel
  obtain ⟨fuel, rfl⟩ : ∃ k, fuel = k + 1 := ⟨fuel - 1, by omega⟩
  rw [List.length_append, List.length_cons] at hfuel
  have hvalue := h fuel (',' :: (more ++ ']' :: rest)) (by omega) (endsNumber_cons rfl)
  have hitems := hmore fuel rest (by omega)
  obtain ⟨c, later, hskip, hc⟩ := exists_cons_of_scanItems hitems
  rw [← scanItems_congr (skipBlank_skipBlank _), hskip] at hitems
  have hcomma : skipBlank (',' :: (more ++ ']' :: rest)) = ',' :: (more ++ ']' :: rest) := rfl
  rw [List.append_assoc, List.cons_append, scanItems, hvalue]
  simp only [hcomma, hskip]
  split
  · next hnil => cases hnil
  · next hbracket => exact absurd (List.cons.inj hbracket).1 hc
  · rw [hitems]

/-- A list is scanned after its opening bracket. -/
theorem scanValue_bracket (fuel : Nat) (chars : List Char) :
    scanValue (fuel + 1) ('[' :: chars) =
      (.array (scanArray fuel chars).1 (scanArray fuel chars).2.1, (scanArray fuel chars).2.2) :=
  rfl

/-- An empty list is scanned. -/
theorem scans_emptyArray : Scans ['[', ']'] (.array [] .closed) := by
  intro fuel rest hfuel _
  obtain ⟨fuel, rfl⟩ : ∃ k, fuel = k + 2 := ⟨fuel - 2, by simp at hfuel; omega⟩
  rfl

/-- A list with items is scanned. -/
theorem scans_array (h : ScansItems chars ds) :
    Scans ('[' :: (chars ++ [']'])) (.array ds .closed) := by
  intro fuel rest hfuel _
  rw [List.length_cons, List.length_append, List.length_singleton] at hfuel
  obtain ⟨fuel, rfl⟩ : ∃ k, fuel = k + 2 := ⟨fuel - 2, by omega⟩
  have hitems := h fuel rest (by omega)
  obtain ⟨c, more, hskip, hc⟩ := exists_cons_of_scanItems hitems
  rw [← scanItems_congr (skipBlank_skipBlank _), hskip] at hitems
  have harray : scanArray (fuel + 1) (chars ++ ']' :: rest) = (ds, .closed, some rest) := by
    rw [scanArray.eq_def, hskip]
    split
    · next hfuel => cases hfuel
    · next hnil _ => cases hnil
    · next hbracket _ => exact absurd (List.cons.inj hbracket).1 hc
    · next hsucc _ _ =>
      obtain rfl := Nat.succ.inj hsucc
      exact hitems
  rw [List.cons_append, List.append_assoc, List.singleton_append, scanValue_bracket, harray]

/-! ### Objects -/

section Member

variable {fuel : Nat} {text after rest quoted : List Char}

/-- The last member of an object is scanned up to the closing brace. -/
theorem scanMembers_last (htext : skipBlank text = ':' :: chars)
    (hvalue : scanValue fuel chars = (d, some after)) (hafter : skipBlank after = '\x7d' :: rest) :
    scanMembers (fuel + 1) (name.toList.flatMap Json.escapeChar ++ '"' :: text) =
      ([(.ofText name, d)], .closed, some rest) := by
  rw [scanMembers, scanString_ofText]
  simp only [JsonString.ofText, htext, hvalue, hafter]

/-- A member before others is scanned with them. -/
theorem scanMembers_more (htext : skipBlank text = ':' :: chars)
    (hvalue : scanValue fuel chars = (d, some (',' :: after)))
    (hafter : skipBlank after = '"' :: quoted)
    (hquoted : scanMembers fuel quoted = (members, .closed, some rest)) :
    scanMembers (fuel + 1) (name.toList.flatMap Json.escapeChar ++ '"' :: text) =
      ((.ofText name, d) :: members, .closed, some rest) := by
  have hcomma : skipBlank (',' :: after) = ',' :: after := rfl
  rw [scanMembers, scanString_ofText]
  simp only [JsonString.ofText, htext, hvalue, hcomma, hafter, hquoted]

end Member

/-- What is written for a member, with blanks before it. -/
def memberChars (lead : List Char) (name : String) (chars : List Char) : List Char :=
  lead ++ (Json.quote name ++ ':' :: chars)

/-- A member starts with the quote before its name. -/
theorem skipBlank_memberChars (hlead : ∀ c ∈ lead, isBlank c = true) (rest : List Char) :
    skipBlank (memberChars lead name chars ++ rest) =
      '"' :: (name.toList.flatMap Json.escapeChar ++ '"' :: ':' :: (chars ++ rest)) := by
  rw [memberChars, List.append_assoc, skipBlank_append hlead]
  simp [Json.quote, skipBlank, isBlank]

/-- The value is shorter than the member. -/
theorem length_lt_memberChars (lead : List Char) (name : String) (chars : List Char) :
    chars.length + 3 ≤ (memberChars lead name chars).length := by
  simp [memberChars, Json.quote]
  omega

/-- The last member of an object is scanned. -/
theorem scansMembers_singleton (hlead : ∀ c ∈ lead, isBlank c = true) (h : Scans chars d)
    (htrail : ∀ c ∈ trail, isBlank c = true) :
    ScansMembers (memberChars lead name chars ++ trail) [(.ofText name, d)] := by
  intro rest
  refine ⟨_, by rw [List.append_assoc, skipBlank_memberChars hlead], fun fuel hfuel => ?_⟩
  have hlength := length_lt_memberChars lead name chars
  rw [List.length_append] at hfuel
  obtain ⟨fuel, rfl⟩ : ∃ k, fuel = k + 1 := ⟨fuel - 1, by omega⟩
  exact scanMembers_last rfl (h fuel _ (by omega) (endsNumber_trail htrail rfl))
    (skipBlank_append htrail _)

/-- A member before others is scanned. -/
theorem scansMembers_cons (hlead : ∀ c ∈ lead, isBlank c = true) (h : Scans chars d)
    {more : List Char} (hmore : ScansMembers more members) :
    ScansMembers (memberChars lead name chars ++ ',' :: more) ((.ofText name, d) :: members) := by
  intro rest
  obtain ⟨quoted, hquoted, hscan⟩ := hmore rest
  refine ⟨_, by rw [List.append_assoc, skipBlank_memberChars hlead], fun fuel hfuel => ?_⟩
  have hlength := length_lt_memberChars lead name chars
  rw [List.length_append, List.length_cons] at hfuel
  obtain ⟨fuel, rfl⟩ : ∃ k, fuel = k + 1 := ⟨fuel - 1, by omega⟩
  exact scanMembers_more rfl (h fuel _ (by omega) (endsNumber_cons rfl)) hquoted
    (hscan fuel (by omega))

/-- An object is scanned after its opening brace. -/
theorem scanValue_brace (fuel : Nat) (chars : List Char) :
    scanValue (fuel + 1) ('\x7b' :: chars) =
      (.object (scanObject fuel chars).1 (scanObject fuel chars).2.1,
        (scanObject fuel chars).2.2) :=
  rfl

/-- An empty object is scanned. -/
theorem scans_emptyObject : Scans ['\x7b', '\x7d'] (.object [] .closed) := by
  intro fuel rest hfuel _
  obtain ⟨fuel, rfl⟩ : ∃ k, fuel = k + 2 := ⟨fuel - 2, by simp at hfuel; omega⟩
  rfl

/-- An object with members is scanned. -/
theorem scans_object (h : ScansMembers chars members) :
    Scans ('\x7b' :: (chars ++ ['\x7d'])) (.object members .closed) := by
  intro fuel rest hfuel _
  rw [List.length_cons, List.length_append, List.length_singleton] at hfuel
  obtain ⟨fuel, rfl⟩ : ∃ k, fuel = k + 2 := ⟨fuel - 2, by omega⟩
  obtain ⟨quoted, hquoted, hscan⟩ := h rest
  have hobject : scanObject (fuel + 1) (chars ++ '\x7d' :: rest) =
      (members, .closed, some rest) := by
    rw [scanObject.eq_def, hquoted]
    exact hscan fuel (by omega)
  rw [List.cons_append, List.append_assoc, List.singleton_append, scanValue_brace, hobject]

/-! ### Both written forms -/

mutual

/-- A value that is written without blanks is scanned. -/
theorem scans_compactChars : ∀ j : Json, Scans j.compactChars j.draft
  | .null => scans_null
  | .bool b => scans_bool b
  | .int n => scans_decimal n
  | .str s => scans_quote s
  | .arr [] => scans_emptyArray
  | .arr (item :: rest) => scans_array (scansItems_compactItems (item :: rest) (by simp))
  | .obj [] => scans_emptyObject
  | .obj (member :: rest) => scans_object (scansMembers_compactMembers (member :: rest) (by simp))

/-- Items that are written without blanks are scanned. -/
theorem scansItems_compactItems : ∀ items : List Json, items ≠ [] →
    ScansItems (Json.compactItems items) (Json.draftItems items)
  | [], hne => absurd rfl hne
  | [item], _ => by
    have h : ScansItems (item.compactChars ++ []) [item.draft] :=
      scansItems_singleton (scans_compactChars item) (by simp)
    rwa [List.append_nil] at h
  | item :: next :: rest, _ =>
    scansItems_cons (scans_compactChars item) (scansItems_compactItems (next :: rest) (by simp))

/-- Members that are written without blanks are scanned. -/
theorem scansMembers_compactMembers : ∀ members : List (String × Json), members ≠ [] →
    ScansMembers (Json.compactMembers members) (Json.draftMembers members)
  | [], hne => absurd rfl hne
  | [(name, value)], _ => by
    have h : ScansMembers (memberChars [] name value.compactChars ++ [])
        [(.ofText name, value.draft)] :=
      scansMembers_singleton (by simp) (scans_compactChars value) (by simp)
    rwa [List.append_nil] at h
  | (name, value) :: next :: rest, _ => by
    have h : ScansMembers
        (memberChars [] name value.compactChars ++ ',' :: Json.compactMembers (next :: rest))
        ((.ofText name, value.draft) :: Json.draftMembers (next :: rest)) :=
      scansMembers_cons (by simp) (scans_compactChars value)
        (scansMembers_compactMembers (next :: rest) (by simp))
    rw [memberChars, List.nil_append, List.append_assoc] at h
    exact h

end

/-- The start of a line has only blanks. -/
theorem isBlank_of_mem_newline (depth : Nat) : ∀ c ∈ Json.newline depth, isBlank c = true := by
  intro c hc
  rcases List.mem_cons.1 hc with rfl | hc
  · rfl
  · rw [List.eq_of_mem_replicate hc]
    rfl

/-- The blank after a colon belongs to the value. -/
theorem Scans.space (h : Scans chars d) : Scans (' ' :: chars) d := by
  have hspace : Scans ([' '] ++ chars) d := h.indent (by simp [isBlank])
  exact hspace

mutual

/-- A value that is written over several lines is scanned. -/
theorem scans_prettyChars (depth : Nat) : ∀ j : Json, Scans (j.prettyChars depth) j.draft
  | .null => scans_null
  | .bool b => scans_bool b
  | .int n => scans_decimal n
  | .str s => scans_quote s
  | .arr [] => scans_emptyArray
  | .arr (item :: rest) => by
    have h := scans_array (scansItems_prettyItems depth (depth + 1) (item :: rest) (by simp))
    rwa [List.append_assoc] at h
  | .obj [] => scans_emptyObject
  | .obj (member :: rest) => by
    have h := scans_object (scansMembers_prettyMembers depth (depth + 1) (member :: rest) (by simp))
    rwa [List.append_assoc] at h

/-- Items that are written on lines of their own are scanned. -/
theorem scansItems_prettyItems (outer depth : Nat) : ∀ items : List Json, items ≠ [] →
    ScansItems (Json.prettyItems depth items ++ Json.newline outer) (Json.draftItems items)
  | [], hne => absurd rfl hne
  | [item], _ =>
    scansItems_singleton ((scans_prettyChars depth item).indent (isBlank_of_mem_newline depth))
      (isBlank_of_mem_newline outer)
  | item :: next :: rest, _ => by
    have hitem := (scans_prettyChars depth item).indent (isBlank_of_mem_newline depth)
    have h := scansItems_cons hitem (scansItems_prettyItems outer depth (next :: rest) (by simp))
    simpa [Json.prettyItems, Json.draftItems] using h

/-- Members that are written on lines of their own are scanned. -/
theorem scansMembers_prettyMembers (outer depth : Nat) :
    ∀ members : List (String × Json), members ≠ [] →
      ScansMembers (Json.prettyMembers depth members ++ Json.newline outer)
        (Json.draftMembers members)
  | [], hne => absurd rfl hne
  | [(name, value)], _ =>
    scansMembers_singleton (isBlank_of_mem_newline depth) (scans_prettyChars depth value).space
      (isBlank_of_mem_newline outer)
  | (name, value) :: next :: rest, _ => by
    have hrest := scansMembers_prettyMembers outer depth (next :: rest) (by simp)
    have h : ScansMembers (memberChars (Json.newline depth) name (' ' :: value.prettyChars depth) ++
        ',' :: (Json.prettyMembers depth (next :: rest) ++ Json.newline outer))
        ((.ofText name, value.draft) :: Json.draftMembers (next :: rest)) :=
      scansMembers_cons (isBlank_of_mem_newline depth) (scans_prettyChars depth value).space hrest
    simpa [Json.prettyMembers, Json.draftMembers, memberChars] using h

end

end JsonText

/-- The text of a value is read as its draft, and nothing follows. -/
theorem ofString_of_scans {chars : List Char} {d : JsonDraft} (h : JsonText.Scans chars d) :
    JsonText.ofString (String.ofList chars) = ⟨d, false⟩ := by
  have hlength : (String.ofList chars).length = chars.length := by simp
  have hvalue := h (2 * chars.length + 2) [] (by omega) JsonText.endsNumber_nil
  rw [List.append_nil] at hvalue
  rw [JsonText.ofString, hlength, String.toList_ofList, hvalue]
  rfl

end HeapDomains
