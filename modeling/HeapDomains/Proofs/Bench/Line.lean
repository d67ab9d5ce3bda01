import HeapDomains.Bench
import HeapDomains.Text.Blank
import Mathlib.Data.List.Induction
import Mathlib.Data.Nat.Digits.Defs

/-!
# What a line of a benchmark log measures

The text between the first `bench:` of a line and the next `ns/iter` decides what is read from the
line (`StandsBetween`). A line measures a value when that text is a numeral of the value, with
commas between groups of digits if there are any, and with white space around it (`Measures`). Such
a value is read when it is a word. But all that stands beside the digits is passed over, not only
commas and white space, so a value may also be read from a line that measures none
(`exists_read_not_measured`). `ReadsLine` says what is read from which lines, and for which of them
it is what they measure.
-/

namespace HeapDomains

/-! ## Where a pattern stands first -/

/-- A pattern stands in a text between two parts, and nowhere before. -/
structure FirstAt (pattern text before after : List Char) : Prop where
  /-- The text is made of the two parts with the pattern between them. -/
  text_eq : text = before ++ pattern ++ after
  /-- No other two parts with the pattern between them make the text, unless the first one is as
  long. -/
  le_length : ∀ before' after', text = before' ++ pattern ++ after' →
    before.length ≤ before'.length

namespace FirstAt

variable {pattern text before after : List Char} {c : Char}

/-- A pattern that starts a text stands there first. -/
theorem start : FirstAt pattern (pattern ++ after) [] after where
  text_eq := rfl
  le_length _ _ _ := Nat.zero_le _

/-- Where a pattern stands first in a text that it starts. -/
theorem eq_of_start {rest : List Char} (h : FirstAt pattern (pattern ++ rest) before after) :
    before = [] ∧ after = rest := by
  have hle := h.le_length [] rest rfl
  obtain rfl : before = [] := List.eq_nil_of_length_eq_zero (Nat.le_zero.1 hle)
  exact ⟨rfl, (List.append_cancel_left h.text_eq).symm⟩

/-- A character in front of a text puts off a pattern that does not start with it there. -/
theorem cons (h : FirstAt pattern text before after) (hstart : ¬ pattern <+: c :: text) :
    FirstAt pattern (c :: text) (c :: before) after where
  text_eq := by rw [h.text_eq]; rfl
  le_length before' after' htext := by
    cases before' with
    | nil => exact absurd ⟨after', htext.symm⟩ hstart
    | cons c' rest' =>
      obtain ⟨-, htext⟩ := List.cons.inj htext
      exact Nat.succ_le_succ (h.le_length rest' after' htext)

/-- A pattern that does not start a text stands in what follows the first character. -/
theorem exists_of_cons (h : FirstAt pattern (c :: text) before after)
    (hstart : ¬ pattern <+: c :: text) :
    ∃ rest, before = c :: rest ∧ FirstAt pattern text rest after := by
  cases before with
  | nil => exact absurd ⟨after, h.text_eq.symm⟩ hstart
  | cons c' rest =>
    obtain ⟨rfl, htext⟩ := List.cons.inj h.text_eq
    refine ⟨rest, rfl, htext, fun before' after' htext' => ?_⟩
    have hle := h.le_length (c :: before') after' (by rw [htext']; rfl)
    simpa using hle

end FirstAt

/-- A text is split where the pattern stands first. -/
theorem splitAtFirst?_eq_some_iff {pattern text before after : List Char} :
    splitAtFirst? pattern text = some (before, after) ↔ FirstAt pattern text before after := by
  induction text generalizing before with
  | nil =>
    rw [splitAtFirst?]
    cases pattern with
    | nil =>
      constructor
      · intro h
        obtain ⟨rfl, rfl⟩ := Prod.mk.inj (Option.some.inj h)
        exact .start
      · intro h
        have hparts : before = [] ∧ after = [] := h.eq_of_start
        obtain ⟨rfl, rfl⟩ := hparts
        rfl
    | cons c rest =>
      refine iff_of_false (by simp) fun h => ?_
      have htext := h.text_eq
      simp at htext
  | cons c rest ih =>
    rw [splitAtFirst?]
    split
    · rename_i hstart
      obtain ⟨tail, htail⟩ := List.isPrefixOf_iff_prefix.1 hstart
      rw [← htail, List.drop_left]
      constructor
      · intro h
        obtain ⟨rfl, rfl⟩ := Prod.mk.inj (Option.some.inj h)
        exact .start
      · intro h
        obtain ⟨rfl, rfl⟩ := h.eq_of_start
        rfl
    · rename_i hstart
      have hstart : ¬ pattern <+: c :: rest := fun h => hstart (List.isPrefixOf_iff_prefix.2 h)
      simp only [Option.map_eq_some_iff, Prod.exists, Prod.mk.injEq]
      constructor
      · rintro ⟨before', after', h, rfl, rfl⟩
        exact (ih.1 h).cons hstart
      · intro h
        obtain ⟨before', rfl, hrest⟩ := h.exists_of_cons hstart
        exact ⟨before', after, ih.2 hrest, rfl, rfl⟩

/-- A text stands in a line between the first `bench:` and the first `ns/iter` after that. -/
def StandsBetween (line between : List Char) : Prop :=
  ∃ before rest after, FirstAt benchMarker line before rest ∧ FirstAt unitMarker rest between after

/-- One text at most stands between the markers of a line. -/
theorem StandsBetween.unique {line between between' : List Char} (h : StandsBetween line between)
    (h' : StandsBetween line between') : between = between' := by
  obtain ⟨before, rest, after, hbench, hunit⟩ := h
  obtain ⟨before', rest', after', hbench', hunit'⟩ := h'
  simp only [← splitAtFirst?_eq_some_iff] at hbench hunit hbench' hunit'
  rw [hbench] at hbench'
  obtain ⟨-, rfl⟩ := Prod.mk.inj (Option.some.inj hbench')
  rw [hunit] at hunit'
  exact (Prod.mk.inj (Option.some.inj hunit')).1

/-! ## Numerals -/

/-- The value of decimal digits, of which the last counts ones. -/
def digitsValue (digits : List Char) : Nat :=
  Nat.ofDigits 10 (digits.reverse.map fun c => c.toNat - '0'.toNat)

/-- Digits are read from the left by the value they have. -/
theorem ofDigitChars_eq_digitsValue (digits : List Char) :
    Nat.ofDigitChars 10 digits 0 = digitsValue digits := by
  induction digits using List.reverseRecOn with
  | nil => rfl
  | append_singleton rest c ih =>
    have hfold : Nat.ofDigitChars 10 (rest ++ [c]) 0 =
        10 * Nat.ofDigitChars 10 rest 0 + (c.toNat - '0'.toNat) := by
      simp [Nat.ofDigitChars]
    rw [hfold, ih, digitsValue, digitsValue, List.reverse_append, List.reverse_singleton,
      List.singleton_append, List.map_cons, Nat.ofDigits_cons, Nat.add_comm]

/-- A text is made of some digits in groups, with commas between the groups. -/
inductive Grouped : List Char → List Char → Prop
  /-- The digits are one group. -/
  | single {group : List Char} : group ≠ [] → (∀ c ∈ group, c.isDigit = true) →
    Grouped group group
  /-- A group and a comma stand before the others. -/
  | more {group text digits : List Char} : group ≠ [] → (∀ c ∈ group, c.isDigit = true) →
    Grouped text digits → Grouped (group ++ ',' :: text) (group ++ digits)

namespace Grouped

variable {text digits : List Char}

/-- Groups of digits are not empty. -/
theorem ne_nil (h : Grouped text digits) : digits ≠ [] := by
  cases h with
  | single hne _ => exact hne
  | more hne _ _ => exact List.append_ne_nil_of_left_ne_nil hne _

/-- A group is left when all but the digits are dropped. -/
theorem filter_group {group : List Char} (h : ∀ c ∈ group, c.isDigit = true) :
    group.filter Char.isDigit = group :=
  List.filter_eq_self.2 h

/-- The digits are left when the commas are dropped. -/
theorem filter_eq (h : Grouped text digits) : text.filter Char.isDigit = digits := by
  induction h with
  | single _ hdigits => exact filter_group hdigits
  | more _ hdigits _ ih =>
    rw [List.filter_append, filter_group hdigits, List.filter_cons_of_neg (by decide), ih]

/-- Between digits there are only commas. -/
theorem isDigit_or_eq_comma (h : Grouped text digits) {c : Char} (hc : c ∈ text) :
    c.isDigit = true ∨ c = ',' := by
  induction h with
  | single _ hdigits => exact Or.inl (hdigits c hc)
  | more _ hdigits _ ih =>
    rcases List.mem_append.1 hc with hc | hc
    · exact Or.inl (hdigits c hc)
    · rcases List.mem_cons.1 hc with hc | hc
      · exact Or.inr hc
      · exact ih hc

end Grouped

/-- White space is no digit. -/
theorem isDigit_eq_false_of_isBlankChar {c : Char} (h : isBlankChar c = true) :
    c.isDigit = false := by
  rw [Bool.eq_false_iff]
  intro hdigit
  have hrange : '0'.toNat ≤ c.toNat ∧ c.toNat ≤ '9'.toNat := by
    simpa [Char.isDigit, UInt32.le_iff_toNat_le] using hdigit
  simp [isBlankChar, blankRanges] at h
  simp at hrange
  omega

/-- Nothing is left of white space when all but the digits are dropped. -/
theorem filter_isDigit_of_blank {text : List Char} (h : ∀ c ∈ text, isBlankChar c = true) :
    text.filter Char.isDigit = [] := by
  rw [List.filter_eq_nil_iff]
  intro c hc
  rw [isDigit_eq_false_of_isBlankChar (h c hc)]
  decide

/-! ## Lines -/

/-- A line measures a value: a numeral of the value stands between its markers, with white space
around it. -/
def Measures (line : List Char) (n : Nat) : Prop :=
  ∃ left text right digits, StandsBetween line (left ++ text ++ right) ∧
    (∀ c ∈ left, isBlankChar c = true) ∧ (∀ c ∈ right, isBlankChar c = true) ∧
    Grouped text digits ∧ digitsValue digits = n

/-- What is read from a line. -/
structure ReadsLine (line : List Char) : Prop where
  /-- It is the value of the digits that stand between the markers, whatever else stands there, if
  there are digits and their value is a word. -/
  eq_some_iff : ∀ n, measurement? line = some n ↔ n < wordLimit ∧ ∃ between,
    StandsBetween line between ∧ between.filter Char.isDigit ≠ [] ∧
      digitsValue (between.filter Char.isDigit) = n
  /-- A word that the line measures is read. -/
  eq_some_of_measures : ∀ n < wordLimit, Measures line n → measurement? line = some n
  /-- What is read is what the line measures exactly if nothing is read or something is measured. -/
  exact_iff : (∀ n < wordLimit, measurement? line = some n ↔ Measures line n) ↔
    measurement? line = none ∨ ∃ n, Measures line n

variable {line : List Char} {n : Nat}

/-- The value of the digits between the markers is read, if it is a word. -/
theorem measurement?_eq_some_iff : measurement? line = some n ↔ n < wordLimit ∧ ∃ between,
    StandsBetween line between ∧ between.filter Char.isDigit ≠ [] ∧
      digitsValue (between.filter Char.isDigit) = n := by
  unfold measurement? StandsBetween
  simp only [Option.bind_eq_bind, Option.bind_eq_some_iff, Prod.exists, splitAtFirst?_eq_some_iff,
    ofDigitChars_eq_digitsValue, Option.ite_none_left_eq_some, not_or, List.isEmpty_iff, not_le,
    Option.some.injEq]
  constructor
  · rintro ⟨before, rest, hbench, between, after, hunit, ⟨hne, hlt⟩, rfl⟩
    exact ⟨hlt, between, ⟨before, rest, after, hbench, hunit⟩, hne, rfl⟩
  · rintro ⟨hlt, between, ⟨before, rest, after, hbench, hunit⟩, hne, rfl⟩
    exact ⟨before, rest, hbench, between, after, hunit, ⟨hne, hlt⟩, rfl⟩

/-- A line that measures a value has the digits of the value between its markers. -/
theorem Measures.exists_digits (h : Measures line n) : ∃ between, StandsBetween line between ∧
    between.filter Char.isDigit ≠ [] ∧ digitsValue (between.filter Char.isDigit) = n := by
  obtain ⟨left, text, right, digits, hbetween, hleft, hright, hgrouped, rfl⟩ := h
  have hdigits : (left ++ text ++ right).filter Char.isDigit = digits := by
    rw [List.filter_append, List.filter_append, filter_isDigit_of_blank hleft,
      filter_isDigit_of_blank hright, hgrouped.filter_eq, List.nil_append, List.append_nil]
  exact ⟨_, hbetween, by rw [hdigits]; exact hgrouped.ne_nil, by rw [hdigits]⟩

/-- Between the markers of a line that measures a value there are digits, commas and white space. -/
theorem Measures.isDigit_or_eq_comma_or_isBlankChar {between : List Char} (h : Measures line n)
    (hbetween : StandsBetween line between) {c : Char} (hc : c ∈ between) :
    (c.isDigit = true ∨ c = ',') ∨ isBlankChar c = true := by
  obtain ⟨left, text, right, digits, hbetween', hleft, hright, hgrouped, -⟩ := h
  rw [hbetween.unique hbetween'] at hc
  rcases List.mem_append.1 hc with hc | hc
  · rcases List.mem_append.1 hc with hc | hc
    · exact Or.inr (hleft c hc)
    · exact Or.inl (hgrouped.isDigit_or_eq_comma hc)
  · exact Or.inr (hright c hc)

/-- What is measured is what is read. -/
theorem Measures.eq_of_measurement? {m : Nat} (h : Measures line n)
    (hread : measurement? line = some m) : m = n := by
  obtain ⟨between, hbetween, -, rfl⟩ := h.exists_digits
  obtain ⟨-, between', hbetween', -, rfl⟩ := measurement?_eq_some_iff.1 hread
  rw [hbetween.unique hbetween']

/-- From every line the digits between its markers are read. -/
theorem readsLine (line : List Char) : ReadsLine line := by
  have hmeasured : ∀ n < wordLimit, Measures line n → measurement? line = some n :=
    fun n hlt h => measurement?_eq_some_iff.2 ⟨hlt, h.exists_digits⟩
  refine ⟨fun n => measurement?_eq_some_iff, hmeasured, ?_⟩
  constructor
  · intro hexact
    cases hread : measurement? line with
    | none => exact Or.inl rfl
    | some n =>
      have hlt := (measurement?_eq_some_iff.1 hread).1
      exact Or.inr ⟨n, (hexact n hlt).1 hread⟩
  · intro h n hlt
    refine ⟨fun hread => ?_, hmeasured n hlt⟩
    rcases h with hnone | ⟨m, hm⟩
    · rw [hnone] at hread
      cases hread
    · rwa [hm.eq_of_measurement? hread]

/-- A value is read from a line with a decimal point between the digits, which measures none. -/
theorem exists_read_not_measured : measurement? "bench: 1.5 ns/iter".toList = some 15 ∧
    ¬ Measures "bench: 1.5 ns/iter".toList 15 := by
  have hbetween : StandsBetween "bench: 1.5 ns/iter".toList " 1.5 ".toList :=
    ⟨_, _, _, splitAtFirst?_eq_some_iff.1 rfl, splitAtFirst?_eq_some_iff.1 rfl⟩
  refine ⟨rfl, fun h => ?_⟩
  have hpoint := h.isDigit_or_eq_comma_or_isBlankChar hbetween
    (show '.' ∈ " 1.5 ".toList by decide)
  revert hpoint
  decide

end HeapDomains
