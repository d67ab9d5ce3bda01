import HeapDomains.Proofs.Yaml.Scalar
import HeapDomains.Yaml.Lexer

/-!
# Reading keys and plain scalars

A key is read up to its colon (`scanPlain_key`), and a text that can be written without quotes is
read up to the end of its line (`scanPlain_of_allowsPlain`), where the reader goes on to the next
token. Numbers and names need no quotes (`allowsPlain_of_isAlphanum`).
-/

namespace HeapDomains.Yaml

variable {c : Char} {chars text next : List Char} {place : Place} {gap : Gap} {indent columns : Nat}

/-- A text that is empty or starts with a token. -/
def StartsToken (next : List Char) : Prop :=
  ∀ c ∈ next.head?, isBlank c = false ∧ isBreak c = false ∧ c ≠ '#'

/-- A character of a plain scalar is read where no comment starts and the scalar goes on. -/
theorem scanPlain_printed (hblank : isBlank c = false) (hbreak : isBreak c = false)
    (hends : gap.isSome = true → endsAfterGap false indent place (c :: chars) = false)
    (hcolon : c = ':' → startsWithGap chars = false) :
    scanPlain false indent gap place (c :: chars) =
      (scanPlain false indent .nothing (place.right 1) chars).map
        (.prepend (gap.folded ++ [c])) := by
  have hnext : ¬(gap.isSome = true ∧ endsAfterGap false indent place (c :: chars) = true) := by
    rintro ⟨hsome, hend⟩
    rw [hends hsome] at hend
    cases hend
  have hplain : endsPlain false c chars = false := by
    by_cases hc : c = ':'
    · simp [endsPlain, hcolon hc]
    · simp [endsPlain, hc]
  rw [scanPlain, hblank, hbreak, if_neg Bool.false_ne_true, if_neg Bool.false_ne_true, if_neg hnext,
    if_neg (by simp [isMisplacedColon]), hplain, if_neg Bool.false_ne_true]

/-- A key is read up to its colon. -/
theorem scanPlain_key {key more : List Char}
    (hkey : ∀ c ∈ key, isBlank c = false ∧ isBreak c = false ∧ c ≠ ':')
    (hmore : startsWithGap more = true) :
    scanPlain false indent .nothing place (key ++ ':' :: more) =
      some ⟨key, false, place.right key.length, ':' :: more⟩ := by
  induction key generalizing place with
  | nil => simp [scanPlain, isBlank, isBreak, Gap.nothing, Gap.isSome, isMisplacedColon, endsPlain,
      hmore, Gap.hasBreak, Place.right]
  | cons c key ih =>
    obtain ⟨hblank, hbreak, hcolon⟩ := hkey c List.mem_cons_self
    have hempty : Gap.nothing.isSome ≠ true := by decide
    rw [List.cons_append, scanPlain_printed hblank hbreak (fun h => absurd h hempty)
      (fun h => absurd h hcolon), ih fun d hd => hkey d (List.mem_cons_of_mem c hd),
      Place.right_right, Nat.add_comm]
    rfl

/-- Blanks after a break do not count. -/
theorem scanPlain_replicate {first : Option Char} {more : List Char} (columns : Nat) :
    scanPlain false indent (.lines first more) place (List.replicate columns ' ' ++ chars) =
      scanPlain false indent (.lines first more) (place.right columns) chars := by
  induction columns generalizing place with
  | zero => rfl
  | succ columns ih =>
    rw [List.replicate_succ, List.cons_append]
    change scanPlain false indent (.lines first more) (place.right 1) _ = _
    rw [ih, Place.right_right, Nat.add_comm]

/-- A plain scalar ends with its line when the next token is indented less. -/
theorem scanPlain_lineEnd (hcolumns : columns < indent) (hnext : StartsToken next) :
    scanPlain false indent .nothing place ('\n' :: (List.replicate columns ' ' ++ next)) =
      some ⟨[], true, ⟨place.line + 1, columns⟩, next⟩ := by
  have hplace : place.down.right columns = ⟨place.line + 1, columns⟩ := by
    simp [Place.down, Place.right]
  change scanPlain false indent (.lines (some '\n') []) place.down _ = _
  rw [scanPlain_replicate, hplace]
  cases next with
  | nil => rfl
  | cons c chars =>
    obtain ⟨hblank, hbreak, -⟩ := hnext c rfl
    have hends : endsAfterGap false indent ⟨place.line + 1, columns⟩ (c :: chars) = true := by
      simp [endsAfterGap, hcolumns]
    rw [scanPlain, hblank, hbreak, if_neg Bool.false_ne_true, if_neg Bool.false_ne_true,
      if_pos ⟨rfl, hends⟩]
    rfl

/-- A text in one line is read to its end, where it has no outer blanks, no comment and no end of a
key. -/
theorem scanPlain_text {blanks : List Char} (text : List Char)
    (hprint : ∀ c ∈ text, isPrintable c = true ∧ isBreak c = false)
    (hlast : ∀ c ∈ text.getLast?, c ≠ ' ' ∧ c ≠ ':')
    (hcolon : hasNeighbours (· = ':') (· = ' ') text = false)
    (hcomment : hasNeighbours (· = ' ') (· = '#') text = false)
    (hblanks : blanks = [] ∨ text ≠ [] ∧ text.head? ≠ some '#')
    (hstart : 0 < place.column) (hcolumn : indent ≤ place.column) (hcolumns : columns < indent)
    (hnext : StartsToken next) :
    scanPlain false indent (.blanks blanks) place
        (text ++ '\n' :: (List.replicate columns ' ' ++ next)) =
      some ⟨blanks ++ text, true, ⟨place.line + 1, columns⟩, next⟩ := by
  induction text generalizing blanks place with
  | nil =>
    obtain rfl : blanks = [] := by simpa using hblanks
    exact scanPlain_lineEnd hcolumns hnext
  | cons c text ih =>
    rw [hasNeighbours_cons, Bool.or_eq_false_iff] at hcolon hcomment
    obtain ⟨hc, hbreak⟩ := hprint c List.mem_cons_self
    have hprint' : ∀ c ∈ text, isPrintable c = true ∧ isBreak c = false :=
      fun d hd => hprint d (List.mem_cons_of_mem c hd)
    have hlast' : ∀ c ∈ text.getLast?, c ≠ ' ' ∧ c ≠ ':' := by
      intro d hd
      have hne : text ≠ [] := by
        rintro rfl
        cases hd
      exact hlast d (by rwa [getLast?_cons_of_ne_nil hne])
    have hstart' : 0 < (place.right 1).column := Nat.lt_of_lt_of_le hstart (Nat.le_add_right _ _)
    have hcolumn' : indent ≤ (place.right 1).column := Nat.le_trans hcolumn (Nat.le_add_right _ _)
    rw [List.cons_append]
    by_cases hspace : c = ' '
    · subst hspace
      have hne : text ≠ [] := by
        rintro rfl
        exact (hlast ' ' rfl).1 rfl
      have hhead : text.head? ≠ some '#' := by
        intro hhead
        rw [hhead] at hcomment
        cases hcomment.1
      change scanPlain false indent (.blanks (blanks ++ [' '])) (place.right 1) _ = _
      rw [ih hprint' hlast' hcolon.2 hcomment.2 (Or.inr ⟨hne, hhead⟩) hstart' hcolumn',
        List.append_assoc, List.singleton_append]
      rfl
    · have hblank : isBlank c = false := by
        rw [← Bool.not_eq_true, isBlank_iff_of_isPrintable hc]
        exact hspace
      have hends : (Gap.blanks blanks).isSome = true → endsAfterGap false indent place
          (c :: (text ++ '\n' :: (List.replicate columns ' ' ++ next))) = false := by
        intro hsome
        have hhash : c ≠ '#' := by
          rcases hblanks with rfl | ⟨-, hhead⟩
          · cases hsome
          · simpa using hhead
        have hcolumn0 : ¬place.column = 0 := by omega
        have hindent : ¬place.column < indent := by omega
        simp [endsAfterGap, hcolumn0, hhash, hindent]
      have hgoes : c = ':' →
          startsWithGap (text ++ '\n' :: (List.replicate columns ' ' ++ next)) = false := by
        rintro rfl
        cases text with
        | nil => exact absurd rfl (hlast ':' rfl).2
        | cons d rest =>
          obtain ⟨hd, hdbreak⟩ := hprint' d List.mem_cons_self
          have hdspace : d ≠ ' ' := by
            rintro rfl
            cases hcolon.1
          have hdblank : isBlank d = false := by
            rw [← Bool.not_eq_true, isBlank_iff_of_isPrintable hd]
            exact hdspace
          rw [List.cons_append, startsWithGap, hdblank, hdbreak]
          rfl
      rw [scanPlain_printed hblank hbreak hends hgoes]
      have hrest := ih hprint' hlast' hcolon.2 hcomment.2 (Or.inl rfl) hstart' hcolumn'
      rw [Gap.nothing, hrest, Option.map_some, ScalarRead.prepend]
      simp [Gap.folded, Place.right]

/-- A text that can be written without quotes is read up to the end of its line. -/
theorem scanPlain_of_allowsPlain (h : allowsPlain text = true) (hstart : 0 < place.column)
    (hcolumn : indent ≤ place.column) (hcolumns : columns < indent) (hnext : StartsToken next) :
    scanPlain false indent .nothing place
        (text ++ '\n' :: (List.replicate columns ' ' ++ next)) =
      some ⟨text, true, ⟨place.line + 1, columns⟩, next⟩ := by
  simp only [allowsPlain, Bool.and_eq_true, Bool.not_eq_true', List.all_eq_true, hasOuterSpace,
    Bool.or_eq_false_iff, beq_eq_false_iff_ne] at h
  obtain ⟨⟨⟨⟨⟨⟨-, hprint⟩, -, hspace⟩, -⟩, hcolon⟩, hlast⟩, hcomment⟩ := h
  have hlast' : ∀ c ∈ text.getLast?, c ≠ ' ' ∧ c ≠ ':' := by
    intro c hc
    constructor
    · rintro rfl
      exact hspace hc
    · rintro rfl
      exact hlast hc
  exact scanPlain_text text hprint hlast' hcolon hcomment (Or.inl rfl) hstart hcolumn hcolumns hnext

/-- Letters and digits are printed as they are. -/
theorem isPrintable_of_isAlphanum (h : c.isAlphanum = true) : isPrintable c = true := by
  have hrange : 0x30 ≤ c.toNat ∧ c.toNat ≤ 0x7A := by
    have hupper : c.isUpper = decide ('A'.val ≤ c.val ∧ c.val ≤ 'Z'.val) := rfl
    have hlower : c.isLower = (decide ('a'.val ≤ c.val) && decide (c.val ≤ 'z'.val)) := rfl
    have hdigit : c.isDigit = (decide ('0'.val ≤ c.val) && decide (c.val ≤ '9'.val)) := rfl
    have hletter : c.isAlphanum = ((c.isUpper || c.isLower) || c.isDigit) := rfl
    simp only [hletter, hupper, hlower, hdigit, Bool.or_eq_true, Bool.and_eq_true,
      decide_eq_true_eq, UInt32.le_iff_toNat_le] at h
    simp only [Char.toNat]
    have h0 : ('0'.val).toNat = 0x30 := rfl
    have h9 : ('9'.val).toNat = 0x39 := rfl
    have hA : ('A'.val).toNat = 0x41 := rfl
    have hZ : ('Z'.val).toNat = 0x5A := rfl
    have ha : ('a'.val).toNat = 0x61 := rfl
    have hz : ('z'.val).toNat = 0x7A := rfl
    omega
  simp only [isPrintable, Bool.or_eq_true, Bool.and_eq_true, decide_eq_true_eq]
  omega

/-- No character with a meaning of its own is a letter or a digit. -/
theorem isAlphanum_of_isIndicator (h : isIndicator c = true) : c.isAlphanum = false := by
  have hall : [',', '[', ']', '\x7b', '\x7d', '#', '&', '*', '!', '|', '>', '\'', '"', '%', '@',
      '\x60'].all (!Char.isAlphanum ·) = true := by decide
  simpa using List.all_eq_true.1 hall c (List.contains_iff_mem.1 h)

/-- A text of letters and digits needs no quotes. -/
theorem allowsPlain_of_isAlphanum (hne : text ≠ []) (h : ∀ c ∈ text, c.isAlphanum = true) :
    allowsPlain text = true := by
  have hother : ∀ c', c'.isAlphanum = false → ∀ c ∈ text, c ≠ c' := by
    rintro c' hc' c hc rfl
    rw [h c hc] at hc'
    cases hc'
  have hprint : ∀ c ∈ text, isPrintable c = true ∧ isBreak c = false := by
    intro c hc
    refine ⟨isPrintable_of_isAlphanum (h c hc), ?_⟩
    simp [isBreak, hother '\n' rfl c hc, hother '\u2028' rfl c hc, hother '\u2029' rfl c hc]
  have houter : hasOuterSpace text = false := by
    simp only [hasOuterSpace, Bool.or_eq_false_iff, beq_eq_false_iff_ne]
    exact ⟨fun hspace => hother ' ' rfl ' ' (List.mem_of_head? hspace) rfl,
      fun hspace => hother ' ' rfl ' ' (List.mem_of_getLast? hspace) rfl⟩
  have hlast : (text.getLast? == some ':') = false := by
    rw [beq_eq_false_iff_ne]
    exact fun hcolon => hother ':' rfl ':' (List.mem_of_getLast? hcolon) rfl
  have hindicator : startsWithIndicator text = false := by
    obtain ⟨c, rest, rfl⟩ := List.exists_cons_of_ne_nil hne
    have hletter : c.isAlphanum = true := h c List.mem_cons_self
    have hc : ∀ c', c'.isAlphanum = false → c ≠ c' :=
      fun c' hc' => hother c' hc' c List.mem_cons_self
    rw [startsWithIndicator.eq_def]
    split
    · next heq => exact absurd (List.cons.inj heq).1 (hc '-' rfl)
    · next heq => exact absurd (List.cons.inj heq).1 (hc '.' rfl)
    · next heq =>
      obtain ⟨rfl, rfl⟩ := List.cons.inj heq
      have hnone : isIndicator c = false := by
        rw [← Bool.not_eq_true]
        intro hsign
        rw [isAlphanum_of_isIndicator hsign] at hletter
        cases hletter
      simp [hnone, hc '?' rfl, hc ':' rfl, hc '-' rfl]
    · rfl
  have hcolon : hasNeighbours (· = ':') (· = ' ') text = false :=
    hasNeighbours_eq_false fun c hc => decide_eq_false (hother ':' rfl c hc)
  have hcomment : hasNeighbours (· = ' ') (· = '#') text = false :=
    hasNeighbours_eq_false fun c hc => decide_eq_false (hother ' ' rfl c hc)
  simp only [allowsPlain, houter, hlast, hindicator, hcolon, hcomment, Bool.not_false,
    Bool.and_true, Bool.and_eq_true, Bool.not_eq_true', List.all_eq_true]
  exact ⟨by simpa using hne, hprint⟩

end HeapDomains.Yaml
