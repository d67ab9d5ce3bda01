import HeapDomains.Proofs.Yaml.Entry

/-!
# Reading documents that were written

A document is written line by line, and each line has a key, which is followed by its value or by a
mapping in further lines (`Written`). What is read of such a text are the tokens of its lines
(`tokens?_of_written`). A value is read in whichever form a text was written
(`readsValue_renderScalar`).
-/

namespace HeapDomains.Yaml

variable {c : Char} {chars text next : List Char} {columns outer : Nat}

/-! ## Values of any form -/

/-- How a text in a form is met in a document. -/
def Form.style : Form → ScalarStyle
  | plain => .plain
  | single | double => .quoted
  | lines => .literal

/-- The form of a text allows what it asks of the text. -/
theorem Form.of_spec (text : String) :
    (Form.of text = .lines ∧ '\n' ∈ text.toList ∧ allowsLines text.toList = true) ∨
      (Form.of text = .plain ∧ allowsPlain text.toList = true ∧ isAmbiguous text = false) ∨
      (Form.of text = .single ∧ '\n' ∉ text.toList ∧ allowsSingle text.toList = true) ∨
      Form.of text = .double := by
  unfold Form.of
  simp only [List.contains_iff_mem]
  split
  · next hfeed =>
    split
    · next hlines => exact Or.inl ⟨rfl, hfeed, hlines⟩
    · exact Or.inr (Or.inr (Or.inr rfl))
  · next hfeed =>
    split
    · next hplain =>
      rw [Bool.and_eq_true, Bool.not_eq_true'] at hplain
      exact Or.inr (Or.inl ⟨rfl, hplain⟩)
    · split
      · next hsingle => exact Or.inr (Or.inr (Or.inl ⟨rfl, hfeed, hsingle⟩))
      · exact Or.inr (Or.inr (Or.inr rfl))

example : ["main", "null", "a\n", "\t"].map Form.of = [.plain, .single, .lines, .double] := by
  decide

/-- A text is read as a value in whichever form it was written. -/
theorem readsValue_renderScalar (text : String) :
    ReadsValue outer (Form.of text).style text (renderScalar (outer + 2) text) := by
  rcases Form.of_spec text with ⟨hform, hfeed, -⟩ | ⟨hform, hplain, -⟩ | ⟨hform, hfeed, hsingle⟩ |
    hform
  · rw [renderScalar, hform]
    exact readsValue_renderLines (List.ne_nil_of_mem hfeed)
  · rw [renderScalar, hform]
    exact readsValue_of_allowsPlain hplain
  · obtain ⟨quoted, hquoted, hscan⟩ :=
      scanSingleQuoted_singleQuoted (outer + 2) hsingle hfeed (Nat.succ_pos _)
    rw [renderScalar, hform]
    simp only [hquoted]
    exact readsValue_of_quote (Or.inl rfl) (fun s rest hcolumn => Scan.step_quote hcolumn) hscan
  · rw [renderScalar, hform]
    refine readsValue_of_quote (Or.inr rfl)
      (fun s rest hcolumn => Scan.step_doubleQuote hcolumn) ?_
    intro place rest hcolumn hrest
    rw [List.append_assoc, List.singleton_append]
    exact scanDoubleQuoted_flatMap text.toList rest hcolumn

/-! ## Characters of a rendering -/

/-- Characters that are printed can be read, and no line break is changed in reading them. -/
theorem isReadable_of_isPrintable (h : isPrintable c = true) :
    isReadable c = true ∧ c ≠ '\r' ∧ c ≠ '\x85' := by
  refine ⟨?_, ?_, ?_⟩
  · simp only [isPrintable, Bool.or_eq_true, Bool.and_eq_true, decide_eq_true_eq] at h
    simp only [isReadable, Bool.or_eq_true, Bool.and_eq_true, decide_eq_true_eq]
    tauto
  · rintro rfl
    cases h
  · rintro rfl
    cases h

/-- A text without the line breaks that are changed stays as it is. -/
theorem uniformBreaks_eq_self (h : ∀ c ∈ text, c ≠ '\r' ∧ c ≠ '\x85') :
    uniformBreaks text = text := by
  induction text with
  | nil => rfl
  | cons c text ih =>
    obtain ⟨hreturn, hnext⟩ := h c List.mem_cons_self
    have hrest := ih fun d hd => h d (List.mem_cons_of_mem c hd)
    rw [uniformBreaks.eq_def]
    split
    · next heq => cases heq
    · next heq => exact absurd (List.cons.inj heq).1 hreturn
    · next heq =>
      obtain ⟨rfl, rfl⟩ := List.cons.inj heq
      simp [hreturn, hnext, hrest]

/-- The digits of a number are printed as they are. -/
theorem isPrintable_of_mem_hexDigits {count n : Nat} (h : c ∈ hexDigits count n) :
    isPrintable c = true := by
  have hdigit : ∀ m : Fin 16, isPrintable (hexDigit m) = true := by decide
  induction count generalizing n with
  | zero => cases h
  | succ count ih =>
    rw [hexDigits, List.mem_append, List.mem_singleton] at h
    rcases h with h | rfl
    · exact ih h
    · exact hdigit ⟨n % 16, Nat.mod_lt _ (by omega)⟩

/-- A character between double quotes is written with printed ones. -/
theorem isPrintable_of_mem_escapeChar {d : Char} (h : d ∈ escapeChar c) : isPrintable d = true := by
  have hletter : ∀ letter, escapeLetter? c = some letter → isPrintable letter = true := by
    intro letter hsome
    unfold escapeLetter? at hsome
    split at hsome
    case h_15 => cases hsome
    all_goals
      obtain rfl := Option.some.inj hsome
      rfl
  unfold escapeChar at h
  split at h
  · next letter hsome =>
    rcases List.mem_cons.1 h with rfl | h
    · rfl
    · rw [List.mem_singleton.1 h, hletter letter hsome]
  · split at h
    · next hprint => rw [List.mem_singleton.1 h, hprint]
    · have hnumber : ∀ count mark, isPrintable mark = true →
          d ∈ '\\' :: mark :: hexDigits count c.toNat → isPrintable d = true := by
        intro count mark hmark hd
        rcases List.mem_cons.1 hd with rfl | hd
        · rfl
        · rcases List.mem_cons.1 hd with rfl | hd
          · exact hmark
          · exact isPrintable_of_mem_hexDigits hd
      split at h
      · exact hnumber 2 'x' rfl h
      · split at h
        · exact hnumber 4 'u' rfl h
        · exact hnumber 8 'U' rfl h

/-- Indentation adds nothing but spaces. -/
theorem mem_indentLines {atStart : Bool} (h : c ∈ indentLines columns atStart text) :
    c = ' ' ∨ c ∈ text := by
  induction text generalizing atStart with
  | nil => cases h
  | cons d text ih =>
    rw [indentLines] at h
    split at h
    · rcases List.mem_cons.1 h with rfl | h
      · exact Or.inr List.mem_cons_self
      · exact (ih h).imp_right (List.mem_cons_of_mem d)
    · rcases List.mem_append.1 h with h | h
      · split at h
        · exact Or.inl (List.eq_of_mem_replicate h)
        · cases h
      · rcases List.mem_cons.1 h with rfl | h
        · exact Or.inr List.mem_cons_self
        · exact (ih h).imp_right (List.mem_cons_of_mem d)

/-- The header of lines is printed. -/
theorem isPrintable_of_mem_linesHeader (hne : text ≠ []) (h : c ∈ linesHeader text) :
    isPrintable c = true := by
  obtain ⟨chomping, hheader, -⟩ := linesHeader_eq hne
  rw [hheader] at h
  have hall : ∀ isGiven : Bool, ('|' :: ((if isGiven then ['2'] else []) ++ chomping.sign)).all
      isPrintable = true := by
    cases chomping <;> decide
  exact List.all_eq_true.1 (hall (startsWithGap text)) c h

/-- A text that needs no quotes is printed. -/
theorem isPrintable_of_mem_of_allowsPlain (h : allowsPlain text = true) (hc : c ∈ text) :
    isPrintable c = true := by
  simp only [allowsPlain, Bool.and_eq_true, List.all_eq_true] at h
  exact (h.1.1.1.1.1.2 c hc).1

/-- Indented lines are printed. -/
theorem isPrintable_of_mem_indentLines {atStart : Bool} (h : ∀ c ∈ text, isPrintable c = true)
    (hc : c ∈ indentLines columns atStart text) : isPrintable c = true := by
  rcases mem_indentLines hc with rfl | hc
  · rfl
  · exact h c hc

/-- A text as lines is printed. -/
theorem isPrintable_of_mem_renderLines (hne : text ≠ []) (h : ∀ c ∈ text, isPrintable c = true)
    (hc : c ∈ renderLines columns text) : isPrintable c = true := by
  simp only [renderLines, List.mem_append, List.mem_cons] at hc
  rcases hc with (hc | rfl | hc) | hc
  · exact isPrintable_of_mem_linesHeader hne hc
  · rfl
  · exact isPrintable_of_mem_indentLines h hc
  · split at hc
    · cases hc
    · rw [List.mem_singleton.1 hc]
      rfl

/-- A text between single quotes is printed. -/
theorem isPrintable_of_mem_singleQuoted (h : ∀ c ∈ text, isPrintable c = true)
    (hc : c ∈ singleQuoted columns text) : isPrintable c = true := by
  have hdoubled : ∀ d ∈ text.flatMap doubled, isPrintable d = true := by
    intro d hd
    obtain ⟨b, hb, hd⟩ := List.mem_flatMap.1 hd
    rw [doubled] at hd
    split at hd
    · have hquote : d = '\'' := by simpa using hd
      rw [hquote]
      rfl
    · rw [List.mem_singleton.1 hd, h b hb]
  simp only [singleQuoted, List.mem_append, List.mem_cons, List.not_mem_nil, or_false] at hc
  rcases hc with rfl | (hc | hc) | rfl
  · rfl
  · exact isPrintable_of_mem_indentLines hdoubled hc
  · split at hc
    · rw [List.eq_of_mem_replicate hc]
      rfl
    · cases hc
  · rfl

/-- A text between double quotes is printed, whatever its characters are. -/
theorem isPrintable_of_mem_doubleQuoted (hc : c ∈ doubleQuoted text) : isPrintable c = true := by
  simp only [doubleQuoted, List.mem_append, List.mem_cons, List.mem_flatMap, List.not_mem_nil,
    or_false] at hc
  rcases hc with rfl | ⟨d, -, hd⟩ | rfl
  · rfl
  · exact isPrintable_of_mem_escapeChar hd
  · rfl

/-- A text that is written in any form is printed. -/
theorem isPrintable_of_mem_renderScalar {text : String} (hc : c ∈ renderScalar columns text) :
    isPrintable c = true := by
  have hline : ∀ {chars}, (c ∈ chars → isPrintable c = true) → c ∈ chars ++ ['\n'] →
      isPrintable c = true := by
    intro chars hchars hc
    rcases List.mem_append.1 hc with hc | hc
    · exact hchars hc
    · rw [List.mem_singleton.1 hc]
      rfl
  rcases Form.of_spec text with ⟨hform, hfeed, hlines⟩ | ⟨hform, hplain, -⟩ |
    ⟨hform, -, hsingle⟩ | hform
  · rw [renderScalar, hform] at hc
    simp only [allowsLines, Bool.and_eq_true, List.all_eq_true] at hlines
    exact isPrintable_of_mem_renderLines (List.ne_nil_of_mem hfeed) hlines.1.1 hc
  · rw [renderScalar, hform] at hc
    exact hline (fun hc => isPrintable_of_mem_of_allowsPlain hplain hc) hc
  · rw [renderScalar, hform] at hc
    simp only [allowsSingle, Bool.and_eq_true, List.all_eq_true] at hsingle
    exact hline (isPrintable_of_mem_singleQuoted hsingle.1.1) hc
  · rw [renderScalar, hform] at hc
    exact hline isPrintable_of_mem_doubleQuoted hc

/-! ## Lines -/

/-- A line of a document: the column and the text of its key, and its value, unless that is a
mapping in further lines. -/
structure Line where
  /-- The column of the key. -/
  column : Nat
  /-- The text of the key. -/
  key : String
  /-- The style and the text of the value. -/
  value : Option (ScalarStyle × String)

/-- The tokens of the lines that follow when mappings at these columns are open. -/
def lineTokens (indents : List Nat) : List Line → List Token
  | [] => indents.map fun _ => .blockEnd
  | l :: lines =>
    keyTokens l.column indents l.key ++ (l.value.map fun v => .scalar v.1 v.2).toList ++
      lineTokens (indentsAt l.column indents) lines

/-- The characters of a value with its line, which are all printed and are read as a scalar. -/
structure WrittenValue (outer : Nat) (style : ScalarStyle) (text : String) (chars : List Char) :
    Prop where
  /-- The value is read. -/
  reads : ReadsValue outer style text chars
  /-- The characters are printed. -/
  isPrintable : ∀ c ∈ chars, isPrintable c = true

/-- A text that needs no quotes is a value. -/
theorem writtenValue_of_allowsPlain {text : String} (h : allowsPlain text.toList = true) :
    WrittenValue outer .plain text (text.toList ++ ['\n']) where
  reads := readsValue_of_allowsPlain h
  isPrintable := by
    intro c hc
    rcases List.mem_append.1 hc with hc | hc
    · exact isPrintable_of_mem_of_allowsPlain h hc
    · rw [List.mem_singleton.1 hc]
      rfl

/-- A text in its form is a value. -/
theorem writtenValue_renderScalar (text : String) :
    WrittenValue outer (Form.of text).style text (renderScalar (outer + 2) text) where
  reads := readsValue_renderScalar text
  isPrintable := fun _ => isPrintable_of_mem_renderScalar

/-- The text of lines from the first key on, and the column of that key. -/
inductive Written : List Line → Nat → List Char → Prop where
  /-- No lines. -/
  | nil : Written [] 0 []
  /-- A key with a mapping in the lines after it. -/
  | head {lines : List Line} {column columns : Nat} {key : String} {next : List Char}
    (hkey : IsKey key.toList) (hlines : Written lines columns next) :
    Written (⟨column, key, none⟩ :: lines) column
      (key.toList ++ ':' :: '\n' :: (List.replicate columns ' ' ++ next))
  /-- A key with a value, after which no line is indented further. -/
  | value {lines : List Line} {column columns : Nat} {key : String} {style : ScalarStyle}
    {text : String} {chars next : List Char} (hkey : IsKey key.toList)
    (hvalue : WrittenValue column style text chars) (hcolumns : columns ≤ column)
    (hlines : Written lines columns next) :
    Written (⟨column, key, some (style, text)⟩ :: lines) column
      (key.toList ++ ':' :: ' ' :: (chars ++ (List.replicate columns ' ' ++ next)))

/-- The lines start with a token. -/
theorem Written.startsToken {lines : List Line} (h : Written lines columns text) :
    StartsToken text := by
  cases h with
  | nil => exact nofun
  | head hkey hlines => exact hkey.startsToken
  | value hkey hvalue hcolumns hlines => exact hkey.startsToken

/-- What is read of lines are their tokens. -/
theorem Written.gives {lines : List Line} (h : Written lines columns text) (line : Nat)
    (tokens : List Token) (indents : List Nat) :
    (Scan.block true ⟨line, columns⟩ tokens indents text).Gives
      (tokens ++ lineTokens indents lines) := by
  -- The lines are read from the first on, and what they give is shown from the last back.
  induction h generalizing line tokens indents with
  | nil => exact Scan.gives_nil
  | @head lines column columns key next hkey hlines ih =>
    have hafter := ih (line + 1) (tokens ++ keyTokens column indents key) (indentsAt column indents)
    refine Scan.Gives.of_key hkey rfl (Scan.Gives.of_break hlines.startsToken ?_)
    simpa [lineTokens] using hafter
  | @value lines column columns key style text chars next hkey hvalue hcolumns hlines ih =>
    refine Scan.Gives.of_key hkey rfl ?_
    obtain ⟨others, hothers⟩ := exists_indentsAt column indents
    rw [hothers]
    refine hvalue.reads (by omega) hcolumns hlines.startsToken fun line' => ?_
    have hafter := ih line' (tokens ++ keyTokens column indents key ++ [.scalar style text])
      (indentsAt column indents)
    rw [hothers] at hafter
    simpa [lineTokens, hothers] using hafter

/-- Lines are printed. -/
theorem Written.isPrintable {lines : List Line} (h : Written lines columns text) :
    ∀ c ∈ text, isPrintable c = true := by
  have hkeys : ∀ {key : List Char}, IsKey key → ∀ c ∈ key, Yaml.isPrintable c = true := by
    intro key hkey c hc
    rcases hkey.isAlphanum_or c hc with hletter | rfl
    · exact isPrintable_of_isAlphanum hletter
    · rfl
  have hspaces : ∀ {n c}, c ∈ List.replicate n ' ' → Yaml.isPrintable c = true := by
    intro n c hc
    rw [List.eq_of_mem_replicate hc]
    rfl
  induction h with
  | nil => exact nofun
  | head hkey hlines ih =>
    intro c hc
    simp only [List.mem_append, List.mem_cons] at hc
    rcases hc with hc | rfl | rfl | hc | hc
    · exact hkeys hkey c hc
    · rfl
    · rfl
    · exact hspaces hc
    · exact ih c hc
  | value hkey hvalue hcolumns hlines ih =>
    intro c hc
    simp only [List.mem_append, List.mem_cons] at hc
    rcases hc with hc | rfl | rfl | hc | hc | hc
    · exact hkeys hkey c hc
    · rfl
    · rfl
    · exact hvalue.isPrintable c hc
    · exact hspaces hc
    · exact ih c hc

/-- The tokens of a text of lines are those of the lines. -/
theorem tokens?_of_written {lines : List Line} {text : String} (h : Written lines 0 text.toList) :
    tokens? text = some (lineTokens [] lines) := by
  have hprint := h.isPrintable
  have hreadable : text.toList.all isReadable = true :=
    List.all_eq_true.2 fun c hc => (isReadable_of_isPrintable (hprint c hc)).1
  have huniform : uniformBreaks text.toList = text.toList :=
    uniformBreaks_eq_self fun c hc => (isReadable_of_isPrintable (hprint c hc)).2
  have hstart : Scan.start text.toList = Scan.block true ⟨0, 0⟩ [] [] text.toList := by
    cases hchars : text.toList with
    | nil => rfl
    | cons c chars =>
      have hmark : c ≠ '\uFEFF' := by
        rintro rfl
        have hbom := hprint '\uFEFF' (by rw [hchars]; exact List.mem_cons_self)
        cases hbom
      simp [Scan.start, hmark, Scan.block]
  simp only [tokens?, hreadable, if_true, huniform, hstart]
  exact h.gives 0 [] [] (text.toList.length + 1) (Nat.lt_succ_self _)

end HeapDomains.Yaml
