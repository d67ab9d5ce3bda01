import HeapDomains.Proofs.Yaml.Plain
import Mathlib.Data.List.Induction
import Mathlib.Data.List.TakeWhile

/-!
# Reading texts that were written as lines

A text that is written as lines is read back (`scanBlock_renderLines`). The breaks at its end are
set apart: what the header says about them, and what is left of them after chomping, has to make up
for the break that the rendering adds (`scanBlockHeader_linesHeader`). The text in front of them is
read line by line (`scanBlockLines_indentLines`), where a line takes the empty lines in front of it
along.
-/

namespace HeapDomains.Yaml

variable {c : Char} {text next rest breaks : List Char} {indent columns line fuel : Nat}
  {chomping : Chomping}

/-! ## Lines -/

/-- Whether a text ends with a character that is no break. -/
def EndsInLine (text : List Char) : Prop := ∃ c ∈ text.getLast?, isBreak c = false

/-- What is left at the end of a text ends as the text does. -/
theorem EndsInLine.right {first second : List Char} (h : EndsInLine (first ++ second))
    (hne : second ≠ []) : EndsInLine second := by
  obtain ⟨c, hc, hbreak⟩ := h
  rw [List.getLast?_append_of_ne_nil first hne] at hc
  exact ⟨c, hc, hbreak⟩

/-- A text of breaks does not end in a line. -/
theorem not_endsInLine (h : ∀ c ∈ breaks, isBreak c = true) : ¬EndsInLine breaks := by
  rintro ⟨c, hc, hbreak⟩
  rw [h c (List.mem_of_getLast? hc)] at hbreak
  cases hbreak

/-- The parts of a text that ends in a line: the empty lines in front, the first line that is not
empty, and the text after its break. -/
theorem EndsInLine.exists_line (h : EndsInLine text) :
    ∃ breaks c chars more, text = breaks ++ (c :: chars ++ more) ∧
      (∀ d ∈ breaks, isBreak d = true) ∧ isBreak c = false ∧ (∀ d ∈ chars, isBreak d = false) ∧
        (more = [] ∨ ∃ b text', more = b :: text' ∧ isBreak b = true ∧ EndsInLine text') := by
  have hbreaks : ∀ d ∈ text.takeWhile isBreak, isBreak d = true := fun d => List.mem_takeWhile_imp
  have hsplit : text.takeWhile isBreak ++ text.dropWhile isBreak = text :=
    List.takeWhile_append_dropWhile
  cases hdrop : text.dropWhile isBreak with
  | nil =>
    rw [hdrop, List.append_nil] at hsplit
    rw [← hsplit] at h
    exact absurd h (not_endsInLine hbreaks)
  | cons c tail =>
    rw [hdrop] at hsplit
    have hc : isBreak c = false := by
      simpa [hdrop] using List.head?_dropWhile_not isBreak text
    have hchars : ∀ d ∈ tail.takeWhile (!isBreak ·), isBreak d = false := by
      intro d hd
      simpa using List.mem_takeWhile_imp hd
    have htail : tail.takeWhile (!isBreak ·) ++ tail.dropWhile (!isBreak ·) = tail :=
      List.takeWhile_append_dropWhile
    refine ⟨text.takeWhile isBreak, c, tail.takeWhile (!isBreak ·), tail.dropWhile (!isBreak ·),
      by rw [List.cons_append, htail, hsplit], hbreaks, hc, hchars, ?_⟩
    cases hmore : tail.dropWhile (!isBreak ·) with
    | nil => exact Or.inl rfl
    | cons b text' =>
      have hb : isBreak b = true := by
        simpa [hmore] using List.head?_dropWhile_not (!isBreak ·) tail
      refine Or.inr ⟨b, text', rfl, hb, ?_⟩
      rw [← hsplit, ← htail, hmore] at h
      have hwhole : EndsInLine (text.takeWhile isBreak ++ (c :: tail.takeWhile (!isBreak ·)) ++
          (b :: text')) := by simpa using h
      have hend : EndsInLine ([b] ++ text') := hwhole.right (List.cons_ne_nil b text')
      refine hend.right ?_
      rintro rfl
      exact not_endsInLine (by simpa using hb) hend

/-! ## The start of a line -/

/-- Breaks are not indented. -/
theorem indentLines_breaks (h : ∀ c ∈ breaks, isBreak c = true) (columns : Nat)
    (text : List Char) :
    indentLines columns true (breaks ++ text) = breaks ++ indentLines columns true text := by
  induction breaks with
  | nil => rfl
  | cons b breaks ih =>
    rw [List.cons_append, indentLines, if_pos (h b List.mem_cons_self),
      ih fun c hc => h c (List.mem_cons_of_mem b hc), List.cons_append]

/-- The characters of a line are not indented. -/
theorem indentLines_line (h : ∀ c ∈ text, isBreak c = false) :
    indentLines columns false (text ++ rest) = text ++ indentLines columns false rest := by
  induction text with
  | nil => rfl
  | cons d text ih =>
    simp [indentLines, h d List.mem_cons_self, ih fun c hc => h c (List.mem_cons_of_mem d hc)]

/-- Spaces of the indentation do not count. -/
theorem scanBlockBreaks_replicate {given : Option Nat} {column : Nat}
    (h : ∀ n ∈ given, column + columns ≤ n) :
    scanBlockBreaks given ⟨line, column⟩ (List.replicate columns ' ' ++ rest) =
      scanBlockBreaks given ⟨line, column + columns⟩ rest := by
  induction columns generalizing column with
  | zero => rfl
  | succ columns ih =>
    have hin : given.all (fun n => decide (column < n)) = true := by
      cases given with
      | none => rfl
      | some n =>
        have hn := h n rfl
        simp only [Option.all_some, decide_eq_true_eq]
        omega
    have hplace : column + 1 + columns = column + (columns + 1) := by omega
    rw [List.replicate_succ, List.cons_append, scanBlockBreaks]
    simp only [hin, and_self, if_true, Place.right]
    rw [ih fun n hn => by have := h n hn; omega, hplace]

/-- Whether a text after some columns is where a line or the end of a block scalar starts: no break,
and no blank of the indentation. -/
def StartsLine (given : Option Nat) (column : Nat) (rest : List Char) : Prop :=
  ∀ c ∈ rest.head?, isBreak c = false ∧
    (given.all (fun n => column < n) = true → isBlank c = false)

/-- The reading of empty lines ends where a line starts. -/
theorem StartsLine.scanBlockBreaks_eq {given : Option Nat} {column : Nat}
    (h : StartsLine given column rest) :
    scanBlockBreaks given ⟨line, column⟩ rest = some ⟨[], column, ⟨line, column⟩, rest⟩ := by
  cases rest with
  | nil => rfl
  | cons c rest =>
    obtain ⟨hbreak, hblank⟩ := h c rfl
    cases hin : given.all (fun n => decide (column < n)) with
    | false => simp [scanBlockBreaks, hin, hbreak]
    | true =>
      have hboth : ¬c = ' ' ∧ ¬c = '\t' := by simpa [isBlank] using hblank hin
      simp [scanBlockBreaks, hboth, hbreak]

/-- The empty lines in front of a line are read. -/
theorem StartsLine.scanBlockBreaks_breaks (h : StartsLine (some indent) columns rest)
    (hcolumns : columns ≤ indent) (hbreaks : ∀ c ∈ breaks, isBreak c = true) (line : Nat) :
    ∃ widest line', scanBlockBreaks (some indent) ⟨line, 0⟩
        (breaks ++ (List.replicate columns ' ' ++ rest)) =
      some ⟨breaks, widest, ⟨line', columns⟩, rest⟩ := by
  induction breaks generalizing line with
  | nil =>
    refine ⟨columns, line, ?_⟩
    rw [List.nil_append, scanBlockBreaks_replicate (by simpa using hcolumns), Nat.zero_add]
    exact h.scanBlockBreaks_eq
  | cons b breaks ih =>
    have hb : isBreak b = true := hbreaks b List.mem_cons_self
    have hspace : b ≠ ' ' ∧ b ≠ '\t' := by
      constructor
      · rintro rfl
        cases hb
      · rintro rfl
        cases hb
    obtain ⟨widest, line', hscan⟩ :=
      ih (fun c hc => hbreaks c (List.mem_cons_of_mem b hc)) (line + 1)
    refine ⟨max 0 widest, line', ?_⟩
    rw [List.cons_append, scanBlockBreaks]
    simp only [hspace.1, hspace.2, and_false, if_false, hb, if_true, Place.down, hscan,
      Option.map_some]

/-! ## Lines of a block scalar -/

section Lines

variable {lastBreak : Option Char} {lastBlank : Bool} {b : Char} {chars more ends : List Char}

/-- A line is read up to its break, and the rest by the lines that follow. -/
theorem scanBlockLines_line {widest : Nat} {following : BlockBreaks} {place : Place}
    (hc : isBreak c = false) (hchars : ∀ d ∈ chars, isBreak d = false) (hb : isBreak b = true)
    (hfollowing : scanBlockBreaks (some indent) ⟨line + 1, 0⟩ more = some following)
    (hlines : ∀ blank, scanBlockLines true chomping indent fuel (some b) blank following =
      some ⟨text, true, place, rest⟩) :
    scanBlockLines true chomping indent (fuel + 1) lastBreak lastBlank
        ⟨breaks, widest, ⟨line, indent⟩, c :: chars ++ b :: more⟩ =
      some ⟨lastBreak.toList ++ breaks ++ (c :: chars) ++ text, true, place, rest⟩ := by
  have hline : ∀ d ∈ c :: chars, (!isBreak d) = true := by
    simpa using And.intro hc hchars
  have htake : (c :: chars ++ b :: more).takeWhile (fun d => !isBreak d) = c :: chars := by
    rw [List.takeWhile_append_of_pos hline, List.takeWhile_cons_of_neg (by simp [hb]),
      List.append_nil]
  have hdrop : (c :: chars ++ b :: more).dropWhile (fun d => !isBreak d) = b :: more := by
    rw [List.dropWhile_append_of_pos hline, List.dropWhile_cons_of_neg (by simp [hb])]
  have hdown : (Place.right ⟨line, indent⟩ (c :: chars).length).down = ⟨line + 1, 0⟩ := rfl
  rw [scanBlockLines, if_pos ⟨rfl, by simp⟩]
  simp only [htake, hdrop, hdown, hfollowing]
  simp [hlines, foldLines, ScalarRead.prepend]

/-- A block scalar ends where a line is indented less. -/
theorem scanBlockLines_end {widest : Nat} (hcolumns : columns < indent) :
    scanBlockLines true chomping indent (fuel + 1) lastBreak lastBlank
        ⟨breaks, widest, ⟨line, columns⟩, rest⟩ =
      some ⟨chomp chomping lastBreak breaks, true, ⟨line, columns⟩, rest⟩ := by
  have hless : ¬columns = indent := by omega
  rw [scanBlockLines, if_neg (by simp [hless])]

/-- The lines of a text are read, and the breaks after them are chomped. -/
theorem scanBlockLines_indentLines {after : List Char} (lastBreak : Option Char) (line : Nat)
    (h : EndsInLine text) (hb : isBreak b = true)
    (hafter : ∀ line, ∃ widest line', scanBlockBreaks (some indent) ⟨line, 0⟩ after =
      some ⟨ends, widest, ⟨line', columns⟩, next⟩)
    (hcolumns : columns < indent) (hfuel : text.length < fuel) :
    ∃ before line', scanBlockBreaks (some indent) ⟨line, 0⟩
        (indentLines indent true text ++ b :: after) = some before ∧
      ∀ blank, scanBlockLines true chomping indent fuel lastBreak blank before =
        some ⟨lastBreak.toList ++ text ++ chomp chomping (some b) ends, true, ⟨line', columns⟩,
          next⟩ := by
  -- A step reads a line with the empty lines in front of it, so the induction is on the steps.
  induction fuel generalizing text line lastBreak with
  | zero => exact absurd hfuel (Nat.not_lt_zero _)
  | succ fuel ih =>
    obtain ⟨breaks, c, chars, more, rfl, hbreaks, hc, hchars, hmore⟩ := h.exists_line
    have hline : ∀ d ∈ c :: chars, isBreak d = false := List.forall_mem_cons.2 ⟨hc, hchars⟩
    have hindent : indentLines indent true (breaks ++ (c :: chars ++ more)) =
        breaks ++ (List.replicate indent ' ' ++ (c :: chars ++ indentLines indent false more)) := by
      rw [indentLines_breaks hbreaks, ← indentLines_line hline, List.cons_append, indentLines,
        indentLines]
      simp [hc]
    -- The empty lines are read to the start of the line, whatever follows it.
    have hbefore : ∀ tail, ∃ widest line', scanBlockBreaks (some indent) ⟨line, 0⟩
        (breaks ++ (List.replicate indent ' ' ++ (c :: chars ++ tail))) =
          some ⟨breaks, widest, ⟨line', indent⟩, c :: chars ++ tail⟩ := by
      intro tail
      refine StartsLine.scanBlockBreaks_breaks ?_ le_rfl hbreaks line
      rintro d ⟨⟩
      exact ⟨hc, by simp⟩
    simp only [List.length_append, List.length_cons] at hfuel
    rcases hmore with rfl | ⟨b', text', rfl, hb', htext'⟩
    · obtain ⟨widest, line₁, hbefore⟩ := hbefore (b :: after)
      obtain ⟨_, line₂, hafter⟩ := hafter (line₁ + 1)
      obtain ⟨fuel, rfl⟩ : ∃ n, fuel = n + 1 := ⟨fuel - 1, by omega⟩
      refine ⟨⟨breaks, widest, ⟨line₁, indent⟩, c :: chars ++ b :: after⟩, line₂, ?_,
        fun blank => ?_⟩
      · rw [hindent, List.append_assoc, List.append_assoc, indentLines, List.append_nil]
        exact hbefore
      · rw [scanBlockLines_line hc hchars hb hafter fun _ => scanBlockLines_end hcolumns]
        simp
    · obtain ⟨widest, line₁, hbefore⟩ :=
        hbefore (b' :: (indentLines indent true text' ++ b :: after))
      obtain ⟨following, line₂, hfollowing, hlines⟩ :=
        ih (some b') (line₁ + 1) htext' (by simp at hfuel; omega)
      refine ⟨⟨breaks, widest, ⟨line₁, indent⟩,
        c :: chars ++ b' :: (indentLines indent true text' ++ b :: after)⟩, line₂, ?_,
        fun blank => ?_⟩
      · rw [hindent, List.append_assoc, List.append_assoc, List.append_assoc, indentLines,
          if_pos hb']
        exact hbefore
      · rw [scanBlockLines_line hc hchars hb' hfollowing hlines]
        simp

end Lines

/-! ## The end of a text -/

/-- A text consists of breaks, or its last line is followed by breaks only. -/
theorem exists_ends (text : List Char) : (∀ c ∈ text, isBreak c = true) ∨
    ∃ text' ends, text = text' ++ ends ∧ EndsInLine text' ∧ ∀ c ∈ ends, isBreak c = true := by
  induction text using List.reverseRecOn with
  | nil => exact Or.inl nofun
  | append_singleton text c ih =>
    cases hc : isBreak c with
    | false =>
      refine Or.inr ⟨text ++ [c], [], by simp, ⟨c, by simp, hc⟩, nofun⟩
    | true =>
      rcases ih with hbreaks | ⟨text', ends, rfl, htext', hends⟩
      · refine Or.inl fun d hd => ?_
        rcases List.mem_append.1 hd with hd | hd
        · exact hbreaks d hd
        · rw [List.mem_singleton.1 hd, hc]
      · refine Or.inr ⟨text', ends ++ [c], List.append_assoc .., htext', fun d hd => ?_⟩
        rcases List.mem_append.1 hd with hd | hd
        · exact hends d hd
        · rw [List.mem_singleton.1 hd, hc]

/-- The breaks at the end of a text are not indented. -/
theorem indentLines_append_breaks {atStart : Bool} (h : ∀ c ∈ breaks, isBreak c = true) :
    indentLines columns atStart (text ++ breaks) = indentLines columns atStart text ++ breaks := by
  induction text generalizing atStart with
  | nil =>
    cases breaks with
    | nil => rfl
    | cons b breaks =>
      have hbreaks := indentLines_breaks (fun c hc => h c (List.mem_cons_of_mem b hc)) columns []
      rw [List.append_nil] at hbreaks
      simp [indentLines, h b List.mem_cons_self, hbreaks]
  | cons c text ih => cases hc : isBreak c <;> simp [indentLines, hc, ih]

/-- The sign of a chomping. -/
def Chomping.sign : Chomping → List Char
  | strip => ['-']
  | clip => []
  | keep => ['+']

/-- What is read of the first line of a block scalar. -/
theorem scanBlockHeader_sign (isGiven : Bool) (chomping : Chomping) (rest : List Char) :
    scanBlockHeader ((if isGiven then ['2'] else []) ++ (chomping.sign ++ '\n' :: rest)) =
      some (chomping, if isGiven then some 2 else none, '\n' :: rest) := by
  cases isGiven <;> cases chomping <;> rfl

/-- The header of a text depends on its first and its last two characters. -/
theorem linesHeader_append (text : List Char) (last : Char) : linesHeader (text ++ [last]) =
    '|' :: ((if startsWithGap (text ++ [last]) then ['2'] else []) ++
      (if !isBreak last then ['-'] else if text.getLast?.all isBreak then ['+'] else [])) := by
  simp [linesHeader]

/-- How a text that is written as lines ends: with the breaks that the text consists of, or with a
break after its last line and more of them, such that chomping leaves what the text has. -/
theorem linesHeader_eq (h : text ≠ []) :
    ∃ chomping : Chomping,
      linesHeader text = '|' :: ((if startsWithGap text then ['2'] else []) ++ chomping.sign) ∧
      ((chomping = .keep ∧ ∀ c ∈ text, isBreak c = true) ∨
        ∃ text' b ends, EndsInLine text' ∧ isBreak b = true ∧ (∀ c ∈ ends, isBreak c = true) ∧
          text' ++ chomp chomping (some b) ends = text ∧
          ∀ columns, indentLines columns true text ++
              (if text.getLast?.any isBreak then [] else ['\n']) =
            indentLines columns true text' ++ b :: ends) := by
  obtain ⟨init, last, hconcat⟩ := (List.eq_nil_or_concat text).resolve_left h
  obtain rfl : text = init ++ [last] := by rw [hconcat, List.concat_eq_append]
  rw [linesHeader_append]
  cases hlast : isBreak last with
  | false =>
    exact ⟨.strip, rfl, Or.inr ⟨init ++ [last], '\n', [], ⟨last, by simp, hlast⟩, rfl, nofun,
      List.append_nil _, fun columns => by simp [hlast]⟩⟩
  | true =>
    have hbreaks : ∀ c ∈ [last], isBreak c = true := by simpa using hlast
    have hend : (init ++ [last]).getLast?.any isBreak = true := by simpa using hlast
    cases hbefore : init.getLast?.all isBreak with
    | false =>
      have hinit : EndsInLine init := by
        obtain ⟨c, hc, hbreak⟩ := (Option.all_eq_false ..).1 hbefore
        exact ⟨c, hc, hbreak⟩
      refine ⟨.clip, rfl, Or.inr ⟨init, last, [], hinit, hlast, nofun, rfl, fun columns => ?_⟩⟩
      rw [indentLines_append_breaks hbreaks, hend, if_pos rfl, List.append_nil]
    | true =>
      refine ⟨.keep, rfl, ?_⟩
      rcases exists_ends (init ++ [last]) with hall | ⟨text', ends, htext, htext', hends⟩
      · exact Or.inl ⟨rfl, hall⟩
      · cases ends with
        | nil =>
          obtain ⟨c, hc, hbreak⟩ := htext'
          rw [List.append_nil] at htext
          rw [← htext, List.getLast?_concat, Option.mem_some_iff] at hc
          rw [← hc, hlast] at hbreak
          cases hbreak
        | cons b ends =>
          refine Or.inr ⟨text', b, ends, htext', hends b List.mem_cons_self,
            fun c hc => hends c (List.mem_cons_of_mem b hc), htext.symm, fun columns => ?_⟩
          rw [hend, if_pos rfl, List.append_nil, htext, indentLines_append_breaks hends]

/-! ## Texts as lines -/

/-- No character is lost when lines are indented. -/
theorem length_le_length_indentLines (columns : Nat) (atStart : Bool) (text : List Char) :
    text.length ≤ (indentLines columns atStart text).length := by
  induction text generalizing atStart with
  | nil => exact Nat.le_refl _
  | cons c text ih =>
    have hrest := ih (isBreak c)
    cases hc : isBreak c with
    | true => simpa [indentLines, hc] using hrest
    | false =>
      rw [hc] at hrest
      simp only [indentLines, hc, Bool.false_eq_true, if_false, List.length_append,
        List.length_cons]
      omega

/-- The indentation is found where the first line shows it. -/
theorem scanBlockBreaks_none (h : startsWithGap text = false) (columns line : Nat)
    (tail : List Char) :
    ∃ rest, scanBlockBreaks none ⟨line, 0⟩ (indentLines columns true text ++ tail) =
        some ⟨[], columns, ⟨line, columns⟩, rest⟩ ∧
      scanBlockBreaks (some columns) ⟨line, 0⟩ (indentLines columns true text ++ tail) =
        some ⟨[], columns, ⟨line, columns⟩, rest⟩ := by
  cases text with
  | nil => cases h
  | cons c text =>
    obtain ⟨hblank, hbreak⟩ : isBlank c = false ∧ isBreak c = false := by
      simpa [startsWithGap] using h
    refine ⟨c :: (indentLines columns false text ++ tail), ?_⟩
    have hlines : indentLines columns true (c :: text) ++ tail =
        List.replicate columns ' ' ++ c :: (indentLines columns false text ++ tail) := by
      simp [indentLines, hbreak]
    have hstarts : ∀ given,
        StartsLine given columns (c :: (indentLines columns false text ++ tail)) := by
      rintro given d ⟨⟩
      exact ⟨hbreak, fun _ => hblank⟩
    rw [hlines, scanBlockBreaks_replicate (by simp), scanBlockBreaks_replicate (by simp),
      Nat.zero_add]
    exact ⟨(hstarts none).scanBlockBreaks_eq, (hstarts _).scanBlockBreaks_eq⟩

/-- A block scalar is read by its lines once its header and the empty lines in front are. -/
theorem scanBlock_eq {outer : Nat} {place : Place} {given : Option Nat} {header body : List Char}
    {before : BlockBreaks} (hheader : scanBlockHeader header = some (chomping, given, '\n' :: body))
    (hbefore : scanBlockBreaks (given.map (outer + ·)) ⟨place.line + 1, 0⟩ body = some before) :
    scanBlock true (some outer) place header =
      scanBlockLines true chomping
        ((given.map (outer + ·)).getD (max (max before.widest (outer + 1)) 1))
        (header.length + 1) none false before := by
  have hend : scanLineEnd ('\n' :: body) = some (true, body) := rfl
  have hdown : place.down = ⟨place.line + 1, 0⟩ := rfl
  simp [scanBlock, hheader, hend, hdown, hbefore]

/-- The lines that a text is written as are read as the text, with the chomping of its header. -/
theorem scanBlockLines_linesHeader (hne : text ≠ []) (hcolumns : columns < indent)
    (hnext : StartsToken next) :
    ∃ chomping : Chomping,
      linesHeader text = '|' :: ((if startsWithGap text then ['2'] else []) ++ chomping.sign) ∧
      ∀ line fuel, text.length < fuel → ∃ before line',
        scanBlockBreaks (some indent) ⟨line, 0⟩ (indentLines indent true text ++
          ((if text.getLast?.any isBreak then [] else ['\n']) ++
            (List.replicate columns ' ' ++ next))) = some before ∧
        scanBlockLines true chomping indent fuel none false before =
          some ⟨text, true, ⟨line', columns⟩, next⟩ := by
  have hstarts : StartsLine (some indent) columns next := by
    intro c hc
    obtain ⟨hblank, hbreak, -⟩ := hnext c hc
    exact ⟨hbreak, fun _ => hblank⟩
  obtain ⟨chomping, hheader, htext⟩ := linesHeader_eq hne
  refine ⟨chomping, hheader, fun line fuel hfuel => ?_⟩
  rcases htext with ⟨rfl, hbreaks⟩ | ⟨text', b, ends, htext', hb, hends, rfl, hrender⟩
  · have hend : text.getLast?.any isBreak = true := by
      rw [List.getLast?_eq_some_getLast hne, Option.any_some, hbreaks _ (List.getLast_mem hne)]
    have hlines := indentLines_breaks hbreaks indent []
    rw [List.append_nil, indentLines, List.append_nil] at hlines
    rw [hend, if_pos rfl, List.nil_append, hlines]
    obtain ⟨widest, line', hscan⟩ := hstarts.scanBlockBreaks_breaks hcolumns.le hbreaks line
    obtain ⟨fuel, rfl⟩ : ∃ n, fuel = n + 1 := ⟨fuel - 1, by omega⟩
    exact ⟨_, line', hscan, scanBlockLines_end hcolumns⟩
  · rw [← List.append_assoc, hrender, List.append_assoc, List.cons_append]
    rw [List.length_append] at hfuel
    have hfuel' : text'.length < fuel := by omega
    obtain ⟨before, line', hscan, hlines⟩ := scanBlockLines_indentLines none line htext' hb
      (hstarts.scanBlockBreaks_breaks hcolumns.le hends) hcolumns hfuel'
    exact ⟨before, line', hscan, hlines false⟩

/-- A text that is written as lines is read back, in a mapping that is indented by `outer` columns.
-/
theorem scanBlock_renderLines (outer : Nat) (place : Place) (hne : text ≠ [])
    (hcolumns : columns < outer + 2) (hnext : StartsToken next) :
    ∃ header line', renderLines (outer + 2) text = '|' :: header ∧
      scanBlock true (some outer) place (header ++ (List.replicate columns ' ' ++ next)) =
        some ⟨text, true, ⟨line', columns⟩, next⟩ := by
  obtain ⟨chomping, hheader, hlines⟩ := scanBlockLines_linesHeader hne hcolumns hnext
  obtain ⟨after, hafter⟩ : ∃ after, (if text.getLast?.any isBreak then [] else ['\n']) ++
    (List.replicate columns ' ' ++ next) = after := ⟨_, rfl⟩
  rw [hafter] at hlines
  have hsign := scanBlockHeader_sign (startsWithGap text) chomping
    (indentLines (outer + 2) true text ++ after)
  obtain ⟨header, hcut⟩ : ∃ header, (if startsWithGap text then ['2'] else []) ++ (chomping.sign ++
    '\n' :: (indentLines (outer + 2) true text ++ after)) = header := ⟨_, rfl⟩
  rw [hcut] at hsign
  have hlength : text.length < header.length + 1 := by
    have hindent := length_le_length_indentLines (outer + 2) true text
    simp only [← hcut, List.length_append, List.length_cons]
    omega
  obtain ⟨before, line', hscan, hread⟩ := hlines (place.line + 1) _ hlength
  have hblock : scanBlock true (some outer) place header =
      some ⟨text, true, ⟨line', columns⟩, next⟩ := by
    rw [← hread]
    cases hgap : startsWithGap text with
    | true =>
      rw [hgap] at hsign
      exact scanBlock_eq hsign hscan
    | false =>
      -- The indentation is that of the first line, which has no blank in front.
      rw [hgap] at hsign
      obtain ⟨rest, hnone, hsome⟩ := scanBlockBreaks_none hgap (outer + 2) (place.line + 1) after
      obtain rfl := Option.some.inj (hsome.symm.trans hscan)
      have hindent : max (max (outer + 2) (outer + 1)) 1 = outer + 2 := by omega
      rw [scanBlock_eq hsign hnone]
      simp only [Option.map_none, Option.getD_none, hindent, Bool.false_eq_true, if_false]
  refine ⟨(if startsWithGap text then ['2'] else []) ++ (chomping.sign ++
    '\n' :: (indentLines (outer + 2) true text ++
      (if text.getLast?.any isBreak then [] else ['\n']))), line', ?_, ?_⟩
  · rw [renderLines, hheader]
    simp
  · rw [← hblock, ← hcut, ← hafter]
    simp

end HeapDomains.Yaml
