import HeapDomains.Proofs.Bench.Line
import Mathlib.Algebra.Order.BigOperators.Group.List

/-!
# What the summary of a benchmark log says

A log is read line by line, where a line ends before a line feed or before a carriage return and a
line feed (`readLines`). Its summary counts the lines from which a value is read and adds the values
up, but never beyond the largest word: stopping there at some value gives the same as stopping there
at the end (`BenchSummary.foldl_add`), so neither the order of the lines nor where a log is cut
between two lines makes a difference. Where the sum is no word, the mean can be less than every
value.
-/

namespace HeapDomains

/-! ## Lines -/

/-- A line without a carriage return at its end. -/
def dropReturn (line : List Char) : List Char :=
  if line.getLast? = some '\r' then line.dropLast else line

/-- The lines of a text that goes on with a line of which a part has been read. -/
def readLinesFrom (line : List Char) : List Char → List (List Char)
  | [] => if line.isEmpty then [] else [line]
  | c :: rest =>
    if c = '\n' then dropReturn line :: readLinesFrom [] rest else readLinesFrom (line ++ [c]) rest

/-- The lines of a text as they are read: each ends before a line feed and a carriage return in
front of it, and what is left after the last line feed is a line unless it is empty. -/
def readLines (text : List Char) : List (List Char) := readLinesFrom [] text

variable {pattern text before after line : List Char} {c : Char}

/-- A pattern without a character stands where it stands in the text before that character. -/
theorem exists_of_append_singleton (hne : pattern ≠ []) (hc : c ∉ pattern)
    (h : text ++ [c] = before ++ pattern ++ after) :
    ∃ rest, after = rest ++ [c] ∧ text = before ++ pattern ++ rest := by
  cases after using List.reverseRecOn with
  | nil =>
    -- Otherwise the character is the last one of the pattern.
    have hlast : (text ++ [c]).getLast? = pattern.getLast? := by
      rw [h, List.append_nil, List.getLast?_append_of_ne_nil _ hne]
    rw [List.getLast?_concat] at hlast
    exact absurd (List.mem_of_getLast? hlast.symm) hc
  | append_singleton rest c' =>
    rw [← List.append_assoc] at h
    obtain ⟨htext, hc'⟩ := List.append_inj' h rfl
    exact ⟨rest, by rw [List.singleton_inj.1 hc'], htext⟩

/-- A pattern without a character stands first where it stands first in the text before that
character. -/
theorem firstAt_append_singleton_iff (hne : pattern ≠ []) (hc : c ∉ pattern) :
    FirstAt pattern (text ++ [c]) before after ↔
      ∃ rest, after = rest ++ [c] ∧ FirstAt pattern text before rest := by
  constructor
  · intro h
    obtain ⟨rest, rfl, htext⟩ := exists_of_append_singleton hne hc h.text_eq
    refine ⟨rest, rfl, htext, fun before' after' htext' => ?_⟩
    exact h.le_length before' (after' ++ [c]) (by rw [htext', List.append_assoc])
  · rintro ⟨rest, rfl, h⟩
    refine ⟨by rw [h.text_eq, List.append_assoc], fun before' after' htext' => ?_⟩
    obtain ⟨rest', -, htext⟩ := exists_of_append_singleton hne hc htext'
    exact h.le_length before' rest' htext

/-- A carriage return at the end of a line changes nothing between the markers. -/
theorem standsBetween_append_return {between : List Char} :
    StandsBetween (line ++ ['\r']) between ↔ StandsBetween line between := by
  have hbench : ∀ {text before after}, FirstAt benchMarker (text ++ ['\r']) before after ↔
      ∃ rest, after = rest ++ ['\r'] ∧ FirstAt benchMarker text before rest :=
    firstAt_append_singleton_iff (by decide) (by decide)
  have hunit : ∀ {text before after}, FirstAt unitMarker (text ++ ['\r']) before after ↔
      ∃ rest, after = rest ++ ['\r'] ∧ FirstAt unitMarker text before rest :=
    firstAt_append_singleton_iff (by decide) (by decide)
  constructor
  · rintro ⟨before, rest, after, hrest, hafter⟩
    obtain ⟨rest', rfl, hrest'⟩ := hbench.1 hrest
    obtain ⟨after', rfl, hafter'⟩ := hunit.1 hafter
    exact ⟨before, rest', after', hrest', hafter'⟩
  · rintro ⟨before, rest, after, hrest, hafter⟩
    exact ⟨before, rest ++ ['\r'], after ++ ['\r'], hbench.2 ⟨rest, rfl, hrest⟩,
      hunit.2 ⟨after, rfl, hafter⟩⟩

/-- A carriage return at the end of a line does not change what is read from it. -/
theorem measurement?_dropReturn : measurement? (dropReturn line) = measurement? line := by
  unfold dropReturn
  split
  · rename_i hlast
    obtain ⟨rest, rfl⟩ := List.getLast?_eq_some_iff.1 hlast
    rw [List.dropLast_concat]
    exact Option.ext fun n => by
      rw [measurement?_eq_some_iff, measurement?_eq_some_iff]
      simp only [standsBetween_append_return]
  · rfl

/-- Nothing is put in front of the first line. -/
theorem modifyHead_nil_append {lines : List (List Char)} :
    lines.modifyHead ([] ++ ·) = lines := by
  cases lines with
  | nil => rfl
  | cons first rest => rfl

/-- From the lines that are read and from what stands between the line feeds the same values are
read. -/
theorem filterMap_readLinesFrom : (readLinesFrom line text).filterMap measurement? =
    ((text.splitOn '\n').modifyHead (line ++ ·)).filterMap measurement? := by
  induction text generalizing line with
  | nil =>
    have hempty : measurement? [] = none := rfl
    cases line with
    | nil => simp [readLinesFrom, List.splitOn, hempty]
    | cons c rest => simp [readLinesFrom, List.splitOn]
  | cons c rest ih =>
    rw [readLinesFrom, List.splitOn, List.splitOnP_cons_eq_if_modifyHead]
    by_cases hc : c = '\n'
    · rw [if_pos hc, if_pos (by rw [hc]; rfl), List.modifyHead_cons, List.append_nil,
        List.filterMap_cons, List.filterMap_cons, measurement?_dropReturn, ih,
        modifyHead_nil_append, List.splitOn]
    · rw [if_neg hc, if_neg (by simpa using hc), ih, List.modifyHead_modifyHead, List.splitOn]
      simp [Function.comp_def]

/-- A text ends with a line feed, if it is not empty. -/
def EndsLine (text : List Char) : Prop := ∀ c ∈ text.getLast?, c = '\n'

/-- What stands after a line feed is read as on its own. -/
theorem readLinesFrom_append_cons {rest : List Char} :
    readLinesFrom line (text ++ '\n' :: rest) =
      readLinesFrom line (text ++ ['\n']) ++ readLines rest := by
  induction text generalizing line with
  | nil => simp [readLinesFrom, readLines]
  | cons c tail ih =>
    rw [List.cons_append, List.cons_append, readLinesFrom, readLinesFrom]
    split
    · rw [ih, List.cons_append]
    · rw [ih]

/-- What stands after the end of a line is read as on its own. -/
theorem readLines_append {rest : List Char} (h : EndsLine text) :
    readLines (text ++ rest) = readLines text ++ readLines rest := by
  cases text using List.reverseRecOn with
  | nil => rfl
  | append_singleton body c =>
    obtain rfl := h c (by rw [List.getLast?_concat]; rfl)
    rw [List.append_assoc, List.singleton_append, readLines, readLinesFrom_append_cons]
    rfl

namespace BenchSummary

variable {values : List Nat} {m : Nat}

/-- The values that are read from a log. -/
def valuesOf (log : String) : List Nat := (readLines log.toList).filterMap measurement?

/-- The summary of a log is that of the values that are read from it. -/
theorem ofLog_eq (log : String) : ofLog log = ofValues (valuesOf log) := by
  rw [ofLog, ofLines, linesOf, valuesOf, readLines, filterMap_readLinesFrom,
    modifyHead_nil_append]

/-- Values are counted and added up from where a summary is, which stops at the largest word. -/
theorem foldl_add {count total : Nat} : values.foldl add ⟨count, min total (wordLimit - 1)⟩ =
    ⟨count + values.length, min (total + values.sum) (wordLimit - 1)⟩ := by
  induction values generalizing count total with
  | nil => simp
  | cons v rest ih =>
    have hadd : add ⟨count, min total (wordLimit - 1)⟩ v =
        ⟨count + 1, min (total + v) (wordLimit - 1)⟩ := by
      simp only [add, mk.injEq, true_and]
      omega
    rw [List.foldl_cons, hadd, ih, List.length_cons, List.sum_cons]
    simp only [mk.injEq]
    omega

/-- Values are counted, and added up unless the sum is too large for a word. -/
theorem ofValues_eq (values : List Nat) :
    ofValues values = ⟨values.length, min values.sum (wordLimit - 1)⟩ := by
  have hempty : empty = ⟨0, min 0 (wordLimit - 1)⟩ := rfl
  rw [ofValues, hempty, foldl_add, Nat.zero_add, Nat.zero_add]

/-- The summary of values does not depend on their order. -/
theorem ofValues_perm {values' : List Nat} (h : values.Perm values') :
    ofValues values = ofValues values' := by
  rw [ofValues_eq, ofValues_eq, h.length_eq, h.sum_eq]

/-- The summaries of the parts of a list give the summary of the list. -/
theorem ofValues_append {values' : List Nat} : ofValues (values ++ values') =
    ⟨(ofValues values).count + (ofValues values').count,
      min ((ofValues values).total + (ofValues values').total) (wordLimit - 1)⟩ := by
  rw [ofValues_eq, ofValues_eq, ofValues_eq, List.length_append, List.sum_append]
  simp only [mk.injEq, true_and]
  omega

/-- The mean of values is no larger than all of them. -/
theorem average_ofValues_le (h : ∀ v ∈ values, v ≤ m) : (ofValues values).average ≤ m := by
  have hsum : values.sum ≤ values.length * m := List.sum_le_card_nsmul values m h
  rw [ofValues_eq, average]
  refine Nat.div_le_of_le_mul ?_
  calc min values.sum (wordLimit - 1) ≤ values.sum := Nat.min_le_left _ _
    _ ≤ values.length * m := hsum
    _ ≤ max values.length 1 * m := Nat.mul_le_mul_right m (Nat.le_max_left _ _)

/-- The mean of values is no smaller than all of them, if there are any and their sum is a word. -/
theorem le_average_ofValues (hne : values ≠ []) (hsum : values.sum < wordLimit)
    (h : ∀ v ∈ values, m ≤ v) : m ≤ (ofValues values).average := by
  have hle : values.length * m ≤ values.sum := List.card_nsmul_le_sum values m h
  have hlength : 0 < values.length := List.length_pos_of_ne_nil hne
  rw [ofValues_eq, average]
  dsimp only
  rw [Nat.max_eq_left (Nat.succ_le_of_lt hlength), Nat.min_eq_left (by omega),
    Nat.le_div_iff_mul_le hlength, Nat.mul_comm]
  exact hle

/-- Two values whose sum is no word have a mean that is less than both. -/
example : (ofValues [wordLimit - 1, wordLimit - 1]).average < wordLimit - 1 := by decide

/-- What the summary of a log says. -/
structure SummarizesLog (log : String) : Prop where
  /-- A log that is given as bytes has a summary. -/
  ofBytes?_eq : ofBytes? log.toUTF8 = some (ofLog log)
  /-- The lines from which a value is read are counted. -/
  count_eq : (ofLog log).count =
    (readLines log.toList).countP fun line => (measurement? line).isSome
  /-- The values that are read are added up, but not beyond the largest word. -/
  total_eq : (ofLog log).total = min (valuesOf log).sum (wordLimit - 1)
  /-- The same lines in another order have the same summary. -/
  ofLog_eq_of_perm : ∀ other : String, (readLines other.toList).Perm (readLines log.toList) →
    ofLog other = ofLog log
  /-- What is put behind the last line adds its own summary. -/
  ofLog_append : EndsLine log.toList → ∀ other, ofLog (log ++ other) =
    ⟨(ofLog log).count + (ofLog other).count,
      min ((ofLog log).total + (ofLog other).total) (wordLimit - 1)⟩
  /-- The mean is the sum divided by the number of values, rounded down, and zero without values. -/
  average_eq : (ofLog log).average =
    min (valuesOf log).sum (wordLimit - 1) / max (valuesOf log).length 1
  /-- The mean is not larger than all values. -/
  average_le : ∀ m, (∀ v ∈ valuesOf log, v ≤ m) → (ofLog log).average ≤ m
  /-- The mean is not smaller than all values, if there are any and their sum is a word. -/
  le_average : valuesOf log ≠ [] → (valuesOf log).sum < wordLimit →
    ∀ m, (∀ v ∈ valuesOf log, m ≤ v) → m ≤ (ofLog log).average

/-- Every log is summarized. -/
theorem summarizesLog (log : String) : SummarizesLog log where
  ofBytes?_eq := by
    have hvalid : log.toUTF8.IsValidUTF8 := log.isValidUTF8
    rw [ofBytes?, String.fromUTF8?, dif_pos hvalid]
    rfl
  count_eq := by
    rw [ofLog_eq, ofValues_eq, valuesOf, List.length_filterMap_eq_countP]
  total_eq := by rw [ofLog_eq, ofValues_eq]
  ofLog_eq_of_perm other hperm := by
    rw [ofLog_eq, ofLog_eq]
    exact ofValues_perm (hperm.filterMap measurement?)
  ofLog_append hends other := by
    have hvalues : valuesOf (log ++ other) = valuesOf log ++ valuesOf other := by
      rw [valuesOf, String.toList_append, readLines_append hends, List.filterMap_append]
      rfl
    rw [ofLog_eq, hvalues, ofValues_append, ← ofLog_eq, ← ofLog_eq]
  average_eq := by rw [ofLog_eq, ofValues_eq, average]
  average_le m h := by
    rw [ofLog_eq]
    exact average_ofValues_le h
  le_average hne hsum m h := by
    rw [ofLog_eq]
    exact le_average_ofValues hne hsum h

end BenchSummary

end HeapDomains
