import HeapDomains.Proofs.Decimal
import HeapDomains.Proofs.Yaml.Document
import HeapDomains.Yaml.Value

/-!
# Values of scalars that were written

A number is written as its digits, which stand for the number (`natOfText?_toString`), and a text in
a form in which it is never taken for null (`Form.hasValue`). The fields of a record are found by
their names (`Node.fields?_record`).
-/

namespace HeapDomains.Yaml

variable {text : String} {n : Nat}

/-! ## Numbers -/

/-- The digits of a number stand for the number. -/
theorem digitsNumber?_toDigits (n : Nat) : digitsNumber? 10 (Nat.toDigits 10 n) = some n := by
  have hdigit : ∀ m < 10, hexValue? (Nat.digitChar m) = some m := by decide
  have hpush : ∀ k m, m < 10 → pushDigit? 10 k (Nat.digitChar m) = some (10 * k + m) := by
    intro k m hm
    simp [pushDigit?, hdigit m hm, hm]
  have hfold : (Nat.toDigits 10 n).foldlM (pushDigit? 10) 0 = some n := by
    induction n using Nat.strongRecOn with
    | ind n ih =>
      by_cases hlt : n < 10
      · rw [Nat.toDigits_of_lt_base hlt]
        simpa using hpush 0 n hlt
      · rw [Nat.toDigits_of_base_le (by omega) (by omega), List.foldlM_append,
          ih (n / 10) (by omega)]
        have hlast : 10 * (n / 10) + n % 10 = n := by omega
        simpa [hlast] using hpush (n / 10) (n % 10) (by omega)
  have hne : (Nat.toDigits 10 n).isEmpty = false := by simp
  rw [digitsNumber?, hne, if_neg Bool.false_ne_true, hfold]

/-- A text that starts with a digit other than zero stands for its digits. -/
theorem natOfText?_cons {c : Char} {rest : List Char} (hdigit : c.isDigit = true)
    (hzero : c ≠ '0') : natOfText? (c :: rest) = digitsNumber? 10 (c :: rest) := by
  have hne : ∀ d, d.isDigit = false → c ≠ d := by
    rintro d hd rfl
    rw [hdigit] at hd
    cases hd
  have hsign : dropSign (c :: rest) = c :: rest := by
    simp [dropSign, hne '+' rfl, hne '-' rfl]
  have hpadded : isZeroPadded (c :: rest) = false := by simp [isZeroPadded, hsign, hzero]
  simp [natOfText?, magnitude?, hne '+' rfl, hzero, hpadded]

/-- The digits of a number are met as the number. -/
theorem natOfText?_toString (n : Nat) : natOfText? (toString n).toList = some n := by
  by_cases hn : n = 0
  · subst hn
    rfl
  · have hnumber := digitsNumber?_toDigits n
    have hhead := head?_toDigits hn
    have hdigit : ∀ c ∈ Nat.toDigits 10 n, c.isDigit = true := fun c => isDigit_of_mem_toDigits
    rw [toList_toString]
    cases hchars : Nat.toDigits 10 n with
    | nil => exact absurd hchars Nat.toDigits_ne_nil
    | cons c rest =>
      rw [hchars] at hnumber hhead hdigit
      rw [natOfText?_cons (hdigit c List.mem_cons_self) (by simpa using hhead), hnumber]

/-! ## Null -/

/-- Whether a plain scalar with this text has a value. -/
def HasValue (text : String) : Prop := text ≠ "" ∧ isNullText text = false

/-- A number has a value. -/
theorem hasValue_of_natOfText? (h : natOfText? text.toList = some n) : HasValue text := by
  have hnull : ∀ other ∈ ["", "null", "Null", "NULL", "~"], natOfText? other.toList = none := by
    decide
  have hne : ∀ other ∈ ["", "null", "Null", "NULL", "~"], text ≠ other := by
    rintro other hother rfl
    rw [hnull text hother] at h
    cases h
  constructor
  · exact hne "" List.mem_cons_self
  · rw [isNullText, ← Bool.not_eq_true, List.contains_iff_mem]
    exact fun hmem => hne text (List.mem_cons_of_mem "" hmem) rfl

/-- A text in its form is not taken for null. -/
theorem Form.hasValue (h : (Form.of text).style = .plain) : HasValue text := by
  rcases Form.of_spec text with ⟨hform, -⟩ | ⟨-, -, hclear⟩ | ⟨hform, -⟩ | hform
  · rw [hform] at h
    cases h
  · simp only [isAmbiguous, Bool.or_eq_false_iff] at hclear
    obtain ⟨⟨⟨⟨⟨hempty, hnull⟩, -⟩, -⟩, -⟩, -⟩ := hclear
    refine ⟨?_, hnull⟩
    rintro rfl
    cases hempty
  · rw [hform] at h
    cases h
  · rw [hform] at h
    cases h

/-- A scalar that has a value is read. -/
theorem Node.optional?_scalar {α : Type} {style : ScalarStyle} (read : Node → Option α)
    (h : style = .plain → HasValue text) : (Node.scalar none style text).optional? read =
      (read (Node.scalar none style text)).map some := by
  cases style with
  | plain =>
    obtain ⟨hempty, hnull⟩ := h rfl
    simp [Node.optional?, hempty, hnull]
  | quoted => rfl
  | literal => rfl
  | folded => rfl

/-- The node of a text that is written in its form. -/
def Node.ofForm (text : String) : Node := .scalar none (Form.of text).style text

/-- The node of a text that is written without quotes. -/
def Node.plain (text : String) : Node := .scalar none .plain text

/-- A text is read in whichever form it was written. -/
theorem Node.optional?_ofForm (text : String) :
    (Node.ofForm text).optional? Node.text? = some (some text) := by
  rw [Node.ofForm, Node.optional?_scalar Node.text? Form.hasValue]
  rfl

/-- A number below a limit is read from its digits. -/
theorem Node.optional?_toString {α : Type} {limit : Nat} (make : Nat → α) (h : n < limit) :
    (Node.plain (toString n)).optional? (fun node => (node.nat? limit).map make) =
      some (some (make n)) := by
  have hnumber : (Node.scalar none .plain (toString n)).nat? limit = some n := by
    have htyped : isTyped "int" none .plain = true := rfl
    rw [Node.nat?, if_pos htyped, natOfText?_toString, Option.bind_some, if_pos h]
  have hvalue := hasValue_of_natOfText? (natOfText?_toString n)
  rw [Node.plain, Node.optional?_scalar _ fun _ => hvalue, hnumber]
  rfl

/-- A truth value is read from its text. -/
theorem Node.optional?_boolText (b : Bool) :
    (Node.plain (boolText b)).optional? Node.bool? = some (some b) := by
  cases b <;> rfl

/-! ## Records -/

/-- The node of a record, with plain keys. -/
def Node.record (fields : List (String × Node)) : Node :=
  .mapping (fields.map fun f => (.plain f.1, f.2))

/-- A record is never null. -/
theorem Node.optional?_record {α : Type} (read : Node → Option α) (fields : List (String × Node)) :
    (Node.record fields).optional? read = (read (.record fields)).map some := rfl

/-- The fields of a record are read when their names are expected and differ. -/
theorem Node.fields?_record {names : List String} {fields : List (String × Node)}
    (hnodup : (fields.map (·.1)).Nodup) (hnames : ∀ key ∈ fields.map (·.1), key ∈ names) :
    (Node.record fields).fields? names = some fields := by
  have hfields : (fields.map fun f => (Node.plain f.1, f.2)).mapM
      (fun entry => entry.1.text?.map fun name => (name, entry.2)) = some fields := by
    clear hnodup hnames
    induction fields with
    | nil => rfl
    | cons f fields ih =>
      rw [List.map_cons, List.mapM_cons, ih]
      rfl
  rw [Node.record, Node.fields?]
  change Option.bind (List.mapM (fun entry : Node × Node =>
    entry.1.text?.map fun name => (name, entry.2)) _) _ = _
  rw [hfields]
  exact if_pos ⟨hnodup, hnames⟩

variable {name : String} {node : Node} {fields : List (String × Node)}

/-- The first field of a record has its name. -/
theorem readField_cons_self {α : Type} (read : Node → Option α) :
    readField ((name, node) :: fields) name read = node.optional? read := by
  simp [readField]

/-- A field with another name is passed over. -/
theorem readField_cons_of_ne {α : Type} {other : String} (read : Node → Option α)
    (h : name ≠ other) :
    readField ((other, node) :: fields) name read = readField fields name read := by
  have hother : (name == other) = false := beq_eq_false_iff_ne.2 h
  rw [readField, readField, List.lookup_cons, hother]

end HeapDomains.Yaml
