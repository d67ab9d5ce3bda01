import HeapDomains.Program.Basic
import HeapDomains.Proofs.Except
import Mathlib.Data.List.Nodup

/-!
# Which parts make a program

The parts of a program are scanned once: the functions in order, then the instructions in order.
`ProgramParts.FirstOffence` says what the scan stops at without speaking of a scan, as a split of a
list at the entity where the offence is. The scan of the model carries the numbers it has seen;
`functionOffence?_eq` and `instructionOffence?_eq` turn it into a `firstFailure?`, whose test of an
entity sees the entities before it. What it means for a `firstFailure?` to be found, or not to be,
then gives `ProgramParts.offence?_eq_some_iff` and `ProgramParts.offence?_eq_none_iff`.
-/

namespace HeapDomains

/-- What is wrong with a function that comes after others: one of them has its number. -/
def Function.offenceAfter? (done : List Function) (f : Function) : Option InvariantViolation :=
  if done.any (·.id == f.id) then some (.duplicateFunction f.id) else none

/-- What is wrong with an instruction that comes after others: it belongs to no declared function,
or one of the others has its number. -/
def Instruction.offenceAfter? (declared : List FunctionId) (done : List Instruction)
    (inst : Instruction) : Option InvariantViolation :=
  if !declared.contains inst.function then some (.unknownFunction inst.function)
  else if done.any (·.id == inst.id) then some (.duplicateInstruction inst.id)
  else none

/-- Nothing is wrong with a function whose number is new. -/
theorem Function.offenceAfter?_eq_none_iff {done : List Function} {f : Function} :
    f.offenceAfter? done = none ↔ f.id ∉ done.map (·.id) := by
  simp [offenceAfter?]

/-- A function whose number is taken shares it. -/
theorem Function.offenceAfter?_eq_some_iff {done : List Function} {f : Function}
    {violation : InvariantViolation} : f.offenceAfter? done = some violation ↔
      f.id ∈ done.map (·.id) ∧ violation = .duplicateFunction f.id := by
  have htaken : (done.any fun x => x.id == f.id) = true ↔ f.id ∈ done.map (·.id) := by simp
  rw [offenceAfter?, ← htaken]
  split <;> simp [*, eq_comm]

/-- Nothing is wrong with an instruction of a declared function whose number is new. -/
theorem Instruction.offenceAfter?_eq_none_iff {declared : List FunctionId}
    {done : List Instruction} {inst : Instruction} :
    inst.offenceAfter? declared done = none ↔
      inst.function ∈ declared ∧ inst.id ∉ done.map (·.id) := by
  by_cases hdeclared : inst.function ∈ declared
  · simp [offenceAfter?, hdeclared]
  · simp [offenceAfter?, hdeclared]

/-- An instruction of no declared function names that function, and only one of a declared function
whose number is taken shares it. -/
theorem Instruction.offenceAfter?_eq_some_iff {declared : List FunctionId}
    {done : List Instruction} {inst : Instruction} {violation : InvariantViolation} :
    inst.offenceAfter? declared done = some violation ↔
      (inst.function ∉ declared ∧ violation = .unknownFunction inst.function) ∨
      (inst.function ∈ declared ∧ inst.id ∈ done.map (·.id) ∧
        violation = .duplicateInstruction inst.id) := by
  have htaken : (done.any fun x => x.id == inst.id) = true ↔ inst.id ∈ done.map (·.id) := by simp
  rw [offenceAfter?, ← htaken]
  by_cases hdeclared : inst.function ∈ declared
  · rw [if_neg (by simp [hdeclared])]
    split <;> simp [*, eq_comm]
  · rw [if_pos (by simp [hdeclared]), Option.some.injEq, eq_comm]
    simp [hdeclared]

namespace ProgramParts

/-- Some instructions make no trouble among given parts: each belongs to a function that is
declared, and no two have the same number. -/
structure Admits (parts : ProgramParts) (instructions : List Instruction) : Prop where
  /-- The function of each instruction is declared. -/
  declared : ∀ inst ∈ instructions, inst.function ∈ parts.functions.map (·.id)
  /-- The numbers of the instructions differ. -/
  nodup : (instructions.map (·.id)).Nodup

/-- A violation is the first offence among the parts. -/
inductive FirstOffence (parts : ProgramParts) : InvariantViolation → Prop
  /-- A function has the number of an earlier one; the numbers of the functions before it differ. -/
  | duplicateFunction {before after : List Function} {f : Function}
      (split : parts.functions = before ++ f :: after) (clean : (before.map (·.id)).Nodup)
      (taken : f.id ∈ before.map (·.id)) : FirstOffence parts (.duplicateFunction f.id)
  /-- An instruction belongs to no declared function; the functions and the instructions before it
  make no trouble. -/
  | unknownFunction {before after : List Instruction} {inst : Instruction}
      (functions : (parts.functions.map (·.id)).Nodup)
      (split : parts.instructions = before ++ inst :: after) (clean : parts.Admits before)
      (missing : inst.function ∉ parts.functions.map (·.id)) :
      FirstOffence parts (.unknownFunction inst.function)
  /-- An instruction has the number of an earlier one and belongs to a declared function; the
  functions and the instructions before it make no trouble. -/
  | duplicateInstruction {before after : List Instruction} {inst : Instruction}
      (functions : (parts.functions.map (·.id)).Nodup)
      (split : parts.instructions = before ++ inst :: after) (clean : parts.Admits before)
      (declared : inst.function ∈ parts.functions.map (·.id))
      (taken : inst.id ∈ before.map (·.id)) :
      FirstOffence parts (.duplicateInstruction inst.id)

/-! ## The scan as a first failure -/

/-- The functions are scanned by the numbers of those before them. -/
theorem functionOffence?_eq {seen : List FunctionId} (done : List Function)
    {functions : List Function} (hseen : ∀ id, id ∈ seen ↔ id ∈ done.map (·.id)) :
    functionOffence? seen functions = firstFailure? Function.offenceAfter? done functions := by
  induction functions generalizing seen done with
  | nil => rfl
  | cons f rest ih =>
    have hrest := ih (done ++ [f]) (fun id => by simp [hseen, or_comm] : ∀ id,
      id ∈ f.id :: seen ↔ id ∈ (done ++ [f]).map (·.id))
    rw [functionOffence?, firstFailure?, hrest]
    split
    · rename_i htaken
      rw [Function.offenceAfter?_eq_some_iff.2 ⟨(hseen f.id).1 htaken, rfl⟩, Option.some_or]
    · rename_i hnew
      rw [Function.offenceAfter?_eq_none_iff.2 ((hseen f.id).not.1 hnew), Option.none_or]

/-- The instructions are scanned by the declared functions and the numbers of those before them. -/
theorem instructionOffence?_eq {declared : List FunctionId} {seen : List InstId}
    (done : List Instruction) {instructions : List Instruction}
    (hseen : ∀ id, id ∈ seen ↔ id ∈ done.map (·.id)) :
    instructionOffence? declared seen instructions =
      firstFailure? (Instruction.offenceAfter? declared) done instructions := by
  induction instructions generalizing seen done with
  | nil => rfl
  | cons inst rest ih =>
    have hrest := ih (done ++ [inst]) (fun id => by simp [hseen, or_comm] : ∀ id,
      id ∈ inst.id :: seen ↔ id ∈ (done ++ [inst]).map (·.id))
    rw [instructionOffence?, firstFailure?, hrest]
    split
    · rename_i hmissing
      rw [Instruction.offenceAfter?_eq_some_iff.2 (.inl ⟨hmissing, rfl⟩), Option.some_or]
    · rename_i hdeclared
      have hdeclared := not_not.1 hdeclared
      split
      · rename_i htaken
        rw [Instruction.offenceAfter?_eq_some_iff.2
          (.inr ⟨hdeclared, (hseen inst.id).1 htaken, rfl⟩), Option.some_or]
      · rename_i hnew
        rw [Instruction.offenceAfter?_eq_none_iff.2 ⟨hdeclared, (hseen inst.id).not.1 hnew⟩,
          Option.none_or]

/-- The offence among the parts is the first failure among the functions, and without one there that
among the instructions. -/
theorem offence?_eq {parts : ProgramParts} : parts.offence? =
    (firstFailure? Function.offenceAfter? [] parts.functions).or
      (firstFailure? (Instruction.offenceAfter? (parts.functions.map (·.id))) []
        parts.instructions) := by
  rw [offence?, functionOffence?_eq [] (by simp), instructionOffence?_eq [] (by simp)]
  cases firstFailure? Function.offenceAfter? [] parts.functions with
  | none => rfl
  | some violation => rfl

/-! ## What the scan finds -/

/-- No function fails when the numbers of the functions differ. -/
theorem firstFailure?_function_eq_none_iff {functions : List Function} :
    firstFailure? Function.offenceAfter? [] functions = none ↔
      (functions.map (·.id)).Nodup := by
  have hcheck : ∀ done (f : Function),
      f.offenceAfter? done = none ↔ True ∧ f.id ∉ done.map (·.id) :=
    fun done f => by rw [Function.offenceAfter?_eq_none_iff, true_and]
  rw [firstFailure?_eq_none_iff_nodup hcheck]
  simp

variable {parts : ProgramParts} {violation : InvariantViolation}

/-- No instruction fails when the instructions make no trouble. -/
theorem firstFailure?_instruction_eq_none_iff {instructions : List Instruction} :
    firstFailure? (Instruction.offenceAfter? (parts.functions.map (·.id))) [] instructions = none ↔
      parts.Admits instructions := by
  rw [firstFailure?_eq_none_iff_nodup fun _ _ => Instruction.offenceAfter?_eq_none_iff]
  exact ⟨fun h => ⟨h.1, h.2⟩, fun h => ⟨h.declared, h.nodup⟩⟩

/-- Parts have no offence when no two functions and no two instructions share a number and every
instruction belongs to a declared function. -/
theorem offence?_eq_none_iff : parts.offence? = none ↔
    (parts.functions.map (·.id)).Nodup ∧ parts.Admits parts.instructions := by
  rw [offence?_eq, Option.or_eq_none_iff, firstFailure?_function_eq_none_iff,
    firstFailure?_instruction_eq_none_iff]

/-- The offence that is found among the parts is the first one. -/
theorem offence?_eq_some_iff : parts.offence? = some violation ↔ parts.FirstOffence violation := by
  rw [offence?_eq, Option.or_eq_some_iff, firstFailure?_eq_some_iff, firstFailure?_eq_some_iff,
    firstFailure?_function_eq_none_iff]
  simp only [firstFailure?_function_eq_none_iff, firstFailure?_instruction_eq_none_iff,
    List.nil_append]
  constructor
  · rintro (⟨before, f, after, hsplit, hclean, hf⟩ | ⟨hnodup, before, inst, after, hsplit, hclean,
      hinst⟩)
    · obtain ⟨htaken, rfl⟩ := Function.offenceAfter?_eq_some_iff.1 hf
      exact .duplicateFunction hsplit hclean htaken
    · obtain ⟨hmissing, rfl⟩ | ⟨hdeclared, htaken, rfl⟩ :=
        Instruction.offenceAfter?_eq_some_iff.1 hinst
      · exact .unknownFunction hnodup hsplit hclean hmissing
      · exact .duplicateInstruction hnodup hsplit hclean hdeclared htaken
  · intro h
    cases h with
    | duplicateFunction hsplit hclean htaken =>
      exact .inl ⟨_, _, _, hsplit, hclean,
        Function.offenceAfter?_eq_some_iff.2 ⟨htaken, rfl⟩⟩
    | unknownFunction hnodup hsplit hclean hmissing =>
      exact .inr ⟨hnodup, _, _, _, hsplit, hclean,
        Instruction.offenceAfter?_eq_some_iff.2 (.inl ⟨hmissing, rfl⟩)⟩
    | duplicateInstruction hnodup hsplit hclean hdeclared htaken =>
      exact .inr ⟨hnodup, _, _, _, hsplit, hclean,
        Instruction.offenceAfter?_eq_some_iff.2 (.inr ⟨hdeclared, htaken, rfl⟩)⟩

/-- An instruction whose number is taken and that belongs to no declared function is refused for
the function. -/
example : (⟨[⟨⟨0⟩, "main", ⟨0⟩⟩], [⟨⟨1⟩, ⟨0⟩, ⟨0⟩, .load, []⟩, ⟨⟨1⟩, ⟨9⟩, ⟨0⟩, .load, []⟩], []⟩ :
    ProgramParts).offence? = some (.unknownFunction ⟨9⟩) := by decide

end ProgramParts

namespace Program

variable {parts : ProgramParts} {p : Program} {violation : InvariantViolation}

/-- A program is made of parts without an offence. -/
theorem ofParts_eq_ok_iff : ofParts parts = .ok p ↔ p.toProgramParts = parts := by
  unfold ofParts
  split
  · rename_i other hsome
    refine iff_of_false (by simp) fun hp => ?_
    rw [← hp, p.consistent] at hsome
    simp at hsome
  · obtain ⟨p, hp⟩ := p
    simp [eq_comm]

/-- Parts that make no program are refused with their offence. -/
theorem ofParts_eq_error_iff : ofParts parts = .error violation ↔ parts.offence? = some violation := by
  unfold ofParts
  split
  · rename_i other hsome
    simp [hsome]
  · rename_i hnone
    simp [hnone]

/-- The error of making a program is the offence among the parts. -/
theorem errorOf?_ofParts : errorOf? (ofParts parts) = parts.offence? :=
  Option.ext fun violation => by rw [errorOf?_eq_some_iff, ofParts_eq_error_iff]

end Program

end HeapDomains
