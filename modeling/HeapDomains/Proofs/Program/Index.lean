import HeapDomains.Proofs.Program
import HeapDomains.Ordered.Map

/-!
# Programs and their indices

A program is usually kept with an index from numbers to positions, which one loop over the parts
builds while it looks for offences. `ProgramParts.index` is that loop and `Locates` the invariant it
keeps: a number leads to a position when the entity there has the number. By the invariant the loop
tests each entity as the scan of the parts does (`TestsAs`), so it stops at the same offence
(`ProgramParts.errorOf?_index`), and what it ends with finds the same entities as a search of the
lists (`Locates.bind_getElem?_eq_find?`).

`ProgramParts.DecidesProgram` says what making a program does with any parts: which are accepted,
what the others are refused with, and what every lookup in the program answers.
-/

namespace HeapDomains

/-! ## Indices -/

section Positions

variable {ε α κ : Type} [Ranked κ]

/-- The index after one more item, which is put in under its key with its position unless there is
something wrong with it. -/
def insertPosition (key : α → κ) (fault? : OrderedMap κ Nat → α → Option ε)
    (index : OrderedMap κ Nat) (entry : α × Nat) : Except ε (OrderedMap κ Nat) :=
  match fault? index entry.1 with
  | some e => .error e
  | none => .ok (index.insert (key entry.1) entry.2)

/-- The positions of items under their keys, or what is wrong with the first item that cannot be put
in. -/
def positions (key : α → κ) (fault? : OrderedMap κ Nat → α → Option ε) (items : List α) :
    Except ε (OrderedMap κ Nat) :=
  items.zipIdx.foldlM (insertPosition key fault?) ∅

/-- An index leads from a key to the position of an entry when the entry has the key. -/
def Locates (key : α → κ) (entries : List (α × Nat)) (index : OrderedMap κ Nat) : Prop :=
  ∀ k i, index.get? k = some i ↔ ∃ a, (a, i) ∈ entries ∧ key a = k

variable {key : α → κ} {fault? : OrderedMap κ Nat → α → Option ε}
  {check : List α → α → Option ε} {entries : List (α × Nat)} {items : List α}
  {index : OrderedMap κ Nat}

/-- Without entries there are no positions. -/
theorem locates_nil : Locates key [] ∅ := by
  intro k i
  simp [show (∅ : OrderedMap κ Nat).get? k = none from rfl]

/-- An index leads nowhere from a key that no entry has. -/
theorem Locates.get?_eq_none_iff (h : Locates key entries index) {k : κ} :
    index.get? k = none ↔ k ∉ (entries.map Prod.fst).map key := by
  rw [Option.eq_none_iff_forall_ne_some, List.map_map]
  constructor
  · intro hnone hk
    obtain ⟨⟨a, i⟩, hmem, rfl⟩ := List.mem_map.1 hk
    exact hnone i ((h _ i).2 ⟨a, hmem, rfl⟩)
  · intro hk i hi
    obtain ⟨a, hmem, rfl⟩ := (h k i).1 hi
    exact hk (List.mem_map.2 ⟨(a, i), hmem, rfl⟩)

/-- An index holds a key when some entry has it. -/
theorem Locates.contains_iff (h : Locates key entries index) {k : κ} :
    index.contains k = true ↔ k ∈ (entries.map Prod.fst).map key := by
  rw [OrderedMap.contains, ← Option.not_isNone, Bool.not_eq_true', ← Bool.not_eq_true,
    Option.isNone_iff_eq_none, h.get?_eq_none_iff, not_not]

/-- An item with a new key is put in with its position. -/
theorem Locates.insert (h : Locates key entries index) {a : α} {i : Nat}
    (hnew : key a ∉ (entries.map Prod.fst).map key) :
    Locates key (entries ++ [(a, i)]) (index.insert (key a) i) := by
  intro k j
  rw [OrderedMap.get?_insert]
  by_cases hk : key a = k
  · subst hk
    -- The only entry with this key is the new one.
    have hother : ∀ b, (b, j) ∈ entries → key b ≠ key a := fun b hb heq =>
      hnew (heq ▸ List.mem_map_of_mem (List.mem_map_of_mem hb))
    rw [if_pos rfl]
    constructor
    · intro hj
      exact ⟨a, by simp [Option.some.inj hj], rfl⟩
    · rintro ⟨b, hb, hkey⟩
      rcases List.mem_append.1 hb with hb | hb
      · exact absurd hkey (hother b hb)
      · rw [(Prod.mk.inj (List.mem_singleton.1 hb)).2]
  · rw [if_neg fun hrank => hk (rank_eq_iff.1 hrank).symm, h k j]
    constructor
    · rintro ⟨b, hb, hkey⟩
      exact ⟨b, List.mem_append_left _ hb, hkey⟩
    · rintro ⟨b, hb, hkey⟩
      rcases List.mem_append.1 hb with hb | hb
      · exact ⟨b, hb, hkey⟩
      · rw [(Prod.mk.inj (List.mem_singleton.1 hb)).1] at hkey
        exact absurd hkey hk

/-- What the loop finds wrong with an item by the index, a test finds by the items that were put in,
and an item that passes it has a new key. -/
structure TestsAs (key : α → κ) (fault? : OrderedMap κ Nat → α → Option ε)
    (check : List α → α → Option ε) : Prop where
  /-- The index tells the same as the items. -/
  fault?_eq : ∀ entries index, Locates key entries index → ∀ a,
    fault? index a = check (entries.map Prod.fst) a
  /-- The key of an item that passes is not that of an item before it. -/
  key_not_mem : ∀ done a, check done a = none → key a ∉ done.map key

namespace TestsAs

/-- A step of the loop keeps an index of the entries so far. -/
theorem locates_insertPosition (ht : TestsAs key fault? check) {entry : α × Nat}
    {index' : OrderedMap κ Nat} (h : Locates key entries index)
    (hstep : insertPosition key fault? index entry = .ok index') :
    Locates key (entries ++ [entry]) index' := by
  rw [insertPosition, ht.fault?_eq entries index h] at hstep
  split at hstep
  · simp at hstep
  · rename_i hnone
    obtain rfl := Except.ok.inj hstep
    exact h.insert (ht.key_not_mem _ _ hnone)

/-- An index that is built leads to the items. -/
theorem locates_positions (ht : TestsAs key fault? check)
    (h : positions key fault? items = .ok index) : Locates key items.zipIdx index :=
  foldlM_invariant (P := Locates key) locates_nil
    (fun _ _ _ _ hlocates hstep => ht.locates_insertPosition hlocates hstep) h

/-- The loop ends with the first item that fails the test. -/
theorem errorOf?_positions (ht : TestsAs key fault? check) :
    errorOf? (positions key fault? items) = firstFailure? check [] items := by
  have hloop : errorOf? (positions key fault? items) =
      firstFailure? (fun done entry => check (done.map Prod.fst) entry.1) [] items.zipIdx := by
    refine errorOf?_foldlM (P := Locates key) ?_ ?_ locates_nil
    · intro done index entry h
      rw [insertPosition, ht.fault?_eq done index h]
      cases check (done.map Prod.fst) entry.1 with
      | none => rfl
      | some e => rfl
    · exact fun done entry index index' h hstep => ht.locates_insertPosition h hstep
  rw [hloop, firstFailure?_map, List.zipIdx_map_fst, List.map_nil]

end TestsAs

/-- An index of items leads from a key to a position when the item there has the key. -/
theorem Locates.get?_eq_some_iff (h : Locates key items.zipIdx index) {k : κ} {i : Nat} :
    index.get? k = some i ↔ ∃ a, items[i]? = some a ∧ key a = k := by
  rw [h k i]
  simp only [List.mk_mem_zipIdx_iff_getElem?]

/-- The item at the position that an index leads to is the one that a search finds. -/
theorem Locates.bind_getElem?_eq_find? [BEq κ] [LawfulBEq κ] (hnodup : (items.map key).Nodup)
    (h : Locates key items.zipIdx index) (k : κ) :
    (index.get? k).bind (fun i => items[i]?) = items.find? (fun a => key a == k) := by
  cases hi : index.get? k with
  | none =>
    rw [Option.bind_none, eq_comm, List.find?_eq_none]
    intro a ha hka
    rw [h.get?_eq_none_iff, List.zipIdx_map_fst] at hi
    exact hi (List.mem_map.2 ⟨a, ha, by simpa using hka⟩)
  | some i =>
    obtain ⟨a, hget, hkey⟩ := h.get?_eq_some_iff.1 hi
    rw [Option.bind_some, hget]
    exact ((find?_eq_some_iff_of_nodup hnodup).2 ⟨List.mem_of_getElem? hget, hkey⟩).symm

end Positions

/-! ## The index of a program -/

/-- Where the entities of a program stand. -/
structure ProgramIndex where
  /-- The positions of the functions under their numbers. -/
  functions : OrderedMap FunctionId Nat
  /-- The positions of the instructions under their numbers. -/
  instructions : OrderedMap InstId Nat

/-- What is wrong with a function once others are in the index. -/
def Function.fault? (index : OrderedMap FunctionId Nat) (f : Function) :
    Option InvariantViolation :=
  if index.contains f.id then some (.duplicateFunction f.id) else none

/-- What is wrong with an instruction once the functions and other instructions are in the index. -/
def Instruction.fault? (functions : OrderedMap FunctionId Nat) (index : OrderedMap InstId Nat)
    (inst : Instruction) : Option InvariantViolation :=
  if !functions.contains inst.function then some (.unknownFunction inst.function)
  else if index.contains inst.id then some (.duplicateInstruction inst.id)
  else none

/-- The function that an index leads to. -/
def ProgramIndex.function? (ix : ProgramIndex) (parts : ProgramParts) (id : FunctionId) :
    Option Function :=
  (ix.functions.get? id).bind fun i => parts.functions[i]?

/-- The instruction that an index leads to. -/
def ProgramIndex.instruction? (ix : ProgramIndex) (parts : ProgramParts) (id : InstId) :
    Option Instruction :=
  (ix.instructions.get? id).bind fun i => parts.instructions[i]?

/-- A function is tested in the loop as it is in the scan. -/
theorem Function.testsAs : TestsAs (·.id) Function.fault? Function.offenceAfter? where
  fault?_eq entries index h f := by
    have htaken : index.contains f.id = (entries.map Prod.fst).any (·.id == f.id) := by
      rw [Bool.eq_iff_iff, h.contains_iff]
      simp
    rw [fault?, offenceAfter?, htaken]
  key_not_mem _ _ := offenceAfter?_eq_none_iff.1

/-- An instruction is tested in the loop as it is in the scan. -/
theorem Instruction.testsAs {declared : List FunctionId} {functions : OrderedMap FunctionId Nat}
    (hdeclared : ∀ id, functions.contains id = true ↔ id ∈ declared) :
    TestsAs (·.id) (Instruction.fault? functions) (Instruction.offenceAfter? declared) where
  fault?_eq entries index h inst := by
    have htaken : index.contains inst.id = (entries.map Prod.fst).any (·.id == inst.id) := by
      rw [Bool.eq_iff_iff, h.contains_iff]
      simp
    have hmissing : functions.contains inst.function = declared.contains inst.function := by
      rw [Bool.eq_iff_iff, hdeclared, List.contains_iff_mem]
    rw [fault?, offenceAfter?, htaken, hmissing]
  key_not_mem _ _ hnone := (offenceAfter?_eq_none_iff.1 hnone).2

namespace ProgramParts

/-- The index of the parts of a program, or the first offence that building it comes to. -/
def index (parts : ProgramParts) : Except InvariantViolation ProgramIndex := do
  let functions ← positions (·.id) Function.fault? parts.functions
  let instructions ← positions (·.id) (Instruction.fault? functions) parts.instructions
  return ⟨functions, instructions⟩

variable {parts : ProgramParts}

/-- The index of the functions holds the numbers that are declared. -/
theorem contains_functions_iff {functions : OrderedMap FunctionId Nat}
    (h : positions (·.id) Function.fault? parts.functions = .ok functions) (id : FunctionId) :
    functions.contains id = true ↔ id ∈ parts.functions.map (·.id) := by
  rw [(Function.testsAs.locates_positions h).contains_iff, List.zipIdx_map_fst]

/-- The loop that builds the index comes to the first offence of the parts. -/
theorem errorOf?_index : errorOf? parts.index = parts.offence? := by
  rw [offence?_eq, ← Function.testsAs.errorOf?_positions]
  refine errorOf?_bind fun functions hfunctions => ?_
  have ht := Instruction.testsAs (contains_functions_iff hfunctions)
  -- Nothing fails after the second loop.
  have hreturn : ∀ instructions,
      positions (·.id) (Instruction.fault? functions) parts.instructions = .ok instructions →
        errorOf? (.ok ⟨functions, instructions⟩ : Except InvariantViolation ProgramIndex) = none :=
    fun _ _ => rfl
  rw [← ht.errorOf?_positions]
  exact (errorOf?_bind hreturn).trans Option.or_none

/-- An index that is built leads to the functions and to the instructions. -/
theorem locates_of_index {ix : ProgramIndex} (h : parts.index = .ok ix) :
    Locates (·.id) parts.functions.zipIdx ix.functions ∧
      Locates (·.id) parts.instructions.zipIdx ix.instructions := by
  obtain ⟨functions, hfunctions, hrest⟩ := bind_eq_ok.1 h
  obtain ⟨instructions, hinstructions, hix⟩ := bind_eq_ok.1 hrest
  obtain rfl := Except.ok.inj hix
  have ht := Instruction.testsAs (contains_functions_iff hfunctions)
  exact ⟨Function.testsAs.locates_positions hfunctions, ht.locates_positions hinstructions⟩

end ProgramParts

/-! ## Making a program -/

/-- The only item with a key is the one item that is left when all others are dropped. -/
theorem filter_eq_singleton_iff_of_nodup {α κ : Type} [BEq κ] [LawfulBEq κ] {key : α → κ}
    {items : List α} (hnodup : (items.map key).Nodup) {k : κ} {a : α} :
    items.filter (fun b => key b == k) = [a] ↔ a ∈ items ∧ key a = k := by
  have hmem : ∀ b, b ∈ items.filter (fun b => key b == k) ↔ b ∈ items ∧ key b = k := by simp
  constructor
  · intro h
    exact (hmem a).1 (h ▸ List.mem_singleton_self a)
  · rintro ⟨ha, hk⟩
    -- Both lists have no repetition and the same members.
    refine List.perm_singleton.1 ((List.perm_ext_iff_of_nodup ?_ (List.nodup_singleton a)).2 ?_)
    · exact (hnodup.of_map key).filter _
    · intro b
      rw [hmem, List.mem_singleton]
      constructor
      · rintro ⟨hb, hkb⟩
        exact List.inj_on_of_nodup_map hnodup hb ha (hkb.trans hk.symm)
      · rintro rfl
        exact ⟨ha, hk⟩

/-- The lookups of a program answer for given parts. -/
structure Program.AnswersFor (p : Program) (parts : ProgramParts) : Prop where
  /-- The program has the parts as they were given. -/
  parts_eq : p.toProgramParts = parts
  /-- The loop over the parts builds an index that leads from each number to the position of the
  entity that has it, and what is found through it is what the program finds. -/
  indexed : ∃ ix, parts.index = .ok ix ∧
    (∀ id i, ix.functions.get? id = some i ↔ ∃ f, parts.functions[i]? = some f ∧ f.id = id) ∧
    (∀ id i, ix.instructions.get? id = some i ↔
      ∃ inst, parts.instructions[i]? = some inst ∧ inst.id = id) ∧
    (∀ id, ix.function? parts id = p.findFunction? id) ∧
    ∀ id, ix.instruction? parts id = p.findInstruction? id
  /-- A function is found under a number when it is the only one that has it. -/
  function_ok : ∀ id f, p.function id = .ok f ↔ parts.functions.filter (·.id == id) = [f]
  /-- Otherwise there is none, and the violation says so. -/
  function_error : ∀ id violation, p.function id = .error violation ↔
    violation = .unknownFunction id ∧ ∀ f ∈ parts.functions, f.id ≠ id
  /-- An instruction is found under a number when it is the only one that has it. -/
  found : ∀ id inst, p.findInstruction? id = some inst ↔
    parts.instructions.filter (·.id == id) = [inst]
  /-- Otherwise there is none. -/
  not_found : ∀ id, p.findInstruction? id = none ↔ ∀ inst ∈ parts.instructions, inst.id ≠ id
  /-- The lookup that may fail finds the same instruction. -/
  instruction_ok : ∀ id inst, p.instruction id = .ok inst ↔
    parts.instructions.filter (·.id == id) = [inst]
  /-- It fails when there is none, and the violation says so. -/
  instruction_error : ∀ id violation, p.instruction id = .error violation ↔
    violation = .unknownInstruction id ∧ ∀ inst ∈ parts.instructions, inst.id ≠ id
  /-- A call site is found under the number of a call, with the function, the block, the target and
  the flavor of the call. -/
  callSite_ok : ∀ id site, p.callSite id = .ok site ↔
    ∃ inst target flavor, parts.instructions.filter (·.id == id) = [inst] ∧
      inst.kind = .call target flavor ∧
      site = ⟨id, inst.function, inst.block, target, flavor⟩
  /-- Otherwise the violation says whether there is no instruction or it is not a call. -/
  callSite_error : ∀ id violation, p.callSite id = .error violation ↔
    (violation = .unknownInstruction id ∧ ∀ inst ∈ parts.instructions, inst.id ≠ id) ∨
    (violation = .notACallSite id ∧ ∃ inst, parts.instructions.filter (·.id == id) = [inst] ∧
      ∀ target flavor, inst.kind ≠ .call target flavor)

/-- Making a program decides about its parts. -/
structure ProgramParts.DecidesProgram (parts : ProgramParts) : Prop where
  /-- There is a program when no two functions and no two instructions share a number and every
  instruction belongs to a declared function. -/
  accepts : (∃ p, Program.ofParts parts = .ok p) ↔
    (parts.functions.map (·.id)).Nodup ∧ (parts.instructions.map (·.id)).Nodup ∧
      ∀ inst ∈ parts.instructions, ∃ f ∈ parts.functions, f.id = inst.function
  /-- Other parts are refused with their first offence. -/
  refuses : ∀ violation, Program.ofParts parts = .error violation ↔ parts.FirstOffence violation
  /-- The loop that builds the index refuses the same parts with the same offence. -/
  index_refuses : ∀ violation, parts.index = .error violation ↔
    Program.ofParts parts = .error violation
  /-- The program that is made answers for the parts. -/
  answers : ∀ p, Program.ofParts parts = .ok p → p.AnswersFor parts

namespace Program

variable {p : Program} {id : InstId}

/-- The one function with a number is the function of the program that has it. -/
theorem filter_functions_iff {F : FunctionId} {f : Function} :
    p.functions.filter (·.id == F) = [f] ↔ f ∈ p.functions ∧ f.id = F :=
  filter_eq_singleton_iff_of_nodup p.admits.1

/-- The one instruction with a number is the instruction of the program that has it. -/
theorem filter_instructions_iff {inst : Instruction} :
    p.instructions.filter (·.id == id) = [inst] ↔ inst ∈ p.instructions ∧ inst.id = id :=
  filter_eq_singleton_iff_of_nodup p.admits.2.nodup

/-- A program answers for its own parts. -/
theorem answersFor (p : Program) : p.AnswersFor p.toProgramParts where
  parts_eq := rfl
  indexed := by
    obtain ⟨ix, hix⟩ := errorOf?_eq_none_iff.1 (ProgramParts.errorOf?_index.trans p.consistent)
    obtain ⟨hfunctions, hinstructions⟩ := ProgramParts.locates_of_index hix
    exact ⟨ix, hix, fun id i => hfunctions.get?_eq_some_iff,
      fun id i => hinstructions.get?_eq_some_iff,
      fun id => hfunctions.bind_getElem?_eq_find? p.admits.1 id,
      fun id => hinstructions.bind_getElem?_eq_find? p.admits.2.nodup id⟩
  function_ok id f := by rw [function_eq_ok_iff, filter_functions_iff]
  function_error id violation := by
    rw [function_eq_error_iff]
    simp
  found id inst := by rw [findInstruction?_eq_some_iff, filter_instructions_iff]
  not_found id := findInstruction?_eq_none_iff
  instruction_ok id inst := by rw [instruction_eq_ok_iff, filter_instructions_iff]
  instruction_error id violation := by rw [instruction_eq_error_iff, not_isInstruction_iff]
  callSite_ok id site := by simp only [callSite_eq_ok_iff, filter_instructions_iff]
  callSite_error id violation := by
    simp only [callSite_eq_error_iff_or, filter_instructions_iff]

end Program

/-- Any parts are accepted when they contradict each other nowhere and are refused with their first
offence otherwise, and every lookup in an accepted program finds the one entity with the number or
fails with the violation that says there is none. -/
theorem ProgramParts.decidesProgram (parts : ProgramParts) : parts.DecidesProgram where
  accepts := by
    rw [← errorOf?_eq_none_iff, Program.errorOf?_ofParts, offence?_eq_none_iff]
    constructor
    · rintro ⟨hfunctions, hadmits⟩
      exact ⟨hfunctions, hadmits.nodup, fun inst hinst => by
        simpa using hadmits.declared inst hinst⟩
    · rintro ⟨hfunctions, hnodup, hdeclared⟩
      exact ⟨hfunctions, ⟨fun inst hinst => by simpa using hdeclared inst hinst, hnodup⟩⟩
  refuses violation := by rw [Program.ofParts_eq_error_iff, offence?_eq_some_iff]
  index_refuses violation := by
    rw [← errorOf?_eq_some_iff, errorOf?_index, Program.ofParts_eq_error_iff]
  answers p hp := by
    rw [← Program.ofParts_eq_ok_iff.1 hp]
    exact p.answersFor

end HeapDomains
