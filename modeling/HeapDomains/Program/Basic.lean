import HeapDomains.Error

/-!
# Programs

A whole program with just enough structure for the analysis: functions with an entry block,
instructions with the marks a front end left on them, and the pointer values that points-to facts
speak about. A `Program` is a `ProgramParts` without a contradiction: `ProgramParts.offence?` names
the first one, and `Program.ofParts` builds the program when there is none. Every lookup is by
number, and numbers are unique.
-/

namespace HeapDomains

/-- A function. -/
structure Function where
  /-- Its number. -/
  id : FunctionId
  /-- Its name. -/
  name : String
  /-- The block it starts with. -/
  entryBlock : BlockId
  deriving DecidableEq

/-- What a call calls. -/
inductive CallTarget where
  /-- One function, known from the instruction. -/
  | direct (callee : FunctionId)
  /-- Whatever a pointer holds when the call is made. -/
  | indirect
  deriving DecidableEq

/-- The function that is known to be called. -/
def CallTarget.callee? : CallTarget → Option FunctionId
  | direct callee => some callee
  | indirect => none

/-- How control comes back from a call. -/
inductive CallFlavor where
  /-- At the next instruction. -/
  | plain
  /-- At the start of a block after a normal return, and elsewhere otherwise. -/
  | invoke (normalDest : BlockId)
  deriving DecidableEq

/-- What an instruction does. -/
inductive InstKind where
  /-- It calls a function. -/
  | call (target : CallTarget) (flavor : CallFlavor)
  /-- It makes a stack slot. -/
  | alloca
  /-- It stores through a pointer. -/
  | store (pointer : ValueId) (pointerIsGlobal : Bool)
  /-- It computes the address of a part of an object. -/
  | getElementPtr
  /-- It loads through a pointer. -/
  | load
  /-- Anything else. -/
  | other
  deriving DecidableEq

/-- What a front end notes about an instruction. -/
inductive Mark where
  /-- The value crosses the boundary between safe and unsafe code. -/
  | boundaryCrossing
  /-- The stack slot is owned by the smart-pointer interface on purpose. -/
  | smartPointer
  /-- The address is that of a shadow field of a smart pointer. -/
  | smartPointerShadow
  /-- The load only keeps a value alive. -/
  | markerLoad
  deriving DecidableEq

/-- An instruction. -/
structure Instruction where
  /-- Its number. -/
  id : InstId
  /-- The function it belongs to. -/
  function : FunctionId
  /-- The block it belongs to. -/
  block : BlockId
  /-- What it does. -/
  kind : InstKind
  /-- What the front end noted about it. -/
  marks : List Mark
  deriving DecidableEq

namespace Instruction

/-- Whether the instruction carries a mark. -/
def hasMark (inst : Instruction) (mark : Mark) : Bool := inst.marks.contains mark

/-- Whether the instruction is a call. -/
def isCall (inst : Instruction) : Bool :=
  match inst.kind with
  | .call .. => true
  | _ => false

/-- Whether the instruction makes a stack slot. -/
def isAlloca (inst : Instruction) : Bool :=
  match inst.kind with
  | .alloca => true
  | _ => false

/-- Whether the value of the instruction crosses the boundary between safe and unsafe code. -/
def crossesBoundary (inst : Instruction) : Bool := inst.hasMark .boundaryCrossing

end Instruction

/-- A call instruction seen as a place from which a function is called. -/
structure CallSite where
  /-- The number of the call instruction. -/
  id : InstId
  /-- The function the call is made from. -/
  function : FunctionId
  /-- The block the call is made from. -/
  block : BlockId
  /-- What is called. -/
  target : CallTarget
  /-- How control comes back. -/
  flavor : CallFlavor
  deriving DecidableEq

/-- The function that is known to be called from a call site. -/
def CallSite.callee? (site : CallSite) : Option FunctionId := site.target.callee?

/-- The call site that an instruction is. -/
def Instruction.callSite? (inst : Instruction) : Option CallSite :=
  match inst.kind with
  | .call target flavor => some ⟨inst.id, inst.function, inst.block, target, flavor⟩
  | _ => none

/-- A pointer-valued program value. -/
structure PointerValue where
  /-- Its number. -/
  id : ValueId
  /-- The instruction that computes it; none for arguments and constants. -/
  definedBy : Option InstId
  /-- The instructions that use it directly. -/
  users : List InstId
  /-- Whether it lives in a register; only such pointers are analysed. -/
  topLevel : Bool
  deriving DecidableEq

/-- The parts of a program before they are checked against each other. -/
structure ProgramParts where
  /-- The functions in the order given. -/
  functions : List Function
  /-- The instructions in the order given. -/
  instructions : List Instruction
  /-- The pointer values in the order given. -/
  pointerValues : List PointerValue
  deriving DecidableEq

namespace ProgramParts

/-- The first function whose number was `seen` before. -/
def functionOffence? (seen : List FunctionId) : List Function → Option InvariantViolation
  | [] => none
  | f :: rest =>
    if f.id ∈ seen then some (.duplicateFunction f.id) else functionOffence? (f.id :: seen) rest

/-- The first instruction that belongs to no declared function or whose number was `seen` before; of
the two, the missing function is named first. -/
def instructionOffence? (declared : List FunctionId) (seen : List InstId) :
    List Instruction → Option InvariantViolation
  | [] => none
  | i :: rest =>
    if i.function ∉ declared then some (.unknownFunction i.function)
    else if i.id ∈ seen then some (.duplicateInstruction i.id)
    else instructionOffence? declared (i.id :: seen) rest

/-- The first contradiction among the parts: functions that share a number come first, then the
instructions in order. -/
def offence? (parts : ProgramParts) : Option InvariantViolation :=
  match functionOffence? [] parts.functions with
  | some violation => some violation
  | none => instructionOffence? (parts.functions.map (·.id)) [] parts.instructions

end ProgramParts

/-- A program: parts without a contradiction. -/
structure Program extends ProgramParts where
  /-- No number is given twice and every instruction belongs to a declared function. -/
  consistent : toProgramParts.offence? = none
  deriving DecidableEq

namespace Program

/-- The program made of given parts, or their first contradiction. -/
def ofParts (parts : ProgramParts) : Except InvariantViolation Program :=
  match h : parts.offence? with
  | some violation => .error violation
  | none => .ok ⟨parts, h⟩

/-- The function with a number. -/
def findFunction? (p : Program) (id : FunctionId) : Option Function :=
  p.functions.find? (fun f => f.id == id)

/-- The function with a number, which has to exist. -/
def function (p : Program) (id : FunctionId) : Except InvariantViolation Function :=
  match p.findFunction? id with
  | some f => .ok f
  | none => .error (.unknownFunction id)

/-- The instruction with a number. -/
def findInstruction? (p : Program) (id : InstId) : Option Instruction :=
  p.instructions.find? (fun i => i.id == id)

/-- The instruction with a number, which has to exist. -/
def instruction (p : Program) (id : InstId) : Except InvariantViolation Instruction :=
  match p.findInstruction? id with
  | some i => .ok i
  | none => .error (.unknownInstruction id)

/-- The call site with a number, which has to be that of a call instruction. -/
def callSite (p : Program) (id : InstId) : Except InvariantViolation CallSite :=
  match p.findInstruction? id with
  | none => .error (.unknownInstruction id)
  | some inst =>
    match inst.callSite? with
    | some site => .ok site
    | none => .error (.notACallSite id)

/-- The instructions that carry a mark, in program order. -/
def instructionsWithMark (p : Program) (mark : Mark) : List Instruction :=
  p.instructions.filter (·.hasMark mark)

end Program

end HeapDomains
