import HeapDomains.Json.Collections
import HeapDomains.Json.Reader
import HeapDomains.Program.Basic

/-!
# Programs as JSON

How programs are written as JSON and read back. Marks are left out where there are none; reading
also fills in the plain flavor, a pointer that is not global, and what is usual for a pointer value.
A program that contradicts itself is refused.
-/

namespace HeapDomains

namespace Function

/-- A function as JSON. -/
def json (f : Function) : Json :=
  .obj [("id", f.id.json), ("name", .str f.name), ("entry_block", f.entryBlock.json)]

/-- Reads a function. -/
def reader : JsonReader Function :=
  (Function.mk <$> .required "id" (.id _) <*> .required "name" .string <*>
    .required "entry_block" (.id _) : Fields Function).reader

end Function

namespace CallTarget

/-- A call target as JSON. -/
def json : CallTarget → Json
  | direct callee => .obj [("direct", callee.json)]
  | indirect => .str "indirect"

/-- Reads a call target from a draft that was read in full. -/
def reader : JsonReader CallTarget
  | _, .string s =>
    JsonReader.named (fun name => if name = "indirect" then some indirect else none) s
  | source, .object [(key, value)] _ => do
    match ← JsonReader.quoted key, value with
    | "direct", value => return direct (← JsonReader.id _ source value)
    | "indirect", .null | "indirect", .object [] .closed => return indirect
    | _, _ => throw .shape
  | _, _ => .error .shape

end CallTarget

namespace CallFlavor

/-- How control comes back from a call, as JSON. -/
def json : CallFlavor → Json
  | plain => .str "plain"
  | invoke normalDest => .obj [("invoke", .obj [("normal_dest", normalDest.json)])]

/-- The fields of a call whose normal return continues at a block. -/
def invokeFields : Fields CallFlavor := invoke <$> .required "normal_dest" (.id _)

/-- Reads how control comes back from a call, from a draft that was read in full. -/
def reader : JsonReader CallFlavor
  | _, .string s => JsonReader.named (fun name => if name = "plain" then some plain else none) s
  | source, .object [(key, value)] _ => do
    match ← JsonReader.quoted key, value with
    | "invoke", value => invokeFields.reader source value
    | "plain", .null | "plain", .object [] .closed => return plain
    | _, _ => throw .shape
  | _, _ => .error .shape

end CallFlavor

namespace InstKind

/-- What an instruction does, as JSON. -/
def json : InstKind → Json
  | call target flavor =>
    .obj [("op", .str "call"), ("target", target.json), ("flavor", flavor.json)]
  | alloca => .obj [("op", .str "alloca")]
  | store pointer pointerIsGlobal =>
    .obj [("op", .str "store"), ("pointer", pointer.json),
      ("pointer_is_global", .bool pointerIsGlobal)]
  | getElementPtr => .obj [("op", .str "get_element_ptr")]
  | load => .obj [("op", .str "load")]
  | other => .obj [("op", .str "other")]

/-- The fields of an instruction that does what the tag names. -/
def fields? : String → Option (Fields InstKind)
  | "call" => some (call <$> .required "target" CallTarget.reader <*>
      .optional "flavor" CallFlavor.reader .plain)
  | "alloca" => some (.nothing alloca)
  | "store" => some (store <$> .required "pointer" (.id _) <*>
      .optional "pointer_is_global" .bool false)
  | "get_element_ptr" => some (.nothing getElementPtr)
  | "load" => some (.nothing load)
  | "other" => some (.nothing other)
  | _ => none

/-- Reads what an instruction does. -/
def reader : JsonReader InstKind := .tagged "op" fields?

end InstKind

namespace Mark

/-- The name of a mark. -/
def name : Mark → String
  | boundaryCrossing => "boundary_crossing"
  | smartPointer => "smart_pointer"
  | smartPointerShadow => "smart_pointer_shadow"
  | markerLoad => "marker_load"

/-- The mark with a name. -/
def ofName? : String → Option Mark
  | "boundary_crossing" => some boundaryCrossing
  | "smart_pointer" => some smartPointer
  | "smart_pointer_shadow" => some smartPointerShadow
  | "marker_load" => some markerLoad
  | _ => none

end Mark

namespace Instruction

/-- An instruction as JSON. -/
def json (i : Instruction) : Json :=
  .obj <| [("id", i.id.json), ("function", i.function.json), ("block", i.block.json),
    ("kind", i.kind.json)] ++
    if i.marks.isEmpty then [] else [("marks", .list (fun m => .str m.name) i.marks)]

/-- Reads an instruction. -/
def reader : JsonReader Instruction :=
  (Instruction.mk <$> .required "id" (.id _) <*> .required "function" (.id _) <*>
    .required "block" (.id _) <*> .required "kind" InstKind.reader <*>
    .optional "marks" (.list (.name Mark.ofName?)) [] : Fields Instruction).reader

end Instruction

namespace PointerValue

/-- A pointer value as JSON. -/
def json (v : PointerValue) : Json :=
  .obj [("id", v.id.json), ("defined_by", .option Id.json v.definedBy),
    ("users", .list Id.json v.users), ("top_level", .bool v.topLevel)]

/-- Reads a pointer value. -/
def reader : JsonReader PointerValue :=
  (PointerValue.mk <$> .required "id" (.id _) <*> .optional "defined_by" (.option (.id _)) none <*>
    .optional "users" (.list (.id _)) [] <*> .optional "top_level" .bool true :
    Fields PointerValue).reader

end PointerValue

namespace ProgramParts

/-- The parts of a program as JSON. -/
def json (p : ProgramParts) : Json :=
  .obj [("functions", .list Function.json p.functions),
    ("instructions", .list Instruction.json p.instructions),
    ("pointer_values", .list PointerValue.json p.pointerValues)]

/-- Reads the parts of a program. -/
def reader : JsonReader ProgramParts :=
  (ProgramParts.mk <$> .required "functions" (.list Function.reader) <*>
    .required "instructions" (.list Instruction.reader) <*>
    .optional "pointer_values" (.list PointerValue.reader) [] : Fields ProgramParts).reader

end ProgramParts

namespace Program

/-- A program as JSON. -/
def json (p : Program) : Json := p.toProgramParts.json

/-- Reads a program. -/
def reader : JsonReader Program := fun source j => do
  match ofParts (← ProgramParts.reader source j) with
  | .ok p => return p
  | .error violation => throw (.rejected violation)

end Program

end HeapDomains
