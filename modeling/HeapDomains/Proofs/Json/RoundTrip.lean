import HeapDomains.Facts.Json
import HeapDomains.Program.Json
import HeapDomains.Proofs.Json.Reader

/-!
# Programs and facts are read back

What is written for a program and for the facts about it is read back, in both written forms
(`readText_json`). Every kind of record has its lemma, which says how many levels of lists and
objects the record needs.
-/

namespace HeapDomains

open Fields JsonReader

variable {levels : Nat}

/-! ## Programs -/

/-- A function is read back. -/
theorem Function.reads_json (f : Function) : Function.reader.Reads (levels + 1) f.json f :=
  reads_reader
    ((((reads_field rfl (reads_id f.id)).map Function.mk).seq
      (reads_field rfl (reads_string f.name))).seq
      (reads_field rfl (reads_id f.entryBlock)))
    (by simp)

namespace CallTarget

/-- A call target is read back. -/
theorem reads_json (target : CallTarget) : CallTarget.reader.Reads levels target.json target := by
  intro source hsource
  cases target with
  | direct callee =>
    have hcallee := reads_id callee source hsource
    change (quoted (.ofText "direct") >>= fun name => _) = _
    rw [quoted_ofText]
    change (JsonReader.id _ source callee.json.draft >>= fun callee => _) = _
    rw [hcallee]
    rfl
  | indirect => exact named_ofText rfl

/-- A call target stands in at most one object. -/
theorem fitsIn_json (target : CallTarget) : target.json.FitsIn (levels + 1) := by
  cases target with
  | direct callee =>
    refine Json.fitsIn_obj fun m hm => ?_
    obtain rfl := List.mem_singleton.1 hm
    exact Json.fitsIn_id callee
  | indirect => exact Json.fitsIn_str _

end CallTarget

namespace CallFlavor

/-- How control comes back from a call is read back. -/
theorem reads_json (flavor : CallFlavor) :
    CallFlavor.reader.Reads (levels + 1) flavor.json flavor := by
  intro source hsource
  cases flavor with
  | plain => exact named_ofText rfl
  | invoke normalDest =>
    have hfields : invokeFields.reader.Reads (levels + 1)
        (.obj [("normal_dest", normalDest.json)]) (invoke normalDest) :=
      reads_reader ((reads_field rfl (reads_id normalDest)).map invoke) (by simp)
    have hreader : ∀ d, CallFlavor.reader source (.object [(.ofText "invoke", d)] .closed) =
        invokeFields.reader source d := by
      intro d
      rw [CallFlavor.reader, quoted_ofText]
      rfl
    exact (hreader _).trans (hfields source hsource)

/-- How control comes back from a call stands in at most two objects. -/
theorem fitsIn_json (flavor : CallFlavor) : flavor.json.FitsIn (levels + 2) := by
  cases flavor with
  | plain => exact Json.fitsIn_str _
  | invoke normalDest =>
    refine Json.fitsIn_obj fun m hm => ?_
    obtain rfl := List.mem_singleton.1 hm
    refine Json.fitsIn_obj fun m hm => ?_
    obtain rfl := List.mem_singleton.1 hm
    exact Json.fitsIn_id normalDest

end CallFlavor

/-- What an instruction does is read back. -/
theorem InstKind.reads_json (kind : InstKind) :
    InstKind.reader.Reads (levels + 3) kind.json kind := by
  cases kind with
  | call target flavor =>
    refine reads_tagged rfl (by simp) ?_
      (((reads_field rfl target.reads_json).map InstKind.call).seq
        (reads_field rfl flavor.reads_json))
    intro m hm
    rcases List.mem_pair.1 hm with rfl | rfl
    · exact target.fitsIn_json
    · exact flavor.fitsIn_json
  | alloca => exact reads_tagged rfl (by simp) (by simp) (reads_nothing _)
  | store pointer pointerIsGlobal =>
    refine reads_tagged rfl (by simp) ?_
      (((reads_field rfl (reads_id pointer)).map InstKind.store).seq
        (reads_field rfl (reads_bool pointerIsGlobal)))
    intro m hm
    rcases List.mem_pair.1 hm with rfl | rfl
    · exact Json.fitsIn_id pointer
    · exact Json.fitsIn_bool pointerIsGlobal
  | getElementPtr => exact reads_tagged rfl (by simp) (by simp) (reads_nothing _)
  | load => exact reads_tagged rfl (by simp) (by simp) (reads_nothing _)
  | other => exact reads_tagged rfl (by simp) (by simp) (reads_nothing _)

/-- The name of a mark is read as the mark. -/
theorem Mark.ofName?_name (m : Mark) : Mark.ofName? m.name = some m := by
  cases m with
  | boundaryCrossing => rfl
  | smartPointer => rfl
  | smartPointerShadow => rfl
  | markerLoad => rfl

/-- An instruction is read back, and one without marks too, whose marks are left out. -/
theorem Instruction.reads_json (i : Instruction) :
    Instruction.reader.Reads (levels + 4) i.json i := by
  obtain ⟨id, function, block, kind, marks⟩ := i
  cases marks with
  | nil =>
    exact reads_reader
      ((((((reads_field rfl (reads_id id)).map Instruction.mk).seq
        (reads_field rfl (reads_id function))).seq
        (reads_field rfl (reads_id block))).seq
        (reads_field rfl kind.reads_json)).seq
        (reads_optional_of_lookup_eq_none [] rfl))
      (by simp)
  | cons mark rest =>
    have hmarks : (JsonReader.list (.name Mark.ofName?)).Reads (levels + 3)
        (.list (fun m => .str m.name) (mark :: rest)) (mark :: rest) :=
      reads_list fun m _ => reads_name m.ofName?_name
    exact reads_reader
      ((((((reads_field rfl (reads_id id)).map Instruction.mk).seq
        (reads_field rfl (reads_id function))).seq
        (reads_field rfl (reads_id block))).seq
        (reads_field rfl kind.reads_json)).seq
        (reads_field rfl hmarks))
      (by simp)

/-- A pointer value is read back. -/
theorem PointerValue.reads_json (v : PointerValue) :
    PointerValue.reader.Reads (levels + 2) v.json v :=
  reads_reader
    (((((reads_field rfl (reads_id v.id)).map PointerValue.mk).seq
      (reads_field rfl (reads_option fun i _ => ⟨reads_id i, nofun⟩))).seq
      (reads_field rfl (reads_list fun i _ => reads_id i))).seq
      (reads_field rfl (reads_bool v.topLevel)))
    (by simp)

/-- The parts of a program are read back. -/
theorem ProgramParts.reads_json (p : ProgramParts) :
    ProgramParts.reader.Reads (levels + 6) p.json p :=
  reads_reader
    ((((reads_field rfl (reads_list fun f _ => f.reads_json)).map ProgramParts.mk).seq
      (reads_field rfl (reads_list fun i _ => i.reads_json))).seq
      (reads_field rfl (reads_list fun v _ => v.reads_json)))
    (by simp)

/-- A program is made of its parts again. -/
theorem Program.ofParts_toProgramParts (p : Program) :
    Program.ofParts p.toProgramParts = .ok p := by
  rw [Program.ofParts]
  split
  · next hviolation =>
    rw [p.consistent] at hviolation
    cases hviolation
  · rfl

/-- A program is read back. -/
theorem Program.reads_json (p : Program) : Program.reader.Reads (levels + 6) p.json p := by
  intro source hsource
  have hparts : ProgramParts.reader source p.json.draft = .ok p.toProgramParts :=
    p.toProgramParts.reads_json source hsource
  simp only [Program.reader, hparts, bind, Except.bind, p.ofParts_toProgramParts]
  rfl

/-! ## Facts -/

namespace Storage

variable {members : List (String × Json)} {kind : String} {fields : Fields Storage}
  {storage : Storage}

/-- No member of a memory object is named twice. -/
theorem nodup_members (storage : Storage) : ("id" :: storage.members.map Prod.fst).Nodup := by
  cases storage with
  | stack alloca => simp [Storage.members]
  | heap => simp [Storage.members]
  | global => simp [Storage.members]

/-- The members of a memory object stand in no further list or object. -/
theorem fitsIn_members (storage : Storage) : ∀ m ∈ storage.members, m.2.FitsIn levels := by
  intro m hm
  cases storage with
  | stack alloca =>
    rcases List.mem_pair.1 hm with rfl | rfl
    · exact Json.fitsIn_str _
    · exact Json.fitsIn_id alloca
  | heap =>
    obtain rfl := List.mem_singleton.1 hm
    exact Json.fitsIn_str _
  | global =>
    obtain rfl := List.mem_singleton.1 hm
    exact Json.fitsIn_str _

/-- Where a memory object lives is read from its members when the fields of the kind are. -/
theorem ofMembers_of_reads (hkind : fields? kind = some fields)
    (hmember : members.lookup "kind" = some (.str kind)) (hnodup : (members.map Prod.fst).Nodup)
    (h : fields.Reads 0 members storage) : ofMembers (Json.draftMembers members) = .ok storage := by
  have hfound : single "kind" kindReader .value none (Json.draftMembers members) =
      .ok (some fields) :=
    single_draftMembers hnodup hmember (named_ofText hkind) fun _ _ => rfl
  rw [ofMembers, hfound]
  exact ofMembers_draftMembers h trivial hnodup

/-- Where a memory object lives is read back from the members of the object. -/
theorem ofMembers_members {j : Json} (storage : Storage) :
    ofMembers (Json.draftMembers (("id", j) :: storage.members)) = .ok storage := by
  have hnodup := storage.nodup_members
  cases storage with
  | stack alloca =>
    exact ofMembers_of_reads rfl rfl hnodup ((reads_field rfl (reads_id alloca)).map Storage.stack)
  | heap => exact ofMembers_of_reads rfl rfl hnodup (reads_nothing _)
  | global => exact ofMembers_of_reads rfl rfl hnodup (reads_nothing _)

end Storage

/-- A memory object is read back. -/
theorem MemoryObject.reads_json (o : MemoryObject) :
    MemoryObject.reader.Reads (levels + 1) o.json o := by
  intro source hsource
  obtain ⟨id, storage⟩ := o
  have hfull : ∀ m ∈ ("id", id.json) :: storage.members,
      inFull source.inner m.2.draft = .ok () := by
    intro m hm
    rcases List.mem_cons.1 hm with rfl | hm
    · exact inFull_draft hsource.inner (Json.fitsIn_id id)
    · exact inFull_draft hsource.inner (storage.fitsIn_members m hm)
  have hfound : single "id" (JsonReader.id .object) source.inner none
      (Json.draftMembers (("id", id.json) :: storage.members)) = .ok (some id) :=
    single_draftMembers storage.nodup_members rfl (reads_id id source.inner hsource.inner) hfull
  change (single "id" (JsonReader.id .object) source.inner none
    (Json.draftMembers (("id", id.json) :: storage.members)) >>= fun found => _) = _
  rw [hfound]
  change (Storage.ofMembers (Json.draftMembers (("id", id.json) :: storage.members)) >>=
    fun storage => _) = _
  rw [storage.ofMembers_members]
  rfl

/-- A reachable allocation is read back. -/
theorem ReachableAllocation.reads_json (a : ReachableAllocation) :
    ReachableAllocation.reader.Reads (levels + 2) a.json a :=
  reads_reader
    (((reads_field rfl (reads_id a.location)).map ReachableAllocation.mk).seq
      (reads_field rfl (reads_list fun i _ => reads_id i)))
    (by simp)

/-- Facts are read back. -/
theorem Facts.reads_json (facts : Facts) : Facts.reader.Reads (levels + 4) facts.json facts :=
  reads_reader
    ((((reads_field rfl (reads_list fun a _ => a.reads_json)).map Facts.mk).seq
      (reads_field rfl (reads_list fun i _ => reads_id i))).seq
      (reads_field rfl
        (reads_numericMap fun objects _ => reads_list fun o _ => o.reads_json)))
    (by simp)

/-! ## Both -/

/-- Programs and facts are read back from both texts that they are written as. -/
theorem readText_json :
    (∀ p : Program, Program.reader.readText p.json.compact = .ok p ∧
      Program.reader.readText p.json.pretty = .ok p) ∧
    ∀ facts : Facts, Facts.reader.readText facts.json.compact = .ok facts ∧
      Facts.reader.readText facts.json.pretty = .ok facts := by
  constructor
  · intro p
    have hreads : Program.reader.Reads 6 p.json p := p.reads_json
    exact readText_of_reads hreads (by decide)
  · intro facts
    have hreads : Facts.reader.Reads 4 facts.json facts := facts.reads_json
    exact readText_of_reads hreads (by decide)

end HeapDomains
