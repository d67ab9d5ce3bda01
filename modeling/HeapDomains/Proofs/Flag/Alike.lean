import HeapDomains.Proofs.Flag.Planner

/-!
# Plans that differ in bits only

Flag bits are given out in the order in which call sites are mentioned, so facts in another order
give another plan: bits and masks change, and with the bits the order of slots and operations. The
`shape` of an operation is what is left of it without bit, mask and slot number. Two plans of a
function are `Alike` when they have operations and slots of the same shapes, in any order; then they
agree in all that can be asked about a call site, and in all numbers that are taken of them
(`counts_eq_of_alike`). Records of the same call sites give plans that are alike
(`alike_of_planFlags`).
-/

namespace HeapDomains

/-- An operation without slot number, bit and mask. -/
def FlagOp.shape : FlagOp → FlagOp
  | readEntryFlag block => .readEntryFlag block
  | computeSlot _ site _ _ => .computeSlot 0 site 0 0
  | storeSlot site _ => .storeSlot site 0
  | reset site point => .reset site point
  | storeConstant site _ => .storeConstant site 0

/-- A slot without number, bit and mask. -/
def ScratchSlot.shape (slot : ScratchSlot) : ScratchSlot := ⟨0, slot.callSite, 0, 0⟩

/-- A planned call site without bit and mask. -/
def PlannedSite.shape (s : PlannedSite) : PlannedSite := { s with bit := 0, argMask := 0 }

/-- Two plans of a function agree but for numbers, bits and masks, and the order that follows from
the bits. -/
structure FunctionPlan.Alike (f f' : FunctionPlan) : Prop where
  /-- They are plans of the same function. -/
  function_eq : f.function = f'.function
  /-- The function starts with the same block. -/
  entryBlock_eq : f.entryBlock = f'.entryBlock
  /-- The flag is loaded in both or in none. -/
  readsEntryFlag_eq : f.readsEntryFlag = f'.readsEntryFlag
  /-- The slots belong to the same call sites. -/
  slots_perm : (f.slots.map (·.shape)).Perm (f'.slots.map (·.shape))
  /-- The operations are of the same shapes. -/
  ops_perm : (f.ops.map (·.shape)).Perm (f'.ops.map (·.shape))
  /-- The same call sites have a slot. -/
  isSome_slotFor? : ∀ s, (f.slotFor? s).isSome = (f'.slotFor? s).isSome
  /-- A constant is stored before the same calls. -/
  isSome_entryConstant? : ∀ s, (f.entryConstant? s).isSome = (f'.entryConstant? s).isSome
  /-- The flag is cleared after the same calls, at the same points. -/
  resetsFor_perm : ∀ s, (f.resetsFor s).Perm (f'.resetsFor s)

/-- Two flag plans use the same symbols and agree in every function but for numbers, bits and
masks. -/
structure FlagPlan.Alike (plan plan' : FlagPlan) : Prop where
  /-- The flag register has the same symbol. -/
  flagSymbol_eq : plan.flagSymbol = plan'.flagSymbol
  /-- The type-tag register has the same symbol. -/
  typeTagSymbol_eq : plan.typeTagSymbol = plan'.typeTagSymbol
  /-- The same functions have plans, which are alike. -/
  function?_rel : ∀ F, Option.Rel FunctionPlan.Alike (plan.function? F) (plan'.function? F)

variable {p : Program} {config : PassConfig} {g g' : CallPathGraph} {max : UInt32}
  {sites sites' : List PlannedSite} {s : PlannedSite} {id : InstId} {n : Nat} {r : FlagRecord}
  {items : List (InstId × Nat)} {function : Function} {plan plan' : FlagPlan}
  {f f' : FunctionPlan}

/-! ## Shapes -/

/-- The shapes of the operations of a planned call site do not depend on its slot, bit and mask. -/
theorem PlannedSite.map_shape_ops : (s.ops n).map (·.shape) = s.shape.ops 0 := by
  unfold ops shape
  cases s.role with
  | exempt => rfl
  | entry => rfl
  | guarded => rfl

/-- The shape of the slot of a planned call site does not depend on number, bit and mask. -/
theorem PlannedSite.map_shape_slots : (s.slots n).map (·.shape) = s.shape.slots 0 := by
  unfold slots shape
  cases s.role with
  | exempt => rfl
  | entry => rfl
  | guarded => rfl

/-- The shapes of stores and resets are those of one call site after the other. -/
theorem map_shape_planStores :
    (planStores n sites).map (·.shape) = (sites.map (·.shape)).flatMap (·.ops 0) := by
  induction sites generalizing n with
  | nil => rfl
  | cons s rest ih =>
    rw [PlannedSite.planStores_cons, List.map_append, ih, PlannedSite.map_shape_ops, List.map_cons,
      List.flatMap_cons]

/-- The shapes of slots are those of one call site after the other. -/
theorem map_shape_planSlots :
    (planSlots n sites).map (·.shape) = (sites.map (·.shape)).flatMap (·.slots 0) := by
  induction sites generalizing n with
  | nil => rfl
  | cons s rest ih =>
    rw [PlannedSite.planSlots_cons, List.map_append, ih, PlannedSite.map_shape_slots,
      List.map_cons, List.flatMap_cons]

/-- The shapes of the operations of an entry block are those of its slots, computed. -/
theorem map_shape_entryOps {reads : Bool} {block : BlockId} {slots : List ScratchSlot} :
    (entryOps reads block slots).map (·.shape) = entryOps reads block (slots.map (·.shape)) := by
  have hread : (if reads then [FlagOp.readEntryFlag block] else []).map (·.shape) =
      if reads then [FlagOp.readEntryFlag block] else [] := by
    cases reads with
    | true => rfl
    | false => rfl
  rw [entryOps, entryOps, List.map_append, hread, List.map_map, List.map_map]
  rfl

/-- What is asked about a call site, where a shape answers as well as the operation. -/
theorem FlagOp.isSome_constantFor?_shape {op : FlagOp} :
    (FlagOp.constantFor? id op.shape).isSome = (FlagOp.constantFor? id op).isSome := by
  cases op with
  | storeConstant site value =>
    unfold shape constantFor?
    dsimp only
    split
    · rfl
    · rfl
  | readEntryFlag _ => rfl
  | computeSlot _ _ _ _ => rfl
  | storeSlot _ _ => rfl
  | reset _ _ => rfl

/-- A reset is its own shape. -/
theorem FlagOp.resetFor?_shape {op : FlagOp} :
    FlagOp.resetFor? id op.shape = FlagOp.resetFor? id op := by
  cases op with
  | storeConstant _ _ => rfl
  | readEntryFlag _ => rfl
  | computeSlot _ _ _ _ => rfl
  | storeSlot _ _ => rfl
  | reset _ _ => rfl

/-- Of what kind an operation is can be seen from its shape. -/
theorem FlagOp.kind_shape {op : FlagOp} :
    op.shape.isStoreConstant = op.isStoreConstant ∧ op.shape.isReset = op.isReset := by
  cases op with
  | storeConstant _ _ => exact ⟨rfl, rfl⟩
  | readEntryFlag _ => exact ⟨rfl, rfl⟩
  | computeSlot _ _ _ _ => exact ⟨rfl, rfl⟩
  | storeSlot _ _ => exact ⟨rfl, rfl⟩
  | reset _ _ => exact ⟨rfl, rfl⟩

/-! ## Functions -/

/-- A function plan has a slot for a call site when one of its slots has the shape. -/
theorem FunctionPlan.isSome_slotFor?_iff :
    (f.slotFor? id).isSome = true ↔ ⟨0, id, 0, 0⟩ ∈ f.slots.map (·.shape) := by
  rw [slotFor?, List.find?_isSome, List.mem_map]
  simp [ScratchSlot.shape]

/-- A function plan stores a constant before a call when an operation of a shape does. -/
theorem FunctionPlan.isSome_entryConstant?_iff : (f.entryConstant? id).isSome = true ↔
    ∃ op ∈ f.ops.map (·.shape), (FlagOp.constantFor? id op).isSome = true := by
  rw [entryConstant?, List.findSome?_isSome_iff]
  simp only [List.mem_map, exists_exists_and_eq_and, FlagOp.isSome_constantFor?_shape]

/-- The points at which a function plan clears the flag are those of its shapes. -/
theorem FunctionPlan.resetsFor_eq :
    f.resetsFor id = (f.ops.map (·.shape)).filterMap (FlagOp.resetFor? id) := by
  rw [resetsFor, List.filterMap_map]
  exact List.filterMap_congr fun op _ => FlagOp.resetFor?_shape.symm

/-- Call sites of the same shapes are planned alike. -/
theorem alike_planOf (h : (sites.map (·.shape)).Perm (sites'.map (·.shape))) :
    (planOf config function sites).Alike (planOf config function sites') := by
  have hslots : ((planSlots 0 sites).map (·.shape)).Perm ((planSlots 0 sites').map (·.shape)) := by
    rw [map_shape_planSlots, map_shape_planSlots]
    exact h.flatMap_right _
  have hstores : ((planStores 0 sites).map (·.shape)).Perm
      ((planStores 0 sites').map (·.shape)) := by
    rw [map_shape_planStores, map_shape_planStores]
    exact h.flatMap_right _
  -- The flag is loaded when there is a slot, and there are as many slots in both plans.
  have hreads : (planOf config function sites).readsEntryFlag =
      (planOf config function sites').readsEntryFlag := by
    have hempty := hslots.isEmpty_eq
    rw [List.isEmpty_map, List.isEmpty_map] at hempty
    rw [planOf, planOf]
    dsimp only
    rw [hempty]
  have hops : ((planOf config function sites).ops.map (·.shape)).Perm
      ((planOf config function sites').ops.map (·.shape)) := by
    rw [ops_planOf, ops_planOf, List.map_append, List.map_append, map_shape_entryOps,
      map_shape_entryOps, hreads]
    exact ((hslots.map ScratchSlot.computeOp).append_left _).append hstores
  refine ⟨rfl, rfl, hreads, hslots, hops, fun s => ?_, fun s => ?_, fun s => ?_⟩
  · rw [Bool.eq_iff_iff, FunctionPlan.isSome_slotFor?_iff, FunctionPlan.isSome_slotFor?_iff]
    exact hslots.mem_iff
  · rw [Bool.eq_iff_iff, FunctionPlan.isSome_entryConstant?_iff,
      FunctionPlan.isSome_entryConstant?_iff]
    simp only [hops.mem_iff]
  · rw [FunctionPlan.resetsFor_eq, FunctionPlan.resetsFor_eq]
    exact hops.filterMap _

/-! ## Plans of graphs -/

/-- The shape of a planned call site, from what the program and the graph say about it. -/
def shapeOf? (p : Program) (g : CallPathGraph) (id : InstId) : Option PlannedSite :=
  match p.callSite id, g.role id with
  | .ok site, .ok role => some ⟨site, 0, role, 0⟩
  | _, _ => none

/-- The call sites of a record are planned with the shapes that program and graph give them. -/
theorem map_shape_of_planSites (h : planSites p g r items = .ok sites) :
    sites.map (·.shape) = (items.map Prod.fst).filterMap (shapeOf? p g) := by
  induction items generalizing sites with
  | nil =>
    obtain rfl := Except.ok.inj h
    rfl
  | cons item rest ih =>
    obtain ⟨id, bit⟩ := item
    rw [planSites, bind_eq_ok] at h
    obtain ⟨site, hsite, h⟩ := h
    rw [bind_eq_ok] at h
    obtain ⟨role, hrole, h⟩ := h
    rw [bind_eq_ok] at h
    obtain ⟨later, hlater, h⟩ := h
    obtain rfl := Except.ok.inj h
    have hshape : shapeOf? p g id = some ⟨site, 0, role, 0⟩ := by rw [shapeOf?, hsite, hrole]
    rw [List.map_cons, List.map_cons, List.filterMap_cons_some hshape, ih hlater]
    rfl

/-- Graphs whose records have the same call sites, with the same roles, are planned alike. -/
theorem alike_of_planFlags (hreg : g.Registry p max) (hreg' : g'.Registry p max)
    (hplan : planFlags p config g = .ok plan) (hplan' : planFlags p config g' = .ok plan')
    (hperm : ∀ F, (g.recordOrNew F).callSites.Perm (g'.recordOrNew F).callSites)
    (hrole : ∀ s, g.role s = g'.role s) : plan.Alike plan' := by
  obtain ⟨hflag, htag⟩ := symbols_of_planFlags hplan
  obtain ⟨hflag', htag'⟩ := symbols_of_planFlags hplan'
  refine ⟨hflag.trans hflag'.symm, htag.trans htag'.symm, fun F => ?_⟩
  obtain ⟨hnone, hsome⟩ := function?_of_planFlags (F := F) hreg.record_function hplan
  obtain ⟨hnone', hsome'⟩ := function?_of_planFlags (F := F) hreg'.record_function hplan'
  have hcallSites := hperm F
  unfold CallPathGraph.recordOrNew at hcallSites
  cases hr : g.record? F with
  | none =>
    cases hr' : g'.record? F with
    | none =>
      rw [hnone hr, hnone' hr']
      exact .none
    | some r' =>
      -- A record has a call site, so it cannot be there in one graph only.
      rw [hr, hr'] at hcallSites
      exact absurd hcallSites.symm.eq_nil (hreg'.record_ne_nil hr')
  | some r =>
    cases hr' : g'.record? F with
    | none =>
      rw [hr, hr'] at hcallSites
      exact absurd hcallSites.eq_nil (hreg.record_ne_nil hr)
    | some r' =>
      rw [hr, hr', Option.getD_some, Option.getD_some] at hcallSites
      obtain ⟨function, sites, hdeclared, hfunction, hsites⟩ := hsome r hr
      obtain ⟨function', sites', hdeclared', hfunction', hsites'⟩ := hsome' r' hr'
      obtain rfl : function = function' := Except.ok.inj (hdeclared.symm.trans hdeclared')
      have hshapes : shapeOf? p g = shapeOf? p g' := funext fun id => by
        rw [shapeOf?, shapeOf?, hrole]
      have hshape := map_shape_of_planSites hsites
      have hshape' := map_shape_of_planSites hsites'
      rw [List.zipIdx_map_fst] at hshape hshape'
      rw [hfunction, hfunction']
      refine .some (alike_planOf ?_)
      rw [hshape, hshape', hshapes]
      exact hcallSites.filterMap _

/-! ## Numbers of a plan -/

/-- Related lists agree in what their related elements agree in. -/
theorem map_eq_of_forall₂ {α β γ : Type} {R : α → β → Prop} {l : List α} {m : List β}
    {k : α → γ} {k' : β → γ} (h : List.Forall₂ R l m) (hR : ∀ a b, R a b → k a = k' b) :
    l.map k = m.map k' := by
  induction h with
  | nil => rfl
  | cons hab _ ih => rw [List.map_cons, List.map_cons, ih, hR _ _ hab]

/-- As many operations of a kind are in function plans that are alike. -/
theorem FunctionPlan.Alike.countP_ops_eq (h : f.Alike f') {test : FlagOp → Bool}
    (htest : ∀ op, test (FlagOp.shape op) = test op) :
    f.ops.countP test = f'.ops.countP test := by
  have hcount := h.ops_perm.countP_eq test
  rw [List.countP_map, List.countP_map] at hcount
  have hsame : test ∘ FlagOp.shape = test := funext htest
  rwa [hsame] at hcount

/-- Plans that are alike have as many slots, reads, stores and resets. -/
theorem counts_eq_of_alike (h : plan.Alike plan') :
    plan.functionCount = plan'.functionCount ∧ plan.slotCount = plan'.slotCount ∧
      plan.entryReadCount = plan'.entryReadCount ∧
      plan.entryStoreCount = plan'.entryStoreCount ∧ plan.resetCount = plan'.resetCount := by
  have hvalues : List.Forall₂ FunctionPlan.Alike plan.functions.values plan'.functions.values :=
    OrderedMap.forall₂_values h.function?_rel
  have hops : ∀ test : FlagOp → Bool, (∀ op, test (FlagOp.shape op) = test op) →
      plan.countOps test = plan'.countOps test := by
    intro test htest
    rw [FlagPlan.countOps, FlagPlan.countOps, List.countP_flatMap, List.countP_flatMap]
    exact congrArg List.sum (map_eq_of_forall₂ hvalues fun f f' hf => hf.countP_ops_eq htest)
  refine ⟨?_, ?_, ?_, hops _ fun op => FlagOp.kind_shape.1, hops _ fun op => FlagOp.kind_shape.2⟩
  · have hlength := hvalues.length_eq
    unfold OrderedMap.values at hlength
    rwa [List.length_map, List.length_map] at hlength
  · rw [FlagPlan.slotCount, FlagPlan.slotCount, List.length_flatMap, List.length_flatMap]
    refine congrArg List.sum (map_eq_of_forall₂ hvalues fun f f' hf => ?_)
    have hlength := hf.slots_perm.length_eq
    rwa [List.length_map, List.length_map] at hlength
  · have hreads := map_eq_of_forall₂ hvalues fun f f' hf => hf.readsEntryFlag_eq
    have hcount := congrArg (List.countP id) hreads
    rwa [List.countP_map, List.countP_map] at hcount

end HeapDomains
