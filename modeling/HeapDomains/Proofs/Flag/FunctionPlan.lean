import HeapDomains.Flag.Planner
import HeapDomains.Proofs.Flag.Execution
import HeapDomains.Proofs.Program

/-!
# What the plan of a function does

The plan of a function, run as it is placed in the code. The operations of one call site are taken
apart from those of all others (`PlannedSite.ops`, `PlannedSite.slots`), every slot is computed from
the flag the frame was entered with (`get?_enter_planOf`), and so a planned function does at each of
its call sites what the role of the call site says (`before_planOf`, `after_planOf`), and nothing at
any other.
-/

namespace HeapDomains

variable {config : PassConfig} {id : InstId} {l : FlagLocals} {flag entry : Word} {n : Nat}

/-! ## Operations that leave the flag alone -/

/-- An operation of another call site does nothing to the flag before a call. -/
theorem FlagOp.before_of_ne {op : FlagOp} (h : op.site? ≠ some id) :
    op.before id l flag = some flag := by
  cases op with
  | storeSlot s slot => exact if_neg fun hs => h (congrArg some hs)
  | storeConstant s value => exact if_neg fun hs => h (congrArg some hs)
  | readEntryFlag _ => rfl
  | computeSlot _ _ _ _ => rfl
  | reset _ _ => rfl

/-- An operation of another call site does nothing to the flag after a call. -/
theorem FlagOp.after_of_ne {op : FlagOp} (h : op.site? ≠ some id) : op.after id flag = flag := by
  cases op with
  | reset s point => exact if_neg fun hs => h (congrArg some hs)
  | readEntryFlag _ => rfl
  | computeSlot _ _ _ _ => rfl
  | storeSlot _ _ => rfl
  | storeConstant _ _ => rfl

/-- Operations that do nothing to the flag before a call leave it alone together. -/
theorem foldlM_before_eq {ops : List FlagOp} (h : ∀ op ∈ ops, op.before id l flag = some flag) :
    ops.foldlM (FlagOp.before id l) flag = some flag := by
  induction ops with
  | nil => rfl
  | cons op rest ih =>
    rw [List.foldlM_cons, h op (by simp)]
    exact ih fun op' hop' => h op' (List.mem_cons_of_mem _ hop')

/-- Operations that do nothing to the flag after a call leave it alone together. -/
theorem foldl_after_eq {ops : List FlagOp} (h : ∀ op ∈ ops, op.after id flag = flag) :
    ops.foldl (FlagOp.after id) flag = flag := by
  induction ops with
  | nil => rfl
  | cons op rest ih =>
    rw [List.foldl_cons, h op (by simp)]
    exact ih fun op' hop' => h op' (List.mem_cons_of_mem _ hop')

/-! ## Slots -/

/-- The operation that computes a slot. -/
def ScratchSlot.computeOp (slot : ScratchSlot) : FlagOp :=
  .computeSlot slot.id slot.callSite slot.bit slot.argMask

/-- What a slot holds in a frame that has loaded a flag. -/
def ScratchSlot.value (slot : ScratchSlot) (loaded : Word) : Word :=
  if loaded.has slot.bit then slot.argMask else 0

/-- Slots are numbered one after the other. -/
theorem map_id_planSlots {sites : List PlannedSite} :
    (planSlots n sites).map (·.id) = List.range' n (planSlots n sites).length := by
  induction sites generalizing n with
  | nil => rfl
  | cons s rest ih =>
    rw [planSlots]
    split
    · rw [List.map_cons, List.length_cons, List.range'_succ, ih]
    · exact ih

/-- Computing slots leaves slots with other numbers alone. -/
theorem get?_foldl_compute_of_not_mem {slots : List ScratchSlot} (h : n ∉ slots.map (·.id)) :
    ((slots.map ScratchSlot.computeOp).foldl (FlagOp.enter flag) l).slots.get? n =
      l.slots.get? n := by
  induction slots generalizing l with
  | nil => rfl
  | cons slot rest ih =>
    rw [List.map_cons, List.mem_cons, not_or] at h
    rw [List.map_cons, List.foldl_cons, ih h.2]
    exact OrderedMap.get?_insert.trans (if_neg fun hn => h.1 (rank_eq_iff.1 hn))

/-- Computing slots with different numbers gives each the value it should have. -/
theorem get?_foldl_compute {slots : List ScratchSlot} (hnodup : (slots.map (·.id)).Nodup)
    {slot : ScratchSlot} (hslot : slot ∈ slots) :
    ((slots.map ScratchSlot.computeOp).foldl (FlagOp.enter flag) l).slots.get? slot.id =
      some (slot.value l.loaded) := by
  induction slots generalizing l with
  | nil => simp at hslot
  | cons first rest ih =>
    rw [List.map_cons, List.nodup_cons] at hnodup
    rw [List.map_cons, List.foldl_cons]
    -- A slot is not overwritten, since the numbers of later ones are different.
    rcases List.mem_cons.1 hslot with rfl | hslot
    · rw [get?_foldl_compute_of_not_mem hnodup.1]
      exact OrderedMap.get?_insert.trans (if_pos rfl)
    · rw [ih hnodup.2 hslot]
      rfl

/-- Stores and resets compute nothing. -/
theorem foldl_enter_planStores {sites : List PlannedSite} :
    (planStores n sites).foldl (FlagOp.enter flag) l = l := by
  induction sites generalizing n with
  | nil => rfl
  | cons s rest ih =>
    rw [planStores]
    split
    · exact ih
    · exact ih
    · exact ih

/-! ## Stores and resets -/

namespace PlannedSite

/-- The flag right before a call at a planned call site. -/
def flagBefore (s : PlannedSite) (entry flag : Word) : Word :=
  match s.role with
  | .entry => s.argMask
  | .guarded => if entry.has s.bit then s.argMask else 0
  | .exempt => flag

/-- The flag once a call at a planned call site has returned. -/
def flagAfter (s : PlannedSite) (flag : Word) : Word :=
  match s.role with
  | .guarded => 0
  | .entry | .exempt => flag

/-- The slot of a planned call site, which is numbered `n`, if it has one. -/
def slots (s : PlannedSite) (n : Nat) : List ScratchSlot :=
  match s.role with
  | .guarded => [⟨n, s.site.id, s.bit, s.argMask⟩]
  | .entry | .exempt => []

/-- The stores and resets of a planned call site, whose slot is numbered `n` if it has one. -/
def ops (s : PlannedSite) (n : Nat) : List FlagOp :=
  match s.role with
  | .exempt => []
  | .entry => [.storeConstant s.site.id s.argMask]
  | .guarded => [.storeSlot s.site.id n, .reset s.site.id s.resetPoint]

variable {s : PlannedSite} {rest : List PlannedSite}

/-- Slots are planned for one call site after the other. -/
theorem planSlots_cons :
    planSlots n (s :: rest) = s.slots n ++ planSlots (n + (s.slots n).length) rest := by
  rw [planSlots, isGuarded, slots]
  cases s.role with
  | entry => rfl
  | exempt => rfl
  | guarded => rfl

/-- Stores and resets are planned for one call site after the other. -/
theorem planStores_cons :
    planStores n (s :: rest) = s.ops n ++ planStores (n + (s.slots n).length) rest := by
  rw [planStores, ops, slots]
  cases s.role with
  | entry => rfl
  | exempt => rfl
  | guarded => rfl

/-- The operations of a planned call site belong to it. -/
theorem site?_of_mem_ops {op : FlagOp} (h : op ∈ s.ops n) : op.site? = some s.site.id := by
  unfold ops at h
  split at h
  · simp at h
  · obtain rfl := List.mem_singleton.1 h
    rfl
  · rcases List.mem_cons.1 h with rfl | h
    · rfl
    · obtain rfl := List.mem_singleton.1 h
      rfl

/-- The stores of a planned call site do what its role says, when its slot is computed. -/
theorem before_ops
    (hslots : ∀ slot ∈ s.slots n, l.slots.get? slot.id = some (slot.value entry)) :
    (s.ops n).foldlM (FlagOp.before s.site.id l) flag = some (s.flagBefore entry flag) := by
  unfold slots at hslots
  unfold ops flagBefore
  cases hrole : s.role with
  | exempt => rfl
  | entry =>
    have hstore : FlagOp.before s.site.id l flag (.storeConstant s.site.id s.argMask) =
        some s.argMask := if_pos rfl
    rw [List.foldlM_cons, hstore]
    rfl
  | guarded =>
    rw [hrole] at hslots
    have hslot := hslots _ List.mem_cons_self
    have hstore : FlagOp.before s.site.id l flag (.storeSlot s.site.id n) =
        some (if entry.has s.bit then s.argMask else 0) := (if_pos rfl).trans hslot
    rw [List.foldlM_cons, hstore]
    rfl

/-- The stores of a planned call site can be performed before any call, when its slot is
computed. -/
theorem exists_before_ops
    (hslots : ∀ slot ∈ s.slots n, ∃ value, l.slots.get? slot.id = some value) :
    ∃ flag', (s.ops n).foldlM (FlagOp.before id l) flag = some flag' := by
  unfold slots at hslots
  unfold ops
  cases hrole : s.role with
  | exempt => exact ⟨flag, rfl⟩
  | entry =>
    by_cases hid : s.site.id = id
    · exact ⟨s.argMask, by rw [List.foldlM_cons, FlagOp.before, if_pos hid]; rfl⟩
    · exact ⟨flag, by rw [List.foldlM_cons, FlagOp.before, if_neg hid]; rfl⟩
  | guarded =>
    rw [hrole] at hslots
    obtain ⟨value, hvalue⟩ := hslots _ List.mem_cons_self
    by_cases hid : s.site.id = id
    · exact ⟨value, by rw [List.foldlM_cons, FlagOp.before, if_pos hid, hvalue]; rfl⟩
    · exact ⟨flag, by rw [List.foldlM_cons, FlagOp.before, if_neg hid]; rfl⟩

/-- The reset of a planned call site does what its role says. -/
theorem after_ops : (s.ops n).foldl (FlagOp.after s.site.id) flag = s.flagAfter flag := by
  unfold ops flagAfter
  cases s.role with
  | exempt => rfl
  | entry => rfl
  | guarded => exact if_pos rfl

end PlannedSite

/-- Stores and resets belong to the call sites they are planned for. -/
theorem site?_of_mem_planStores {sites : List PlannedSite} {op : FlagOp}
    (h : op ∈ planStores n sites) : ∃ s ∈ sites, op.site? = some s.site.id := by
  induction sites generalizing n with
  | nil => simp [planStores] at h
  | cons s rest ih =>
    rw [PlannedSite.planStores_cons, List.mem_append] at h
    rcases h with hown | hrest
    · exact ⟨s, by simp, PlannedSite.site?_of_mem_ops hown⟩
    · obtain ⟨s', hs', hsite⟩ := ih hrest
      exact ⟨s', List.mem_cons_of_mem _ hs', hsite⟩

/-- No store or reset belongs to a call site that is not planned. -/
theorem site?_ne_of_not_mem {sites : List PlannedSite} (h : id ∉ sites.map (·.site.id)) :
    ∀ op ∈ planStores n sites, op.site? ≠ some id := by
  intro op hop hid
  obtain ⟨s, hs, hsite⟩ := site?_of_mem_planStores hop
  rw [hid] at hsite
  exact h (List.mem_map.2 ⟨s, hs, (Option.some.inj hsite).symm⟩)

/-- Among the stores of several call sites those of a call site do what its role says, when the
slots are computed. -/
theorem before_planStores {sites : List PlannedSite} (hnodup : (sites.map (·.site.id)).Nodup)
    (hslots : ∀ slot ∈ planSlots n sites, l.slots.get? slot.id = some (slot.value entry))
    {s : PlannedSite} (hs : s ∈ sites) :
    (planStores n sites).foldlM (FlagOp.before s.site.id l) flag =
      some (s.flagBefore entry flag) := by
  induction sites generalizing n with
  | nil => simp at hs
  | cons first rest ih =>
    rw [List.map_cons, List.nodup_cons] at hnodup
    simp only [PlannedSite.planSlots_cons, List.mem_append, or_imp, forall_and] at hslots
    rw [PlannedSite.planStores_cons, List.foldlM_append]
    -- Of the two parts of the list only the one of the call site itself does something.
    rcases List.mem_cons.1 hs with rfl | hs
    · rw [PlannedSite.before_ops hslots.1]
      exact foldlM_before_eq fun op hop =>
        FlagOp.before_of_ne (site?_ne_of_not_mem hnodup.1 op hop)
    · have hother : ∀ op ∈ first.ops n, op.site? ≠ some s.site.id := by
        intro op hop hid
        rw [PlannedSite.site?_of_mem_ops hop] at hid
        exact hnodup.1 (Option.some.inj hid ▸ List.mem_map_of_mem hs)
      rw [foldlM_before_eq fun op hop => FlagOp.before_of_ne (hother op hop)]
      exact ih hnodup.2 hslots.2 hs

/-- The stores of several call sites can be performed before any call, when the slots are
computed. -/
theorem exists_before_planStores {sites : List PlannedSite}
    (hslots : ∀ slot ∈ planSlots n sites, ∃ value, l.slots.get? slot.id = some value) :
    ∃ flag', (planStores n sites).foldlM (FlagOp.before id l) flag = some flag' := by
  induction sites generalizing n flag with
  | nil => exact ⟨flag, rfl⟩
  | cons first rest ih =>
    simp only [PlannedSite.planSlots_cons, List.mem_append, or_imp, forall_and] at hslots
    obtain ⟨mid, hmid⟩ := PlannedSite.exists_before_ops hslots.1
    obtain ⟨flag', hflag'⟩ := ih hslots.2
    exact ⟨flag', by rw [PlannedSite.planStores_cons, List.foldlM_append, hmid]; exact hflag'⟩

/-- Among the resets of several call sites those of a call site do what its role says. -/
theorem after_planStores {sites : List PlannedSite} (hnodup : (sites.map (·.site.id)).Nodup)
    {s : PlannedSite} (hs : s ∈ sites) :
    (planStores n sites).foldl (FlagOp.after s.site.id) flag = s.flagAfter flag := by
  induction sites generalizing n with
  | nil => simp at hs
  | cons first rest ih =>
    rw [List.map_cons, List.nodup_cons] at hnodup
    rw [PlannedSite.planStores_cons, List.foldl_append]
    rcases List.mem_cons.1 hs with rfl | hs
    · rw [PlannedSite.after_ops]
      exact foldl_after_eq fun op hop => FlagOp.after_of_ne (site?_ne_of_not_mem hnodup.1 op hop)
    · have hother : ∀ op ∈ first.ops n, op.site? ≠ some s.site.id := by
        intro op hop hid
        rw [PlannedSite.site?_of_mem_ops hop] at hid
        exact hnodup.1 (Option.some.inj hid ▸ List.mem_map_of_mem hs)
      rw [foldl_after_eq fun op hop => FlagOp.after_of_ne (hother op hop)]
      exact ih hnodup.2 hs

/-! ## The plan of a function -/

variable {function : Function} {sites : List PlannedSite}

/-- The operations of an entry block, which load the flag and compute the slots. -/
def entryOps (reads : Bool) (block : BlockId) (slots : List ScratchSlot) : List FlagOp :=
  (if reads then [.readEntryFlag block] else []) ++ slots.map ScratchSlot.computeOp

/-- An entry block does nothing to the flag, neither before nor after a call. -/
theorem flag_entryOps {reads : Bool} {block : BlockId} {slots : List ScratchSlot} {op : FlagOp}
    (h : op ∈ entryOps reads block slots) :
    op.before id l flag = some flag ∧ op.after id flag = flag := by
  rw [entryOps, List.mem_append, List.mem_map] at h
  rcases h with hread | ⟨slot, -, rfl⟩
  · split at hread
    · obtain rfl := List.mem_singleton.1 hread
      exact ⟨rfl, rfl⟩
    · simp at hread
  · exact ⟨rfl, rfl⟩

/-- The operations of a plan are those of the entry block, then stores and resets. -/
theorem ops_planOf : (planOf config function sites).ops =
    entryOps (planOf config function sites).readsEntryFlag function.entryBlock
      (planSlots 0 sites) ++ planStores 0 sites := rfl

/-- A frame computes every slot of its function from the flag it was entered with. -/
theorem get?_enter_planOf {slot : ScratchSlot} (h : slot ∈ planSlots 0 sites) :
    ((planOf config function sites).enter entry).slots.get? slot.id =
      some (slot.value entry) := by
  have hreads : (planOf config function sites).readsEntryFlag = true := by
    -- The flag is loaded because there is a slot.
    have hslots : (planSlots 0 sites).isEmpty = false :=
      List.isEmpty_eq_false_iff.2 (List.ne_nil_of_mem h)
    rw [planOf]
    dsimp only
    rw [hslots]
    rfl
  have hnodup : ((planSlots 0 sites).map (·.id)).Nodup := by
    rw [map_id_planSlots]
    exact List.nodup_range'
  rw [FunctionPlan.enter, ops_planOf, List.foldl_append, foldl_enter_planStores, entryOps, hreads,
    if_pos rfl, List.foldl_append]
  exact get?_foldl_compute hnodup h

/-- Before a call only the stores of a planned function do something. -/
theorem before_planOf_eq : (planOf config function sites).before id l flag =
    (planStores 0 sites).foldlM (FlagOp.before id l) flag := by
  rw [FunctionPlan.before, ops_planOf, List.foldlM_append,
    foldlM_before_eq fun op hop => (flag_entryOps hop).1]
  rfl

/-- After a call only the resets of a planned function do something. -/
theorem after_planOf_eq : (planOf config function sites).after id flag =
    (planStores 0 sites).foldl (FlagOp.after id) flag := by
  rw [FunctionPlan.after, ops_planOf, List.foldl_append,
    foldl_after_eq fun op hop => (flag_entryOps (l := .initial) hop).2]

/-- Before a call a planned function does what the role of the call site says. -/
theorem before_planOf (hnodup : (sites.map (·.site.id)).Nodup) {s : PlannedSite} (hs : s ∈ sites) :
    (planOf config function sites).before s.site.id
        ((planOf config function sites).enter entry) flag =
      some (s.flagBefore entry flag) := by
  rw [before_planOf_eq]
  exact before_planStores hnodup (fun slot hslot => get?_enter_planOf hslot) hs

/-- Before any call the stores of a planned function can be performed in its frames. -/
theorem exists_before_planOf : ∃ flag', (planOf config function sites).before id
    ((planOf config function sites).enter entry) flag = some flag' := by
  rw [before_planOf_eq]
  exact exists_before_planStores fun slot hslot => ⟨_, get?_enter_planOf hslot⟩

/-- Before a call at a call site that is not planned a planned function does nothing. -/
theorem before_planOf_of_not_mem (h : id ∉ sites.map (·.site.id)) :
    (planOf config function sites).before id l flag = some flag := by
  rw [before_planOf_eq]
  exact foldlM_before_eq fun op hop => FlagOp.before_of_ne (site?_ne_of_not_mem h op hop)

/-- After a call a planned function does what the role of the call site says. -/
theorem after_planOf (hnodup : (sites.map (·.site.id)).Nodup) {s : PlannedSite} (hs : s ∈ sites) :
    (planOf config function sites).after s.site.id flag = s.flagAfter flag := by
  rw [after_planOf_eq]
  exact after_planStores hnodup hs

/-- After a call at a call site that is not planned a planned function does nothing. -/
theorem after_planOf_of_not_mem (h : id ∉ sites.map (·.site.id)) :
    (planOf config function sites).after id flag = flag := by
  rw [after_planOf_eq]
  exact foldl_after_eq fun op hop => FlagOp.after_of_ne (site?_ne_of_not_mem h op hop)

/-! ## Plans without guarded call sites -/

/-- Without guarded call sites there are no slots. -/
theorem planSlots_eq_nil (h : ∀ s ∈ sites, s.role ≠ .guarded) : planSlots n sites = [] := by
  induction sites generalizing n with
  | nil => rfl
  | cons first rest ih =>
    have hslots : first.slots n = [] := by
      unfold PlannedSite.slots
      split
      · rename_i hrole
        exact absurd hrole (h first List.mem_cons_self)
      · rfl
      · rfl
    rw [PlannedSite.planSlots_cons, hslots, ih fun s hs => h s (List.mem_cons_of_mem _ hs)]
    rfl

/-- Without guarded call sites only constants are stored, and nothing is cleared. -/
theorem eq_storeConstant_of_mem_planStores (h : ∀ s ∈ sites, s.role ≠ .guarded) {op : FlagOp}
    (hop : op ∈ planStores n sites) : ∃ id value, op = .storeConstant id value := by
  induction sites generalizing n with
  | nil => simp [planStores] at hop
  | cons first rest ih =>
    rw [PlannedSite.planStores_cons, List.mem_append] at hop
    rcases hop with hown | hrest
    · unfold PlannedSite.ops at hown
      split at hown
      · simp at hown
      · exact ⟨_, _, List.mem_singleton.1 hown⟩
      · rename_i hrole
        exact absurd hrole (h first List.mem_cons_self)
    · exact ih (fun s hs => h s (List.mem_cons_of_mem _ hs)) hrest

/-- Without guarded call sites a planned function loads the flag at most, and stores constants. -/
theorem planOf_of_unguarded (h : ∀ s ∈ sites, s.role ≠ .guarded) :
    (planOf config function sites).slots = [] ∧ ∀ op ∈ (planOf config function sites).ops,
      (∃ block, op = .readEntryFlag block) ∨ ∃ id value, op = .storeConstant id value := by
  refine ⟨planSlots_eq_nil h, fun op hop => ?_⟩
  rw [ops_planOf, List.mem_append, entryOps, planSlots_eq_nil h, List.map_nil,
    List.append_nil] at hop
  rcases hop with hread | hstore
  · split at hread
    · exact Or.inl ⟨_, List.mem_singleton.1 hread⟩
    · simp at hread
  · exact Or.inr (eq_storeConstant_of_mem_planStores h hstore)

end HeapDomains
