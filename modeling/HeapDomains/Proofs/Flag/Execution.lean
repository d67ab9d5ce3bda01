import HeapDomains.Flag.Plan
import HeapDomains.Proofs.Program

/-!
# Executions of a planned program

What the flag register holds while a planned program runs. A frame performs the entry operations of
its function once and keeps what they compute; a call performs the stores of its call site before it
and the resets of its call site after it. An execution is a tree of frames, walked from the root by
calls and returns: `FlagPlan.step` is one of them, and `FlagPlan.run` a walk of any length, so that
the states at all points of all executions are those that some list of events leads to.
-/

namespace HeapDomains

/-- What the entry block of a function has computed from the flag. -/
structure FlagLocals where
  /-- The flag as it was loaded, zero when it was not. -/
  loaded : Word
  /-- The values of the slots computed so far. -/
  slots : OrderedMap Nat Word
  deriving DecidableEq

/-- Nothing is computed yet. -/
def FlagLocals.initial : FlagLocals := ⟨0, OrderedMap.empty⟩

namespace FlagOp

/-- What an operation does in the entry block of a function that is entered with a flag. -/
def enter (flag : Word) (l : FlagLocals) : FlagOp → FlagLocals
  | readEntryFlag _ => { l with loaded := flag }
  | computeSlot slot _ bit argMask =>
    { l with slots := l.slots.insert slot (if l.loaded.has bit then argMask else 0) }
  | storeSlot .. | reset .. | storeConstant .. => l

/-- What an operation does to the flag right before a call. A slot that is stored has to be
computed. -/
def before (site : InstId) (l : FlagLocals) (flag : Word) : FlagOp → Option Word
  | storeSlot s slot => if s = site then l.slots.get? slot else some flag
  | storeConstant s value => if s = site then some value else some flag
  | readEntryFlag _ | computeSlot .. | reset .. => some flag

/-- What an operation does to the flag once a call has returned. -/
def after (site : InstId) (flag : Word) : FlagOp → Word
  | reset s _ => if s = site then 0 else flag
  | readEntryFlag _ | computeSlot .. | storeSlot .. | storeConstant .. => flag

end FlagOp

namespace FunctionPlan

/-- What a frame of the function computes when it is entered with a flag. -/
def enter (f : FunctionPlan) (flag : Word) : FlagLocals :=
  f.ops.foldl (FlagOp.enter flag) .initial

/-- The flag right before a call. -/
def before (f : FunctionPlan) (site : InstId) (l : FlagLocals) (flag : Word) : Option Word :=
  f.ops.foldlM (FlagOp.before site l) flag

/-- The flag once a call has returned. -/
def after (f : FunctionPlan) (site : InstId) (flag : Word) : Word :=
  f.ops.foldl (FlagOp.after site) flag

end FunctionPlan

/-- A frame of a function. -/
structure FlagFrame where
  /-- The function. -/
  function : FunctionId
  /-- What its entry block has computed. -/
  locals : FlagLocals
  deriving DecidableEq

/-- The state of an execution. -/
structure FlagState where
  /-- The flag register. -/
  flag : Word
  /-- The frame that runs. -/
  frame : FlagFrame
  /-- The calls that have not returned, innermost first, each with the frame that made it. -/
  callers : List (InstId × FlagFrame)
  deriving DecidableEq

/-- The call sites on the stack, innermost first. -/
def FlagState.sites (s : FlagState) : List InstId := s.callers.map Prod.fst

/-- What a frame does next. -/
inductive FlagEvent where
  /-- It makes a call. Which function that enters is left open, since a plan does not depend on it:
  it may be the known callee, any function behind a pointer or one without a plan. -/
  | call (site : InstId) (callee : FunctionId)
  /-- It returns. -/
  | ret
  deriving DecidableEq

namespace FlagPlan

/-- What a frame of a function computes when it is entered with a flag. -/
def enter (plan : FlagPlan) (function : FunctionId) (flag : Word) : FlagLocals :=
  match plan.function? function with
  | some f => f.enter flag
  | none => .initial

/-- The flag right before a call that a frame of a function makes. -/
def before (plan : FlagPlan) (function : FunctionId) (site : InstId) (l : FlagLocals)
    (flag : Word) : Option Word :=
  match plan.function? function with
  | some f => f.before site l flag
  | none => some flag

/-- The flag once a call that a frame of a function made has returned. -/
def after (plan : FlagPlan) (function : FunctionId) (site : InstId) (flag : Word) : Word :=
  match plan.function? function with
  | some f => f.after site flag
  | none => flag

/-- The frame that a call enters. -/
def frame (plan : FlagPlan) (function : FunctionId) (flag : Word) : FlagFrame :=
  ⟨function, plan.enter function flag⟩

/-- The state at the root of an execution. -/
def start (plan : FlagPlan) (root : FunctionId) (flag : Word) : FlagState :=
  ⟨flag, plan.frame root flag, []⟩

/-- The state after a call at a call site of the function that runs. -/
def call (plan : FlagPlan) (s : FlagState) (site : CallSite) (callee : FunctionId) :
    Option FlagState :=
  if site.function = s.frame.function then
    (plan.before s.frame.function site.id s.frame.locals s.flag).map fun flag =>
      ⟨flag, plan.frame callee flag, (site.id, s.frame) :: s.callers⟩
  else none

/-- The state after a return to the frame that made the innermost call. -/
def ret (plan : FlagPlan) (s : FlagState) : Option FlagState :=
  match s.callers with
  | [] => none
  | (site, frame) :: callers => some ⟨plan.after frame.function site s.flag, frame, callers⟩

/-- The state after an event. -/
def step (p : Program) (plan : FlagPlan) (s : FlagState) : FlagEvent → Option FlagState
  | .call site callee =>
    match p.callSite site with
    | .ok site => plan.call s site callee
    | .error _ => none
  | .ret => plan.ret s

/-- The state after some events. -/
def run (p : Program) (plan : FlagPlan) (s : FlagState) (events : List FlagEvent) :
    Option FlagState :=
  events.foldlM (plan.step p) s

variable {p : Program} {plan : FlagPlan} {s s' : FlagState} {events : List FlagEvent}

/-- What a step can do: a call enters a new frame with the flag that is stored for it, and a return
leaves a frame and clears the flag where the plan says so. -/
theorem step_cases {event : FlagEvent} (h : plan.step p s event = some s') :
    (∃ site callee flag, event = .call site.id callee ∧ p.callSite site.id = .ok site ∧
      site.function = s.frame.function ∧
      plan.before site.function site.id s.frame.locals s.flag = some flag ∧
      s' = ⟨flag, plan.frame callee flag, (site.id, s.frame) :: s.callers⟩) ∨
    (∃ site frame callers, event = .ret ∧ s.callers = (site, frame) :: callers ∧
      s' = ⟨plan.after frame.function site s.flag, frame, callers⟩) := by
  cases event with
  | call id callee =>
    unfold step call at h
    dsimp only at h
    split at h
    · rename_i site hsite
      split at h
      · rename_i hfunction
        obtain ⟨flag, hflag, rfl⟩ := Option.map_eq_some_iff.1 h
        obtain rfl := Program.callSite_id hsite
        refine Or.inl ⟨site, callee, flag, rfl, hsite, hfunction, ?_, rfl⟩
        rw [hfunction]
        exact hflag
      · simp at h
    · simp at h
  | ret =>
    unfold step ret at h
    dsimp only at h
    split at h
    · simp at h
    · rename_i site frame callers hcallers
      exact Or.inr ⟨site, frame, callers, rfl, hcallers, (Option.some.inj h).symm⟩

/-- A call is made at a call site of the function that runs once its stores are performed. -/
theorem step_call_eq_some {site : CallSite} {flag : Word} (hsite : p.callSite site.id = .ok site)
    (hfunction : site.function = s.frame.function)
    (hbefore : plan.before s.frame.function site.id s.frame.locals s.flag = some flag)
    (callee : FunctionId) : plan.step p s (.call site.id callee) =
      some ⟨flag, plan.frame callee flag, (site.id, s.frame) :: s.callers⟩ := by
  rw [step, hsite]
  dsimp only
  rw [call, if_pos hfunction, hbefore]
  rfl

/-- A return is made to the frame below whenever there is one. -/
theorem step_ret_eq_some {site : InstId} {frame : FlagFrame} {callers : List (InstId × FlagFrame)}
    (hcallers : s.callers = (site, frame) :: callers) :
    plan.step p s .ret = some ⟨plan.after frame.function site s.flag, frame, callers⟩ := by
  rw [step, ret, hcallers]

/-- A run takes one step after the other. -/
theorem run_cons {event : FlagEvent} :
    plan.run p s (event :: events) = (plan.step p s event).bind (plan.run p · events) :=
  List.foldlM_cons

/-- A run over two lists of events is one run after the other. -/
theorem run_append {later : List FlagEvent} :
    plan.run p s (events ++ later) = (plan.run p s events).bind (plan.run p · later) :=
  List.foldlM_append

/-- A run that ends with an event is a run followed by a step. -/
theorem run_concat {event : FlagEvent} :
    plan.run p s (events ++ [event]) = some s' ↔
      ∃ mid, plan.run p s events = some mid ∧ plan.step p mid event = some s' := by
  have hstep : ∀ mid, plan.run p mid [event] = plan.step p mid event := fun mid => by
    rw [run_cons]
    exact Option.bind_fun_some _
  rw [run_append, Option.bind_eq_some_iff]
  simp only [hstep]

/-- What every step keeps is kept by runs. -/
theorem run_invariant {P : FlagState → Prop}
    (hstep : ∀ s event s', P s → plan.step p s event = some s' → P s') (hs : P s)
    (h : plan.run p s events = some s') : P s' := by
  induction events generalizing s with
  | nil =>
    obtain rfl : s = s' := Option.some.inj h
    exact hs
  | cons event rest ih =>
    rw [run_cons] at h
    obtain ⟨mid, hmid, hrest⟩ := Option.bind_eq_some_iff.1 h
    exact ih (hstep s event mid hs hmid) hrest

end FlagPlan

end HeapDomains
