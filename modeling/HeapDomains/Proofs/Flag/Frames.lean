import HeapDomains.Proofs.Flag.Planner

/-!
# Frames of an execution

The stack of an execution under the plan of a graph. `FlagFrames` says that each frame has computed
its entry block from some flag, of which a property `Q` is known that may depend on the call sites
below the frame. What a step does to such a stack follows from the roles alone: `step_call` and
`step_ret` compute it, `step_cases_of_frames` inverts it, and `entered_of_run` keeps `Q` along a
run. `FlagPlan.CanCall.exists_run_of_tree` shows that executions are not stuck: under a plan that
lets every call be made, every finite tree of frames is walked to its end.
-/

namespace HeapDomains

/-- Every frame of a stack has been entered with a flag that is as `Q` says for the call sites below
it, by a call at a call site of the function of the next frame. -/
inductive FlagFrames (p : Program) (plan : FlagPlan) (Q : List InstId → Word → Prop) :
    FlagFrame → List (InstId × FlagFrame) → Prop
  /-- The frame at the root. -/
  | root {function : FunctionId} {entry : Word} :
    Q [] entry → FlagFrames p plan Q (plan.frame function entry) []
  /-- A frame that a call has entered. -/
  | call {site : CallSite} {function : FunctionId} {entry : Word} {caller : FlagFrame}
      {callers : List (InstId × FlagFrame)} :
    p.callSite site.id = .ok site → site.function = caller.function →
      FlagFrames p plan Q caller callers → Q (site.id :: callers.map Prod.fst) entry →
      FlagFrames p plan Q (plan.frame function entry) ((site.id, caller) :: callers)

/-- The frames of a state are as `Q` says. -/
def FlagState.Entered (p : Program) (plan : FlagPlan) (Q : List InstId → Word → Prop)
    (s : FlagState) : Prop :=
  FlagFrames p plan Q s.frame s.callers

variable {p : Program} {config : PassConfig} {g : CallPathGraph} {max : UInt32} {plan : FlagPlan}
  {Q Q' : List InstId → Word → Prop} {s s' : FlagState} {site : CallSite} {id : InstId}

/-- The frame that runs has been entered with a flag that is as `Q` says. -/
theorem FlagState.Entered.frame_eq (h : s.Entered p plan Q) :
    ∃ entry, s.frame = plan.frame s.frame.function entry ∧ Q s.sites entry := by
  obtain ⟨flag, frame, callers⟩ := s
  cases h with
  | root hentry => exact ⟨_, rfl, hentry⟩
  | call _ _ _ hentry => exact ⟨_, rfl, hentry⟩

/-- The innermost call on the stack was made at a call site of the function it returns to. -/
theorem FlagState.Entered.caller (h : s.Entered p plan Q) {caller : FlagFrame}
    {callers : List (InstId × FlagFrame)} (hcallers : s.callers = (id, caller) :: callers) :
    ∃ site, p.callSite site.id = .ok site ∧ site.id = id ∧ site.function = caller.function ∧
      FlagFrames p plan Q caller callers := by
  obtain ⟨flag, frame, _⟩ := s
  obtain rfl := hcallers
  cases h with
  | call hsite hfunction hcaller _ => exact ⟨_, hsite, rfl, hfunction, hcaller⟩

/-- What is known of the flags that frames were entered with may be weakened. -/
theorem FlagFrames.mono {frame : FlagFrame} {callers : List (InstId × FlagFrame)}
    (h : FlagFrames p plan Q frame callers) (hQ : ∀ sites entry, Q sites entry → Q' sites entry) :
    FlagFrames p plan Q' frame callers := by
  induction h with
  | root hentry => exact .root (hQ _ _ hentry)
  | call hsite hfunction _ hentry ih => exact .call hsite hfunction ih (hQ _ _ hentry)

/-- The root is entered with the flag it is started with. -/
theorem entered_start {root : FunctionId} {flag : Word} (h : Q [] flag) :
    (plan.start root flag).Entered p plan Q := .root h

/-- A call is made with the flag that the role of its call site says. -/
theorem step_call (hreg : g.Registry p max) (hplan : planFlags p config g = .ok plan)
    {entry : Word} (hframe : s.frame = plan.frame s.frame.function entry)
    (hsite : p.callSite site.id = .ok site) (hfunction : site.function = s.frame.function)
    (callee : FunctionId) : plan.step p s (.call site.id callee) =
      some ⟨g.flagBefore site entry s.flag, plan.frame callee (g.flagBefore site entry s.flag),
        (site.id, s.frame) :: s.callers⟩ := by
  have hbefore : plan.before s.frame.function site.id s.frame.locals s.flag =
      some (g.flagBefore site entry s.flag) := by
    rw [hframe, ← hfunction]
    exact FlagPlan.before_enter hreg hplan hsite
  exact FlagPlan.step_call_eq_some hsite hfunction hbefore callee

/-- No call is made at anything but a call site of the function that runs. -/
theorem step_call_eq_none {callee : FunctionId} (h : ∀ site, p.callSite id = .ok site →
    site.function ≠ s.frame.function) : plan.step p s (.call id callee) = none := by
  rw [FlagPlan.step]
  split
  · rename_i site hsite
    exact if_neg (h site hsite)
  · rfl

/-- A return clears the flag when the role of the call site says so. -/
theorem step_ret (hreg : g.Registry p max) (hplan : planFlags p config g = .ok plan)
    {caller : FlagFrame} {callers : List (InstId × FlagFrame)}
    (hcallers : s.callers = (site.id, caller) :: callers) (hsite : p.callSite site.id = .ok site)
    (hfunction : site.function = caller.function) :
    plan.step p s .ret = some ⟨g.flagAfter site s.flag, caller, callers⟩ := by
  rw [FlagPlan.step_ret_eq_some hcallers, ← hfunction, FlagPlan.after_eq hreg hplan hsite]

/-- What a step can do: a call is made with the flag that the role of its call site says, and a
return clears the flag when it says so. -/
theorem step_cases_of_frames (hreg : g.Registry p max) (hplan : planFlags p config g = .ok plan)
    (hs : s.Entered p plan Q) {event : FlagEvent} (h : plan.step p s event = some s') :
    (∃ site callee entry, event = .call site.id callee ∧ p.callSite site.id = .ok site ∧
      Q s.sites entry ∧ s'.flag = g.flagBefore site entry s.flag ∧
      s'.sites = site.id :: s.sites ∧ (Q s'.sites s'.flag → s'.Entered p plan Q)) ∨
    (∃ site, event = .ret ∧ p.callSite site.id = .ok site ∧ s.sites = site.id :: s'.sites ∧
      s'.flag = g.flagAfter site s.flag ∧ s'.Entered p plan Q) := by
  rcases FlagPlan.step_cases h with
    ⟨site, callee, flag, rfl, hsite, hfunction, -, -⟩ | ⟨id, caller, callers, rfl, hcallers, -⟩
  · obtain ⟨entry, hframe, hentry⟩ := hs.frame_eq
    rw [step_call hreg hplan hframe hsite hfunction] at h
    obtain rfl := Option.some.inj h
    exact Or.inl ⟨site, callee, entry, rfl, hsite, hentry, rfl, rfl,
      fun hQ => .call hsite hfunction hs hQ⟩
  · obtain ⟨site, hsite, rfl, hfunction, hcaller⟩ := hs.caller hcallers
    rw [step_ret hreg hplan hcallers hsite hfunction] at h
    obtain rfl := Option.some.inj h
    refine Or.inr ⟨site, rfl, hsite, ?_, rfl, hcaller⟩
    rw [FlagState.sites, hcallers]
    rfl

/-- What is known of the flags that frames are entered with stays known along a run, when every call
hands it on. -/
theorem entered_of_run (hreg : g.Registry p max) (hplan : planFlags p config g = .ok plan)
    (hcall : ∀ {site : CallSite} {sites : List InstId} {entry flag : Word},
      p.callSite site.id = .ok site → Q sites entry →
        Q (site.id :: sites) (g.flagBefore site entry flag))
    (hs : s.Entered p plan Q) {events : List FlagEvent} (hrun : plan.run p s events = some s') :
    s'.Entered p plan Q := by
  refine FlagPlan.run_invariant (fun s event s' hs hstep => ?_) hs hrun
  rcases step_cases_of_frames hreg hplan hs hstep with
    ⟨site, _, entry, -, hsite, hentry, hflag, hsites, hentered⟩ | ⟨_, -, -, -, -, hentered⟩
  · apply hentered
    rw [hsites, hflag]
    exact hcall hsite hentry
  · exact hentered

/-! ## Trees of frames -/

/-- What a frame does: the calls it makes one after the other, each with what the frame does that it
enters. -/
inductive FrameTree where
  /-- It makes no more calls. -/
  | done
  /-- It makes a call, and more calls once that has returned. -/
  | call (site : InstId) (callee : FunctionId) (inner rest : FrameTree)

namespace FrameTree

/-- The events of a frame in their order. -/
def events : FrameTree → List FlagEvent
  | done => []
  | call site callee inner rest => .call site callee :: inner.events ++ .ret :: rest.events

/-- A frame of a function makes its calls at call sites of this function, as do the frames that it
enters. -/
def MadeBy (p : Program) (function : FunctionId) : FrameTree → Prop
  | done => True
  | call site callee inner rest =>
    (∃ c, p.callSite site = .ok c ∧ c.function = function) ∧ inner.MadeBy p callee ∧
      rest.MadeBy p function

end FrameTree

/-- A plan lets every call be made: whatever flag a frame was entered with, the stores before the
call can be performed. -/
def FlagPlan.CanCall (p : Program) (plan : FlagPlan) : Prop :=
  ∀ (site : CallSite) (entry flag : Word), p.callSite site.id = .ok site → ∃ flag',
    plan.before site.function site.id (plan.enter site.function entry) flag = some flag'

namespace FlagPlan.CanCall

/-- Every tree of frames is walked to its end, where the stack is as it was. -/
theorem exists_run_of_tree (hcan : plan.CanCall p) {tree : FrameTree}
    (hs : s.Entered p plan fun _ _ => True) (htree : tree.MadeBy p s.frame.function) :
    ∃ s', plan.run p s tree.events = some s' ∧ s'.frame = s.frame ∧ s'.callers = s.callers := by
  induction tree generalizing s with
  | done => exact ⟨s, rfl, rfl, rfl⟩
  | call id callee inner rest ihInner ihRest =>
    obtain ⟨⟨site, hsite, hfunction⟩, hinner, hrest⟩ := htree
    obtain rfl := Program.callSite_id hsite
    obtain ⟨entry, hframe, -⟩ := hs.frame_eq
    obtain ⟨flag, hbefore⟩ := hcan site entry s.flag hsite
    have hcall : plan.step p s (.call site.id callee) =
        some ⟨flag, plan.frame callee flag, (site.id, s.frame) :: s.callers⟩ := by
      refine step_call_eq_some hsite hfunction ?_ callee
      rw [hframe, ← hfunction]
      exact hbefore
    -- The frame that is entered walks its own tree and returns to this one.
    have hentered : FlagState.Entered p plan (fun _ _ => True)
        ⟨flag, plan.frame callee flag, (site.id, s.frame) :: s.callers⟩ :=
      .call hsite hfunction hs trivial
    obtain ⟨s₁, hs₁, -, hcallers⟩ := ihInner hentered hinner
    have hret : plan.step p s₁ .ret =
        some ⟨plan.after s.frame.function site.id s₁.flag, s.frame, s.callers⟩ :=
      step_ret_eq_some hcallers
    -- Back in this frame, the flag may be another one, but the frame is the same.
    have hreturned : FlagState.Entered p plan (fun _ _ => True)
        ⟨plan.after s.frame.function site.id s₁.flag, s.frame, s.callers⟩ := hs
    obtain ⟨s₂, hs₂, hframe₂, hcallers₂⟩ := ihRest hreturned hrest
    refine ⟨s₂, ?_, hframe₂, hcallers₂⟩
    rw [FrameTree.events, List.cons_append, FlagPlan.run_cons, hcall, Option.bind_some,
      FlagPlan.run_append, hs₁, Option.bind_some, FlagPlan.run_cons, hret, Option.bind_some, hs₂]

/-- Every point of an execution is reached by a run: the events up to it lead to a state. -/
theorem exists_run_upTo (hcan : plan.CanCall p) {tree : FrameTree} {root : FunctionId}
    {flag : Word} {events : List FlagEvent} (htree : tree.MadeBy p root)
    (hevents : events <+: tree.events) :
    ∃ s, plan.run p (plan.start root flag) events = some s := by
  obtain ⟨later, hlater⟩ := hevents
  obtain ⟨s', hs', -⟩ := hcan.exists_run_of_tree (entered_start trivial) htree
    (s := plan.start root flag)
  rw [← hlater, FlagPlan.run_append, Option.bind_eq_some_iff] at hs'
  obtain ⟨s, hs, -⟩ := hs'
  exact ⟨s, hs⟩

end FlagPlan.CanCall

/-- Under the plan of a graph with a registry, every point of an execution is reached by a run. -/
theorem exists_run_of_prefix (hreg : g.Registry p max) (hplan : planFlags p config g = .ok plan)
    {tree : FrameTree} {root : FunctionId} {flag : Word} {events : List FlagEvent}
    (htree : tree.MadeBy p root) (hevents : events <+: tree.events) :
    ∃ s, plan.run p (plan.start root flag) events = some s := by
  have hcan : plan.CanCall p := fun site entry flag hsite =>
    ⟨_, FlagPlan.before_enter hreg hplan hsite⟩
  exact hcan.exists_run_upTo htree hevents

end HeapDomains
