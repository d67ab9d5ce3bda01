import HeapDomains.Proofs.CallPath.Graph
import HeapDomains.Proofs.Classification

/-!
# The walk of the call-path builder

The builder as a transition system: between two paths, or at the call site it has walked to on the
present one. `Walk` says what is done, what is walked of the present path and where the builder
stands, and its four rules are the steps of the builder. `walk_of_build` shows that a graph that is
built is the end of such a walk, so what every rule keeps holds of every built graph, and of every
graph the builder has on the way.
-/

namespace HeapDomains

namespace CallPathGraph

/-- The builder has added the paths of some allocations, has walked part of the next path, and
stands at the call site it has come to, or at none between two paths. -/
inductive Walk (p : Program) (max : UInt32) :
    List AllocationSite → List InstId → Option CallSite → CallPathGraph → Prop
  /-- The builder starts with the graph without nodes. -/
  | empty : Walk p max [] [] none CallPathGraph.empty
  /-- It starts a path at the call that allocates. -/
  | start {done : List AllocationSite} {g g' : CallPathGraph} {s : InstId} {alloc : CallSite} :
    Walk p max done [] none g → p.callSite s = .ok alloc → g.register max alloc 0 = .ok g' →
      Walk p max done [s] (some alloc) (g'.recordAllocator alloc)
  /-- It walks one level outwards. -/
  | level {done : List AllocationSite} {path : List InstId} {g g' : CallPathGraph} {s : InstId}
      {inner outer : CallSite} :
    Walk p max done path (some inner) g → p.callSite s = .ok outer →
      g.addLevel max inner outer = .ok g' → Walk p max done (path ++ [s]) (some outer) g'
  /-- It ends a path that is walked to the end. -/
  | finish {done : List AllocationSite} {g : CallPathGraph} {site : AllocationSite}
      {last : CallSite} :
    Walk p max done site.path (some last) g →
      Walk p max (done ++ [site]) [] none (g.markEntry last.id)

variable {p : Program} {config : PassConfig} {c : Classification} {max : UInt32}
  {g g' : CallPathGraph} {done : List AllocationSite} {path levels : List InstId}
  {inner : CallSite} {site : AllocationSite}

/-- The builder stands at the last call site of what it has walked. -/
theorem Walk.getLast? (h : Walk p max done path (some inner) g) :
    path.getLast? = some inner.id ∧ p.callSite inner.id = .ok inner := by
  generalize hat : some inner = position at h
  cases h with
  | empty => simp at hat
  | start _ hs _ =>
    obtain rfl := Option.some.inj hat
    rw [Program.callSite_id hs]
    exact ⟨rfl, hs⟩
  | level _ hs _ =>
    obtain rfl := Option.some.inj hat
    rw [Program.callSite_id hs]
    exact ⟨List.getLast?_concat, hs⟩
  | finish _ => simp at hat

/-- Adding the rest of a path is a walk to its end. -/
theorem walk_of_addContext (hwalk : Walk p max done path (some inner) g)
    (hpath : site.path = path ++ levels) (h : addContext p max g inner levels = .ok g') :
    Walk p max (done ++ [site]) [] none g' := by
  -- The walk goes on from the call site it has come to, so all but the end of the path varies.
  induction levels generalizing path g inner with
  | nil =>
    obtain rfl := Except.ok.inj h
    rw [List.append_nil] at hpath
    exact .finish (hpath ▸ hwalk)
  | cons level rest ih =>
    rw [addContext, bind_eq_ok] at h
    obtain ⟨outer, houter, h⟩ := h
    rw [bind_eq_ok] at h
    obtain ⟨g₁, hg₁, h⟩ := h
    exact ih (.level hwalk houter hg₁) (by rw [hpath, List.append_assoc]; rfl) h

/-- Adding the path of an allocation is a walk from one end to the other. -/
theorem walk_of_addPath (hwalk : Walk p max done [] none g) (h : addPath p max g site = .ok g') :
    Walk p max (done ++ [site]) [] none g' := by
  rw [addPath, bind_eq_ok] at h
  obtain ⟨alloc, halloc, h⟩ := h
  rw [bind_eq_ok] at h
  obtain ⟨g₁, hg₁, h⟩ := h
  exact walk_of_addContext (.start hwalk halloc hg₁) rfl h

/-- Exempting call sites changes nothing but the exempt call sites. -/
theorem exemptBy_eq {e : Exemption} :
    g.exemptBy e = { g with exempt := (g.exemptBy e).exempt } := by
  cases e with
  | descendants => rfl
  | disabled => rfl

/-- A graph that is built is the end of a walk, with call sites exempted afterwards. -/
theorem walk_of_build (h : build p config c = .ok g) :
    ∃ g₀, Walk p config.maxFlagBits c.allocations [] none g₀ ∧
      g = g₀.exemptBy config.exemption := by
  rw [build, bind_eq_ok] at h
  obtain ⟨g₀, hg₀, h⟩ := h
  refine ⟨g₀, ?_, (Except.ok.inj h).symm⟩
  exact foldlM_invariant (P := fun done g => Walk p config.maxFlagBits done [] none g) .empty
    (fun _ _ _ _ hwalk hstep => walk_of_addPath hwalk hstep) hg₀

end CallPathGraph

end HeapDomains
