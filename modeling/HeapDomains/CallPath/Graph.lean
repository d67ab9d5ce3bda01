import HeapDomains.CallPath.Record

/-!
# Call-path graphs

A node for every call site on a path from an allocation outwards, and an edge from each call site to
the next one further out. Nodes are numbered in the order of their creation. Some call sites are
entries, where a path ends; `descendantsOfEntries` are the others from which an entry is reached
going outwards. The role of a call site follows from the entries and the exempt call sites.
-/

namespace HeapDomains

/-- A call site on some path. -/
structure CallPathNode where
  /-- The call site. -/
  callSite : InstId
  /-- The function the call is made from. -/
  function : FunctionId
  deriving DecidableEq

/-- What a call site does about the flag. -/
inductive CallSiteRole where
  /-- A path ends here: the call raises its flag bits whatever the flag was. -/
  | entry
  /-- An entry further out has raised the flag: the call leaves it alone. -/
  | exempt
  /-- The call passes the flag on and clears it afterwards. -/
  | guarded
  deriving DecidableEq

/-- The name of a role. -/
def CallSiteRole.name : CallSiteRole → String
  | entry => "entry"
  | exempt => "exempt"
  | guarded => "guarded"

/-- An edge from a call site to the next one further out. -/
structure CallPathEdge where
  /-- The call site nearer to the allocation. -/
  inner : InstId
  /-- The call site one level further out. -/
  outer : InstId
  deriving DecidableEq

/-- A graph of call paths. -/
structure CallPathGraph where
  /-- The nodes in the order of their creation. -/
  nodes : List CallPathNode
  /-- The edges in the order of their creation. -/
  edges : List CallPathEdge
  /-- The flag records of the functions with flagged call sites. -/
  records : OrderedMap FunctionId FlagRecord
  /-- The call sites where a path ends. -/
  entries : OrderedSet InstId
  /-- The call sites that need no flag management. -/
  exempt : OrderedSet InstId
  /-- The functions that are known to be called. -/
  callees : OrderedMap InstId FunctionId
  /-- The functions entered through a call whose target is not known from the instruction. -/
  indirectTargets : OrderedMap InstId (OrderedSet FunctionId)
  /-- The call sites that occur in a calling context. -/
  heapMoves : OrderedSet InstId
  deriving DecidableEq

namespace CallPathGraph

/-- The graph without nodes. -/
def empty : CallPathGraph where
  nodes := []
  edges := []
  records := OrderedMap.empty
  entries := OrderedSet.empty
  exempt := OrderedSet.empty
  callees := OrderedMap.empty
  indirectTargets := OrderedMap.empty
  heapMoves := OrderedSet.empty

instance : Inhabited CallPathGraph := ⟨empty⟩

/-- The number of the node of a call site. -/
def node? (g : CallPathGraph) (site : InstId) : Option Nat :=
  g.nodes.findIdx? (fun n => n.callSite == site)

/-- Whether a call site has a node. -/
def contains (g : CallPathGraph) (site : InstId) : Bool := (g.node? site).isSome

/-- The number of the node of a call site, which has to exist. -/
def node (g : CallPathGraph) (site : InstId) : Except InvariantViolation Nat :=
  match g.node? site with
  | some index => .ok index
  | none => .error (.unknownCallSite site)

/-- The graph with a node for a call site, and the number of that node. A call site that has a node
keeps it, with the function it was created for. -/
def ensureNode (g : CallPathGraph) (site : InstId) (function : FunctionId) :
    CallPathGraph × Nat :=
  match g.node? site with
  | some index => (g, index)
  | none => ({ g with nodes := g.nodes ++ [⟨site, function⟩] }, g.nodes.length)

/-- The graph with an edge outwards; both call sites need a node, of which the inner one is looked
up first. -/
def link (g : CallPathGraph) (inner outer : InstId) : Except InvariantViolation CallPathGraph := do
  let _ ← g.node inner
  let _ ← g.node outer
  if ⟨inner, outer⟩ ∈ g.edges then return g
  return { g with edges := g.edges ++ [⟨inner, outer⟩] }

/-- The flag record of a function. -/
def record? (g : CallPathGraph) (function : FunctionId) : Option FlagRecord :=
  g.records.get? function

/-- The flag record of a function, without call sites when there is none yet. -/
def recordOrNew (g : CallPathGraph) (function : FunctionId) : FlagRecord :=
  (g.record? function).getD (FlagRecord.new function)

/-- The graph with a flag record of a function. -/
def setRecord (g : CallPathGraph) (function : FunctionId) (r : FlagRecord) : CallPathGraph :=
  { g with records := g.records.insert function r }

/-- Gives a call site a flag bit in the record of a function. The record exists afterwards even when
no bit is left. -/
def assign (g : CallPathGraph) (function : FunctionId) (site : InstId) (max : UInt32) :
    CallPathGraph × Except InvariantViolation Nat :=
  match (g.recordOrNew function).assign site max with
  | .ok (r, bit) => (g.setRecord function r, .ok bit)
  | .error violation => (g.setRecord function (g.recordOrNew function), .error violation)

/-- Adds a bit to those a call site raises. -/
def addArgBit (g : CallPathGraph) (function : FunctionId) (site : InstId) (bit : Nat) :
    CallPathGraph :=
  g.setRecord function ((g.recordOrNew function).addArgBit site bit)

/-- Makes a call site an entry. -/
def markEntry (g : CallPathGraph) (site : InstId) : CallPathGraph :=
  { g with entries := g.entries.insert site }

/-- Replaces the exempt call sites. -/
def setExempt (g : CallPathGraph) (sites : OrderedSet InstId) : CallPathGraph :=
  { g with exempt := sites }

/-- Notes the function that a call site is known to call. -/
def recordCallee (g : CallPathGraph) (site : InstId) (callee : FunctionId) : CallPathGraph :=
  { g with callees := g.callees.insert site callee }

/-- Notes a function that is entered through a call site of unknown target. -/
def recordIndirectTarget (g : CallPathGraph) (site : InstId) (target : FunctionId) :
    CallPathGraph :=
  { g with
    indirectTargets := g.indirectTargets.modify site fun old =>
      (old.getD OrderedSet.empty).insert target }

/-- Notes that a call site occurs in a calling context. -/
def markHeapMove (g : CallPathGraph) (site : InstId) : CallPathGraph :=
  { g with heapMoves := g.heapMoves.insert site }

/-- The call sites one level further out. -/
def outerNeighbors (g : CallPathGraph) (site : InstId) :
    Except InvariantViolation (OrderedSet InstId) :=
  (g.node site).map fun _ =>
    OrderedSet.ofList ((g.edges.filter (fun e => e.inner == site)).map (·.outer))

/-- The call sites one level nearer to an allocation. -/
def innerNeighbors (g : CallPathGraph) (site : InstId) :
    Except InvariantViolation (OrderedSet InstId) :=
  (g.node site).map fun _ =>
    OrderedSet.ofList ((g.edges.filter (fun e => e.outer == site)).map (·.inner))

/-- A set of call sites with those from which an edge leads into it. -/
def widen (edges : List CallPathEdge) (sites : OrderedSet InstId) : OrderedSet InstId :=
  sites.union (OrderedSet.ofList ((edges.filter (fun e => sites.contains e.outer)).map (·.inner)))

/-- A set of call sites widened again and again, at most `rounds` times, until nothing is new. -/
def saturate (edges : List CallPathEdge) : Nat → OrderedSet InstId → OrderedSet InstId
  | 0, sites => sites
  | rounds + 1, sites =>
    if widen edges sites = sites then sites else saturate edges rounds (widen edges sites)

/-- The call sites with a node, other than entries, from which an entry is reached going outwards.
Each round of the search but the last finds a node, so as many rounds as there are nodes find all.
-/
def descendantsOfEntries (g : CallPathGraph) : OrderedSet InstId :=
  (saturate g.edges g.nodes.length (g.entries.filter g.contains)).filter
    (fun site => !g.entries.contains site)

/-- The role of a call site: an entry even when it is exempt too. -/
def role (g : CallPathGraph) (site : InstId) : Except InvariantViolation CallSiteRole :=
  (g.node site).map fun _ =>
    if site ∈ g.entries then .entry else if site ∈ g.exempt then .exempt else .guarded

/-- The function a call site is known to call. -/
def callee? (g : CallPathGraph) (site : InstId) : Option FunctionId := g.callees.get? site

/-- The functions entered through some call of unknown target. -/
def indirectlyReached (g : CallPathGraph) : OrderedSet FunctionId :=
  OrderedSet.ofList (g.indirectTargets.values.flatMap (·.toList))

/-- The call sites with a node. -/
def callSites (g : CallPathGraph) : OrderedSet InstId :=
  OrderedSet.ofList (g.nodes.map (·.callSite))

end CallPathGraph

end HeapDomains
