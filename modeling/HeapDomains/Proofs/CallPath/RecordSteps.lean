import HeapDomains.Proofs.CallPath.Record
import HeapDomains.Proofs.Mention

/-!
# Records that are made step by step

A flag record may be asked for bits in any order and with another limit each time, and be told in
between which bits call sites raise. `RecordStep` lists what can be done to a record, and `ofSteps`
does it one after the other, where a request that fails leaves the record as it is.

The call sites of the record are then those whose requests were met, as they first were
(`callSites_ofSteps`). A call site has the bit of its place among them, so it keeps it whatever is
done later (`bit?_ofSteps_append`). It raises the bits that were added for it
(`mem_argBitsOf_ofSteps`), and while words have these bits, so does its mask. `GivesOutBits` says
all this of the record, and when it fails to give out a bit.
-/

namespace HeapDomains

/-- Something that can be done to a flag record. -/
inductive RecordStep where
  /-- A call site asks for a bit, of which there are `max`. -/
  | assign (site : InstId) (max : UInt32)
  /-- A call site raises one more bit. -/
  | addArgBit (site : InstId) (bit : Nat)

namespace FlagRecord

variable {F : FunctionId} {steps more : List RecordStep} {step : RecordStep} {r : FlagRecord}
  {s : InstId} {b n : Nat}

/-- The record after a step, which is the one from before when no bit is left. -/
def apply (r : FlagRecord) : RecordStep → FlagRecord
  | .assign site max =>
    match r.assign site max with
    | .ok (r', _) => r'
    | .error _ => r
  | .addArgBit site bit => r.addArgBit site bit

/-- The record that steps make of the new one of a function. -/
def ofSteps (F : FunctionId) (steps : List RecordStep) : FlagRecord := steps.foldl apply (new F)

/-- The call site whose request for a bit is met by a step. -/
def served? (r : FlagRecord) : RecordStep → Option InstId
  | .assign site max => if errorOf? (r.assign site max) = none then some site else none
  | .addArgBit _ _ => none

/-- The call sites whose requests for a bit are met by steps, in the order of the steps. -/
def servedFrom (r : FlagRecord) : List RecordStep → List InstId
  | [] => []
  | step :: rest => (r.served? step).toList ++ (r.apply step).servedFrom rest

/-- The call sites whose requests for a bit were met by the steps that made a record. -/
def served (F : FunctionId) (steps : List RecordStep) : List InstId := (new F).servedFrom steps

/-! ## Single steps -/

/-- A step puts a call site whose request it meets at the end, unless it is there already. -/
theorem callSites_apply : (r.apply step).callSites = match r.served? step with
    | some site => if site ∈ r.callSites then r.callSites else r.callSites ++ [site]
    | none => r.callSites := by
  cases step with
  | addArgBit site bit => rfl
  | assign site max =>
    rw [apply, served?]
    cases h : r.assign site max with
    | error violation => rfl
    | ok answer =>
      have hcallSites := callSites_assign_eq h
      rwa [ite_not] at hcallSites

/-- A step leaves the function of a record. -/
theorem function_apply : (r.apply step).function = r.function := by
  cases step with
  | addArgBit site bit => rfl
  | assign site max =>
    rw [apply]
    split
    · next h => exact (argBits_assign h).1
    · rfl

/-- A bit is raised after a step that adds it, and when it was raised before. -/
theorem mem_argBitsOf_apply :
    b ∈ (r.apply step).argBitsOf s ↔ b ∈ r.argBitsOf s ∨ step = .addArgBit s b := by
  cases step with
  | addArgBit site bit =>
    rw [apply, mem_argBitsOf_addArgBit, RecordStep.addArgBit.injEq, or_comm, eq_comm (a := s),
      eq_comm (a := b)]
  | assign site max =>
    have hkept : (r.apply (.assign site max)).argBitsOf s = r.argBitsOf s := by
      rw [apply]
      split
      · next h => rw [argBitsOf, (argBits_assign h).2, ← argBitsOf]
      · rfl
    rw [hkept]
    simp

/-- A step keeps a record with fewer call sites than there are limits, since a new call site is
below its limit. -/
theorem size_apply_lt (h : r.size < UInt32.size) : (r.apply step).size < UInt32.size := by
  cases step with
  | addArgBit site bit => exact h
  | assign site max =>
    rw [apply]
    split
    · next r' bit hassign =>
      rcases (assign_ok hassign).2 with ⟨-, rfl⟩ | ⟨-, hlt, rfl⟩
      · exact h
      · have hmax : max.toNat < UInt32.size := max.toNat_lt_size
        have hsize : size { r with callSites := r.callSites ++ [site] } = r.callSites.length + 1 :=
          List.length_append
        omega
    · exact h

/-! ## Steps one after the other -/

/-- Steps are taken one after the other. -/
theorem ofSteps_concat : ofSteps F (steps ++ [step]) = (ofSteps F steps).apply step := by
  rw [ofSteps, List.foldl_append, List.foldl_cons, List.foldl_nil, ofSteps]

/-- What holds of a new record and is kept by every step holds of all records made by steps. -/
theorem ofSteps_invariant {P : FlagRecord → Prop} (hnew : P (new F))
    (hstep : ∀ r step, P r → P (r.apply step)) : P (ofSteps F steps) := by
  induction steps using List.reverseRecOn with
  | nil => exact hnew
  | append_singleton steps step ih =>
    rw [ofSteps_concat]
    exact hstep _ _ ih

/-- Requests are met by steps and by those that follow them. -/
theorem servedFrom_append : r.servedFrom (steps ++ more) =
    r.servedFrom steps ++ (steps.foldl apply r).servedFrom more := by
  induction steps generalizing r with
  | nil => rfl
  | cons step rest ih =>
    rw [List.cons_append, servedFrom, ih, servedFrom, List.append_assoc, List.foldl_cons]

/-- The last step meets a request on the record that the others have made. -/
theorem served_concat :
    served F (steps ++ [step]) = served F steps ++ ((ofSteps F steps).served? step).toList := by
  rw [served, servedFrom_append, servedFrom, servedFrom, List.append_nil, served, ofSteps]

/-- The call sites of a record are those whose requests were met, as they first were. -/
theorem callSites_ofSteps : (ofSteps F steps).callSites = (served F steps).eraseDups := by
  induction steps using List.reverseRecOn with
  | nil => rfl
  | append_singleton steps step ih =>
    rw [ofSteps_concat, served_concat, callSites_apply]
    cases (ofSteps F steps).served? step with
    | none =>
      rw [Option.toList_none, List.append_nil]
      exact ih
    | some site =>
      have hmem : site ∈ (ofSteps F steps).callSites ↔ site ∈ served F steps := by
        rw [ih, List.mem_eraseDups]
      rw [Option.toList_some, eraseDups_concat, ← ih]
      simp only [hmem]

/-- No call site is listed twice. -/
theorem nodup_callSites_ofSteps : (ofSteps F steps).callSites.Nodup := by
  rw [callSites_ofSteps]
  exact nodup_eraseDups

/-- More steps put call sites at the end of those that are there. -/
theorem callSites_prefix :
    (ofSteps F steps).callSites <+: (ofSteps F (steps ++ more)).callSites := by
  rw [callSites_ofSteps, callSites_ofSteps, served, served, servedFrom_append]
  exact prefix_eraseDups (List.prefix_append _ _)

/-- More steps leave the bits that were given out. -/
theorem bit?_ofSteps_append (h : (ofSteps F steps).bit? s = some n) :
    (ofSteps F (steps ++ more)).bit? s = some n := by
  have hprefix : (ofSteps F steps).callSites <+: (ofSteps F (steps ++ more)).callSites :=
    callSites_prefix
  obtain ⟨later, hlater⟩ := hprefix
  exact bit?_append h hlater.symm

/-- A call site raises the bits that were added for it. -/
theorem mem_argBitsOf_ofSteps : b ∈ (ofSteps F steps).argBitsOf s ↔ .addArgBit s b ∈ steps := by
  induction steps using List.reverseRecOn with
  | nil => exact iff_of_false (OrderedSet.not_mem_empty b) List.not_mem_nil
  | append_singleton steps step ih =>
    rw [ofSteps_concat, mem_argBitsOf_apply, ih, List.mem_append, List.mem_singleton,
      eq_comm (b := step)]

/-- The mask of a call site is read off the set of bits that it raises, which knows neither the
order nor the repetition of their additions. -/
theorem argMask_ofSteps_congr {F' : FunctionId} {steps' : List RecordStep}
    (h : ∀ b, .addArgBit s b ∈ steps' ↔ .addArgBit s b ∈ steps) :
    (ofSteps F' steps').argMask s = (ofSteps F steps).argMask s := by
  have hbits : (ofSteps F' steps').argBitsOf s = (ofSteps F steps).argBitsOf s := by
    refine OrderedSet.ext fun b => ?_
    rw [mem_argBitsOf_ofSteps, mem_argBitsOf_ofSteps, h]
  rw [argMask, argMask, hbits]

/-- There are never more call sites than the largest limit. -/
theorem size_ofSteps_lt : (ofSteps F steps).size < UInt32.size := by
  have hnew : (new F).size < UInt32.size := by
    show 0 < UInt32.size
    decide
  exact ofSteps_invariant (P := fun r => r.size < UInt32.size) hnew fun _ _ => size_apply_lt

/-- Steps leave the function of a record. -/
theorem function_ofSteps : (ofSteps F steps).function = F :=
  ofSteps_invariant (P := fun r => r.function = F) rfl fun _ _ h => function_apply.trans h

/-- A request fails when none of the call site was met before and the record has no fewer call sites
than there are bits. -/
theorem errorOf?_assign_ofSteps (site : InstId) (max : UInt32) :
    errorOf? ((ofSteps F steps).assign site max) =
      if site ∉ served F steps ∧ max.toNat ≤ (ofSteps F steps).size then
        some (.flagBitsExhausted F max) else none := by
  have hmem : site ∈ (ofSteps F steps).callSites ↔ site ∈ served F steps := by
    rw [callSites_ofSteps, List.mem_eraseDups]
  rw [errorOf?_assign, function_ofSteps]
  exact if_congr (and_congr_left' (not_congr hmem)) rfl rfl

/-- A request that fails leaves a record. -/
theorem apply_assign_of_errorOf? {site : InstId} {max : UInt32}
    (h : errorOf? (r.assign site max) ≠ none) : r.apply (.assign site max) = r := by
  rw [apply]
  split
  · next hassign =>
    rw [hassign] at h
    exact absurd rfl h
  · rfl

/-- What a flag record gives out, and which bits its call sites raise, follows from the steps that
made it. -/
structure GivesOutBits (F : FunctionId) (steps : List RecordStep) : Prop where
  /-- No call site is listed twice. -/
  callSites_nodup : (ofSteps F steps).callSites.Nodup
  /-- Those whose requests were met are listed, as they first were. -/
  callSites_eq : (ofSteps F steps).callSites = (served F steps).eraseDups
  /-- The call site with bit `n` is the `n`-th one whose request was met, each counted once. -/
  bit?_eq_some_iff : ∀ site n,
    (ofSteps F steps).bit? site = some n ↔ (served F steps).eraseDups[n]? = some site
  /-- The number of call sites has 32 bits, and so have their bits. -/
  size_lt : (ofSteps F steps).size < UInt32.size
  /-- More steps leave a bit that was given out. -/
  bit?_append : ∀ more site n,
    (ofSteps F steps).bit? site = some n → (ofSteps F (steps ++ more)).bit? site = some n
  /-- The bit that is given out is that of the call site from then on. -/
  bit?_assign : ∀ site max r n, (ofSteps F steps).assign site max = .ok (r, n) →
    (ofSteps F (steps ++ [.assign site max])).bit? site = some n
  /-- A request fails when the call site is new and there are as many call sites as bits. -/
  errorOf?_assign : ∀ site max, errorOf? ((ofSteps F steps).assign site max) =
    if site ∉ served F steps ∧ max.toNat ≤ (ofSteps F steps).size then
      some (.flagBitsExhausted F max) else none
  /-- A request that fails changes nothing. -/
  ofSteps_assign : ∀ site max, errorOf? ((ofSteps F steps).assign site max) ≠ none →
    ofSteps F (steps ++ [.assign site max]) = ofSteps F steps
  /-- A call site raises the bits that were added for it. -/
  mem_argBitsOf_iff : ∀ site b, b ∈ (ofSteps F steps).argBitsOf site ↔ .addArgBit site b ∈ steps
  /-- While these are bits of a word, the mask has them and no others, in whichever order and how
  often they were added. -/
  argMask : ∀ site, (∀ b, .addArgBit site b ∈ steps → b < 64) →
    (∀ b, ((ofSteps F steps).argMask site).getLsbD b = true ↔ .addArgBit site b ∈ steps) ∧
      ∀ F' steps', (∀ b, .addArgBit site b ∈ steps' ↔ .addArgBit site b ∈ steps) →
        (ofSteps F' steps').argMask site = (ofSteps F steps).argMask site

/-- Whatever is done to a flag record, whether it succeeds or fails, call sites have the bits of
their places for good, and masks have the bits that were added. -/
theorem givesOutBits_ofSteps (F : FunctionId) (steps : List RecordStep) :
    GivesOutBits F steps where
  callSites_nodup := nodup_callSites_ofSteps
  callSites_eq := callSites_ofSteps
  bit?_eq_some_iff site n := by
    rw [← callSites_ofSteps]
    refine ⟨getElem?_of_bit?, fun h => ?_⟩
    obtain ⟨hlt, rfl⟩ := List.getElem?_eq_some_iff.1 h
    exact bit?_getElem nodup_callSites_ofSteps hlt
  size_lt := size_ofSteps_lt
  bit?_append more site n := bit?_ofSteps_append
  bit?_assign site max r n h := by
    rw [ofSteps_concat, apply, h]
    exact (assign_ok h).1
  errorOf?_assign := errorOf?_assign_ofSteps
  ofSteps_assign site max h := by
    rw [ofSteps_concat, apply_assign_of_errorOf? h]
  mem_argBitsOf_iff site b := mem_argBitsOf_ofSteps
  argMask site hlt := by
    refine ⟨fun b => ?_, fun F' steps' hsame => argMask_ofSteps_congr hsame⟩
    rw [← mem_argBitsOf_ofSteps (F := F)]
    exact getLsbD_argMask_of_lt fun bit hbit => hlt bit (mem_argBitsOf_ofSteps.1 hbit)

/-- A request that is repeated is met with any limit, and one that failed may be met later. -/
example : (ofSteps ⟨1⟩ [.assign ⟨10⟩ 1, .assign ⟨20⟩ 1, .assign ⟨30⟩ 2, .assign ⟨10⟩ 0,
    .assign ⟨20⟩ 3]).callSites = [⟨10⟩, ⟨30⟩, ⟨20⟩] := by
  decide

end FlagRecord

end HeapDomains
