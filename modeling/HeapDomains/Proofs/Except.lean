/-!
# Computations that may fail

When a computation in `Except` succeeds, and with which error it fails. Each stage of a run is such
a computation, so these facts take a successful run apart into its steps. `foldlM_invariant` is the
induction over a loop that may end early: it speaks of the items done so far, which is what the
loops of a run are about. `errorOf?_bind` and `errorOf?_foldlM` find the first failure of a sequence
and of a loop; `firstFailure?` says the same of a loop without what it computes.
-/

namespace HeapDomains

variable {ε α β : Type}

/-- A sequence succeeds when both of its parts do. -/
theorem bind_eq_ok {x : Except ε α} {f : α → Except ε β} {b : β} :
    (x >>= f) = .ok b ↔ ∃ a, x = .ok a ∧ f a = .ok b := by
  cases x with
  | error e => simp [bind, Except.bind]
  | ok a => simp [bind, Except.bind]

/-- A computation followed by a function succeeds when the computation does. -/
theorem map_eq_ok {x : Except ε α} {f : α → β} {b : β} :
    x.map f = .ok b ↔ ∃ a, x = .ok a ∧ f a = b := by
  cases x with
  | error e => simp [Except.map]
  | ok a => simp [Except.map]

/-- What holds of no items at the start and is kept by every step of a loop holds of all items at
the end. -/
theorem foldlM_invariant {f : β → α → Except ε β} {P : List α → β → Prop} {items : List α}
    {b b' : β} (hstart : P [] b)
    (hstep : ∀ done a b b', P done b → f b a = .ok b' → P (done ++ [a]) b')
    (h : items.foldlM f b = .ok b') : P items b' := by
  -- The items that are left are cut off one by one, so the items done vary with them.
  suffices hgen : ∀ items done b, P done b → items.foldlM f b = .ok b' → P (done ++ items) b' from
    hgen items [] b hstart h
  intro items
  induction items with
  | nil =>
    intro done b hb h
    obtain rfl : b = b' := Except.ok.inj h
    rwa [List.append_nil]
  | cons a rest ih =>
    intro done b hb h
    rw [List.foldlM_cons, bind_eq_ok] at h
    obtain ⟨mid, hmid, hrest⟩ := h
    have := ih (done ++ [a]) mid (hstep done a b mid hb hmid) hrest
    rwa [List.append_assoc] at this

/-! ## Failures -/

/-- The error that a computation ends with. -/
def errorOf? : Except ε α → Option ε
  | .error e => some e
  | .ok _ => none

/-- The error of a computation is the one it ends with. -/
theorem errorOf?_eq_some_iff {x : Except ε α} {e : ε} : errorOf? x = some e ↔ x = .error e := by
  cases x with
  | error e' => simp [errorOf?]
  | ok a => simp [errorOf?]

/-- A computation without an error succeeds. -/
theorem errorOf?_eq_none_iff {x : Except ε α} : errorOf? x = none ↔ ∃ a, x = .ok a := by
  cases x with
  | error e => simp [errorOf?]
  | ok a => simp [errorOf?]

/-- A sequence ends with the error of its first part, and after a first part that succeeds with that
of the second one. -/
theorem errorOf?_bind {x : Except ε α} {f : α → Except ε β} {next : Option ε}
    (h : ∀ a, x = .ok a → errorOf? (f a) = next) : errorOf? (x >>= f) = (errorOf? x).or next := by
  cases x with
  | error e => rfl
  | ok a => exact h a rfl

/-- The first failure among items, where the test of an item sees the items before it. -/
def firstFailure? (check : List α → α → Option ε) (done : List α) : List α → Option ε
  | [] => none
  | a :: rest => (check done a).or (firstFailure? check (done ++ [a]) rest)

/-- The first failure among the items of two lists is that of the first list, and without one there
that of the second list. -/
theorem firstFailure?_append {check : List α → α → Option ε} {done l m : List α} :
    firstFailure? check done (l ++ m) =
      (firstFailure? check done l).or (firstFailure? check (done ++ l) m) := by
  induction l generalizing done with
  | nil => rw [List.nil_append, List.append_nil, firstFailure?, Option.none_or]
  | cons a rest ih =>
    rw [List.cons_append, firstFailure?, ih, firstFailure?, Option.or_assoc, List.append_assoc]
    rfl

/-- The items of a list made of pieces are tested piece by piece. -/
theorem firstFailure?_flatMap {γ : Type} {check : List α → α → Option ε} {f : γ → List α}
    {done items : List γ} :
    firstFailure? (fun done c => firstFailure? check (done.flatMap f) (f c)) done items =
      firstFailure? check (done.flatMap f) (items.flatMap f) := by
  induction items generalizing done with
  | nil => rfl
  | cons c rest ih =>
    rw [firstFailure?, ih, List.flatMap_append, List.flatMap_singleton, List.flatMap_cons,
      firstFailure?_append]

/-- Items that are made of others are tested where those are. -/
theorem firstFailure?_map {γ : Type} {check : List α → α → Option ε} {f : γ → α}
    {done items : List γ} :
    firstFailure? (fun done c => check (done.map f) (f c)) done items =
      firstFailure? check (done.map f) (items.map f) := by
  induction items generalizing done with
  | nil => rfl
  | cons c rest ih =>
    rw [firstFailure?, ih, List.map_cons, firstFailure?, List.map_append, List.map_singleton]

/-- Some item is the first that fails. -/
theorem firstFailure?_eq_some_iff {check : List α → α → Option ε} {done items : List α} {e : ε} :
    firstFailure? check done items = some e ↔ ∃ before a after, items = before ++ a :: after ∧
      firstFailure? check done before = none ∧ check (done ++ before) a = some e := by
  constructor
  · intro h
    induction items generalizing done with
    | nil => simp [firstFailure?] at h
    | cons a rest ih =>
      rw [firstFailure?, Option.or_eq_some_iff] at h
      rcases h with hfirst | ⟨hnone, hrest⟩
      · exact ⟨[], a, rest, rfl, rfl, by rwa [List.append_nil]⟩
      · obtain ⟨before, b, after, rfl, hbefore, hb⟩ := ih hrest
        refine ⟨a :: before, b, after, rfl, ?_, ?_⟩
        · rw [firstFailure?, hnone, Option.none_or, hbefore]
        · rwa [List.append_assoc] at hb
  · rintro ⟨before, a, after, rfl, hbefore, ha⟩
    rw [firstFailure?_append, hbefore, Option.none_or, firstFailure?, ha, Option.some_or]

/-- No item fails a test that does not see the items before it when each item passes. -/
theorem firstFailure?_eq_none_iff {check : α → Option ε} {done items : List α} :
    firstFailure? (fun _ => check) done items = none ↔ ∀ a ∈ items, check a = none := by
  induction items generalizing done with
  | nil => simp [firstFailure?]
  | cons a rest ih => rw [firstFailure?, Option.or_eq_none_iff, ih, List.forall_mem_cons]

/-- No item fails when each passes a test of its own and no two have the same key, where an item fails
that does not pass or has the key of an item before it. -/
theorem firstFailure?_eq_none_iff_nodup {κ : Type} {check : List α → α → Option ε} {key : α → κ}
    {P : α → Prop} (hcheck : ∀ done a, check done a = none ↔ P a ∧ key a ∉ done.map key)
    {items : List α} :
    firstFailure? check [] items = none ↔ (∀ a ∈ items, P a) ∧ (items.map key).Nodup := by
  -- The items done so far are ones whose keys differ.
  suffices hgen : ∀ done : List α, (done.map key).Nodup → (firstFailure? check done items = none ↔
      (∀ a ∈ items, P a) ∧ ((done ++ items).map key).Nodup) from hgen [] List.nodup_nil
  induction items with
  | nil =>
    intro done hdone
    simpa [firstFailure?] using hdone
  | cons a rest ih =>
    intro done hdone
    rw [firstFailure?, Option.or_eq_none_iff, hcheck, List.forall_mem_cons]
    have hsnoc : ((done ++ [a]).map key).Nodup ↔ key a ∉ done.map key := by
      rw [List.map_append, List.map_singleton, List.nodup_append]
      refine ⟨fun h hmem => h.2.2 _ hmem _ (List.mem_singleton_self _) rfl,
        fun h => ⟨hdone, by simp, fun k hk k' hk' heq => h ?_⟩⟩
      rwa [← List.mem_singleton.1 hk', ← heq]
    constructor
    · rintro ⟨⟨ha, hkey⟩, hrest⟩
      obtain ⟨hP, hnodup⟩ := (ih (done ++ [a]) (hsnoc.2 hkey)).1 hrest
      exact ⟨⟨ha, hP⟩, by rwa [List.append_cons]⟩
    · rintro ⟨⟨ha, hP⟩, hnodup⟩
      rw [List.append_cons] at hnodup
      have hkey : ((done ++ [a]).map key).Nodup :=
        hnodup.sublist ((List.sublist_append_left _ _).map key)
      exact ⟨⟨ha, hsnoc.1 hkey⟩, (ih (done ++ [a]) hkey).2 ⟨hP, hnodup⟩⟩

/-- A loop ends with the failure of the first item that fails, where a test that sees the items done
so far says when a step fails. -/
theorem errorOf?_foldlM {f : β → α → Except ε β} {P : List α → β → Prop}
    {check : List α → α → Option ε} {done items : List α} {b : β}
    (hcheck : ∀ done b a, P done b → errorOf? (f b a) = check done a)
    (hstep : ∀ done a b b', P done b → f b a = .ok b' → P (done ++ [a]) b') (hb : P done b) :
    errorOf? (items.foldlM f b) = firstFailure? check done items := by
  induction items generalizing done b with
  | nil => rfl
  | cons a rest ih =>
    have hrest : ∀ b', f b a = .ok b' →
        errorOf? (rest.foldlM f b') = firstFailure? check (done ++ [a]) rest :=
      fun b' hb' => ih (hstep done a b b' hb hb')
    rw [List.foldlM_cons, errorOf?_bind hrest, hcheck done b a hb, firstFailure?]

end HeapDomains
