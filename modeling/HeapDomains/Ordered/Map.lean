import HeapDomains.Ordered.Set

/-!
# Ordered maps

A finite map from ranked keys, kept as the list of its entries in ascending order of their keys.
`get?_insert` and `get?_modify` say what the updates do to lookups.
-/

namespace HeapDomains

/-- A finite map from ranked keys, shown in ascending order of the keys. -/
structure OrderedMap (κ ν : Type) [Ranked κ] where
  /-- The entries in ascending order of their keys. -/
  entries : List (κ × ν)
  /-- Each key ranks below all that follow it. -/
  sorted : entries.Pairwise (fun a b => rank a.1 < rank b.1)

namespace OrderedMap

variable {κ ν : Type} [Ranked κ]

/-- The value at a key in a list of entries. -/
def find? (k : κ) : List (κ × ν) → Option ν
  | [] => none
  | e :: rest => if rank e.1 = rank k then some e.2 else find? k rest

/-- A sorted list of entries with the value at `k` replaced by what `f` makes of it. -/
def modifySorted (k : κ) (f : Option ν → ν) : List (κ × ν) → List (κ × ν)
  | [] => [(k, f none)]
  | e :: rest =>
    if rank k < rank e.1 then (k, f none) :: e :: rest
    else if rank e.1 < rank k then e :: modifySorted k f rest
    else (k, f (some e.2)) :: rest

/-- The keys after an update are the new key and the keys from before. -/
theorem mem_keys_modifySorted {k x : κ} {f : Option ν → ν} {l : List (κ × ν)} :
    x ∈ (modifySorted k f l).map Prod.fst ↔ x = k ∨ x ∈ l.map Prod.fst := by
  induction l with
  | nil => simp [modifySorted]
  | cons e rest ih =>
    simp only [modifySorted]
    split
    · simp
    · split
      · simp only [List.map_cons, List.mem_cons, ih]
        constructor
        · rintro (h | h | h) <;> simp [h]
        · rintro (h | h | h) <;> simp [h]
      · have hk : k = e.1 := Ranked.rank_inj _ _ (by omega)
        simp [hk]

/-- An update keeps the entries sorted. -/
theorem pairwise_modifySorted {k : κ} {f : Option ν → ν} {l : List (κ × ν)}
    (h : l.Pairwise (fun a b => rank a.1 < rank b.1)) :
    (modifySorted k f l).Pairwise (fun a b => rank a.1 < rank b.1) := by
  induction l with
  | nil => simp [modifySorted]
  | cons e rest ih =>
    obtain ⟨he, hrest⟩ := List.pairwise_cons.1 h
    simp only [modifySorted]
    split
    · rename_i hke
      refine List.pairwise_cons.2 ⟨fun x hx => ?_, h⟩
      rcases List.mem_cons.1 hx with rfl | hx
      · exact hke
      · have := he x hx
        simp only
        omega
    · split
      · rename_i hek
        refine List.pairwise_cons.2 ⟨fun x hx => ?_, ih hrest⟩
        rcases mem_keys_modifySorted.1 (List.mem_map_of_mem hx) with hxk | hxr
        · rw [hxk]
          exact hek
        · obtain ⟨y, hy, hyx⟩ := List.mem_map.1 hxr
          rw [← hyx]
          exact he y hy
      · refine List.pairwise_cons.2 ⟨fun x hx => ?_, hrest⟩
        have := he x hx
        simp only
        omega

/-- The map without entries. -/
def empty : OrderedMap κ ν := ⟨[], List.Pairwise.nil⟩

instance : EmptyCollection (OrderedMap κ ν) := ⟨empty⟩

instance : Inhabited (OrderedMap κ ν) := ⟨empty⟩

/-- The value at a key. -/
def get? (m : OrderedMap κ ν) (k : κ) : Option ν := find? k m.entries

/-- The map with the value at `k` replaced by what `f` makes of it. -/
def modify (m : OrderedMap κ ν) (k : κ) (f : Option ν → ν) : OrderedMap κ ν :=
  ⟨modifySorted k f m.entries, pairwise_modifySorted m.sorted⟩

/-- The map with `v` at `k`. -/
def insert (m : OrderedMap κ ν) (k : κ) (v : ν) : OrderedMap κ ν := m.modify k (fun _ => v)

/-- The map of a list of entries, the last of several for one key. -/
def ofList (l : List (κ × ν)) : OrderedMap κ ν := l.foldl (fun m e => m.insert e.1 e.2) empty

/-- The keys in ascending order. -/
def keys (m : OrderedMap κ ν) : List κ := m.entries.map Prod.fst

/-- The values in the order of their keys. -/
def values (m : OrderedMap κ ν) : List ν := m.entries.map Prod.snd

/-- The number of entries. -/
def size (m : OrderedMap κ ν) : Nat := m.entries.length

/-- Whether a key has a value. -/
def contains (m : OrderedMap κ ν) (k : κ) : Bool := (m.get? k).isSome

@[simp] theorem get?_empty (k : κ) : (empty : OrderedMap κ ν).get? k = none := rfl

/-- No value is found at a key below all keys of the list. -/
theorem find?_eq_none_of_lt {k : κ} {l : List (κ × ν)} (h : ∀ e ∈ l, rank k < rank e.1) :
    find? k l = none := by
  induction l with
  | nil => rfl
  | cons e rest ih =>
    have he := h e (by simp)
    rw [find?, if_neg (by omega)]
    exact ih fun x hx => h x (by simp [hx])

/-- A lookup in an updated list sees the new value at the key and the old ones elsewhere. -/
theorem find?_modifySorted {k x : κ} {f : Option ν → ν} {l : List (κ × ν)}
    (h : l.Pairwise (fun a b => rank a.1 < rank b.1)) :
    find? x (modifySorted k f l) = if rank x = rank k then some (f (find? k l)) else find? x l := by
  induction l with
  | nil =>
    simp only [modifySorted, find?, eq_comm]
  | cons e rest ih =>
    obtain ⟨he, hrest⟩ := List.pairwise_cons.1 h
    simp only [modifySorted]
    split
    · rename_i hke
      have hnone : find? k (e :: rest) = none := find?_eq_none_of_lt fun y hy => by
        rcases List.mem_cons.1 hy with rfl | hy
        · exact hke
        · have := he y hy
          omega
      rw [hnone, find?]
      simp only [eq_comm]
    · split
      · rename_i hek
        simp only [find?, ih hrest]
        by_cases hex : rank e.1 = rank x
        · have : ¬ rank x = rank k := by omega
          simp only [hex, this, if_true, if_false]
        · have : ¬ rank e.1 = rank k := by omega
          simp only [hex, this, if_false]
      · have hek : rank e.1 = rank k := by omega
        simp only [find?, hek, if_true]
        by_cases hxk : rank x = rank k
        · simp only [hxk, if_true]
        · have hkx : ¬ rank k = rank x := fun h => hxk h.symm
          simp only [hkx, hxk, if_false]

@[simp] theorem get?_modify {m : OrderedMap κ ν} {k x : κ} {f : Option ν → ν} :
    (m.modify k f).get? x = if rank x = rank k then some (f (m.get? k)) else m.get? x :=
  find?_modifySorted m.sorted

@[simp] theorem get?_insert {m : OrderedMap κ ν} {k x : κ} {v : ν} :
    (m.insert k v).get? x = if rank x = rank k then some v else m.get? x := by
  simp [insert]

/-- A key of a map has a value, and a key with a value is a key of the map. -/
theorem mem_keys_iff {m : OrderedMap κ ν} {k : κ} : k ∈ m.keys ↔ (m.get? k).isSome = true := by
  obtain ⟨l, hl⟩ := m
  simp only [keys, get?]
  clear hl
  induction l with
  | nil => simp [find?]
  | cons e rest ih =>
    by_cases h : rank e.1 = rank k
    · have hk : e.1 = k := Ranked.rank_inj _ _ h
      simp [find?, hk]
    · have hk : ¬ k = e.1 := fun hk => h (by rw [hk])
      simp [find?, h, hk, ih]

instance [DecidableEq κ] [DecidableEq ν] : DecidableEq (OrderedMap κ ν) := fun m n =>
  decidable_of_iff (m.entries = n.entries)
    ⟨fun h => by cases m; cases n; cases h; rfl, fun h => h ▸ rfl⟩

end OrderedMap

end HeapDomains
