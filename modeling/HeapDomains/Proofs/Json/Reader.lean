import HeapDomains.Json.Collections
import HeapDomains.Json.Reader
import HeapDomains.Proofs.Except
import HeapDomains.Proofs.Json.Text
import HeapDomains.Proofs.Ordered

/-!
# Reading what was written

`JsonReader.Reads` says that a reader makes a value of what was written for it, wherever the written
value stands: in a text, as long as its lists and objects do not nest too deeply, and in a value at
hand. There is one lemma for each way to make a reader; a record is read field by field, where
`Fields.Reads` looks the fields up in the members that were written.
-/

namespace HeapDomains

variable {α β : Type} {levels : Nat} {source : JsonSource} {j : Json} {a : α} {name : String}
  {members : List (String × Json)}

/-- The drafts of written items, one by one. -/
theorem Json.draftItems_map (f : α → Json) (l : List α) :
    Json.draftItems (l.map f) = l.map fun a => (f a).draft := by
  induction l with
  | nil => rfl
  | cons a rest ih => rw [List.map_cons, Json.draftItems, ih, List.map_cons]

/-- The drafts of written members, one by one. -/
theorem Json.draftMembers_eq_map (members : List (String × Json)) :
    Json.draftMembers members = members.map fun m => (.ofText m.1, m.2.draft) := by
  induction members with
  | nil => rfl
  | cons m rest ih => rw [Json.draftMembers, ih, List.map_cons]

/-- A member of another name does not change what is found. -/
theorem lookup_cons_of_ne {key : String} {b : β} {l : List (String × β)} (h : name ≠ key) :
    ((key, b) :: l).lookup name = l.lookup name := by
  rw [List.lookup_cons, beq_false_of_ne h]

/-- A loop that makes each element of what it came from makes the list. -/
theorem mapM_map_eq_ok {ε : Type} {f : α → β} {g : β → Except ε α} {l : List α}
    (h : ∀ a ∈ l, g (f a) = .ok a) : (l.map f).mapM g = .ok l := by
  induction l with
  | nil => rfl
  | cons a rest ih =>
    rw [List.map_cons, List.mapM_cons, h a List.mem_cons_self,
      ih fun a' ha' => h a' (List.mem_cons_of_mem a ha')]
    rfl

/-! ## Where a value stands -/

/-- Whether this many more lists and objects may stand in one another. -/
def JsonSource.Allows (levels : Nat) : JsonSource → Prop
  | text depth => depth + levels ≤ JsonDraft.maxNesting
  | value => True

/-- Inside of a list or an object there is one level less. -/
theorem JsonSource.Allows.inner (h : source.Allows (levels + 1)) :
    source.inner.Allows levels := by
  cases source with
  | text depth =>
    simp only [Allows, JsonSource.inner] at h ⊢
    omega
  | value => trivial

/-- A written value can be read in full where this many levels are left. -/
def Json.FitsIn (levels : Nat) (j : Json) : Prop :=
  ∀ depth, depth + levels ≤ JsonDraft.maxNesting → j.draft.fullFault? depth = none

namespace Json

/-- A text fits everywhere. -/
theorem fitsIn_str (s : String) : (str s).FitsIn levels := fun _ _ => JsonString.textFault?_ofText s

/-- A truth value fits everywhere. -/
theorem fitsIn_bool (b : Bool) : (bool b).FitsIn levels := fun _ _ => rfl

/-- The number of an entity fits everywhere. -/
theorem fitsIn_id {k : IdKind} (i : Id k) : i.json.FitsIn levels := by
  intro depth _
  have hword : i.toNat < wordLimit := Nat.lt_trans i.raw.toNat_lt (by decide)
  rw [Id.json, nat, draft, number_natCast hword, JsonDraft.fullFault?, if_neg (by simp)]

/-- An object fits where there is a level more than its members need. -/
theorem fitsIn_obj (h : ∀ m ∈ members, m.2.FitsIn levels) : (obj members).FitsIn (levels + 1) := by
  intro depth hdepth
  have hmembers : JsonDraft.fullFaultOfMembers? (depth + 1) (draftMembers members) = none := by
    induction members with
    | nil => rfl
    | cons m rest ih =>
      have hvalue := h m List.mem_cons_self (depth + 1) (by omega)
      have hrest := ih fun m' hm' => h m' (List.mem_cons_of_mem m hm')
      rw [draftMembers, JsonDraft.fullFaultOfMembers?, JsonString.textFault?_ofText, hvalue, hrest]
      rfl
  rw [draft, JsonDraft.fullFault?, if_neg (by omega), hmembers]
  rfl

end Json

namespace JsonReader

/-- What fits is read in full. -/
theorem inFull_draft (hsource : source.Allows levels) (h : j.FitsIn levels) :
    inFull source j.draft = .ok () := by
  cases source with
  | text depth => rw [inFull, h depth hsource]
  | value => rfl

/-- A reader makes a value of what was written for it. -/
def Reads (levels : Nat) (r : JsonReader α) (j : Json) (a : α) : Prop :=
  ∀ source : JsonSource, source.Allows levels → r source j.draft = .ok a

/-! ## Scalars -/

/-- A name or a text between quotes is read back. -/
theorem quoted_ofText (s : String) : quoted (.ofText s) = .ok s := by
  rw [quoted, JsonString.text_ofText]

/-- A text is read back. -/
theorem reads_string (s : String) : string.Reads levels (.str s) s := fun _ _ => quoted_ofText s

/-- A truth value is read back. -/
theorem reads_bool (b : Bool) : bool.Reads levels (.bool b) b := fun _ _ => rfl

/-- A number of 32 bits is read back. -/
theorem uint32_number (n : UInt32) : uint32 source (.number (.integer n.toNat)) = .ok n := by
  have hbound : n.toNat < UInt32.size := n.toNat_lt
  have hread : natBelow UInt32.size source (.number (.integer n.toNat)) = .ok n.toNat := by
    rw [natBelow, if_pos ⟨by omega, by omega⟩, Int.toNat_natCast]
  rw [uint32, hread]
  exact congrArg Except.ok UInt32.ofNat_toNat

/-- The number of an entity is read back. -/
theorem reads_id {k : IdKind} (i : Id k) : (id k).Reads levels i.json i := by
  intro source _
  have hword : i.toNat < wordLimit := Nat.lt_trans i.raw.toNat_lt (by decide)
  rw [id, Id.json, Json.nat, Json.draft, Json.number_natCast hword]
  exact congrArg (Except.map Id.mk) (uint32_number i.raw)

/-- A value is read back as one that may be missing, unless it is written as null. -/
theorem reads_option {r : JsonReader α} {f : α → Json} {o : Option α}
    (h : ∀ a, o = some a → r.Reads levels (f a) a ∧ (f a).draft ≠ .null) :
    (option r).Reads levels (.option f o) o := by
  intro source hsource
  cases o with
  | none => rfl
  | some a =>
    obtain ⟨hread, hnull⟩ := h a rfl
    have hsome : option r source (f a).draft = (r source (f a).draft).map some := by
      rw [option.eq_def]
      split
      · next hdraft => exact absurd hdraft hnull
      · rfl
    rw [Json.option, Option.elim_some, hsome, hread source hsource]
    rfl

/-- One of several names is read back. -/
theorem named_ofText {ofName? : String → Option α} (h : ofName? name = some a) :
    named ofName? (.ofText name) = .ok a := by
  simp only [named, quoted_ofText, bind, Except.bind, h]
  rfl

/-- One of several names is read back where it was written as a text. -/
theorem reads_name {ofName? : String → Option α} (h : ofName? name = some a) :
    (JsonReader.name ofName?).Reads levels (.str name) a := fun _ _ => named_ofText h

/-! ## Lists and maps -/

/-- A list is read back when its items are. -/
theorem reads_list {r : JsonReader α} {f : α → Json} {l : List α}
    (h : ∀ a ∈ l, r.Reads levels (f a) a) : (list r).Reads (levels + 1) (.list f l) l := by
  intro source hsource
  have hitems : (Json.draftItems (l.map f)).mapM (r source.inner) = .ok l := by
    rw [Json.draftItems_map]
    exact mapM_map_eq_ok fun a ha => h a ha source.inner hsource.inner
  rw [Json.list, Json.draft, list, hitems]
  rfl

/-- Digits need no escape. -/
theorem flatMap_escapeChar_toDigits (n : Nat) :
    (Nat.toDigits 10 n).flatMap Json.escapeChar = Nat.toDigits 10 n := by
  have hplain : ∀ c ∈ Nat.toDigits 10 n, Json.escapeChar c = [c] := by
    intro c hc
    have hdigit : c.isDigit = true := isDigit_of_mem_toDigits hc
    have hcontrol : ¬c.toNat < 0x20 := by
      have hrange := Char.isDigit_iff_toNat.1 hdigit
      have hzero : '0'.toNat = 0x30 := rfl
      omega
    have hne : ∀ c', c'.isDigit = false → c ≠ c' := by
      rintro c' hc' rfl
      rw [hdigit] at hc'
      cases hc'
    simp [Json.escapeChar, hcontrol, hne '"' rfl, hne '\\' rfl, hne '\n' rfl, hne '\r' rfl,
      hne '\t' rfl, hne '\x08' rfl, hne '\x0c' rfl]
  rw [List.flatMap_congr hplain, List.flatMap_singleton']

/-- The digits of a number of 32 bits are the name of a member that is read as the number. -/
theorem numericName_ofText (n : UInt32) :
    numericName source (.ofText (toString n.toNat)) = .ok n := by
  have hlist := toList_toString n.toNat
  have hraw : (JsonString.ofText (toString n.toNat)).raw = Nat.toDigits 10 n.toNat := by
    rw [JsonString.ofText, hlist, flatMap_escapeChar_toDigits]
  have hfault : (JsonString.ofText (toString n.toNat)).fault = none := rfl
  -- The number stays a variable, so that no step computes what is read.
  obtain ⟨number, hscan, hread⟩ : ∃ number,
      JsonText.scanNumber (Nat.toDigits 10 n.toNat) = .ok (number, []) ∧
      uint32 source (.number number) = .ok n := by
    have hword : n.toNat < wordLimit := Nat.lt_trans n.toNat_lt (by decide)
    have h := JsonText.scanNumber_toDigits (n := n.toNat) JsonText.endsNumber_nil
    rw [List.append_nil, JsonText.numberOf_toDigits hword] at h
    exact ⟨_, h, uint32_number n⟩
  obtain ⟨c, digits, hcons⟩ :=
    List.exists_cons_of_ne_nil (Nat.toDigits_ne_nil (n := n.toNat) (b := 10))
  have hc : c.isDigit = true := isDigit_of_mem_toDigits (hcons ▸ List.mem_cons_self)
  rw [hcons] at hlist hraw hscan
  cases source with
  | text depth =>
    unfold numericName
    simp only [hraw, pure, Except.pure, bind, Except.bind]
    rw [if_pos (Or.inr hc)]
    simp only [hscan, hread, hfault]
    rfl
  | value =>
    unfold numericName
    simp only [quoted_ofText, hlist, pure, Except.pure, bind, Except.bind, Except.map]
    rw [if_pos (Or.inr hc)]
    simp only [hscan, hread, hfault]
    rfl

/-- A map from entities is read back when its values are. -/
theorem reads_numericMap {k : IdKind} {r : JsonReader α} {f : α → Json} {m : OrderedMap (Id k) α}
    (h : ∀ a ∈ m.values, r.Reads levels (f a) a) :
    (numericMap Id.mk r).Reads (levels + 1) (m.json f) m := by
  intro source hsource
  rw [OrderedMap.json, Json.draft, numericMap, bind_eq_ok]
  refine ⟨m.entries, ?_, congrArg Except.ok m.ofList_entries⟩
  rw [Json.draftMembers_eq_map, List.map_map]
  refine mapM_map_eq_ok fun e he => ?_
  have hname : numericName source (.ofText (toString e.1.toNat)) = .ok e.1.raw :=
    numericName_ofText e.1.raw
  have hvalue : r source.inner (f e.2).draft = .ok e.2 :=
    h e.2 (List.mem_map_of_mem he) source.inner hsource.inner
  change (numericName source (.ofText (toString e.1.toNat)) >>= fun number => _) = _
  rw [hname]
  change (r source.inner (f e.2).draft >>= fun value => _) = _
  rw [hvalue]
  rfl

end JsonReader

/-! ## Records -/

/-- The fields of these names are given as they were written. -/
def FieldValues.Give (values : FieldValues) (names : List String)
    (members : List (String × Json)) : Prop :=
  ∀ name ∈ names,
    (values.given.lookup name).map Prod.snd = (members.lookup name).map Json.draft

namespace Fields

variable {fields : Fields α}

/-- Fields are read back from the members that were written for them. -/
def Reads (levels : Nat) (fields : Fields α) (members : List (String × Json)) (a : α) : Prop :=
  ∀ (source : JsonSource) (values : FieldValues), source.Allows levels →
    values.Give fields.names members → fields.read source values = .ok a

/-- A function of fields that are read back. -/
theorem Reads.map (h : fields.Reads levels members a) (f : α → β) :
    (f <$> fields).Reads levels members (f a) := by
  intro source values hsource hvalues
  exact congrArg (Except.map f) (h source values hsource hvalues)

/-- Fields after others are read back with them. -/
theorem Reads.seq {first : Fields (α → β)} {f : α → β} (hfirst : first.Reads levels members f)
    (h : fields.Reads levels members a) : (first <*> fields).Reads levels members (f a) := by
  intro source values hsource hvalues
  have hf := hfirst source values hsource fun name hname =>
    hvalues name (List.mem_append_left _ hname)
  have ha := h source values hsource fun name hname =>
    hvalues name (List.mem_append_right _ hname)
  change both (fun g a => g a) (first.read source values) (fields.read source values) = _
  rw [hf, ha]
  rfl

/-- A field that was written is read back. -/
theorem reads_field {r : JsonReader α} {missing : Except ReadError α}
    (hmember : members.lookup name = some j) (h : r.Reads levels j a) :
    (field name r missing).Reads levels members a := by
  intro source values hsource hvalues
  have hgiven := hvalues name List.mem_cons_self
  rw [hmember] at hgiven
  obtain ⟨⟨position, d⟩, hlookup, rfl⟩ := Option.map_eq_some_iff.1 hgiven
  have hread := h source hsource
  simp only [field, hlookup, hread]
  rfl

/-- A field that was left out stands for its default. -/
theorem reads_optional_of_lookup_eq_none {r : JsonReader α} (default : α)
    (hmember : members.lookup name = none) :
    (optional name r default).Reads levels members default := by
  intro source values _ hvalues
  have hgiven := hvalues name List.mem_cons_self
  rw [hmember, Option.map_none, Option.map_eq_none_iff] at hgiven
  simp only [optional, field, hgiven]
  rfl

/-- A value without fields is read back. -/
theorem reads_nothing (a : α) : (nothing a).Reads levels members a := fun _ _ _ _ => rfl

/-- The members that were written give the fields, and none of them is a problem. -/
theorem scanMembers_draftMembers {names : List String} (position : Nat)
    (given : List (String × Nat × JsonDraft)) (hnodup : (members.map Prod.fst).Nodup)
    (hnew : ∀ name ∈ members.map Prod.fst, given.lookup name = none) :
    ∃ given', scanMembers names position given (Json.draftMembers members) = (given', none) ∧
      ∀ name ∈ names, (given'.lookup name).map Prod.snd =
        ((given.lookup name).map Prod.snd).or ((members.lookup name).map Json.draft) := by
  induction members generalizing position given with
  | nil => exact ⟨given, rfl, fun name _ => by simp⟩
  | cons m rest ih =>
    obtain ⟨key, value⟩ := m
    obtain ⟨hkey, hrest⟩ := List.nodup_cons.1 hnodup
    have hfresh : given.lookup key = none := hnew key List.mem_cons_self
    have hlater : ∀ name ∈ rest.map Prod.fst, name ≠ key ∧ given.lookup name = none := by
      intro name hname
      refine ⟨?_, hnew name (List.mem_cons_of_mem key hname)⟩
      rintro rfl
      exact hkey hname
    rw [Json.draftMembers, scanMembers, JsonString.text_ofText]
    by_cases hfield : key ∈ names
    · -- The field is added at the end, so that later lookups of its name find it.
      have hnew' : ∀ name ∈ rest.map Prod.fst,
          (given ++ [(key, position, value.draft)]).lookup name = none := by
        intro name hname
        obtain ⟨hne, hnone⟩ := hlater name hname
        rw [List.lookup_append, hnone, lookup_cons_of_ne hne]
        rfl
      obtain ⟨given', hscan, hgiven'⟩ := ih (position + 1) _ hrest hnew'
      refine ⟨given', ?_, fun name hname => ?_⟩
      · simp [hfield, hfresh, hscan]
      · rw [hgiven' name hname]
        by_cases hname : name = key
        · subst hname
          simp [List.lookup_append, hfresh]
        · rw [List.lookup_append, lookup_cons_of_ne hname, lookup_cons_of_ne hname, List.lookup_nil,
            Option.or_none]
    · obtain ⟨given', hscan, hgiven'⟩ := ih (position + 1) given hrest fun name hname =>
        (hlater name hname).2
      refine ⟨given', ?_, fun name hname => ?_⟩
      · simp [hfield, Json.fault?_draft, hscan]
      · have hne : name ≠ key := by
          rintro rfl
          exact hfield hname
        rw [hgiven' name hname, lookup_cons_of_ne hne]

/-- The fields are read back from an object. -/
theorem ofMembers_draftMembers (h : fields.Reads levels members a) (hsource : source.Allows levels)
    (hnodup : (members.map Prod.fst).Nodup) :
    fields.ofMembers source (Json.draftMembers members) .closed = .ok a := by
  obtain ⟨given, hscan, hgiven⟩ : ∃ given,
      scanMembers fields.names 0 [] (Json.draftMembers members) = (given, none) ∧
      ∀ name ∈ fields.names, (given.lookup name).map Prod.snd =
        (members.lookup name).map Json.draft :=
    scanMembers_draftMembers 0 [] hnodup fun _ _ => rfl
  have hread := h source ⟨given, (Json.draftMembers members).length + 1⟩ hsource hgiven
  rw [ofMembers, hscan]
  exact congrArg (Except.mapError Prod.snd) hread

/-- A record is read back from an object. -/
theorem reads_reader (h : fields.Reads levels members a) (hnodup : (members.map Prod.fst).Nodup) :
    fields.reader.Reads (levels + 1) (.obj members) a :=
  fun _ hsource => ofMembers_draftMembers h hsource.inner hnodup

end Fields

namespace JsonReader

variable {r : JsonReader α}

/-- A member that is not among those that were written is not found. -/
theorem single_of_not_mem {found : Option α} (hname : name ∉ members.map Prod.fst)
    (hfull : ∀ m ∈ members, inFull source m.2.draft = .ok ()) :
    single name r source found (Json.draftMembers members) = .ok found := by
  induction members with
  | nil => rfl
  | cons m rest ih =>
    have hne : ¬m.1 = name := fun h => hname (h ▸ List.mem_cons_self)
    have hrest := ih (fun h => hname (List.mem_cons_of_mem m.1 h)) fun m' hm' =>
      hfull m' (List.mem_cons_of_mem m hm')
    rw [Json.draftMembers, single, quoted_ofText]
    change (if m.1 = name then _ else _) = _
    rw [if_neg hne, hfull m List.mem_cons_self]
    exact hrest

/-- A member that was written is found. -/
theorem single_draftMembers (hnodup : (members.map Prod.fst).Nodup)
    (hmember : members.lookup name = some j) (hread : r source j.draft = .ok a)
    (hfull : ∀ m ∈ members, inFull source m.2.draft = .ok ()) :
    single name r source none (Json.draftMembers members) = .ok (some a) := by
  induction members with
  | nil => cases hmember
  | cons m rest ih =>
    obtain ⟨hkey, hrest⟩ := List.nodup_cons.1 hnodup
    have hfull' : ∀ m' ∈ rest, inFull source m'.2.draft = .ok () :=
      fun m' hm' => hfull m' (List.mem_cons_of_mem m hm')
    rw [Json.draftMembers, single, quoted_ofText]
    change (if m.1 = name then _ else _) = _
    by_cases hname : m.1 = name
    · subst hname
      rw [List.lookup_cons_self] at hmember
      obtain rfl := Option.some.inj hmember
      rw [if_pos rfl, hread]
      exact single_of_not_mem hkey hfull'
    · rw [lookup_cons_of_ne (Ne.symm hname)] at hmember
      rw [if_neg hname, hfull m List.mem_cons_self]
      exact ih hrest hmember hfull'

/-- One of several kinds of record is read back from an object whose first member is the tag. -/
theorem reads_tagged {tag : String} {kind? : String → Option (Fields α)} {fields : Fields α}
    (hkind : kind? name = some fields) (hnodup : (tag :: members.map Prod.fst).Nodup)
    (hfull : ∀ m ∈ members, m.2.FitsIn levels)
    (h : fields.Reads levels ((tag, .str name) :: members) a) :
    (tagged tag kind?).Reads (levels + 1) (.obj ((tag, .str name) :: members)) a := by
  intro source hsource
  have hinner : ∀ m ∈ (tag, Json.str name) :: members,
      inFull source.inner m.2.draft = .ok () := by
    intro m hm
    rcases List.mem_cons.1 hm with rfl | hm
    · exact inFull_draft hsource.inner (Json.fitsIn_str name)
    · exact inFull_draft hsource.inner (hfull m hm)
  have hfound : single tag (plainName kind?) source.inner none
      (Json.draftMembers ((tag, .str name) :: members)) = .ok (some fields) :=
    single_draftMembers hnodup List.lookup_cons_self (named_ofText hkind) hinner
  rw [Json.draft, tagged, hfound]
  -- The fields are read from the value that the whole text stands for.
  exact Fields.ofMembers_draftMembers h trivial hnodup

/-- A value is read back from both texts that it is written as. -/
theorem readText_of_reads (h : r.Reads levels j a) (hlevels : levels ≤ JsonDraft.maxNesting) :
    r.readText j.compact = .ok a ∧ r.readText j.pretty = .ok a := by
  have hread : r (.text 0) j.draft = .ok a := h (.text 0) (by rwa [JsonSource.Allows, Nat.zero_add])
  have hscanned : ∀ {chars : List Char}, JsonText.Scans chars j.draft →
      r.readText (String.ofList chars) = .ok a := by
    intro chars hscans
    rw [readText, ofString_of_scans hscans, hread]
    rfl
  exact ⟨hscanned (JsonText.scans_compactChars j), hscanned (JsonText.scans_prettyChars 0 j)⟩

end JsonReader

end HeapDomains
