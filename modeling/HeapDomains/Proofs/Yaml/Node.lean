import HeapDomains.Yaml.Node

/-!
# Trees of tokens

The tokens of mappings that are written by indentation, with plain keys and no tags or aliases, are
read as the tree they stand for (`Entries.ofTokens?_eq`).
-/

namespace HeapDomains.Yaml

/-- The tokens of the entries of a mapping, up to its end. -/
inductive Entries : List (Node × Node) → List Token → Prop where
  /-- No entries. -/
  | nil : Entries [] []
  /-- An entry with a scalar. -/
  | value {entries : List (Node × Node)} {tokens : List Token} {key text : String}
    {style : ScalarStyle} (hentries : Entries entries tokens) :
    Entries ((.scalar none .plain key, .scalar none style text) :: entries)
      (.key :: .scalar .plain key :: .value :: .scalar style text :: tokens)
  /-- An entry with a mapping. -/
  | mapping {inner entries : List (Node × Node)} {innerTokens tokens : List Token} {key : String}
    (hinner : Entries inner innerTokens) (hentries : Entries entries tokens) :
    Entries ((.scalar none .plain key, .mapping inner) :: entries)
      (.key :: .scalar .plain key :: .value :: .blockStart ::
        (innerTokens ++ .blockEnd :: tokens))

variable {entries : List (Node × Node)} {tokens : List Token}

/-- The entries of a mapping are read to its end. -/
theorem Entries.readBlockEntries_eq (h : Entries entries tokens) (d : Directives) (fuel : Nat)
    (rest : List Token) (hfuel : tokens.length < fuel) :
    readBlockEntries d fuel [] (tokens ++ .blockEnd :: rest) = some ⟨entries, [], rest⟩ := by
  induction h generalizing fuel rest with
  | nil =>
    obtain ⟨fuel, rfl⟩ : ∃ n, fuel = n + 1 := ⟨fuel - 1, by omega⟩
    simp [readBlockEntries]
  | @value entries tokens key text style hentries ih =>
    simp only [List.length_cons] at hfuel
    obtain ⟨fuel, rfl⟩ : ∃ n, fuel = n + 2 := ⟨fuel - 2, by omega⟩
    have hscalar : ∀ style text rest, readNode d (fuel + 1) [] (.scalar style text :: rest) =
        some ⟨.scalar none style text, [], rest⟩ := fun _ _ _ => rfl
    rw [List.cons_append, readBlockEntries]
    simp [readKey, isLeftOutInBlock, readValue, hscalar, ih (fuel + 1) rest (by omega)]
  | @mapping inner entries innerTokens tokens key hinner hentries ihinner ih =>
    simp only [List.length_cons, List.length_append] at hfuel
    obtain ⟨fuel, rfl⟩ : ∃ n, fuel = n + 2 := ⟨fuel - 2, by omega⟩
    have hscalar : ∀ style text rest, readNode d (fuel + 1) [] (.scalar style text :: rest) =
        some ⟨.scalar none style text, [], rest⟩ := fun _ _ _ => rfl
    have hmapping : readNode d (fuel + 1) []
        (.blockStart :: (innerTokens ++ .blockEnd :: (tokens ++ .blockEnd :: rest))) =
          some ⟨.mapping inner, [], tokens ++ .blockEnd :: rest⟩ := by
      have hread := ihinner fuel (tokens ++ .blockEnd :: rest) (by omega)
      change (readBlockEntries d fuel [] _).bind _ = _
      rw [hread]
      rfl
    rw [List.cons_append, readBlockEntries]
    simp [readKey, isLeftOutInBlock, readValue, hscalar, hmapping, ih (fuel + 1) rest (by omega)]

/-- The tokens of a mapping make it the root of a document. -/
theorem Entries.ofTokens?_eq (h : Entries entries tokens) :
    Node.ofTokens? (.blockStart :: (tokens ++ [.blockEnd])) = some (.mapping entries) := by
  have hread := h.readBlockEntries_eq .none (2 * (tokens ++ [Token.blockEnd]).length + 2) []
    (by rw [List.length_append]; omega)
  have hnode : readNode .none (2 * (tokens ++ [Token.blockEnd]).length + 2 + 1) []
      (.blockStart :: (tokens ++ [.blockEnd])) = some ⟨.mapping entries, [], []⟩ := by
    change (readBlockEntries .none _ [] _).bind _ = _
    rw [hread]
    rfl
  have hfuel : 2 * (Token.blockStart :: (tokens ++ [.blockEnd])).length + 1 =
      2 * (tokens ++ [Token.blockEnd]).length + 2 + 1 := by
    rw [List.length_cons]
    omega
  simp only [Node.ofTokens?, takeDirectives, Option.bind_eq_bind, Option.bind_some, hfuel, hnode]
  simp [isOver]

end HeapDomains.Yaml
