import Mathlib.Data.List.DropRight

/-!
# Word expansion

An unquoted word of a shell is split at the separators and each field is then matched
against the names of files.  All separators are white space here, so several of them
count as one and none of them makes an empty field.  A word without separators and
without characters that make a pattern stays one word, and lines that are such words
stay the words that they are.
-/

namespace WordExpansion

variable {α : Type*} [DecidableEq α]

/-- The fields of a text. -/
def fields (separators text : List α) : List (List α) :=
  (text.splitOnP (· ∈ separators)).filter (· ≠ [])

/-- The fields of a text, each replaced by what it matches. -/
def expand (pathnames : List α → List (List α)) (separators text : List α) : List (List α) :=
  (fields separators text).flatMap pathnames

/-- What a command wrote, without the last separators. -/
def substituted (last : α) (output : List α) : List α :=
  output.rdropWhile (· = last)

/-- A word that expansion leaves alone. -/
structure Plain (separators patterns word : List α) : Prop where
  nonempty : word ≠ []
  whole : ∀ char ∈ word, char ∉ separators
  noPattern : ∀ char ∈ word, char ∉ patterns

instance (separators patterns word : List α) : Decidable (Plain separators patterns word) :=
  decidable_of_iff (word ≠ [] ∧ (∀ char ∈ word, char ∉ separators) ∧
      ∀ char ∈ word, char ∉ patterns)
    ⟨fun ⟨nonempty, whole, noPattern⟩ => ⟨nonempty, whole, noPattern⟩,
      fun ⟨nonempty, whole, noPattern⟩ => ⟨nonempty, whole, noPattern⟩⟩

section Fields

variable {separators patterns word : List α} {separator : α}

/-- Splitting at a separator, from which everything about fields follows. -/
theorem fields_append_cons (isSeparator : separator ∈ separators) (text rest : List α) :
    fields separators (text ++ separator :: rest) =
      fields separators text ++ fields separators rest := by
  rw [fields, List.splitOnP_append_cons text rest (decide_eq_true isSeparator),
    List.filter_append]
  rfl

theorem fields_nil : fields separators [] = [] := by
  simp [fields, List.splitOnP_nil]

theorem fields_word (nonempty : word ≠ []) (whole : ∀ char ∈ word, char ∉ separators) :
    fields separators word = [word] := by
  rw [fields, List.splitOnP_eq_singleton fun char member => decide_eq_false (whole char member)]
  simp [nonempty]

/-- The separators that a command substitution drops end no field. -/
theorem fields_substituted (isSeparator : separator ∈ separators) (output : List α) :
    fields separators (substituted separator output) = fields separators output := by
  induction output using List.reverseRecOn with
  | nil => rfl
  | append_singleton output char ih =>
      by_cases isLast : char = separator
      · subst isLast
        rw [fields_append_cons isSeparator, fields_nil, List.append_nil, ← ih, substituted,
          List.rdropWhile_concat_pos _ _ _ (by simp)]
        rfl
      · rw [substituted, List.rdropWhile_concat_neg _ _ _ (by simpa using isLast)]

theorem fields_lines (isSeparator : separator ∈ separators) {words : List (List α)}
    (plain : ∀ word ∈ words, Plain separators patterns word) :
    fields separators (words.flatMap (· ++ [separator])) = words := by
  induction words with
  | nil => exact fields_nil
  | cons word words ih =>
      obtain ⟨here, later⟩ := List.forall_mem_cons.mp plain
      rw [List.flatMap_cons, List.append_assoc, List.singleton_append,
        fields_append_cons isSeparator, fields_word here.nonempty here.whole, ih later]
      rfl

end Fields

section Expansion

variable {pathnames : List α → List (List α)} {separators patterns word : List α}

theorem expand_word
    (plain : ∀ word, (∀ char ∈ word, char ∉ patterns) → pathnames word = [word])
    (isPlain : Plain separators patterns word) : expand pathnames separators word = [word] := by
  rw [expand, fields_word isPlain.nonempty isPlain.whole, List.flatMap_singleton,
    plain word isPlain.noPattern]

/-- The lines that a command wrote are the words that it stands for. -/
theorem expand_lines {separator : α} (isSeparator : separator ∈ separators)
    (plain : ∀ word, (∀ char ∈ word, char ∉ patterns) → pathnames word = [word])
    {words : List (List α)} (arePlain : ∀ word ∈ words, Plain separators patterns word) :
    expand pathnames separators
      (substituted separator (words.flatMap (· ++ [separator]))) = words := by
  rw [expand, fields_substituted isSeparator, fields_lines isSeparator arePlain]
  calc words.flatMap pathnames = words.flatMap fun word => [word] :=
        List.flatMap_congr fun word member => plain word (arePlain word member).noPattern
    _ = words := List.flatMap_singleton' words

end Expansion

end WordExpansion
