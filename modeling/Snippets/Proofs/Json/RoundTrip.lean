/-
# Snippets.Proofs.Json.RoundTrip — a written value is read back

Reading the compact or the pretty form of a value gives the value (`read?_compact`, `read?_pretty`),
so neither form is the form of two values.

A value is read in the middle of open arrays and objects: from where a value may come, its tokens lead
to where that value is done, with the same stack. The items of an array and the members of an object
go by the part that is already read.
-/
import Snippets.Json.Reader
import Snippets.Proofs.Json.Scan

namespace Snippets.Json

namespace Reading

/-- No item begins with the end of an array, so a first item is read as any other. -/
theorem run_firstItem (stack : List Frame) (item : Json) (items : List Json) (rest : List Token) :
    run { stage := .firstItem, stack } (itemTokens (item :: items) ++ rest) =
      run { stage := .value, stack := .array [] :: stack } (itemTokens (item :: items) ++ rest) := by
  cases items <;> cases item <;> rfl

/-- A first name is read as any other. -/
theorem run_firstName (stack : List Frame) (member : Text × Json) (members : List (Text × Json))
    (rest : List Token) :
    run { stage := .firstName, stack } (memberTokens (member :: members) ++ rest) =
      run { stage := .name [], stack } (memberTokens (member :: members) ++ rest) := by
  cases members <;> rfl

theorem run_name (stack : List Frame) (before : List (Text × Json)) (name : Text)
    (rest : List Token) :
    run { stage := .name before, stack } (.string name :: .colon :: rest) =
      run { stage := .value, stack := .object before name :: stack } rest := rfl

theorem run_itemComma (stack : List Frame) (before : List Json) (item : Json) (rest : List Token) :
    run { stage := .done item, stack := .array before :: stack } (.comma :: rest) =
      run { stage := .value, stack := .array (before ++ [item]) :: stack } rest := rfl

theorem run_memberComma (stack : List Frame) (before : List (Text × Json)) (name : Text)
    (value : Json) (rest : List Token) :
    run { stage := .done value, stack := .object before name :: stack } (.comma :: rest) =
      run { stage := .name (before ++ [(name, value)]), stack } rest := rfl

mutual

theorem run_tokens (stack : List Frame) (rest : List Token) :
    (j : Json) →
    run { stage := .value, stack } (j.tokens ++ rest) = run { stage := .done j, stack } rest
  | .null => rfl
  | .bool _ => rfl
  | .number _ => rfl
  | .string _ => rfl
  | .array [] => rfl
  | .array (item :: items) => by
    have hopen (rest : List Token) : run { stage := .value, stack } (.openArray :: rest) =
        run { stage := .firstItem, stack } rest := rfl
    rw [tokens, List.cons_append, hopen, List.append_assoc, List.singleton_append, run_firstItem,
      run_itemTokens stack rest [] (item :: items) (List.cons_ne_nil _ _), List.nil_append]
  | .object [] => rfl
  | .object (member :: members) => by
    have hopen (rest : List Token) : run { stage := .value, stack } (.openObject :: rest) =
        run { stage := .firstName, stack } rest := rfl
    rw [tokens, List.cons_append, hopen, List.append_assoc, List.singleton_append, run_firstName,
      run_memberTokens stack rest [] (member :: members) (List.cons_ne_nil _ _), List.nil_append]

theorem run_itemTokens (stack : List Frame) (rest : List Token) (before : List Json) :
    (items : List Json) → items ≠ [] →
    run { stage := .value, stack := .array before :: stack }
        (itemTokens items ++ .closeArray :: rest) =
      run { stage := .done (.array (before ++ items)), stack } rest
  | [], h => absurd rfl h
  | [item], _ => by
    rw [itemTokens, run_tokens _ _ item]
    rfl
  | item :: next :: items, _ => by
    rw [itemTokens, List.append_assoc, List.cons_append, run_tokens _ _ item, run_itemComma,
      run_itemTokens stack rest (before ++ [item]) (next :: items) (List.cons_ne_nil _ _),
      List.append_assoc, List.singleton_append]

theorem run_memberTokens (stack : List Frame) (rest : List Token) (before : List (Text × Json)) :
    (members : List (Text × Json)) → members ≠ [] →
    run { stage := .name before, stack } (memberTokens members ++ .closeObject :: rest) =
      run { stage := .done (.object (before ++ members)), stack } rest
  | [], h => absurd rfl h
  | [(name, value)], _ => by
    rw [memberTokens, List.cons_append, List.cons_append, run_name, run_tokens _ _ value]
    rfl
  | (name, value) :: next :: members, _ => by
    rw [memberTokens, List.cons_append, List.cons_append, List.append_assoc, List.cons_append,
      run_name, run_tokens _ _ value, run_memberComma,
      run_memberTokens stack rest (before ++ [(name, value)]) (next :: members)
        (List.cons_ne_nil _ _),
      List.append_assoc, List.singleton_append]

end

theorem run_tokens_eq (j : Json) : run { stage := .value, stack := [] } j.tokens = some j := by
  have hrun := run_tokens [] [] j
  rw [List.append_nil] at hrun
  exact hrun

end Reading

/-- The compact form of a value is read back as the value. -/
theorem read?_compact (j : Json) : read? j.compact = some j := by
  rw [read?, tokens?_compact, Option.bind_some, Reading.run_tokens_eq]

/-- The pretty form of a value is read back as the value. -/
theorem read?_pretty (j : Json) : read? j.pretty = some j := by
  rw [read?, tokens?_pretty, Option.bind_some, Reading.run_tokens_eq]

-- Space between tokens and escapes are read, a comma at the end of an array is not.
example : read? " [ 12,\t\"\\u00e9\" ]\n".toList = some (.array [.number 12, .string ['é']]) := rfl
example : read? "[12,]".toList = none := rfl

end Snippets.Json
