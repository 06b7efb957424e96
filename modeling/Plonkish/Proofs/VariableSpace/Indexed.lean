import Plonkish.Proofs.VariableSpace
import Plonkish.VariableSpace.Indexed

/-!
# Indexed spaces

The index of a list of queries gives each query its first position, and so an indexed space finds
what a search finds.

* `QueryIndex.Indexes`: an index says where each query of a list is first.
* `QueryIndex.indexes_register`: one query; `QueryIndex.indexes_ofQueries`: a list.
* `IndexedSpace.indexOf_ofSpace`: an indexed space finds what its space finds.
-/

namespace Plonkish

namespace QueryIndex

variable {index : QueryIndex} {front rest : List Query} {q : Query}

/-- An index has exactly the queries of a list, each with its first position. -/
def Indexes (index : QueryIndex) (queries : List Query) : Prop :=
  ∀ q : Query, index[q]? = queries.idxOf? q

theorem indexes_nil : Indexes ∅ [] := fun _ => Std.HashMap.getElem?_empty

theorem Indexes.mem_iff (h : index.Indexes front) : q ∈ index ↔ q ∈ front := by
  rw [← Std.HashMap.isSome_getElem?_iff_mem, h q, List.isSome_idxOf?]

/-- A query behind a list is entered with the next position, unless it has an earlier one. -/
theorem indexes_register (h : index.Indexes front) (q : Query) :
    (index.register (q, front.length)).Indexes (front ++ [q]) := by
  intro q'
  simp only [register, Std.HashMap.getElem?_insertIfNew, h.mem_iff, h q', beq_iff_eq]
  cases hold : front.idxOf? q' with
  | some i =>
    have hmem : q' ∈ front := List.isSome_idxOf?.1 (by rw [hold]; rfl)
    have hkept : ¬(q = q' ∧ q ∉ front) := fun ⟨heq, hnew⟩ => hnew (heq ▸ hmem)
    rw [if_neg hkept, idxOf?_of_prefix (List.prefix_append front [q]) hold]
  | none =>
    have hnew : q' ∉ front := List.idxOf?_eq_none_iff.1 hold
    by_cases heq : q = q'
    · subst heq
      rw [if_pos ⟨rfl, hnew⟩, idxOf?_concat hnew]
    · have hnone : (front ++ [q]).idxOf? q' = none :=
        List.idxOf?_eq_none_iff.2 (by simp [hnew, Ne.symm heq])
      rw [if_neg fun h => heq h.1, hnone]

theorem indexes_foldl (h : index.Indexes front) :
    ((rest.zipIdx front.length).foldl register index).Indexes (front ++ rest) := by
  induction rest generalizing index front with
  | nil => simpa using h
  | cons q rest ih =>
    have hnext := ih (indexes_register h q)
    rw [List.length_append, List.length_singleton, List.append_assoc] at hnext
    exact hnext

theorem indexes_ofQueries (queries : List Query) : (ofQueries queries).Indexes queries :=
  indexes_foldl indexes_nil

end QueryIndex

namespace IndexedSpace

theorem indexes_index (V : VariableSpace) (cls : VariableClass) :
    ((ofSpace V).index cls).Indexes (V.queries cls) := by
  cases cls with
  | challenge => exact QueryIndex.indexes_nil
  | _ => exact QueryIndex.indexes_ofQueries _

/-- An indexed space finds what its space finds. -/
theorem indexOf_ofSpace (V : VariableSpace) (cls : VariableClass) (column : Column)
    (rotation : Rotation) :
    (ofSpace V).indexOf cls column rotation = V.indexOf cls column rotation := by
  simp only [indexOf, VariableSpace.indexOf, indexes_index V cls ⟨column, rotation⟩,
    Query.isAtom_int, Query.position?_int]
  rfl

end IndexedSpace

end Plonkish
