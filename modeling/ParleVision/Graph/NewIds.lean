import ParleVision.Graph.Store

namespace ParleVision.Graph
open Lib

/-- An id that can be given away. It is no larger than the number of keys, so that counting up to
it does not overflow. -/
structure NewId (m : QMap α) (id : Int) : Prop where
  nonneg : 0 ≤ id
  unused : id ∉ m
  bounded : id ≤ m.size
  least : (∀ key ∈ m, 0 ≤ key) → ∀ j, 0 ≤ j → j ∉ m → id ≤ j

/-- What one pass over the keys from zero finds. -/
theorem scanKeys_newId (m : QMap α) : NewId m (scanKeys m.keys 0) where
  nonneg := le_scanKeys m.keys 0
  unused := by
    have hnot := scanKeys_notMem m.keys_sorted 0
    rwa [Std.ExtTreeMap.mem_keys] at hnot
  bounded := by
    have hle := scanKeys_le m.keys 0
    rwa [Int.zero_add, m.length_keys] at hle
  least := by
    intro hkeys j hj hnot
    by_contra hlt
    have hlow : ∀ key ∈ m.keys, 0 ≤ key := by
      intro key hkey
      exact hkeys key (Std.ExtTreeMap.mem_keys.mp hkey)
    have hmem := mem_of_lt_scanKeys m.keys_sorted 0 hlow j hj (not_le.mp hlt)
    exact hnot (Std.ExtTreeMap.mem_keys.mp hmem)

namespace Pipeline

/-- Whatever the keys are, both functions find an id that none of them is; the least one if no key
is negative. -/
theorem newIds_unused (s : Pipeline) :
    NewId s.m_children s.getNewPipelineElementId ∧
      NewId s.m_connections s.getNewPinConnectionId :=
  ⟨scanKeys_newId s.m_children, scanKeys_newId s.m_connections⟩

end Pipeline

end ParleVision.Graph
