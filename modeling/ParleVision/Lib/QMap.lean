import Mathlib

namespace ParleVision.Lib

/-- A map walked in the order of its int keys. -/
abbrev QMap (α : Type u) := Std.ExtTreeMap Int α

/-- One pass over sorted keys for an id that none of them is. -/
def scanKeys : List Int → Int → Int
  | [], id => id
  | key :: keys, id => if key > id then id else scanKeys keys (id + 1)

theorem le_scanKeys (keys : List Int) (id : Int) : id ≤ scanKeys keys id := by
  induction keys generalizing id with
  | nil => exact Int.le_refl id
  | cons key keys ih =>
    unfold scanKeys
    split
    · exact Int.le_refl id
    · have := ih (id + 1)
      omega

theorem scanKeys_notMem {keys : List Int} (h : keys.Pairwise (· < ·)) (id : Int) :
    scanKeys keys id ∉ keys := by
  induction keys generalizing id with
  | nil => simp
  | cons key keys ih =>
    obtain ⟨hk, hs⟩ := List.pairwise_cons.mp h
    unfold scanKeys
    split
    · rename_i hgt
      intro hm
      rcases List.mem_cons.mp hm with he | ht
      · omega
      · have := hk id ht
        omega
    · rename_i hle
      intro hm
      rcases List.mem_cons.mp hm with he | ht
      · have := le_scanKeys keys (id + 1)
        omega
      · exact ih hs (id + 1) ht

/-- It counts no further than there are keys. -/
theorem scanKeys_le (keys : List Int) (id : Int) : scanKeys keys id ≤ id + keys.length := by
  induction keys generalizing id with
  | nil => simp [scanKeys]
  | cons key keys ih =>
    unfold scanKeys
    rw [List.length_cons]
    split
    · omega
    · have := ih (id + 1)
      omega

/-- Where no key is below the id, every one that is passed over is a key. -/
theorem mem_of_lt_scanKeys {keys : List Int} (h : keys.Pairwise (· < ·)) (id : Int)
    (hlow : ∀ key ∈ keys, id ≤ key) (j : Int) (hj : id ≤ j) (hlt : j < scanKeys keys id) :
    j ∈ keys := by
  induction keys generalizing id with
  | nil => exact absurd hlt (not_lt.mpr hj)
  | cons key keys ih =>
    obtain ⟨hk, hs⟩ := List.pairwise_cons.mp h
    unfold scanKeys at hlt
    split at hlt
    · exact absurd hlt (not_lt.mpr hj)
    · rename_i hle
      have hkey : key = id := le_antisymm (not_lt.mp hle) (hlow key (by simp))
      by_cases he : j = id
      · simp [he, hkey]
      · refine List.mem_cons_of_mem key (ih hs (id + 1) ?_ (by omega) hlt)
        intro key' hkey'
        have := hk key' hkey'
        omega

theorem QMap.keys_sorted (m : QMap α) : m.keys.Pairwise (· < ·) := by
  refine m.ordered_keys.imp ?_
  intro a b h
  exact compare_lt_iff_lt.mp h

theorem QMap.getElem?_insert (m : QMap α) (k k' : Int) (v : α) :
    (m.insert k v)[k']? = if k' = k then some v else m[k']? := by
  by_cases hk : k' = k
  · simp [hk]
  · simp [Std.ExtTreeMap.getElem?_insert, hk, Ne.symm hk]

theorem QMap.of_insert {m : QMap α} {k k' : Int} {v w : α} (h : (m.insert k v)[k']? = some w) :
    k' = k ∧ v = w ∨ m[k']? = some w := by
  rw [QMap.getElem?_insert] at h
  split at h
  case isTrue hk => exact .inl ⟨hk, Option.some.inj h⟩
  case isFalse => exact .inr h

theorem QMap.insert_stored {m : QMap α} {k : Int} {v : α} (hk : m[k]? = some v) :
    m.insert k v = m := by
  apply Std.ExtTreeMap.ext_getElem?
  intro k'
  rw [QMap.getElem?_insert]
  split
  case isTrue heq => rw [heq, hk]
  case isFalse => rfl

theorem QMap.getElem?_erase (m : QMap α) (k k' : Int) :
    (m.erase k)[k']? = if k' = k then none else m[k']? := by
  by_cases hk : k' = k
  · simp [hk]
  · simp [Std.ExtTreeMap.getElem?_erase, hk, Ne.symm hk]

theorem QMap.of_erase {m : QMap α} {k k' : Int} {v : α} (h : (m.erase k)[k']? = some v) :
    k' ≠ k ∧ m[k']? = some v := by
  rw [QMap.getElem?_erase] at h
  split at h
  case isTrue => cases h
  case isFalse hk => exact ⟨hk, h⟩

/-- Only one value is lost. -/
theorem QMap.erase_stored {m : QMap α} {k k' : Int} {v w : α} (hk : m[k]? = some v)
    (hk' : m[k']? = some w) (hne : w ≠ v) : (m.erase k)[k']? = some w := by
  rw [QMap.getElem?_erase, if_neg, hk']
  rintro rfl
  rw [hk] at hk'
  exact hne (Option.some.inj hk').symm

def valuesOf (m : QMap α) : List α := m.toList.map Prod.snd

@[simp] theorem valuesOf_empty : valuesOf (∅ : QMap α) = [] := rfl

theorem mem_valuesOf {m : QMap α} {v : α} : v ∈ valuesOf m ↔ ∃ k : Int, m[k]? = some v := by
  unfold valuesOf
  rw [List.mem_map]
  constructor
  · rintro ⟨⟨k, w⟩, hm, rfl⟩
    exact ⟨k, Std.ExtTreeMap.mem_toList_iff_getElem?_eq_some.mp hm⟩
  · rintro ⟨k, hk⟩
    exact ⟨(k, v), Std.ExtTreeMap.mem_toList_iff_getElem?_eq_some.mpr hk, rfl⟩

theorem valuesOf_nodup {m : QMap α}
    (h : ∀ (k k' : Int) v, m[k]? = some v → m[k']? = some v → k' = k) : (valuesOf m).Nodup := by
  have hk : m.toList.Nodup := by
    refine m.distinct_keys_toList.imp ?_
    rintro a b hab rfl
    simp at hab
  refine List.Nodup.map_on ?_ hk
  rintro ⟨k, v⟩ hv ⟨k', v'⟩ hv' rfl
  rw [Std.ExtTreeMap.mem_toList_iff_getElem?_eq_some] at hv hv'
  rw [h k k' v hv hv']

/-- Counts up from an id while it is in use, at most the given number of times. -/
def countUp (m : QMap α) : Nat → Int → Int
  | 0, id => id
  | n + 1, id => if id ∈ m then countUp m n (id + 1) else id

theorem countUp_notMem (m : QMap α) (n : Nat) (id : Int)
    (h : (m.keys.toFinset.filter (id ≤ ·)).card ≤ n) : countUp m n id ∉ m := by
  induction n generalizing id with
  | zero =>
    intro hm
    have hin : id ∈ m.keys.toFinset.filter (id ≤ ·) := by
      simpa [countUp] using hm
    have := Finset.card_pos.mpr ⟨id, hin⟩
    omega
  | succ n ih =>
    unfold countUp
    split
    · rename_i hm
      refine ih (id + 1) ?_
      have hss : m.keys.toFinset.filter (id + 1 ≤ ·) ⊂ m.keys.toFinset.filter (id ≤ ·) := by
        refine Finset.ssubset_iff_of_subset ?_ |>.mpr ⟨id, ?_, ?_⟩
        · intro k hk
          simp only [Finset.mem_filter] at hk ⊢
          exact ⟨hk.1, by omega⟩
        · simpa using hm
        · simp
      have := Finset.card_lt_card hss
      omega
    · assumption

/-- Counting up from zero as often as there are keys always reaches an unused id. -/
theorem countUp_size_notMem (m : QMap α) : countUp m m.size 0 ∉ m := by
  apply countUp_notMem
  calc (m.keys.toFinset.filter ((0 : Int) ≤ ·)).card
      ≤ m.keys.toFinset.card := Finset.card_filter_le _ _
    _ ≤ m.keys.length := List.toFinset_card_le _
    _ = m.size := m.length_keys

/-- It stops at the first id that is not in use. -/
theorem countUp_below (m : QMap α) (n : Nat) (id : Int) :
    id ≤ countUp m n id ∧ ∀ j, id ≤ j → j < countUp m n id → j ∈ m := by
  induction n generalizing id with
  | zero => exact ⟨Int.le_refl id, fun j h h' => absurd h' (Int.not_lt.mpr h)⟩
  | succ n ih =>
    unfold countUp
    split
    · rename_i hm
      obtain ⟨hle, hin⟩ := ih (id + 1)
      refine ⟨by omega, ?_⟩
      intro j hj hj'
      by_cases he : j = id
      · exact he ▸ hm
      · exact hin j (by omega) hj'
    · exact ⟨Int.le_refl id, fun j h h' => absurd h' (Int.not_lt.mpr h)⟩

/-- When the ids in use are those below `n`, counting up finds `n`. -/
theorem countUp_eq {m : QMap α} {n : Nat} (h : ∀ j : Int, j ∈ m ↔ 0 ≤ j ∧ j < n) :
    countUp m m.size 0 = n := by
  obtain ⟨hle, hin⟩ := countUp_below m m.size 0
  have hnot := countUp_size_notMem m
  rw [h] at hnot
  by_contra hne
  have hn := (h n).mp (hin n (by omega) (by omega))
  omega

end ParleVision.Lib
