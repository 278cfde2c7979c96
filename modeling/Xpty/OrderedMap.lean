import Std.Data.ExtTreeMap
import Mathlib.Data.List.Basic

/- The values of an ordered map in key order, and what a sequence of insertions
   leaves in it, over any key type with a lawful comparison. -/
namespace OrderedMap

open Std

variable {K V W : Type} {cmp : K → K → Ordering} [TransCmp cmp]

/-- The values in key order. -/
def values (m : ExtTreeMap K V cmp) : List V := m.toList.map Prod.snd

theorem mem_values [LawfulEqCmp cmp] {m : ExtTreeMap K V cmp} {v : V} :
    v ∈ values m ↔ ∃ k : K, m[k]? = some v := by
  simp only [values, List.mem_map, Prod.exists, exists_eq_right,
    ExtTreeMap.mem_toList_iff_getElem?_eq_some]

/-- Keys that the values determine run through them in strictly increasing order. -/
theorem values_sorted [LawfulEqCmp cmp] {m : ExtTreeMap K V cmp} {key : V → K}
    (h : ∀ k v, m[k]? = some v → k = key v) :
    (values m).Pairwise fun a b => cmp (key a) (key b) = .lt := by
  rw [values, List.pairwise_map]
  refine ExtTreeMap.ordered_keys_toList.imp_of_mem fun {a b} ha hb hab => ?_
  rw [← h _ _ (ExtTreeMap.mem_toList_iff_getElem?_eq_some.mp ha),
    ← h _ _ (ExtTreeMap.mem_toList_iff_getElem?_eq_some.mp hb)]
  exact hab

/-- Inserting, for every value, something at the key it was found under: the map
reads as the first one there, and as before elsewhere. -/
theorem getElem?_insertMany_values [BEq K] [LawfulBEq K] [LawfulEqCmp cmp] {m : ExtTreeMap K V cmp}
    {t : ExtTreeMap K W cmp} {key : V → K} {f : V → W} (h : ∀ k v, m[k]? = some v → k = key v)
    (k : K) :
    (t.insertMany ((values m).map fun v => (key v, f v)))[k]? = (m[k]?.map f).or t[k]? := by
  cases hk : m[k]? with
  | some v =>
    -- no two of the keys are equal, so what is written at `k` stays
    refine ExtTreeMap.getElem?_insertMany_list_of_mem (k := k) ReflCmp.compare_self ?_ ?_
    · rw [List.pairwise_map]
      exact (values_sorted h).imp fun hlt heq => by rw [hlt] at heq; cases heq
    · exact List.mem_map.mpr ⟨v, mem_values.mpr ⟨k, hk⟩, by rw [← h k v hk]⟩
  | none =>
    rw [Option.map_none, Option.none_or]
    refine ExtTreeMap.getElem?_insertMany_list_of_contains_eq_false ?_
    simp only [List.map_map, List.contains_eq_mem, decide_eq_false_iff_not, List.mem_map,
      Function.comp, not_exists, not_and]
    intro v hv hkey
    obtain ⟨k', hk'⟩ := mem_values.mp hv
    rw [h k' v hk', hkey, hk] at hk'
    cases hk'

end OrderedMap
