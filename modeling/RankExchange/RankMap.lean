import RankExchange.RankSet
import RankExchange.SortedMap

/-!
# Maps from ranks
-/

namespace RankExchange

abbrev RankMap := SortedMap Nat

namespace RankMap

variable {α β : Type}

def keys (map : RankMap α) : RankSet :=
  ⟨map.entries.map Prod.fst, List.pairwise_map.2 map.ascending⟩

def const (set : RankSet) (value : α) : RankMap α :=
  ⟨set.ranks.map (·, value), List.pairwise_map.2 set.ascending⟩

@[simp] theorem keys_const (set : RankSet) (value : α) : (const set value).keys = set := by
  cases set
  simp [const, keys, Function.comp_def]

@[simp] theorem mem_keys_insert {map : RankMap α} {key other : Nat} {value : α} :
    other ∈ keys (map.insert key value) ↔ other = key ∨ other ∈ map.keys := by
  obtain ⟨entries, ascending⟩ := map
  simp only [RankSet.mem_def, keys, SortedMap.insert]
  clear ascending
  induction entries with
  | nil => simp [SortedMap.insertEntry]
  | cons first rest ih => grind [SortedMap.insertEntry]

theorem keys_insert (map : RankMap α) (key : Nat) (value : α) :
    keys (map.insert key value) = map.keys.insert key :=
  RankSet.ext (fun other => by simp)

@[simp] theorem keys_empty : keys (.empty : RankMap α) = .empty := rfl

end RankMap

end RankExchange
