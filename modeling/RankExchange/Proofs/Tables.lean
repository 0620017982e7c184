import RankExchange.RankMap

/-!
# Tables

The map that gives each rank of a set its own value.  A map is known from its
lookups, so however the messages of a round come in, they make one table.
-/

namespace RankExchange

namespace RankSet

def upTo (size : Nat) : RankSet :=
  ⟨List.range size, List.pairwise_lt_range⟩

@[simp] theorem mem_upTo {size rank : Nat} : rank ∈ upTo size ↔ rank < size :=
  List.mem_range

theorem insert_others {size rank : Nat} (h : rank < size) :
    (others size rank).insert rank = upTo size := by
  apply ext
  intro other
  rw [mem_insert, mem_others, mem_upTo]
  by_cases hother : other = rank
  · simp [hother, h]
  · simp [hother]

theorem mem_ite_empty {p : Prop} [Decidable p] {set : RankSet} {rank : Nat} :
    rank ∈ (if p then set else .empty) ↔ p ∧ rank ∈ set := by
  split
  · next h => simp [h]
  · next h => simp [h]

end RankSet

namespace RankMap

variable {α β : Type}

def tabulate (set : RankSet) (f : Nat → α) : RankMap α :=
  ⟨set.ranks.map (fun rank => (rank, f rank)), List.pairwise_map.2 set.ascending⟩

theorem find?_eq_some_iff {map : RankMap α} {rank : Nat} {value : α} :
    map.find? rank = some value ↔ (rank, value) ∈ map.entries := by
  obtain ⟨entries, ascending⟩ := map
  unfold SortedMap.find?
  induction entries with
  | nil => simp
  | cons first rest ih =>
      obtain ⟨hfirst, hrest⟩ := List.pairwise_cons.1 ascending
      obtain ⟨key, old⟩ := first
      by_cases hkey : key = rank
      · have hnot : ∀ value, ¬ (rank, value) ∈ rest := by
          intro value hmem
          have hlt := hfirst (rank, value) hmem
          simp only at hlt
          omega
        rw [List.find?_cons_of_pos (by simpa using hkey), Option.map_some, List.mem_cons]
        subst hkey
        constructor
        · intro h
          cases h
          exact .inl rfl
        · rintro (h | h)
          · cases h
            rfl
          · exact absurd h (hnot value)
      · rw [List.find?_cons_of_neg (by simpa using hkey), List.mem_cons]
        constructor
        · exact fun h => .inr ((ih hrest).1 h)
        · rintro (h | h)
          · cases h
            exact absurd rfl hkey
          · exact (ih hrest).2 h

theorem mem_keys_iff {map : RankMap α} {rank : Nat} :
    rank ∈ map.keys ↔ ∃ value, map.find? rank = some value := by
  unfold keys
  rw [RankSet.mem_def, List.mem_map]
  constructor
  · rintro ⟨⟨key, value⟩, hmem, rfl⟩
    exact ⟨value, find?_eq_some_iff.2 hmem⟩
  · rintro ⟨value, h⟩
    exact ⟨(rank, value), find?_eq_some_iff.1 h, rfl⟩

theorem ext_find? {a b : RankMap α} (h : ∀ rank, a.find? rank = b.find? rank) : a = b := by
  have hmem : ∀ entry, entry ∈ a.entries ↔ entry ∈ b.entries := by
    rintro ⟨rank, value⟩
    rw [← find?_eq_some_iff, ← find?_eq_some_iff, h rank]
  have hnodup : ∀ map : RankMap α, map.entries.Nodup := by
    intro map
    apply map.ascending.imp
    rintro first second hlt rfl
    exact Nat.lt_irrefl _ hlt
  have hperm := (List.perm_ext_iff_of_nodup (hnodup a) (hnodup b)).2 (fun {entry} => hmem entry)
  apply SortedMap.ext
  apply hperm.eq_of_pairwise _ a.ascending b.ascending
  intro first second _ _ hlt hgt
  exact absurd (Nat.lt_trans hlt hgt) (Nat.lt_irrefl _)

@[simp] theorem find?_tabulate (set : RankSet) (f : Nat → α) (rank : Nat) :
    (tabulate set f).find? rank = if rank ∈ set then some (f rank) else none := by
  split
  · next h => exact find?_eq_some_iff.2 (List.mem_map.2 ⟨rank, h, rfl⟩)
  · next h =>
      rw [Option.eq_none_iff_forall_ne_some]
      intro value hvalue
      obtain ⟨other, hother, heq⟩ := List.mem_map.1 (find?_eq_some_iff.1 hvalue)
      cases heq
      exact h hother

@[simp] theorem keys_tabulate (set : RankSet) (f : Nat → α) : (tabulate set f).keys = set := by
  apply RankSet.ext
  intro rank
  rw [mem_keys_iff, find?_tabulate]
  split <;> simp_all

theorem const_eq_tabulate (set : RankSet) (value : α) :
    const set value = tabulate set (fun _ => value) := rfl

theorem insert_tabulate (set : RankSet) (f : Nat → α) (rank : Nat) :
    (tabulate set f).insert rank (f rank) = tabulate (set.insert rank) f := by
  apply ext_find?
  intro other
  rw [SortedMap.find?_insert, find?_tabulate, find?_tabulate]
  by_cases hother : other = rank
  · simp [hother]
  · simp [hother]

theorem map_tabulate (set : RankSet) (f : Nat → α) (g : α → β) :
    (tabulate set f).map g = tabulate set (fun rank => g (f rank)) := by
  apply SortedMap.ext
  exact List.map_map

theorem values_tabulate (set : RankSet) (f : Nat → α) :
    (tabulate set f).values = set.ranks.map f := by
  unfold tabulate SortedMap.values
  rw [List.map_map]
  rfl

def envelopes (set : RankSet) (tag : Tag) (payload : Nat → Bytes) : RankMap Envelope :=
  tabulate set (fun peer => ⟨peer, tag, payload peer⟩)

theorem insert_envelopes (set : RankSet) (tag : Tag) (payload : Nat → Bytes) (source : Nat) :
    (envelopes set tag payload).insert source ⟨source, tag, payload source⟩ =
      envelopes (set.insert source) tag payload :=
  insert_tabulate set (fun peer => Envelope.mk peer tag (payload peer)) source

theorem entries_eq_map {map : RankMap α} {f : Nat → α}
    (h : ∀ rank value, map.find? rank = some value → value = f rank) :
    map.entries = map.keys.ranks.map (fun rank => (rank, f rank)) := by
  have htable : map = tabulate map.keys f := by
    apply ext_find?
    intro rank
    rw [find?_tabulate]
    split
    · next hmem =>
        obtain ⟨value, hvalue⟩ := mem_keys_iff.1 hmem
        rw [hvalue, h rank value hvalue]
    · next hmem =>
        rw [Option.eq_none_iff_forall_ne_some]
        exact fun value hvalue => hmem (mem_keys_iff.2 ⟨value, hvalue⟩)
  exact congrArg SortedMap.entries htable

end RankMap

end RankExchange
