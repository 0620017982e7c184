/-!
# Sorted maps

A finite map is kept as its pairs in strictly ascending order of key, so that
maps with the same pairs are equal; a key that is inserted again gets the new
value.
-/

namespace RankExchange

/-- Keys of which of any two different ones one is the smaller. -/
class KeyOrder (κ : Type) [LT κ] : Prop where
  lt_trans {a b c : κ} : a < b → b < c → a < c
  eq_of_not_lt {a b : κ} : ¬ a < b → ¬ b < a → a = b

instance : KeyOrder Nat where
  lt_trans := Nat.lt_trans
  eq_of_not_lt h h' := Nat.le_antisymm (Nat.le_of_not_lt h') (Nat.le_of_not_lt h)

instance : KeyOrder String where
  lt_trans := String.lt_trans
  eq_of_not_lt h h' := String.le_antisymm (String.not_lt.1 h') (String.not_lt.1 h)

structure SortedMap (κ α : Type) [LT κ] where
  entries : List (κ × α)
  ascending : entries.Pairwise (fun a b => a.1 < b.1)

namespace SortedMap

variable {κ α β : Type} [LT κ]

def empty : SortedMap κ α := ⟨[], .nil⟩

def size (map : SortedMap κ α) : Nat :=
  map.entries.length

def values (map : SortedMap κ α) : List α :=
  map.entries.map Prod.snd

def find? [DecidableEq κ] (map : SortedMap κ α) (key : κ) : Option α :=
  (map.entries.find? (fun entry => entry.1 = key)).map Prod.snd

def map (f : α → β) (map : SortedMap κ α) : SortedMap κ β :=
  ⟨map.entries.map (fun entry => (entry.1, f entry.2)), List.pairwise_map.2 map.ascending⟩

theorem ext {a b : SortedMap κ α} (h : a.entries = b.entries) : a = b := by
  cases a; cases b
  simpa using h

variable [DecidableLT κ] [DecidableEq κ]

def insertEntry (key : κ) (value : α) : List (κ × α) → List (κ × α)
  | [] => [(key, value)]
  | first :: rest =>
      if key < first.1 then (key, value) :: first :: rest
      else if key = first.1 then (key, value) :: rest
      else first :: insertEntry key value rest

theorem mem_insertEntry_or {key : κ} {value : α} {entry : κ × α} {entries : List (κ × α)}
    (h : entry ∈ insertEntry key value entries) : entry.1 = key ∨ entry ∈ entries := by
  induction entries with
  | nil => simp_all [insertEntry]
  | cons first rest ih => grind [insertEntry]

variable [KeyOrder κ]

theorem insertEntry_pairwise {key : κ} {value : α} {entries : List (κ × α)}
    (h : entries.Pairwise (fun a b => a.1 < b.1)) :
    (insertEntry key value entries).Pairwise (fun a b => a.1 < b.1) := by
  induction entries with
  | nil => simp [insertEntry]
  | cons first rest ih =>
      rw [List.pairwise_cons] at h
      unfold insertEntry
      split
      · next hlt =>
          refine List.pairwise_cons.2 ⟨?_, List.pairwise_cons.2 h⟩
          intro other hother
          rcases List.mem_cons.1 hother with rfl | hother
          · exact hlt
          · exact KeyOrder.lt_trans hlt (h.1 other hother)
      · split
        · next heq =>
            exact List.pairwise_cons.2 ⟨fun other hother => heq ▸ h.1 other hother, h.2⟩
        · next hlt hne =>
            have hfirst : first.1 < key := by
              by_cases hfirst : first.1 < key
              · exact hfirst
              · exact absurd (KeyOrder.eq_of_not_lt hlt hfirst) hne
            refine List.pairwise_cons.2 ⟨?_, ih h.2⟩
            intro other hother
            rcases mem_insertEntry_or hother with heq | hother
            · exact heq ▸ hfirst
            · exact h.1 other hother

def insert (map : SortedMap κ α) (key : κ) (value : α) : SortedMap κ α :=
  ⟨insertEntry key value map.entries, insertEntry_pairwise map.ascending⟩

/-- The map of the given pairs; of two pairs with one key the later counts. -/
def ofList (pairs : List (κ × α)) : SortedMap κ α :=
  pairs.foldl (fun map pair => map.insert pair.1 pair.2) empty

omit [DecidableLT κ] [KeyOrder κ] in
@[simp] theorem find?_empty {key : κ} : (empty : SortedMap κ α).find? key = none := rfl

@[simp] theorem find?_insert (map : SortedMap κ α) (key other : κ) (value : α) :
    (map.insert key value).find? other =
      if other = key then some value else map.find? other := by
  cases map with
  | mk entries ascending =>
      simp only [insert, find?]
      clear ascending
      induction entries with
      | nil => by_cases h : key = other <;> simp [insertEntry, h, eq_comm]
      | cons first rest ih =>
          obtain ⟨place, old⟩ := first
          unfold insertEntry
          split
          · by_cases h : key = other <;> simp [h, eq_comm]
          · split
            · next heq =>
                simp only at heq
                subst heq
                by_cases h : key = other <;> simp [h, eq_comm]
            · next hne =>
                simp only at hne
                by_cases h : place = other
                · subst h
                  simp [Ne.symm hne]
                · simpa [List.find?_cons, h] using ih

end SortedMap

end RankExchange
