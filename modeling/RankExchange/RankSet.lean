import RankExchange.Basic

/-!
# Finite sets of ranks

A set is kept as its ranks in strictly ascending order, so two sets with the
same members are equal and every walk over a set goes up.
-/

namespace RankExchange

structure RankSet where
  ranks : List Nat
  ascending : ranks.Pairwise (· < ·)
  deriving DecidableEq

namespace RankSet

instance : Membership Nat RankSet := ⟨fun set rank => rank ∈ set.ranks⟩

instance (rank : Nat) (set : RankSet) : Decidable (rank ∈ set) :=
  inferInstanceAs (Decidable (rank ∈ set.ranks))

theorem mem_def {rank : Nat} {set : RankSet} : rank ∈ set ↔ rank ∈ set.ranks :=
  Iff.rfl

def empty : RankSet := ⟨[], .nil⟩

def size (set : RankSet) : Nat :=
  set.ranks.length

private def insertRank (rank : Nat) : List Nat → List Nat
  | [] => [rank]
  | first :: rest =>
      if rank < first then rank :: first :: rest
      else if rank = first then first :: rest
      else first :: insertRank rank rest

private theorem mem_insertRank {rank other : Nat} {ranks : List Nat} :
    other ∈ insertRank rank ranks ↔ other = rank ∨ other ∈ ranks := by
  induction ranks with
  | nil => simp [insertRank]
  | cons first rest ih =>
      unfold insertRank
      split
      · simp
      · split
        · next h => simp [h]
        · simp only [List.mem_cons, ih]
          constructor
          · rintro (h | h | h)
            · exact .inr (.inl h)
            · exact .inl h
            · exact .inr (.inr h)
          · rintro (h | h | h)
            · exact .inr (.inl h)
            · exact .inl h
            · exact .inr (.inr h)

private theorem insertRank_pairwise {rank : Nat} {ranks : List Nat}
    (h : ranks.Pairwise (· < ·)) : (insertRank rank ranks).Pairwise (· < ·) := by
  induction ranks with
  | nil => simp [insertRank]
  | cons first rest ih =>
      rw [List.pairwise_cons] at h
      unfold insertRank
      split
      · next hlt =>
          refine List.pairwise_cons.2 ⟨?_, List.pairwise_cons.2 h⟩
          intro other hother
          rcases List.mem_cons.1 hother with rfl | hother
          · exact hlt
          · exact Nat.lt_trans hlt (h.1 other hother)
      · split
        · exact List.pairwise_cons.2 h
        · next hle hne =>
            refine List.pairwise_cons.2 ⟨?_, ih h.2⟩
            intro other hother
            rcases mem_insertRank.1 hother with rfl | hother
            · omega
            · exact h.1 other hother

def insert (set : RankSet) (rank : Nat) : RankSet :=
  ⟨insertRank rank set.ranks, insertRank_pairwise set.ascending⟩

def erase (set : RankSet) (rank : Nat) : RankSet :=
  ⟨set.ranks.filter (· ≠ rank), set.ascending.filter _⟩

def ofList (ranks : List Nat) : RankSet :=
  ranks.foldl insert empty

def others (size : Nat) (rank : Nat) : RankSet :=
  ⟨(List.range size).filter (· ≠ rank), (List.pairwise_lt_range).filter _⟩

@[simp] theorem not_mem_empty {rank : Nat} : ¬ rank ∈ empty := by
  simp [mem_def, empty]

@[simp] theorem mem_insert {set : RankSet} {rank other : Nat} :
    other ∈ set.insert rank ↔ other = rank ∨ other ∈ set :=
  mem_insertRank

@[simp] theorem mem_erase {set : RankSet} {rank other : Nat} :
    other ∈ set.erase rank ↔ other ∈ set ∧ other ≠ rank := by
  simp [mem_def, erase]

@[simp] theorem mem_others {size : Nat} {rank other : Nat} :
    other ∈ others size rank ↔ other < size ∧ other ≠ rank := by
  simp [mem_def, others]

theorem mem_foldl_insert {ranks : List Nat} {set : RankSet} {rank : Nat} :
    rank ∈ ranks.foldl insert set ↔ rank ∈ set ∨ rank ∈ ranks := by
  induction ranks generalizing set with
  | nil => simp
  | cons first rest ih =>
      rw [List.foldl_cons, ih, mem_insert, List.mem_cons]
      constructor
      · rintro ((h | h) | h)
        · exact .inr (.inl h)
        · exact .inl h
        · exact .inr (.inr h)
      · rintro (h | h | h)
        · exact .inl (.inr h)
        · exact .inl (.inl h)
        · exact .inr h

@[simp] theorem mem_ofList {ranks : List Nat} {rank : Nat} :
    rank ∈ ofList ranks ↔ rank ∈ ranks := by
  simp [ofList, mem_foldl_insert]

theorem size_erase {set : RankSet} {rank : Nat} (h : rank ∈ set) :
    (set.erase rank).size + 1 = set.size := by
  obtain ⟨ranks, ascending⟩ := set
  change rank ∈ ranks at h
  change (ranks.filter (· ≠ rank)).length + 1 = ranks.length
  induction ranks with
  | nil => cases h
  | cons first rest ih =>
      rw [List.pairwise_cons] at ascending
      by_cases hfirst : first = rank
      · subst hfirst
        have hrest : rest.filter (· ≠ first) = rest := by
          rw [List.filter_eq_self]
          intro other hother
          simpa using (Nat.ne_of_lt (ascending.1 other hother)).symm
        simp only [List.filter_cons, ne_eq, not_true_eq_false, decide_false, Bool.false_eq_true,
          if_false]
        simpa using congrArg List.length hrest
      · have hrest : rank ∈ rest := by
          rcases List.mem_cons.1 h with h | h
          · exact absurd h.symm hfirst
          · exact h
        have := ih ascending.2 hrest
        simp [hfirst] at this ⊢
        omega

theorem nodup (set : RankSet) : set.ranks.Nodup :=
  set.ascending.imp (fun h => Nat.ne_of_lt h)

theorem ext {a b : RankSet} (h : ∀ rank, rank ∈ a ↔ rank ∈ b) : a = b := by
  have key : ∀ {l m : List Nat}, l.Pairwise (· < ·) → m.Pairwise (· < ·) →
      (∀ rank, rank ∈ l ↔ rank ∈ m) → l = m := by
    intro l
    induction l with
    | nil =>
        intro m _ _ hmem
        cases m with
        | nil => rfl
        | cons first rest => exact absurd ((hmem first).2 (by simp)) (by simp)
    | cons x xs ih =>
        intro m hl hm hmem
        cases m with
        | nil => exact absurd ((hmem x).1 (by simp)) (by simp)
        | cons y ys =>
            rw [List.pairwise_cons] at hl hm
            have hxy : x = y := by
              rcases List.mem_cons.1 ((hmem x).1 (by simp)) with hx | hx
              · exact hx
              · rcases List.mem_cons.1 ((hmem y).2 (by simp)) with hy | hy
                · exact hy.symm
                · exact absurd (Nat.lt_trans (hm.1 x hx) (hl.1 y hy)) (Nat.lt_irrefl _)
            subst hxy
            rw [ih hl.2 hm.2]
            intro rank
            have := hmem rank
            simp only [List.mem_cons] at this
            constructor
            · intro hr
              rcases this.1 (.inr hr) with rfl | hr'
              · exact absurd (hl.1 _ hr) (Nat.lt_irrefl _)
              · exact hr'
            · intro hr
              rcases this.2 (.inr hr) with rfl | hr'
              · exact absurd (hm.1 _ hr) (Nat.lt_irrefl _)
              · exact hr'
  cases a; cases b
  simp only [mk.injEq]
  exact key ‹_› ‹_› h

end RankSet

end RankExchange
