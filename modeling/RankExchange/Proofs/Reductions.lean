import RankExchange.Proofs.Collectives

/-!
# Reductions

A reduction folds in rank order, in whatever order the contributions come to the root: the
root keeps them in a table first.  If it cannot read some of them, it fails with the first
that it cannot read, again in rank order.
-/

namespace RankExchange

namespace Endpoint

open Program

variable {α : Type} {endpoint : Nat → Endpoint} {root rank size : Nat} {granted : Threading}
  {tag : Tag} {coder : Coder α} {fold : α → α → α} {value : Nat → α} {text : Nat → Bytes}

/-- How a reduction ends on its root, by the contributions of all ranks: with the values
folded in rank order, or with what is wrong with the first that cannot be read. -/
structure Reduces (coder : Coder α) (fold : α → α → α) (size : Nat) (text : Nat → Bytes)
    (outcome : Except Fault (Option α)) : Prop where
  total : ∀ copy : Nat → α, (∀ rank, rank < size → coder.decode (text rank) = .ok (copy rank)) →
    outcome = .ok (some (foldRanks fold copy size))
  fault : ∀ rank fault, rank < size → coder.decode (text rank) = .error fault →
    (∀ other, other < rank → ∃ copy, coder.decode (text other) = .ok copy) →
      outcome = .error fault

theorem foldlM_decode_fault {payload : Bytes} {fault : Fault} {before : List Bytes}
    (hbefore : ∀ other ∈ before, ∃ copy, coder.decode other = .ok copy)
    (hfault : coder.decode payload = .error fault) (after : List Bytes) (start : α) :
    (before ++ payload :: after).foldlM
      (fun total payload => fold total <$> coder.decode payload) start = .error fault := by
  induction before generalizing start with
  | nil =>
      rw [List.nil_append, List.foldlM_cons, hfault]
      rfl
  | cons first before ih =>
      obtain ⟨⟨copy, hcopy⟩, hrest⟩ := List.forall_mem_cons.1 hbefore
      rw [List.cons_append, List.foldlM_cons, hcopy]
      exact ih hrest (fold start copy)

theorem foldDecoded_fault {payload : Bytes} {fault : Fault} {before : List Bytes}
    (hbefore : ∀ other ∈ before, ∃ copy, coder.decode other = .ok copy)
    (hfault : coder.decode payload = .error fault) (after : List Bytes) :
    foldDecoded coder fold (before ++ payload :: after) = .error fault := by
  cases before with
  | nil =>
      change (coder.decode payload >>= _) = _
      rw [hfault]
      rfl
  | cons first before =>
      obtain ⟨⟨copy, hcopy⟩, hrest⟩ := List.forall_mem_cons.1 hbefore
      change (coder.decode first >>= _) = _
      rw [hcopy]
      change (List.foldlM _ copy (before ++ payload :: after) >>=
        fun total => Except.ok (some total)) = _
      rw [foldlM_decode_fault hrest hfault]
      rfl

theorem reduces_foldDecoded (hsize : 0 < size) : Reduces coder fold size text
    (foldDecoded coder fold ((List.range size).map text)) where
  total := fun copy hcopies => foldDecoded_map hsize hcopies
  fault := by
    intro rank fault hrank hfault hbefore
    obtain ⟨more, rfl⟩ := Nat.exists_eq_add_of_lt hrank
    have hrange : List.range (rank + more + 1) =
        List.range rank ++ rank :: List.range' (rank + 1) more := by
      rw [List.range_eq_range', List.range_eq_range', ← List.range'_succ, Nat.add_assoc,
        ← List.range'_append_1, Nat.zero_add]
    rw [hrange, List.map_append, List.map_cons]
    refine foldDecoded_fault (fun payload hpayload => ?_) hfault _
    obtain ⟨other, hother, rfl⟩ := List.mem_map.1 hpayload
    exact hbefore other (List.mem_range.1 hother)

/-- A reduction in step ends on each rank as the contributions have it. -/
theorem followsScript_reduce_attempt (hopen : (endpoint rank).standing = .ok ⟨rank, size, granted⟩)
    (htag : (endpoint rank).tags.contains tag = true) (hroot : root < size) (hrank : rank < size)
    (hencode : coder.encode (value rank) = .ok (text rank)) (time : Nat) :
    FollowsScript (Ends (Closing (if rank = root then
        foldDecoded coder fold ((List.range size).map text) else .ok none))) true
      ((endpoint rank).reduce root tag coder (value rank) fold).attempt
      ((Meeting.fanIn size root endpoint tag text).before rank time []) := by
  rw [reduce_eq hencode]
  have hgather := followsScript_gather hopen htag hroot hrank text time []
  refine hgather.through (f := fun program => (program.bind (fun gathered =>
    Program.done (foldDecoded coder fold gathered.values))).attempt) (fun _ _ => rfl) ?_
  rintro inStep program script ⟨result, rfl, hreturns⟩
  cases hreturns with
  | kept =>
      refine .done (fun _ => ⟨?_, rfl⟩)
      by_cases heq : rank = root
      · rw [if_pos heq, if_pos heq, RankMap.values_tabulate]
        rfl
      · rw [if_neg heq, if_neg heq]
        rfl
  | lost fault script => exact .done (fun hstep => nomatch hstep)

end Endpoint

namespace World

variable {α : Type} {group : Group} {endpoint : Nat → Endpoint} {root : Nat} {tag : Tag}
  {coder : Coder α} {fold : α → α → α} {value : Nat → α} {text : Nat → Bytes}

/-- A reduction has one outcome on its root, whatever the order in which the contributions
arrive there: the fold of all values in rank order if all can be read, and otherwise the
fault of the lowest rank whose contribution cannot be read.  All ranks finish. -/
theorem reduces_of_reaches (hopened : group.Opened endpoint) (hintact : group.Intact)
    (hquiet : group.Quiet (fun label => label = tag)) (hroot : root < group.size)
    (hinside : ∀ rank, rank < group.size → (endpoint rank).tags.contains tag = true)
    (hencode : ∀ rank, rank < group.size → coder.encode (value rank) = .ok (text rank)) :
    ∃ outcome, Endpoint.Reduces coder fold group.size text outcome ∧
      ∀ world, (starting group (fun rank =>
          ((endpoint rank).reduce root tag coder (value rank) fold).attempt)).Reaches world →
        (∀ rank result, world.result? rank = some result →
          result = .ok (if rank = root then outcome else .ok none)) ∧ world.Finishes := by
  refine ⟨_, Endpoint.reduces_foldDecoded (Nat.zero_lt_of_lt hroot), fun world hreaches => ?_⟩
  have hmeetings : ∀ {p : Meeting → Prop}, p (.fanIn group.size root endpoint tag text) →
      ∀ meeting ∈ [Meeting.fanIn group.size root endpoint tag text], p meeting := by
    intro p h meeting hmeeting
    rw [List.mem_singleton.1 hmeeting]
    exact h
  have hfirst : (starting group (fun rank =>
      ((endpoint rank).reduce root tag coder (value rank) fold).attempt)).InStep
        (fun label => label = tag) (fun rank => if rank = root then
          Endpoint.foldDecoded coder fold ((List.range group.size).map text) else .ok none) _ :=
    inStep_of_meetings hquiet hintact (hmeetings rfl)
      (hmeetings (Meeting.matched_fanIn hroot text)) (hmeetings (fun _ => rfl)) ?_ ?_ ?_
  · obtain ⟨position, hlast⟩ := hfirst.reaches hreaches
    exact ⟨fun rank result hresult => hlast.result hresult, hlast.finishes⟩
  · -- The root only takes, and the others only send.
    refine fun _ rank _ => hmeetings (.inr ?_)
    by_cases heq : rank = root
    · exact .inl (congrArg RankSet.ranks (if_neg (fun h => h.2 heq)))
    · exact .inr (congrArg RankSet.ranks (if_neg heq))
  · intro rank _ early late first last source hfirst hlast hlt
    have hearly := (List.getElem?_eq_some_iff.1 hfirst).1
    have hlate := (List.getElem?_eq_some_iff.1 hlast).1
    rw [List.length_singleton] at hearly hlate
    omega
  · intro rank hrank
    exact Endpoint.followsScript_reduce_attempt (hopened rank _ (List.getElem?_eq_getElem hrank))
      (hinside rank hrank) hroot hrank (hencode rank hrank) 0

/-- Writes any bytes, and reads only those of seven bits. -/
def sevenBit : Coder Bytes where
  encode := .ok
  decode data :=
    if data.all (fun byte => byte < 128) then .ok data
    else .error (.codec (.bytesNotAscii data.length))

def unreadableTexts : Nat → Bytes
  | 0 => [65]
  | 1 => [200, 1]
  | _ => [255]

/-- The root cannot read its own contribution either, but that of rank 1 comes first. -/
theorem reduces_of_unreadableTexts :
    let world := (starting (.ofGrants .rendezvous [.multiple, .multiple, .multiple])
      (fun rank => ((Endpoint.opened rank 3 .multiple).reduce 2 4 sevenBit (unreadableTexts rank)
        (· ++ ·)).attempt)).run
    world.isDone = true ∧
      ∀ result, world.result? 2 = some result →
        result = .ok (.error (.codec (.bytesNotAscii 2))) := by
  intro world
  have hgrants : ∀ grant ∈ [Threading.multiple, .multiple, .multiple], grant = .multiple := by
    decide
  have hopened : (Group.ofGrants .rendezvous [.multiple, .multiple, .multiple]).Opened
      (fun rank => .opened rank 3 .multiple) := Group.opened_ofGrants hgrants
  have hinside : ∀ rank, rank < 3 →
      (Endpoint.opened rank 3 .multiple).tags.contains 4 = true := fun _ _ => rfl
  have hencode : ∀ rank, rank < 3 → sevenBit.encode (unreadableTexts rank) =
      .ok (unreadableTexts rank) :=
    fun _ _ => rfl
  obtain ⟨outcome, hreduces, hreached⟩ : ∃ outcome,
      Endpoint.Reduces sevenBit (· ++ ·) 3 unreadableTexts outcome ∧ _ :=
    reduces_of_reaches hopened Group.intact_ofGrants (Group.quiet_ofGrants _)
      (by decide : 2 < 3) hinside hencode
  obtain ⟨hresults, hfinishes⟩ := hreached world (reaches_run _)
  refine ⟨hfinishes.isDone (firstStep_run _), fun result hresult => ?_⟩
  have hfault : outcome = .error (.codec (.bytesNotAscii 2)) := by
    refine hreduces.fault 1 _ (by decide) rfl (fun other hother => ?_)
    obtain rfl : other = 0 := by omega
    exact ⟨[65], rfl⟩
  rw [hresults 2 result hresult, if_pos rfl, hfault]

end World

end RankExchange
