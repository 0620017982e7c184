import RankExchange.Proofs.Collectives

/-!
# Collectives on repeated tags

An all-reduce gathers and then spreads on one tag.  Calls on the same tag cannot
cross: a rank takes the result of one call before it sends for the next, and rank
0 has sent this result to all before it takes for the next.  Gathers have no such
echo, and a group of three is enough for a rank to run ahead of another one.
-/

namespace RankExchange

namespace Meeting

variable {meetings : List Meeting} {rank : Nat}

/-- A rank that takes only from those it has sent to at the meeting before, and
never does both at once, is spaced on all tags. -/
theorem spaced_of_isChain
    (hchain : meetings.IsChain (fun first second =>
      ∀ source, source ∈ second.owed rank → source ∈ first.sent rank))
    (hsplit : ∀ meeting ∈ meetings,
      (meeting.sent rank).ranks = [] ∨ (meeting.owed rank).ranks = []) :
    Spaced meetings rank := by
  intro early late first last source hfirst hlast hlt _ howed hsource
  obtain ⟨before, rfl⟩ : ∃ before, late = before + 1 := ⟨late - 1, by omega⟩
  obtain ⟨hlate, rfl⟩ := List.getElem?_eq_some_iff.1 hlast
  have hsent : source ∈ (meetings[before]).sent rank :=
    List.isChain_iff_getElem.1 hchain before hlate source hsource
  have hne : early ≠ before := by
    intro heq
    subst heq
    rw [List.getElem?_eq_getElem (by omega)] at hfirst
    cases hfirst
    rcases hsplit _ (List.getElem_mem _) with hnone | hnone
    · rw [RankSet.mem_def, hnone] at hsent
      cases hsent
    · exact howed hnone
  exact .inr ⟨before, meetings[before], by omega, by omega, List.getElem?_eq_getElem _, hsent⟩

end Meeting

namespace Collective

variable {Kind : Type} {Value : Kind → Type} {endpoint : Nat → Endpoint} {size : Nat}
  {collectives : List (Collective Value)} {answers : List (Nat → Answer Value)}

theorem sent_or_owed_eq_nil (hanswers : List.Forall₂ (Answers size) collectives answers)
    (rank : Nat) : ∀ meeting ∈ collectives.flatMap (meetings size endpoint),
      (meeting.sent rank).ranks = [] ∨ (meeting.owed rank).ranks = [] := by
  apply flatMap_meetings_cases (p := fun meeting =>
    (meeting.sent rank).ranks = [] ∨ (meeting.owed rank).ranks = []) hanswers
  · intro collective _ root payload _
    by_cases hroot : rank = root
    · right
      simp [Meeting.fanOut, hroot, RankSet.empty]
    · left
      simp [Meeting.fanOut, hroot, RankSet.empty]
  · intro collective _ root payload _
    by_cases hroot : rank = root
    · left
      simp [Meeting.fanIn, hroot, RankSet.empty]
    · right
      simp [Meeting.fanIn, hroot, RankSet.empty]

def isAllReduce : Collective Value → Bool
  | .allReduce _ _ _ _ _ => true
  | _ => false

/-- In a sequence of all-reduces, whoever owes a rank a message has just got one
from it. -/
theorem isChain_allReduces (hall : ∀ collective ∈ collectives, collective.isAllReduce = true)
    (rank : Nat) : (collectives.flatMap (meetings size endpoint)).IsChain (fun first second =>
      ∀ source, source ∈ second.owed rank → source ∈ first.sent rank) := by
  induction collectives with
  | nil => exact .nil
  | cons collective collectives ih =>
      have hrest := ih (fun later hlater => hall later (List.mem_cons_of_mem _ hlater))
      cases collective with
      | broadcast => cases hall _ List.mem_cons_self
      | gather => cases hall _ List.mem_cons_self
      | reduce => cases hall _ List.mem_cons_self
      | allReduce =>
          rw [List.flatMap_cons]
          refine List.isChain_cons_cons.2 ⟨fun _ hsource => hsource, ?_⟩
          cases collectives with
          | nil => exact .singleton _
          | cons later collectives =>
              have hlater := hall later (List.mem_cons_of_mem _ List.mem_cons_self)
              cases later with
              | broadcast => cases hlater
              | gather => cases hlater
              | reduce => cases hlater
              | allReduce => exact List.isChain_cons_cons.2 ⟨fun _ hsource => hsource, hrest⟩

def gathers (root : Nat) (calls : List (Tag × (Nat → Bytes))) : List (Collective Value) :=
  calls.map (fun call => .gather root call.1 call.2)

def tables (size root : Nat) (calls : List (Tag × (Nat → Bytes))) (rank : Nat) :
    List (Answer Value) :=
  calls.map (fun call =>
    .table (if rank = root then RankMap.tabulate (.upTo size) call.2 else .empty))

theorem answers_gathers {root : Nat} (hroot : root < size) (calls : List (Tag × (Nat → Bytes))) :
    ∃ answers : List (Nat → Answer Value), List.Forall₂ (Answers size)
      (gathers root calls) answers ∧
      ∀ rank, answers.map (fun answer => answer rank) = tables size root calls rank := by
  induction calls with
  | nil => exact ⟨[], .nil, fun _ => rfl⟩
  | cons call calls ih =>
      obtain ⟨answers, hanswers, htables⟩ := ih
      refine ⟨_ :: answers, .cons (.gather hroot) hanswers, fun rank => ?_⟩
      rw [List.map_cons, htables]
      rfl

/-- In a group of two, the root of a gather takes from one rank only. -/
theorem spaced_gathers {root : Nat} {calls : List (Tag × (Nat → Bytes))} (hroot : root < size)
    (hsize : size ≤ 2) (hgathers : collectives = gathers root calls) (rank : Nat) :
    Meeting.Spaced (collectives.flatMap (meetings size endpoint)) rank := by
  have hother : ∀ meeting ∈ collectives.flatMap (meetings size endpoint),
      ∀ other, other ∈ meeting.owed rank → other + root = 1 := by
    intro meeting hmeeting other howed
    obtain ⟨collective, hcollective, hmem⟩ := List.mem_flatMap.1 hmeeting
    rw [hgathers] at hcollective
    obtain ⟨call, _, rfl⟩ := List.mem_map.1 hcollective
    rw [List.mem_singleton.1 hmem] at howed
    obtain ⟨_, hothers⟩ := RankSet.mem_ite_empty.1 howed
    obtain ⟨hlt, hne⟩ := RankSet.mem_others.1 hothers
    omega
  intro early late first last source hfirst hlast _ _ _ hsource
  have hlater := hother last (List.mem_of_getElem? hlast) source hsource
  refine .inl (fun other howed => ?_)
  have hearlier := hother first (List.mem_of_getElem? hfirst) other howed
  omega

end Collective

namespace World

variable {Kind : Type} {Value : Kind → Type} {group : Group} {endpoint : Nat → Endpoint}
  {collectives : List (Collective Value)} {answers : List (Nat → Answer Value)} {root : Nat}
  {calls : List (Tag × (Nat → Bytes))}

/-- All-reduces may share their tags, even in a row. -/
theorem answers_of_allReduces (hopened : group.Opened endpoint) (hintact : group.Intact)
    (hquiet : group.Quiet (fun tag => ∃ collective ∈ collectives, collective.tag = tag))
    (hall : ∀ collective ∈ collectives, collective.isAllReduce = true)
    (hinside : ∀ collective ∈ collectives, ∀ rank, rank < group.size →
      (endpoint rank).tags.contains collective.tag = true)
    (hanswers : List.Forall₂ (Answers group.size) collectives answers)
    {world : World (List (Answer Value))}
    (hreaches : (starting group (fun rank => (endpoint rank).performAll rank collectives)).Reaches
      world) :
    (∀ rank, world.Approaches rank (answers.map (fun answer => answer rank))) ∧
      world.Finishes := by
  have hsplit : ∀ rank,
      ∀ meeting ∈ collectives.flatMap (Collective.meetings group.size endpoint),
        (meeting.sent rank).ranks = [] ∨ (meeting.owed rank).ranks = [] :=
    Collective.sent_or_owed_eq_nil hanswers
  have hspaced : ∀ rank, rank < group.size →
      Meeting.Spaced (collectives.flatMap (Collective.meetings group.size endpoint)) rank :=
    fun rank _ => Meeting.spaced_of_isChain (Collective.isChain_allReduces hall rank) (hsplit rank)
  obtain ⟨position, hfirst⟩ := inStep_of_spaced hopened hintact hquiet
    (fun _ rank _ meeting hmeeting => .inr (hsplit rank meeting hmeeting)) hspaced hinside hanswers
  obtain ⟨position', hlast⟩ := hfirst.reaches hreaches
  exact ⟨hlast.approaches, hlast.finishes⟩

/-- Three ranks join their payloads twice, on one tag. -/
def repeatedTotals : List (Collective (fun _ : Unit => Bytes)) :=
  [.allReduce () 5 .bytes (fun rank => [.ofNat rank]) (· ++ ·),
    .allReduce () 5 .bytes (fun rank => [.ofNat rank, 9]) (· ++ ·)]

theorem answers_of_repeatedTotals :
    let world := (starting (.ofGrants .rendezvous [.single, .single, .single]) (fun rank =>
      (Endpoint.opened rank 3 .single).performAll rank repeatedTotals)).run
    world.isDone = true ∧ ∀ rank,
      world.Approaches rank [.shared () [0, 1, 2], .shared () [0, 9, 1, 9, 2, 9]] := by
  have hopened : (Group.ofGrants .rendezvous [.single, .single, .single]).Opened
      (fun rank => .opened rank 3 .single) := Group.opened_ofGrants (by decide)
  have hall : ∀ collective ∈ repeatedTotals, collective.isAllReduce = true := by
    simp [repeatedTotals, Collective.isAllReduce]
  have hinside : ∀ collective ∈ repeatedTotals, ∀ rank, rank < 3 →
      (Endpoint.opened rank 3 .single).tags.contains collective.tag = true := by
    intro collective hmem rank _
    have htag : collective.tag = 5 := by
      revert collective
      simp [repeatedTotals, Collective.tag]
    rw [htag]
    rfl
  have hanswers : List.Forall₂ (Answers 3) repeatedTotals
      [fun _ => .shared () [0, 1, 2], fun _ => .shared () [0, 9, 1, 9, 2, 9]] :=
    .cons (.allReduce (by decide) (fun _ _ => rfl) rfl)
      (.cons (.allReduce (by decide) (fun _ _ => rfl) rfl) .nil)
  obtain ⟨hresults, hfinishes⟩ := answers_of_allReduces hopened Group.intact_ofGrants
    (Group.quiet_ofGrants _) hall hinside hanswers (reaches_run _)
  exact ⟨hfinishes.isDone (firstStep_run _), hresults⟩

/-- Gathers give the root what was passed to each if no two of them share a tag, or
if there are no three ranks. -/
theorem tables_of_gathers (hopened : group.Opened endpoint) (hintact : group.Intact)
    (hroot : root < group.size)
    (hdistinct : (calls.map Prod.fst).Nodup ∨ group.size ≤ 2)
    (hquiet : group.Quiet (fun tag => ∃ call ∈ calls, call.1 = tag))
    (hinside : ∀ call ∈ calls, ∀ rank, rank < group.size →
      (endpoint rank).tags.contains call.1 = true)
    {world : World (List (Answer Value))}
    (hreaches : (starting group (fun rank =>
      (endpoint rank).performAll rank (Collective.gathers root calls))).Reaches world) :
    (∀ rank, world.Approaches rank (Collective.tables group.size root calls rank)) ∧
      world.Finishes := by
  obtain ⟨answers, hanswers, htables⟩ := Collective.answers_gathers hroot calls
  generalize hgathers : Collective.gathers root calls = collectives at hanswers hreaches
  have hcall : ∀ collective ∈ collectives, ∃ call ∈ calls, call.1 = collective.tag := by
    intro collective hmem
    rw [← hgathers] at hmem
    obtain ⟨call, hcall, rfl⟩ := List.mem_map.1 hmem
    exact ⟨call, hcall, rfl⟩
  have hspaced : ∀ rank, rank < group.size →
      Meeting.Spaced (collectives.flatMap (Collective.meetings group.size endpoint)) rank := by
    intro rank _
    rcases hdistinct with hdistinct | hsize
    · apply Collective.spaced_flatMap_meetings hanswers
      rw [← hgathers]
      simpa [Collective.gathers, Function.comp_def, Collective.tag] using hdistinct
    · exact Collective.spaced_gathers hroot hsize hgathers.symm rank
  have hquiet' : group.Quiet (fun tag => ∃ collective ∈ collectives, collective.tag = tag) := by
    rintro rank member hmember message hmessage ⟨collective, hmem, htag⟩
    obtain ⟨call, hcalls, hlabel⟩ := hcall collective hmem
    exact hquiet rank member hmember message hmessage ⟨call, hcalls, hlabel.trans htag⟩
  have hinside' : ∀ collective ∈ collectives, ∀ rank, rank < group.size →
      (endpoint rank).tags.contains collective.tag = true := by
    intro collective hmem
    obtain ⟨call, hcalls, hlabel⟩ := hcall collective hmem
    rw [← hlabel]
    exact hinside call hcalls
  obtain ⟨position, hfirst⟩ := inStep_of_spaced hopened hintact hquiet'
    (fun _ rank _ meeting hmeeting =>
      .inr (Collective.sent_or_owed_eq_nil hanswers rank meeting hmeeting))
    hspaced hinside' hanswers
  obtain ⟨position', hlast⟩ := hfirst.reaches hreaches
  refine ⟨fun rank => ?_, hlast.finishes⟩
  rw [← htables rank]
  exact hlast.approaches rank

def repeatedCalls : List (Tag × (Nat → Bytes)) :=
  [(4, fun rank => [.ofNat rank]), (4, fun rank => [.ofNat rank, 9])]

theorem tables_of_repeatedCalls :
    let world : World (List (Answer (fun _ : Unit => Bytes))) :=
      (starting (.ofGrants .buffered [.single, .single]) (fun rank =>
        (Endpoint.opened rank 2 .single).performAll rank
          (Collective.gathers 1 repeatedCalls))).run
    world.isDone = true ∧
      ∀ rank, world.Approaches rank (Collective.tables 2 1 repeatedCalls rank) := by
  have hopened : (Group.ofGrants .buffered [.single, .single]).Opened
      (fun rank => .opened rank 2 .single) := Group.opened_ofGrants (by decide)
  have hinside : ∀ call ∈ repeatedCalls, ∀ rank, rank < 2 →
      (Endpoint.opened rank 2 .single).tags.contains call.1 = true := by
    intro call hcall rank _
    have htag : call.1 = 4 := by
      revert call
      simp [repeatedCalls]
    rw [htag]
    rfl
  have hroot : 1 < (Group.ofGrants .buffered [.single, .single]).size := by decide
  have hsize : (Group.ofGrants .buffered [.single, .single]).size ≤ 2 := by decide
  obtain ⟨hresults, hfinishes⟩ := tables_of_gathers hopened Group.intact_ofGrants hroot
    (.inr hsize) (Group.quiet_ofGrants _) hinside (reaches_run _)
  exact ⟨hfinishes.isDone (firstStep_run _), hresults⟩

/-- Three gathers on two tags, of which no two in a row share theirs. -/
def alternatingCalls : List (Tag × (Nat → Bytes)) :=
  [(0, fun rank => [0, .ofNat rank]), (1, fun rank => [1, .ofNat rank]),
    (0, fun rank => [2, .ofNat rank])]

def alternating : World (List (Answer (fun _ : Unit => Bytes))) :=
  starting (.ofGrants .buffered [.single, .single, .single]) (fun rank =>
    (Endpoint.opened rank 3 .single).performAll rank (Collective.gathers 0 alternatingCalls))

/-- With three ranks this is not enough: rank 1 can have sent its part of the third
gather before rank 2 has sent anything, and then the first gather fails. -/
theorem not_tables_of_alternatingCalls : (alternatingCalls.map Prod.fst).IsChain (· ≠ ·) ∧
    ∃ world, alternating.Reaches world ∧
      world.result? 0 = some (.error (.unexpectedPeer none 1 0)) ∧
      ¬ world.Approaches 0 (Collective.tables 3 0 alternatingCalls 0) := by
  let schedule := (List.replicate 9 1 ++ List.replicate 10 0).map
    (fun rank => Move.mk rank (.main .remote))
  have hresult : (alternating.follow schedule).bind (fun world => world.result? 0) =
      some (.error (.unexpectedPeer none 1 0)) := rfl
  obtain ⟨world, hworld, hresult⟩ := Option.bind_eq_some_iff.1 hresult
  refine ⟨by decide, world, reaches_iff_follow.2 ⟨schedule, hworld⟩, hresult, ?_⟩
  intro happroaches
  have hok := happroaches.finished _ hresult
  cases hok

end World

end RankExchange
