import RankExchange.Proofs.Collectives
import RankExchange.Proofs.RecurringRounds
import RankExchange.Proofs.RingHeat

/-!
# The scripts of a ring

On a ring every rank runs recurring rounds with its neighbours, and in the end all
of them reduce their heat.  The message of a rank in a round is made from its part
of the heat of the whole ring.
-/

namespace RankExchange

namespace Meeting

/-- A last meeting on a tag of its own is spaced from all before it. -/
theorem Spaced.concat {meetings : List Meeting} {final : Meeting} {rank : Nat}
    (h : Spaced meetings rank) (htags : ∀ meeting ∈ meetings, meeting.tag ≠ final.tag) :
    Spaced (meetings ++ [final]) rank := by
  intro early late first last source hfirst hlast hlt htag howed hsource
  have hlate := (List.getElem?_eq_some_iff.1 hlast).1
  rw [List.length_append, List.length_singleton] at hlate
  have hearly : early < meetings.length := by omega
  rw [List.getElem?_append_left hearly] at hfirst
  by_cases hend : late < meetings.length
  · rw [List.getElem?_append_left hend] at hlast
    rcases h early late first last source hfirst hlast hlt htag howed hsource with
      hsingle | ⟨between, meeting, hlow, hhigh, hmeeting, hsent⟩
    · exact .inl hsingle
    · refine .inr ⟨between, meeting, hlow, hhigh, ?_, hsent⟩
      rw [List.getElem?_append_left (by omega)]
      exact hmeeting
  · have hlength : late = meetings.length := by omega
    have hfinal : last = final := by
      rw [hlength, List.getElem?_append_right (Nat.le_refl _), Nat.sub_self] at hlast
      cases hlast
      rfl
    rw [hfinal] at htag
    exact absurd htag (htags first (List.mem_of_getElem? hfirst))

end Meeting

theorem Cell.relay_coder (cell : Cell) : Cell.coder.relay cell = .ok cell := by
  have hwords : words (wordBytes cell) = [cell] := by
    have happend := words_wordBytes_append cell []
    rw [List.append_nil] at happend
    exact happend
  change Cell.coder.decode (wordBytes cell) = .ok cell
  unfold Cell.coder
  simp only [hwords]

namespace Ring

open Program

section Attempts

variable {α β : Type} {value : α} {inStep : Bool} {script middle rest : Script}

theorem followsScript_lift {program : Program α}
    (h : FollowsScript (Ends (Returns value rest)) inStep program script) :
    FollowsScript (Ends (Returns (.ok value) rest)) inStep (liftM program : Attempt α).run script :=
  h.bind_returns (.done .kept)

theorem followsScript_bind {attempt : Attempt α} {f : α → Attempt β} {value' : Except Breakdown β}
    (h : FollowsScript (Ends (Returns (.ok value) middle)) inStep attempt.run script)
    (hnext : FollowsScript (Ends (Returns value' rest)) true (f value).run middle) :
    FollowsScript (Ends (Returns value' rest)) inStep (attempt >>= f).run script :=
  h.bind_returns hnext

theorem followsScript_calculate {result : Except ArithmeticFault α} (h : result = .ok value) :
    FollowsScript (Ends (Returns (.ok value) rest)) true (calculate result).run rest := by
  rw [h]
  exact .done .kept

end Attempts

def endpoint (ranks rank : Nat) : Endpoint :=
  .opened rank ranks .multiple

def outgoing (arith : Arithmetic) (ranks width round rank : Nat) : RankMap Bytes :=
  .const (peers ranks rank) (stripAt arith ranks width rank round).edges

def roundMeeting (arith : Arithmetic) (ranks width : Nat) : Nat → Meeting :=
  Meeting.recurring ranks (endpoint ranks) (peers ranks) roundTags (outgoing arith ranks width)

def heatAt (arith : Arithmetic) (ranks width steps rank : Nat) : Cell :=
  (stripAt arith ranks width rank steps).heat arith

def totalMeeting (arith : Arithmetic) (ranks width steps : Nat) : Meeting :=
  .fanIn ranks 0 (endpoint ranks) totalTags.lower
    (fun rank => Cell.coder.text (heatAt arith ranks width steps rank))

def meetings (arith : Arithmetic) (ranks width steps : Nat) : List Meeting :=
  (List.range' 0 steps).map (roundMeeting arith ranks width) ++
    [totalMeeting arith ranks width steps]

def reportAt (arith : Arithmetic) (ranks width steps rank : Nat) : Report where
  cells := row arith (ranks * width) steps (rank * width) width
  total := if rank = 0 then some (foldRanks arith.add (heatAt arith ranks width steps) ranks)
    else none

variable {arith : Arithmetic} {ranks width steps rank round : Nat} {delivery : Delivery}

theorem reciprocal_peers (ranks : Nat) : Reciprocal ranks (peers ranks) :=
  fun _ _ hrank hpeer => mem_peers_of_mem hrank hpeer

theorem standing_endpoint : (endpoint ranks rank).standing = .ok ⟨rank, ranks, .multiple⟩ := rfl

theorem contains_roundTag (round : Nat) :
    (endpoint ranks rank).tags.contains (roundTags.roundTag round) = true := by
  have hsize : 0 < roundTags.size := by decide
  have hinside := TagSpace.contains_iff.1 (TagSpace.contains_roundTag hsize round)
  have hupper : roundTags.upper.toNat < TagSpace.standard.upper.toNat := by decide
  exact TagSpace.contains_iff.2 ⟨Nat.zero_le _, Nat.lt_trans hinside.2 hupper⟩

theorem roundTag_ne (round : Nat) : roundTags.roundTag round ≠ totalTags.lower := by
  have hsize : 0 < roundTags.size := by decide
  have hinside := TagSpace.contains_iff.1 (TagSpace.contains_roundTag hsize round)
  intro heq
  rw [heq] at hinside
  exact absurd hinside.2 (by decide)

theorem keys_outgoing : (outgoing arith ranks width round rank).keys = peers ranks rank :=
  RankMap.keys_const _ _

/-- In a round a rank gets the edges of each of its neighbours. -/
theorem find?_received {other : Nat} (hrank : rank < ranks) (hother : other ∈ peers ranks rank) :
    ((roundMeeting arith ranks width round).received rank).find? other =
      some ⟨other, roundTags.roundTag round, (stripAt arith ranks width other round).edges⟩ := by
  have hdelivers : Delivers (peers ranks rank) (roundTags.roundTag round)
      (outgoing arith ranks width round) rank
      ((roundMeeting arith ranks width round).received rank) :=
    Meeting.delivers_ofRound (reciprocal_peers ranks) (fun _ _ => keys_outgoing) hrank
  obtain ⟨payload, hsent, hfind⟩ := hdelivers.2 other hother
  rw [outgoing, RankMap.const_eq_tabulate, RankMap.find?_tabulate,
    if_pos (mem_peers_of_mem hrank hother).2] at hsent
  cases hsent
  exact hfind

theorem followsScript_advance (hrank : rank < ranks) (hwidth : 0 < width) (round : Nat)
    (rest : Script) :
    FollowsScript (Ends (Returns (.ok (stripAt arith ranks width rank (round + 1))) rest)) true
      (advance arith (endpoint ranks rank)
        ⟨before ranks rank, after ranks rank, peers ranks rank⟩ round
        (stripAt arith ranks width rank round)).run
      ((roundMeeting arith ranks width round).before rank round rest) := by
  have hcalls : (roundMeeting arith ranks width round).Calls rank .multiple (peers ranks rank)
      (outgoing arith ranks width round rank) :=
    Meeting.calls_ofRound hrank standing_endpoint rfl keys_outgoing
  have hexchange := Endpoint.followsScript_exchange standing_endpoint (contains_roundTag round)
    (Meeting.matched_ofRound (reciprocal_peers ranks)) hcalls round rest
  unfold advance
  apply followsScript_bind (followsScript_lift hexchange.returns)
  obtain ⟨guarded, hguarded, hstep⟩ :=
    Option.map_eq_some_iff.1 (step_stripAt arith hrank hwidth round)
  have hfound : (do
      let fromLeft ←
        ((roundMeeting arith ranks width round).received rank).find? (before ranks rank)
      let fromRight ←
        ((roundMeeting arith ranks width round).received rank).find? (after ranks rank)
      (stripAt arith ranks width rank round).guarded? fromLeft.payload fromRight.payload) =
        some guarded := by
    rw [find?_received hrank (mem_peers_iff.2 (.inl rfl)),
      find?_received hrank (mem_peers_iff.2 (.inr rfl))]
    exact hguarded
  dsimp only
  split
  · next strip hstrip =>
      have hsame : guarded = strip := Option.some.inj (hfound.symm.trans hstrip)
      rw [← hsame, ← hstep]
      exact .done .kept
  · next hnone => cases hfound.symm.trans hnone

theorem followsScript_rounds (hrank : rank < ranks) (hwidth : 0 < width) (rest : Script) :
    ∀ count round, FollowsScript
      (Ends (Returns (.ok (stripAt arith ranks width rank (round + count))) rest)) true
      (rounds arith (endpoint ranks rank) ⟨before ranks rank, after ranks rank, peers ranks rank⟩
        count round (stripAt arith ranks width rank round)).run
      (Meeting.scriptBefore rank round
        ((List.range' round count).map (roundMeeting arith ranks width)) rest) := by
  intro count
  induction count with
  | zero => exact fun round => .done .kept
  | succ count ih =>
      intro round
      have hround : round + (count + 1) = round + 1 + count := by omega
      rw [List.range'_succ, List.map_cons, hround]
      unfold rounds
      exact followsScript_bind (followsScript_advance hrank hwidth round _) (ih (round + 1))

theorem followsScript_simulate (settings : Settings) (hrank : rank < settings.ranks)
    (hwidth : 0 < settings.cells)
    (hroom : Memory.admits (Word.bytes (settings.ranks * settings.cells + 2)) = true)
    (hranks : settings.ranks < Word.half) :
    FollowsScript (Ends (Returns
        (.ok (reportAt arith settings.ranks settings.cells settings.steps rank)) [])) true
      (simulate arith settings (endpoint settings.ranks rank) ⟨rank, settings.ranks⟩).run
      (Meeting.script rank 0 (meetings arith settings.ranks settings.cells settings.steps)) := by
  rw [meetings, Meeting.script_append, List.length_map, List.length_range', Nat.zero_add]
  unfold simulate
  apply followsScript_bind (followsScript_calculate (neighbors_eq hrank hranks))
  apply followsScript_bind (followsScript_calculate (initial_eq hrank hroom))
  have hrounds : ∀ rest, FollowsScript (Ends (Returns
      (.ok (stripAt arith settings.ranks settings.cells rank (0 + settings.steps))) rest)) true
      (rounds arith (endpoint settings.ranks rank)
        ⟨before settings.ranks rank, after settings.ranks rank, peers settings.ranks rank⟩
        settings.steps 0 (stripAt arith settings.ranks settings.cells rank 0)).run
      (Meeting.scriptBefore rank 0 ((List.range' 0 settings.steps).map
        (roundMeeting arith settings.ranks settings.cells)) rest) :=
    fun rest => followsScript_rounds hrank hwidth rest settings.steps 0
  rw [Nat.zero_add] at hrounds
  apply followsScript_bind (hrounds _)
  have htotal : (endpoint settings.ranks rank).tags.contains totalTags.lower = true := rfl
  have hcopies : ∀ rank, rank < settings.ranks →
      Cell.coder.relay (heatAt arith settings.ranks settings.cells settings.steps rank) =
        .ok (heatAt arith settings.ranks settings.cells settings.steps rank) :=
    fun rank _ => Cell.relay_coder _
  apply followsScript_bind (followsScript_lift
    (Endpoint.followsScript_reduce standing_endpoint htotal
    (Nat.zero_lt_of_lt hrank) hrank hcopies settings.steps []))
  rw [cells_stripAt]
  exact .done .kept

theorem meetings_cases {p : Meeting → Prop}
    (hround : ∀ round, p (roundMeeting arith ranks width round))
    (htotal : p (totalMeeting arith ranks width steps)) :
    ∀ meeting ∈ meetings arith ranks width steps, p meeting := by
  intro meeting hmeeting
  rcases List.mem_append.1 hmeeting with hmeeting | hmeeting
  · obtain ⟨round, _, rfl⟩ := List.mem_map.1 hmeeting
    exact hround round
  · rw [List.mem_singleton.1 hmeeting]
    exact htotal

theorem spaced_meetings (rank : Nat) :
    (Meeting.Spaced (meetings arith ranks width steps)) rank := by
  have hsize : 2 ≤ roundTags.size := by decide
  apply (Meeting.spaced_recurring hsize rank).concat
  intro meeting hmeeting
  obtain ⟨round, _, rfl⟩ := List.mem_map.1 hmeeting
  exact roundTag_ne round

def group (delivery : Delivery) (ranks : Nat) : Group :=
  .ofGrants delivery (List.replicate ranks .multiple)

theorem size_group : (group delivery ranks).size = ranks := by
  rw [group, Group.size_ofGrants, List.length_replicate]

/-- Whatever the arithmetic, the ranks of a ring are in step. -/
theorem inStep_simulate (settings : Settings) (hpos : 0 < settings.ranks)
    (hwidth : 0 < settings.cells)
    (hroom : Memory.admits (Word.bytes (settings.ranks * settings.cells + 2)) = true)
    (hranks : settings.ranks < Word.half) :
    (World.starting (group settings.delivery settings.ranks) (fun rank =>
      (simulate arith settings (endpoint settings.ranks rank) ⟨rank, settings.ranks⟩).run)).InStep
        (fun tag => ∃ meeting ∈ meetings arith settings.ranks settings.cells settings.steps,
          meeting.tag = tag)
        (fun rank => .ok (reportAt arith settings.ranks settings.cells settings.steps rank))
        (fun rank => ⟨true, Meeting.scriptIn (group settings.delivery settings.ranks).size
          (meetings arith settings.ranks settings.cells settings.steps) rank⟩) := by
  have hintact : (group settings.delivery settings.ranks).Intact := Group.intact_ofGrants
  have hquiet : ∀ used, (group settings.delivery settings.ranks).Quiet used :=
    Group.quiet_ofGrants
  apply World.inStep_of_meetings (hquiet _) hintact
  · exact fun meeting hmeeting => ⟨meeting, hmeeting, rfl⟩
  · rw [size_group]
    exact meetings_cases (fun round => Meeting.matched_ofRound (reciprocal_peers _))
      (Meeting.matched_fanIn hpos _)
  · exact meetings_cases (fun round rank => rfl) (fun rank => rfl)
  · intro _ rank _
    exact meetings_cases (fun round => .inl rfl) (.inl rfl)
  · exact fun rank _ => spaced_meetings rank
  · intro rank hrank
    rw [size_group] at hrank
    apply (followsScript_simulate settings hrank hwidth hroom hranks).mono
    rintro inStep program script ⟨result, rfl, hreturns⟩
    refine ⟨result, rfl, fun hstep => ?_⟩
    cases hreturns with
    | kept => exact ⟨rfl, rfl⟩
    | lost => cases hstep

end Ring

end RankExchange
