import RankExchange.Proofs.FreshGroups

/-!
# Recurring rounds

All ranks of a group run one round after the other with the same peers, and
the tags of the rounds cycle through a tag space.  Two tags are enough: a rank
finishes a round only after all its peers have begun it, so nobody is two
rounds ahead of a peer, and the rounds in flight between two ranks never share
a tag.
-/

namespace RankExchange

namespace TagSpace

variable {space : TagSpace}

def Within (space other : TagSpace) : Prop :=
  ∀ tag, space.contains tag = true → other.contains tag = true

theorem toNat_roundTag (h : 0 < space.size) (round : Nat) :
    (space.roundTag round).toNat = space.lower.toNat + round % space.size := by
  have hmod : round % space.size < space.size := Nat.mod_lt round h
  have hupper := space.upper.toNat_lt
  have hsum : space.lower.toNat + round % space.size < 2 ^ 32 := by
    unfold size at h hmod ⊢
    omega
  unfold roundTag
  rw [Nat.max_eq_left h]
  exact UInt32.toNat_ofNat_of_lt' hsum

theorem contains_roundTag (h : 0 < space.size) (round : Nat) :
    space.contains (space.roundTag round) = true := by
  have hmod : round % space.size < space.size := Nat.mod_lt round h
  rw [contains_iff, toNat_roundTag h]
  unfold size at h hmod ⊢
  omega

/-- Rounds that follow each other are on different tags. -/
theorem succ_lt_of_roundTag_eq (h : 2 ≤ space.size) {early late : Nat} (hlt : early < late)
    (heq : space.roundTag early = space.roundTag late) : early + 1 < late := by
  have hpos : 0 < space.size := by omega
  have htags := congrArg UInt32.toNat heq
  rw [toNat_roundTag hpos, toNat_roundTag hpos] at htags
  have hmod : late % space.size = early % space.size := by omega
  have hzero := Nat.sub_mod_eq_zero_of_mod_eq hmod
  apply Nat.lt_of_le_of_ne hlt
  intro hnext
  have hone : late - early = 1 := by omega
  rw [hone, Nat.mod_eq_of_lt h] at hzero
  cases hzero

end TagSpace

/-- All of a number of rounds have succeeded and given what they should. -/
def DeliversAll (count : Nat) (peers : RankSet) (tag : Nat → Tag)
    (outgoing : Nat → Nat → RankMap Bytes) (rank : Nat)
    (outcomes : List (Except Fault (RankMap Envelope))) : Prop :=
  outcomes.length = count ∧ ∀ round, round < count → ∃ received,
    outcomes[round]? = some (.ok received) ∧
      Delivers peers (tag round) (outgoing round) rank received

namespace Meeting

variable {size count : Nat} {endpoint : Nat → Endpoint} {peers : Nat → RankSet}
  {space : TagSpace} {outgoing : Nat → Nat → RankMap Bytes}

/-- The meeting of all ranks in one of the rounds. -/
def recurring (size : Nat) (endpoint : Nat → Endpoint) (peers : Nat → RankSet)
    (space : TagSpace) (outgoing : Nat → Nat → RankMap Bytes) (round : Nat) : Meeting :=
  ofRound size endpoint peers (space.roundTag round) (outgoing round) (fun _ => true)

/-- Between two rounds on one tag there is another round, with the same
peers. -/
theorem spaced_recurring (hspace : 2 ≤ space.size) (rank : Nat) :
    Spaced ((List.range' 0 count).map (recurring size endpoint peers space outgoing)) rank := by
  have hround : ∀ {round meeting},
      ((List.range' 0 count).map (recurring size endpoint peers space outgoing))[round]? =
        some meeting ↔
      round < count ∧ recurring size endpoint peers space outgoing round = meeting := by
    intro round meeting
    rw [List.getElem?_map]
    by_cases hlt : round < count
    · rw [List.getElem?_range' hlt]
      simp [hlt]
    · have hnone : (List.range' 0 count)[round]? = none := by
        rw [List.getElem?_eq_none_iff, List.length_range']
        exact Nat.le_of_not_lt hlt
      rw [hnone]
      simp [hlt]
  intro early late first last source hfirst hlast hlt htag _ hsource
  obtain ⟨_, rfl⟩ := hround.1 hfirst
  obtain ⟨hlate, rfl⟩ := hround.1 hlast
  have hgap : early + 1 < late := TagSpace.succ_lt_of_roundTag_eq hspace hlt htag
  refine .inr ⟨early + 1, _, Nat.lt_succ_self early, hgap, hround.2 ⟨by omega, rfl⟩, ?_⟩
  exact hsource

theorem deliversAll_recurring {rank : Nat} (hreciprocal : Reciprocal size peers)
    (hkeys : ∀ round rank, rank < size → (outgoing round rank).keys = peers rank)
    (hrank : rank < size) :
    DeliversAll count (peers rank) space.roundTag outgoing rank ((List.range' 0 count).map
      (fun round => .ok ((recurring size endpoint peers space outgoing round).received rank))) := by
  refine ⟨by rw [List.length_map, List.length_range'], fun round hround => ?_⟩
  refine ⟨(recurring size endpoint peers space outgoing round).received rank, ?_, ?_⟩
  · rw [List.getElem?_map, List.getElem?_range' hround]
    simp
  · exact delivers_ofRound hreciprocal (hkeys round) hrank

end Meeting

namespace World

variable {group : Group} {endpoint : Nat → Endpoint} {peers : Nat → RankSet}
  {space : TagSpace} {outgoing : Nat → Nat → RankMap Bytes} {count : Nat}
  {persists : Nat → Nat → Bool}

section Rounds

variable (hopened : group.Opened endpoint)
  (hreciprocal : Reciprocal group.size peers)
  (hspace : 2 ≤ space.size)
  (hwithin : ∀ rank, rank < group.size → space.Within (endpoint rank).tags)
  (hkeys : ∀ round rank, rank < group.size → (outgoing round rank).keys = peers rank)

include hopened hreciprocal hspace hwithin hkeys

theorem followsScript_recurring {rank : Nat} (hrank : rank < group.size) :
    Program.FollowsScript (Program.Ends (Closing ((List.range' 0 count).map (fun round =>
        .ok ((Meeting.recurring group.size endpoint peers space outgoing round).received rank)))))
      true ((endpoint rank).rounds (persists rank) (fun _ => peers rank) space.roundTag
        (fun round => outgoing round rank) count 0)
      (Meeting.script rank 0 ((List.range' 0 count).map
        (Meeting.recurring group.size endpoint peers space outgoing))) := by
  have hopen := hopened rank _ (List.getElem?_eq_getElem hrank)
  have hinside : ∀ round, (endpoint rank).tags.contains (space.roundTag round) = true :=
    fun round => hwithin rank hrank _ (TagSpace.contains_roundTag (by omega) round)
  have haway : ∀ round, (endpoint rank).tags.contains (space.roundTag round) = false →
      (Meeting.recurring group.size endpoint peers space outgoing round).attended rank =
        false := by
    intro round htag
    rw [hinside round] at htag
    cases htag
  have hfollows := Endpoint.followsScript_rounds
    (Meeting.recurring group.size endpoint peers space outgoing)
    (fun _ => peers rank) (fun round => outgoing round rank) hopen
    (fun round => Meeting.matched_ofRound hreciprocal)
    (fun round _ _ => Meeting.calls_ofRound hrank hopen rfl (hkeys round rank hrank))
    haway (persists rank) count 0 (Nat.zero_add _)
  apply hfollows.mono
  rintro inStep program script ⟨result, rfl, outcomes, rfl, _, hcomplete⟩
  refine ⟨_, rfl, fun hstep => ?_⟩
  obtain ⟨hscript, houtcomes⟩ := hcomplete hinside hstep
  exact ⟨by rw [houtcomes], hscript⟩

theorem inStep_recurring (persists : Nat → Nat → Bool) (count : Nat)
    (hthreaded : group.Threaded) (hintact : group.Intact)
    (hquiet : group.Quiet (fun tag => space.contains tag = true)) :
    ∃ position, (starting group (fun rank => (endpoint rank).rounds (persists rank)
      (fun _ => peers rank) space.roundTag (fun round => outgoing round rank) count 0)).InStep
        (fun tag => space.contains tag = true)
        (fun rank => (List.range' 0 count).map (fun round =>
          .ok ((Meeting.recurring group.size endpoint peers space outgoing round).received rank)))
        position := by
  have hrounds : ∀ {p : Meeting → Prop},
      (∀ round, p (Meeting.recurring group.size endpoint peers space outgoing round)) →
      ∀ meeting ∈ (List.range' 0 count).map
        (Meeting.recurring group.size endpoint peers space outgoing), p meeting := by
    intro p h meeting hmeeting
    obtain ⟨round, _, rfl⟩ := List.mem_map.1 hmeeting
    exact h round
  refine ⟨_, inStep_of_meetings hquiet hintact
    (hrounds (fun round => TagSpace.contains_roundTag (by omega) round))
    (hrounds (fun round => Meeting.matched_ofRound hreciprocal))
    (hrounds (fun round rank => rfl)) ?_ (fun rank _ => Meeting.spaced_recurring hspace rank) ?_⟩
  · intro hrendezvous rank hrank
    exact hrounds (fun round => .inl (hopened.isConcurrent hthreaded hrendezvous hrank))
  · exact fun rank hrank => followsScript_recurring hopened hreciprocal hspace hwithin hkeys hrank

end Rounds

/-- Recurring rounds never cross: whatever the schedule, all rounds of all ranks
succeed, and each gives what was sent in the same round. -/
theorem delivers_of_recurring (hopened : group.Opened endpoint) (hthreaded : group.Threaded)
    (hintact : group.Intact) (hreciprocal : Reciprocal group.size peers)
    (hspace : 2 ≤ space.size)
    (hwithin : ∀ rank, rank < group.size → space.Within (endpoint rank).tags)
    (hkeys : ∀ round rank, rank < group.size → (outgoing round rank).keys = peers rank)
    (hquiet : group.Quiet (fun tag => space.contains tag = true))
    {world : World (List (Except Fault (RankMap Envelope)))}
    (hreaches : (starting group (fun rank => (endpoint rank).rounds (persists rank)
      (fun _ => peers rank) space.roundTag (fun round => outgoing round rank) count 0)).Reaches
        world) :
    (∀ rank, rank < group.size → ∃ outcomes,
      DeliversAll count (peers rank) space.roundTag outgoing rank outcomes ∧
        world.Approaches rank outcomes) ∧ world.Finishes := by
  obtain ⟨position, hfirst⟩ := inStep_recurring hopened hreciprocal hspace hwithin hkeys persists
    count hthreaded hintact hquiet
  obtain ⟨position', hlast⟩ := hfirst.reaches hreaches
  refine ⟨fun rank hrank => ?_, hlast.finishes⟩
  exact ⟨_, Meeting.deliversAll_recurring hreciprocal hkeys hrank, hlast.approaches rank⟩

/-- Two ranks that run three rounds with each other, where a send waits for its
receiver. -/
def recurringPair : World (List (Except Fault (RankMap Envelope))) :=
  starting (.ofGrants .rendezvous [.multiple, .multiple]) (fun rank =>
    (Endpoint.opened rank 2 .multiple).rounds (fun _ => false) (fun _ => .others 2 rank)
      TagSpace.standard.roundTag
      (fun round => .const (.others 2 rank) [.ofNat round, .ofNat rank]) 3 0)

theorem delivers_of_recurringPair : recurringPair.run.isDone = true ∧
    ∀ rank, rank < 2 → ∃ outcomes, DeliversAll 3 (.others 2 rank) TagSpace.standard.roundTag
      (fun round rank => .const (.others 2 rank) [.ofNat round, .ofNat rank]) rank outcomes ∧
        recurringPair.run.Approaches rank outcomes := by
  have hgrants : ∀ grant ∈ [Threading.multiple, .multiple], grant = .multiple := by decide
  have hopened : (Group.ofGrants .rendezvous [.multiple, .multiple]).Opened
      (fun rank => .opened rank 2 .multiple) := Group.opened_ofGrants hgrants
  have hspace : 2 ≤ TagSpace.standard.size := by decide
  obtain ⟨hdelivers, hfinishes⟩ := delivers_of_recurring hopened
    (Group.threaded_ofGrants hgrants) Group.intact_ofGrants (reciprocal_others 2) hspace
    (fun _ _ _ htag => htag) (fun _ _ _ => RankMap.keys_const _ _) (Group.quiet_ofGrants _)
    (reaches_run recurringPair)
  exact ⟨hfinishes.isDone (firstStep_run _), hdelivers⟩

/-- Also where sends wait for their receivers, the ranks never wait for each
other in a circle. -/
theorem moves_of_recurring (hopened : group.Opened endpoint) (hthreaded : group.Threaded)
    (hintact : group.Intact) (hreciprocal : Reciprocal group.size peers)
    (hspace : 2 ≤ space.size)
    (hwithin : ∀ rank, rank < group.size → space.Within (endpoint rank).tags)
    (hkeys : ∀ round rank, rank < group.size → (outgoing round rank).keys = peers rank)
    (hquiet : group.Quiet (fun tag => space.contains tag = true))
    {world : World (List (Except Fault (RankMap Envelope)))}
    (hreaches : (starting group (fun rank => (endpoint rank).rounds (persists rank)
      (fun _ => peers rank) space.roundTag (fun round => outgoing round rank) count 0)).Reaches
        world)
    (hdone : world.isDone = false) : ∃ move next, world.step move = some next := by
  obtain ⟨position, hfirst⟩ := inStep_recurring hopened hreciprocal hspace hwithin hkeys persists
    count hthreaded hintact hquiet
  obtain ⟨position', hlast⟩ := hfirst.reaches hreaches
  rcases hlast.isDone_or_moves with hdone' | hmoves
  · rw [hdone] at hdone'
    cases hdone'
  · exact hmoves

theorem moves_of_recurringPair : ∃ world, recurringPair.Reaches world ∧ world.isDone = false ∧
    ∃ move next, world.step move = some next := by
  -- Both helper threads have posted a message and wait for its receipt.
  have hfollow : (recurringPair.follow [⟨0, .main .remote⟩, ⟨1, .main .remote⟩, ⟨0, .helper⟩,
      ⟨1, .helper⟩]).map World.isDone = some false := rfl
  obtain ⟨world, hworld, hdone⟩ := Option.map_eq_some_iff.1 hfollow
  have hreaches : recurringPair.Reaches world := reaches_iff_follow.2 ⟨_, hworld⟩
  have hgrants : ∀ grant ∈ [Threading.multiple, .multiple], grant = .multiple := by decide
  have hspace : 2 ≤ TagSpace.standard.size := by decide
  refine ⟨world, hreaches, hdone, ?_⟩
  exact moves_of_recurring (Group.opened_ofGrants hgrants) (Group.threaded_ofGrants hgrants)
    Group.intact_ofGrants (reciprocal_others 2) hspace (fun _ _ _ htag => htag)
    (fun _ _ _ => RankMap.keys_const _ _) (Group.quiet_ofGrants _) hreaches hdone

end World

end RankExchange
