import RankExchange.Proofs.FreshGroups

/-!
# Rounds that succeed are not mixed up

The ranks of a group run the same rounds, with any tags: the same one may come
again in the next round, when messages of both rounds wait side by side.  A
round may then fail, but one that succeeds, after others that have succeeded,
holds what its peers passed to it in their own round of the same number.
-/

namespace RankExchange

namespace Meeting

variable {size rank : Nat}

/-- Meetings that a rank stays away from leave no trace in its script. -/
theorem script_append_of_away {later : List Meeting}
    (h : ∀ meeting ∈ later, meeting.attended rank = false) (meetings : List Meeting) :
    ∀ time, script rank time (meetings ++ later) = script rank time meetings := by
  induction meetings with
  | nil =>
      induction later with
      | nil => exact fun _ => rfl
      | cons meeting later ih =>
          intro time
          have hrest := ih (fun other hother => h other (List.mem_cons_of_mem _ hother)) (time + 1)
          change meeting.before rank time (script rank (time + 1) later) = []
          rw [before_of_not_attended (h meeting List.mem_cons_self)]
          exact hrest
  | cons meeting meetings ih =>
      intro time
      change meeting.before rank time (script rank (time + 1) (meetings ++ later)) =
        meeting.before rank time (script rank (time + 1) meetings)
      rw [ih]

/-- The rounds that a rank takes part in: as many as it runs, on tags that its
endpoint may use. -/
def attends (endpoint : Nat → Endpoint) (tag : Nat → Tag) (count : Nat → Nat) (round rank : Nat) :
    Bool :=
  decide (round < count rank) && (endpoint rank).tags.contains (tag round)

/-- The meetings of all ranks of a group that run rounds with each other. -/
def ofRounds (size : Nat) (endpoint : Nat → Endpoint) (peers : Nat → Nat → RankSet)
    (tag : Nat → Tag) (outgoing : Nat → Nat → RankMap Bytes) (count : Nat → Nat) (round : Nat) :
    Meeting :=
  ofRound size endpoint (peers round) (tag round) (outgoing round)
    (attends endpoint tag count round)

section Family

variable {size rank : Nat} {endpoint : Nat → Endpoint} {peers : Nat → Nat → RankSet}
  {tag : Nat → Tag} {outgoing : Nat → Nat → RankMap Bytes} {count : Nat → Nat}

theorem attended_ofRounds_iff {round : Nat} :
    (ofRounds size endpoint peers tag outgoing count round).attended rank = true ↔
      round < count rank ∧ (endpoint rank).tags.contains (tag round) = true := by
  change attends endpoint tag count round rank = true ↔ _
  unfold attends
  rw [Bool.and_eq_true, decide_eq_true_eq]

theorem withdrawing_ofRounds (bound : Nat) :
    Withdrawing ((List.range' 0 bound).map (ofRounds size endpoint peers tag outgoing count)) := by
  unfold Withdrawing
  rw [List.pairwise_map]
  refine (List.pairwise_lt_range' (s := 0) (n := bound)).imp ?_
  intro first second hlt hsame rank hlate
  rw [attended_ofRounds_iff] at hlate ⊢
  have htag : tag first = tag second := hsame
  rw [htag]
  exact ⟨Nat.lt_trans hlt hlate.1, hlate.2⟩

theorem script_ofRounds {bound : Nat} (h : count rank ≤ bound) :
    script rank 0 ((List.range' 0 bound).map (ofRounds size endpoint peers tag outgoing count)) =
      script rank 0 ((List.range' 0 (count rank)).map
        (ofRounds size endpoint peers tag outgoing count)) := by
  have hbound : bound = count rank + (bound - count rank) := by omega
  rw [hbound, ← List.range'_append_1, List.map_append, Nat.zero_add]
  apply script_append_of_away
  intro meeting hmeeting
  obtain ⟨round, hround, rfl⟩ := List.mem_map.1 hmeeting
  rw [Bool.eq_false_iff]
  intro hattended
  have hlt := (attended_ofRounds_iff.1 hattended).1
  have hle := (List.mem_range'_1.1 hround).1
  omega

end Family

end Meeting

namespace World

theorem exists_bound (count : Nat → Nat) (size : Nat) :
    ∃ bound, ∀ rank, rank < size → count rank ≤ bound := by
  induction size with
  | zero => exact ⟨0, fun rank hrank => absurd hrank (Nat.not_lt_zero rank)⟩
  | succ size ih =>
      obtain ⟨bound, hbound⟩ := ih
      refine ⟨max bound (count size), fun rank hrank => ?_⟩
      rcases Nat.lt_succ_iff_lt_or_eq.1 hrank with hlt | heq
      · exact Nat.le_trans (hbound rank hlt) (Nat.le_max_left _ _)
      · rw [heq]
        exact Nat.le_max_right _ _

variable {group : Group} {endpoint : Nat → Endpoint} {peers : Nat → Nat → RankSet}
  {tag : Nat → Tag} {outgoing : Nat → Nat → RankMap Bytes} {count : Nat → Nat}
  {persists : Nat → Nat → Bool} {tail : Nat → Program Unit}

/-- The rounds of one rank, each of which gives what it should as long as none
has failed. -/
def Keeps (peers : Nat → RankSet) (tag : Nat → Tag) (outgoing : Nat → Nat → RankMap Bytes)
    (rank : Nat) (result : Except Fault (List (Except Fault (RankMap Envelope)))) : Prop :=
  ∃ outcomes, result = .ok outcomes ∧ ∀ round : Nat,
    (∀ earlier : Nat, earlier ≤ round → ∃ received, outcomes[earlier]? = some (.ok received)) →
    ∃ received, outcomes[round]? = some (.ok received) ∧
      Delivers (peers round) (tag round) (outgoing round) rank received

section Rounds

variable (hopened : group.Opened endpoint)
  (hreciprocal : ∀ round, Reciprocal group.size (peers round))
  (hkeys : ∀ round rank, rank < group.size → (outgoing round rank).keys = peers round rank)
  (htail : ∀ rank, (tail rank).Silent)
  (hquiet : group.Quiet (fun label => ∃ round, tag round = label))

include hopened hreciprocal hkeys htail

theorem followsScript_ofRounds {rank : Nat} (hrank : rank < group.size) :
    Program.FollowsScript (fun _ program _ => program.Settles
        (Keeps (fun round => peers round rank) tag outgoing rank))
      true (((endpoint rank).rounds (persists rank) (fun round => peers round rank) tag
        (fun round => outgoing round rank) (count rank) 0).followedBy (tail rank))
      (Meeting.script rank 0 ((List.range' 0 (count rank)).map
        (Meeting.ofRounds group.size endpoint peers tag outgoing count))) := by
  have hmember : group.members[rank]? = some group.members[rank] :=
    List.getElem?_eq_getElem hrank
  have hopen := hopened rank _ hmember
  have haway : ∀ round, (endpoint rank).tags.contains (tag round) = false →
      (Meeting.ofRounds group.size endpoint peers tag outgoing count round).attended rank =
        false := by
    intro round htag
    rw [Bool.eq_false_iff]
    intro hattended
    rw [(Meeting.attended_ofRounds_iff.1 hattended).2] at htag
    cases htag
  have hattends : ∀ round, round < count rank →
      (endpoint rank).tags.contains (tag round) = true →
      (Meeting.ofRounds group.size endpoint peers tag outgoing count round).attended rank =
        true :=
    fun _ hround htag => Meeting.attended_ofRounds_iff.2 ⟨hround, htag⟩
  have hfollows := Endpoint.followsScript_rounds
    (Meeting.ofRounds group.size endpoint peers tag outgoing count)
    (fun round => peers round rank) (fun round => outgoing round rank) hopen
    (fun round => Meeting.matched_ofRound (hreciprocal round))
    (fun round hround htag => Meeting.calls_ofRound hrank hopen (hattends round hround htag)
      (hkeys round rank hrank))
    haway (persists rank) (count rank) 0 (Nat.zero_add _)
  apply hfollows.bind_ends
  · rintro inStep outcomes script ⟨_, heq, hfaithful, _⟩
    cases heq
    apply Program.FollowsScript.rest
    apply (htail rank).attempt.bind
    · refine fun _ _ => ⟨outcomes, rfl, fun round hok => ⟨_, hfaithful round hok, ?_⟩⟩
      rw [Nat.zero_add]
      exact Meeting.delivers_ofRound (hreciprocal round) (hkeys round) hrank
    · rintro fault ⟨_, heq, _⟩
      cases heq
  · rintro inStep fault script ⟨_, heq, _⟩
    cases heq

include hquiet

theorem followsScripts_ofRounds {bound : Nat}
    (hbound : ∀ rank, rank < group.size → count rank ≤ bound) :
    ∃ spare missing position, (starting group (fun rank =>
      ((endpoint rank).rounds (persists rank) (fun round => peers round rank) tag
        (fun round => outgoing round rank) (count rank) 0).followedBy (tail rank))).FollowsScripts
      (fun label => ∃ round, tag round = label) (fun rank _ program _ => program.Settles
        (Keeps (fun round => peers round rank) tag outgoing rank)) spare missing position := by
  have hrounds : ∀ {p : Meeting → Prop},
      (∀ round, p (Meeting.ofRounds group.size endpoint peers tag outgoing count round)) →
      ∀ meeting ∈ (List.range' 0 bound).map
        (Meeting.ofRounds group.size endpoint peers tag outgoing count), p meeting := by
    intro p h meeting hmeeting
    obtain ⟨round, _, rfl⟩ := List.mem_map.1 hmeeting
    exact h round
  refine ⟨_, _, _, followsScripts_of_meetings hquiet (hrounds fun round => ⟨round, rfl⟩)
    (hrounds fun round => Meeting.matched_ofRound (hreciprocal round))
    (Meeting.withdrawing_ofRounds bound) ?_⟩
  intro rank hrank
  rw [Meeting.script_ofRounds (hbound rank hrank)]
  exact followsScript_ofRounds hopened hreciprocal hkeys htail hrank

end Rounds

/-- Whatever the tags, and however far the ranks are apart: once a rank has come
to a round, and this and all earlier rounds have succeeded, it holds what was
sent in the same round. -/
theorem delivers_of_rounds_ok (hopened : group.Opened endpoint)
    (hreciprocal : ∀ round, Reciprocal group.size (peers round))
    (hkeys : ∀ round rank, rank < group.size → (outgoing round rank).keys = peers round rank)
    (htail : ∀ rank, (tail rank).Silent)
    (hquiet : group.Quiet (fun label => ∃ round, tag round = label))
    {world : World (List (Except Fault (RankMap Envelope)))}
    (hreaches : (starting group (fun rank =>
      ((endpoint rank).rounds (persists rank) (fun round => peers round rank) tag
        (fun round => outgoing round rank) (count rank) 0).followedBy
          (tail rank))).ReachesUnfailing world)
    {rank : Nat} {actor : Actor (List (Except Fault (RankMap Envelope)))}
    (hactor : world.actors[rank]? = some actor)
    {outcomes : List (Except Fault (RankMap Envelope))} (hknown : actor.program.Knows outcomes)
    {round : Nat}
    (hok : ∀ earlier, earlier ≤ round → ∃ received, outcomes[earlier]? = some (.ok received)) :
    ∃ received, outcomes[round]? = some (.ok received) ∧
      Delivers (peers round rank) (tag round) (outgoing round) rank received := by
  obtain ⟨bound, hbound⟩ := exists_bound count group.size
  obtain ⟨spare, missing, position, hfirst⟩ :=
    followsScripts_ofRounds hopened hreciprocal hkeys htail hquiet hbound
  obtain ⟨position', hlast⟩ := hfirst.reaches (fun rank => restful_settles _) hreaches
  obtain ⟨turns, _, htakes, all, rfl, hkept⟩ := hlast.exists_takes hactor
  obtain ⟨later, rfl⟩ := hknown turns all htakes
  have hsame : ∀ earlier, earlier ≤ round → (outcomes ++ later)[earlier]? = outcomes[earlier]? := by
    intro earlier hle
    obtain ⟨received, hreceived⟩ := hok earlier hle
    exact List.getElem?_append_left (List.getElem?_eq_some_iff.1 hreceived).1
  obtain ⟨received, hreceived, hdelivers⟩ := hkept round (fun earlier hle => by
    rw [hsame earlier hle]
    exact hok earlier hle)
  rw [hsame round (Nat.le_refl round)] at hreceived
  exact ⟨received, hreceived, hdelivers⟩

/-- Two ranks that run two rounds with each other, both on one tag. -/
def repeatedTag : World (List (Except Fault (RankMap Envelope))) :=
  starting (.ofGrants .buffered [.single, .single]) (fun rank =>
    ((Endpoint.opened rank 2 .single).rounds (fun _ => false) (fun _ => .others 2 rank)
      (fun _ => 0) (fun round => .const (.others 2 rank) [.ofNat round, .ofNat rank]) 2
        0).followedBy (pure ()))

theorem delivers_of_repeatedTag : ∃ world actor outcomes, repeatedTag.ReachesUnfailing world ∧
    world.actors[0]? = some actor ∧ actor.program.Knows outcomes ∧
    ∃ received, outcomes[0]? = some (.ok received) ∧ Delivers (.others 2 0) 0
      (fun rank => .const (.others 2 rank) [0, .ofNat rank]) 0 received := by
  -- The messages of both rounds of rank 1 wait when rank 0 takes the first one.
  let schedule := (List.replicate 2 0 ++ List.replicate 11 1 ++ List.replicate 7 0).map
    (fun rank => Move.mk rank (.main .remote))
  let outcomes : List (Except Fault (RankMap Envelope)) :=
    [.ok (RankMap.envelopes (.others 2 0) 0 (fun _ => [0, 1]))]
  let later := (Endpoint.opened 0 2 .single).rounds (fun _ => false) (fun _ => .others 2 0)
    (fun _ => 0) (fun round => .const (.others 2 0) [.ofNat round, 0]) 1 1
  have hprogram : (repeatedTag.followUnfailing schedule).bind (fun world =>
      world.actors[0]?.map Actor.program) =
      some ((later.bind (fun later => pure (outcomes ++ later))).followedBy (pure ())) := rfl
  obtain ⟨world, hworld, hprogram⟩ := Option.bind_eq_some_iff.1 hprogram
  obtain ⟨actor, hactor, hprogram⟩ := Option.map_eq_some_iff.1 hprogram
  have hknown : actor.program.Knows outcomes := by
    rw [hprogram]
    exact (Program.knows_bind outcomes later).followedBy (pure ())
  have hok : ∀ earlier, earlier ≤ 0 → ∃ received, outcomes[earlier]? = some (.ok received) := by
    intro earlier hle
    rw [Nat.le_zero.1 hle]
    exact ⟨_, rfl⟩
  have hsilent : ∀ rank : Nat, (pure () : Program Unit).Silent := fun _ => trivial
  have hpeers : ∀ round : Nat, Reciprocal (Group.ofGrants .buffered [.single, .single]).size
    (RankSet.others 2) := fun _ => reciprocal_others 2
  have hreaches := reachesUnfailing_of_follow hworld
  refine ⟨world, actor, outcomes, hreaches, hactor, hknown, ?_⟩
  exact delivers_of_rounds_ok (Group.opened_ofGrants (by decide)) hpeers
    (fun _ _ _ => RankMap.keys_const _ _) hsilent (Group.quiet_ofGrants _) hreaches hactor hknown
    hok

-- Rank 1 is a round ahead, and its second message reaches rank 0 before the first
-- one of rank 2: on one tag a round may fail.
example :
    let peers : Nat → RankSet := fun rank =>
      if rank = 0 then .others 3 0 else RankSet.empty.insert 0
    let first : World (List (Except Fault (RankMap Envelope))) :=
      starting (.ofGrants .buffered [.single, .single, .single]) (fun rank =>
        (Endpoint.opened rank 3 .single).rounds (fun _ => false) (fun _ => peers rank)
          (fun _ => 0) (fun _ => .const (peers rank) []) 2 0)
    let schedule := (List.replicate 4 0 ++ List.replicate 11 1 ++ List.replicate 9 0).map
      (fun rank => Move.mk rank (.main .remote))
    (first.follow schedule).bind (fun world => world.result? 0) =
      some (.ok [.error (.unexpectedPeer none 1 0)]) := rfl

end World

end RankExchange
