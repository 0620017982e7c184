import RankExchange.Proofs.Agenda
import RankExchange.Proofs.ExchangeScripts

/-!
# Sequences of rounds

A rank runs one round after the other and keeps their outcomes.  What happens
after a failed round is left to the rank: it goes on or it gives up.
-/

namespace RankExchange

namespace Endpoint

/-- The outcomes of `count` rounds from a given one on. -/
def rounds (endpoint : Endpoint) (persists : Nat → Bool) (peers : Nat → RankSet)
    (tag : Nat → Tag) (outgoing : Nat → RankMap Bytes) :
    Nat → Nat → Program (List (Except Fault (RankMap Envelope)))
  | 0, _ => return []
  | count + 1, round => do
      let outcome ← (endpoint.exchange (peers round) (tag round) (outgoing round)).attempt
      if outcome.isOk || persists round then
        let outcomes ← endpoint.rounds persists peers tag outgoing count (round + 1)
        return outcome :: outcomes
      else return [outcome]

end Endpoint

/-- As long as no round has failed, each has given what it should. -/
def Faithful (expected : Nat → RankMap Envelope) (first : Nat)
    (outcomes : List (Except Fault (RankMap Envelope))) : Prop :=
  ∀ round : Nat,
    (∀ earlier : Nat, earlier ≤ round → ∃ received, outcomes[earlier]? = some (.ok received)) →
    outcomes[round]? = some (.ok (expected (first + round)))

theorem faithful_nil (expected : Nat → RankMap Envelope) (first : Nat) :
    Faithful expected first [] := by
  intro round hok
  obtain ⟨_, h⟩ := hok 0 (Nat.zero_le round)
  cases h

theorem faithful_error (expected : Nat → RankMap Envelope) (first : Nat) (fault : Fault)
    (outcomes : List (Except Fault (RankMap Envelope))) :
    Faithful expected first (.error fault :: outcomes) := by
  intro round hok
  obtain ⟨_, h⟩ := hok 0 (Nat.zero_le round)
  cases h

theorem Faithful.cons {expected : Nat → RankMap Envelope} {first : Nat}
    {outcomes : List (Except Fault (RankMap Envelope))}
    (h : Faithful expected (first + 1) outcomes) :
    Faithful expected first (.ok (expected first) :: outcomes) := by
  intro round hok
  cases round with
  | zero => rfl
  | succ round =>
      have hrest := h round (fun earlier hle => hok (earlier + 1) (Nat.succ_le_succ hle))
      have hindex : first + 1 + round = first + (round + 1) := by omega
      rw [hindex] at hrest
      exact hrest

/-- What is known of a sequence of rounds when it has ended. -/
def Concludes (expected : Nat → RankMap Envelope) (first count : Nat) (complete : Prop)
    (inStep : Bool) (result : Except Fault (List (Except Fault (RankMap Envelope))))
    (script : Script) : Prop :=
  ∃ outcomes, result = .ok outcomes ∧ Faithful expected first outcomes ∧
    (complete → inStep = true → script = [] ∧
      outcomes = (List.range' first count).map (fun round => .ok (expected round)))

namespace Endpoint

open Program

variable {endpoint : Endpoint} {rank size limit : Nat} {granted : Threading}
  (meeting : Nat → Meeting) (peers : Nat → RankSet) (outgoing : Nat → RankMap Bytes)

/-- After a failed round, whatever a rank still does. -/
theorem strays_rounds (hopen : endpoint.standing = .ok ⟨rank, size, granted⟩)
    (hmatched : ∀ round, (meeting round).Matched size)
    (hcalls : ∀ round, round < limit → endpoint.tags.contains (meeting round).tag = true →
      (meeting round).Calls rank granted (peers round) (outgoing round))
    (haway : ∀ round, endpoint.tags.contains (meeting round).tag = false →
      (meeting round).attended rank = false) (persists : Nat → Bool) :
    ∀ count first, first + count = limit →
      FollowsScript
        (Ends (fun inStep result _ => inStep = false ∧ ∃ outcomes, result = .ok outcomes))
        false (endpoint.rounds persists peers (fun round => (meeting round).tag) outgoing count
          first)
        (Meeting.script rank first ((List.range' first count).map meeting)).outward := by
  intro count
  induction count with
  | zero => exact fun first _ => .done ⟨rfl, [], rfl⟩
  | succ count ih =>
      intro first hlimit
      have hrest := ih (first + 1) (by omega)
      rw [List.range'_succ, List.map_cons]
      unfold rounds Meeting.script
      have hnext : ∀ outcome : Except Fault (RankMap Envelope),
          FollowsScript
            (Ends (fun inStep result _ => inStep = false ∧ ∃ outcomes, result = .ok outcomes))
            false (if outcome.isOk || persists first then
              (endpoint.rounds persists peers (fun round => (meeting round).tag) outgoing count
                (first + 1)).bind (fun outcomes => .done (.ok (outcome :: outcomes)))
              else .done (.ok [outcome]))
            (Meeting.script rank (first + 1)
              ((List.range' (first + 1) count).map meeting)).outward := by
        intro outcome
        split
        · apply hrest.bind_ends
          · rintro inStep outcomes script ⟨hstep, _⟩
            exact .done ⟨hstep, _, rfl⟩
          · rintro inStep fault script ⟨_, _, heq⟩
            cases heq
        · exact .done ⟨rfl, _, rfl⟩
      cases htag : endpoint.tags.contains (meeting first).tag with
      | true =>
          apply (strays_exchange hopen htag (hmatched first) (hcalls first (by omega) htag) first
            _).bind_attempt
          rintro inStep outcome script ⟨rfl, rfl⟩
          exact hnext outcome
      | false =>
          rw [exchange_of_outside hopen htag, Meeting.before_of_not_attended (haway first htag)]
          exact hnext _

theorem followsScript_rounds (hopen : endpoint.standing = .ok ⟨rank, size, granted⟩)
    (hmatched : ∀ round, (meeting round).Matched size)
    (hcalls : ∀ round, round < limit → endpoint.tags.contains (meeting round).tag = true →
      (meeting round).Calls rank granted (peers round) (outgoing round))
    (haway : ∀ round, endpoint.tags.contains (meeting round).tag = false →
      (meeting round).attended rank = false) (persists : Nat → Bool) :
    ∀ count first, first + count = limit →
      FollowsScript (Ends (Concludes (fun round => (meeting round).received rank) first count
          (∀ round, endpoint.tags.contains (meeting round).tag = true)))
        true (endpoint.rounds persists peers (fun round => (meeting round).tag) outgoing count
          first)
        (Meeting.script rank first ((List.range' first count).map meeting)) := by
  intro count
  induction count with
  | zero => exact fun first _ => .done ⟨[], rfl, faithful_nil _ _, fun _ _ => ⟨rfl, rfl⟩⟩
  | succ count ih =>
      intro first hlimit
      have hrest := ih (first + 1) (by omega)
      rw [List.range'_succ, List.map_cons]
      unfold rounds Meeting.script
      cases htag : endpoint.tags.contains (meeting first).tag with
      | true =>
          apply (followsScript_exchange hopen htag (hmatched first)
            (hcalls first (by omega) htag) first
            _).bind_attempt
          intro inStep outcome script hyields
          cases hyields with
          | kept =>
              rw [if_pos (by rfl)]
              apply hrest.bind_ends
              · rintro inStep outcomes script ⟨_, heq, hfaithful, hcomplete⟩
                cases heq
                refine .done ⟨_, rfl, hfaithful.cons, fun hall hstep => ?_⟩
                obtain ⟨hscript, houtcomes⟩ := hcomplete hall hstep
                exact ⟨hscript, by rw [houtcomes, List.range'_succ]; rfl⟩
              · rintro inStep fault script ⟨_, heq, _⟩
                cases heq
          | lost fault =>
              split
              · have hstrays := strays_rounds meeting peers outgoing hopen hmatched hcalls haway
                  persists count (first + 1) (by omega)
                apply hstrays.bind_ends
                · rintro inStep outcomes script ⟨rfl, _⟩
                  exact .done ⟨_, rfl, faithful_error _ _ _ _, fun _ hstep => by cases hstep⟩
                · rintro inStep fault script ⟨_, _, heq⟩
                  cases heq
              · exact .done ⟨_, rfl, faithful_error _ _ _ _, fun _ hstep => by cases hstep⟩
      | false =>
          have hincomplete : ¬ ∀ round, endpoint.tags.contains (meeting round).tag = true := by
            intro hall
            rw [hall first] at htag
            cases htag
          rw [exchange_of_outside hopen htag, Meeting.before_of_not_attended (haway first htag)]
          simp only [attempt_done, bind_eq, bind_done_ok]
          split
          · apply hrest.bind_ends
            · rintro inStep outcomes script _
              exact .done ⟨_, rfl, faithful_error _ _ _ _, fun hall => absurd hall hincomplete⟩
            · rintro inStep fault script ⟨_, heq, _⟩
              cases heq
          · exact .done ⟨_, rfl, faithful_error _ _ _ _, fun hall => absurd hall hincomplete⟩

end Endpoint

/-- Every endpoint is open with the rank and the threading level that its
member has. -/
def Group.Opened (group : Group) (endpoint : Nat → Endpoint) : Prop :=
  ∀ (rank : Nat) (member : Member), group.members[rank]? = some member →
    (endpoint rank).standing = .ok ⟨rank, group.size, member.grant⟩

/-- The ranks of a group are peers of each other. -/
def Reciprocal (size : Nat) (peers : Nat → RankSet) : Prop :=
  ∀ rank peer, rank < size → peer ∈ peers rank → peer < size ∧ rank ∈ peers peer

/-- A round has given one envelope for each peer, with what the peer sent. -/
def Delivers (peers : RankSet) (tag : Tag) (outgoing : Nat → RankMap Bytes) (rank : Nat)
    (received : RankMap Envelope) : Prop :=
  received.keys = peers ∧ ∀ peer, peer ∈ peers → ∃ payload,
    (outgoing peer).find? rank = some payload ∧
      received.find? peer = some ⟨peer, tag, payload⟩

def Endpoint.isConcurrent (endpoint : Endpoint) : Bool :=
  match endpoint.standing with
  | .ok standing => standing.granted = .multiple
  | .error _ => false

theorem Endpoint.isConcurrent_eq {endpoint : Endpoint} {standing : Standing}
    (hopen : endpoint.standing = .ok standing) :
    endpoint.isConcurrent = decide (standing.granted = .multiple) := by
  unfold isConcurrent
  rw [hopen]

/-- Where a send waits for its receiver, every member may call from several
threads. -/
def Group.Threaded (group : Group) : Prop :=
  group.delivery = .rendezvous → ∀ (rank : Nat) (member : Member),
    group.members[rank]? = some member → member.grant = .multiple

theorem Group.Opened.isConcurrent {group : Group} {endpoint : Nat → Endpoint}
    (hopened : group.Opened endpoint) (hthreaded : group.Threaded)
    (hdelivery : group.delivery = .rendezvous) {rank : Nat} (hrank : rank < group.size) :
    (endpoint rank).isConcurrent = true := by
  have hmember : group.members[rank]? = some group.members[rank] :=
    List.getElem?_eq_getElem hrank
  rw [Endpoint.isConcurrent_eq (hopened rank _ hmember), hthreaded hdelivery rank _ hmember]
  rfl

def Meeting.ofRound (size : Nat) (endpoint : Nat → Endpoint) (peers : Nat → RankSet) (tag : Tag)
    (outgoing : Nat → RankMap Bytes) (attended : Nat → Bool) : Meeting where
  tag
  sent rank := if rank < size then peers rank else .empty
  owed rank := if rank < size then peers rank else .empty
  payload source dest := ((outgoing source).find? dest).getD []
  helped rank := (endpoint rank).isConcurrent
  attended

namespace Meeting

variable {size rank : Nat} {endpoint : Nat → Endpoint} {peers : Nat → RankSet} {tag : Tag}
  {outgoing : Nat → RankMap Bytes} {attended : Nat → Bool}

theorem matched_ofRound (h : Reciprocal size peers) :
    (ofRound size endpoint peers tag outgoing attended).Matched size where
  owed_iff := by
    intro source dest
    change dest ∈ (if source < size then peers source else .empty) ↔
      source ∈ (if dest < size then peers dest else .empty)
    rw [RankSet.mem_ite_empty, RankSet.mem_ite_empty]
    constructor
    · rintro ⟨hsource, hdest⟩
      exact h source dest hsource hdest
    · rintro ⟨hdest, hsource⟩
      exact h dest source hdest hsource
  sent_lt := by
    intro source dest hdest
    obtain ⟨hsource, hmem⟩ := RankSet.mem_ite_empty.1 hdest
    exact (h source dest hsource hmem).1
  owed_lt := by
    intro source dest hsource
    obtain ⟨hdest, hmem⟩ := RankSet.mem_ite_empty.1 hsource
    exact (h dest source hdest hmem).1

theorem calls_ofRound {granted : Threading} (hrank : rank < size)
    (hopen : (endpoint rank).standing = .ok ⟨rank, size, granted⟩)
    (hattended : attended rank = true) (hkeys : (outgoing rank).keys = peers rank) :
    (ofRound size endpoint peers tag outgoing attended).Calls rank granted (peers rank)
      (outgoing rank) where
  attended := hattended
  owed := if_pos hrank
  sent := by
    rw [hkeys]
    exact if_pos hrank
  payload := by
    intro peer payload hfind
    change payload = ((outgoing rank).find? peer).getD []
    rw [hfind]
    rfl
  helped := Endpoint.isConcurrent_eq hopen

theorem delivers_ofRound (hreciprocal : Reciprocal size peers)
    (hkeys : ∀ rank, rank < size → (outgoing rank).keys = peers rank) (hrank : rank < size) :
    Delivers (peers rank) tag outgoing rank
      ((ofRound size endpoint peers tag outgoing attended).received rank) := by
  have howed : (ofRound size endpoint peers tag outgoing attended).owed rank = peers rank :=
    if_pos hrank
  unfold received RankMap.envelopes
  rw [howed]
  refine ⟨RankMap.keys_tabulate _ _, fun peer hpeer => ?_⟩
  obtain ⟨hsize, hmutual⟩ := hreciprocal rank peer hrank hpeer
  rw [← hkeys peer hsize] at hmutual
  obtain ⟨payload, hpayload⟩ := RankMap.mem_keys_iff.1 hmutual
  refine ⟨payload, hpayload, ?_⟩
  have hsent : (ofRound size endpoint peers tag outgoing attended).payload peer rank = payload := by
    change ((outgoing peer).find? rank).getD [] = payload
    rw [hpayload]
    rfl
  rw [RankMap.find?_tabulate, if_pos hpeer]
  simp only [hsent]
  rfl

end Meeting

end RankExchange
