import RankExchange.Endpoint.Exchange
import RankExchange.Proofs.Meeting
import RankExchange.Proofs.Tables

/-!
# The scripts of exchange rounds

A round that gets what is due to it gives one table of messages.  A rank that
gets anything else is out of step, and its round fails; it has still sent all
that it had to send.
-/

namespace RankExchange

/-- In step a program gives its value, and out of step a fault. -/
inductive Yields {α : Type} (value : α) (rest : Script) :
    Bool → Except Fault α → Script → Prop
  | kept : Yields value rest true (.ok value) rest
  | lost (fault : Fault) : Yields value rest false (.error fault) rest.outward

namespace Endpoint

open Program

variable {α : Type} {Rest : Bool → Program α → Script → Prop} {endpoint : Endpoint} {tag : Tag}
  {time : Nat} {owed : RankSet} {payload : Nat → Bytes} {rest : Script}

theorem silent_probe (endpoint : Endpoint) (tag : Tag) : (endpoint.probe tag).Silent := by
  refine ⟨rfl, fun answer => ?_⟩
  cases answer with
  | error fault => trivial
  | ok arrival =>
      refine ⟨rfl, fun _ => ?_⟩
      change Silent (if _ then _ else _)
      split <;> trivial

theorem silent_accept (arrival : Arrival) : (accept arrival).Silent := by
  refine ⟨rfl, fun answer => ?_⟩
  cases answer with
  | error fault => trivial
  | ok _ =>
      refine ⟨rfl, fun answer => ?_⟩
      cases answer with
      | error fault => trivial
      | ok buffer => exact ⟨rfl, fun _ => trivial⟩

theorem silent_lift (outcome : Except Fault α) : Silent (liftM outcome : Program α) := trivial

theorem silent_receiveOwed (endpoint : Endpoint) : ∀ count round received,
    (endpoint.receiveOwed count round received).Silent := by
  intro count
  induction count with
  | zero => exact fun _ _ => trivial
  | succ count ih =>
      intro round received
      apply Silent.bind (silent_probe _ _)
      intro arrival
      apply Silent.bind (silent_lift _)
      intro next
      apply Silent.bind (silent_accept _)
      intro envelope
      exact ih next _

theorem followsScript_probe {f : Arrival → Program α} (htag : endpoint.tags.contains tag = true)
    (howed : ∀ source, source ∈ owed →
      FollowsScript Rest true (f ⟨source, tag, (payload source).length⟩)
        (.take time tag owed payload (some source) :: rest))
    (hstranger : ∀ source length, ¬ source ∈ owed →
      FollowsScript Rest false (f ⟨source, tag, length⟩) rest.outward)
    (hfault : ∀ fault, FollowsScript Rest false (.done (.error fault)) rest.outward) :
    FollowsScript Rest true ((endpoint.probe tag).bind f)
      (.take time tag owed payload none :: rest) := by
  have hpass : ∀ source length,
      (if tag = tag ∧ endpoint.tags.contains tag = true then
        (pure ⟨source, tag, length⟩ : Program Arrival)
      else raise (.outsideTagSpace tag endpoint.tags)).bind f = f ⟨source, tag, length⟩ := by
    intro source length
    rw [if_pos ⟨rfl, htag⟩]
    rfl
  apply FollowsScript.probe
  · intro source hsource
    apply FollowsScript.log
    have hnext := howed source hsource
    rw [← hpass] at hnext
    exact hnext
  · intro source length hsource
    apply FollowsScript.log
    have hnext := hstranger source length hsource
    rw [← hpass] at hnext
    exact hnext
  · exact hfault

theorem followsScript_accept {f : Envelope → Program α} {source : Nat}
    (htaken : FollowsScript Rest true (f ⟨source, tag, payload source⟩)
      (Script.await time tag (owed.erase source) payload rest))
    (hfault : ∀ fault, FollowsScript Rest false (.done (.error fault)) rest.outward) :
    FollowsScript Rest true ((accept ⟨source, tag, (payload source).length⟩).bind f)
      (.take time tag owed payload (some source) :: rest) := by
  apply FollowsScript.reserve
  apply FollowsScript.receive rfl
  · exact FollowsScript.log htaken
  · exact hfault

/-- A round takes one message from every rank that owes one. -/
theorem followsScript_receiveOwed (htag : endpoint.tags.contains tag = true) (peers : RankSet) :
    ∀ count (awaited taken : RankSet), count = awaited.size →
      (∀ rank, rank ∈ peers ↔ rank ∈ awaited ∨ rank ∈ taken) →
      FollowsScript (Ends (Yields (RankMap.envelopes peers tag payload) rest)) true
        (endpoint.receiveOwed count ⟨tag, awaited⟩ (RankMap.envelopes taken tag payload))
        (Script.await time tag awaited payload rest) := by
  intro count
  induction count with
  | zero =>
      intro awaited taken hcount hpeers
      have hnil : awaited.ranks = [] := List.eq_nil_of_length_eq_zero hcount.symm
      have hall : taken = peers := by
        apply RankSet.ext
        intro rank
        have hnone : ¬ rank ∈ awaited := by
          rw [RankSet.mem_def, hnil]
          exact List.not_mem_nil
        rw [hpeers]
        simp [hnone]
      unfold Script.await
      rw [if_pos hnil, hall]
      exact .done .kept
  | succ count ih =>
      intro awaited taken hcount hpeers
      have hne : ¬ awaited.ranks = [] := by
        intro hnil
        unfold RankSet.size at hcount
        rw [hnil] at hcount
        cases hcount
      unfold Script.await
      rw [if_neg hne]
      apply followsScript_probe htag
      · intro source hsource
        have hsettle : Round.settle ⟨tag, awaited⟩ source = .ok ⟨tag, awaited.erase source⟩ :=
          Round.settle_of_mem hsource
        simp only [hsettle]
        apply followsScript_accept
        · simp only [RankMap.insert_envelopes]
          apply ih (awaited.erase source) (taken.insert source)
          · have hsize := RankSet.size_erase hsource
            omega
          · intro rank
            rw [hpeers, RankSet.mem_erase, RankSet.mem_insert]
            by_cases hrank : rank = source
            · simp [hrank, hsource]
            · simp [hrank]
        · exact fun fault => .done (.lost fault)
      · intro source length hsource
        have hsettle : Round.settle ⟨tag, awaited⟩ source =
            .error (.unexpectedPeer none source tag) :=
          Round.settle_of_not_mem hsource
        simp only [hsettle]
        exact .done (.lost _)
      · exact fun fault => .done (.lost fault)

theorem followsScript_receiveAll (htag : endpoint.tags.contains tag = true) (peers : RankSet) :
    FollowsScript (Ends (Yields (RankMap.envelopes peers tag payload) rest)) true
      (endpoint.receiveAll ⟨tag, peers⟩) (Script.await time tag peers payload rest) := by
  have hall : ∀ rank, rank ∈ peers ↔ rank ∈ peers ∨ rank ∈ RankSet.empty := by
    intro rank
    simp
  exact followsScript_receiveOwed htag peers peers.size peers .empty rfl hall

theorem followsScript_dispatch (time : Nat) (posts : List Envelope) {inStep : Bool}
    {f : Unit → Program α} (h : FollowsScript Rest inStep (f ()) rest) :
    FollowsScript Rest inStep ((posts.forM dispatch).bind f)
      (posts.map (Duty.send time) ++ rest) := by
  induction posts with
  | nil => exact h
  | cons post posts ih =>
      apply FollowsScript.log
      apply FollowsScript.send
      exact ih

theorem settled_ok (result : Except Fault α) : settled (.ok ()) result = result := by
  cases result with
  | ok value => rfl
  | error fault => cases fault <;> rfl

theorem followsScript_exchangeBeside (htag : endpoint.tags.contains tag = true) (peers : RankSet)
    (posts : List Envelope) :
    FollowsScript (Ends (Yields (RankMap.envelopes peers tag payload) rest)) true
      (endpoint.exchangeBeside ⟨tag, peers⟩ posts)
      (.spawn time posts :: Script.await time tag peers payload (.join time :: rest)) := by
  apply FollowsScript.spawn
  · unfold Script.await
    split
    · trivial
    · rfl
  · unfold Script.await
    split <;> rfl
  · apply (followsScript_receiveAll htag peers).bind_attempt
    intro inStep outcome script hyields
    cases hyields with
    | kept =>
        apply FollowsScript.join
        simp only [attempt_done, bind_done_ok, settled_ok]
        exact .done .kept
    | lost fault =>
        apply FollowsScript.join
        simp only [attempt_done, bind_done_ok, settled_ok]
        exact .done (.lost fault)

theorem followsScript_exchangeInTurn (htag : endpoint.tags.contains tag = true) (peers : RankSet)
    (posts : List Envelope) :
    FollowsScript (Ends (Yields (RankMap.envelopes peers tag payload) rest)) true
      (endpoint.exchangeInTurn ⟨tag, peers⟩ posts)
      (posts.map (Duty.send time) ++ Script.await time tag peers payload rest) :=
  followsScript_dispatch time posts (followsScript_receiveAll htag peers)

/-- Out of step, a rank still sends what it has to. -/
def Strays (rest : Script) (inStep : Bool) (script : Script) : Prop :=
  inStep = false ∧ script = rest.outward

theorem strays_exchangeBeside (round : Round) (posts : List Envelope) :
    FollowsScript (Ends (fun inStep _ script => Strays rest inStep script)) false
      (endpoint.exchangeBeside round posts) (.spawn time posts :: .join time :: rest.outward) := by
  apply FollowsScript.spawn
  · trivial
  · rfl
  · apply ((silent_receiveOwed endpoint _ _ _).followsScript _).bind_attempt
    rintro inStep received script ⟨rfl, rfl, _⟩
    apply FollowsScript.join
    exact .done ⟨rfl, rfl⟩

theorem strays_exchangeInTurn (round : Round) (posts : List Envelope) :
    FollowsScript (Ends (fun inStep _ script => Strays rest inStep script)) false
      (endpoint.exchangeInTurn round posts) (posts.map (Duty.send time) ++ rest.outward) := by
  apply followsScript_dispatch
  apply (silent_receiveOwed endpoint _ _ _).followsScript _ |>.mono
  rintro inStep program script ⟨result, rfl, rfl, rfl, _⟩
  exact ⟨result, rfl, rfl, rfl⟩

theorem requireRanks_ok {standing : Standing} (hopen : endpoint.standing = .ok standing)
    {ranks : List Nat} (h : ∀ rank ∈ ranks, rank < standing.size) :
    endpoint.requireRanks ranks = .ok () := by
  unfold requireRanks
  induction ranks with
  | nil => rfl
  | cons rank ranks ih =>
      have hfirst : endpoint.requireRank rank = .ok () := by
        rw [requireRank_of_standing hopen, if_pos (h rank List.mem_cons_self)]
      have hrest := ih (fun other hother => h other (List.mem_cons_of_mem _ hother))
      change (endpoint.requireRank rank >>= fun _ => ranks.forM endpoint.requireRank) = _
      rw [hfirst]
      exact hrest

theorem requireTag_ok {standing : Standing} (hopen : endpoint.standing = .ok standing)
    (htag : endpoint.tags.contains tag = true) : endpoint.requireTag tag = .ok () := by
  rw [requireTag_of_standing hopen, if_pos htag]

theorem exchange_eq {standing : Standing} (hopen : endpoint.standing = .ok standing)
    (htag : endpoint.tags.contains tag = true) {peers : RankSet} {outgoing : RankMap Bytes}
    (hranks : ∀ rank ∈ peers.ranks ++ outgoing.keys.ranks, rank < standing.size) :
    endpoint.exchange peers tag outgoing =
      (if standing.granted = .multiple then
        endpoint.exchangeBeside ⟨tag, peers⟩
          (outgoing.entries.map (fun (peer, payload) => Envelope.mk peer tag payload))
      else
        endpoint.exchangeInTurn ⟨tag, peers⟩
          (outgoing.entries.map (fun (peer, payload) => Envelope.mk peer tag payload))).bind
        (fun received =>
          (log (.roundComplete tag received.size)).bind (fun _ => pure received)) := by
  unfold exchange
  rw [requireTag_ok hopen htag, requireRanks_ok hopen hranks, hopen]
  change (if standing.granted = .multiple then (endpoint.exchangeBeside _ _).bind _
    else (endpoint.exchangeInTurn _ _).bind _) = _
  split <;> rfl

theorem exchange_of_outside {standing : Standing} (hopen : endpoint.standing = .ok standing)
    (htag : endpoint.tags.contains tag = false) (peers : RankSet) (outgoing : RankMap Bytes) :
    endpoint.exchange peers tag outgoing =
      .done (.error (.outsideTagSpace tag endpoint.tags)) := by
  unfold exchange
  rw [requireTag_of_standing hopen, htag]
  rfl

end Endpoint

/-- The side of one rank at a meeting is a round with these arguments. -/
structure Meeting.Calls (meeting : Meeting) (rank : Nat) (granted : Threading) (peers : RankSet)
    (outgoing : RankMap Bytes) : Prop where
  attended : meeting.attended rank = true
  owed : meeting.owed rank = peers
  sent : meeting.sent rank = outgoing.keys
  payload : ∀ peer payload, outgoing.find? peer = some payload →
    payload = meeting.payload rank peer
  helped : meeting.helped rank = decide (granted = .multiple)

def Meeting.received (meeting : Meeting) (rank : Nat) : RankMap Envelope :=
  RankMap.envelopes (meeting.owed rank) meeting.tag (fun source => meeting.payload source rank)

namespace Endpoint

open Program

variable {endpoint : Endpoint} {meeting : Meeting} {rank size time : Nat} {granted : Threading}
  {peers : RankSet} {outgoing : RankMap Bytes} {rest : Script}

theorem posts_of_calls (hcalls : meeting.Calls rank granted peers outgoing) :
    outgoing.entries.map (fun (peer, payload) => Envelope.mk peer meeting.tag payload) =
      meeting.posts rank := by
  unfold Meeting.posts
  rw [RankMap.entries_eq_map hcalls.payload, List.map_map, hcalls.sent]
  rfl

theorem ranks_of_calls (hcalls : meeting.Calls rank granted peers outgoing)
    (hmatched : meeting.Matched size) :
    ∀ other ∈ peers.ranks ++ outgoing.keys.ranks, other < size := by
  intro other hother
  rcases List.mem_append.1 hother with hpeer | hkey
  · apply hmatched.owed_lt other rank
    rw [hcalls.owed]
    exact hpeer
  · apply hmatched.sent_lt rank other
    rw [hcalls.sent]
    exact hkey

/-- A round in step gives what the rank should get at the meeting. -/
theorem followsScript_exchange (hopen : endpoint.standing = .ok ⟨rank, size, granted⟩)
    (htag : endpoint.tags.contains meeting.tag = true) (hmatched : meeting.Matched size)
    (hcalls : meeting.Calls rank granted peers outgoing) (time : Nat) (rest : Script) :
    FollowsScript (Ends (Yields (meeting.received rank) rest)) true
      (endpoint.exchange peers meeting.tag outgoing) (meeting.before rank time rest) := by
  rw [exchange_eq hopen htag (ranks_of_calls hcalls hmatched), posts_of_calls hcalls]
  unfold Meeting.before Meeting.received
  rw [if_pos hcalls.attended, hcalls.helped, hcalls.owed]
  refine FollowsScript.bind_ends
    (?_ : FollowsScript (Ends (Yields (RankMap.envelopes peers meeting.tag
      (meeting.payload · rank)) rest)) true _ _) ?_ ?_
  · by_cases hgranted : granted = .multiple
    · simp only [hgranted, decide_true, if_true]
      exact followsScript_exchangeBeside htag peers (meeting.posts rank)
    · simp only [hgranted, decide_false, Bool.false_eq_true, if_false]
      exact followsScript_exchangeInTurn htag peers (meeting.posts rank)
  · intro inStep received script hyields
    cases hyields
    exact .log (.done .kept)
  · intro inStep fault script hyields
    cases hyields
    exact .done (.lost fault)

theorem strays_exchange (hopen : endpoint.standing = .ok ⟨rank, size, granted⟩)
    (htag : endpoint.tags.contains meeting.tag = true) (hmatched : meeting.Matched size)
    (hcalls : meeting.Calls rank granted peers outgoing) (time : Nat) (rest : Script) :
    FollowsScript (Ends (fun inStep _ script => Strays rest inStep script)) false
      (endpoint.exchange peers meeting.tag outgoing) (meeting.before rank time rest).outward := by
  rw [exchange_eq hopen htag (ranks_of_calls hcalls hmatched), posts_of_calls hcalls]
  unfold Meeting.before
  rw [if_pos hcalls.attended, hcalls.helped]
  refine FollowsScript.bind_ends
    (?_ : FollowsScript (Ends (fun inStep _ script => Strays rest inStep script)) false _ _) ?_ ?_
  · by_cases hgranted : granted = .multiple
    · simp only [hgranted, decide_true, if_true]
      have houtward : Script.outward (.spawn time (meeting.posts rank) ::
          Script.await time meeting.tag (meeting.owed rank)
            (fun source => meeting.payload source rank) (.join time :: rest)) =
          .spawn time (meeting.posts rank) :: .join time :: rest.outward := by
        rw [Script.outward_cons_spawn, Script.outward_await]
        rfl
      rw [houtward]
      exact strays_exchangeBeside _ (meeting.posts rank)
    · simp only [hgranted, decide_false, Bool.false_eq_true, if_false]
      rw [Script.outward_append, Script.outward_await, Meeting.outward_sends]
      exact strays_exchangeInTurn _ (meeting.posts rank)
  · intro inStep received script hstrays
    exact .log (.done hstrays)
  · exact fun inStep fault script hstrays => .done hstrays

end Endpoint

end RankExchange
