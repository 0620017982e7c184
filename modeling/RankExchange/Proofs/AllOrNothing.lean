import RankExchange.Proofs.RoundHalves

/-!
# Rounds against any transport

A round asks for at most one message of each of its peers, and it gives either a
whole table or a fault, whatever its transport answers and however its two threads
take turns.
-/

namespace RankExchange

/-- What a round does, and what it gives, against any transport. -/
structure AllOrNothing (space : TagSpace) (granted : Threading) (peers : RankSet) (tag : Tag)
    (posts : List Envelope) (calls : List Call) (result : Except Fault (RankMap Envelope)) :
    Prop where
  receives_le : (calls.filter Call.isReceive).length ≤ peers.size
  probed : ∀ front call back source label length,
    drainCalls calls = front ++ call :: back → call.request = .receive source label length →
    label = tag ∧ Outstanding peers front source ∧
      ∃ earlier, front = earlier ++ [.probe tag (.ok ⟨source, tag, length⟩)]
  stops : ∀ front call back fault, drainCalls calls = front ++ call :: back →
    Spoils space peers tag front call fault → back = [] ∧
      (result = .error fault ∨
        ∃ failed ∈ sendCalls calls, ∃ other, failed.fault? = some other ∧ result = .error other)
  complete : ∀ received, result = .ok received →
    (sendCalls calls).map Call.request = posts.map Envelope.request ∧
      (∀ call ∈ calls, call.fault? = none) ∧
      (∀ peer, peer ∈ peers →
        (calls.filter (fun call => call.source? = some peer)).length = 1) ∧
      received.keys = peers ∧
      ∀ peer envelope, received.find? peer = some envelope →
        envelope.peer = peer ∧ envelope.tag = tag ∧
          .receive peer tag envelope.length (.ok ⟨envelope.payload, rfl⟩) ∈ calls
  /-- A failed send counts before anything else, unless the rank breaks down. -/
  sendFails : ∀ call ∈ sendCalls calls, ∀ fault, call.fault? = some fault →
    result = .error fault ∨ (result = .error .noRoom ∧ ∃ call ∈ drainCalls calls, call.collapses)
  ascending : (sendCalls calls).map Call.request <+: posts.map Envelope.request ∧
    ((sendCalls calls).filterMap (fun call => call.request.dest?)).Pairwise (· < ·)
  /-- Only a helper thread sends while the main thread receives. -/
  beside : granted = .multiple → ∀ call ∈ calls, call.helping = call.isSend
  /-- Without it everything is sent before the first probe. -/
  inTurn : granted ≠ .multiple → (∀ call ∈ calls, call.helping = false) ∧
    ∀ front call back, calls = front ++ call :: back →
      (call.isProbe = true →
        (sendCalls front).map Call.request = posts.map Envelope.request) ∧
      ∀ fault, call.isSend = true → call.fault? = some fault → back = [] ∧ result = .error fault

theorem Call.source?_of_isSend {call : Call} (h : call.isSend = true) : call.source? = none := by
  obtain ⟨helping, request, answer⟩ := call
  cases request with
  | send => rfl
  | _ => cases h

theorem mem_calls_iff {calls : List Call} {call : Call} :
    call ∈ calls ↔ call ∈ sendCalls calls ∨ call ∈ drainCalls calls := by
  rw [sendCalls, drainCalls, List.mem_filter, List.mem_filter]
  cases call.isSend <;> simp

theorem filter_drainCalls (calls : List Call) {wanted : Call → Bool}
    (hwanted : ∀ call : Call, call.isSend = true → wanted call = false) :
    (drainCalls calls).filter wanted = calls.filter wanted := by
  rw [drainCalls, List.filter_filter]
  apply List.filter_congr
  intro call _
  cases hsend : call.isSend with
  | false => simp
  | true => simp [hwanted call hsend]

theorem outgoingPosts_ascending (tag : Tag) (outgoing : RankMap Bytes) :
    (outgoingPosts tag outgoing).Pairwise (fun first second => first.peer < second.peer) :=
  List.pairwise_map.2 outgoing.ascending

namespace Endpoint

/-- A failed send is what the round fails with, unless the rank has broken down. -/
theorem settled_error {α : Type} (fault : Fault) (received : Except Fault α) :
    settled (.error fault) received = .error fault ∨
      (received = .error .noRoom ∧ settled (.error fault) received = .error .noRoom) := by
  cases received with
  | ok => exact .inl rfl
  | error other =>
      by_cases hroom : other = .noRoom
      · rw [hroom]
        exact .inr ⟨rfl, rfl⟩
      · left
        cases other with
        | noRoom => exact absurd rfl hroom
        | _ => rfl

end Endpoint

/-- How the two halves of a round make up its result. -/
inductive Composes (space : TagSpace) (peers : RankSet) (tag : Tag) (calls : List Call)
    (sent : Except Fault Unit) : Except Fault (RankMap Envelope) → Prop
  | settled {drained : Except Fault (RankMap Envelope)}
      (h : Drains space tag peers .empty (drainCalls calls) drained) :
      Composes space peers tag calls sent (Endpoint.settled sent drained)
  | unsent {fault : Fault} (hsent : sent = .error fault) (hnone : drainCalls calls = []) :
      Composes space peers tag calls sent (.error fault)

namespace Composes

variable {space : TagSpace} {peers : RankSet} {tag : Tag} {calls : List Call}
  {sent : Except Fault Unit} {result : Except Fault (RankMap Envelope)}

theorem receives_le (h : Composes space peers tag calls sent result) :
    (calls.filter Call.isReceive).length ≤ peers.size := by
  have hfilter : (drainCalls calls).filter Call.isReceive = calls.filter Call.isReceive :=
    filter_drainCalls calls (fun call hcall => by
      simp [Call.isReceive, Call.source?_of_isSend hcall])
  rw [← hfilter]
  cases h with
  | settled h => exact h.receives_le
  | unsent _ hnone =>
      rw [hnone]
      exact Nat.zero_le _

theorem probed (h : Composes space peers tag calls sent result) {front back : List Call}
    {call : Call} {source length : Nat} {label : Tag}
    (hcalls : drainCalls calls = front ++ call :: back)
    (hrequest : call.request = .receive source label length) :
    label = tag ∧ Outstanding peers front source ∧
      ∃ earlier, front = earlier ++ [.probe tag (.ok ⟨source, tag, length⟩)] := by
  cases h with
  | settled h => exact h.probed hcalls hrequest
  | unsent _ hnone => simp [hnone] at hcalls

/-- A round has no result that hides why it has failed. -/
theorem eq_error_of_sent (h : Composes space peers tag calls sent result) {fault : Fault}
    (hsent : sent = .error fault) :
    result = .error fault ∨
      (result = .error .noRoom ∧ ∃ call ∈ drainCalls calls, call.collapses = true) := by
  cases h with
  | settled h =>
      rw [hsent]
      rcases Endpoint.settled_error fault _ with heq | ⟨hdrained, heq⟩
      · exact .inl heq
      · exact .inr ⟨heq, h.exists_collapses hdrained⟩
  | unsent hsent' _ =>
      rw [hsent] at hsent'
      cases hsent'
      exact .inl rfl

theorem stops (h : Composes space peers tag calls sent result) {front back : List Call}
    {call : Call} {fault : Fault} (hcalls : drainCalls calls = front ++ call :: back)
    (hspoils : Spoils space peers tag front call fault) :
    back = [] ∧ (result = .error fault ∨ ∃ other, sent = .error other ∧ result = .error other) := by
  cases h with
  | unsent _ hnone => simp [hnone] at hcalls
  | settled h =>
      obtain ⟨hback, rfl⟩ := h.stops hcalls hspoils
      refine ⟨hback, ?_⟩
      cases sent with
      | ok => exact .inl (Endpoint.settled_ok _)
      | error other =>
          rcases Endpoint.settled_error other (.error fault : Except Fault (RankMap Envelope)) with
            heq | ⟨hroom, heq⟩
          · exact .inr ⟨other, rfl, heq⟩
          · cases hroom
            exact .inl heq

theorem complete (h : Composes space peers tag calls sent result) {received : RankMap Envelope}
    (hok : result = .ok received) :
    sent = .ok () ∧ Drains space tag peers .empty (drainCalls calls) (.ok received) := by
  cases h with
  | unsent => cases hok
  | settled h =>
      cases sent with
      | ok =>
          rw [Endpoint.settled_ok] at hok
          exact ⟨rfl, hok ▸ h⟩
      | error fault =>
          rcases Endpoint.settled_error fault _ with heq | ⟨_, heq⟩
          · rw [heq] at hok
            cases hok
          · rw [heq] at hok
            cases hok

end Composes

/-- The table of a round has a message for each peer and for no one else. -/
theorem Drains.keys_eq {space : TagSpace} {tag : Tag} {peers : RankSet} {calls : List Call}
    {received : RankMap Envelope} (h : Drains space tag peers .empty calls (.ok received)) :
    received.keys = peers := by
  apply RankSet.ext
  intro peer
  have hpeer := (h.of_ok rfl).2.2 peer
  rw [RankMap.mem_keys_iff]
  split at hpeer
  · next hmem =>
      obtain ⟨envelope, hfind, _⟩ := hpeer
      exact ⟨fun _ => hmem, fun _ => ⟨envelope, hfind⟩⟩
  · next hmem =>
      rw [SortedMap.find?_empty] at hpeer
      simp [hpeer, hmem]

variable {space : TagSpace} {granted : Threading} {peers : RankSet} {tag : Tag}
  {posts : List Envelope} {calls : List Call} {result : Except Fault (RankMap Envelope)}

theorem Issues.ascending {helping : Bool} {outcome : Except Fault Unit} {sends : List Call}
    (h : Issues helping posts sends outcome)
    (hposts : posts.Pairwise (fun first second => first.peer < second.peer)) :
    (sends.filterMap (fun call => call.request.dest?)).Pairwise (· < ·) := by
  have hdests : sends.filterMap (fun call => call.request.dest?) =
      (sends.map Call.request).filterMap Request.dest? := by
    rw [List.filterMap_map]
    rfl
  have hpeers : (posts.map Envelope.request).filterMap Request.dest? = posts.map Envelope.peer := by
    rw [List.filterMap_map]
    exact congrFun List.filterMap_eq_map posts
  have hsub := (h.map_request.sublist).filterMap Request.dest?
  rw [hpeers] at hsub
  rw [hdests]
  exact (List.pairwise_map.2 hposts).sublist hsub

theorem AllOrNothing.of_halves {helping : Bool} {sent : Except Fault Unit}
    (hissues : Issues helping posts (sendCalls calls) sent)
    (hposts : posts.Pairwise (fun first second => first.peer < second.peer))
    (h : Composes space peers tag calls sent result)
    (hbeside : granted = .multiple → ∀ call ∈ calls, call.helping = call.isSend)
    (hinTurn : granted ≠ .multiple → (∀ call ∈ calls, call.helping = false) ∧
      ∀ front call back, calls = front ++ call :: back →
        (call.isProbe = true →
          (sendCalls front).map Call.request = posts.map Envelope.request) ∧
        ∀ fault, call.isSend = true → call.fault? = some fault →
          back = [] ∧ result = .error fault) :
    AllOrNothing space granted peers tag posts calls result where
  receives_le := h.receives_le
  probed _ _ _ _ _ _ hcalls hrequest := h.probed hcalls hrequest
  stops front call back fault hcalls hspoils := by
    obtain ⟨hback, hresult⟩ := h.stops hcalls hspoils
    refine ⟨hback, ?_⟩
    rcases hresult with hresult | ⟨other, hsent, hresult⟩
    · exact .inl hresult
    · obtain ⟨failed, hfailed, hfault⟩ := hissues.exists_fault hsent
      exact .inr ⟨failed, hfailed, other, hfault, hresult⟩
  complete received hok := by
    obtain ⟨hsent, hdrains⟩ := h.complete hok
    obtain ⟨hrequests, hsound⟩ := hissues.of_ok hsent
    obtain ⟨hfaults, honce, hfinal⟩ := hdrains.of_ok rfl
    refine ⟨hrequests, ?_, ?_, hdrains.keys_eq, ?_⟩
    · intro call hcall
      exact (mem_calls_iff.1 hcall).elim (hsound call) (hfaults call)
    · intro peer hpeer
      have hpeer' := honce peer
      rw [if_pos hpeer, filter_drainCalls] at hpeer'
      · exact hpeer'
      · intro call hcall
        simp [Call.source?_of_isSend hcall]
    · intro peer envelope hfind
      have hpeer : peer ∈ peers := by
        rw [← hdrains.keys_eq, RankMap.mem_keys_iff]
        exact ⟨envelope, hfind⟩
      have hentry := hfinal peer
      rw [if_pos hpeer] at hentry
      obtain ⟨found, hfound, hown, htag, hcall⟩ := hentry
      rw [hfind] at hfound
      cases hfound
      exact ⟨hown, htag, mem_calls_iff.2 (.inr hcall)⟩
  sendFails call hcall fault hfault := by
    obtain ⟨front, back, hsplit⟩ := List.append_of_mem hcall
    exact h.eq_error_of_sent (hissues.of_fault hsplit hfault).2
  ascending := ⟨hissues.map_request, hissues.ascending hposts⟩
  beside := hbeside
  inTurn := hinTurn

namespace Issues

variable {helping : Bool} {outcome : Except Fault Unit}

theorem sendCalls_eq (h : Issues helping posts calls outcome) : sendCalls calls = calls := by
  rw [sendCalls, List.filter_eq_self]
  exact fun call hcall => (h.isSend call hcall).1

theorem drainCalls_eq (h : Issues helping posts calls outcome) : drainCalls calls = [] := by
  rw [drainCalls, List.filter_eq_nil_iff]
  intro call hcall
  simp [(h.isSend call hcall).1]

end Issues

namespace Drains

variable {owed : RankSet} {received : RankMap Envelope}

theorem sendCalls_eq (h : Drains space tag owed received calls result) : sendCalls calls = [] := by
  rw [sendCalls, List.filter_eq_nil_iff]
  intro call hcall
  simp [(h.not_isSend call hcall).1]

theorem drainCalls_eq (h : Drains space tag owed received calls result) :
    drainCalls calls = calls := by
  rw [drainCalls, List.filter_eq_self]
  intro call hcall
  simp [(h.not_isSend call hcall).1]

end Drains

theorem sendCalls_append (first last : List Call) :
    sendCalls (first ++ last) = sendCalls first ++ sendCalls last :=
  List.filter_append first last

theorem drainCalls_append (first last : List Call) :
    drainCalls (first ++ last) = drainCalls first ++ drainCalls last :=
  List.filter_append first last

theorem Call.not_isProbe_of_isSend {call : Call} (h : call.isSend = true) :
    call.isProbe = false := by
  obtain ⟨helping, request, answer⟩ := call
  cases request with
  | send => rfl
  | _ => cases h

theorem Issues.sent_before_probe {helping : Bool} {sent drained front back : List Call}
    {call : Call} (hissues : Issues helping posts sent (.ok ()))
    (hdrains : Drains space tag peers .empty drained result)
    (hcalls : sent ++ drained = front ++ call :: back) (hprobe : call.isProbe = true) :
    (sendCalls front).map Call.request = posts.map Envelope.request := by
  rcases List.append_eq_append_iff.1 hcalls with ⟨more, rfl, hdrained⟩ | ⟨more, hsent, hrest⟩
  · have hquiet : sendCalls more = [] := by
      have hnone := hdrains.sendCalls_eq
      rw [hdrained, sendCalls_append] at hnone
      exact (List.append_eq_nil_iff.1 hnone).1
    rw [sendCalls_append, hissues.sendCalls_eq, hquiet, List.append_nil]
    exact (hissues.of_ok rfl).1
  · cases more with
    | nil =>
        rw [List.append_nil] at hsent
        rw [← hsent, hissues.sendCalls_eq]
        exact (hissues.of_ok rfl).1
    | cons first more =>
        cases hrest
        have hsend : call.isSend = true := (hissues.isSend call (by simp [hsent])).1
        rw [Call.not_isProbe_of_isSend hsend] at hprobe
        cases hprobe

/-- A round whose sends are all done, or have failed, before its first probe. -/
theorem AllOrNothing.of_inTurn (hgranted : granted ≠ .multiple)
    (hposts : posts.Pairwise (fun first second => first.peer < second.peer))
    (h : (∃ fault, Issues false posts calls (.error fault) ∧ result = .error fault) ∨
      ∃ sent drained, calls = sent ++ drained ∧ Issues false posts sent (.ok ()) ∧
        Drains space tag peers .empty drained result) :
    AllOrNothing space granted peers tag posts calls result := by
  rcases h with ⟨fault, hissues, rfl⟩ | ⟨sent, drained, rfl, hissues, hdrains⟩
  · apply AllOrNothing.of_halves (hissues.sendCalls_eq.symm ▸ hissues) hposts
      (.unsent rfl hissues.drainCalls_eq) (fun h => absurd h hgranted)
    refine fun _ => ⟨fun call hcall => (hissues.isSend call hcall).2, ?_⟩
    intro front call back hcalls
    have hsend : call.isSend = true := (hissues.isSend call (by simp [hcalls])).1
    constructor
    · intro hprobe
      rw [Call.not_isProbe_of_isSend hsend] at hprobe
      cases hprobe
    · intro other _ hfault
      obtain ⟨hback, heq⟩ := hissues.of_fault hcalls hfault
      cases heq
      exact ⟨hback, rfl⟩
  · have hsends : sendCalls (sent ++ drained) = sent := by
      rw [sendCalls_append, hissues.sendCalls_eq, hdrains.sendCalls_eq, List.append_nil]
    have htakes : drainCalls (sent ++ drained) = drained := by
      rw [drainCalls_append, hissues.drainCalls_eq, hdrains.drainCalls_eq, List.nil_append]
    have hcomposes : Composes space peers tag (sent ++ drained) (.ok ()) result := by
      rw [← Endpoint.settled_ok result]
      exact .settled (htakes.symm ▸ hdrains)
    apply AllOrNothing.of_halves (hsends.symm ▸ hissues) hposts hcomposes
      (fun h => absurd h hgranted)
    refine fun _ => ⟨?_, ?_⟩
    · intro call hcall
      rcases List.mem_append.1 hcall with hcall | hcall
      · exact (hissues.isSend call hcall).2
      · exact (hdrains.not_isSend call hcall).2
    · intro front call back hcalls
      refine ⟨hissues.sent_before_probe hdrains hcalls, ?_⟩
      intro fault hsend hfault
      have hmem : call ∈ sent := by
        rw [← hsends, sendCalls, List.mem_filter]
        exact ⟨by simp [hcalls], hsend⟩
      rw [(hissues.of_ok rfl).2 call hmem] at hfault
      cases hfault

/-- A round whose helper thread sends while the main thread receives. -/
theorem AllOrNothing.of_beside {sent : Except Fault Unit}
    {drained : Except Fault (RankMap Envelope)} (hgranted : granted = .multiple)
    (hposts : posts.Pairwise (fun first second => first.peer < second.peer))
    (hdrains : Drains space tag peers .empty (mainCalls calls) drained)
    (hissues : Issues true posts (helperCalls calls) sent) :
    AllOrNothing space granted peers tag posts calls (Endpoint.settled sent drained) := by
  have hbeside : ∀ call ∈ calls, call.helping = call.isSend := by
    intro call hcall
    cases hhelping : call.helping with
    | true =>
        have hmem : call ∈ helperCalls calls := List.mem_filter.2 ⟨hcall, hhelping⟩
        exact (hissues.isSend call hmem).1.symm
    | false =>
        have hmem : call ∈ mainCalls calls := List.mem_filter.2 ⟨hcall, by simp [hhelping]⟩
        exact (hdrains.not_isSend call hmem).1.symm
  have hsends : sendCalls calls = helperCalls calls :=
    List.filter_congr (fun call hcall => (hbeside call hcall).symm)
  have htakes : drainCalls calls = mainCalls calls :=
    List.filter_congr (fun call hcall => by rw [hbeside call hcall])
  exact AllOrNothing.of_halves (hsends.symm ▸ hissues) hposts (.settled (htakes.symm ▸ hdrains))
    (fun _ => hbeside) (fun h => absurd hgranted h)

namespace Endpoint

open Program

variable {endpoint : Endpoint} {standing : Standing}

/-- A round is all or nothing, whatever its transport answers and however its two
threads take turns. -/
theorem allOrNothing_of_exchange {outgoing : RankMap Bytes} {last : Helper}
    (hopen : endpoint.standing = .ok standing) (htag : endpoint.tags.contains tag = true)
    (hranks : ∀ rank ∈ peers.ranks ++ outgoing.keys.ranks, rank < standing.size)
    (h : (endpoint.exchange peers tag outgoing).Converses {} calls result last) :
    AllOrNothing endpoint.tags standing.granted peers tag (outgoingPosts tag outgoing) calls
      result := by
  have hposts := outgoingPosts_ascending tag outgoing
  rw [exchange_eq hopen htag hranks] at h
  have hround := Converses.of_reported h
  by_cases hgranted : standing.granted = .multiple
  · rw [if_pos hgranted] at hround
    obtain ⟨drained, sent, hdrains, hissues, rfl⟩ := converses_exchangeBeside htag hround
    exact .of_beside hgranted hposts hdrains hissues
  · rw [if_neg hgranted] at hround
    exact .of_inTurn hgranted hposts (converses_exchangeInTurn htag hround)

def refusingTransport : Transport Unit where
  answer request _ :=
    match request with
    | .identify => (⟨0, 3⟩, ())
    | .init required => (.ok required, ())
    | .finalize => (.ok (), ())
    | .barrier => (.ok (), ())
    | .send dest _ _ => (.error (.transport .send (.departed dest)), ())
    | .probe tag => (.ok ⟨1, tag, 1⟩, ())
    | .receive _ _ length => (.ok ⟨List.replicate length 7, List.length_replicate⟩, ())
    | .leave => ((), ())

/-- Rank 1 is told of twice and a send has failed: the round fails with the send. -/
theorem allOrNothing_of_refusingTransport :
    let endpoint : Endpoint := ⟨{ phase := .active ⟨0, 3, .multiple⟩ }, .standard⟩
    let peers : RankSet := ⟨[1, 2], by decide⟩
    let outgoing : RankMap Bytes := ⟨[(1, [5]), (2, [6])], by decide⟩
    let result := .error (.transport .send (.departed 1))
    ∃ calls last, (endpoint.exchange peers 4 outgoing).Converses {} calls result last ∧
      (mainCalls calls).map Call.request = [.probe 4, .receive 1 4 1, .probe 4] ∧
      (helperCalls calls).map Call.request = [.send 1 4 [5]] ∧
      AllOrNothing .standard .multiple peers 4 (outgoingPosts 4 outgoing) calls result := by
  intro endpoint peers outgoing result
  let start : Transcript Unit := { state := () }
  have houtcome : Helper.outcome {} = start.posted := rfl
  obtain ⟨calls, last, hconverses, hmain, hhelper⟩ :=
    refusingTransport.exists_converses_run (endpoint.exchange peers 4 outgoing) rfl houtcome
  have hopen : endpoint.standing = .ok ⟨0, 3, .multiple⟩ := rfl
  have hranks : ∀ rank ∈ peers.ranks ++ outgoing.keys.ranks, rank < 3 := by decide
  exact ⟨calls, last, hconverses, hmain.symm, hhelper.symm,
    allOrNothing_of_exchange hopen rfl hranks hconverses⟩

end Endpoint

end RankExchange
