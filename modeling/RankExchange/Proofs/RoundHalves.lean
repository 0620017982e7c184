import RankExchange.Proofs.TransportCalls
import RankExchange.Proofs.ExchangeScripts

/-!
# The halves of a round

A round sends and it receives.  Whatever a transport answers, the one half makes
its sends in order, up to the first that fails, and the other asks for no message
that it has not been told of, up to the first call at which it goes wrong.
-/

namespace RankExchange

def Request.dest? : Request → Option Nat
  | .send dest _ _ => some dest
  | _ => none

def outgoingPosts (tag : Tag) (outgoing : RankMap Bytes) : List Envelope :=
  outgoing.entries.map (fun (peer, payload) => ⟨peer, tag, payload⟩)

namespace Call

def probe (tag : Tag) (answer : Except Fault Arrival) : Call :=
  ⟨false, .probe tag, answer⟩

def receive (source : Nat) (tag : Tag) (length : Nat) (answer : Except Fault (Buffer length)) :
    Call :=
  ⟨false, .receive source tag length, answer⟩

def send (helping : Bool) (post : Envelope) (answer : Except Fault Unit) : Call :=
  ⟨helping, post.request, answer⟩

def source? (call : Call) : Option Nat :=
  match call.request with
  | .receive source _ _ => some source
  | _ => none

def isSend (call : Call) : Bool :=
  call.request.dest?.isSome

def isReceive (call : Call) : Bool :=
  call.source?.isSome

def isProbe (call : Call) : Bool :=
  match call.request with
  | .probe _ => true
  | _ => false

def fault? : Call → Option Fault
  | ⟨_, .send _ _ _, .error fault⟩ => some fault
  | ⟨_, .probe _, .error fault⟩ => some fault
  | ⟨_, .receive _ _ _, .error fault⟩ => some fault
  | _ => none

/-- Whether the rank breaks down at a call, for want of memory. -/
def collapses : Call → Bool
  | ⟨_, .probe _, .ok arrival⟩ => !Memory.admits arrival.length
  | call => call.fault? = some .noRoom

end Call

def sendCalls (calls : List Call) : List Call :=
  calls.filter Call.isSend

def drainCalls (calls : List Call) : List Call :=
  calls.filter (fun call => !call.isSend)

/-- A peer has not been asked for its message yet. -/
def Outstanding (peers : RankSet) (calls : List Call) (source : Nat) : Prop :=
  source ∈ peers ∧ ∀ call ∈ calls, call.source? ≠ some source

/-- The calls after which a round has failed, and why. -/
inductive Spoils (space : TagSpace) (peers : RankSet) (tag : Tag) (calls : List Call) :
    Call → Fault → Prop
  | refused (fault : Fault) : Spoils space peers tag calls (.probe tag (.error fault)) fault
  | foreign (arrival : Arrival) (h : arrival.tag ≠ tag) :
      Spoils space peers tag calls (.probe tag (.ok arrival)) (.outsideTagSpace arrival.tag space)
  | unexpected (source length : Nat) (h : ¬ Outstanding peers calls source) :
      Spoils space peers tag calls (.probe tag (.ok ⟨source, tag, length⟩))
        (.unexpectedPeer none source tag)
  | lost (source : Nat) (label : Tag) (length : Nat) (fault : Fault) :
      Spoils space peers tag calls (.receive source label length (.error fault)) fault

/-- The messages are sent one after the other, up to the first that fails. -/
inductive Issues (helping : Bool) : List Envelope → List Call → Except Fault Unit → Prop
  | all : Issues helping [] [] (.ok ())
  | sent {post : Envelope} {posts : List Envelope} {calls : List Call} {outcome : Except Fault Unit}
      (h : Issues helping posts calls outcome) :
      Issues helping (post :: posts) (.send helping post (.ok ()) :: calls) outcome
  | failed {post : Envelope} {posts : List Envelope} (fault : Fault) :
      Issues helping (post :: posts) [.send helping post (.error fault)] (.error fault)

/-- The receiving part of a round: one probe and one receive for every peer, up to
the first call at which it goes wrong. -/
inductive Drains (space : TagSpace) (tag : Tag) :
    RankSet → RankMap Envelope → List Call → Except Fault (RankMap Envelope) → Prop
  | complete {owed : RankSet} {received : RankMap Envelope} (h : owed.ranks = []) :
      Drains space tag owed received [] (.ok received)
  | refused {owed : RankSet} {received : RankMap Envelope} (fault : Fault) :
      Drains space tag owed received [.probe tag (.error fault)] (.error fault)
  | foreign {owed : RankSet} {received : RankMap Envelope} (arrival : Arrival)
      (h : arrival.tag ≠ tag) : Drains space tag owed received [.probe tag (.ok arrival)]
        (.error (.outsideTagSpace arrival.tag space))
  | unexpected {owed : RankSet} {received : RankMap Envelope} (source length : Nat)
      (h : ¬ source ∈ owed) :
      Drains space tag owed received [.probe tag (.ok ⟨source, tag, length⟩)]
        (.error (.unexpectedPeer none source tag))
  | noRoom {owed : RankSet} {received : RankMap Envelope} (source length : Nat)
      (h : source ∈ owed) (hroom : Memory.admits length = false) :
      Drains space tag owed received [.probe tag (.ok ⟨source, tag, length⟩)] (.error .noRoom)
  | lost {owed : RankSet} {received : RankMap Envelope} (source length : Nat) (fault : Fault)
      (h : source ∈ owed) (hroom : Memory.admits length = true) :
      Drains space tag owed received
        [.probe tag (.ok ⟨source, tag, length⟩), .receive source tag length (.error fault)]
        (.error fault)
  | takes {owed : RankSet} {received : RankMap Envelope} {calls : List Call}
      {result : Except Fault (RankMap Envelope)} (source length : Nat) (buffer : Buffer length)
      (h : source ∈ owed) (hroom : Memory.admits length = true)
      (hrest : Drains space tag (owed.erase source)
        (received.insert source ⟨source, tag, buffer.1⟩) calls result) :
      Drains space tag owed received (.probe tag (.ok ⟨source, tag, length⟩) ::
        .receive source tag length (.ok buffer) :: calls) result

namespace Issues

variable {helping : Bool} {posts : List Envelope} {calls : List Call}
  {outcome : Except Fault Unit}

theorem isSend (h : Issues helping posts calls outcome) :
    ∀ call ∈ calls, call.isSend = true ∧ call.helping = helping := by
  induction h with
  | all => simp
  | sent _ ih => simpa using ⟨⟨rfl, rfl⟩, ih⟩
  | failed fault => simpa using ⟨rfl, rfl⟩

theorem map_request (h : Issues helping posts calls outcome) :
    calls.map Call.request <+: posts.map Envelope.request := by
  induction h with
  | all => exact List.prefix_rfl
  | sent _ ih => exact (List.cons_prefix_cons).2 ⟨rfl, ih⟩
  | failed fault => exact (List.cons_prefix_cons).2 ⟨rfl, List.nil_prefix⟩

theorem of_ok (h : Issues helping posts calls outcome) (hok : outcome = .ok ()) :
    calls.map Call.request = posts.map Envelope.request ∧ ∀ call ∈ calls, call.fault? = none := by
  induction h with
  | all => simp
  | sent _ ih =>
      obtain ⟨hcalls, hfaults⟩ := ih hok
      rw [List.map_cons, List.map_cons, hcalls]
      exact ⟨rfl, by simpa using ⟨rfl, hfaults⟩⟩
  | failed fault => cases hok

/-- A failed send is the last one and gives the outcome. -/
theorem of_fault (h : Issues helping posts calls outcome) {front back : List Call} {call : Call}
    {fault : Fault} (hcalls : calls = front ++ call :: back) (hfault : call.fault? = some fault) :
    back = [] ∧ outcome = .error fault := by
  induction h generalizing front with
  | all => simp at hcalls
  | sent _ ih =>
      cases front with
      | nil =>
          cases hcalls
          cases hfault
      | cons first front =>
          obtain ⟨_, hrest⟩ := List.cons.inj hcalls
          exact ih hrest
  | failed other =>
      cases front with
      | nil =>
          cases hcalls
          cases hfault
          exact ⟨rfl, rfl⟩
      | cons first front => simp at hcalls

theorem exists_fault (h : Issues helping posts calls outcome) {fault : Fault}
    (herror : outcome = .error fault) : ∃ call ∈ calls, call.fault? = some fault := by
  induction h with
  | all => cases herror
  | sent _ ih =>
      obtain ⟨call, hcall, hfault⟩ := ih herror
      exact ⟨call, List.mem_cons_of_mem _ hcall, hfault⟩
  | failed other =>
      cases herror
      exact ⟨_, List.mem_cons_self, rfl⟩

end Issues

namespace Drains

variable {space : TagSpace} {tag : Tag} {owed : RankSet} {received : RankMap Envelope}
  {calls : List Call} {result : Except Fault (RankMap Envelope)}

theorem not_isSend (h : Drains space tag owed received calls result) :
    ∀ call ∈ calls, call.isSend = false ∧ call.helping = false := by
  induction h with
  | complete => simp
  | refused => simpa using ⟨rfl, rfl⟩
  | foreign => simpa using ⟨rfl, rfl⟩
  | unexpected => simpa using ⟨rfl, rfl⟩
  | noRoom => simpa using ⟨rfl, rfl⟩
  | lost => simpa using ⟨⟨rfl, rfl⟩, rfl, rfl⟩
  | takes _ _ _ _ _ _ ih => simpa using ⟨⟨rfl, rfl⟩, ⟨rfl, rfl⟩, ih⟩

theorem receives_le (h : Drains space tag owed received calls result) :
    (calls.filter Call.isReceive).length ≤ owed.size := by
  have hpos : ∀ {owed : RankSet} {source : Nat}, source ∈ owed → 0 < owed.size := by
    intro owed source hsource
    exact List.length_pos_of_mem hsource
  induction h with
  | complete => simp
  | refused => exact Nat.zero_le _
  | foreign => exact Nat.zero_le _
  | unexpected => exact Nat.zero_le _
  | noRoom => exact Nat.zero_le _
  | lost _ _ _ hsource => exact hpos hsource
  | takes _ _ _ hsource _ _ ih =>
      rw [← RankSet.size_erase hsource]
      exact Nat.succ_le_succ ih

/-- After a peer's message has been taken, the others are still to come. -/
theorem outstanding_iff {source length : Nat} {buffer : Buffer length} {front : List Call}
    (probed : Call) (hprobed : probed.source? = none) (other : Nat) :
    Outstanding owed (probed :: .receive source tag length (.ok buffer) :: front) other ↔
      Outstanding (owed.erase source) front other := by
  have hsource : (Call.receive source tag length (.ok buffer)).source? = some source := rfl
  simp only [Outstanding, List.forall_mem_cons, hprobed, hsource, RankSet.mem_erase]
  grind

theorem eq_of_singleton {first call : Call} {front back : List Call}
    (h : [first] = front ++ call :: back) : front = [] ∧ call = first ∧ back = [] := by
  cases front with
  | nil => simpa using h.symm
  | cons => simp at h

theorem eq_of_pair {first second call : Call} {rest front back : List Call}
    (h : first :: second :: rest = front ++ call :: back) :
    (front = [] ∧ call = first ∧ back = second :: rest) ∨
      (front = [first] ∧ call = second ∧ back = rest) ∨
      ∃ front', front = first :: second :: front' ∧ rest = front' ++ call :: back := by
  cases front with
  | nil => simpa using h.symm
  | cons head front =>
      cases front with
      | nil =>
          simp only [List.cons_append, List.nil_append, List.cons.injEq] at h
          obtain ⟨rfl, rfl, rfl⟩ := h
          simp
      | cons next front =>
          simp only [List.cons_append, List.cons.injEq] at h
          obtain ⟨rfl, rfl, rfl⟩ := h
          simp

theorem probed (h : Drains space tag owed received calls result) {front back : List Call}
    {call : Call} {source length : Nat} {label : Tag} (hcalls : calls = front ++ call :: back)
    (hrequest : call.request = .receive source label length) :
    label = tag ∧ Outstanding owed front source ∧
      ∃ earlier, front = earlier ++ [.probe tag (.ok ⟨source, tag, length⟩)] := by
  have hprobe : ∀ {answer}, call ≠ .probe tag answer := by
    intro answer heq
    rw [heq] at hrequest
    cases hrequest
  induction h generalizing front with
  | complete => simp at hcalls
  | refused => exact absurd (eq_of_singleton hcalls).2.1 hprobe
  | foreign => exact absurd (eq_of_singleton hcalls).2.1 hprobe
  | unexpected => exact absurd (eq_of_singleton hcalls).2.1 hprobe
  | noRoom => exact absurd (eq_of_singleton hcalls).2.1 hprobe
  | lost found count fault howed =>
      rcases eq_of_pair hcalls with ⟨_, heq, _⟩ | ⟨rfl, rfl, _⟩ | ⟨front', _, hnil⟩
      · exact absurd heq hprobe
      · cases hrequest
        exact ⟨rfl, ⟨howed, by simp [Call.probe, Call.source?]⟩, [], rfl⟩
      · simp at hnil
  | takes found count buffer howed _ _ ih =>
      rcases eq_of_pair hcalls with ⟨_, heq, _⟩ | ⟨rfl, rfl, _⟩ | ⟨front', rfl, hrest⟩
      · exact absurd heq hprobe
      · cases hrequest
        exact ⟨rfl, ⟨howed, by simp [Call.probe, Call.source?]⟩, [], rfl⟩
      · obtain ⟨hlabel, houtstanding, earlier, rfl⟩ := ih hrest
        exact ⟨hlabel, (outstanding_iff _ rfl _).2 houtstanding, _ :: _ :: earlier, rfl⟩

/-- What spoils a round ends it. -/
theorem stops (h : Drains space tag owed received calls result) {front back : List Call}
    {call : Call} {fault : Fault} (hcalls : calls = front ++ call :: back)
    (hspoils : Spoils space owed tag front call fault) : back = [] ∧ result = .error fault := by
  induction h generalizing front with
  | complete => simp at hcalls
  | refused =>
      obtain ⟨_, rfl, hback⟩ := eq_of_singleton hcalls
      cases hspoils
      exact ⟨hback, rfl⟩
  | foreign arrival hforeign =>
      obtain ⟨_, rfl, hback⟩ := eq_of_singleton hcalls
      cases hspoils with
      | foreign => exact ⟨hback, rfl⟩
      | unexpected => exact absurd rfl hforeign
  | unexpected =>
      obtain ⟨_, rfl, hback⟩ := eq_of_singleton hcalls
      cases hspoils with
      | foreign _ hforeign => exact absurd rfl hforeign
      | unexpected => exact ⟨hback, rfl⟩
  | noRoom _ _ howed =>
      obtain ⟨rfl, rfl, _⟩ := eq_of_singleton hcalls
      cases hspoils with
      | foreign _ hforeign => exact absurd rfl hforeign
      | unexpected _ _ hunexpected => exact absurd ⟨howed, by simp⟩ hunexpected
  | lost _ _ _ howed =>
      rcases eq_of_pair hcalls with ⟨rfl, rfl, _⟩ | ⟨_, rfl, rfl⟩ | ⟨_, _, hnil⟩
      · cases hspoils with
        | foreign _ hforeign => exact absurd rfl hforeign
        | unexpected _ _ hunexpected => exact absurd ⟨howed, by simp⟩ hunexpected
      · cases hspoils
        exact ⟨rfl, rfl⟩
      · simp at hnil
  | takes _ _ _ howed _ _ ih =>
      rcases eq_of_pair hcalls with ⟨rfl, rfl, _⟩ | ⟨_, rfl, _⟩ | ⟨front', rfl, hrest⟩
      · cases hspoils with
        | foreign _ hforeign => exact absurd rfl hforeign
        | unexpected _ _ hunexpected => exact absurd ⟨howed, by simp⟩ hunexpected
      · cases hspoils
      · apply ih hrest
        cases hspoils with
        | refused => exact .refused _
        | foreign _ hforeign => exact .foreign _ hforeign
        | unexpected _ _ hunexpected =>
            exact .unexpected _ _ (fun h => hunexpected ((outstanding_iff _ rfl _).2 h))
        | lost => exact .lost _ _ _ _

/-- Without a failure, all that is owed has been taken, once from each. -/
theorem of_ok (h : Drains space tag owed received calls result) {final : RankMap Envelope}
    (hok : result = .ok final) :
    (∀ call ∈ calls, call.fault? = none) ∧
      (∀ peer, (calls.filter (fun call => call.source? = some peer)).length =
        if peer ∈ owed then 1 else 0) ∧
      ∀ peer, if peer ∈ owed then
          ∃ envelope, final.find? peer = some envelope ∧ envelope.peer = peer ∧
            envelope.tag = tag ∧
            .receive peer tag envelope.length (.ok ⟨envelope.payload, rfl⟩) ∈ calls
        else final.find? peer = received.find? peer := by
  induction h with
  | complete hnone =>
      cases hok
      have hempty : ∀ peer, ¬ peer ∈ _ := fun peer hpeer => by
        rw [RankSet.mem_def, hnone] at hpeer
        cases hpeer
      simp [hempty]
  | refused => cases hok
  | foreign => cases hok
  | unexpected => cases hok
  | noRoom => cases hok
  | lost => cases hok
  | @takes owed _ _ _ source length buffer howed _ _ ih =>
      obtain ⟨hfaults, honce, hfinal⟩ := ih hok
      refine ⟨by simpa using ⟨rfl, rfl, hfaults⟩, fun peer => ?_, fun peer => ?_⟩
      · have hprobe : ∀ {answer}, (Call.probe tag answer).source? = none := rfl
        have hreceive : (Call.receive source tag length (.ok buffer)).source? = some source := rfl
        have hrest := honce peer
        by_cases hpeer : peer = source
        · have hgone : ¬ peer ∈ owed.erase source := by simp [hpeer]
          rw [if_neg hgone] at hrest
          rw [hpeer] at hrest ⊢
          simpa [hprobe, hreceive, howed] using hrest
        · rw [List.filter_cons_of_neg (by simp [hprobe]),
            List.filter_cons_of_neg (by simp [hreceive, Ne.symm hpeer]), hrest]
          simp [hpeer]
      · have hlater := hfinal peer
        by_cases hpeer : peer = source
        · have hgone : ¬ peer ∈ owed.erase source := by simp [hpeer]
          rw [if_neg hgone, hpeer, SortedMap.find?_insert, if_pos rfl] at hlater
          obtain ⟨bytes, rfl⟩ := buffer
          rw [hpeer, if_pos howed]
          exact ⟨_, hlater, rfl, rfl, List.mem_cons_of_mem _ List.mem_cons_self⟩
        · by_cases hmem : peer ∈ owed.erase source
          · rw [if_pos hmem] at hlater
            rw [if_pos (RankSet.mem_erase.1 hmem).1]
            obtain ⟨envelope, hfind, hown, htag, hcall⟩ := hlater
            exact ⟨envelope, hfind, hown, htag,
              List.mem_cons_of_mem _ (List.mem_cons_of_mem _ hcall)⟩
          · rw [if_neg hmem, SortedMap.find?_insert, if_neg hpeer] at hlater
            rw [if_neg (fun howed' => hmem (RankSet.mem_erase.2 ⟨howed', hpeer⟩))]
            exact hlater

/-- Where a rank breaks down it has met with a message that is too long, or its
transport has broken down. -/
theorem exists_collapses (h : Drains space tag owed received calls result)
    (herror : result = .error .noRoom) : ∃ call ∈ calls, call.collapses = true := by
  induction h with
  | complete => cases herror
  | refused fault =>
      cases herror
      exact ⟨_, List.mem_cons_self, rfl⟩
  | foreign => cases herror
  | unexpected => cases herror
  | noRoom _ _ _ hroom => exact ⟨_, List.mem_cons_self, by simp [Call.probe, Call.collapses, hroom]⟩
  | lost source length fault =>
      cases herror
      exact ⟨_, List.mem_cons_of_mem _ List.mem_cons_self, rfl⟩
  | takes _ _ _ _ _ _ ih =>
      obtain ⟨call, hcall, hcollapses⟩ := ih herror
      exact ⟨call, List.mem_cons_of_mem _ (List.mem_cons_of_mem _ hcall), hcollapses⟩

end Drains

namespace Endpoint

open Program

variable {endpoint : Endpoint} {tag : Tag} {helper last : Helper} {calls : List Call}

theorem converses_probe {result : Except Fault Arrival}
    (htag : endpoint.tags.contains tag = true)
    (h : (endpoint.probe tag).Converses helper calls result last) :
    (∃ fault, mainCalls calls = [.probe tag (.error fault)] ∧ result = .error fault) ∨
      ∃ arrival, mainCalls calls = [.probe tag (.ok arrival)] ∧
        result = if arrival.tag = tag then .ok arrival
          else .error (.outsideTagSpace arrival.tag endpoint.tags) := by
  obtain ⟨answer, _, rest, hcalls, hanswer⟩ := h.of_call
  cases answer with
  | error fault =>
      obtain ⟨hresult, hrest, _⟩ := hanswer.of_done
      rw [hrest] at hcalls
      exact .inl ⟨fault, hcalls, hresult⟩
  | ok arrival =>
      obtain ⟨_, rest', hlog, hlogged⟩ := hanswer.of_log
      have hpass : (if arrival.tag = tag ∧ endpoint.tags.contains arrival.tag = true then
          pure arrival else raise (.outsideTagSpace arrival.tag endpoint.tags)) =
          Program.done (if arrival.tag = tag then .ok arrival
            else .error (.outsideTagSpace arrival.tag endpoint.tags)) := by
        by_cases heq : arrival.tag = tag
        · rw [if_pos ⟨heq, by rwa [heq]⟩, if_pos heq]
          rfl
        · rw [if_neg (fun h => heq h.1), if_neg heq]
          rfl
      change (if arrival.tag = tag ∧ endpoint.tags.contains arrival.tag = true then
          pure arrival else raise (.outsideTagSpace arrival.tag endpoint.tags)).Converses _ _ _ _
        at hlogged
      rw [hpass] at hlogged
      obtain ⟨hresult, hrest, _⟩ := hlogged.of_done
      rw [hlog, hrest] at hcalls
      exact .inr ⟨arrival, hcalls, hresult⟩

theorem converses_accept {arrival : Arrival} {result : Except Fault Envelope}
    (h : (accept arrival).Converses helper calls result last) :
    (Memory.admits arrival.length = false ∧ mainCalls calls = [] ∧ result = .error .noRoom) ∨
      (Memory.admits arrival.length = true ∧ ∃ answer,
        mainCalls calls = [.receive arrival.source arrival.tag arrival.length answer] ∧
        result = answer.map (fun buffer => ⟨arrival.source, arrival.tag, buffer.1⟩)) := by
  obtain ⟨_, rest, hreserve, hroom⟩ := h.of_reserve
  cases hadmits : Memory.admits arrival.length with
  | false =>
      rw [hadmits] at hroom
      obtain ⟨hresult, hrest, _⟩ := hroom.of_done
      exact .inl ⟨rfl, hreserve.trans hrest, hresult⟩
  | true =>
      rw [hadmits] at hroom
      obtain ⟨answer, _, rest', hcalls, hanswer⟩ := hroom.of_call
      refine .inr ⟨rfl, answer, ?_⟩
      cases answer with
      | error fault =>
          obtain ⟨hresult, hrest, _⟩ := hanswer.of_done
          rw [hreserve, hcalls, hrest]
          exact ⟨rfl, hresult⟩
      | ok buffer =>
          obtain ⟨_, rest'', hlog, hlogged⟩ := hanswer.of_log
          obtain ⟨hresult, hrest, _⟩ := hlogged.of_done
          rw [hreserve, hcalls, hlog, hrest]
          exact ⟨rfl, hresult⟩

theorem drains_of_found {count source length : Nat} {awaited : RankSet}
    {received : RankMap Envelope} {result : Except Fault (RankMap Envelope)}
    (hcount : count + 1 = awaited.size)
    (ih : ∀ (awaited : RankSet) (received : RankMap Envelope) {helper last : Helper}
      {calls : List Call} {result : Except Fault (RankMap Envelope)}, count = awaited.size →
      (endpoint.receiveOwed count ⟨tag, awaited⟩ received).Converses helper calls result last →
      Drains endpoint.tags tag awaited received (mainCalls calls) result)
    (h : ((Program.done ((⟨tag, awaited⟩ : Round).settle source)).bind (fun round =>
      (accept ⟨source, tag, length⟩).bind (fun envelope => endpoint.receiveOwed count round
        (received.insert envelope.peer envelope)))).Converses helper calls result last) :
    Drains endpoint.tags tag awaited received
      (.probe tag (.ok ⟨source, tag, length⟩) :: mainCalls calls) result := by
  by_cases howed : source ∈ awaited
  · rw [Round.settle_of_mem howed, bind_done_ok] at h
    rcases Converses.of_bind h with ⟨fault, rfl, haccept⟩ |
      ⟨envelope, front, back, middle, rfl, haccept, hrest⟩
    · rcases converses_accept haccept with ⟨hroom, hcalls, heq⟩ | ⟨hroom, answer, hcalls, heq⟩
      · cases heq
        rw [hcalls]
        exact .noRoom source length howed hroom
      · cases answer with
        | ok buffer => cases heq
        | error fault =>
            cases heq
            rw [hcalls]
            exact .lost source length fault howed hroom
    · rcases converses_accept haccept with ⟨_, _, heq⟩ | ⟨hroom, answer, hcalls, heq⟩
      · cases heq
      · cases answer with
        | error fault => cases heq
        | ok buffer =>
            cases heq
            have hsize : count = (awaited.erase source).size := by
              have herase := RankSet.size_erase howed
              omega
            rw [mainCalls_append, hcalls]
            exact .takes source length buffer howed hroom (ih _ _ hsize hrest)
  · rw [Round.settle_of_not_mem howed, bind_done_error] at h
    obtain ⟨rfl, hcalls, _⟩ := h.of_done
    rw [hcalls]
    exact .unexpected source length howed

theorem drains_of_converses (htag : endpoint.tags.contains tag = true) :
    ∀ (count : Nat) (awaited : RankSet) (received : RankMap Envelope) {helper last : Helper}
      {calls : List Call} {result : Except Fault (RankMap Envelope)}, count = awaited.size →
      (endpoint.receiveOwed count ⟨tag, awaited⟩ received).Converses helper calls result last →
      Drains endpoint.tags tag awaited received (mainCalls calls) result := by
  intro count
  induction count with
  | zero =>
      intro awaited received helper last calls result hcount h
      obtain ⟨rfl, hcalls, _⟩ := h.of_done
      rw [hcalls]
      exact .complete (List.eq_nil_of_length_eq_zero hcount.symm)
  | succ count ih =>
      intro awaited received helper last calls result hcount h
      rcases Converses.of_bind h with ⟨fault, rfl, hprobe⟩ |
        ⟨arrival, front, back, middle, rfl, hprobe, hback⟩
      · rcases converses_probe htag hprobe with ⟨_, hcalls, heq⟩ | ⟨arrival, hcalls, heq⟩
        · cases heq
          rw [hcalls]
          exact .refused fault
        · rw [hcalls]
          split at heq
          · cases heq
          · next hforeign =>
              cases heq
              exact .foreign arrival hforeign
      · rcases converses_probe htag hprobe with ⟨_, _, heq⟩ | ⟨found, hfront, heq⟩
        · cases heq
        · split at heq
          · next hlabel =>
              cases heq
              obtain ⟨source, label, length⟩ := arrival
              cases hlabel
              rw [mainCalls_append, hfront]
              exact drains_of_found hcount ih hback
          · cases heq

theorem converses_dispatch (posts : List Envelope) {result : Except Fault Unit}
    (h : (posts.forM dispatch).Converses helper calls result last) :
    Issues false posts (mainCalls calls) result := by
  induction posts generalizing helper calls with
  | nil =>
      obtain ⟨rfl, hcalls, _⟩ := h.of_done
      rw [hcalls]
      exact .all
  | cons post posts ih =>
      obtain ⟨_, rest, hlog, hlogged⟩ := Converses.of_log h
      obtain ⟨answer, _, rest', hcalls, hanswer⟩ := Converses.of_call hlogged
      rw [hlog, hcalls]
      cases answer with
      | error fault =>
          obtain ⟨rfl, hnone, _⟩ := hanswer.of_done
          rw [hnone]
          exact .failed fault
      | ok => exact .sent (ih hanswer)

theorem unaided_exchangeInTurn (endpoint : Endpoint) (round : Round) (posts : List Envelope) :
    (endpoint.exchangeInTurn round posts).Unaided := by
  have hdispatch : ∀ posts : List Envelope, (posts.forM dispatch).Unaided := by
    intro posts
    induction posts with
    | nil => trivial
    | cons post posts ih =>
        refine ⟨fun _ heq => (by cases heq), fun _ => ⟨fun _ heq => (by cases heq), ?_⟩⟩
        intro answer
        cases answer with
        | error fault => trivial
        | ok => exact ih
  apply Unaided.bind (hdispatch posts)
  exact fun _ => Settles.unaided (silent_receiveOwed endpoint _ _ _)

/-- A helper thread that has come to an end has sent all it could. -/
theorem issues_of_sends {posts : List Envelope} (h : Helper.Sends { posts } calls last)
    (hposts : last.posts = []) : Issues true posts calls last.outcome := by
  generalize hhelper : ({ posts } : Helper) = helper at h
  induction h generalizing posts with
  | refl =>
      cases hhelper
      cases hposts
      exact .all
  | sent _ ih =>
      cases hhelper
      exact .sent (ih hposts rfl)
  | failed fault hrest =>
      cases hhelper
      obtain ⟨rfl, rfl⟩ := hrest.of_idle rfl
      exact .failed fault

/-- With a helper thread, it sends while the main thread receives. -/
theorem converses_exchangeBeside (htag : endpoint.tags.contains tag = true) {peers : RankSet}
    {posts : List Envelope} {result : Except Fault (RankMap Envelope)}
    (h : (endpoint.exchangeBeside ⟨tag, peers⟩ posts).Converses {} calls result last) :
    ∃ drained sent, Drains endpoint.tags tag peers .empty (mainCalls calls) drained ∧
      Issues true posts (helperCalls calls) sent ∧ result = settled sent drained := by
  cases h with
  | act hidle hspawn hrest =>
    obtain ⟨rfl, rfl⟩ := hidle.of_idle rfl
    cases hspawn
    change ((endpoint.receiveAll ⟨tag, peers⟩).attempt.bind (fun drained =>
      join.attempt.bind (fun sent => .done (settled sent drained)))).Converses _ _ _ _ at hrest
    rcases Converses.of_bind hrest with ⟨fault, _, hattempt⟩ |
      ⟨drained, front, back, middle, rfl, hattempt, hjoin⟩
    · obtain ⟨_, heq, _⟩ := hattempt.of_attempt
      cases heq
    · obtain ⟨_, heq, hdrained⟩ := hattempt.of_attempt
      cases heq
      have hdrains := drains_of_converses htag _ peers .empty rfl hdrained
      have hfront := hdrained.sends_of_settles (silent_receiveOwed endpoint _ _ _)
      obtain ⟨more, rest, before, rfl, hmore, hposts, hlast⟩ := Converses.of_join hjoin
      obtain ⟨hresult, _, hend⟩ := hlast.of_done
      obtain ⟨rfl, _⟩ := hend.of_idle rfl
      refine ⟨drained, before.outcome, ?_, ?_, hresult⟩
      · have hmain : mainCalls (front ++ (more ++ [])) = mainCalls front := by
          rw [mainCalls_append, List.append_nil, hmore.mainCalls_eq, List.append_nil]
        exact hmain ▸ hdrains
      · have hhelper : helperCalls (front ++ (more ++ [])) = helperCalls front ++ more := by
          rw [helperCalls_append, List.append_nil, hmore.helperCalls_eq]
        exact hhelper ▸ issues_of_sends (hfront.append hmore) hposts

/-- Without one, nothing is asked for before everything has been sent. -/
theorem converses_exchangeInTurn (htag : endpoint.tags.contains tag = true) {peers : RankSet}
    {posts : List Envelope} {result : Except Fault (RankMap Envelope)}
    (h : (endpoint.exchangeInTurn ⟨tag, peers⟩ posts).Converses {} calls result last) :
    (∃ fault, Issues false posts calls (.error fault) ∧ result = .error fault) ∨
      ∃ sent drained, calls = sent ++ drained ∧ Issues false posts sent (.ok ()) ∧
        Drains endpoint.tags tag peers .empty drained result := by
  have hmain : mainCalls calls = calls := by
    rw [mainCalls, List.filter_eq_self]
    intro call hcall
    simp [(unaided_exchangeInTurn endpoint ⟨tag, peers⟩ posts).helping_eq_false rfl h call hcall]
  rcases Converses.of_bind h with ⟨fault, rfl, hsend⟩ | ⟨_, front, back, _, rfl, hsend, hdrain⟩
  · have hissues := converses_dispatch posts hsend
    rw [hmain] at hissues
    exact .inl ⟨fault, hissues, rfl⟩
  · have hissues := converses_dispatch posts hsend
    have hdrains := drains_of_converses htag _ peers .empty rfl hdrain
    rw [mainCalls_append] at hmain
    exact .inr ⟨_, _, hmain.symm, hissues, hdrains⟩

end Endpoint

end RankExchange
