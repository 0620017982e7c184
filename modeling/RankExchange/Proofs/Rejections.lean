import RankExchange.Proofs.RegularMembers
import RankExchange.Proofs.QueueServing

/-!
# Rejected receives

A receive from a peer goes by the oldest message on its tag.  If that is of another rank,
the receive is rejected and the message stays; whatever the rank does afterwards, it is as
if it had not tried.
-/

namespace RankExchange

def Message.envelope (message : Message) : Envelope :=
  ⟨message.source, message.tag, message.payload⟩

theorem eraseP_eq_of_find? {α : Type} {p q : α → Bool} {l : List α} {a : α}
    (h : l.find? p = some a) (hqp : ∀ b, q b = true → p b = true) (hq : q a = true) :
    l.eraseP q = l.eraseP p := by
  induction l with
  | nil => cases h
  | cons b l ih =>
      by_cases hp : p b = true
      · rw [List.find?_cons_of_pos hp] at h
        cases h
        rw [List.eraseP_cons_of_pos hq, List.eraseP_cons_of_pos hp]
      · have hnot : ¬ q b = true := fun hb => hp (hqp b hb)
        rw [List.find?_cons_of_neg hp] at h
        rw [List.eraseP_cons_of_neg hnot, List.eraseP_cons_of_neg hp, ih h]

namespace Endpoint

open Program

variable {endpoint : Endpoint} {standing : Standing} {tag : Tag} {rank size : Nat}
  {alone : Bool}

theorem hears_lift {α : Type} (outcome : Except Fault α) :
    (liftM outcome : Program α).Hears := trivial

theorem hears_probe (endpoint : Endpoint) (tag : Tag) : (endpoint.probe tag).Hears := by
  refine Hears.bind ⟨trivial, fun _ => trivial⟩ (fun arrival => ?_)
  refine ⟨trivial, fun _ => ?_⟩
  change Hears (if _ then _ else _)
  split <;> trivial

theorem hears_accept (arrival : Arrival) : (accept arrival).Hears := by
  refine Hears.bind ⟨trivial, fun _ => trivial⟩ (fun _ => ?_)
  refine Hears.bind ⟨trivial, fun _ => trivial⟩ (fun buffer => ?_)
  exact ⟨trivial, fun _ => trivial⟩

theorem hears_receive (endpoint : Endpoint) (peer : Nat) (tag : Tag) :
    (endpoint.receive peer tag).Hears := by
  refine Hears.bind (hears_lift _) (fun _ => Hears.bind (hears_lift _) (fun _ => ?_))
  refine Hears.bind (hears_probe _ _) (fun arrival => ?_)
  change Hears (if _ then _ else _)
  split
  · exact hears_accept arrival
  · trivial

theorem hears_receiveNext (endpoint : Endpoint) (tag : Tag) :
    (endpoint.receiveNext tag).Hears :=
  Hears.bind (hears_lift _) (fun _ => Hears.bind (hears_probe _ _) hears_accept)

theorem serve_probe_bind {α : Type} (htag : endpoint.tags.contains tag = true)
    (f : Arrival → Program α) (queue : List Message) :
    ((endpoint.probe tag).bind f).serve rank size alone queue =
      Wanted.serve { tag } alone (decide (size = 1)) queue
        (fun message => (f message.arrival).serve rank size alone queue)
        (some (.error (.transport .probe (.deserted rank)), queue)) := by
  have hunfold : ((endpoint.probe tag).bind f).serve rank size alone queue =
      Wanted.serve { tag } alone (decide (size = 1)) queue
        (fun message => ((if message.tag = tag ∧ endpoint.tags.contains message.tag = true then
          (pure message.arrival : Program Arrival)
          else raise (.outsideTagSpace message.tag endpoint.tags)).bind f).serve rank size alone
            queue)
        (some (.error (.transport .probe (.deserted rank)), queue)) := rfl
  rw [hunfold]
  unfold Wanted.serve
  cases hfind : queue.find? (Wanted.accepts { tag }) with
  | none => rfl
  | some message =>
      have hmessage : message.tag = tag := Wanted.accepts_of_tag_iff.1 (List.find?_some hfind)
      simp only [hmessage, htag, and_self, if_true]
      rfl

/-- What is probed is what is received, and no other message is touched. -/
theorem serve_accept {queue : List Message} {message : Message}
    (hfind : queue.find? (Wanted.accepts { tag }) = some message) :
    (accept message.arrival).serve rank size alone queue =
      some (.ok message.envelope, queue.eraseP (Wanted.accepts { tag })) := by
  obtain ⟨rfl, hsource⟩ := find?_source_of_find?_tag hfind
  have hunfold : (accept message.arrival).serve rank size alone queue =
      Wanted.serve ⟨message.tag, some message.source⟩ alone (decide (message.source = rank)) queue
        (fun other => ((Program.done (other.fill message.payload.length)).bind (fun buffer =>
          (log (.received message.source message.tag message.payload.length)).bind (fun _ =>
            pure ⟨message.source, message.tag, buffer.1⟩))).serve rank size alone
          (queue.eraseP (Wanted.accepts ⟨message.tag, some message.source⟩)))
        (some (.error (.transport .receive (.deserted rank)), queue)) := rfl
  have hfill : message.fill message.payload.length = .ok ⟨message.payload, rfl⟩ :=
    dif_pos rfl
  have herase : queue.eraseP (Wanted.accepts ⟨message.tag, some message.source⟩) =
      queue.eraseP (Wanted.accepts { tag := message.tag }) := by
    refine eraseP_eq_of_find? hfind (fun other haccepts => ?_) (List.find?_some hsource)
    exact Wanted.accepts_of_tag_iff.2 (Wanted.accepts_of_source_iff.1 haccepts).2
  rw [hunfold]
  unfold Wanted.serve
  simp only [hsource, hfill, herase]
  rfl

theorem serve_receiveNext (hopen : endpoint.standing = .ok standing)
    (htag : endpoint.tags.contains tag = true) (queue : List Message) :
    (endpoint.receiveNext tag).serve rank size alone queue =
      Wanted.serve { tag } alone (decide (size = 1)) queue
        (fun message => some (.ok message.envelope, queue.eraseP (Wanted.accepts { tag })))
        (some (.error (.transport .probe (.deserted rank)), queue)) := by
  have hunfold : endpoint.receiveNext tag = (endpoint.probe tag).bind accept := by
    unfold receiveNext
    rw [requireTag_of_standing hopen, if_pos htag]
    rfl
  rw [hunfold, serve_probe_bind htag]
  unfold Wanted.serve
  cases hfind : queue.find? (Wanted.accepts { tag }) with
  | none => rfl
  | some message => exact serve_accept hfind

theorem serve_receive (hopen : endpoint.standing = .ok standing)
    (htag : endpoint.tags.contains tag = true) {peer : Nat} (hpeer : peer < standing.size)
    (queue : List Message) : (endpoint.receive peer tag).serve rank size alone queue =
      Wanted.serve { tag } alone (decide (size = 1)) queue
        (fun message => if message.source = peer then
            some (.ok message.envelope, queue.eraseP (Wanted.accepts { tag }))
          else some (.error (.unexpectedPeer (some peer) message.source tag), queue))
        (some (.error (.transport .probe (.deserted rank)), queue)) := by
  have hunfold : endpoint.receive peer tag = (endpoint.probe tag).bind (fun arrival =>
      if arrival.source = peer then accept arrival
      else raise (.unexpectedPeer (some peer) arrival.source tag)) := by
    unfold receive
    rw [requireTag_of_standing hopen, if_pos htag, requireRank_of_standing hopen, if_pos hpeer]
    rfl
  rw [hunfold, serve_probe_bind htag]
  unfold Wanted.serve
  cases hfind : queue.find? (Wanted.accepts { tag }) with
  | none => rfl
  | some message =>
      by_cases hsource : message.source = peer
      · have harrival : message.arrival.source = peer := hsource
        simp only [hsource, harrival, if_true]
        exact serve_accept hfind
      · have harrival : ¬ message.arrival.source = peer := hsource
        simp only [hsource, harrival, if_false]
        rfl

def receiveEach (endpoint : Endpoint) :
    List (Nat × Tag) → Program (List (Except Fault Envelope))
  | [] => return []
  | call :: calls => do
      let outcome ← (endpoint.receive call.1 call.2).attempt
      let outcomes ← endpoint.receiveEach calls
      return outcome :: outcomes

theorem hears_receiveEach (endpoint : Endpoint) (calls : List (Nat × Tag)) :
    (endpoint.receiveEach calls).Hears := by
  induction calls with
  | nil => trivial
  | cons call calls ih =>
      exact Hears.bind (hears_receive endpoint call.1 call.2).attempt
        (fun _ => Hears.bind ih (fun _ => trivial))

/-- A receive has been rejected for the oldest message on its tag. -/
def Rejects (queue : List Message) (call : Nat × Tag) (outcome : Except Fault Envelope) :
    Prop :=
  ∃ message, queue.find? (Wanted.accepts { tag := call.2 }) = some message ∧
    message.source ≠ call.1 ∧
    outcome = .error (.unexpectedPeer (some call.1) message.source call.2)

theorem rejects_of_serve (hopen : endpoint.standing = .ok standing) {peer actual : Nat}
    {expected : Option Nat} {label : Tag} {queue rest : List Message}
    (h : (endpoint.receive peer tag).serve rank size alone queue =
      some (.error (.unexpectedPeer expected actual label), rest)) :
    rest = queue ∧ Rejects queue (peer, tag) (.error (.unexpectedPeer expected actual label)) := by
  by_cases htag : endpoint.tags.contains tag = true
  · by_cases hpeer : peer < standing.size
    · rw [serve_receive hopen htag hpeer] at h
      unfold Wanted.serve at h
      cases hfind : queue.find? (Wanted.accepts { tag }) with
      | none =>
          rw [hfind] at h
          cases alone <;> cases hsize : decide (size = 1) <;> simp_all
      | some message =>
          rw [hfind] at h
          simp only at h
          split at h
          · cases h
          · next hsource =>
              cases h
              exact ⟨rfl, message, hfind, hsource, rfl⟩
    -- What is wrong with the call itself is another fault.
    · unfold receive at h
      rw [requireTag_of_standing hopen, if_pos htag, requireRank_of_standing hopen,
        if_neg hpeer] at h
      cases h
  · unfold receive at h
    rw [requireTag_of_standing hopen, if_neg htag] at h
    cases h

theorem rejects_of_serve_each (hopen : endpoint.standing = .ok standing)
    {calls : List (Nat × Tag)} {outcomes : List (Except Fault Envelope)}
    {queue rest : List Message}
    (h : (endpoint.receiveEach calls).serve rank size alone queue = some (.ok outcomes, rest))
    (hrejected : ∀ outcome ∈ outcomes, ∃ expected actual label,
      outcome = .error (.unexpectedPeer expected actual label)) :
    rest = queue ∧ List.Forall₂ (Rejects queue) calls outcomes := by
  induction calls generalizing outcomes with
  | nil =>
      cases h
      exact ⟨rfl, .nil⟩
  | cons call calls ih =>
      have hunfold : endpoint.receiveEach (call :: calls) =
          (endpoint.receive call.1 call.2).attempt.bind (fun outcome =>
            (endpoint.receiveEach calls).bind (fun outcomes => pure (outcome :: outcomes))) := rfl
      rw [hunfold, serve_bind, serve_attempt] at h
      obtain ⟨first, hfirst, hnext⟩ := Option.bind_eq_some_iff.1 h
      obtain ⟨⟨outcome, middle⟩, hreceive, rfl⟩ := Option.map_eq_some_iff.1 hfirst
      have hothers : ((endpoint.receiveEach calls).bind (fun outcomes =>
          (pure (outcome :: outcomes) : Program _))).serve rank size alone middle =
            some (.ok outcomes, rest) := hnext
      rw [serve_bind] at hothers
      obtain ⟨⟨others, last⟩, hserve, hlast⟩ := Option.bind_eq_some_iff.1 hothers
      cases others with
      | error fault => cases hlast
      | ok others =>
          cases hlast
          obtain ⟨hhead, htail⟩ := List.forall_mem_cons.1 hrejected
          obtain ⟨expected, actual, label, rfl⟩ := hhead
          obtain ⟨rfl, hrejects⟩ := rejects_of_serve hopen hreceive
          obtain ⟨hrest, hothers⟩ := ih hserve htail
          exact ⟨hrest, .cons hrejects hothers⟩

/-- What a receive from a peer does with a queue: it goes by the oldest message on its tag,
takes that if it is of the peer, and else leaves everything where it is. -/
structure Receives (queue : List Message) (peer : Nat) (tag : Tag)
    (result : Except Fault Envelope) (rest : List Message) : Prop where
  succeeds : (∃ envelope, result = .ok envelope) ↔
    ∃ message, queue.find? (Wanted.accepts { tag }) = some message ∧ message.source = peer
  takes : ∀ message, queue.find? (Wanted.accepts { tag }) = some message →
    message.source = peer →
      result = .ok message.envelope ∧ rest = queue.eraseP (Wanted.accepts { tag })
  rejects : ∀ message, queue.find? (Wanted.accepts { tag }) = some message →
    message.source ≠ peer →
      result = .error (.unexpectedPeer (some peer) message.source tag) ∧ rest = queue

theorem receives_of_serve (hopen : endpoint.standing = .ok standing)
    (htag : endpoint.tags.contains tag = true) {peer : Nat} (hpeer : peer < standing.size)
    {queue rest : List Message} {result : Except Fault Envelope}
    (h : (endpoint.receive peer tag).serve rank size alone queue = some (result, rest)) :
    Receives queue peer tag result rest := by
  rw [serve_receive hopen htag hpeer] at h
  unfold Wanted.serve at h
  cases hfind : queue.find? (Wanted.accepts { tag }) with
  | none =>
      rw [hfind] at h
      simp only at h
      split at h
      · cases h
        constructor <;> simp [hfind]
      · cases h
  | some message =>
      rw [hfind] at h
      simp only at h
      split at h
      · next hsource =>
          cases h
          constructor <;> simp [hfind, hsource]
      · next hsource =>
          cases h
          constructor <;> simp [hfind, hsource]

end Endpoint

namespace Program

/-- What a program comes to is a matter of the order on each tag. -/
theorem exists_serve_of_sameOnTags {α : Type} {rank size : Nat} {alone : Bool}
    {program : Program α} {queue queue' rest : List Message} {result : Except Fault α}
    (hsame : SameOnTags queue queue')
    (h : program.serve rank size alone queue = some (result, rest)) :
    ∃ rest', program.serve rank size alone queue' = some (result, rest') := by
  induction program generalizing queue queue' with
  | done =>
      cases h
      exact ⟨queue', rfl⟩
  | act action next ih =>
      cases action with
      | log => exact ih _ hsame h
      | reserve => exact ih _ hsame h
      | spawn => exact ih _ hsame h
      | join => exact ih _ hsame h
      | call request =>
          cases request with
          | probe tag =>
              simp only [serve, Wanted.serve, ← hsame.find?] at h ⊢
              split at h
              · exact ih _ hsame h
              · split at h
                · next hgives =>
                    rw [if_pos hgives]
                    exact ih _ hsame h
                · cases h
          | receive source tag length =>
              simp only [serve, Wanted.serve, ← hsame.find?] at h ⊢
              split at h
              · exact ih _ (hsame.eraseP _) h
              · split at h
                · next hgives =>
                    rw [if_pos hgives]
                    exact ih _ hsame h
                · cases h
          | _ => cases h

end Program

/-- A rank that runs a program while the others rest may come to this result. -/
def Group.MayGive {α : Type} (group : Group) (rank : Nat) (program : Program α)
    (result : Except Fault α) : Prop :=
  ∃ after, (World.assign group [(rank, program)]).Concludes rank result after

namespace World

variable {α : Type} {group after : Group} {rank size : Nat} {alone : Bool} {inbox kept : Inbox}

theorem Regular.seats {world : World α} (h : world.Regular) {member : Member}
    (hmember : world.group.members[rank]? = some member) (hrunning : member.stopped = false) :
    world.group.Seats rank world.group.size (world.group.isAlone rank) member.inbox where
  size := rfl
  others := rfl
  running := by
    unfold Group.isStopped
    rw [hmember]
    exact hrunning
  member := ⟨member, hmember, rfl⟩
  spent := h.spent rank member hmember

/-- With fewer orders of arrival left, no program comes to anything new. -/
theorem mayGive_of_arrives (hseats : group.Seats rank size alone inbox)
    (hseats' : after.Seats rank size alone kept)
    (hkept : ∀ queue, kept.Arrives queue → inbox.Arrives queue) {later : Program α}
    (hlater : later.Hears) {result : Except Fault α} (h : after.MayGive rank later result) :
    group.MayGive rank later result := by
  obtain ⟨last, hconcludes⟩ := h
  obtain ⟨left, -, hserved⟩ := served_of_concludes hseats' hlater hconcludes
  obtain ⟨queue, hqueue, hserve⟩ := hserved _ left.arrives_waiting
  obtain ⟨last', -, hconcludes', -⟩ :=
    concludes_of_served hseats hlater (hkept queue hqueue) hserve
  exact ⟨last', hconcludes'⟩

/-- Where the order on each tag is settled, a program comes to one thing only. -/
theorem eq_of_mayGive (hseats : group.Seats rank size alone inbox)
    (hapart : inbox.Apart (fun _ => True) rank) (hunmixed : Unmixed rank inbox.waiting)
    {later : Program α} (hlater : later.Hears) {result result' : Except Fault α}
    (h : group.MayGive rank later result) (h' : group.MayGive rank later result') :
    result' = result := by
  obtain ⟨last, hconcludes⟩ := h
  obtain ⟨last', hconcludes'⟩ := h'
  obtain ⟨left, -, hserved⟩ := served_of_concludes hseats hlater hconcludes
  obtain ⟨left', -, hserved'⟩ := served_of_concludes hseats hlater hconcludes'
  obtain ⟨queue, hqueue, hserve⟩ := hserved _ left.arrives_waiting
  obtain ⟨queue', hqueue', hserve'⟩ := hserved' _ left'.arrives_waiting
  -- The two runs may have met the messages in different orders, but not on any one tag.
  have hsame : SameOnTags queue queue' :=
    (hqueue.sameOnTags hapart hunmixed).trans
      (fun tag => (hqueue'.sameOnTags hapart hunmixed tag).symm)
  obtain ⟨rest, hagain⟩ := Program.exists_serve_of_sameOnTags hsame hserve
  cases hserve'.symm.trans hagain
  rfl

/-- And there it still comes to that if no message has been taken. -/
theorem mayGive_of_unmixed (hseats : group.Seats rank size alone inbox)
    (hseats' : after.Seats rank size alone kept)
    (hkept : ∀ queue, kept.Arrives queue → inbox.Arrives queue)
    (hapart : inbox.Apart (fun _ => True) rank) (hunmixed : Unmixed rank inbox.waiting)
    {later : Program α} (hlater : later.Hears) {result : Except Fault α}
    (h : group.MayGive rank later result) : after.MayGive rank later result := by
  obtain ⟨last, hconcludes⟩ := h
  obtain ⟨left, -, hserved⟩ := served_of_concludes hseats hlater hconcludes
  obtain ⟨queue, hqueue, hserve⟩ := hserved _ left.arrives_waiting
  have hwaiting := kept.arrives_waiting
  have hsame : SameOnTags queue kept.waiting :=
    (hqueue.sameOnTags hapart hunmixed).trans
      (fun tag => ((hkept _ hwaiting).sameOnTags hapart hunmixed tag).symm)
  obtain ⟨rest, hserve'⟩ := Program.exists_serve_of_sameOnTags hsame hserve
  obtain ⟨last', -, hconcludes', -⟩ := concludes_of_served hseats' hlater hwaiting hserve'
  exact ⟨last', hconcludes'⟩

/-- Receives that are all rejected each name the source of the oldest message on their tag.
Afterwards the same messages may arrive in the orders that are still open, so no program
comes to anything that it could not have come to without them; it comes to the same if no
tag has both messages of the rank to itself and messages of others, and it still ends if
every order brings it to an end.  A receive from a peer succeeds if and only if the oldest
message on its tag is of that peer, and takes that one alone. -/
theorem recoverable_of_rejections {delivery : Delivery} {grants : List Threading}
    {program : Nat → Program α} (hleaves : ∀ rank, (program rank).LeavesLast false)
    {world : World α} (hreaches : (starting (.ofGrants delivery grants) program).Reaches world)
    {member : Member} (hmember : world.group.members[rank]? = some member)
    (hrunning : member.stopped = false) {endpoint : Endpoint} {standing : Standing}
    (hopen : endpoint.standing = .ok standing) :
    (∀ calls outcomes after,
      (assign world.group [(rank, endpoint.receiveEach calls)]).Concludes rank (.ok outcomes)
        after →
      (∀ outcome ∈ outcomes, ∃ expected actual label,
        outcome = .error (.unexpectedPeer expected actual label)) →
      (∃ kept, after.members[rank]?.map Member.inbox = some kept ∧
        ∀ queue, kept.Arrives queue → member.inbox.Arrives queue ∧
          List.Forall₂ (Endpoint.Rejects queue) calls outcomes) ∧
      ∀ (β : Type) (later : Program β), later.Hears →
        (∀ result, after.MayGive rank later result → world.group.MayGive rank later result) ∧
        (Unmixed rank member.inbox.waiting → ∀ result, world.group.MayGive rank later result →
          ∀ result', after.MayGive rank later result' ↔ result' = result) ∧
        ((∀ queue, member.inbox.Arrives queue → (later.serve rank world.group.size
            (world.group.isAlone rank) queue).isSome = true) →
          (assign after [(rank, later)]).Finishes)) ∧
    ∀ peer tag, endpoint.tags.contains tag = true → peer < standing.size →
      (∀ result after,
        (assign world.group [(rank, endpoint.receive peer tag)]).Concludes rank result after →
        ∃ kept, after.members[rank]?.map Member.inbox = some kept ∧
          ∀ rest, kept.Arrives rest → ∃ queue, member.inbox.Arrives queue ∧
            Endpoint.Receives queue peer tag result rest) ∧
      ((∃ message ∈ member.inbox.waiting, message.tag = tag) →
        (assign world.group [(rank, endpoint.receive peer tag)]).Finishes) := by
  have hregular := (regular_starting hleaves).of_reaches hreaches
  have hseats := hregular.seats hmember hrunning
  have hapart := hregular.sorted rank member hmember
  refine ⟨?_, ?_⟩
  · intro calls outcomes after hconcludes hrejected
    obtain ⟨kept, hseats', hserved⟩ :=
      served_of_concludes hseats (Endpoint.hears_receiveEach endpoint calls) hconcludes
    have hkept : ∀ queue, kept.Arrives queue → member.inbox.Arrives queue ∧
        List.Forall₂ (Endpoint.Rejects queue) calls outcomes := by
      intro queue hqueue
      obtain ⟨before, hbefore, hserve⟩ := hserved queue hqueue
      obtain ⟨rfl, hrejects⟩ := Endpoint.rejects_of_serve_each hopen hserve hrejected
      exact ⟨hbefore, hrejects⟩
    have horders := fun queue hqueue => (hkept queue hqueue).1
    refine ⟨⟨kept, hseats'.inbox_eq, hkept⟩, fun β later hlater => ⟨?_, ?_, ?_⟩⟩
    · exact fun result => mayGive_of_arrives hseats hseats' horders hlater
    · intro hunmixed result hresult result'
      constructor
      · intro hresult'
        exact eq_of_mayGive hseats hapart hunmixed hlater hresult
          (mayGive_of_arrives hseats hseats' horders hlater hresult')
      · rintro rfl
        exact mayGive_of_unmixed hseats hseats' horders hapart hunmixed hlater hresult
    · exact fun hall => finishes_of_served hseats' hlater
        (fun queue hqueue => hall queue (horders queue hqueue))
  · intro peer tag htag hpeer
    have hhears := Endpoint.hears_receive endpoint peer tag
    refine ⟨?_, ?_⟩
    · intro result after hconcludes
      obtain ⟨kept, hseats', hserved⟩ := served_of_concludes hseats hhears hconcludes
      refine ⟨kept, hseats'.inbox_eq, fun rest hrest => ?_⟩
      obtain ⟨queue, hqueue, hserve⟩ := hserved rest hrest
      exact ⟨queue, hqueue, Endpoint.receives_of_serve hopen htag hpeer hserve⟩
    · rintro ⟨message, hmessage, hlabel⟩
      refine finishes_of_served hseats hhears (fun queue hqueue => ?_)
      have hfind : (queue.find? (Wanted.accepts { tag })).isSome = true := by
        rw [hqueue.find?_isSome, List.find?_isSome]
        exact ⟨message, hmessage, Wanted.accepts_of_tag_iff.2 hlabel⟩
      obtain ⟨first, hfirst⟩ := Option.isSome_iff_exists.1 hfind
      rw [Endpoint.serve_receive hopen htag hpeer]
      unfold Wanted.serve
      simp only [hfirst]
      split <;> rfl

/-- Two ranks send to rank 0, which also writes itself a note. -/
def twoSenders : Nat → Program Unit
  | 0 => Program.send 0 5 [9]
  | 1 => do
      Program.send 0 1 [1]
      Program.send 0 1 [2]
  | _ => do
      Program.send 0 1 [3]
      Program.send 0 2 [4]

/-- Rank 0 asks in vain for messages of rank 2 on tag 1 and of rank 1 on tag 2, and then
takes the first on tag 1. -/
theorem recoverable_of_twoSenders : ∃ world member outcomes after,
    (starting (.ofGrants .buffered [.multiple, .multiple, .multiple]) twoSenders).Reaches world ∧
    world.group.members[0]? = some member ∧
    (assign world.group [(0, (Endpoint.opened 0 3 .multiple).receiveEach
      [(2, 1), (1, 2), (2, 1)])]).Concludes 0 (.ok outcomes) after ∧
    outcomes = [.error (.unexpectedPeer (some 2) 1 1), .error (.unexpectedPeer (some 1) 2 2),
      .error (.unexpectedPeer (some 2) 1 1)] ∧
    ∀ result, after.MayGive 0 ((Endpoint.opened 0 3 .multiple).receiveNext 1) result ↔
      result = .ok ⟨1, 1, [1]⟩ := by
  let endpoint := Endpoint.opened 0 3 .multiple
  let calls : List (Nat × Tag) := [(2, 1), (1, 2), (2, 1)]
  let sends := [1, 1, 2, 2, 0].map (fun rank => Move.mk rank (.main .remote))
  let asks := Move.mk 0 (.main .loopback) :: List.replicate 10 (Move.mk 0 (.main .remote))
  let takes := List.replicate 6 (Move.mk 0 (.main .remote))
  let member : Member := { inbox := ⟨[⟨1, 1, [1], none⟩, ⟨1, 1, [2], none⟩, ⟨2, 1, [3], none⟩,
    ⟨2, 2, [4], none⟩], [⟨0, 5, [9], none⟩], [], true⟩ }
  let group : Group := { delivery := .buffered, members := [member, {}, {}] }
  have htold : ((starting (.ofGrants .buffered [.multiple, .multiple, .multiple]) twoSenders).follow
      sends).map World.group = some group := rfl
  have hasked : ((assign group [(0, endpoint.receiveEach calls)]).follow asks).bind
      (fun last => last.result? 0) = some (.ok [.error (.unexpectedPeer (some 2) 1 1),
        .error (.unexpectedPeer (some 1) 2 2), .error (.unexpectedPeer (some 2) 1 1)]) := by
    decide +kernel
  have htaken : ((assign group [(0, endpoint.receiveNext 1)]).follow takes).bind
      (fun last => last.result? 0) = some (.ok ⟨1, 1, [1]⟩) := by
    decide +kernel
  obtain ⟨world, hworld, hgroup⟩ := Option.map_eq_some_iff.1 htold
  obtain ⟨last, hlast, hresult⟩ := Option.bind_eq_some_iff.1 hasked
  obtain ⟨last', hlast', hresult'⟩ := Option.bind_eq_some_iff.1 htaken
  have hreaches := reaches_iff_follow.2 ⟨sends, hworld⟩
  have hmember : world.group.members[0]? = some member := by
    rw [hgroup]
    rfl
  have hconcludes : (assign world.group [(0, endpoint.receiveEach calls)]).Concludes 0 (.ok
      [.error (.unexpectedPeer (some 2) 1 1), .error (.unexpectedPeer (some 1) 2 2),
        .error (.unexpectedPeer (some 2) 1 1)]) last.group := by
    rw [hgroup]
    exact ⟨last, reaches_iff_follow.2 ⟨asks, hlast⟩, hresult, rfl⟩
  have hgives : world.group.MayGive 0 (endpoint.receiveNext 1) (.ok ⟨1, 1, [1]⟩) := by
    rw [hgroup]
    exact ⟨last'.group, last', reaches_iff_follow.2 ⟨takes, hlast'⟩, hresult', rfl⟩
  have hsend : ∀ dest tag payload, (Program.send dest tag payload).LeavesLast false := by
    rintro dest tag payload (fault | answer) <;> trivial
  have hleaves : ∀ rank, (twoSenders rank).LeavesLast false := by
    rintro (_ | _ | rank)
    · exact hsend _ _ _
    · exact Program.leavesLast_send (hsend _ _ _)
    · exact Program.leavesLast_send (hsend _ _ _)
  have hunmixed : Unmixed 0 member.inbox.waiting := by
    unfold Unmixed
    decide
  obtain ⟨hrejected, -⟩ := recoverable_of_rejections hleaves hreaches hmember rfl
    (rfl : endpoint.standing = .ok ⟨0, 3, .multiple⟩)
  obtain ⟨-, hlater⟩ := hrejected _ _ _ hconcludes (by simp)
  obtain ⟨-, hsame, -⟩ := hlater _ _ (Endpoint.hears_receiveNext endpoint 1)
  exact ⟨world, member, _, last.group, hreaches, hmember, hconcludes, rfl,
    hsame hunmixed _ hgives⟩

end World

end RankExchange
