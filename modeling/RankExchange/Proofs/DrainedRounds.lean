import RankExchange.Proofs.ExchangeScripts
import RankExchange.Proofs.Rejections

/-!
# What a round takes

A round that sends nothing takes the messages on its tag in their order, for as long as each
is of another rank that it awaits.  It has what it wants when it has one of each; the first
message that does not fit ends it, and stays where it is with all that is behind it.
-/

namespace RankExchange

namespace RankSet

variable {awaited : RankSet} {message : Message} {messages front back : List Message}

/-- Messages of different ranks, all of them awaited. -/
structure Awaits (awaited : RankSet) (messages : List Message) : Prop where
  mem : ∀ message ∈ messages, message.source ∈ awaited
  nodup : (messages.map Message.source).Nodup

/-- The longest part at the front of some messages that is awaited, and the others. -/
structure Parts (awaited : RankSet) (messages front back : List Message) : Prop where
  split : front ++ back = messages
  awaits : awaited.Awaits front
  longest : ∀ longer, longer <+: messages → awaited.Awaits longer → longer <+: front

theorem awaits_nil (awaited : RankSet) : awaited.Awaits [] :=
  ⟨fun _ h => absurd h List.not_mem_nil, .nil⟩

theorem awaits_cons_iff : awaited.Awaits (message :: messages) ↔
    message.source ∈ awaited ∧ (awaited.erase message.source).Awaits messages := by
  constructor
  · rintro ⟨hmem, hnodup⟩
    obtain ⟨hfirst, hrest⟩ := List.forall_mem_cons.1 hmem
    rw [List.map_cons, List.nodup_cons] at hnodup
    refine ⟨hfirst, fun other hother => mem_erase.2 ⟨hrest other hother, fun heq => ?_⟩, hnodup.2⟩
    exact hnodup.1 (List.mem_map.2 ⟨other, hother, heq⟩)
  · rintro ⟨hfirst, hmem, hnodup⟩
    refine ⟨List.forall_mem_cons.2
      ⟨hfirst, fun other hother => (mem_erase.1 (hmem other hother)).1⟩,
      ?_⟩
    rw [List.map_cons, List.nodup_cons]
    refine ⟨fun h => ?_, hnodup⟩
    obtain ⟨other, hother, heq⟩ := List.mem_map.1 h
    exact (mem_erase.1 (hmem other hother)).2 heq

theorem Awaits.length_le (h : awaited.Awaits messages) : messages.length ≤ awaited.size := by
  induction messages generalizing awaited with
  | nil => exact Nat.zero_le _
  | cons message messages ih =>
      obtain ⟨hmem, hrest⟩ := awaits_cons_iff.1 h
      have hle := ih hrest
      have hsize := size_erase hmem
      rw [List.length_cons]
      omega

theorem parts_nil (h : ∀ message ∈ messages.head?, ¬ message.source ∈ awaited) :
    awaited.Parts messages [] messages := by
  refine ⟨rfl, awaits_nil _, fun longer hprefix hawaits => ?_⟩
  cases longer with
  | nil => exact List.nil_prefix
  | cons message longer =>
      obtain ⟨others, rfl⟩ := hprefix
      exact absurd (awaits_cons_iff.1 hawaits).1 (h message rfl)

theorem parts_cons_iff (hmem : message.source ∈ awaited) :
    awaited.Parts (message :: messages) (message :: front) back ↔
      (awaited.erase message.source).Parts messages front back := by
  constructor
  · rintro ⟨hsplit, hawaits, hlongest⟩
    refine ⟨List.cons_injective hsplit, (awaits_cons_iff.1 hawaits).2, fun longer hprefix h => ?_⟩
    have hall := hlongest (message :: longer) (List.prefix_cons_inj message |>.2 hprefix)
      (awaits_cons_iff.2 ⟨hmem, h⟩)
    exact List.prefix_cons_inj message |>.1 hall
  · rintro ⟨hsplit, hawaits, hlongest⟩
    refine ⟨congrArg _ hsplit, awaits_cons_iff.2 ⟨hmem, hawaits⟩, fun longer hprefix h => ?_⟩
    cases longer with
    | nil => exact List.nil_prefix
    | cons other longer =>
        obtain ⟨rfl, hbehind⟩ := List.cons_prefix_cons.1 hprefix
        exact List.cons_prefix_cons.2 ⟨rfl, hlongest longer hbehind (awaits_cons_iff.1 h).2⟩

theorem Parts.of_cons (h : awaited.Parts messages (message :: front) back) :
    ∃ others, messages = message :: others ∧ message.source ∈ awaited ∧
      (awaited.erase message.source).Parts others front back := by
  have hmem := (awaits_cons_iff.1 h.awaits).1
  obtain rfl := h.split
  exact ⟨_, rfl, hmem, (parts_cons_iff hmem).1 h⟩

theorem Parts.of_nil (h : awaited.Parts messages [] back) :
    back = messages ∧ ∀ message ∈ back.head?, ¬ message.source ∈ awaited := by
  obtain rfl := h.split
  refine ⟨rfl, fun message hhead hmem => ?_⟩
  obtain ⟨others, rfl⟩ := List.head?_eq_some_iff.1 hhead
  have hprefix := h.longest [message] (List.cons_prefix_cons.2 ⟨rfl, List.nil_prefix⟩)
    (awaits_cons_iff.2 ⟨hmem, awaits_nil _⟩)
  cases List.prefix_nil.1 hprefix

theorem exists_parts (awaited : RankSet) (messages : List Message) :
    ∃ front back, awaited.Parts messages front back := by
  induction messages generalizing awaited with
  | nil => exact ⟨[], [], parts_nil (fun _ h => nomatch h)⟩
  | cons message messages ih =>
      by_cases hmem : message.source ∈ awaited
      · obtain ⟨front, back, hparts⟩ := ih (awaited.erase message.source)
        exact ⟨message :: front, back, (parts_cons_iff hmem).2 hparts⟩
      · refine ⟨[], _, parts_nil (fun other hother => ?_)⟩
        cases hother
        exact hmem

end RankSet

def RankMap.collect (table : RankMap Envelope) (messages : List Message) : RankMap Envelope :=
  messages.foldl (fun table message => table.insert message.source message.envelope) table

theorem RankMap.find?_collect {awaited : RankSet} {table : RankMap Envelope}
    {messages : List Message} (hawaits : awaited.Awaits messages)
    (hnew : ∀ rank, rank ∈ awaited → table.find? rank = none) (source : Nat)
    (envelope : Envelope) : (collect table messages).find? source = some envelope ↔
      (∃ message ∈ messages, message.source = source ∧ message.envelope = envelope) ∨
        table.find? source = some envelope := by
  induction messages generalizing awaited table with
  | nil => simp [collect]
  | cons message messages ih =>
      obtain ⟨hmem, hrest⟩ := RankSet.awaits_cons_iff.1 hawaits
      have hinsert : ∀ rank, rank ∈ awaited.erase message.source →
          (table.insert message.source message.envelope).find? rank = none := by
        intro rank hrank
        obtain ⟨hrank, hne⟩ := RankSet.mem_erase.1 hrank
        rw [SortedMap.find?_insert, if_neg hne, hnew rank hrank]
      have hcollect : collect table (message :: messages) =
          collect (table.insert message.source message.envelope) messages := rfl
      rw [hcollect, ih hrest hinsert, SortedMap.find?_insert]
      have hnone := hnew _ hmem
      by_cases hsource : source = message.source
      · subst hsource
        simp [hnone, or_comm]
      · simp [hsource, Ne.symm hsource]

section Takes

variable {α : Type} {p q : α → Bool}

theorem find?_of_filter_eq_cons {l rest : List α} {a : α} (h : l.filter p = a :: rest) :
    l.find? p = some a := by
  rw [← List.head?_filter, h]
  rfl

theorem filter_eraseP_of_filter_eq_cons {l rest : List α} {a : α} (h : l.filter p = a :: rest) :
    (l.eraseP p).filter p = rest := by
  rw [filter_eq_cons_of_find? (find?_of_filter_eq_cons h)] at h
  exact List.cons_injective h

theorem filter_iterate_eraseP {l front back : List α} (h : front ++ back = l.filter p) :
    ((List.eraseP p)^[front.length] l).filter p = back := by
  induction front generalizing l with
  | nil => exact h.symm
  | cons a front ih =>
      rw [List.length_cons, Function.iterate_succ_apply]
      exact ih (filter_eraseP_of_filter_eq_cons h.symm).symm

theorem filter_iterate_eraseP_of_disjoint (h : ∀ a, p a = true → q a = false) (count : Nat)
    (l : List α) : ((List.eraseP p)^[count] l).filter q = l.filter q := by
  induction count generalizing l with
  | zero => rfl
  | succ count ih => rw [Function.iterate_succ_apply, ih, filter_eraseP_of_disjoint h]

theorem sublist_iterate_eraseP (p : α → Bool) (count : Nat) (l : List α) :
    ((List.eraseP p)^[count] l).Sublist l := by
  induction count generalizing l with
  | zero => exact .refl _
  | succ count ih =>
      rw [Function.iterate_succ_apply]
      exact (ih _).trans (List.eraseP_sublist ..)

end Takes

namespace Endpoint

open Program

variable {endpoint : Endpoint} {standing : Standing} {tag : Tag} {rank size : Nat}
  {alone : Bool} {peers : RankSet} {queue front back : List Message}

/-- How a round ends that has taken the messages at the front and has this many still to
come: with those, with the first that is left, or with nobody to wait for. -/
def drained (tag : Tag) (rank size : Nat) (alone : Bool) (table : RankMap Envelope) (due : Nat)
    (front back : List Message) : Option (Except Fault (RankMap Envelope)) :=
  if front.length = due then some (.ok (RankMap.collect table front))
  else
    match back with
    | stray :: _ => some (.error (.unexpectedPeer none stray.source tag))
    | [] =>
        if alone && !decide (size = 1) then some (.error (.transport .probe (.deserted rank)))
        else none

theorem drained_cons (message : Message) {table : RankMap Envelope} {due : Nat} :
    drained tag rank size alone table (due + 1) (message :: front) back =
      drained tag rank size alone (table.insert message.source message.envelope) due front
        back := by
  have hcollect : RankMap.collect table (message :: front) =
      RankMap.collect (table.insert message.source message.envelope) front := rfl
  unfold drained
  simp only [List.length_cons, Nat.add_right_cancel_iff, hcollect]

theorem serve_receiveOwed_succ (htag : endpoint.tags.contains tag = true) (due : Nat)
    (awaited : RankSet) (table : RankMap Envelope) (queue : List Message) :
    (endpoint.receiveOwed (due + 1) ⟨tag, awaited⟩ table).serve rank size alone queue =
      Wanted.serve { tag } alone (decide (size = 1)) queue
        (fun message => if message.source ∈ awaited then
            (endpoint.receiveOwed due ⟨tag, awaited.erase message.source⟩
              (table.insert message.source message.envelope)).serve rank size alone
                (queue.eraseP (Wanted.accepts { tag }))
          else some (.error (.unexpectedPeer none message.source tag), queue))
        (some (.error (.transport .probe (.deserted rank)), queue)) := by
  have hunfold : endpoint.receiveOwed (due + 1) ⟨tag, awaited⟩ table =
      (endpoint.probe tag).bind (fun arrival =>
        (liftM (Round.settle ⟨tag, awaited⟩ arrival.source) : Program Round).bind
          (fun round => (accept arrival).bind (fun envelope =>
            endpoint.receiveOwed due round (table.insert envelope.peer envelope)))) := rfl
  rw [hunfold, serve_probe_bind htag]
  unfold Wanted.serve
  cases hfind : queue.find? (Wanted.accepts { tag }) with
  | none => rfl
  | some message =>
      by_cases hmem : message.source ∈ awaited
      · have hsettle : Round.settle ⟨tag, awaited⟩ message.arrival.source =
            .ok ⟨tag, awaited.erase message.source⟩ := Round.settle_of_mem hmem
        simp only [hsettle, hmem, if_true]
        change ((accept message.arrival).bind (fun envelope =>
          endpoint.receiveOwed due ⟨tag, awaited.erase message.source⟩
            (table.insert envelope.peer envelope))).serve rank size alone queue = _
        rw [serve_bind, serve_accept hfind]
        rfl
      · have hsettle : Round.settle ⟨tag, awaited⟩ message.arrival.source =
            .error (.unexpectedPeer none message.source tag) := Round.settle_of_not_mem hmem
        simp only [hsettle, hmem, if_false]
        rfl

theorem serve_receiveOwed (htag : endpoint.tags.contains tag = true) (due : Nat)
    {awaited : RankSet} {table : RankMap Envelope} (hdue : due = awaited.size)
    (hparts : awaited.Parts (queue.filter (Wanted.accepts { tag })) front back) :
    (endpoint.receiveOwed due ⟨tag, awaited⟩ table).serve rank size alone queue =
      (drained tag rank size alone table due front back).map
        (fun result => (result, (List.eraseP (Wanted.accepts { tag }))^[front.length] queue)) := by
  induction due generalizing awaited table queue front with
  | zero =>
      have hlength := hparts.awaits.length_le
      obtain rfl := List.eq_nil_of_length_eq_zero (by omega : front.length = 0)
      rfl
  | succ due ih =>
      rw [serve_receiveOwed_succ htag]
      unfold Wanted.serve
      cases front with
      | nil =>
          -- More is owed, but nothing in front fits.
          obtain ⟨rfl, hstrange⟩ := hparts.of_nil
          rw [← List.head?_filter]
          cases hwaiting : queue.filter (Wanted.accepts { tag }) with
          | nil =>
              have hdrained : drained tag rank size alone table (due + 1) [] [] =
                  if alone && !decide (size = 1) then
                    some (.error (.transport .probe (.deserted rank)))
                  else none := if_neg (Nat.succ_ne_zero due).symm
              rw [hdrained]
              cases alone && !decide (size = 1) <;> rfl
          | cons stray others =>
              have hdrained : drained tag rank size alone table (due + 1) [] (stray :: others) =
                  some (.error (.unexpectedPeer none stray.source tag)) :=
                if_neg (Nat.succ_ne_zero due).symm
              rw [hwaiting] at hstrange
              rw [hdrained]
              exact if_neg (hstrange stray rfl)
      | cons message front =>
          obtain ⟨others, hwaiting, hmem, hrest⟩ := hparts.of_cons
          have hsize := RankSet.size_erase hmem
          rw [← filter_eraseP_of_filter_eq_cons hwaiting] at hrest
          rw [find?_of_filter_eq_cons hwaiting, drained_cons, List.length_cons,
            Function.iterate_succ_apply, ← ih (by omega) hrest]
          exact if_pos hmem

theorem serve_receiveAll (htag : endpoint.tags.contains tag = true)
    (hparts : peers.Parts (queue.filter (Wanted.accepts { tag })) front back) :
    (endpoint.receiveAll ⟨tag, peers⟩).serve rank size alone queue =
      (drained tag rank size alone .empty peers.size front back).map
        (fun result => (result, (List.eraseP (Wanted.accepts { tag }))^[front.length] queue)) :=
  serve_receiveOwed htag peers.size rfl hparts

theorem hears_receiveOwed (endpoint : Endpoint) (due : Nat) (round : Round)
    (table : RankMap Envelope) : (endpoint.receiveOwed due round table).Hears := by
  induction due generalizing round table with
  | zero => trivial
  | succ due ih =>
      exact Hears.bind (hears_probe _ _) (fun _ => Hears.bind (hears_lift _)
        (fun round => Hears.bind (hears_accept _) (fun _ => ih round _)))

theorem exchange_empty_eq (hopen : endpoint.standing = .ok standing)
    (htag : endpoint.tags.contains tag = true) (hpeers : ∀ peer ∈ peers, peer < standing.size) :
    endpoint.exchange peers tag .empty =
      (if standing.granted = .multiple then endpoint.exchangeBeside ⟨tag, peers⟩ []
      else endpoint.exchangeInTurn ⟨tag, peers⟩ []).bind (fun received =>
        (log (.roundComplete tag received.size)).bind (fun _ => pure received)) := by
  rw [exchange_eq hopen htag]
  · rfl
  · intro peer hpeer
    rcases List.mem_append.1 hpeer with hpeer | hpeer
    · exact hpeers peer hpeer
    · cases hpeer

theorem exchangeBeside_nil (endpoint : Endpoint) (round : Round) :
    endpoint.exchangeBeside round [] = (Program.spawn []).bind (fun _ =>
      (endpoint.receiveAll round).attempt.bind (fun received =>
        Program.join.attempt.bind (fun sent => liftM (settled sent received)))) := rfl

theorem hears_exchange_empty (hopen : endpoint.standing = .ok standing)
    (htag : endpoint.tags.contains tag = true) (hpeers : ∀ peer ∈ peers, peer < standing.size) :
    (endpoint.exchange peers tag .empty).Hears := by
  have hreceives := hears_receiveOwed endpoint peers.size ⟨tag, peers⟩ .empty
  rw [exchange_empty_eq hopen htag hpeers]
  refine Hears.bind ?_ (fun _ => ⟨trivial, fun _ => trivial⟩)
  split
  · rw [exchangeBeside_nil]
    refine Hears.bind ⟨rfl, fun _ => trivial⟩ (fun _ => Hears.bind hreceives.attempt (fun _ => ?_))
    exact Hears.bind (Hears.attempt ⟨trivial, fun _ => trivial⟩) (fun _ => hears_lift _)
  · exact hreceives

/-- A round that sends nothing comes to what its receives come to. -/
theorem serve_exchange_empty (hopen : endpoint.standing = .ok standing)
    (htag : endpoint.tags.contains tag = true) (hpeers : ∀ peer ∈ peers, peer < standing.size)
    (queue : List Message) : (endpoint.exchange peers tag .empty).serve rank size alone queue =
      (endpoint.receiveAll ⟨tag, peers⟩).serve rank size alone queue := by
  have hround : (if standing.granted = .multiple then endpoint.exchangeBeside ⟨tag, peers⟩ []
      else endpoint.exchangeInTurn ⟨tag, peers⟩ []).serve rank size alone queue =
        (endpoint.receiveAll ⟨tag, peers⟩).serve rank size alone queue := by
    split
    · have hspawn : (endpoint.exchangeBeside ⟨tag, peers⟩ []).serve rank size alone queue =
          ((endpoint.receiveAll ⟨tag, peers⟩).attempt.bind (fun received =>
            Program.join.attempt.bind (fun sent => liftM (settled sent received)))).serve rank
              size alone queue := rfl
      have hjoin : ∀ received rest, (Program.join.attempt.bind (fun sent =>
          (liftM (settled sent received) : Program (RankMap Envelope)))).serve rank size alone
            rest = some (received, rest) := by
        intro received rest
        have hsettled : (Program.join.attempt.bind (fun sent =>
            (liftM (settled sent received) : Program (RankMap Envelope)))).serve rank size alone
              rest = some (settled (.ok ()) received, rest) := rfl
        rwa [settled_ok] at hsettled
      rw [hspawn, serve_bind, serve_attempt]
      cases (endpoint.receiveAll ⟨tag, peers⟩).serve rank size alone queue with
      | none => rfl
      | some served => exact hjoin served.1 served.2
    · rfl
  rw [exchange_empty_eq hopen htag hpeers, serve_bind, hround]
  cases (endpoint.receiveAll ⟨tag, peers⟩).serve rank size alone queue with
  | none => rfl
  | some served =>
      obtain ⟨received, rest⟩ := served
      cases received <;> rfl

/-- What a round that sends nothing does with a queue.  Of the messages on its tag it takes
the longest part at the front that is of different peers, and nothing else.  If that is a
message of each peer, it gives them by their sources; otherwise it names the source of the
next message, and if there is none, it was left alone. -/
structure Drains (rank : Nat) (peers : RankSet) (tag : Tag) (queue front back : List Message)
    (result : Except Fault (RankMap Envelope)) (rest : List Message) : Prop where
  parts : peers.Parts (queue.filter (Wanted.accepts { tag })) front back
  bounded : front.length ≤ peers.size
  completes : front.length = peers.size → ∃ table, result = .ok table ∧
    ∀ source envelope, table.find? source = some envelope ↔
      ∃ message ∈ front, message.source = source ∧ message.envelope = envelope
  rejects : ∀ stray others, front.length ≠ peers.size → back = stray :: others →
    result = .error (.unexpectedPeer none stray.source tag)
  deserts : front.length ≠ peers.size → back = [] →
    result = .error (.transport .probe (.deserted rank))
  leaves : rest.filter (Wanted.accepts { tag }) = back
  spares : rest.filter (fun message => !Wanted.accepts { tag } message) =
    queue.filter (fun message => !Wanted.accepts { tag } message)
  sublist : rest.Sublist queue

theorem drains_of_serve (htag : endpoint.tags.contains tag = true)
    {result : Except Fault (RankMap Envelope)} {rest : List Message}
    (h : (endpoint.receiveAll ⟨tag, peers⟩).serve rank size alone queue = some (result, rest)) :
    ∃ front back, Drains rank peers tag queue front back result rest := by
  obtain ⟨front, back, hparts⟩ := peers.exists_parts (queue.filter (Wanted.accepts { tag }))
  rw [serve_receiveAll htag hparts] at h
  obtain ⟨_, hdrained, heq⟩ := Option.map_eq_some_iff.1 h
  cases heq
  unfold drained at hdrained
  refine ⟨front, back, hparts, hparts.awaits.length_le, ?_, ?_, ?_, ?_, ?_, ?_⟩
  · intro hall
    rw [if_pos hall] at hdrained
    cases hdrained
    refine ⟨_, rfl, fun source envelope => ?_⟩
    rw [RankMap.find?_collect hparts.awaits (fun _ _ => rfl), SortedMap.find?_empty]
    simp
  · rintro stray others hshort rfl
    rw [if_neg hshort] at hdrained
    cases hdrained
    rfl
  · rintro hshort rfl
    rw [if_neg hshort] at hdrained
    simp only at hdrained
    split at hdrained
    · cases hdrained
      rfl
    · cases hdrained
  · exact filter_iterate_eraseP hparts.split
  · exact filter_iterate_eraseP_of_disjoint (fun message haccepts => by rw [haccepts]; rfl) _ _
  · exact sublist_iterate_eraseP _ _ _

def receiveRun (endpoint : Endpoint) (label : Tag) : Nat → Program (List Envelope)
  | 0 => return []
  | count + 1 => do
      let envelope ← endpoint.receiveNext label
      let envelopes ← endpoint.receiveRun label count
      return envelope :: envelopes

theorem hears_receiveRun (endpoint : Endpoint) (label : Tag) (count : Nat) :
    (endpoint.receiveRun label count).Hears := by
  induction count with
  | zero => trivial
  | succ count ih =>
      exact Hears.bind (hears_receiveNext endpoint label)
        (fun _ => Hears.bind ih (fun _ => trivial))

/-- As many receives on a tag as there are messages take them all, in their order. -/
theorem serve_receiveRun (hopen : endpoint.standing = .ok standing) {label : Tag}
    (hlabel : endpoint.tags.contains label = true) {messages : List Message}
    (h : queue.filter (Wanted.accepts { tag := label }) = messages) :
    ∃ rest, (endpoint.receiveRun label messages.length).serve rank size alone queue =
      some (.ok (messages.map Message.envelope), rest) := by
  induction messages generalizing queue with
  | nil => exact ⟨queue, rfl⟩
  | cons message messages ih =>
      obtain ⟨rest, hrest⟩ := ih (filter_eraseP_of_filter_eq_cons h)
      refine ⟨rest, ?_⟩
      have hunfold : endpoint.receiveRun label (messages.length + 1) =
          (endpoint.receiveNext label).bind (fun envelope =>
            (endpoint.receiveRun label messages.length).bind (fun envelopes =>
              pure (envelope :: envelopes))) := rfl
      have hfirst : (endpoint.receiveNext label).serve rank size alone queue =
          some (.ok message.envelope, queue.eraseP (Wanted.accepts { tag := label })) := by
        rw [serve_receiveNext hopen hlabel]
        unfold Wanted.serve
        rw [find?_of_filter_eq_cons h]
      rw [List.length_cons, hunfold, serve_bind, hfirst]
      change ((endpoint.receiveRun label messages.length).bind (fun envelopes =>
        (pure (message.envelope :: envelopes) : Program _))).serve rank size alone _ = _
      rw [serve_bind, hrest]
      rfl

end Endpoint

namespace World

variable {α : Type} {rank : Nat}

/-- A round that sends nothing takes the longest part at the front of the messages on its
tag that is of different peers.  It gives them if that is one of each peer, and names the
source of the next message if it is not; all other messages stay in their order, and on each
tag can be received afterwards.  It ends if, in whatever order the messages arrive, there is
one of each peer in front or one that does not fit. -/
theorem drains_of_exchange {delivery : Delivery} {grants : List Threading}
    {program : Nat → Program α} (hleaves : ∀ rank, (program rank).LeavesLast false)
    {world : World α} (hreaches : (starting (.ofGrants delivery grants) program).Reaches world)
    {member : Member} (hmember : world.group.members[rank]? = some member)
    (hrunning : member.stopped = false) {endpoint : Endpoint} {standing : Standing}
    (hopen : endpoint.standing = .ok standing) {tag : Tag}
    (htag : endpoint.tags.contains tag = true) {peers : RankSet}
    (hpeers : ∀ peer ∈ peers, peer < standing.size) :
    (∀ result after,
      (assign world.group [(rank, endpoint.exchange peers tag .empty)]).Concludes rank result
        after →
      ∃ kept, after.members[rank]?.map Member.inbox = some kept ∧
        (∀ rest, kept.Arrives rest → ∃ queue front back, member.inbox.Arrives queue ∧
          Endpoint.Drains rank peers tag queue front back result rest) ∧
        ∀ label count, endpoint.tags.contains label = true →
          (kept.waiting.filter (Wanted.accepts { tag := label })).length = count →
          (assign after [(rank, endpoint.receiveRun label count)]).Finishes ∧
            ∀ outcome last,
              (assign after [(rank, endpoint.receiveRun label count)]).Concludes rank outcome
                last →
              ∃ rest, kept.Arrives rest ∧ outcome = .ok
                ((rest.filter (Wanted.accepts { tag := label })).map Message.envelope)) ∧
    ((∀ queue, member.inbox.Arrives queue → ∀ front back,
        peers.Parts (queue.filter (Wanted.accepts { tag })) front back →
          front.length = peers.size ∨ back ≠ []) →
      (assign world.group [(rank, endpoint.exchange peers tag .empty)]).Finishes) := by
  have hseats := ((regular_starting hleaves).of_reaches hreaches).seats hmember hrunning
  have hhears := Endpoint.hears_exchange_empty hopen htag hpeers
  refine ⟨?_, ?_⟩
  · intro result after hconcludes
    obtain ⟨kept, hseats', hserved⟩ := served_of_concludes hseats hhears hconcludes
    refine ⟨kept, hseats'.inbox_eq, fun rest hrest => ?_, fun label count hlabel hcount => ?_⟩
    · obtain ⟨queue, hqueue, hserve⟩ := hserved rest hrest
      rw [Endpoint.serve_exchange_empty hopen htag hpeers] at hserve
      obtain ⟨front, back, hdrains⟩ := Endpoint.drains_of_serve htag hserve
      exact ⟨queue, front, back, hqueue, hdrains⟩
    · -- What is left waits to be received, in whatever order it arrives.
      have hreceives := Endpoint.hears_receiveRun endpoint label count
      have hrun : ∀ rest, kept.Arrives rest → ∃ left,
          (endpoint.receiveRun label count).serve rank world.group.size
            (world.group.isAlone rank) rest =
              some (.ok ((rest.filter (Wanted.accepts { tag := label })).map Message.envelope),
                left) := by
        intro rest hrest
        have hlength : (rest.filter (Wanted.accepts { tag := label })).length = count :=
          (hrest.perm.filter _).length_eq.trans hcount
        rw [← hlength]
        exact Endpoint.serve_receiveRun hopen hlabel rfl
      refine ⟨finishes_of_served hseats' hreceives (fun rest hrest => ?_), ?_⟩
      · obtain ⟨left, hleft⟩ := hrun rest hrest
        rw [hleft]
        rfl
      · intro outcome last houtcome
        obtain ⟨final, -, hserved'⟩ := served_of_concludes hseats' hreceives houtcome
        obtain ⟨rest, hrest, hserve⟩ := hserved' _ final.arrives_waiting
        obtain ⟨left, hleft⟩ := hrun rest hrest
        cases hserve.symm.trans hleft
        exact ⟨rest, hrest, rfl⟩
  · intro hdecided
    refine finishes_of_served hseats hhears (fun queue hqueue => ?_)
    obtain ⟨front, back, hparts⟩ := peers.exists_parts (queue.filter (Wanted.accepts { tag }))
    rw [Endpoint.serve_exchange_empty hopen htag hpeers, Endpoint.serve_receiveAll htag hparts,
      Option.isSome_map]
    unfold Endpoint.drained
    rcases hdecided queue hqueue front back hparts with hall | hmore
    · rw [if_pos hall]
      rfl
    · split
      · rfl
      · obtain ⟨stray, others, rfl⟩ := List.exists_cons_of_ne_nil hmore
        rfl

/-- Rank 1 is a round ahead of rank 3. -/
def repeatedSender : Nat → Program Unit
  | 0 => return
  | 1 => do
      Program.send 0 1 [1]
      Program.send 0 1 [3]
  | 2 => do
      Program.send 0 2 [9]
      Program.send 0 1 [2]
  | _ => Program.send 0 1 [4]

/-- The second message of rank 1 ends the round of rank 0, and can still be received, before
that of rank 3. -/
theorem drains_of_repeatedSender : ∃ world member after,
    (starting (.ofGrants .buffered (List.replicate 4 .multiple)) repeatedSender).Reaches world ∧
    world.group.members[0]? = some member ∧
    (assign world.group [(0, (Endpoint.opened 0 4 .multiple).exchange ⟨[1, 2, 3], by decide⟩ 1
      .empty)]).Concludes 0 (.error (.unexpectedPeer none 1 1)) after ∧
    (∃ kept, after.members[0]?.map Member.inbox = some kept ∧ ∀ rest, kept.Arrives rest →
      ∃ queue front back, member.inbox.Arrives queue ∧ Endpoint.Drains 0 ⟨[1, 2, 3], by decide⟩ 1
        queue front back (.error (.unexpectedPeer none 1 1)) rest) ∧
    (assign after [(0, (Endpoint.opened 0 4 .multiple).receiveRun 1 2)]).Finishes ∧
    ∀ outcome last,
      (assign after [(0, (Endpoint.opened 0 4 .multiple).receiveRun 1 2)]).Concludes 0 outcome
        last → outcome = .ok [⟨1, 1, [3]⟩, ⟨3, 1, [4]⟩] := by
  let endpoint := Endpoint.opened 0 4 .multiple
  let peers : RankSet := ⟨[1, 2, 3], by decide⟩
  let sends := [1, 2, 2, 1, 3].map (fun rank => Move.mk rank (.main .remote))
  let takes := List.replicate 18 (Move.mk 0 (.main .remote))
  let member : Member := { inbox := ⟨[⟨1, 1, [1], none⟩, ⟨2, 2, [9], none⟩, ⟨2, 1, [2], none⟩,
    ⟨1, 1, [3], none⟩, ⟨3, 1, [4], none⟩], [], [], true⟩ }
  let group : Group := { delivery := .buffered, members := [member, {}, {}, {}] }
  let left : Inbox := ⟨[⟨3, 1, [4], none⟩], [], [⟨2, 2, [9], none⟩, ⟨1, 1, [3], none⟩], true⟩
  have hsent : ((starting (.ofGrants .buffered (List.replicate 4 .multiple)) repeatedSender).follow
      sends).map World.group = some group := rfl
  have htaken : ((assign group [(0, endpoint.exchange peers 1 .empty)]).follow takes).map
      (fun last => ((last.result? 0).map (Except.map SortedMap.entries),
        last.group.members[0]?.map Member.inbox)) =
        some (some (.error (.unexpectedPeer none 1 1)), some left) := by
    decide +kernel
  obtain ⟨world, hworld, hgroup⟩ := Option.map_eq_some_iff.1 hsent
  obtain ⟨last, hlast, heq⟩ := Option.map_eq_some_iff.1 htaken
  obtain ⟨hentries, hleft⟩ := Prod.mk.inj heq
  have hresult : last.result? 0 = some (.error (.unexpectedPeer none 1 1)) := by
    obtain ⟨result, hresult, hfault⟩ := Option.map_eq_some_iff.1 hentries
    cases result with
    | ok table => cases hfault
    | error fault =>
        cases hfault
        exact hresult
  have hmember : world.group.members[0]? = some member := by
    rw [hgroup]
    rfl
  have hconcludes : (assign world.group [(0, endpoint.exchange peers 1 .empty)]).Concludes 0
      (.error (.unexpectedPeer none 1 1)) last.group := by
    rw [hgroup]
    exact ⟨last, reaches_iff_follow.2 ⟨takes, hlast⟩, hresult, rfl⟩
  have hsend : ∀ dest tag payload, (Program.send dest tag payload).LeavesLast false := by
    rintro dest tag payload (fault | answer) <;> trivial
  have hleaves : ∀ rank, (repeatedSender rank).LeavesLast false := by
    rintro (_ | _ | _ | rank)
    · trivial
    · exact Program.leavesLast_send (hsend _ _ _)
    · exact Program.leavesLast_send (hsend _ _ _)
    · exact hsend _ _ _
  have hreaches := reaches_iff_follow.2 ⟨sends, hworld⟩
  obtain ⟨hdrains, -⟩ := drains_of_exchange hleaves hreaches hmember rfl
    (rfl : endpoint.standing = .ok ⟨0, 4, .multiple⟩) (by decide : endpoint.tags.contains 1 = true)
    (by decide : ∀ peer ∈ peers.ranks, peer < 4)
  obtain ⟨kept, hkept, hserved, hreceived⟩ := hdrains _ _ hconcludes
  obtain rfl : left = kept := Option.some.inj (hleft.symm.trans hkept)
  obtain ⟨hfinishes, houtcome⟩ := hreceived 1 2 (by decide) rfl
  refine ⟨world, member, last.group, hreaches, hmember, hconcludes, ⟨left, hkept, hserved⟩,
    hfinishes, fun outcome final hfinal => ?_⟩
  obtain ⟨rest, ⟨coming, hcoming, rfl⟩, rfl⟩ := houtcome outcome final hfinal
  rw [hcoming.eq_left]
  rfl

end World

end RankExchange
