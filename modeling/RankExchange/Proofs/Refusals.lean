import RankExchange.Proofs.Services
import RankExchange.Transport.Basic

/-!
# Refusals

What a service is refused for before the transport hears of it: a session that is
not open, a tag outside the space, a rank outside the group, a value without an
encoding.  `Endpoint.check` says which of them counts when there are several.
-/

namespace RankExchange

structure RankSet.LeastOutside (set : RankSet) (size rank : Nat) : Prop where
  mem : rank ∈ set
  outside : size ≤ rank
  least : ∀ other ∈ set, size ≤ other → rank ≤ other

namespace RankSet

variable {set : RankSet} {size rank : Nat}

theorem leastOutside_of_find? (h : set.ranks.find? (fun rank => size ≤ rank) = some rank) :
    set.LeastOutside size rank := by
  obtain ⟨houtside, front, back, hranks, hfront⟩ := List.find?_eq_some_iff_append.1 h
  have hascending := set.ascending
  rw [hranks] at hascending
  refine ⟨?_, of_decide_eq_true houtside, fun other hother hsize => ?_⟩
  · rw [mem_def, hranks]
    simp
  · rw [mem_def, hranks] at hother
    rcases List.mem_append.1 hother with hother | hother
    · have hinside := hfront other hother
      simp only [Bool.not_eq_true', decide_eq_false_iff_not] at hinside
      exact absurd hsize hinside
    · rcases List.mem_cons.1 hother with rfl | hother
      · exact Nat.le_refl other
      · exact Nat.le_of_lt ((List.pairwise_cons.1 (List.pairwise_append.1 hascending).2.1).1
          other hother)

theorem le_of_single {peer : Nat} (h : rank ∈ empty.insert peer ∨ rank ∈ empty)
    (houtside : size ≤ rank) : size ≤ peer := by
  simp only [mem_insert, not_mem_empty, or_false] at h
  rw [← h]
  exact houtside

theorem leastOutside_single (h : size ≤ rank) : (empty.insert rank).LeastOutside size rank := by
  refine ⟨mem_insert.2 (.inl rfl), h, fun other hother _ => ?_⟩
  rcases mem_insert.1 hother with rfl | hother
  · exact Nat.le_refl other
  · exact absurd hother not_mem_empty

end RankSet

def Coder.miscoding? {α : Type} (coder : Coder α) (value : α) : Option Fault :=
  match coder.encode value with
  | .ok _ => none
  | .error fault => some fault

namespace Service

variable {Kind : Type} {Value : Kind → Type}

/-- Whether a service is a matter of this rank and its peers only, with bytes that are
not looked at. -/
def isDirect : Service Value → Bool
  | .send _ _ _ => true
  | .receive _ _ => true
  | .receiveNext _ => true
  | .exchange _ _ _ => true
  | _ => false

def root? : Service Value → Option Nat
  | .broadcast root _ _ => some root
  | .gather root _ _ => some root
  | _ => none

/-- What is wrong with a value that is encoded before anything else is looked at. -/
def miscoding? : Service Value → Option Fault
  | .reduce _ _ _ coder value _ => coder.miscoding? value
  | .allReduce _ _ coder value _ => coder.miscoding? value
  | _ => none

/-- The rank that a service is blamed for: a peer, and only if all the peers are in the
group, a recipient. -/
def Blames (service : Service Value) (size rank : Nat) : Prop :=
  service.peers.LeastOutside size rank ∨
    (∀ peer ∈ service.peers, peer < size) ∧ service.recipients.LeastOutside size rank

/-- The fault of an open endpoint fits what is wrong with a service. -/
structure Charges (service : Service Value) (tags : TagSpace) (size : Nat) (fault : Fault) :
    Prop where
  tag : service.isDirect = true → tags.contains service.tag = false →
    fault = .outsideTagSpace service.tag tags
  rank : service.isDirect = true → tags.contains service.tag = true →
    ∃ rank, fault = .outsideGroup rank size ∧ service.Blames size rank
  root : ∀ root, service.root? = some root → size ≤ root → fault = .outsideGroup root size

end Service

theorem bind_eq_error_iff {ε α β : Type} {first : Except ε α} {next : α → Except ε β}
    {fault : ε} : first >>= next = .error fault ↔
      first = .error fault ∨ ∃ value, first = .ok value ∧ next value = .error fault := by
  cases first with
  | error other => simp [bind, Except.bind]
  | ok value => simp [bind, Except.bind]

namespace Endpoint

variable {Kind : Type} {Value : Kind → Type} {endpoint : Endpoint} {standing : Standing}
  {fault : Fault}

/-- All that is looked at before the first call, in its order. -/
def check (endpoint : Endpoint) : Service Value → Except Fault Unit
  | .send peer tag _ => do
      endpoint.requireTag tag
      endpoint.requireRank peer
  | .sendValue _ peer tag coder value => do
      endpoint.requireTag tag
      let _ ← coder.encode value
      endpoint.requireRank peer
  | .receive peer tag => do
      endpoint.requireTag tag
      endpoint.requireRank peer
  | .receiveNext tag => endpoint.requireTag tag
  | .exchange peers tag outgoing => do
      endpoint.requireTag tag
      endpoint.requireRanks (peers.ranks ++ outgoing.keys.ranks)
  | .broadcast root tag _ => do
      endpoint.requireRank root
      endpoint.requireTag tag
  | .gather root tag _ => do
      endpoint.requireRank root
      endpoint.requireTag tag
  | .reduce _ root tag coder value _ => do
      let _ ← coder.encode value
      endpoint.requireRank root
      endpoint.requireTag tag
  | .allReduce _ tag coder value _ => do
      let _ ← coder.encode value
      endpoint.requireRank 0
      endpoint.requireTag tag

theorem exists_standing_of_requireRank {rank : Nat} (h : endpoint.requireRank rank = .ok ()) :
    ∃ standing, endpoint.standing = .ok standing := by
  unfold requireRank at h
  cases hstanding : endpoint.standing with
  | ok standing => exact ⟨standing, rfl⟩
  | error fault =>
      rw [hstanding] at h
      cases h

section Tags

variable {tag : Tag} (h : endpoint.requireTag tag = .error fault)

include h

theorem send_of_requireTag (peer : Nat) (payload : Bytes) :
    endpoint.send peer tag payload = .raise fault := by
  simp only [send, h]
  rfl

theorem receive_of_requireTag (peer : Nat) : endpoint.receive peer tag = .raise fault := by
  simp only [receive, h]
  rfl

theorem exchange_of_requireTag (peers : RankSet) (outgoing : RankMap Bytes) :
    endpoint.exchange peers tag outgoing = .raise fault := by
  simp only [exchange, h]
  rfl

theorem broadcast_of_requireTag {root : Nat} (hroot : endpoint.requireRank root = .ok ())
    (payload : Bytes) : endpoint.broadcast root tag payload = .raise fault := by
  obtain ⟨standing, hstanding⟩ := exists_standing_of_requireRank hroot
  simp only [broadcast, others, hroot, hstanding, exchange_of_requireTag h,
    receive_of_requireTag h]
  change (if standing.rank = root then Program.raise fault else Program.raise fault) = _
  rw [ite_self]

theorem gather_of_requireTag {root : Nat} (hroot : endpoint.requireRank root = .ok ())
    (payload : Bytes) : endpoint.gather root tag payload = .raise fault := by
  obtain ⟨standing, hstanding⟩ := exists_standing_of_requireRank hroot
  simp only [gather, others, hroot, hstanding, exchange_of_requireTag h]
  change (if standing.rank = root then Program.raise fault else Program.raise fault) = _
  rw [ite_self]

end Tags

theorem broadcast_of_requireRank {root : Nat} (h : endpoint.requireRank root = .error fault)
    (tag : Tag) (payload : Bytes) : endpoint.broadcast root tag payload = .raise fault := by
  simp only [broadcast, h]
  rfl

theorem gather_of_requireRank {root : Nat} (h : endpoint.requireRank root = .error fault)
    (tag : Tag) (payload : Bytes) : endpoint.gather root tag payload = .raise fault := by
  simp only [gather, h]
  rfl

theorem broadcast_of_check {root : Nat} {tag : Tag}
    (h : (do endpoint.requireRank root; endpoint.requireTag tag) = .error fault)
    (payload : Bytes) : endpoint.broadcast root tag payload = .raise fault := by
  rcases bind_eq_error_iff.1 h with hroot | ⟨_, hroot, htag⟩
  · exact broadcast_of_requireRank hroot tag payload
  · exact broadcast_of_requireTag htag hroot payload

theorem gather_of_check {root : Nat} {tag : Tag}
    (h : (do endpoint.requireRank root; endpoint.requireTag tag) = .error fault)
    (payload : Bytes) : endpoint.gather root tag payload = .raise fault := by
  rcases bind_eq_error_iff.1 h with hroot | ⟨_, hroot, htag⟩
  · exact gather_of_requireRank hroot tag payload
  · exact gather_of_requireTag htag hroot payload

theorem reduce_of_check {α : Type} {root : Nat} {tag : Tag} {coder : Coder α} {value : α}
    (h : (do
      let _ ← coder.encode value
      endpoint.requireRank root
      endpoint.requireTag tag) = .error fault)
    (fold : α → α → α) : endpoint.reduce root tag coder value fold = .raise fault := by
  rcases bind_eq_error_iff.1 h with hencode | ⟨payload, hencode, hchecks⟩
  · simp only [reduce, hencode]
    rfl
  · simp only [reduce, hencode]
    change (endpoint.gather root tag payload >>= _) = _
    rw [gather_of_check hchecks payload]
    rfl

/-- What fails its check comes to nothing but the fault. -/
theorem provide_of_check {service : Service Value} (h : endpoint.check service = .error fault) :
    endpoint.provide service = .raise fault := by
  cases service with
  | send peer tag payload =>
      rcases bind_eq_error_iff.1 h with htag | ⟨_, htag, hrank⟩
      · exact send_of_requireTag htag peer payload
      · simp only [provide, send, htag, hrank]
        rfl
  | sendValue kind peer tag coder value =>
      rcases bind_eq_error_iff.1 h with htag | ⟨_, htag, h⟩
      · simp only [provide, sendValue, htag]
        rfl
      · rcases bind_eq_error_iff.1 h with hencode | ⟨payload, hencode, hrank⟩
        · simp only [provide, sendValue, htag, hencode]
          rfl
        · simp only [provide, sendValue, send, htag, hencode, hrank]
          rfl
  | receive peer tag =>
      rcases bind_eq_error_iff.1 h with htag | ⟨_, htag, hrank⟩
      · exact receive_of_requireTag htag peer
      · simp only [provide, receive, htag, hrank]
        rfl
  | receiveNext tag =>
      simp only [check] at h
      simp only [provide, receiveNext, h]
      rfl
  | exchange peers tag outgoing =>
      rcases bind_eq_error_iff.1 h with htag | ⟨_, htag, hranks⟩
      · exact exchange_of_requireTag htag peers outgoing
      · simp only [provide, exchange, htag, hranks]
        rfl
  | broadcast root tag payload => exact broadcast_of_check h payload
  | gather root tag payload => exact gather_of_check h payload
  | reduce kind root tag coder value fold => exact reduce_of_check h fold
  | allReduce kind tag coder value fold =>
      simp only [provide, allReduce, reduce_of_check h fold]
      rfl

/-- On a session that is not open, only a value without an encoding is looked at. -/
theorem check_of_standing (h : endpoint.standing = .error fault) (service : Service Value) :
    endpoint.check service = .error (service.miscoding?.getD fault) := by
  have htag : ∀ tag, endpoint.requireTag tag = .error fault := by
    intro tag
    simp only [requireTag, h]
    rfl
  have hrank : ∀ rank, endpoint.requireRank rank = .error fault := by
    intro rank
    simp only [requireRank, h]
    rfl
  have hcoder : ∀ {α : Type} (coder : Coder α) (value : α) (rest : Except Fault Unit),
      rest = .error fault → (do
        let _ ← coder.encode value
        rest) = .error ((coder.miscoding? value).getD fault) := by
    intro α coder value rest hrest
    cases hencode : coder.encode value <;>
      simp [Coder.miscoding?, hencode, hrest, bind, Except.bind]
  cases service with
  | reduce kind root tag coder value fold =>
      exact hcoder coder value _ (by rw [hrank]; rfl)
  | allReduce kind tag coder value fold =>
      exact hcoder coder value _ (by rw [hrank]; rfl)
  | broadcast root tag payload => simp only [check, hrank]; rfl
  | gather root tag payload => simp only [check, hrank]; rfl
  | _ => simp only [check, htag]; rfl

theorem raises_of_not_isOpen (h : endpoint.session.isOpen = false) (service : Service Value) :
    endpoint.provide service = .raise (service.miscoding?.getD .notOpen) :=
  provide_of_check (check_of_standing (Session.standing_of_not_isOpen h) service)

/-- A service of a session that is not open does nothing, and fails with that unless a
value without an encoding comes first. -/
theorem provide_of_not_isOpen (h : endpoint.session.isOpen = false) (service : Service Value) :
    endpoint.provide service = .raise (service.miscoding?.getD .notOpen) ∧
      ∀ {σ : Type} (transport : Transport σ) (transcript : Transcript σ),
        transport.run (endpoint.provide service) transcript =
          (.error (service.miscoding?.getD .notOpen), transcript) := by
  have hraise := raises_of_not_isOpen h service
  refine ⟨hraise, fun transport transcript => ?_⟩
  rw [hraise]
  rfl

theorem provide_of_closed :
    Endpoint.provide ⟨{ phase := .closed }, .standard⟩
        (.reduce () 3 70000 Coder.ascii "plain" (fun first _ => first) :
          Service (fun _ : Unit => String)) =
      .raise .notOpen :=
  (provide_of_not_isOpen rfl _).1

/-- A value without an encoding hides that the session is not open. -/
theorem reduce_of_fresh :
    ∃ (endpoint : Endpoint) (service : Service (fun _ : Unit => String)),
      endpoint.session.isOpen = false ∧
      endpoint.provide service = .raise (.codec .textNotAscii) ∧
      endpoint.provide service ≠ .raise .notOpen := by
  have hraise : Endpoint.provide {} (.reduce () 0 0 Coder.ascii "é" (fun first _ => first) :
      Service (fun _ : Unit => String)) = .raise (.codec .textNotAscii) := rfl
  refine ⟨{}, _, rfl, hraise, fun hclosed => ?_⟩
  rw [hraise] at hclosed
  cases hclosed

section Open

variable (hopen : endpoint.standing = .ok standing)

include hopen

theorem requireRanks_of_standing (ranks : List Nat) : endpoint.requireRanks ranks =
    match ranks.find? (fun rank => standing.size ≤ rank) with
    | none => .ok ()
    | some rank => .error (.outsideGroup rank standing.size) := by
  unfold requireRanks
  induction ranks with
  | nil => rfl
  | cons rank ranks ih =>
      change (endpoint.requireRank rank >>= fun _ => ranks.forM endpoint.requireRank) = _
      rw [requireRank_of_standing hopen, List.find?_cons]
      by_cases hrank : rank < standing.size
      · rw [if_pos hrank, decide_eq_false (Nat.not_le_of_lt hrank)]
        exact ih
      · rw [if_neg hrank, decide_eq_true (Nat.le_of_not_lt hrank)]
        rfl

theorem requireTag_of_outside {tag : Tag} (htag : endpoint.tags.contains tag = false) :
    endpoint.requireTag tag = .error (.outsideTagSpace tag endpoint.tags) := by
  rw [requireTag_of_standing hopen, htag]
  rfl

theorem requireTag_of_inside {tag : Tag} (htag : endpoint.tags.contains tag = true) :
    endpoint.requireTag tag = .ok () := by
  rw [requireTag_of_standing hopen, htag]
  rfl

theorem requireRank_of_outside {rank : Nat} (hrank : standing.size ≤ rank) :
    endpoint.requireRank rank = .error (.outsideGroup rank standing.size) := by
  rw [requireRank_of_standing hopen, if_neg (Nat.not_lt_of_le hrank)]

theorem check_of_outside_tag {service : Service Value} (hdirect : service.isDirect = true)
    (htag : endpoint.tags.contains service.tag = false) :
    endpoint.check service = .error (.outsideTagSpace service.tag endpoint.tags) := by
  have hfault := requireTag_of_outside hopen htag
  cases service with
  | send => exact bind_eq_error_iff.2 (.inl hfault)
  | receive => exact bind_eq_error_iff.2 (.inl hfault)
  | receiveNext => exact hfault
  | exchange => exact bind_eq_error_iff.2 (.inl hfault)
  | _ => cases hdirect

theorem check_of_outside_rank {service : Service Value} (hdirect : service.isDirect = true)
    (htag : endpoint.tags.contains service.tag = true) {rank : Nat}
    (hrank : rank ∈ service.peers ∨ rank ∈ service.recipients) (houtside : standing.size ≤ rank) :
    ∃ rank, endpoint.check service = .error (.outsideGroup rank standing.size) ∧
      service.Blames standing.size rank := by
  have hpasses := requireTag_of_inside hopen htag
  cases service with
  | send peer tag payload =>
      have hpeer := RankSet.le_of_single hrank houtside
      exact ⟨peer, bind_eq_error_iff.2 (.inr ⟨(), hpasses, requireRank_of_outside hopen hpeer⟩),
        .inl (RankSet.leastOutside_single hpeer)⟩
  | receive peer tag =>
      have hpeer := RankSet.le_of_single hrank houtside
      exact ⟨peer, bind_eq_error_iff.2 (.inr ⟨(), hpasses, requireRank_of_outside hopen hpeer⟩),
        .inl (RankSet.leastOutside_single hpeer)⟩
  | receiveNext tag => exact absurd hrank (by simp [Service.peers, Service.recipients])
  | exchange peers tag outgoing =>
      have hfound : ∃ blamed, (peers.ranks ++ outgoing.keys.ranks).find?
          (fun rank => standing.size ≤ rank) = some blamed := by
        rw [← Option.isSome_iff_exists, List.find?_isSome]
        exact ⟨rank, List.mem_append.2 hrank, decide_eq_true houtside⟩
      obtain ⟨blamed, hfound⟩ := hfound
      have hranks := requireRanks_of_standing hopen (peers.ranks ++ outgoing.keys.ranks)
      rw [hfound] at hranks
      refine ⟨blamed, bind_eq_error_iff.2 (.inr ⟨(), hpasses, hranks⟩), ?_⟩
      rw [List.find?_append] at hfound
      cases hpeers : peers.ranks.find? (fun rank => standing.size ≤ rank) with
      | some peer =>
          rw [hpeers] at hfound
          cases hfound
          exact .inl (RankSet.leastOutside_of_find? hpeers)
      | none =>
          rw [hpeers] at hfound
          refine .inr ⟨fun peer hpeer => ?_, RankSet.leastOutside_of_find? hfound⟩
          simpa using List.find?_eq_none.1 hpeers peer hpeer
  | _ => cases hdirect

/-- For an invalid root it does not matter what else is wrong. -/
theorem check_of_outside_root {service : Service Value} {root : Nat}
    (hroot : service.root? = some root) (houtside : standing.size ≤ root) :
    endpoint.check service = .error (.outsideGroup root standing.size) := by
  have hfault := requireRank_of_outside hopen houtside
  cases service with
  | broadcast =>
      cases hroot
      exact bind_eq_error_iff.2 (.inl hfault)
  | gather =>
      cases hroot
      exact bind_eq_error_iff.2 (.inl hfault)
  | _ => cases hroot

theorem exists_error_of_root {root : Nat} {tag : Tag}
    (h : endpoint.tags.contains tag = false ∨ standing.size ≤ root) :
    ∃ fault, (do endpoint.requireRank root; endpoint.requireTag tag) = .error fault := by
  by_cases hroot : standing.size ≤ root
  · exact ⟨_, bind_eq_error_iff.2 (.inl (requireRank_of_outside hopen hroot))⟩
  · have htag := requireTag_of_outside hopen (h.resolve_right hroot)
    have hpasses : endpoint.requireRank root = .ok () := by
      rw [requireRank_of_standing hopen, if_pos (Nat.lt_of_not_le hroot)]
    exact ⟨_, bind_eq_error_iff.2 (.inr ⟨(), hpasses, htag⟩)⟩

theorem exists_error_of_outside {service : Service Value}
    (h : endpoint.tags.contains service.tag = false ∨
      ∃ rank, (rank ∈ service.peers ∨ rank ∈ service.recipients) ∧ standing.size ≤ rank) :
    ∃ fault, endpoint.check service = .error fault := by
  have hcoder : ∀ {α : Type} (coder : Coder α) (value : α) {rest : Except Fault Unit},
      (∃ fault, rest = .error fault) → ∃ fault, (do
        let _ ← coder.encode value
        rest) = .error fault := by
    rintro α coder value rest ⟨fault, hrest⟩
    cases hencode : coder.encode value with
    | error other => exact ⟨other, bind_eq_error_iff.2 (.inl rfl)⟩
    | ok payload => exact ⟨fault, bind_eq_error_iff.2 (.inr ⟨payload, rfl, hrest⟩)⟩
  have hsingle : ∀ {root : Nat},
      (∃ rank, (rank ∈ RankSet.empty.insert root ∨ rank ∈ RankSet.empty) ∧ standing.size ≤ rank) →
        standing.size ≤ root :=
    fun ⟨_, hrank, houtside⟩ => RankSet.le_of_single hrank houtside
  by_cases hdirect : service.isDirect = true
  · cases htag : endpoint.tags.contains service.tag with
    | false => exact ⟨_, check_of_outside_tag hopen hdirect htag⟩
    | true =>
        rw [htag] at h
        obtain ⟨rank, hrank, houtside⟩ := h.resolve_left (by simp)
        obtain ⟨blamed, hcheck, _⟩ := check_of_outside_rank hopen hdirect htag hrank houtside
        exact ⟨_, hcheck⟩
  · cases service with
    | sendValue kind peer tag coder value =>
        cases htag : endpoint.tags.contains tag with
        | false => exact ⟨_, bind_eq_error_iff.2 (.inl (requireTag_of_outside hopen htag))⟩
        | true =>
            have hpeer := hsingle (h.resolve_left (by simp [Service.tag, htag]))
            obtain ⟨fault, hfault⟩ :=
              hcoder coder value ⟨_, requireRank_of_outside hopen hpeer⟩
            exact ⟨fault, bind_eq_error_iff.2 (.inr ⟨(), requireTag_of_inside hopen htag, hfault⟩)⟩
    | broadcast root tag payload => exact exists_error_of_root hopen (h.imp_right hsingle)
    | gather root tag payload => exact exists_error_of_root hopen (h.imp_right hsingle)
    | reduce kind root tag coder value fold =>
        exact hcoder coder value (exists_error_of_root hopen (h.imp_right hsingle))
    | allReduce kind tag coder value fold =>
        have htag := h.resolve_right (by simp [Service.peers, Service.recipients])
        exact hcoder coder value (exists_error_of_root hopen (.inl htag))
    | _ => exact absurd rfl hdirect

end Open

/-- Nothing can be done under a tag outside the space, whatever state the session is in. -/
theorem raises_of_outside_tag {service : Service Value}
    (htag : endpoint.tags.contains service.tag = false) :
    ∃ fault, endpoint.provide service = .raise fault := by
  cases hstanding : endpoint.standing with
  | error fault => exact ⟨_, provide_of_check (check_of_standing hstanding service)⟩
  | ok standing =>
      obtain ⟨fault, hcheck⟩ := exists_error_of_outside hstanding (.inl htag)
      exact ⟨fault, provide_of_check hcheck⟩

/-- An open endpoint looks at the tag and at every rank before the transport hears of
anything. -/
theorem refused_of_outside (hopen : endpoint.standing = .ok standing) {service : Service Value}
    (h : endpoint.tags.contains service.tag = false ∨
      ∃ rank, (rank ∈ service.peers ∨ rank ∈ service.recipients) ∧ standing.size ≤ rank) :
    ∃ fault, endpoint.provide service = .raise fault ∧
      (∀ {σ : Type} (transport : Transport σ) (transcript : Transcript σ),
        transport.run (endpoint.provide service) transcript = (.error fault, transcript)) ∧
      service.Charges endpoint.tags standing.size fault := by
  obtain ⟨fault, hcheck⟩ := exists_error_of_outside hopen h
  have hraise := provide_of_check hcheck
  refine ⟨fault, hraise, fun transport transcript => ?_, fun hdirect htag => ?_,
    fun hdirect htag => ?_, fun root hroot houtside => ?_⟩
  · rw [hraise]
    rfl
  · rw [check_of_outside_tag hopen hdirect htag] at hcheck
    cases hcheck
    rfl
  · rw [htag] at h
    obtain ⟨rank, hrank, houtside⟩ := h.resolve_left (by simp)
    obtain ⟨blamed, hblamed, hblames⟩ := check_of_outside_rank hopen hdirect htag hrank houtside
    rw [hblamed] at hcheck
    cases hcheck
    exact ⟨blamed, rfl, hblames⟩
  · rw [check_of_outside_root hopen hroot houtside] at hcheck
    cases hcheck
    rfl

/-- Rank 3 is the least of the peers that a group of two does not have. -/
theorem refused_of_strangers :
    let endpoint : Endpoint := ⟨{ phase := .active ⟨0, 2, .multiple⟩ }, ⟨4, 8⟩⟩
    let service : Service (fun _ : Unit => String) :=
      .exchange (.ofList [7, 1, 3]) 5 (SortedMap.empty.insert 2 [0])
    ∃ fault, endpoint.provide service = .raise fault ∧ fault = .outsideGroup 3 2 := by
  intro endpoint service
  have hopen : endpoint.standing = .ok ⟨0, 2, .multiple⟩ := rfl
  have hpeer : 7 ∈ service.peers := by decide
  obtain ⟨fault, hraise, _, hcharges⟩ :=
    refused_of_outside hopen (.inr ⟨7, .inl hpeer, by decide⟩)
  refine ⟨fault, hraise, ?_⟩
  obtain ⟨blamed, hfault, hblames | ⟨hpeers, _⟩⟩ := hcharges.rank rfl (by decide)
  · have hle : blamed ≤ 3 := hblames.least 3 (by decide) (by decide)
    have hmem : blamed ∈ RankSet.ofList [7, 1, 3] := hblames.mem
    have houtside : 2 ≤ blamed := hblames.outside
    simp only [RankSet.mem_ofList, List.mem_cons, List.not_mem_nil, or_false] at hmem
    obtain rfl : blamed = 3 := by omega
    exact hfault
  · exact absurd (hpeers 7 hpeer) (by decide)

end Endpoint

end RankExchange
