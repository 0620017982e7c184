import RankExchange.Proofs.OneQueue

/-!
# Searching an inbox

A member that looks for a message parks others on the way.  What it has sent to itself
and what the others have sent it stay in order, each by themselves, and the parked
messages stay in front, whether the search finds something or is given up.
-/

namespace RankExchange

namespace Inbox

variable {rank source : Nat} {tag : Tag} {inbox moved later : Inbox} {wanted : Wanted}
  {alone own : Bool} {channel : Channel}

/-- The messages of a rank to itself, or else those of the others, as they have come. -/
def stream (inbox : Inbox) (rank : Nat) (own : Bool) : List Message :=
  inbox.waiting.filter (fun message => decide (message.source = rank) == own)

/-- An inbox of a rank before and after a search. -/
structure SearchedTo (rank : Nat) (inbox later : Inbox) : Prop where
  parked : inbox.parked <+: later.parked
  stream : ∀ own, later.stream rank own = inbox.stream rank own

/-- An inbox before and after a message has been taken out of it. -/
structure Yields (rank : Nat) (wanted : Wanted) (inbox later : Inbox) : Prop where
  parked : ∃ pulled, later.parked = (inbox.parked ++ pulled).eraseP wanted.accepts
  stream : ∀ own, later.stream rank own = (inbox.stream rank own).eraseP wanted.accepts

/-- A member that expects nothing of the others any more is alone and has seen all that
they had sent. -/
def Spent (inbox : Inbox) (alone : Bool) : Prop :=
  inbox.expectsRemote = false → alone = true ∧ inbox.remote = []

theorem SearchedTo.refl (rank : Nat) (inbox : Inbox) : SearchedTo rank inbox inbox :=
  ⟨List.prefix_refl _, fun _ => rfl⟩

theorem SearchedTo.trans (h : SearchedTo rank inbox moved) (h' : SearchedTo rank moved later) :
    SearchedTo rank inbox later :=
  ⟨h.parked.trans h'.parked, fun own => (h'.stream own).trans (h.stream own)⟩

theorem lane_eq_filter_stream (inbox : Inbox) (rank source : Nat) (tag : Tag) :
    inbox.lane source tag =
      (inbox.stream rank (decide (source = rank))).filter (Wanted.accepts ⟨tag, some source⟩) := by
  unfold lane stream
  rw [List.filter_filter]
  refine List.filter_congr (fun message _ => ?_)
  cases haccepts : Wanted.accepts ⟨tag, some source⟩ message with
  | false => rfl
  | true => simp [(Wanted.accepts_of_source_iff.1 haccepts).1]

theorem mem_waiting_iff_mem_stream (rank : Nat) {message : Message} :
    message ∈ inbox.waiting ↔ message ∈ inbox.stream rank (decide (message.source = rank)) := by
  simp [stream]

theorem SearchedTo.lane (h : SearchedTo rank inbox later) (source : Nat) (tag : Tag) :
    later.lane source tag = inbox.lane source tag := by
  rw [lane_eq_filter_stream later rank, lane_eq_filter_stream inbox rank, h.stream]

theorem SearchedTo.mem_waiting (h : SearchedTo rank inbox later) {message : Message} :
    message ∈ later.waiting ↔ message ∈ inbox.waiting := by
  rw [mem_waiting_iff_mem_stream rank, h.stream, ← mem_waiting_iff_mem_stream]

theorem head?_lane (inbox : Inbox) (source : Nat) (tag : Tag) :
    (inbox.lane source tag).head? = inbox.waiting.find? (Wanted.accepts ⟨tag, some source⟩) :=
  List.head?_filter ..

/-- A message that a search finds is the oldest one of its source and tag. -/
theorem SearchedTo.head?_lane (h : SearchedTo rank inbox later) {message : Message}
    (hfound : later.parked.find? (Wanted.accepts ⟨tag, some source⟩) = some message) :
    (inbox.lane source tag).head? = some message := by
  rw [← h.lane, Inbox.head?_lane, find?_waiting_of_parked hfound]

theorem searchedTo_pull? (hapart : inbox.Apart (fun _ => True) rank)
    (h : inbox.pull? channel = some moved) : SearchedTo rank inbox moved := by
  obtain ⟨remote, loopback, parked, expectsRemote⟩ := inbox
  cases channel with
  | remote =>
      cases remote with
      | nil => cases h
      | cons message remote =>
          cases h
          refine ⟨List.prefix_append _ _, fun own => ?_⟩
          simp [stream, waiting]
  | loopback =>
      cases loopback with
      | nil => cases h
      | cons message loopback =>
          cases h
          -- The parked message passes those of the others, which are in the other stream.
          have hmessage : message.source = rank := hapart.loopback message (by simp) trivial
          have hremote : ∀ other ∈ remote, other.source ≠ rank :=
            fun other hother => hapart.remote other hother trivial
          refine ⟨List.prefix_append _ _, fun own => ?_⟩
          simp only [stream, waiting, List.filter_append, List.append_assoc]
          congr 1
          cases own with
          | false => simp [hmessage]
          | true =>
              have hnone : remote.filter (fun other => decide (other.source = rank) == true) =
                  [] := by
                rw [List.filter_eq_nil_iff]
                intro other hother
                simpa using hremote other hother
              rw [hnone]
              simp [hmessage]

theorem expectsRemote_pull? (h : inbox.pull? channel = some moved) :
    moved.expectsRemote = inbox.expectsRemote := by
  obtain ⟨remote, loopback, parked, expectsRemote⟩ := inbox
  cases channel with
  | remote =>
      cases remote with
      | nil => cases h
      | cons => cases h; rfl
  | loopback =>
      cases loopback with
      | nil => cases h
      | cons => cases h; rfl

theorem remote_pull?_loopback (h : inbox.pull? .loopback = some moved) :
    moved.remote = inbox.remote := by
  obtain ⟨remote, loopback, parked, expectsRemote⟩ := inbox
  cases loopback with
  | nil => cases h
  | cons => cases h; rfl

theorem remote_eq_nil_of_pull? (h : inbox.pull? .remote = none) : inbox.remote = [] := by
  obtain ⟨remote, loopback, parked, expectsRemote⟩ := inbox
  cases remote with
  | nil => rfl
  | cons => cases h

theorem spent_search (hspent : inbox.Spent alone)
    (h : inbox.search wanted alone own channel = .moved moved) : moved.Spent alone := by
  unfold search at h
  split at h
  · cases h
  · split at h
    · next hexpects =>
        split at h
        · next hpull =>
            cases h
            intro hclosed
            rw [expectsRemote_pull? hpull, hexpects] at hclosed
            cases hclosed
        · next hpull =>
            split at h
            · next hend =>
                cases h
                obtain ⟨rfl, halone⟩ := hend
                have hremote : inbox.remote = [] := remote_eq_nil_of_pull? hpull
                exact fun _ => ⟨halone, hremote⟩
            · cases h
    · next hexpects =>
        split at h
        · next hpull =>
            cases h
            intro _
            rw [remote_pull?_loopback hpull]
            exact hspent (Bool.eq_false_iff.2 hexpects)
        · split at h <;> cases h

theorem searchedTo_search (hapart : inbox.Apart (fun _ => True) rank) (hspent : inbox.Spent alone)
    (h : inbox.search wanted alone own channel = .moved moved) :
    SearchedTo rank inbox moved ∧ moved.Spent alone := by
  refine ⟨?_, spent_search hspent h⟩
  unfold search at h
  split at h
  · cases h
  · split at h
    · split at h
      · next hpull =>
          cases h
          exact searchedTo_pull? hapart hpull
      · split at h
        · cases h
          exact ⟨List.prefix_refl _, fun _ => rfl⟩
        · cases h
    · split at h
      · next hpull =>
          cases h
          exact searchedTo_pull? hapart hpull
      · split at h <;> cases h

/-- Nobody who is alone is held up by the others: it goes on looking, or gives up. -/
theorem not_blocked_of_alone (inbox : Inbox) (wanted : Wanted) :
    inbox.search wanted true false .remote ≠ .blocked := by
  unfold search
  split
  · simp
  · split
    · split
      · simp
      · simp
    · split
      · simp
      · simp

theorem spent_push (hspent : inbox.Spent alone) {message : Message}
    (hsource : inbox.expectsRemote = false → message.source = rank) :
    (inbox.push rank message).Spent alone := by
  intro hclosed
  rw [expectsRemote_push] at hclosed
  have hown : rank = message.source := (hsource hclosed).symm
  simpa [push, hown] using hspent hclosed

theorem yields_take (h : SearchedTo rank inbox later) {message : Message}
    (hfound : later.parked.find? (Wanted.accepts ⟨tag, some source⟩) = some message) :
    Yields rank ⟨tag, some source⟩ inbox (later.take ⟨tag, some source⟩) where
  parked := by
    obtain ⟨pulled, hpulled⟩ := h.parked
    exact ⟨pulled, by rw [hpulled]; rfl⟩
  stream := by
    intro own
    rw [← h.stream own, stream, waiting_take hfound, stream]
    by_cases hown : decide (source = rank) = own
    · rw [List.eraseP_filter]
      congr 2
      funext other
      cases haccepts : Wanted.accepts ⟨tag, some source⟩ other with
      | false => rfl
      | true =>
          rw [(Wanted.accepts_of_source_iff.1 haccepts).1, hown]
          simp
    · have hother : ∀ other, Wanted.accepts ⟨tag, some source⟩ other = true →
          (decide (other.source = rank) == own) = false := by
        intro other haccepts
        rw [(Wanted.accepts_of_source_iff.1 haccepts).1]
        simpa using hown
      rw [filter_eraseP_of_disjoint hother, List.eraseP_of_forall_not]
      intro other hmem haccepts
      have hpos := (List.mem_filter.1 hmem).2
      rw [hother other haccepts] at hpos
      cases hpos

end Inbox

end RankExchange
