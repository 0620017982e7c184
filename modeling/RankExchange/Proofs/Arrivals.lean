import RankExchange.Proofs.InboxSearches

/-!
# Orders of arrival

A rank takes the messages off its two channels in whatever order it comes to them, so what
waits in its inbox may arrive in several orders: the parked messages first, and then those
of the channels, each channel in its own order.  A search settles some of this, and never
more than it must; it finds the first message wanted in every order that is still open.
-/

namespace RankExchange

/-- Two lists merged into one, each in its own order. -/
inductive Interleaves {α : Type} : List α → List α → List α → Prop
  | nil : Interleaves [] [] []
  | left {l m merged : List α} (a : α) (h : Interleaves l m merged) :
      Interleaves (a :: l) m (a :: merged)
  | right {l m merged : List α} (a : α) (h : Interleaves l m merged) :
      Interleaves l (a :: m) (a :: merged)

namespace Interleaves

variable {α : Type} {l m merged : List α}

theorem append (l m : List α) : Interleaves l m (l ++ m) := by
  induction l with
  | nil =>
      induction m with
      | nil => exact .nil
      | cons a m ih => exact .right a ih
  | cons a l ih => exact .left a ih

theorem perm (h : Interleaves l m merged) : merged.Perm (l ++ m) := by
  induction h with
  | nil => exact .nil
  | left a _ ih => exact ih.cons a
  | right a _ ih => exact (ih.cons a).trans List.perm_middle.symm

theorem filter (h : Interleaves l m merged) (p : α → Bool) :
    Interleaves (l.filter p) (m.filter p) (merged.filter p) := by
  induction h with
  | nil => exact .nil
  | left a _ ih =>
      cases hp : p a with
      | true => simpa [hp] using ih.left a
      | false => simpa [hp] using ih
  | right a _ ih =>
      cases hp : p a with
      | true => simpa [hp] using ih.right a
      | false => simpa [hp] using ih

theorem eq_left (h : Interleaves l [] merged) : merged = l := by
  generalize hm : ([] : List α) = m at h
  induction h with
  | nil => rfl
  | left a _ ih => rw [ih hm]
  | right => cases hm

theorem eq_right (h : Interleaves [] m merged) : merged = m := by
  generalize hl : ([] : List α) = l at h
  induction h with
  | nil => rfl
  | left => cases hl
  | right a _ ih => rw [ih hl]

end Interleaves

namespace Inbox

variable {rank : Nat} {inbox moved : Inbox} {queue rest : List Message} {wanted : Wanted}
  {alone own : Bool} {channel : Channel}

/-- The messages of an inbox may arrive in this order. -/
def Arrives (inbox : Inbox) (queue : List Message) : Prop :=
  ∃ coming, Interleaves inbox.remote inbox.loopback coming ∧ queue = inbox.parked ++ coming

theorem arrives_waiting (inbox : Inbox) : inbox.Arrives inbox.waiting :=
  ⟨_, .append _ _, List.append_assoc _ _ _⟩

theorem Arrives.perm (h : inbox.Arrives queue) : queue.Perm inbox.waiting := by
  obtain ⟨coming, hcoming, rfl⟩ := h
  rw [waiting, List.append_assoc]
  exact hcoming.perm.append_left _

theorem Arrives.find?_isSome (h : inbox.Arrives queue) (wanted : Wanted) :
    (queue.find? wanted.accepts).isSome = (inbox.waiting.find? wanted.accepts).isSome := by
  rw [Bool.eq_iff_iff, List.find?_isSome, List.find?_isSome]
  simp only [h.perm.mem_iff]

/-- Where no tag has both messages of a rank to itself and messages of others, there is
only one order on each tag. -/
theorem Arrives.sameOnTags (h : inbox.Arrives queue) (hapart : inbox.Apart (fun _ => True) rank)
    (hunmixed : Unmixed rank inbox.waiting) : SameOnTags queue inbox.waiting := by
  obtain ⟨coming, hcoming, rfl⟩ := h
  intro tag
  have hchannels := hcoming.filter (Wanted.accepts { tag })
  have hone : coming.filter (Wanted.accepts { tag }) =
      (inbox.remote ++ inbox.loopback).filter (Wanted.accepts { tag }) := by
    rw [List.filter_append]
    cases hloopback : inbox.loopback.filter (Wanted.accepts { tag }) with
    | nil =>
        rw [hloopback] at hchannels
        rw [hchannels.eq_left, List.append_nil]
    | cons message others =>
        have hmem : message ∈ inbox.loopback.filter (Wanted.accepts { tag }) := by
          rw [hloopback]
          exact List.mem_cons_self
        obtain ⟨hmessage, haccepts⟩ := List.mem_filter.1 hmem
        have htag := Wanted.accepts_of_tag_iff.1 haccepts
        -- With a message of the rank itself on the tag, there is none of the others.
        have hremote : inbox.remote.filter (Wanted.accepts { tag }) = [] := by
          rw [List.filter_eq_nil_iff]
          intro other hother haccepts'
          have hown := hunmixed message (by simp [waiting, hmessage]) other
            (by simp [waiting, hother]) (htag.trans (Wanted.accepts_of_tag_iff.1 haccepts').symm)
            (hapart.loopback message hmessage trivial)
          exact hapart.remote other hother trivial hown
        rw [hremote] at hchannels
        rw [hchannels.eq_right, hloopback, hremote, List.nil_append]
  rw [waiting, List.append_assoc, List.filter_append, List.filter_append, hone]

theorem Arrives.of_pull? (hpull : inbox.pull? channel = some moved) (h : moved.Arrives queue) :
    inbox.Arrives queue := by
  obtain ⟨remote, loopback, parked, expectsRemote⟩ := inbox
  cases channel with
  | remote =>
      cases remote with
      | nil => cases hpull
      | cons message remote =>
          cases hpull
          obtain ⟨coming, hcoming, rfl⟩ := h
          exact ⟨message :: coming, .left message hcoming, by simp⟩
  | loopback =>
      cases loopback with
      | nil => cases hpull
      | cons message loopback =>
          cases hpull
          obtain ⟨coming, hcoming, rfl⟩ := h
          exact ⟨message :: coming, .right message hcoming, by simp⟩

theorem Arrives.of_search (hsearch : inbox.search wanted alone own channel = .moved moved)
    (h : moved.Arrives queue) : inbox.Arrives queue := by
  unfold search at hsearch
  split at hsearch
  · cases hsearch
  · split at hsearch
    · split at hsearch
      · next hpull =>
          cases hsearch
          exact h.of_pull? hpull
      · split at hsearch
        · cases hsearch
          exact h
        · cases hsearch
    · split at hsearch
      · next hpull =>
          cases hsearch
          exact h.of_pull? hpull
      · split at hsearch <;> cases hsearch

/-- What is found is the first message wanted in every order. -/
theorem Arrives.find?_of_parked (h : inbox.Arrives queue) {message : Message}
    (hfound : inbox.parked.find? wanted.accepts = some message) :
    queue.find? wanted.accepts = some message := by
  obtain ⟨coming, _, rfl⟩ := h
  rw [List.find?_append, hfound, Option.some_or]

theorem Arrives.take (h : inbox.Arrives queue) {message : Message}
    (hfound : inbox.parked.find? wanted.accepts = some message) :
    (inbox.take wanted).Arrives (queue.eraseP wanted.accepts) := by
  obtain ⟨coming, hcoming, rfl⟩ := h
  refine ⟨coming, hcoming, ?_⟩
  exact List.eraseP_append_left (List.find?_some hfound) _ (List.mem_of_find?_eq_some hfound)

/-- Every order of what a receive leaves is one of what was there, less the message taken. -/
theorem Arrives.of_take (h : (inbox.take wanted).Arrives rest) {message : Message}
    (hfound : inbox.parked.find? wanted.accepts = some message) :
    ∃ queue, inbox.Arrives queue ∧ rest = queue.eraseP wanted.accepts := by
  obtain ⟨coming, hcoming, rfl⟩ := h
  refine ⟨inbox.parked ++ coming, ⟨coming, hcoming, rfl⟩, ?_⟩
  exact (List.eraseP_append_left (List.find?_some hfound) _
    (List.mem_of_find?_eq_some hfound)).symm

theorem search_of_open (hparked : inbox.parked.find? wanted.accepts = none)
    (hexpects : inbox.expectsRemote = true) (hpull : inbox.pull? channel = some moved) :
    inbox.search wanted alone own channel = .moved moved := by
  unfold search
  simp only [hparked, hexpects, if_true, hpull]

/-- Who gives up is alone, and wants something of others that is not there. -/
theorem of_search_deserted (hspent : inbox.Spent alone)
    (h : inbox.search wanted alone own channel = .deserted) :
    alone = true ∧ own = false ∧
      ∀ queue, inbox.Arrives queue → queue.find? wanted.accepts = none := by
  have hnone := find?_waiting_of_deserted (fun hclosed => (hspent hclosed).2) h
  have hclosed : inbox.expectsRemote = false ∧ own = false := by
    unfold search at h
    split at h
    · cases h
    · split at h
      · split at h
        · cases h
        · split at h <;> cases h
      · next hexpects =>
          split at h
          · cases h
          · cases own with
            | false => exact ⟨Bool.eq_false_iff.2 hexpects, rfl⟩
            | true => cases h
  refine ⟨(hspent hclosed.1).1, hclosed.2, fun queue hqueue => ?_⟩
  rw [← Option.not_isSome_iff_eq_none, hqueue.find?_isSome, hnone]
  exact Bool.false_ne_true

/-- What a member that looks for something does next if its messages arrive in a certain
order and the search has an end in it. -/
theorem Arrives.exists_search (h : inbox.Arrives queue) (hspent : inbox.Spent alone)
    (hends : (queue.find? wanted.accepts).isSome = true ∨ alone = true ∧ own = false) :
    (∃ message, inbox.parked.find? wanted.accepts = some message) ∨
      (∃ channel moved, inbox.search wanted alone own channel = .moved moved ∧
        moved.Arrives queue) ∨
      inbox.search wanted alone own .remote = .deserted := by
  obtain ⟨coming, hcoming, rfl⟩ := h
  obtain ⟨remote, loopback, parked, expectsRemote⟩ := inbox
  cases hparked : parked.find? wanted.accepts with
  | some message => exact .inl ⟨message, rfl⟩
  | none =>
      right
      cases hcoming with
      | @left remote _ coming message hcoming =>
          have hexpects : expectsRemote = true := by
            cases expectsRemote with
            | true => rfl
            | false => cases (hspent rfl).2
          refine .inl ⟨.remote, _, search_of_open hparked hexpects rfl, coming, hcoming, ?_⟩
          simp
      | @right _ loopback coming message hcoming =>
          refine .inl ⟨.loopback, ⟨remote, loopback, parked ++ [message], expectsRemote⟩, ?_,
            coming, hcoming, by simp⟩
          unfold search
          cases expectsRemote <;> simp [hparked, pull?]
      | nil =>
          have hgives : alone = true ∧ own = false := by
            rcases hends with hfind | hgives
            · simp [hparked] at hfind
            · exact hgives
          cases expectsRemote with
          | true =>
              refine .inl ⟨.remote, ⟨[], [], parked, false⟩, ?_, [], .nil, rfl⟩
              simp [search, hparked, pull?, hgives.1]
          | false =>
              right
              simp [search, hparked, pull?, hgives.2]

end Inbox

end RankExchange
