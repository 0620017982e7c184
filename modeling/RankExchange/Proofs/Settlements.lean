import Mathlib.Data.Finset.Card
import RankExchange.Round

/-!
# Each peer settles once

A call takes its source out of the set of a round, in which it was or was not.  After any
calls the ranks that are still awaited are the peers that have not called.  So a call
succeeds if it is the first one of a peer and never else, however many strangers and
repetitions there have been, and it does not matter in which order the peers have called.
-/

namespace RankExchange

namespace RankSet

theorem erase_of_not_mem {set : RankSet} {rank : Nat} (h : ¬ rank ∈ set) :
    set.erase rank = set := by
  apply ext
  intro other
  rw [mem_erase]
  exact ⟨And.left, fun hother => ⟨hother, fun heq => h (heq ▸ hother)⟩⟩

theorem size_ofList (ranks : List Nat) : (ofList ranks).size = ranks.toFinset.card := by
  have hranks : (ofList ranks).ranks.toFinset = ranks.toFinset := by
    ext rank
    rw [List.mem_toFinset, List.mem_toFinset, ← mem_def, mem_ofList]
  rw [← hranks, List.toFinset_card_of_nodup (nodup _), size]

end RankSet

namespace Round

/-- One call: what it tells its source, and the round that it leaves.  The source is taken
out of the set whether it is in it or not. -/
def call (round : Round) (source : Nat) : Except Fault Unit × Round :=
  (if source ∈ round.awaited then .ok () else .error (.unexpectedPeer none source round.tag),
    { round with awaited := round.awaited.erase source })

def after (round : Round) : List Nat → Round
  | [] => round
  | source :: sources => (round.call source).2.after sources

def history (round : Round) : List Nat → List (Nat × Except Fault Unit)
  | [] => []
  | source :: sources => (source, (round.call source).1) :: (round.call source).2.history sources

def successes (round : Round) (sources : List Nat) : Nat :=
  (round.history sources).countP (·.2.isOk)

section Call

variable {round : Round} {source rank : Nat}

theorem call_of_mem (h : source ∈ round.awaited) :
    round.call source = (.ok (), { round with awaited := round.awaited.erase source }) := by
  rw [call, if_pos h]

theorem call_of_not_mem (h : ¬ source ∈ round.awaited) :
    round.call source = (.error (.unexpectedPeer none source round.tag), round) := by
  rw [call, if_neg h, RankSet.erase_of_not_mem h]

theorem call_eq_ok_iff : (round.call source).1 = .ok () ↔ source ∈ round.awaited := by
  by_cases h : source ∈ round.awaited
  · rw [call_of_mem h]
    exact iff_of_true rfl h
  · rw [call_of_not_mem h]
    exact iff_of_false (fun herror => by cases herror) h

theorem isOk_call (round : Round) (source : Nat) :
    (round.call source).1.isOk = decide (source ∈ round.awaited) := by
  by_cases h : source ∈ round.awaited
  · rw [call_of_mem h, decide_eq_true h]
    rfl
  · rw [call_of_not_mem h, decide_eq_false h]
    rfl

@[simp] theorem tag_call (round : Round) (source : Nat) : (round.call source).2.tag = round.tag :=
  rfl

@[simp] theorem mem_call :
    rank ∈ (round.call source).2.awaited ↔ rank ∈ round.awaited ∧ rank ≠ source :=
  RankSet.mem_erase

theorem settle_eq_call (round : Round) (source : Nat) :
    round.settle source = (fun _ => (round.call source).2) <$> (round.call source).1 := by
  by_cases h : source ∈ round.awaited
  · rw [settle_of_mem h, call_of_mem h]
    rfl
  · rw [settle_of_not_mem h, call_of_not_mem h]
    rfl

end Call

section Calls

variable {round : Round} {source rank : Nat} {sources : List Nat}

@[simp] theorem tag_after (round : Round) (sources : List Nat) :
    (round.after sources).tag = round.tag := by
  induction sources generalizing round with
  | nil => rfl
  | cons source sources ih => rw [after, ih, tag_call]

@[simp] theorem mem_after :
    rank ∈ (round.after sources).awaited ↔ rank ∈ round.awaited ∧ rank ∉ sources := by
  induction sources generalizing round with
  | nil => simp [after]
  | cons source sources ih => rw [after, ih, mem_call, List.mem_cons, not_or, and_assoc]

/-- Who is awaited succeeds once, and nobody else does. -/
theorem ok_mem_history :
    (rank, .ok ()) ∈ round.history sources ↔ rank ∈ round.awaited ∧ rank ∈ sources := by
  induction sources generalizing round with
  | nil => simp [history]
  | cons source sources ih =>
      rw [history, List.mem_cons, ih, mem_call, Prod.mk.injEq, List.mem_cons]
      have hok : .ok () = (round.call source).1 ↔ source ∈ round.awaited :=
        eq_comm.trans call_eq_ok_iff
      by_cases heq : rank = source
      · rw [heq, hok]
        simp
      · simp [heq]

/-- Each success is one that is owed no longer. -/
theorem outstanding_after (round : Round) (sources : List Nat) :
    (round.after sources).outstanding + round.successes sources = round.outstanding := by
  unfold successes
  induction sources generalizing round with
  | nil => rfl
  | cons source sources ih =>
      have hrest := ih (round.call source).2
      rw [after, history, List.countP_cons, isOk_call]
      -- A call of somebody who is awaited takes one off both sides, any other none.
      by_cases h : source ∈ round.awaited
      · have hsize : (round.call source).2.outstanding + 1 = round.outstanding :=
          RankSet.size_erase h
        rw [if_pos (decide_eq_true h), ← Nat.add_assoc, hrest, hsize]
      · have hsame : (round.call source).2 = round := by rw [call_of_not_mem h]
        rw [if_neg (fun htrue => h (of_decide_eq_true htrue)), Nat.add_zero, hrest, hsame]

end Calls

/-- What a round with these peers has come to when these sources have called. -/
structure Tallies (tag : Tag) (peers sources : List Nat) : Prop where
  succeeds_iff : ∀ source, (((ofPeers tag peers).after sources).call source).1 = .ok () ↔
    source ∈ peers ∧ (source, .ok ()) ∉ (ofPeers tag peers).history sources
  refuses : ∀ source, (((ofPeers tag peers).after sources).call source).1 ≠ .ok () →
    ((ofPeers tag peers).after sources).call source =
      (.error (.unexpectedPeer none source tag), (ofPeers tag peers).after sources)
  outstanding_add : ((ofPeers tag peers).after sources).outstanding +
    (ofPeers tag peers).successes sources = peers.toFinset.card
  awaits_iff : ∀ rank, ((ofPeers tag peers).after sources).awaits rank = true ↔
    rank ∈ peers ∧ (rank, .ok ()) ∉ (ofPeers tag peers).history sources
  isSettled_iff : ((ofPeers tag peers).after sources).isSettled = true ↔
    ∀ peer ∈ peers, peer ∈ sources

section Peers

variable {tag : Tag} {peers sources others : List Nat} {rank : Nat}

theorem mem_after_ofPeers :
    rank ∈ ((ofPeers tag peers).after sources).awaited ↔ rank ∈ peers ∧ rank ∉ sources := by
  rw [mem_after, ofPeers, RankSet.mem_ofList]

theorem mem_after_iff_history : rank ∈ ((ofPeers tag peers).after sources).awaited ↔
    rank ∈ peers ∧ (rank, .ok ()) ∉ (ofPeers tag peers).history sources := by
  rw [mem_after_ofPeers, ok_mem_history, ofPeers, RankSet.mem_ofList]
  constructor
  · rintro ⟨hpeer, hsource⟩
    exact ⟨hpeer, fun hcalled => hsource hcalled.2⟩
  · rintro ⟨hpeer, hcalled⟩
    exact ⟨hpeer, fun hsource => hcalled ⟨hpeer, hsource⟩⟩

theorem tallies (tag : Tag) (peers sources : List Nat) : Tallies tag peers sources where
  succeeds_iff := fun source => call_eq_ok_iff.trans mem_after_iff_history
  refuses := fun source hrefused => by
    rw [call_of_not_mem (fun hmem => hrefused (call_eq_ok_iff.2 hmem)), tag_after]
    rfl
  outstanding_add := by
    rw [outstanding_after]
    exact RankSet.size_ofList peers
  awaits_iff := fun rank => by
    rw [awaits, decide_eq_true_eq]
    exact mem_after_iff_history
  isSettled_iff := by
    rw [Round.isSettled_iff]
    constructor
    · intro hsettled peer hpeer
      apply Classical.byContradiction
      intro hsource
      exact hsettled peer (mem_after_ofPeers.2 ⟨hpeer, hsource⟩)
    · intro hall rank hrank
      obtain ⟨hpeer, hsource⟩ := mem_after_ofPeers.1 hrank
      exact hsource (hall rank hpeer)

theorem after_eq_of_same_peers (h : ∀ peer ∈ peers, (peer ∈ sources ↔ peer ∈ others)) :
    (ofPeers tag peers).after sources = (ofPeers tag peers).after others := by
  have hawaited : ((ofPeers tag peers).after sources).awaited =
      ((ofPeers tag peers).after others).awaited := by
    apply RankSet.ext
    intro rank
    rw [mem_after_ofPeers, mem_after_ofPeers]
    constructor
    · rintro ⟨hpeer, hsource⟩
      exact ⟨hpeer, fun hother => hsource ((h rank hpeer).2 hother)⟩
    · rintro ⟨hpeer, hother⟩
      exact ⟨hpeer, fun hsource => hother ((h rank hpeer).1 hsource)⟩
  have htag : ((ofPeers tag peers).after sources).tag = ((ofPeers tag peers).after others).tag := by
    rw [tag_after, tag_after]
  calc
    (ofPeers tag peers).after sources =
        ⟨((ofPeers tag peers).after sources).tag, ((ofPeers tag peers).after sources).awaited⟩ :=
      rfl
    _ = (ofPeers tag peers).after others := by rw [htag, hawaited]

/-- After any calls a round has counted each of its peers once, and it is the same round
whenever the same peers have called. -/
theorem counts_each_peer_once (tag : Tag) (peers sources : List Nat) :
    (∀ (round : Round) (source : Nat),
      round.settle source = (fun _ => (round.call source).2) <$> (round.call source).1) ∧
    Tallies tag peers sources ∧
    ∀ others : List Nat, (∀ peer ∈ peers, (peer ∈ sources ↔ peer ∈ others)) →
      (ofPeers tag peers).after sources = (ofPeers tag peers).after others :=
  ⟨settle_eq_call, tallies tag peers sources, fun _ => after_eq_of_same_peers⟩

/-- Three peers, one of them named twice; a stranger and a repetition among the calls. -/
theorem counts_each_peer_once_of_disorder :
    (ofPeers 9 [4, 1, 2, 1]).history [2, 7, 2, 4] =
      [(2, .ok ()), (7, .error (.unexpectedPeer none 7 9)),
        (2, .error (.unexpectedPeer none 2 9)), (4, .ok ())] ∧
      Tallies 9 [4, 1, 2, 1] [2, 7, 2, 4] ∧
      (ofPeers 9 [4, 1, 2, 1]).after [2, 7, 2, 4] = (ofPeers 9 [4, 1, 2, 1]).after [4, 2] := by
  obtain ⟨_, htallies, hsame⟩ := counts_each_peer_once 9 [4, 1, 2, 1] [2, 7, 2, 4]
  exact ⟨rfl, htallies, hsame [4, 2] (by decide)⟩

end Peers

end Round

end RankExchange
