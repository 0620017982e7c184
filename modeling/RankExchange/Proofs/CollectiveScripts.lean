import RankExchange.Endpoint.Collective
import RankExchange.Proofs.Rounds

/-!
# The scripts of collectives

At a fan-out the root sends the same payload to all others, and at a fan-in all
others send to the root.  A broadcast is the one, a gather and a reduction the
other, and an all-reduce is a fan-in followed by a fan-out.
-/

namespace RankExchange

/-- In step a program returns its value, and out of step it fails, whatever it
has left undone. -/
inductive Returns {α : Type} (value : α) (rest : Script) :
    Bool → Except Fault α → Script → Prop
  | kept : Returns value rest true (.ok value) rest
  | lost (fault : Fault) (script : Script) : Returns value rest false (.error fault) script

namespace Program.FollowsScript

variable {α β : Type} {inStep : Bool} {program : Program α} {script middle rest : Script}
  {value : α} {value' : β}

theorem returns (h : FollowsScript (Ends (Yields value rest)) inStep program script) :
    FollowsScript (Ends (Returns value rest)) inStep program script := by
  apply h.mono
  rintro inStep program script ⟨result, rfl, hyields⟩
  cases hyields with
  | kept => exact ⟨_, rfl, .kept⟩
  | lost fault => exact ⟨_, rfl, .lost fault _⟩

theorem bind_returns {f : α → Program β}
    (h : FollowsScript (Ends (Returns value middle)) inStep program script)
    (hnext : FollowsScript (Ends (Returns value' rest)) true (f value) middle) :
    FollowsScript (Ends (Returns value' rest)) inStep (program.bind f) script := by
  apply h.bind_ends
  · intro inStep value script hreturns
    cases hreturns
    exact hnext
  · intro inStep fault script hreturns
    cases hreturns
    exact .done (.lost fault _)

end Program.FollowsScript

namespace Meeting

def fanOut (size root : Nat) (endpoint : Nat → Endpoint) (tag : Tag) (payload : Bytes) :
    Meeting where
  tag
  sent rank := if rank = root then .others size root else .empty
  owed rank := if rank < size ∧ rank ≠ root then RankSet.empty.insert root else .empty
  payload _ _ := payload
  helped rank := decide (rank = root) && (endpoint rank).isConcurrent

def fanIn (size root : Nat) (endpoint : Nat → Endpoint) (tag : Tag) (payload : Nat → Bytes) :
    Meeting where
  tag
  sent rank := if rank < size ∧ rank ≠ root then RankSet.empty.insert root else .empty
  owed rank := if rank = root then .others size root else .empty
  payload source _ := payload source
  helped rank := (endpoint rank).isConcurrent

variable {size root rank : Nat} {endpoint : Nat → Endpoint} {tag : Tag} {granted : Threading}

theorem mem_root_iff {other : Nat} : other ∈ RankSet.empty.insert root ↔ other = root := by
  simp

theorem matched_fanOut (hroot : root < size) (payload : Bytes) :
    (fanOut size root endpoint tag payload).Matched size where
  owed_iff := by
    intro source dest
    change dest ∈ (if source = root then RankSet.others size root else .empty) ↔
      source ∈ (if dest < size ∧ dest ≠ root then RankSet.empty.insert root else .empty)
    rw [RankSet.mem_ite_empty, RankSet.mem_ite_empty, RankSet.mem_others, mem_root_iff]
    exact And.comm
  sent_lt := by
    intro source dest hdest
    exact (RankSet.mem_others.1 (RankSet.mem_ite_empty.1 hdest).2).1
  owed_lt := by
    intro source dest hsource
    rw [mem_root_iff.1 (RankSet.mem_ite_empty.1 hsource).2]
    exact hroot

theorem matched_fanIn (hroot : root < size) (payload : Nat → Bytes) :
    (fanIn size root endpoint tag payload).Matched size where
  owed_iff := by
    intro source dest
    change dest ∈ (if source < size ∧ source ≠ root then RankSet.empty.insert root else .empty) ↔
      source ∈ (if dest = root then RankSet.others size root else .empty)
    rw [RankSet.mem_ite_empty, RankSet.mem_ite_empty, RankSet.mem_others, mem_root_iff]
    exact And.comm
  sent_lt := by
    intro source dest hdest
    rw [mem_root_iff.1 (RankSet.mem_ite_empty.1 hdest).2]
    exact hroot
  owed_lt := by
    intro source dest hsource
    exact (RankSet.mem_others.1 (RankSet.mem_ite_empty.1 hsource).2).1

/-- The root of a fan-out runs a round without peers. -/
theorem calls_fanOut (hopen : (endpoint root).standing = .ok ⟨root, size, granted⟩)
    (payload : Bytes) : (fanOut size root endpoint tag payload).Calls root granted .empty
      (.const (.others size root) payload) where
  attended := rfl
  owed := if_neg (fun h => h.2 rfl)
  sent := by
    rw [RankMap.keys_const]
    exact if_pos rfl
  payload := by
    intro peer sent hfind
    rw [RankMap.const_eq_tabulate, RankMap.find?_tabulate] at hfind
    split at hfind
    · cases hfind
      rfl
    · cases hfind
  helped := by
    change (decide (root = root) && (endpoint root).isConcurrent) = _
    rw [decide_eq_true rfl, Bool.true_and, Endpoint.isConcurrent_eq hopen]

theorem before_fanOut (hrank : rank < size) (hne : rank ≠ root) (payload : Bytes) (time : Nat)
    (rest : Script) : (fanOut size root endpoint tag payload).before rank time rest =
      Script.await time tag (RankSet.empty.insert root) (fun _ => payload) rest := by
  have hposts : (fanOut size root endpoint tag payload).posts rank = [] := by
    have hsent : (fanOut size root endpoint tag payload).sent rank = .empty := if_neg hne
    unfold posts
    rw [hsent]
    rfl
  have howed : (fanOut size root endpoint tag payload).owed rank = RankSet.empty.insert root :=
    if_pos ⟨hrank, hne⟩
  have hhelped : (fanOut size root endpoint tag payload).helped rank = false := by
    change (decide (rank = root) && (endpoint rank).isConcurrent) = false
    rw [decide_eq_false hne, Bool.false_and]
  have hattended : (fanOut size root endpoint tag payload).attended rank = true := rfl
  unfold before
  rw [if_pos hattended, hhelped, hposts, howed]
  rfl

theorem calls_fanIn_root (hopen : (endpoint root).standing = .ok ⟨root, size, granted⟩)
    (payload : Nat → Bytes) : (fanIn size root endpoint tag payload).Calls root granted
      (.others size root) .empty where
  attended := rfl
  owed := if_pos rfl
  sent := if_neg (fun h => h.2 rfl)
  payload := by
    intro peer sent hfind
    cases hfind
  helped := Endpoint.isConcurrent_eq hopen

theorem calls_fanIn (hopen : (endpoint rank).standing = .ok ⟨rank, size, granted⟩)
    (hrank : rank < size) (hne : rank ≠ root) (payload : Nat → Bytes) :
    (fanIn size root endpoint tag payload).Calls rank granted .empty
      (SortedMap.empty.insert root (payload rank)) where
  attended := rfl
  owed := if_neg hne
  sent := by
    rw [RankMap.keys_insert, RankMap.keys_empty]
    exact if_pos ⟨hrank, hne⟩
  payload := by
    intro peer sent hfind
    rw [SortedMap.find?_insert] at hfind
    split at hfind
    · cases hfind
      rfl
    · cases hfind
  helped := Endpoint.isConcurrent_eq hopen

/-- With its own payload the root of a fan-in has one of every rank. -/
theorem insert_received_fanIn (hroot : root < size) (payload : Nat → Bytes) :
    (((fanIn size root endpoint tag payload).received root).map Envelope.payload).insert root
      (payload root) = RankMap.tabulate (.upTo size) payload := by
  have howed : (fanIn size root endpoint tag payload).owed root = .others size root := if_pos rfl
  unfold received RankMap.envelopes
  rw [howed, RankMap.map_tabulate, ← RankSet.insert_others hroot]
  exact RankMap.insert_tabulate _ payload root

end Meeting

namespace Endpoint

open Program

variable {endpoint : Nat → Endpoint} {root rank size : Nat} {granted : Threading} {tag : Tag}

theorem followsScript_receive (hopen : (endpoint rank).standing = .ok ⟨rank, size, granted⟩)
    (htag : (endpoint rank).tags.contains tag = true) (hroot : root < size)
    (payload : Nat → Bytes) (time : Nat) (rest : Script) :
    FollowsScript (Ends (Returns ⟨root, tag, payload root⟩ rest)) true
      ((endpoint rank).receive root tag)
      (Script.await time tag (RankSet.empty.insert root) payload rest) := by
  unfold receive
  rw [requireTag_ok hopen htag, requireRank_of_standing hopen, if_pos hroot]
  change FollowsScript _ true (((endpoint rank).probe tag).bind _) _
  have hranks : ¬ (RankSet.empty.insert root).ranks = [] := List.cons_ne_nil root []
  unfold Script.await
  rw [if_neg hranks]
  apply followsScript_probe htag
  · intro source hsource
    rw [Meeting.mem_root_iff.1 hsource, if_pos rfl, ← Program.bind_pure (accept _)]
    apply followsScript_accept
    · have hempty : ((RankSet.empty.insert root).erase root).ranks = [] := by
        rw [List.eq_nil_iff_forall_not_mem]
        intro other hother
        obtain ⟨hmem, hne⟩ := RankSet.mem_erase.1 hother
        exact hne (Meeting.mem_root_iff.1 hmem)
      unfold Script.await
      rw [if_pos hempty]
      exact .done .kept
    · exact fun fault => .done (.lost fault _)
  · intro source length hsource
    rw [if_neg (fun heq => hsource (Meeting.mem_root_iff.2 heq))]
    exact .done (.lost _ _)
  · exact fun fault => .done (.lost fault _)

theorem broadcast_eq {endpoint : Endpoint}
    (hopen : endpoint.standing = .ok ⟨rank, size, granted⟩) (hroot : root < size)
    (payload : Bytes) : endpoint.broadcast root tag payload =
      if rank = root then
        (endpoint.exchange .empty tag (.const (.others size root) payload)).bind
          (fun _ => pure payload)
      else (endpoint.receive root tag).bind (fun envelope => pure envelope.payload) := by
  unfold broadcast others
  rw [requireRank_of_standing hopen, if_pos hroot, hopen]
  rfl

/-- The root takes its own payload for the one that it has sent. -/
theorem followsScript_broadcast (hopen : (endpoint rank).standing = .ok ⟨rank, size, granted⟩)
    (htag : (endpoint rank).tags.contains tag = true) (hroot : root < size) (hrank : rank < size)
    {payload own : Bytes} (hown : rank = root → own = payload) (time : Nat) (rest : Script) :
    FollowsScript (Ends (Returns payload rest)) true ((endpoint rank).broadcast root tag own)
      ((Meeting.fanOut size root endpoint tag payload).before rank time rest) := by
  rw [broadcast_eq hopen hroot]
  by_cases heq : rank = root
  · rw [if_pos heq, hown heq]
    subst heq
    have hexchange := followsScript_exchange hopen htag (Meeting.matched_fanOut hroot payload)
      (Meeting.calls_fanOut hopen payload) time rest
    exact hexchange.returns.bind_returns (.done .kept)
  · rw [if_neg heq, Meeting.before_fanOut hrank heq]
    have hreceive := followsScript_receive hopen htag hroot (fun _ => payload) time rest
    exact hreceive.bind_returns (.done .kept)

theorem gather_eq {endpoint : Endpoint}
    (hopen : endpoint.standing = .ok ⟨rank, size, granted⟩) (hroot : root < size)
    (payload : Bytes) : endpoint.gather root tag payload =
      if rank = root then
        (endpoint.exchange (.others size root) tag .empty).bind
          (fun received => pure ((received.map Envelope.payload).insert root payload))
      else (endpoint.exchange .empty tag (SortedMap.empty.insert root payload)).bind
        (fun _ => pure .empty) := by
  unfold gather others
  rw [requireRank_of_standing hopen, if_pos hroot, hopen]
  rfl

theorem followsScript_gather (hopen : (endpoint rank).standing = .ok ⟨rank, size, granted⟩)
    (htag : (endpoint rank).tags.contains tag = true) (hroot : root < size) (hrank : rank < size)
    (payload : Nat → Bytes) (time : Nat) (rest : Script) :
    FollowsScript (Ends (Returns
        (if rank = root then RankMap.tabulate (.upTo size) payload else .empty) rest)) true
      ((endpoint rank).gather root tag (payload rank))
      ((Meeting.fanIn size root endpoint tag payload).before rank time rest) := by
  have hmatched : (Meeting.fanIn size root endpoint tag payload).Matched size :=
    Meeting.matched_fanIn hroot payload
  rw [gather_eq hopen hroot]
  by_cases heq : rank = root
  · rw [if_pos heq, if_pos heq]
    subst heq
    have hexchange := followsScript_exchange hopen htag hmatched
      (Meeting.calls_fanIn_root hopen payload) time rest
    apply hexchange.returns.bind_returns
    rw [Meeting.insert_received_fanIn hroot]
    exact .done .kept
  · rw [if_neg heq, if_neg heq]
    have hexchange := followsScript_exchange hopen htag hmatched
      (Meeting.calls_fanIn hopen hrank heq payload) time rest
    exact hexchange.returns.bind_returns (.done .kept)

end Endpoint

end RankExchange
