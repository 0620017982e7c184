import RankExchange.Proofs.Meeting
import RankExchange.Proofs.Progress

/-!
# Agendas

An agenda is a list of meetings that all ranks of a group work off.  If every
program follows the script that the agenda gives to its rank, so does the whole
group; and if all attend and meetings on one tag are far enough apart, nobody
fails or waits for ever.
-/

namespace RankExchange

namespace Meeting

variable {meetings : List Meeting} {size rank source dest : Nat} {tag : Tag}

/-- The script of a rank that may be outside the group. -/
def scriptIn (size : Nat) (meetings : List Meeting) (rank : Nat) : Script :=
  if rank < size then script rank 0 meetings else []

theorem scriptIn_of_lt (h : rank < size) :
    scriptIn size meetings rank = script rank 0 meetings :=
  if_pos h

theorem scriptIn_of_le (h : size ≤ rank) : scriptIn size meetings rank = [] :=
  if_neg (Nat.not_lt.2 h)

theorem scriptIn_cases {p : Script → Prop} (hempty : p [])
    (h : rank < size → p (script rank 0 meetings)) : p (scriptIn size meetings rank) := by
  unfold scriptIn
  split
  · next hlt => exact h hlt
  · exact hempty

theorem select_outgoing_of_le (hmatched : ∀ meeting ∈ meetings, meeting.Matched size)
    (h : size ≤ dest) (source : Nat) (tag : Tag) :
    Script.select dest tag (script source 0 meetings).outgoing = [] := by
  apply List.eq_nil_iff_forall_not_mem.2
  intro entry hentry
  rw [Script.mem_select_iff] at hentry
  obtain ⟨meeting, hmeeting, hpost⟩ := exists_meeting_of_outgoing 0 hentry
  have hlt := (hmatched meeting hmeeting).sent_lt source dest (mem_posts_iff.1 hpost).1
  omega

theorem select_incoming_of_le (hmatched : ∀ meeting ∈ meetings, meeting.Matched size)
    (h : size ≤ source) (dest : Nat) (tag : Tag) :
    Script.select source tag (script dest 0 meetings).incoming = [] := by
  apply List.eq_nil_iff_forall_not_mem.2
  intro entry hentry
  obtain ⟨owed, _, _, htake, hsource⟩ := Script.exists_take_of_select hentry
  obtain ⟨_, meeting, hmeeting, _, _, howed, _⟩ := exists_meeting_of_take 0 htake
  rw [howed] at hsource
  have hlt := (hmatched meeting (List.mem_of_getElem? hmeeting)).owed_lt source dest hsource
  omega

theorem balanced_scriptIn (hmatched : ∀ meeting ∈ meetings, meeting.Matched size)
    (hattended : ∀ meeting ∈ meetings, ∀ rank, meeting.attended rank = true)
    (source dest : Nat) (tag : Tag) :
    Script.select dest tag (scriptIn size meetings source).outgoing =
      Script.select source tag (scriptIn size meetings dest).incoming := by
  have hall := balanced hmatched hattended source dest tag 0
  rcases Nat.lt_or_ge source size with hsource | hsource
  · rw [scriptIn_of_lt hsource]
    rcases Nat.lt_or_ge dest size with hdest | hdest
    · rw [scriptIn_of_lt hdest, hall]
    · rw [scriptIn_of_le hdest, select_outgoing_of_le hmatched hdest]
      rfl
  · rw [scriptIn_of_le hsource]
    rcases Nat.lt_or_ge dest size with hdest | hdest
    · rw [scriptIn_of_lt hdest, select_incoming_of_le hmatched hsource]
      rfl
    · rw [scriptIn_of_le hdest]
      rfl

theorem fresh_scriptIn : ∀ rank time tag owed payload found,
    .take time tag owed payload found ∈ scriptIn size meetings rank → found = none := by
  intro rank time tag owed payload found htake
  unfold scriptIn at htake
  split at htake
  · obtain ⟨_, _, _, _, _, _, hfound, _⟩ := exists_meeting_of_take 0 htake
    exact hfound
  · cases htake

theorem orderly_scriptIn {used : Tag → Prop} (h : ∀ meeting ∈ meetings, used meeting.tag)
    (rank : Nat) : (scriptIn size meetings rank).Orderly used := by
  apply scriptIn_cases
  · exact ⟨.nil, fun _ _ _ _ _ hmem => (by cases hmem), fun _ _ _ _ _ hmem => (by cases hmem)⟩
  · exact fun _ => orderly h rank

theorem prefix_outgoing_scriptIn (size : Nat) (h : Withdrawing meetings) (source dest : Nat)
    (tag : Tag) :
    Script.select dest tag (scriptIn size meetings source).outgoing <+:
      traffic source dest tag 0 meetings :=
  scriptIn_cases (p := fun script => Script.select dest tag script.outgoing <+: _)
    List.nil_prefix (fun _ => prefix_outgoing h source dest tag 0)

theorem prefix_incoming_scriptIn (hmatched : ∀ meeting ∈ meetings, meeting.Matched size)
    (h : Withdrawing meetings) (source dest : Nat) (tag : Tag) :
    Script.select source tag (scriptIn size meetings dest).incoming <+:
      traffic source dest tag 0 meetings :=
  scriptIn_cases (p := fun script => Script.select source tag script.incoming <+: _)
    List.nil_prefix (fun _ => prefix_incoming hmatched h source dest tag 0)

/-- What a source would send on a lane if it attended all meetings. -/
def spare (size : Nat) (meetings : List Meeting) (source dest : Nat) (tag : Tag) :
    List (Nat × Bytes) :=
  (traffic source dest tag 0 meetings).drop
    (Script.select dest tag (scriptIn size meetings source).outgoing).length

/-- What a destination would take if it attended all meetings. -/
def missing (size : Nat) (meetings : List Meeting) (source dest : Nat) (tag : Tag) :
    List (Nat × Bytes) :=
  (traffic source dest tag 0 meetings).drop
    (Script.select source tag (scriptIn size meetings dest).incoming).length

theorem spare_missing (hmatched : ∀ meeting ∈ meetings, meeting.Matched size)
    (h : Withdrawing meetings) (source dest : Nat) (tag : Tag) :
    Script.select dest tag (scriptIn size meetings source).outgoing ++
        spare size meetings source dest tag =
      Script.select source tag (scriptIn size meetings dest).incoming ++
        missing size meetings source dest tag := by
  have hsent := List.prefix_iff_eq_append.1 (prefix_outgoing_scriptIn size h source dest tag)
  have hdue := List.prefix_iff_eq_append.1 (prefix_incoming_scriptIn hmatched h source dest tag)
  exact hsent.trans hdue.symm

end Meeting

namespace World

variable {α : Type} {used : Tag → Prop} {group : Group} {program : Nat → Program α}
  {meetings : List Meeting}

theorem followsScripts_of_meetings {Rest : Nat → Bool → Program α → Script → Prop}
    (hquiet : group.Quiet used) (htags : ∀ meeting ∈ meetings, used meeting.tag)
    (hmatched : ∀ meeting ∈ meetings, meeting.Matched group.size)
    (hwithdrawing : Meeting.Withdrawing meetings)
    (hfollows : ∀ rank, rank < group.size →
      Program.FollowsScript (Rest rank) true (program rank) (Meeting.script rank 0 meetings)) :
    (starting group program).FollowsScripts used Rest (Meeting.spare group.size meetings)
      (Meeting.missing group.size meetings)
      (fun rank => ⟨true, Meeting.scriptIn group.size meetings rank⟩) := by
  refine followsScripts_starting hquiet ?_ (fun rank => Meeting.scriptIn_of_le)
    (Meeting.orderly_scriptIn htags) Meeting.fresh_scriptIn
    (Meeting.spare_missing hmatched hwithdrawing)
  intro rank hrank
  rw [Meeting.scriptIn_of_lt hrank]
  exact hfollows rank hrank

theorem inStep_of_meetings {value : Nat → α} (hquiet : group.Quiet used)
    (hintact : group.Intact) (htags : ∀ meeting ∈ meetings, used meeting.tag)
    (hmatched : ∀ meeting ∈ meetings, meeting.Matched group.size)
    (hattended : ∀ meeting ∈ meetings, ∀ rank, meeting.attended rank = true)
    (hhelped : group.delivery = .rendezvous → ∀ rank, rank < group.size →
      ∀ meeting ∈ meetings, meeting.helped rank = true ∨ (meeting.sent rank).ranks = [] ∨
        (meeting.owed rank).ranks = [])
    (hspaced : ∀ rank, rank < group.size → Meeting.Spaced meetings rank)
    (hfollows : ∀ rank, rank < group.size →
      Program.FollowsScript (Program.Ends (Closing (value rank))) true (program rank)
        (Meeting.script rank 0 meetings)) :
    (starting group program).InStep used value
      (fun rank => ⟨true, Meeting.scriptIn group.size meetings rank⟩) := by
  refine inStep_starting hquiet hintact ?_ (fun rank => Meeting.scriptIn_of_le)
    (Meeting.orderly_scriptIn htags) ?_ Meeting.fresh_scriptIn
    (Meeting.balanced_scriptIn hmatched hattended)
  · intro rank hrank
    rw [Meeting.scriptIn_of_lt hrank]
    exact hfollows rank hrank
  · intro rank
    apply Meeting.scriptIn_cases
    · exact ⟨.nil, fun _ _ _ _ _ hmem => (by cases hmem), fun _ hmem => (by cases hmem),
        fun _ _ _ _ _ _ _ _ _ _ hmem => (by cases hmem),
        fun _ _ _ _ _ _ _ hmem => (by cases hmem)⟩
    · intro hrank
      exact Meeting.compatible htags hmatched
        (fun meeting hmeeting => hattended meeting hmeeting rank)
        (fun hrendezvous => hhelped hrendezvous rank hrank) (hspaced rank hrank)

end World

end RankExchange
