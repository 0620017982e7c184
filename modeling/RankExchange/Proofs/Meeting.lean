import RankExchange.Proofs.CompatibleScripts

/-!
# Meetings

A meeting is one round of communication, seen from outside: who sends what to
whom.  From a list of meetings every rank gets its script, and whether the
scripts fit together is asked of the list.  A rank that does not attend a
meeting neither sends nor takes anything there.
-/

namespace RankExchange

structure Meeting where
  tag : Tag
  sent : Nat → RankSet
  owed : Nat → RankSet
  payload : Nat → Nat → Bytes
  helped : Nat → Bool
  attended : Nat → Bool := fun _ => true

namespace Meeting

def posts (meeting : Meeting) (rank : Nat) : List Envelope :=
  (meeting.sent rank).ranks.map (fun peer => ⟨peer, meeting.tag, meeting.payload rank peer⟩)

/-- The script of one rank at one meeting, before a given rest. -/
def before (meeting : Meeting) (rank time : Nat) (rest : Script) : Script :=
  if meeting.attended rank then
    if meeting.helped rank then
      .spawn time (meeting.posts rank) ::
        Script.await time meeting.tag (meeting.owed rank)
          (fun source => meeting.payload source rank) (.join time :: rest)
    else
      (meeting.posts rank).map (Duty.send time) ++
        Script.await time meeting.tag (meeting.owed rank)
          (fun source => meeting.payload source rank) rest
  else rest

/-- The script of one rank at several meetings, one at each time. -/
def script (rank : Nat) : Nat → List Meeting → Script
  | _, [] => []
  | time, meeting :: meetings => meeting.before rank time (script rank (time + 1) meetings)

/-- The messages of one lane, were they attended by all. -/
def traffic (source dest : Nat) (tag : Tag) : Nat → List Meeting → List (Nat × Bytes)
  | _, [] => []
  | time, meeting :: meetings =>
      (if dest ∈ meeting.sent source ∧ tag = meeting.tag then
        [(time, meeting.payload source dest)] else []) ++
        traffic source dest tag (time + 1) meetings

/-- What is sent is what is owed, within a group of a given size. -/
structure Matched (size : Nat) (meeting : Meeting) : Prop where
  owed_iff : ∀ source dest, dest ∈ meeting.sent source ↔ source ∈ meeting.owed dest
  sent_lt : ∀ source dest, dest ∈ meeting.sent source → dest < size
  owed_lt : ∀ source dest, source ∈ meeting.owed dest → source < size

variable {meeting : Meeting} {meetings : List Meeting} {rank source dest time size : Nat}
  {tag : Tag} {used : Tag → Prop} {rest : Script}

theorem select_posts (time : Nat) (dest : Nat) (tag : Tag) :
    Script.select dest tag ((meeting.posts rank).map (fun post => (time, post))) =
      if dest ∈ meeting.sent rank ∧ tag = meeting.tag then
        [(time, meeting.payload rank dest)] else [] := by
  unfold posts
  rw [List.map_map]
  exact Script.select_owed (meeting.sent rank).nodup time dest tag meeting.tag
    (meeting.payload rank)

theorem outgoing_sends (time : Nat) (posts : List Envelope) :
    Script.outgoing (posts.map (Duty.send time)) = posts.map (fun post => (time, post)) := by
  induction posts with
  | nil => rfl
  | cons post posts ih =>
      rw [List.map_cons, Script.outgoing_cons, ih]
      rfl

theorem incoming_sends (time : Nat) (posts : List Envelope) :
    Script.incoming (posts.map (Duty.send time)) = [] := by
  induction posts with
  | nil => rfl
  | cons post posts ih =>
      rw [List.map_cons, Script.incoming_cons, ih]
      rfl

theorem outward_sends (time : Nat) (posts : List Envelope) :
    Script.outward (posts.map (Duty.send time)) = posts.map (Duty.send time) := by
  apply List.filter_eq_self.2
  intro duty hduty
  obtain ⟨post, _, rfl⟩ := List.mem_map.1 hduty
  rfl

theorem outgoing_before (h : meeting.attended rank = true) (time : Nat) (rest : Script) :
    (meeting.before rank time rest).outgoing =
      (meeting.posts rank).map (fun post => (time, post)) ++ rest.outgoing := by
  unfold before
  rw [if_pos h]
  split
  · rw [Script.outgoing_cons, Script.outgoing_await]
    rfl
  · rw [Script.outgoing_append, Script.outgoing_await, outgoing_sends]

theorem select_incoming_before (h : meeting.attended rank = true) (time : Nat) (rest : Script)
    (source : Nat) (tag : Tag) :
    Script.select source tag (meeting.before rank time rest).incoming =
      (if source ∈ meeting.owed rank ∧ tag = meeting.tag then
        [(time, meeting.payload source rank)] else []) ++
        Script.select source tag rest.incoming := by
  unfold before
  rw [if_pos h]
  split
  · rw [Script.incoming_cons]
    exact Script.select_incoming_await _ _ _ _ _ _ _
  · rw [Script.incoming_append, incoming_sends, List.nil_append]
    exact Script.select_incoming_await _ _ _ _ _ _ _

theorem before_of_not_attended (h : meeting.attended rank = false) (time : Nat) (rest : Script) :
    meeting.before rank time rest = rest := by
  unfold before
  rw [h]
  rfl

/-- A rank that stays away from a meeting stays away from all later ones on the
same tag. -/
def Withdrawing (meetings : List Meeting) : Prop :=
  meetings.Pairwise (fun first second => first.tag = second.tag →
    ∀ rank, second.attended rank = true → first.attended rank = true)

theorem select_outgoing_eq_nil
    (h : ∀ meeting ∈ meetings, tag = meeting.tag → meeting.attended source = false) :
    ∀ time, Script.select dest tag (script source time meetings).outgoing = [] := by
  induction meetings with
  | nil => exact fun _ => rfl
  | cons meeting meetings ih =>
      intro time
      have hrest := ih (fun later hlater => h later (List.mem_cons_of_mem _ hlater)) (time + 1)
      unfold script
      cases hattended : meeting.attended source with
      | false =>
          rw [before_of_not_attended hattended]
          exact hrest
      | true =>
          have hne : ¬ tag = meeting.tag := by
            intro heq
            rw [h meeting List.mem_cons_self heq] at hattended
            cases hattended
          rw [outgoing_before hattended, Script.select_append, select_posts,
            if_neg (fun h => hne h.2), hrest]
          rfl

theorem select_incoming_eq_nil
    (h : ∀ meeting ∈ meetings, tag = meeting.tag → meeting.attended dest = false) :
    ∀ time, Script.select source tag (script dest time meetings).incoming = [] := by
  induction meetings with
  | nil => exact fun _ => rfl
  | cons meeting meetings ih =>
      intro time
      have hrest := ih (fun later hlater => h later (List.mem_cons_of_mem _ hlater)) (time + 1)
      unfold script
      cases hattended : meeting.attended dest with
      | false =>
          rw [before_of_not_attended hattended]
          exact hrest
      | true =>
          have hne : ¬ tag = meeting.tag := by
            intro heq
            rw [h meeting List.mem_cons_self heq] at hattended
            cases hattended
          rw [select_incoming_before hattended, if_neg (fun h => hne h.2), hrest]
          rfl

theorem Withdrawing.not_attended (h : Withdrawing (meeting :: meetings))
    (hattended : meeting.attended rank = false) (htag : tag = meeting.tag) :
    ∀ later ∈ meetings, tag = later.tag → later.attended rank = false := by
  intro later hlater hlabel
  cases hlate : later.attended rank with
  | false => rfl
  | true =>
      have hfirst := (List.pairwise_cons.1 h).1 later hlater (htag.symm.trans hlabel) rank hlate
      rw [hattended] at hfirst
      cases hfirst

/-- What a rank sends on a lane is the beginning of what it would send. -/
theorem prefix_outgoing (h : Withdrawing meetings) (source dest : Nat) (tag : Tag) :
    ∀ time, Script.select dest tag (script source time meetings).outgoing <+:
      traffic source dest tag time meetings := by
  induction meetings with
  | nil => exact fun _ => List.prefix_rfl
  | cons meeting meetings ih =>
      intro time
      have hrest := ih (List.pairwise_cons.1 h).2 (time + 1)
      unfold script traffic
      cases hattended : meeting.attended source with
      | true =>
          rw [outgoing_before hattended, Script.select_append, select_posts]
          exact (List.prefix_append_right_inj _).2 hrest
      | false =>
          rw [before_of_not_attended hattended]
          by_cases htag : tag = meeting.tag
          · rw [select_outgoing_eq_nil (h.not_attended hattended htag)]
            exact List.nil_prefix
          · rw [if_neg (fun h => htag h.2)]
            exact hrest

theorem prefix_incoming (hmatched : ∀ meeting ∈ meetings, meeting.Matched size)
    (h : Withdrawing meetings) (source dest : Nat) (tag : Tag) :
    ∀ time, Script.select source tag (script dest time meetings).incoming <+:
      traffic source dest tag time meetings := by
  induction meetings with
  | nil => exact fun _ => List.prefix_rfl
  | cons meeting meetings ih =>
      intro time
      have hrest := ih (fun later hlater => hmatched later (List.mem_cons_of_mem _ hlater))
        (List.pairwise_cons.1 h).2 (time + 1)
      unfold script traffic
      cases hattended : meeting.attended dest with
      | true =>
          rw [select_incoming_before hattended]
          simp only [(hmatched meeting List.mem_cons_self).owed_iff]
          exact (List.prefix_append_right_inj _).2 hrest
      | false =>
          rw [before_of_not_attended hattended]
          by_cases htag : tag = meeting.tag
          · rw [select_incoming_eq_nil (h.not_attended hattended htag)]
            exact List.nil_prefix
          · rw [if_neg (fun h => htag h.2)]
            exact hrest

/-- If all attend, exactly what is due is sent. -/
theorem balanced (hmatched : ∀ meeting ∈ meetings, meeting.Matched size)
    (hattended : ∀ meeting ∈ meetings, ∀ rank, meeting.attended rank = true)
    (source dest : Nat) (tag : Tag) :
    ∀ time, Script.select dest tag (script source time meetings).outgoing =
      Script.select source tag (script dest time meetings).incoming := by
  induction meetings with
  | nil => exact fun _ => rfl
  | cons meeting meetings ih =>
      intro time
      have hfirst := hattended meeting List.mem_cons_self
      have hrest := ih (fun later hlater => hmatched later (List.mem_cons_of_mem _ hlater))
        (fun later hlater => hattended later (List.mem_cons_of_mem _ hlater)) (time + 1)
      unfold script
      rw [outgoing_before (hfirst source), select_incoming_before (hfirst dest),
        Script.select_append, select_posts, hrest]
      simp only [(hmatched meeting List.mem_cons_self).owed_iff]

theorem mem_before {duty : Duty} (h : duty ∈ meeting.before rank time rest) :
    duty ∈ rest ∨ duty.time = time := by
  unfold before at h
  split at h
  · split at h
    · rcases List.mem_cons.1 h with rfl | h
      · exact .inr rfl
      · rcases Script.mem_await h with rfl | h
        · exact .inr rfl
        · rcases List.mem_cons.1 h with rfl | h
          · exact .inr rfl
          · exact .inl h
    · rcases List.mem_append.1 h with h | h
      · obtain ⟨post, _, rfl⟩ := List.mem_map.1 h
        exact .inr rfl
      · rcases Script.mem_await h with rfl | h
        · exact .inr rfl
        · exact .inl h
  · exact .inl h

theorem le_time_of_mem {duty : Duty} :
    ∀ time, duty ∈ script rank time meetings → time ≤ duty.time := by
  induction meetings with
  | nil =>
      intro time h
      cases h
  | cons meeting meetings ih =>
      intro time h
      rcases mem_before h with h | h
      · have hlater := ih (time + 1) h
        omega
      · exact Nat.le_of_eq h.symm

theorem precedes_of_isPosting {first second : Duty} (h : first.isPosting = true)
    (htime : first.time ≤ second.time) : first.Precedes second := by
  rcases Nat.lt_or_eq_of_le htime with hlt | heq
  · exact .inl hlt
  · exact .inr ⟨heq, .inl h⟩

theorem pairwise_await {owed : RankSet} {payload : Nat → Bytes}
    (hrest : rest.Pairwise Duty.Precedes)
    (hlater : ∀ duty ∈ rest, time < duty.time ∨ (time = duty.time ∧ duty.isJoin = true)) :
    (Script.await time tag owed payload rest).Pairwise Duty.Precedes := by
  unfold Script.await
  split
  · exact hrest
  · refine List.pairwise_cons.2 ⟨fun duty hduty => ?_, hrest⟩
    rcases hlater duty hduty with hlt | ⟨heq, hjoin⟩
    · exact .inl hlt
    · exact .inr ⟨heq, .inr hjoin⟩

theorem pairwise_before (hrest : rest.Pairwise Duty.Precedes)
    (hlater : ∀ duty ∈ rest, time < duty.time) :
    (meeting.before rank time rest).Pairwise Duty.Precedes := by
  have hle : ∀ duty ∈ meeting.before rank time rest, time ≤ duty.time := by
    intro duty hduty
    rcases mem_before hduty with hmem | heq
    · exact Nat.le_of_lt (hlater duty hmem)
    · exact Nat.le_of_eq heq.symm
  unfold before at hle ⊢
  split at hle
  · next hattended =>
      rw [if_pos hattended]
      split at hle
      · next hhelped =>
          rw [if_pos hhelped]
          refine List.pairwise_cons.2 ⟨fun duty hduty => ?_, pairwise_await ?_ ?_⟩
          · exact precedes_of_isPosting rfl (hle duty (List.mem_cons_of_mem _ hduty))
          · exact List.pairwise_cons.2 ⟨fun duty hduty => .inl (hlater duty hduty), hrest⟩
          · intro duty hduty
            rcases List.mem_cons.1 hduty with rfl | hduty
            · exact .inr ⟨rfl, rfl⟩
            · exact .inl (hlater duty hduty)
      · next hhelped =>
          rw [if_neg hhelped]
          have hsend : ∀ send ∈ (meeting.posts rank).map (Duty.send time),
              send.isPosting = true ∧ send.time = time := by
            intro send hsend
            obtain ⟨post, _, rfl⟩ := List.mem_map.1 hsend
            exact ⟨rfl, rfl⟩
          refine List.pairwise_append.2 ⟨?_, ?_, ?_⟩
          · apply List.pairwise_of_forall_mem_list
            intro first hfirst second hsecond
            apply precedes_of_isPosting (hsend first hfirst).1
            exact Nat.le_of_eq ((hsend first hfirst).2.trans (hsend second hsecond).2.symm)
          · exact pairwise_await hrest (fun duty hduty => .inl (hlater duty hduty))
          · intro first hfirst second hsecond
            apply precedes_of_isPosting (hsend first hfirst).1
            rw [(hsend first hfirst).2]
            exact hle second (List.mem_append_right _ hsecond)
  · next hattended =>
      rw [if_neg hattended]
      exact hrest

theorem pairwise_script (rank : Nat) (meetings : List Meeting) :
    ∀ time, (script rank time meetings).Pairwise Duty.Precedes := by
  induction meetings with
  | nil => exact fun _ => List.Pairwise.nil
  | cons meeting meetings ih =>
      intro time
      exact pairwise_before (ih (time + 1)) (fun duty hduty => le_time_of_mem (time + 1) hduty)

theorem take_mem_before {time' : Nat} {owed : RankSet} {payload : Nat → Bytes}
    {found : Option Nat}
    (h : .take time' tag owed payload found ∈ meeting.before rank time rest) :
    .take time' tag owed payload found ∈ rest ∨
      (time' = time ∧ tag = meeting.tag ∧ owed = meeting.owed rank ∧ found = none ∧
        owed.ranks ≠ []) := by
  have hawait : ∀ {rest : Script}, Duty.take time' tag owed payload found ∈
      Script.await time meeting.tag (meeting.owed rank)
        (fun source => meeting.payload source rank) rest →
      .take time' tag owed payload found ∈ rest ∨
        (time' = time ∧ tag = meeting.tag ∧ owed = meeting.owed rank ∧ found = none ∧
          owed.ranks ≠ []) := by
    intro rest h
    unfold Script.await at h
    split at h
    · exact .inl h
    · next hranks =>
        rcases List.mem_cons.1 h with heq | h
        · cases heq
          exact .inr ⟨rfl, rfl, rfl, rfl, hranks⟩
        · exact .inl h
  unfold before at h
  split at h
  · split at h
    · rcases List.mem_cons.1 h with heq | h
      · cases heq
      · rcases hawait h with h | h
        · rcases List.mem_cons.1 h with heq | h
          · cases heq
          · exact .inl h
        · exact .inr h
    · rcases List.mem_append.1 h with h | h
      · obtain ⟨_, _, heq⟩ := List.mem_map.1 h
        cases heq
      · exact hawait h
  · exact .inl h

theorem exists_meeting_of_take {time' : Nat} {owed : RankSet} {payload : Nat → Bytes}
    {found : Option Nat} : ∀ time, .take time' tag owed payload found ∈ script rank time meetings →
      ∃ index meeting, meetings[index]? = some meeting ∧ time' = time + index ∧
        tag = meeting.tag ∧ owed = meeting.owed rank ∧ found = none ∧ owed.ranks ≠ [] := by
  induction meetings with
  | nil =>
      intro time h
      cases h
  | cons meeting meetings ih =>
      intro time h
      rcases take_mem_before h with h | ⟨htime, h⟩
      · obtain ⟨index, later, hlater, htime, h⟩ := ih (time + 1) h
        exact ⟨index + 1, later, hlater, by omega, h⟩
      · exact ⟨0, meeting, rfl, htime, h⟩

theorem exists_meeting_of_outgoing {entry : Nat × Envelope} :
    ∀ time, entry ∈ (script rank time meetings).outgoing →
      ∃ meeting ∈ meetings, entry.2 ∈ meeting.posts rank := by
  induction meetings with
  | nil =>
      intro time h
      cases h
  | cons meeting meetings ih =>
      intro time h
      unfold script at h
      cases hattended : meeting.attended rank with
      | false =>
          rw [before_of_not_attended hattended] at h
          obtain ⟨later, hlater, h⟩ := ih (time + 1) h
          exact ⟨later, List.mem_cons_of_mem _ hlater, h⟩
      | true =>
          rw [outgoing_before hattended] at h
          rcases List.mem_append.1 h with h | h
          · obtain ⟨post, hpost, rfl⟩ := List.mem_map.1 h
            exact ⟨meeting, List.mem_cons_self, hpost⟩
          · obtain ⟨later, hlater, h⟩ := ih (time + 1) h
            exact ⟨later, List.mem_cons_of_mem _ hlater, h⟩

theorem mem_outgoing_script {index : Nat} (hmeeting : meetings[index]? = some meeting)
    (hattended : ∀ meeting ∈ meetings, meeting.attended rank = true) {post : Envelope}
    (hpost : post ∈ meeting.posts rank) :
    ∀ time, (time + index, post) ∈ (script rank time meetings).outgoing := by
  induction meetings generalizing index with
  | nil => cases hmeeting
  | cons first meetings ih =>
      intro time
      unfold script
      rw [outgoing_before (hattended first List.mem_cons_self)]
      cases index with
      | zero =>
          cases hmeeting
          exact List.mem_append_left _ (List.mem_map.2 ⟨post, hpost, rfl⟩)
      | succ index =>
          have hrest := ih hmeeting
            (fun later hlater => hattended later (List.mem_cons_of_mem _ hlater)) (time + 1)
          have htime : time + 1 + index = time + (index + 1) := by omega
          rw [htime] at hrest
          exact List.mem_append_right _ hrest

theorem mem_posts_iff {post : Envelope} : post ∈ meeting.posts rank ↔
    post.peer ∈ meeting.sent rank ∧ post.tag = meeting.tag ∧
      post.payload = meeting.payload rank post.peer := by
  unfold posts
  rw [List.mem_map]
  constructor
  · rintro ⟨peer, hpeer, rfl⟩
    exact ⟨hpeer, rfl, rfl⟩
  · rintro ⟨hpeer, htag, hpayload⟩
    refine ⟨post.peer, hpeer, ?_⟩
    rw [← htag, ← hpayload]

theorem send_mem_before {time' : Nat} {post : Envelope}
    (h : .send time' post ∈ meeting.before rank time rest) :
    .send time' post ∈ rest ∨
      (time' = time ∧ meeting.helped rank = false ∧ post ∈ meeting.posts rank) := by
  unfold before at h
  split at h
  · split at h
    · rcases List.mem_cons.1 h with heq | h
      · cases heq
      · rcases Script.mem_await h with heq | h
        · cases heq
        · rcases List.mem_cons.1 h with heq | h
          · cases heq
          · exact .inl h
    · next hhelped =>
        rcases List.mem_append.1 h with h | h
        · obtain ⟨post, hpost, heq⟩ := List.mem_map.1 h
          cases heq
          exact .inr ⟨rfl, by simpa using hhelped, hpost⟩
        · rcases Script.mem_await h with heq | h
          · cases heq
          · exact .inl h
  · exact .inl h

theorem exists_meeting_of_send {time' : Nat} {post : Envelope} :
    ∀ time, .send time' post ∈ script rank time meetings →
      ∃ index meeting, meetings[index]? = some meeting ∧ time' = time + index ∧
        meeting.helped rank = false ∧ post ∈ meeting.posts rank := by
  induction meetings with
  | nil =>
      intro time h
      cases h
  | cons meeting meetings ih =>
      intro time h
      rcases send_mem_before h with h | ⟨htime, h⟩
      · obtain ⟨index, later, hlater, htime, h⟩ := ih (time + 1) h
        exact ⟨index + 1, later, hlater, by omega, h⟩
      · exact ⟨0, meeting, rfl, htime, h⟩

/-- Whoever takes something from several ranks at the first of two meetings on
one tag sends between the two to whoever owes it a message at the second. -/
def Spaced (meetings : List Meeting) (rank : Nat) : Prop :=
  ∀ early late (first last : Meeting) source, meetings[early]? = some first →
    meetings[late]? = some last → early < late → first.tag = last.tag →
    (first.owed rank).ranks ≠ [] → source ∈ last.owed rank →
    (∀ other, other ∈ first.owed rank → other = source) ∨
      ∃ (between : Nat) (meeting : Meeting), early < between ∧ between < late ∧
        meetings[between]? = some meeting ∧ source ∈ meeting.sent rank

theorem orderly (h : ∀ meeting ∈ meetings, used meeting.tag) (rank : Nat) :
    (script rank 0 meetings).Orderly used where
  sorted := by
    apply (pairwise_script rank meetings 0).imp
    intro first second hprecedes
    rcases hprecedes with hlt | ⟨heq, _⟩
    · exact Nat.le_of_lt hlt
    · exact Nat.le_of_eq heq
  used := by
    intro time tag owed payload found htake
    obtain ⟨index, meeting, hmeeting, _, htag, _⟩ := exists_meeting_of_take 0 htake
    rw [htag]
    exact h meeting (List.mem_of_getElem? hmeeting)
  begun := by
    intro time tag owed payload found htake
    obtain ⟨_, _, _, _, _, _, hfound, _⟩ :=
      exists_meeting_of_take 0 (List.mem_of_mem_tail htake)
    exact hfound

theorem compatible {delivery : Delivery} (htags : ∀ meeting ∈ meetings, used meeting.tag)
    (hmatched : ∀ meeting ∈ meetings, meeting.Matched size)
    (hattended : ∀ meeting ∈ meetings, meeting.attended rank = true)
    (hhelped : delivery = .rendezvous → ∀ meeting ∈ meetings, meeting.helped rank = true ∨
      (meeting.sent rank).ranks = [] ∨ (meeting.owed rank).ranks = [])
    (hspaced : Spaced meetings rank) :
    (script rank 0 meetings).Compatible used size delivery where
  staged := pairwise_script rank meetings 0
  owed := by
    intro time tag owed payload found htake
    obtain ⟨index, meeting, hmeeting, _, _, howed, _, hranks⟩ := exists_meeting_of_take 0 htake
    refine ⟨hranks, fun source hsource => ?_⟩
    rw [howed] at hsource
    exact (hmatched meeting (List.mem_of_getElem? hmeeting)).owed_lt source rank hsource
  posted := by
    intro entry hentry
    obtain ⟨meeting, hmeeting, hpost⟩ := exists_meeting_of_outgoing 0 hentry
    obtain ⟨hpeer, htag, _⟩ := mem_posts_iff.1 hpost
    rw [htag]
    exact ⟨htags meeting hmeeting, (hmatched meeting hmeeting).sent_lt rank _ hpeer⟩
  separated := by
    intro time time' tag owed owed' payload payload' found found' source htake htake' htime hsource
    obtain ⟨early, first, hfirst, hearly, htag, howed, _, hranks⟩ :=
      exists_meeting_of_take 0 htake
    obtain ⟨late, last, hlast, hlate, htag', howed', _⟩ := exists_meeting_of_take 0 htake'
    rw [howed] at hranks
    rw [howed'] at hsource
    rcases hspaced early late first last source hfirst hlast (by omega) (htag.symm.trans htag')
      hranks hsource with hsingle | ⟨between, meeting, hlow, hhigh, hmeeting, hsent⟩
    · rw [howed]
      exact .inl hsingle
    refine .inr ⟨(0 + between, ⟨source, meeting.tag, meeting.payload rank source⟩), ?_, ?_, ?_, rfl⟩
    · exact mem_outgoing_script hmeeting hattended (mem_posts_iff.2 ⟨hsent, rfl, rfl⟩) 0
    · simp only
      omega
    · simp only
      omega
  unhindered := by
    intro hrendezvous time post tag owed payload found hsend htake
    obtain ⟨index, meeting, hmeeting, htime, hunhelped, hpost⟩ := exists_meeting_of_send 0 hsend
    obtain ⟨index', meeting', hmeeting', htime', _, howed, _, hranks⟩ :=
      exists_meeting_of_take 0 htake
    have hindex : index' = index := by omega
    rw [hindex, hmeeting] at hmeeting'
    cases hmeeting'
    rcases hhelped hrendezvous meeting (List.mem_of_getElem? hmeeting) with
      hhelp | hnone | hnone
    · rw [hunhelped] at hhelp
      cases hhelp
    · have hpeer := (mem_posts_iff.1 hpost).1
      rw [RankSet.mem_def, hnone] at hpeer
      cases hpeer
    · rw [howed] at hranks
      exact hranks hnone

end Meeting

end RankExchange
