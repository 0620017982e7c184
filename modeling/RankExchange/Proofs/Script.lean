import RankExchange.Program
import RankExchange.RankSet

/-!
# Scripts

A script is what a rank has to do in a group, in order: messages it sends
itself or lets its helper thread send, messages it waits for, and the end of
the helper thread.  A program follows a script if it does just that as long as
each message it waits for is the one that is due.  A program that has met a
message that was not due, or whose transport has failed it, is out of step; it
still sends what the script says, but what it receives is left open.
-/

namespace RankExchange

/-- One duty of a rank and the time it belongs to.  In its envelopes stand the
ranks at the other end. -/
inductive Duty
  | send (time : Nat) (post : Envelope)
  | spawn (time : Nat) (posts : List Envelope)
  /-- Takes one message from every rank that owes one; `found` is the source of
  the message that has been probed and not yet received. -/
  | take (time : Nat) (tag : Tag) (owed : RankSet) (payload : Nat → Bytes) (found : Option Nat)
  | join (time : Nat)

namespace Duty

def time : Duty → Nat
  | .send time _ => time
  | .spawn time _ => time
  | .take time _ _ _ _ => time
  | .join time => time

def isTake : Duty → Bool
  | .take _ _ _ _ _ => true
  | _ => false

def sent : Duty → List Envelope
  | .send _ post => [post]
  | .spawn _ posts => posts
  | _ => []

def taken : Duty → List Envelope
  | .take _ tag owed payload _ => owed.ranks.map (fun source => ⟨source, tag, payload source⟩)
  | _ => []

end Duty

abbrev Script := List Duty

namespace Script

def clock : Script → Nat
  | [] => 0
  | duty :: _ => duty.time

def outgoing (script : Script) : List (Nat × Envelope) :=
  script.flatMap (fun duty => duty.sent.map (fun post => (duty.time, post)))

def incoming (script : Script) : List (Nat × Envelope) :=
  script.flatMap (fun duty => duty.taken.map (fun post => (duty.time, post)))

/-- What is left of a script for a rank that is out of step. -/
def outward (script : Script) : Script :=
  script.filter (fun duty => !duty.isTake)

/-- The script in which some messages come before everything else. -/
def await (time : Nat) (tag : Tag) (owed : RankSet) (payload : Nat → Bytes) (rest : Script) :
    Script :=
  if owed.ranks = [] then rest else .take time tag owed payload none :: rest

/-- A script in the middle of a round, in which a helper thread may be at
work. -/
def Helping : Script → Prop
  | .join _ :: _ => True
  | .take time _ _ _ _ :: .join time' :: _ => time = time'
  | _ => False

/-- The payloads for one peer and tag among dated envelopes. -/
def select (peer : Nat) (tag : Tag) (dated : List (Nat × Envelope)) : List (Nat × Bytes) :=
  dated.filterMap (fun entry =>
    if entry.2.peer = peer ∧ entry.2.tag = tag then some (entry.1, entry.2.payload) else none)

theorem mem_of_eq_cons {script rest : Script} {duty : Duty} (h : script = duty :: rest) :
    duty ∈ script := by
  rw [h]
  exact List.mem_cons_self

theorem helping_take_iff {time : Nat} {tag : Tag} {owed : RankSet} {payload : Nat → Bytes}
    {found : Option Nat} {script : Script} :
    Helping (.take time tag owed payload found :: script) ↔
      ∃ rest, script = .join time :: rest := by
  constructor
  · intro h
    cases script with
    | nil => cases h
    | cons duty rest =>
        cases duty with
        | join time' =>
            have htime : time = time' := h
            exact ⟨rest, by rw [htime]⟩
        | send time' post => cases h
        | spawn time' posts => cases h
        | take time' tag' owed' payload' found' => cases h
  · rintro ⟨rest, rfl⟩
    exact rfl

theorem outgoing_cons (duty : Duty) (rest : Script) :
    outgoing (duty :: rest) =
      duty.sent.map (fun post => (duty.time, post)) ++ outgoing rest := rfl

theorem incoming_cons (duty : Duty) (rest : Script) :
    incoming (duty :: rest) =
      duty.taken.map (fun post => (duty.time, post)) ++ incoming rest := rfl

theorem outgoing_append (front back : Script) :
    outgoing (front ++ back) = outgoing front ++ outgoing back := by
  unfold outgoing
  exact List.flatMap_append

theorem incoming_append (front back : Script) :
    incoming (front ++ back) = incoming front ++ incoming back := by
  unfold incoming
  exact List.flatMap_append

theorem select_append (peer : Nat) (tag : Tag) (front back : List (Nat × Envelope)) :
    select peer tag (front ++ back) = select peer tag front ++ select peer tag back := by
  unfold select
  exact List.filterMap_append

theorem select_cons (peer : Nat) (tag : Tag) (time : Nat) (post : Envelope)
    (rest : List (Nat × Envelope)) :
    select peer tag ((time, post) :: rest) =
      (if peer = post.peer ∧ tag = post.tag then [(time, post.payload)] else []) ++
        select peer tag rest := by
  unfold select
  by_cases h : peer = post.peer ∧ tag = post.tag
  · obtain ⟨rfl, rfl⟩ := h
    simp
  · have hne : ¬ (post.peer = peer ∧ post.tag = tag) := fun h' => h ⟨h'.1.symm, h'.2.symm⟩
    rw [List.filterMap_cons_none (by simp only [if_neg hne]), if_neg h, List.nil_append]

theorem mem_select_iff {peer : Nat} {tag : Tag} {dated : List (Nat × Envelope)}
    {entry : Nat × Bytes} :
    entry ∈ select peer tag dated ↔ (entry.1, Envelope.mk peer tag entry.2) ∈ dated := by
  unfold select
  rw [List.mem_filterMap]
  constructor
  · rintro ⟨⟨time, post⟩, hmem, heq⟩
    split at heq
    · next h =>
        cases heq
        obtain ⟨rfl, rfl⟩ := h
        exact hmem
    · cases heq
  · intro hmem
    exact ⟨_, hmem, by simp⟩

theorem mem_outgoing_iff {script : Script} {time : Nat} {post : Envelope} :
    (time, post) ∈ script.outgoing ↔ ∃ duty ∈ script, duty.time = time ∧ post ∈ duty.sent := by
  unfold outgoing
  rw [List.mem_flatMap]
  constructor
  · rintro ⟨duty, hduty, hmem⟩
    obtain ⟨sent, hsent, heq⟩ := List.mem_map.1 hmem
    cases heq
    exact ⟨duty, hduty, rfl, hsent⟩
  · rintro ⟨duty, hduty, rfl, hsent⟩
    exact ⟨duty, hduty, List.mem_map.2 ⟨post, hsent, rfl⟩⟩

theorem mem_incoming_iff {script : Script} {time : Nat} {post : Envelope} :
    (time, post) ∈ script.incoming ↔ ∃ duty ∈ script, duty.time = time ∧ post ∈ duty.taken := by
  unfold incoming
  rw [List.mem_flatMap]
  constructor
  · rintro ⟨duty, hduty, hmem⟩
    obtain ⟨taken, htaken, heq⟩ := List.mem_map.1 hmem
    cases heq
    exact ⟨duty, hduty, rfl, htaken⟩
  · rintro ⟨duty, hduty, rfl, htaken⟩
    exact ⟨duty, hduty, List.mem_map.2 ⟨post, htaken, rfl⟩⟩

/-- What is due from a source on a tag belongs to a take of the script. -/
theorem exists_take_of_select {script : Script} {source time : Nat} {tag : Tag} {text : Bytes}
    (h : (time, text) ∈ select source tag script.incoming) :
    ∃ owed payload found, .take time tag owed payload found ∈ script ∧ source ∈ owed := by
  rw [mem_select_iff, mem_incoming_iff] at h
  obtain ⟨duty, hduty, htime, htaken⟩ := h
  cases duty with
  | send => cases htaken
  | spawn => cases htaken
  | join => cases htaken
  | take time' label owed payload found =>
      obtain ⟨source', hsource, heq⟩ := List.mem_map.1 htaken
      cases heq
      cases htime
      exact ⟨owed, payload, found, hduty, hsource⟩

theorem outward_cons_take (time : Nat) (tag : Tag) (owed : RankSet) (payload : Nat → Bytes)
    (found : Option Nat) (rest : Script) :
    outward (.take time tag owed payload found :: rest) = outward rest := rfl

theorem outward_cons_spawn (time : Nat) (posts : List Envelope) (rest : Script) :
    outward (.spawn time posts :: rest) = .spawn time posts :: outward rest := rfl

theorem outward_append (front back : Script) :
    outward (front ++ back) = outward front ++ outward back := by
  unfold outward
  exact List.filter_append front back

theorem outgoing_outward (script : Script) : script.outward.outgoing = script.outgoing := by
  induction script with
  | nil => rfl
  | cons duty rest ih =>
      cases duty with
      | take time tag owed payload found =>
          rw [outward_cons_take, ih, outgoing_cons]
          rfl
      | send time post =>
          change outgoing (.send time post :: outward rest) = _
          rw [outgoing_cons, outgoing_cons, ih]
      | spawn time posts =>
          change outgoing (.spawn time posts :: outward rest) = _
          rw [outgoing_cons, outgoing_cons, ih]
      | join time =>
          change outgoing (.join time :: outward rest) = _
          rw [outgoing_cons, outgoing_cons, ih]

theorem outward_await (time : Nat) (tag : Tag) (owed : RankSet) (payload : Nat → Bytes)
    (rest : Script) : outward (await time tag owed payload rest) = outward rest := by
  unfold await
  split <;> rfl

theorem outgoing_await (time : Nat) (tag : Tag) (owed : RankSet) (payload : Nat → Bytes)
    (rest : Script) : outgoing (await time tag owed payload rest) = outgoing rest := by
  rw [← outgoing_outward, outward_await, outgoing_outward]

theorem select_owed {ranks : List Nat} (hnodup : ranks.Nodup) (time source : Nat)
    (tag label : Tag) (payload : Nat → Bytes) :
    select source tag (ranks.map (fun rank => (time, Envelope.mk rank label (payload rank)))) =
      if source ∈ ranks ∧ tag = label then [(time, payload source)] else [] := by
  induction ranks with
  | nil => simp [select]
  | cons first rest ih =>
      rw [List.nodup_cons] at hnodup
      rw [List.map_cons, select_cons, ih hnodup.2]
      by_cases hfirst : source = first
      · have hrest : ¬ source ∈ rest := by
          rw [hfirst]
          exact hnodup.1
        by_cases htag : tag = label <;> simp [hfirst, hnodup.1, htag]
      · by_cases htag : tag = label <;> simp [hfirst, htag]

theorem select_incoming_take (source time : Nat) (tag label : Tag) (owed : RankSet)
    (payload : Nat → Bytes) (found : Option Nat) (rest : Script) :
    select source tag (incoming (.take time label owed payload found :: rest)) =
      (if source ∈ owed ∧ tag = label then [(time, payload source)] else []) ++
        select source tag (incoming rest) := by
  rw [incoming_cons, select_append]
  congr 1
  change select source tag ((owed.ranks.map _).map _) = _
  rw [List.map_map]
  exact select_owed owed.nodup time source tag label payload

theorem select_incoming_await (source time : Nat) (tag label : Tag) (owed : RankSet)
    (payload : Nat → Bytes) (rest : Script) :
    select source tag (incoming (await time label owed payload rest)) =
      (if source ∈ owed ∧ tag = label then [(time, payload source)] else []) ++
        select source tag (incoming rest) := by
  unfold await
  split
  · next h => simp [RankSet.mem_def, h]
  · exact select_incoming_take source time tag label owed payload none rest

end Script

end RankExchange
