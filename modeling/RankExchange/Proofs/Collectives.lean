import Mathlib.Data.List.Forall2
import RankExchange.Proofs.CollectiveScripts
import RankExchange.Proofs.FreshGroups

/-!
# Programs of collectives

All ranks of a group run the same list of collectives, each on a tag of its
own.  A rank may be many collectives ahead of another one; what it sends then
waits on other tags, and nobody is disturbed by it.
-/

namespace RankExchange

namespace Coder

variable {α : Type} {coder : Coder α} {value copy : α}

/-- What becomes of a value on its way through a message. -/
def relay (coder : Coder α) (value : α) : Except Fault α := do
  let text ← coder.encode value
  coder.decode text

def text (coder : Coder α) (value : α) : Bytes :=
  (coder.encode value).toOption.getD []

theorem encode_of_relay (h : coder.relay value = .ok copy) :
    coder.encode value = .ok (coder.text value) := by
  unfold relay at h
  unfold text
  cases hencode : coder.encode value with
  | ok text => rfl
  | error fault =>
      rw [hencode] at h
      cases h

theorem decode_of_relay (h : coder.relay value = .ok copy) :
    coder.decode (coder.text value) = .ok copy := by
  have hencode := encode_of_relay h
  unfold relay at h
  rw [hencode] at h
  exact h

end Coder

def foldRanks {α : Type} (fold : α → α → α) (value : Nat → α) (size : Nat) : α :=
  (List.range' 1 (size - 1)).foldl (fun total rank => fold total (value rank)) (value 0)

namespace Endpoint

open Program

variable {α : Type} {endpoint : Nat → Endpoint} {root rank size : Nat} {granted : Threading}
  {tag : Tag} {coder : Coder α} {fold : α → α → α} {value copy : Nat → α}

theorem foldlM_decode {text : Nat → Bytes} {ranks : List Nat}
    (h : ∀ rank ∈ ranks, coder.decode (text rank) = .ok (copy rank)) :
    ∀ start, (ranks.map text).foldlM (fun total payload => fold total <$> coder.decode payload)
      start = .ok (ranks.foldl (fun total rank => fold total (copy rank)) start) := by
  induction ranks with
  | nil => exact fun _ => rfl
  | cons rank ranks ih =>
      intro start
      have hrest := ih (fun other hother => h other (List.mem_cons_of_mem _ hother))
        (fold start (copy rank))
      rw [List.map_cons, List.foldlM_cons, h rank List.mem_cons_self]
      exact hrest

theorem foldDecoded_map {text : Nat → Bytes} (hsize : 0 < size)
    (h : ∀ rank, rank < size → coder.decode (text rank) = .ok (copy rank)) :
    foldDecoded coder fold ((List.range size).map text) =
      .ok (some (foldRanks fold copy size)) := by
  have hrange : List.range size = 0 :: List.range' 1 (size - 1) := by
    obtain ⟨last, rfl⟩ := Nat.exists_eq_succ_of_ne_zero (Nat.ne_of_gt hsize)
    rw [List.range_eq_range', List.range'_succ]
    rfl
  have hrest : ∀ rank ∈ List.range' 1 (size - 1), coder.decode (text rank) = .ok (copy rank) := by
    intro rank hrank
    have hbounds := List.mem_range'_1.1 hrank
    exact h rank (by omega)
  rw [hrange, List.map_cons]
  change (coder.decode (text 0) >>= fun start =>
    ((List.range' 1 (size - 1)).map text).foldlM (fun total payload =>
      fold total <$> coder.decode payload) start >>= fun total => pure (some total)) = _
  rw [h 0 hsize]
  change (List.foldlM _ (copy 0) _ >>= fun total => Except.ok (some total)) = _
  rw [foldlM_decode hrest]
  rfl

theorem reduce_eq {endpoint : Endpoint} {value : α} {text : Bytes}
    (hencode : coder.encode value = .ok text) : endpoint.reduce root tag coder value fold =
      (endpoint.gather root tag text).bind
        (fun gathered => .done (foldDecoded coder fold gathered.values)) := by
  unfold reduce
  rw [hencode]
  rfl

theorem followsScript_reduce (hopen : (endpoint rank).standing = .ok ⟨rank, size, granted⟩)
    (htag : (endpoint rank).tags.contains tag = true) (hroot : root < size) (hrank : rank < size)
    (hcopies : ∀ rank, rank < size → coder.relay (value rank) = .ok (copy rank)) (time : Nat)
    (rest : Script) :
    FollowsScript
      (Ends (Returns (if rank = root then some (foldRanks fold copy size) else none) rest)) true
      ((endpoint rank).reduce root tag coder (value rank) fold)
      ((Meeting.fanIn size root endpoint tag (fun rank => coder.text (value rank))).before rank
        time rest) := by
  rw [reduce_eq (Coder.encode_of_relay (hcopies rank hrank))]
  have hgather := followsScript_gather hopen htag hroot hrank
    (fun rank => coder.text (value rank)) time
    rest
  apply hgather.bind_returns
  by_cases heq : rank = root
  · have hfold : foldDecoded coder fold
        ((List.range size).map (fun rank => coder.text (value rank))) =
        .ok (some (foldRanks fold copy size)) :=
      foldDecoded_map (Nat.zero_lt_of_lt hroot)
        (fun rank hrank => Coder.decode_of_relay (hcopies rank hrank))
    rw [if_pos heq, if_pos heq, RankMap.values_tabulate]
    change FollowsScript _ true (.done (foldDecoded coder fold ((List.range size).map _))) rest
    rw [hfold]
    exact .done .kept
  · rw [if_neg heq, if_neg heq]
    exact .done .kept

theorem allReduce_eq (endpoint : Endpoint) (value : α) :
    endpoint.allReduce tag coder value fold =
      (endpoint.reduce 0 tag coder value fold).bind (fun reduced =>
        (Program.done (encodeTotal coder reduced)).bind (fun payload =>
          (endpoint.broadcast 0 tag payload).bind (fun shared => .done (coder.decode shared)))) :=
  rfl

theorem followsScript_allReduce {shared : α} {total : Bytes}
    (hopen : (endpoint rank).standing = .ok ⟨rank, size, granted⟩)
    (htag : (endpoint rank).tags.contains tag = true) (hrank : rank < size)
    (hcopies : ∀ rank, rank < size → coder.relay (value rank) = .ok (copy rank))
    (hencode : coder.encode (foldRanks fold copy size) = .ok total)
    (hdecode : coder.decode total = .ok shared) (time : Nat) (rest : Script) :
    FollowsScript (Ends (Returns shared rest)) true
      ((endpoint rank).allReduce tag coder (value rank) fold)
      ((Meeting.fanIn size 0 endpoint tag (fun rank => coder.text (value rank))).before rank time
        ((Meeting.fanOut size 0 endpoint tag total).before rank (time + 1) rest)) := by
  have hroot : 0 < size := Nat.zero_lt_of_lt hrank
  obtain ⟨own, hpass, hown⟩ : ∃ own, encodeTotal coder
      (if rank = 0 then some (foldRanks fold copy size) else none) = .ok own ∧
        (rank = 0 → own = total) := by
    by_cases heq : rank = 0
    · rw [if_pos heq]
      exact ⟨total, hencode, fun _ => rfl⟩
    · rw [if_neg heq]
      exact ⟨[], rfl, fun h => absurd h heq⟩
  rw [allReduce_eq]
  apply (followsScript_reduce hopen htag hroot hrank hcopies time _).bind_returns
  rw [hpass]
  apply (followsScript_broadcast hopen htag hroot hrank hown (time + 1) rest).bind_returns
  rw [hdecode]
  exact .done .kept

end Endpoint

/-- A collective and what every rank passes to it, where the values of each
kind have a type of their own. -/
inductive Collective {Kind : Type} (Value : Kind → Type)
  | broadcast (root : Nat) (tag : Tag) (payload : Nat → Bytes)
  | gather (root : Nat) (tag : Tag) (payload : Nat → Bytes)
  | reduce (kind : Kind) (root : Nat) (tag : Tag) (coder : Coder (Value kind))
      (value : Nat → Value kind) (fold : Value kind → Value kind → Value kind)
  | allReduce (kind : Kind) (tag : Tag) (coder : Coder (Value kind))
      (value : Nat → Value kind) (fold : Value kind → Value kind → Value kind)

inductive Answer {Kind : Type} (Value : Kind → Type)
  | payload (payload : Bytes)
  | table (payloads : RankMap Bytes)
  | total (kind : Kind) (total : Option (Value kind))
  | shared (kind : Kind) (total : Value kind)

namespace Endpoint

variable {Kind : Type} {Value : Kind → Type}

def perform (endpoint : Endpoint) (rank : Nat) : Collective Value → Program (Answer Value)
  | .broadcast root tag payload => do
      return .payload (← endpoint.broadcast root tag (payload rank))
  | .gather root tag payload => do
      return .table (← endpoint.gather root tag (payload rank))
  | .reduce kind root tag coder value fold => do
      return .total kind (← endpoint.reduce root tag coder (value rank) fold)
  | .allReduce kind tag coder value fold => do
      return .shared kind (← endpoint.allReduce tag coder (value rank) fold)

def performAll (endpoint : Endpoint) (rank : Nat) :
    List (Collective Value) → Program (List (Answer Value))
  | [] => return []
  | collective :: collectives => do
      let answer ← endpoint.perform rank collective
      let answers ← endpoint.performAll rank collectives
      return answer :: answers

end Endpoint

/-- What a collective has to return on every rank of a group.  There is an
answer if the root is a rank of the group and the coder can write and read the
values. -/
inductive Answers {Kind : Type} {Value : Kind → Type} (size : Nat) :
    Collective Value → (Nat → Answer Value) → Prop
  | broadcast {root : Nat} {tag : Tag} {payload : Nat → Bytes} (hroot : root < size) :
      Answers size (.broadcast root tag payload) (fun _ => .payload (payload root))
  | gather {root : Nat} {tag : Tag} {payload : Nat → Bytes} (hroot : root < size) :
      Answers size (.gather root tag payload) (fun rank =>
        .table (if rank = root then RankMap.tabulate (.upTo size) payload else .empty))
  | reduce {kind : Kind} {root : Nat} {tag : Tag} {coder : Coder (Value kind)}
      {value copy : Nat → Value kind} {fold : Value kind → Value kind → Value kind}
      (hroot : root < size)
      (hcopies : ∀ rank, rank < size → coder.relay (value rank) = .ok (copy rank)) :
      Answers size (.reduce kind root tag coder value fold) (fun rank =>
        .total kind (if rank = root then some (foldRanks fold copy size) else none))
  | allReduce {kind : Kind} {tag : Tag} {coder : Coder (Value kind)}
      {value copy : Nat → Value kind} {fold : Value kind → Value kind → Value kind}
      {shared : Value kind} (hsize : 0 < size)
      (hcopies : ∀ rank, rank < size → coder.relay (value rank) = .ok (copy rank))
      (hshared : coder.relay (foldRanks fold copy size) = .ok shared) :
      Answers size (.allReduce kind tag coder value fold) (fun _ => .shared kind shared)

namespace Collective

variable {Kind : Type} {Value : Kind → Type}

def tag : Collective Value → Tag
  | .broadcast _ tag _ => tag
  | .gather _ tag _ => tag
  | .reduce _ _ tag _ _ _ => tag
  | .allReduce _ tag _ _ _ => tag

def sharedText {α : Type} (coder : Coder α) (value : Nat → α) (fold : α → α → α) (size : Nat) :
    Bytes :=
  match Endpoint.foldDecoded coder fold
    ((List.range size).map (fun rank => coder.text (value rank))) with
  | .ok (some total) => coder.text total
  | _ => []

def meetings (size : Nat) (endpoint : Nat → Endpoint) : Collective Value → List Meeting
  | .broadcast root tag payload => [.fanOut size root endpoint tag (payload root)]
  | .gather root tag payload => [.fanIn size root endpoint tag payload]
  | .reduce _ root tag coder value _ =>
      [.fanIn size root endpoint tag (fun rank => coder.text (value rank))]
  | .allReduce _ tag coder value fold =>
      [.fanIn size 0 endpoint tag (fun rank => coder.text (value rank)),
        .fanOut size 0 endpoint tag (sharedText coder value fold size)]

variable {size : Nat} {endpoint : Nat → Endpoint} {collective : Collective Value}
  {collectives : List (Collective Value)} {meeting : Meeting} {answer : Nat → Answer Value}

theorem meetings_cases {p : Meeting → Prop} (hanswers : Answers size collective answer)
    (hfanOut : ∀ root payload, root < size →
      p (.fanOut size root endpoint collective.tag payload))
    (hfanIn : ∀ root payload, root < size →
      p (.fanIn size root endpoint collective.tag payload)) :
    ∀ meeting ∈ collective.meetings size endpoint, p meeting := by
  intro meeting hmeeting
  cases hanswers with
  | broadcast hroot =>
      rw [List.mem_singleton.1 hmeeting]
      exact hfanOut _ _ hroot
  | gather hroot =>
      rw [List.mem_singleton.1 hmeeting]
      exact hfanIn _ _ hroot
  | reduce hroot =>
      rw [List.mem_singleton.1 hmeeting]
      exact hfanIn _ _ hroot
  | allReduce hsize =>
      rcases List.mem_cons.1 hmeeting with rfl | hlast
      · exact hfanIn _ _ hsize
      · rw [List.mem_singleton.1 hlast]
        exact hfanOut _ _ hsize

/-- In one collective no rank takes messages twice. -/
theorem pairwise_meetings (hanswers : Answers size collective answer) :
    (collective.meetings size endpoint).Pairwise (fun first last => ∀ rank,
      (first.owed rank).ranks ≠ [] → (last.owed rank).ranks = []) := by
  cases hanswers with
  | broadcast => exact List.pairwise_singleton _ _
  | gather => exact List.pairwise_singleton _ _
  | reduce => exact List.pairwise_singleton _ _
  | allReduce =>
      apply List.pairwise_pair.2
      intro rank howed
      have hzero : rank = 0 := by
        apply Classical.byContradiction
        intro hne
        exact howed (congrArg RankSet.ranks (if_neg hne))
      exact congrArg RankSet.ranks (if_neg (fun h => h.2 hzero))

theorem sharedText_eq {α : Type} {coder : Coder α} {value copy : Nat → α} {fold : α → α → α}
    (hsize : 0 < size)
    (hcopies : ∀ rank, rank < size → coder.relay (value rank) = .ok (copy rank)) :
    sharedText coder value fold size = coder.text (foldRanks fold copy size) := by
  unfold sharedText
  rw [Endpoint.foldDecoded_map hsize
    (fun rank hrank => Coder.decode_of_relay (hcopies rank hrank))]

end Collective

namespace Meeting

/-- The script of one rank at several meetings, before a given rest. -/
def scriptBefore (rank : Nat) : Nat → List Meeting → Script → Script
  | _, [], rest => rest
  | time, meeting :: meetings, rest =>
      meeting.before rank time (scriptBefore rank (time + 1) meetings rest)

theorem script_append (rank : Nat) (first last : List Meeting) :
    ∀ time, script rank time (first ++ last) =
      scriptBefore rank time first (script rank (time + first.length) last) := by
  induction first with
  | nil => exact fun _ => rfl
  | cons meeting first ih =>
      intro time
      have hlength : time + (meeting :: first).length = time + 1 + first.length := by
        rw [List.length_cons]
        omega
      rw [hlength]
      change meeting.before rank time (script rank (time + 1) (first ++ last)) = _
      rw [ih]
      rfl

end Meeting

namespace Endpoint

open Program

variable {Kind : Type} {Value : Kind → Type} {endpoint : Nat → Endpoint} {rank size : Nat}
  {granted : Threading} {collective : Collective Value} {collectives : List (Collective Value)}
  {answer : Nat → Answer Value} {answers : List (Nat → Answer Value)}

theorem followsScript_perform (hopen : (endpoint rank).standing = .ok ⟨rank, size, granted⟩)
    (htag : (endpoint rank).tags.contains collective.tag = true) (hrank : rank < size)
    (hanswers : Answers size collective answer) (time : Nat) (rest : Script) :
    FollowsScript (Ends (Returns (answer rank) rest)) true ((endpoint rank).perform rank collective)
      (Meeting.scriptBefore rank time (collective.meetings size endpoint) rest) := by
  cases hanswers with
  | broadcast hroot =>
      apply (followsScript_broadcast hopen htag hroot hrank (fun h => by rw [h]) time
        rest).bind_returns
      exact .done .kept
  | gather hroot =>
      apply (followsScript_gather hopen htag hroot hrank _ time rest).bind_returns
      exact .done .kept
  | reduce hroot hcopies =>
      apply (followsScript_reduce hopen htag hroot hrank hcopies time rest).bind_returns
      exact .done .kept
  | allReduce hsize hcopies hshared =>
      change FollowsScript _ true _ (Meeting.before _ rank time
        ((Meeting.fanOut size 0 endpoint _ (Collective.sharedText _ _ _ size)).before rank
          (time + 1) rest))
      rw [Collective.sharedText_eq hsize hcopies]
      apply (followsScript_allReduce hopen htag hrank hcopies (Coder.encode_of_relay hshared)
        (Coder.decode_of_relay hshared) time rest).bind_returns
      exact .done .kept

theorem followsScript_performAll (hopen : (endpoint rank).standing = .ok ⟨rank, size, granted⟩)
    (hrank : rank < size) (hanswers : List.Forall₂ (Answers size) collectives answers)
    (hinside : ∀ collective ∈ collectives,
      (endpoint rank).tags.contains collective.tag = true) :
    ∀ time, FollowsScript (Ends (Returns (answers.map (fun answer => answer rank)) [])) true
      ((endpoint rank).performAll rank collectives)
      (Meeting.script rank time (collectives.flatMap (Collective.meetings size endpoint))) := by
  induction hanswers with
  | nil => exact fun _ => .done .kept
  | cons hfirst _ ih =>
      intro time
      have hrest := ih (fun other hother => hinside other (List.mem_cons_of_mem _ hother))
      rw [List.flatMap_cons, Meeting.script_append]
      apply (followsScript_perform hopen (hinside _ List.mem_cons_self) hrank hfirst time
        _).bind_returns
      apply (hrest _).bind_returns
      exact .done .kept

end Endpoint

namespace Collective

variable {Kind : Type} {Value : Kind → Type} {endpoint : Nat → Endpoint} {size : Nat}
  {collectives : List (Collective Value)} {answers : List (Nat → Answer Value)}

theorem exists_answer (hanswers : List.Forall₂ (Answers size) collectives answers) :
    ∀ collective ∈ collectives, ∃ answer, Answers size collective answer := by
  induction hanswers with
  | nil =>
      intro collective hmem
      cases hmem
  | cons hfirst _ ih =>
      intro collective hmem
      rcases List.mem_cons.1 hmem with rfl | hmem
      · exact ⟨_, hfirst⟩
      · exact ih collective hmem

theorem flatMap_meetings_cases {p : Meeting → Prop}
    (hanswers : List.Forall₂ (Answers size) collectives answers)
    (hfanOut : ∀ collective ∈ collectives, ∀ root payload, root < size →
      p (.fanOut size root endpoint collective.tag payload))
    (hfanIn : ∀ collective ∈ collectives, ∀ root payload, root < size →
      p (.fanIn size root endpoint collective.tag payload)) :
    ∀ meeting ∈ collectives.flatMap (meetings size endpoint), p meeting := by
  intro meeting hmeeting
  obtain ⟨collective, hmem, hmeeting⟩ := List.mem_flatMap.1 hmeeting
  obtain ⟨answer, hanswer⟩ := exists_answer hanswers collective hmem
  exact meetings_cases hanswer (hfanOut collective hmem) (hfanIn collective hmem) meeting hmeeting

/-- With a tag for each collective, no rank takes messages on one tag twice. -/
theorem spaced_flatMap_meetings (hanswers : List.Forall₂ (Answers size) collectives answers)
    (hdistinct : (collectives.map Collective.tag).Nodup) (rank : Nat) :
    Meeting.Spaced (collectives.flatMap (meetings size endpoint)) rank := by
  have htag : ∀ collective ∈ collectives, ∀ meeting ∈ collective.meetings size endpoint,
      meeting.tag = collective.tag := by
    intro collective hmem
    obtain ⟨answer, hanswer⟩ := exists_answer hanswers collective hmem
    exact meetings_cases (p := fun meeting => meeting.tag = collective.tag) hanswer
      (fun _ _ _ => rfl) (fun _ _ _ => rfl)
  have hpairwise : (collectives.flatMap (meetings size endpoint)).Pairwise
      (fun first last => first.tag = last.tag → ∀ rank,
        (first.owed rank).ranks ≠ [] → (last.owed rank).ranks = []) := by
    rw [List.pairwise_flatMap]
    constructor
    · intro collective hmem
      obtain ⟨answer, hanswer⟩ := exists_answer hanswers collective hmem
      apply (pairwise_meetings hanswer).imp
      intro first last hnone _
      exact hnone
    · apply (List.pairwise_map.1 hdistinct).imp_of_mem
      intro early late hearly hlate hne first hfirst last hlast heq
      rw [htag early hearly first hfirst, htag late hlate last hlast] at heq
      exact absurd heq hne
  intro early late first last source hfirst hlast hlt hsame howed hsource
  obtain ⟨_, rfl⟩ := List.getElem?_eq_some_iff.1 hfirst
  obtain ⟨_, rfl⟩ := List.getElem?_eq_some_iff.1 hlast
  have hnone := List.pairwise_iff_getElem.1 hpairwise early late _ _ hlt hsame rank howed
  rw [RankSet.mem_def, hnone] at hsource
  cases hsource

end Collective

namespace World

variable {Kind : Type} {Value : Kind → Type} {group : Group} {endpoint : Nat → Endpoint}
  {collectives : List (Collective Value)} {answers : List (Nat → Answer Value)}

/-- What keeps a program of collectives in step, apart from the tags: no
rank takes messages while its main thread waits with one of its own. -/
theorem inStep_of_spaced (hopened : group.Opened endpoint) (hintact : group.Intact)
    (hquiet : group.Quiet (fun tag => ∃ collective ∈ collectives, collective.tag = tag))
    (hhelped : group.delivery = .rendezvous → ∀ rank, rank < group.size →
      ∀ meeting ∈ collectives.flatMap (Collective.meetings group.size endpoint),
        meeting.helped rank = true ∨ (meeting.sent rank).ranks = [] ∨
          (meeting.owed rank).ranks = [])
    (hspaced : ∀ rank, rank < group.size →
      Meeting.Spaced (collectives.flatMap (Collective.meetings group.size endpoint)) rank)
    (hinside : ∀ collective ∈ collectives, ∀ rank, rank < group.size →
      (endpoint rank).tags.contains collective.tag = true)
    (hanswers : List.Forall₂ (Answers group.size) collectives answers) :
    ∃ position, (starting group (fun rank => (endpoint rank).performAll rank collectives)).InStep
      (fun tag => ∃ collective ∈ collectives, collective.tag = tag)
      (fun rank => answers.map (fun answer => answer rank)) position := by
  refine ⟨fun rank => ⟨true, Meeting.scriptIn group.size
    (collectives.flatMap (Collective.meetings group.size endpoint)) rank⟩,
    inStep_of_meetings hquiet hintact ?_ ?_ ?_ hhelped hspaced ?_⟩
  · exact Collective.flatMap_meetings_cases hanswers
      (fun collective hmem _ _ _ => ⟨collective, hmem, rfl⟩)
      (fun collective hmem _ _ _ => ⟨collective, hmem, rfl⟩)
  · exact Collective.flatMap_meetings_cases hanswers
      (fun _ _ _ payload hroot => Meeting.matched_fanOut hroot payload)
      (fun _ _ _ payload hroot => Meeting.matched_fanIn hroot payload)
  · exact Collective.flatMap_meetings_cases hanswers (fun _ _ _ _ _ _ => rfl)
      (fun _ _ _ _ _ _ => rfl)
  · intro rank hrank
    have hfollows := Endpoint.followsScript_performAll
      (hopened rank _ (List.getElem?_eq_getElem hrank))
      hrank hanswers (fun collective hmem => hinside collective hmem rank hrank) 0
    apply hfollows.mono
    rintro inStep program script ⟨result, rfl, hreturns⟩
    refine ⟨result, rfl, fun hstep => ?_⟩
    cases hreturns with
    | kept => exact ⟨rfl, rfl⟩
    | lost => cases hstep

theorem inStep_performAll (hopened : group.Opened endpoint) (hthreaded : group.Threaded)
    (hintact : group.Intact)
    (hquiet : group.Quiet (fun tag => ∃ collective ∈ collectives, collective.tag = tag))
    (hdistinct : (collectives.map Collective.tag).Nodup)
    (hinside : ∀ collective ∈ collectives, ∀ rank, rank < group.size →
      (endpoint rank).tags.contains collective.tag = true)
    (hanswers : List.Forall₂ (Answers group.size) collectives answers) :
    ∃ position, (starting group (fun rank => (endpoint rank).performAll rank collectives)).InStep
      (fun tag => ∃ collective ∈ collectives, collective.tag = tag)
      (fun rank => answers.map (fun answer => answer rank)) position := by
  refine inStep_of_spaced hopened hintact hquiet ?_
    (fun rank _ => Collective.spaced_flatMap_meetings hanswers hdistinct rank) hinside hanswers
  intro hrendezvous rank hrank
  have hconcurrent := hopened.isConcurrent hthreaded hrendezvous hrank
  apply Collective.flatMap_meetings_cases (p := fun meeting => meeting.helped rank = true ∨
    (meeting.sent rank).ranks = [] ∨ (meeting.owed rank).ranks = []) hanswers
  · intro collective _ root payload _
    by_cases heq : rank = root
    · left
      change (decide (rank = root) && (endpoint rank).isConcurrent) = true
      rw [decide_eq_true heq, hconcurrent]
      rfl
    · exact .inr (.inl (congrArg RankSet.ranks (if_neg heq)))
  · exact fun _ _ _ _ _ => .inl hconcurrent

/-- Collectives on different tags are right under every schedule, and all ranks
get through them. -/
theorem answers_of_collectives (hopened : group.Opened endpoint) (hthreaded : group.Threaded)
    (hintact : group.Intact)
    (hquiet : group.Quiet (fun tag => ∃ collective ∈ collectives, collective.tag = tag))
    (hdistinct : (collectives.map Collective.tag).Nodup)
    (hinside : ∀ collective ∈ collectives, ∀ rank, rank < group.size →
      (endpoint rank).tags.contains collective.tag = true)
    (hanswers : List.Forall₂ (Answers group.size) collectives answers)
    {world : World (List (Answer Value))}
    (hreaches : (starting group (fun rank => (endpoint rank).performAll rank collectives)).Reaches
      world) :
    (∀ rank, world.Approaches rank (answers.map (fun answer => answer rank))) ∧
      world.Finishes := by
  obtain ⟨position, hfirst⟩ := inStep_performAll hopened hthreaded hintact hquiet hdistinct
    hinside hanswers
  obtain ⟨position', hlast⟩ := hfirst.reaches hreaches
  exact ⟨hlast.approaches, hlast.finishes⟩

/-- Rank 1 passes a payload on, and then both ranks join their payloads. -/
def collectivePair : List (Collective (fun _ : Unit => Bytes)) :=
  [.broadcast 1 5 (fun rank => [.ofNat rank]),
    .allReduce () 7 .bytes (fun rank => [.ofNat rank]) (· ++ ·)]

theorem answers_of_collectivePair :
    let world := (starting (.ofGrants .rendezvous [.multiple, .multiple]) (fun rank =>
      (Endpoint.opened rank 2 .multiple).performAll rank collectivePair)).run
    world.isDone = true ∧ ∀ rank, world.Approaches rank [.payload [1], .shared () [0, 1]] := by
  have hgrants : ∀ grant ∈ [Threading.multiple, .multiple], grant = .multiple := by decide
  have hopened : (Group.ofGrants .rendezvous [.multiple, .multiple]).Opened
      (fun rank => .opened rank 2 .multiple) := Group.opened_ofGrants hgrants
  have hdistinct : (collectivePair.map Collective.tag).Nodup := by decide
  have hinside : ∀ collective ∈ collectivePair, ∀ rank, rank < 2 →
      (Endpoint.opened rank 2 .multiple).tags.contains collective.tag = true := by
    intro collective hmem rank _
    rcases List.mem_cons.1 hmem with rfl | hmem
    · rfl
    · rw [List.mem_singleton.1 hmem]
      rfl
  have hanswers : List.Forall₂ (Answers 2) collectivePair
      [fun _ => .payload [1], fun _ => .shared () [0, 1]] :=
    .cons (.broadcast (by decide)) (.cons (.allReduce (by decide) (fun _ _ => rfl) rfl) .nil)
  obtain ⟨hresults, hfinishes⟩ := answers_of_collectives hopened
    (Group.threaded_ofGrants hgrants) Group.intact_ofGrants (Group.quiet_ofGrants _) hdistinct
    hinside hanswers (reaches_run _)
  exact ⟨hfinishes.isDone (firstStep_run _), hresults⟩

end World

end RankExchange
