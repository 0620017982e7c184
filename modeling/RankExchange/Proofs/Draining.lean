import RankExchange.Proofs.UnseenChanges
import RankExchange.Proofs.SingleRankRuns

/-!
# Draining

What a rank that only listens does is the same inside a larger program, beside a
helper that sends to others, and after such sends.  So every run of the larger
program contains a run of the smaller one, and every run of the smaller one can be
taken along.
-/

namespace RankExchange

namespace World

variable {α β : Type} {size rank : Nat} {group reached : Group} {drain : Program α}
  {core : Actor α}

/-- A point of a run of one listening rank. -/
structure Drained (size : Nat) (group : Group) (rank : Nat) (drain : Program α)
    (reached : Group) (core : Actor α) : Prop where
  reaches : (solo size group rank { program := drain }).Reaches (solo size reached rank core)
  listens : core.program.Listens
  posts : core.posts = []
  alike : group.Alike reached
  sameBut : Group.SameBut rank group reached

namespace Drained

theorem start (hlistens : drain.Listens) :
    Drained size group rank drain group { program := drain } :=
  ⟨.refl _, hlistens, rfl, .refl group, .refl rank group⟩

theorem turn (hrank : rank < size) {reached' : Group} {core' : Actor α} {thread : Thread}
    (h : Drained size group rank drain reached core)
    (hturn : core.turn reached rank thread = some (reached', core')) :
    Drained size group rank drain reached' core' := by
  have hreaches := h.reaches.turn hrank hturn
  cases thread with
  | helper =>
      rw [Actor.turn_helper h.posts] at hturn
      cases hturn
  | main channel =>
      have hkeeps := Actor.keeps_of_advance h.listens hturn
      exact ⟨hreaches, hkeeps.listens, hkeeps.posts.trans h.posts, h.alike.trans hkeeps.alike,
        h.sameBut.trans hkeeps.sameBut⟩

theorem exists_advance (hrank : rank < size)
    (hfinishes : (solo size group rank { program := drain }).Finishes)
    (h : Drained size group rank drain reached core) (hresult : core.result? = none) :
    ∃ channel, (core.advance reached rank channel).isSome = true := by
  cases hfinishes.of_reaches h.reaches with
  | done hdone =>
      rw [isDone_solo hrank, hresult] at hdone
      cases hdone
  | later hmoves =>
      obtain ⟨move, next, hstep⟩ := hmoves
      obtain ⟨reached', core', hturn, -⟩ := exists_turn_of_step hrank hstep
      cases hthread : move.thread with
      | helper =>
          rw [hthread, Actor.turn_helper h.posts] at hturn
          cases hturn
      | main channel =>
          rw [hthread] at hturn
          exact ⟨channel, Option.isSome_iff_exists.2 ⟨_, hturn⟩⟩

end Drained

theorem exists_drained_of_reaches (hrank : rank < size) (hlistens : drain.Listens)
    {last : World α} (h : (solo size group rank { program := drain }).Reaches last) :
    ∃ reached core, last = solo size reached rank core ∧
      Drained size group rank drain reached core :=
  exists_solo_of_reaches hrank (fun _ _ _ _ _ hdrained => hdrained.turn hrank) (.start hlistens) h

theorem concludes_iff_drained (hrank : rank < size) (hlistens : drain.Listens)
    {result : Except Fault α} {after : Group} :
    (solo size group rank { program := drain }).Concludes rank result after ↔
      ∃ core, Drained size group rank drain after core ∧ core.result? = some result := by
  constructor
  · rintro ⟨last, hreaches, hresult, rfl⟩
    obtain ⟨reached, core, rfl, hdrained⟩ := exists_drained_of_reaches hrank hlistens hreaches
    rw [result?_solo hrank] at hresult
    exact ⟨core, hdrained, hresult⟩
  · rintro ⟨core, hdrained, hresult⟩
    exact ⟨_, hdrained.reaches, (result?_solo hrank).trans hresult, rfl⟩

namespace Drained

variable {wrap : Program α → Program β} {change : Group → Group} {channel : Channel}

theorem advance_host (h : Drained size group rank drain reached core)
    (hwrap : Program.Transparent wrap) (hunseen : Group.Unseen rank change)
    (hresult : core.result? = none) (posts : List Envelope) (failure : Option Fault)
    (older : List Event) (channel : Channel) :
    (core.host wrap posts failure older).advance (change reached) rank channel =
      (core.advance reached rank channel).map (fun after =>
        (change after.1, after.2.host wrap posts failure older)) :=
  Actor.advance_host hwrap hunseen h.listens hresult posts failure older channel

/-- A larger program can go on as long as the one inside can. -/
theorem exists_advance_host (hrank : rank < size)
    (hfinishes : (solo size group rank { program := drain }).Finishes)
    (h : Drained size group rank drain reached core) (hwrap : Program.Transparent wrap)
    (hunseen : Group.Unseen rank change) (hresult : core.result? = none)
    (posts : List Envelope) (failure : Option Fault) (older : List Event) :
    ∃ channel, ((core.host wrap posts failure older).turn (change reached) rank
      (.main channel)).isSome = true := by
  obtain ⟨channel, hadvance⟩ := h.exists_advance hrank hfinishes hresult
  refine ⟨channel, ?_⟩
  unfold Actor.turn
  simp only [h.advance_host hwrap hunseen hresult, Option.isSome_map]
  exact hadvance

/-- A step of a larger program is one of the program inside, until that has ended. -/
theorem of_advance_host (hrank : rank < size) (h : Drained size group rank drain reached core)
    (hwrap : Program.Transparent wrap) (hunseen : Group.Unseen rank change)
    (hresult : core.result? = none) {posts : List Envelope} {failure : Option Fault}
    {older : List Event} {now : Group} {actor : Actor β}
    (hadvance : (core.host wrap posts failure older).advance (change reached) rank channel =
      some (now, actor)) :
    ∃ reached' core', Drained size group rank drain reached' core' ∧ now = change reached' ∧
      actor = core'.host wrap posts failure older := by
  rw [h.advance_host hwrap hunseen hresult] at hadvance
  obtain ⟨⟨reached', core'⟩, hcore, heq⟩ := Option.map_eq_some_iff.1 hadvance
  cases heq
  have hturn : core.turn reached rank (.main channel) = some (reached', core') := hcore
  exact ⟨reached', core', h.turn hrank hturn, rfl, rfl⟩

theorem reaches_host (hrank : rank < size) (hlistens : drain.Listens)
    (hwrap : Program.Transparent wrap) (hunseen : Group.Unseen rank change)
    {posts : List Envelope} {failure : Option Fault} {older : List Event} {first : World β}
    (hstart : first.Reaches (solo size (change group) rank
      (({ program := drain } : Actor α).host wrap posts failure older)))
    (h : Drained size group rank drain reached core) :
    first.Reaches (solo size (change reached) rank (core.host wrap posts failure older)) := by
  let p : Group → Actor α → Prop := fun reached core =>
    Drained size group rank drain reached core ∧
      first.Reaches (solo size (change reached) rank (core.host wrap posts failure older))
  have hturn : ∀ reached core thread reached' core', p reached core →
      core.turn reached rank thread = some (reached', core') → p reached' core' := by
    rintro reached core thread reached' core' ⟨hdrained, hreaches⟩ hturn
    refine ⟨hdrained.turn hrank hturn, ?_⟩
    cases thread with
    | helper =>
        rw [Actor.turn_helper hdrained.posts] at hturn
        cases hturn
    | main channel =>
        have hadvance : core.advance reached rank channel = some (reached', core') := hturn
        have hhosted : (core.host wrap posts failure older).turn (change reached) rank
            (.main channel) = some (change reached', core'.host wrap posts failure older) := by
          unfold Actor.turn
          simp only [hdrained.advance_host hwrap hunseen (Actor.result?_of_advance hadvance),
            hadvance, Option.map_some]
        exact hreaches.turn hrank hhosted
  obtain ⟨reached', core', heq, -, hreaches⟩ :=
    exists_solo_of_reaches hrank hturn ⟨.start hlistens, hstart⟩ h.reaches
  obtain ⟨rfl, rfl⟩ := solo_inj hrank heq
  exact hreaches

end Drained

section After

variable {change : Group → Group} {older : List Event}

theorem transparent_id : Program.Transparent (id : Program α → Program α) :=
  ⟨fun _ _ => rfl⟩

theorem result?_host (failure : Option Fault) :
    (core.host id [] failure older).result? = core.result? := rfl

/-- A drain after changes that it does not see is the drain without them. -/
theorem exists_drained_of_unseen (hrank : rank < size) (hunseen : Group.Unseen rank change)
    (hlistens : drain.Listens) {last : World α}
    (h : (solo size (change group) rank { program := drain, trail := older }).Reaches last) :
    ∃ reached core, last = solo size (change reached) rank (core.host id [] none older) ∧
      Drained size group rank drain reached core := by
  let p : Group → Actor α → Prop := fun now actor => ∃ reached core, now = change reached ∧
    actor = core.host id [] none older ∧ Drained size group rank drain reached core
  have hturn : ∀ now actor thread now' actor', p now actor →
      actor.turn now rank thread = some (now', actor') → p now' actor' := by
    rintro _ _ thread now' actor' ⟨reached, core, rfl, rfl, hdrained⟩ hturn
    cases thread with
    | helper => cases hturn
    | main channel =>
        have hadvance : (core.host id [] none older).advance (change reached) rank channel =
          some (now', actor') := hturn
        cases hresult : core.result? with
        | some result =>
            rw [Actor.advance_of_result ((result?_host none).trans hresult)] at hadvance
            cases hadvance
        | none =>
            obtain ⟨reached', core', hdrained', hnow, hactor⟩ :=
              hdrained.of_advance_host hrank transparent_id hunseen hresult hadvance
            exact ⟨reached', core', hnow, hactor, hdrained'⟩
  obtain ⟨_, _, rfl, reached, core, rfl, rfl, hdrained⟩ :=
    exists_solo_of_reaches hrank hturn ⟨group, { program := drain }, rfl, rfl, .start hlistens⟩ h
  exact ⟨reached, core, rfl, hdrained⟩

theorem concludes_unseen_iff (hrank : rank < size) (hunseen : Group.Unseen rank change)
    (hlistens : drain.Listens) {result : Except Fault α} {after : Group} :
    (solo size (change group) rank { program := drain, trail := older }).Concludes rank result
        after ↔
      ∃ reached, (solo size group rank { program := drain }).Concludes rank result reached ∧
        after = change reached := by
  constructor
  · rintro ⟨last, hreaches, hresult, rfl⟩
    obtain ⟨reached, core, rfl, hdrained⟩ :=
      exists_drained_of_unseen hrank hunseen hlistens hreaches
    rw [result?_solo hrank, result?_host] at hresult
    exact ⟨reached, (concludes_iff_drained hrank hlistens).2 ⟨core, hdrained, hresult⟩, rfl⟩
  · rintro ⟨reached, hconcludes, rfl⟩
    obtain ⟨core, hdrained, hresult⟩ := (concludes_iff_drained hrank hlistens).1 hconcludes
    have hstart : (solo size (change group) rank { program := drain, trail := older }).Reaches
        (solo size (change group) rank (({ program := drain } : Actor α).host id [] none older)) :=
      .refl _
    have hreaches := hdrained.reaches_host hrank hlistens transparent_id hunseen hstart
    exact ⟨_, hreaches, (result?_solo hrank).trans ((result?_host none).trans hresult), rfl⟩

theorem finishes_unseen (hrank : rank < size) (hunseen : Group.Unseen rank change)
    (hlistens : drain.Listens)
    (hfinishes : (solo size group rank { program := drain }).Finishes) :
    (solo size (change group) rank { program := drain, trail := older }).Finishes := by
  refine finishes_of_reaches (fun last hreaches => ?_)
  obtain ⟨reached, core, rfl, hdrained⟩ := exists_drained_of_unseen hrank hunseen hlistens hreaches
  cases hresult : core.result? with
  | some result =>
      refine .inl ((isDone_solo hrank).2 ?_)
      rw [result?_host, hresult]
      rfl
  | none =>
      obtain ⟨channel, hturn⟩ := hdrained.exists_advance_host hrank hfinishes transparent_id
        hunseen hresult [] none older
      exact .inr (moves_of_turn hrank hturn)

end After

end World

end RankExchange
