import RankExchange.Proofs.ScriptedPrograms
import RankExchange.Trace

/-!
# What is known of a result

A program that collects items one after the other, and has come to some of
them, can only end with a list that begins with these.  To find out what they
are it is enough to follow one trace of what is left of the program to an end.
-/

namespace RankExchange

theorem Action.nonempty_answer (action : Action) : Nonempty action.Answer := by
  cases action with
  | call request =>
      cases request with
      | identify => exact ⟨(⟨0, 0⟩ : Identity)⟩
      | leave => exact ⟨()⟩
      | init => exact ⟨Except.error .notOpen⟩
      | finalize => exact ⟨Except.error .notOpen⟩
      | barrier => exact ⟨Except.error .notOpen⟩
      | send => exact ⟨Except.error .notOpen⟩
      | probe => exact ⟨Except.error .notOpen⟩
      | receive => exact ⟨Except.error .notOpen⟩
  | log event => exact ⟨()⟩
  | reserve length => exact ⟨Except.ok ()⟩
  | spawn posts => exact ⟨()⟩
  | join => exact ⟨Except.ok ()⟩

/-- No take of a script is done already. -/
def Script.Owing (script : Script) : Prop :=
  ∀ time tag owed payload found, .take time tag owed payload found ∈ script → owed.ranks ≠ []

theorem Script.Owing.tail {duty : Duty} {script : Script} (h : Owing (duty :: script)) :
    script.Owing :=
  fun time tag owed payload found hmem =>
    h time tag owed payload found (List.mem_cons_of_mem _ hmem)

namespace Program

variable {α β : Type}

/-- However a program goes on, if it ends well, its result begins with these
items. -/
def Knows (items : List β) (program : Program (List β)) : Prop :=
  ∀ turns result, program.Takes turns (.ok result) → items <+: result

theorem knows_bind (items : List β) (program : Program (List β)) :
    Knows items (program.bind (fun later => pure (items ++ later))) := by
  intro turns result htakes
  rcases takes_bind_iff.1 htakes with ⟨_, heq, _⟩ | ⟨later, _, _, _, _, hlater⟩
  · cases heq
  · obtain ⟨_, heq⟩ := takes_done_iff.1 hlater
    cases heq
    exact List.prefix_append items later

theorem Knows.followedBy {items : List β} {program : Program (List β)} (h : program.Knows items)
    (tail : Program Unit) : (program.followedBy tail).Knows items := by
  intro turns result htakes
  rcases takes_bind_iff.1 htakes with ⟨_, heq, _⟩ | ⟨_, front, _, _, hfront, hback⟩
  · cases heq
  · rcases takes_bind_iff.1 hback with ⟨_, heq, _⟩ | ⟨_, _, _, _, _, hlast⟩
    · cases heq
    · obtain ⟨_, heq⟩ := takes_done_iff.1 hlast
      cases heq
      exact h front _ hfront

theorem Settles.exists_takes {good : Except Fault α → Prop} {program : Program α}
    (h : program.Settles good) : ∃ turns result, program.Takes turns result ∧ good result := by
  induction program with
  | done result => exact ⟨[], result, .refl _, h⟩
  | act action next ih =>
      obtain ⟨answer⟩ := action.nonempty_answer
      obtain ⟨turns, result, htakes, hgood⟩ := ih answer (h.2 answer)
      exact ⟨_, result, .turn answer htakes, hgood⟩

namespace FollowsScript

variable {Rest : Bool → Program α → Script → Prop} {inStep : Bool} {program : Program α}
  {script : Script}

theorem exists_leads_of_answer {p : Program α → Prop} {action : Action}
    {next : action.Answer → Program α} (answer : action.Answer)
    (h : ∃ turns last, (next answer).Leads turns last ∧ p last) :
    ∃ turns last, (Program.act action next).Leads turns last ∧ p last := by
  obtain ⟨turns, last, hleads, hlast⟩ := h
  exact ⟨_, last, .turn answer hleads, hlast⟩

/-- A program that follows a script can get to its rest. -/
theorem exists_leads (h : FollowsScript Rest inStep program script) :
    ∃ turns last, program.Leads turns last ∧ ∃ inStep script, Rest inStep last script := by
  induction h with
  | rest h => exact ⟨[], _, .refl _, _, _, h⟩
  | log _ ih => exact exists_leads_of_answer () ih
  | reserve _ ih => exact exists_leads_of_answer (Except.ok ()) ih
  | send _ ih => exact exists_leads_of_answer (Except.ok ()) ih
  | spawn _ _ _ ih => exact exists_leads_of_answer () ih
  | join _ ih => exact exists_leads_of_answer (Except.ok ()) ih
  | probe _ _ _ _ _ ih => exact exists_leads_of_answer (Except.error .notOpen) (ih .notOpen)
  | receive _ _ _ _ ih => exact exists_leads_of_answer (Except.error .notOpen) (ih .notOpen)
  | @wander request _ _ _ _ ih =>
      obtain ⟨answer⟩ := (Action.call request).nonempty_answer
      exact exists_leads_of_answer answer (ih answer)

theorem exists_leads_inStep (h : FollowsScript Rest inStep program script) (hstep : inStep = true)
    (howing : script.Owing) :
    ∃ turns last, program.Leads turns last ∧ ∃ script, Rest true last script := by
  induction h with
  | rest h =>
      subst hstep
      exact ⟨[], _, .refl _, _, h⟩
  | log _ ih => exact exists_leads_of_answer () (ih hstep howing)
  | reserve _ ih => exact exists_leads_of_answer (Except.ok ()) (ih hstep howing)
  | send _ ih => exact exists_leads_of_answer (Except.ok ()) (ih hstep howing.tail)
  | spawn _ _ _ ih => exact exists_leads_of_answer () (ih hstep howing.tail)
  | join _ ih => exact exists_leads_of_answer (Except.ok ()) (ih hstep howing.tail)
  | @probe time tag owed payload _ script _ _ _ ih =>
      have howed := howing time tag owed payload none List.mem_cons_self
      obtain ⟨source, hsource⟩ := List.exists_mem_of_ne_nil _ howed
      refine exists_leads_of_answer (Except.ok ⟨source, tag, (payload source).length⟩)
        (ih source hsource rfl ?_)
      intro time' tag' owed' payload' found' hmem
      rcases List.mem_cons.1 hmem with heq | hmem
      · cases heq
        exact howed
      · exact howing.tail _ _ _ _ _ hmem
  | @receive time tag owed payload source _ _ script hlength _ _ ih =>
      refine exists_leads_of_answer (Except.ok ⟨payload source, hlength⟩) (ih rfl ?_)
      intro time' tag' owed' payload' found' hmem
      unfold Script.await at hmem
      split at hmem
      · exact howing.tail _ _ _ _ _ hmem
      · next hranks =>
          rcases List.mem_cons.1 hmem with heq | hmem
          · cases heq
            exact hranks
          · exact howing.tail _ _ _ _ _ hmem
  | wander => cases hstep

end FollowsScript

end Program

end RankExchange
