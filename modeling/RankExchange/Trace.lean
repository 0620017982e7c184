import RankExchange.Program

/-!
# Traces

A trace is what a program does under some answers: its actions in order, each
with the answer it got.  What holds of every trace of a program holds with every
transport and under every schedule.
-/

namespace RankExchange

structure Turn where
  action : Action
  answer : action.Answer

namespace Program

variable {α β : Type}

/-- These turns lead from one program to what is left of it. -/
inductive Leads : Program α → List Turn → Program α → Prop
  | refl (program : Program α) : Leads program [] program
  | turn {action : Action} {next : action.Answer → Program α} (answer : action.Answer)
      {turns : List Turn} {last : Program α} (h : Leads (next answer) turns last) :
      Leads (.act action next) (⟨action, answer⟩ :: turns) last

/-- A program can take these turns and end with this result. -/
def Takes (program : Program α) (turns : List Turn) (result : Except Fault α) : Prop :=
  program.Leads turns (.done result)

theorem Leads.append {first second last : Program α} {turns more : List Turn}
    (h : first.Leads turns second) (h' : second.Leads more last) :
    first.Leads (turns ++ more) last := by
  induction h with
  | refl => exact h'
  | turn answer _ ih => exact .turn answer (ih h')

@[simp] theorem takes_done_iff {result result' : Except Fault α} {turns : List Turn} :
    (Program.done result).Takes turns result' ↔ turns = [] ∧ result' = result := by
  constructor
  · intro h
    cases h
    exact ⟨rfl, rfl⟩
  · rintro ⟨rfl, rfl⟩
    exact .refl _

theorem takes_act_iff {action : Action} {next : action.Answer → Program α} {turns : List Turn}
    {result : Except Fault α} :
    (Program.act action next).Takes turns result ↔
      ∃ answer rest, turns = ⟨action, answer⟩ :: rest ∧ (next answer).Takes rest result := by
  constructor
  · intro h
    cases h with
    | turn answer h => exact ⟨answer, _, rfl, h⟩
  · rintro ⟨answer, rest, rfl, h⟩
    exact .turn answer h

theorem takes_bind_iff {program : Program α} {f : α → Program β} {turns : List Turn}
    {result : Except Fault β} :
    (program.bind f).Takes turns result ↔
      (∃ fault, result = .error fault ∧ program.Takes turns (.error fault)) ∨
        ∃ value front back, turns = front ++ back ∧ program.Takes front (.ok value) ∧
          (f value).Takes back result := by
  induction program generalizing turns with
  | done outcome =>
      cases outcome with
      | error fault =>
          simp only [bind_done_error, takes_done_iff]
          constructor
          · rintro ⟨rfl, rfl⟩
            exact .inl ⟨fault, rfl, rfl, rfl⟩
          · rintro (⟨_, rfl, rfl, h⟩ | ⟨_, _, _, _, ⟨_, h⟩, _⟩)
            · cases h
              exact ⟨rfl, rfl⟩
            · cases h
      | ok value =>
          simp only [bind_done_ok, takes_done_iff]
          constructor
          · intro h
            exact .inr ⟨value, [], turns, rfl, ⟨rfl, rfl⟩, h⟩
          · rintro (⟨_, _, _, h⟩ | ⟨_, _, back, rfl, ⟨rfl, h⟩, h'⟩)
            · cases h
            · cases h
              exact h'
  | act action next ih =>
      simp only [bind_act, takes_act_iff]
      constructor
      · rintro ⟨answer, rest, rfl, h⟩
        rcases (ih answer).1 h with ⟨fault, rfl, hfault⟩ | ⟨value, front, back, rfl, h, h'⟩
        · exact .inl ⟨fault, rfl, answer, rest, rfl, hfault⟩
        · exact .inr ⟨value, ⟨action, answer⟩ :: front, back, rfl, ⟨answer, front, rfl, h⟩, h'⟩
      · rintro (⟨fault, rfl, answer, rest, rfl, h⟩ |
          ⟨value, _, back, rfl, ⟨answer, rest, rfl, h⟩, h'⟩)
        · exact ⟨answer, rest, rfl, (ih answer).2 (.inl ⟨fault, rfl, h⟩)⟩
        · exact ⟨answer, rest ++ back, rfl, (ih answer).2 (.inr ⟨value, rest, back, rfl, h, h'⟩)⟩

end Program

end RankExchange
