/-!
# Receipts

What has become of the messages that their senders wait for.  Each of them gets
a ticket, counted from zero, and its receipt is kept under the ticket.
-/

namespace RankExchange

/-- What has become of a message that its sender waits for. -/
inductive Receipt
  | waiting
  | taken
  | discarded
  deriving DecidableEq, Repr

/-- The receipts of all tickets so far, the latest first. -/
structure Receipts where
  latest : List Receipt := []
  issued : Nat := 0
  issued_eq : issued = latest.length := by rfl

namespace Receipts

def age (receipts : Receipts) (ticket : Nat) : Nat :=
  receipts.issued - (ticket + 1)

def get? (receipts : Receipts) (ticket : Nat) : Option Receipt :=
  if ticket < receipts.issued then receipts.latest[receipts.age ticket]? else none

def issue (receipts : Receipts) : Receipts where
  latest := .waiting :: receipts.latest
  issued := receipts.issued + 1
  issued_eq := by simp [receipts.issued_eq]

def put (receipts : Receipts) (ticket : Nat) (receipt : Receipt) : Receipts :=
  if ticket < receipts.issued then
    { latest := receipts.latest.set (receipts.age ticket) receipt
      issued := receipts.issued
      issued_eq := by simp [receipts.issued_eq] }
  else receipts

@[simp] theorem issued_put (receipts : Receipts) (ticket : Nat) (receipt : Receipt) :
    (receipts.put ticket receipt).issued = receipts.issued := by
  unfold put
  split <;> rfl

theorem get?_eq_none_iff {receipts : Receipts} {ticket : Nat} :
    receipts.get? ticket = none ↔ receipts.issued ≤ ticket := by
  have := receipts.issued_eq
  unfold get? age
  split <;> simp <;> omega

theorem get?_issue (receipts : Receipts) (ticket : Nat) :
    receipts.issue.get? ticket =
      if ticket = receipts.issued then some .waiting else receipts.get? ticket := by
  have := receipts.issued_eq
  by_cases hnew : ticket = receipts.issued
  · simp [get?, age, issue, hnew]
  · by_cases hold : ticket < receipts.issued
    · have hage : receipts.issued + 1 - (ticket + 1) = receipts.issued - (ticket + 1) + 1 := by
        omega
      simp [get?, age, issue, hnew, hold, hage, Nat.lt_succ_of_lt hold]
    · simp only [get?, issue, hnew, hold, if_false]
      exact if_neg (by omega)

theorem get?_put (receipts : Receipts) (ticket : Nat) (receipt : Receipt) (other : Nat) :
    (receipts.put ticket receipt).get? other =
      if other = ticket ∧ ticket < receipts.issued then some receipt
      else receipts.get? other := by
  have := receipts.issued_eq
  by_cases hticket : ticket < receipts.issued
  · by_cases hother : other < receipts.issued
    · by_cases heq : other = ticket
      · subst heq
        have hage : receipts.issued - (other + 1) < receipts.latest.length := by omega
        simp [get?, age, put, hother, hage]
      · have hage : receipts.issued - (ticket + 1) ≠ receipts.issued - (other + 1) := by omega
        simp [get?, age, put, hother, hticket, heq, hage]
    · have heq : other ≠ ticket := by omega
      simp [get?, put, hother, hticket, heq]
  · simp [put, hticket]

end Receipts

end RankExchange
