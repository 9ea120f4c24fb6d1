import Mathlib.Data.List.Basic

/-! Machines that are asked again and again, such as searches and readers: what they answer to every
request, also when they have nothing more to give. -/

namespace Conformance

variable {σ α : Type} {ask : σ → Option α × σ} {pending : σ → List α}

/-- The answer to request number `n`, counted from zero, of a machine that is asked again and again.
It gives a value or nothing, and what it has become. -/
def answer (ask : σ → Option α × σ) (machine : σ) : Nat → Option α
  | 0 => (ask machine).1
  | n + 1 => answer ask (ask machine).2 n

/-- A machine that gives the members of a list one after the other, of which `pending` are left. -/
structure Enumerates (ask : σ → Option α × σ) (pending : σ → List α) : Prop where
  first : ∀ machine, (ask machine).1 = (pending machine).head?
  rest : ∀ machine, pending (ask machine).2 = (pending machine).tail

/-- Request number `n` is answered by member number `n`, and by nothing from the end of the list
on. -/
theorem Enumerates.answer_eq (enumerates : Enumerates ask pending) (machine : σ) (n : Nat) :
    answer ask machine n = (pending machine)[n]? := by
  induction n generalizing machine with
  | zero => exact (enumerates.first machine).trans List.head?_eq_getElem?
  | succ n ih => rw [answer, ih, enumerates.rest, List.getElem?_tail]

end Conformance
