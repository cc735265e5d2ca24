/-
# While loops

A loop takes one round after the other until a round leaves it with a result. A round
may go wrong, and a loop may go on for ever; in both cases there is no result. The
number of rounds is bounded by `fuel`. The rule below asks for an invariant that says
how many rounds are still to come; it gives a result that is the same for every bound
that is large enough.
-/

import Mathlib.Logic.Basic

namespace Hercules.Lib

universe u v

variable {S : Type u} {R : Type v}

/-- The end of a round: the next state, or the result of the loop. -/
inductive Round (S : Type u) (R : Type v)
  | next (s : S)
  | leave (result : R)

/-- The result of a loop that is left after at most `fuel` rounds. -/
def loop (round : S → Option (Round S R)) : Nat → S → Option R
  | 0, _ => none
  | fuel + 1, s =>
      (round s).bind fun
        | .next s' => loop round fuel s'
        | .leave result => some result

variable {round : S → Option (Round S R)} {fuel : Nat} {s s' : S}

theorem loop_of_next (h : round s = some (.next s')) :
    loop round (fuel + 1) s = loop round fuel s' := by
  rw [loop, h]
  rfl

theorem loop_of_leave {result : R} (h : round s = some (.leave result)) :
    loop round (fuel + 1) s = some result := by
  rw [loop, h]
  rfl

/-- A loop with `n` rounds to come, and one more in which it is left, returns. -/
theorem loop_of_invariant {Inv : Nat → S → Prop} {Post : R → Prop}
    (hnext : ∀ n s, Inv (n + 1) s → ∃ s', round s = some (.next s') ∧ Inv n s')
    (hleave : ∀ s, Inv 0 s → ∃ result, round s = some (.leave result) ∧ Post result)
    {n : Nat} (hinv : Inv n s) :
    ∃ result, (∀ fuel, n < fuel → loop round fuel s = some result) ∧ Post result := by
  induction n generalizing s with
  | zero =>
      obtain ⟨result, hround, hpost⟩ := hleave s hinv
      refine ⟨result, fun fuel hfuel => ?_, hpost⟩
      obtain ⟨more, rfl⟩ := Nat.exists_eq_add_of_lt hfuel
      exact loop_of_leave hround
  | succ n ih =>
      obtain ⟨s', hround, hinv'⟩ := hnext n s hinv
      obtain ⟨result, hloop, hpost⟩ := ih hinv'
      refine ⟨result, fun fuel hfuel => ?_, hpost⟩
      obtain ⟨more, rfl⟩ := Nat.exists_eq_add_of_lt hfuel
      rw [loop_of_next hround]
      exact hloop _ (by omega)

end Hercules.Lib
