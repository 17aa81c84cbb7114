import Mathlib.Logic.Function.Basic
import Mathlib.Tactic.Common

/-!
# Xor-shift maps

A word combined with its own shift can be read back bit by bit: from the low end
after a shift to the left, from the high end after a shift to the right.  The
maps are injective, and so are their compositions.
-/

namespace Breaker.Foundation

variable {w : Nat}

def xorShiftLeft (n : Nat) (x : BitVec w) : BitVec w := x ^^^ (x <<< n)

def xorShiftRight (n : Nat) (x : BitVec w) : BitVec w := x ^^^ (x >>> n)

theorem getLsbD_xorShiftLeft (n : Nat) (x : BitVec w) {i : Nat} (hi : i < w) :
    (xorShiftLeft n x).getLsbD i = (x.getLsbD i ^^ (!decide (i < n) && x.getLsbD (i - n))) := by
  rw [xorShiftLeft, BitVec.getLsbD_xor, BitVec.getLsbD_shiftLeft]
  simp only [hi, decide_true, Bool.true_and]

theorem getLsbD_xorShiftRight (n : Nat) (x : BitVec w) (i : Nat) :
    (xorShiftRight n x).getLsbD i = (x.getLsbD i ^^ x.getLsbD (n + i)) := by
  simp [xorShiftRight]

theorem xorShiftLeft_injective {n : Nat} (hn : 0 < n) :
    Function.Injective (xorShiftLeft (w := w) n) := by
  intro x y h
  apply BitVec.eq_of_getLsbD_eq
  intro i
  induction i using Nat.strongRecOn with
  | ind i ih =>
      intro hi
      have hbit := congrArg (BitVec.getLsbD · i) h
      simp only [getLsbD_xorShiftLeft n _ hi] at hbit
      by_cases hlow : i < n
      · simpa [hlow] using hbit
      · have hbelow := ih (i - n) (by omega) (by omega)
        simpa [hlow, hbelow] using hbit

theorem xorShiftRight_injective {n : Nat} (hn : 0 < n) :
    Function.Injective (xorShiftRight (w := w) n) := by
  intro x y h
  have hbits : ∀ k i, w ≤ i + k → x.getLsbD i = y.getLsbD i := by
    intro k
    induction k with
    | zero =>
        intro i hi
        rw [BitVec.getLsbD_of_ge x i hi, BitVec.getLsbD_of_ge y i hi]
    | succ k ih =>
        intro i hi
        have habove := ih (n + i) (by omega)
        have hbit := congrArg (BitVec.getLsbD · i) h
        simp only [getLsbD_xorShiftRight, habove] at hbit
        simpa using hbit
  exact BitVec.eq_of_getLsbD_eq fun i _ => hbits w i (by omega)

end Breaker.Foundation
