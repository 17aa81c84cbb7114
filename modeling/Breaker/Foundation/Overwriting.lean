import Mathlib.Data.List.Basic

/-!
# Settings that overwrite one another

A setter writes the register of its key.  Two setters of one key overwrite, two
of different keys do not see each other; what a sequence of setters makes of a
state then depends on the last setter of each key alone.
-/

namespace Breaker.Foundation

universe u v w

variable {σ : Type u} {α : Type v} {κ : Type w} {set : σ → α → σ} {key : α → κ}

structure Overwrites (set : σ → α → σ) (key : α → κ) : Prop where
  overwrite : ∀ s a b, key a = key b → set (set s a) b = set s b
  comm : ∀ s a b, key a ≠ key b → set (set s a) b = set (set s b) a

theorem Overwrites.foldl_move (h : Overwrites set key) {a : α} (before : List α) {after : List α}
    (hafter : ∀ b ∈ after, key b ≠ key a) (s : σ) :
    (before ++ a :: after).foldl set s = (before ++ after ++ [a]).foldl set s := by
  induction after generalizing before with
  | nil => simp
  | cons b after ih =>
      rw [List.forall_mem_cons] at hafter
      have hswap : (before ++ a :: b :: after).foldl set s =
          ((before ++ [b]) ++ a :: after).foldl set s := by
        simp only [List.foldl_append, List.foldl_cons, List.foldl_nil]
        rw [h.comm _ a b (Ne.symm hafter.1)]
      rw [hswap, ih (before ++ [b]) hafter.2]
      simp

variable [DecidableEq κ]

def lastOf (key : α → κ) (k : κ) (l : List α) : Option α := l.reverse.find? fun a => key a = k

theorem lastOf_append (k : κ) (l l' : List α) :
    lastOf key k (l ++ l') = (lastOf key k l').or (lastOf key k l) := by
  rw [lastOf, List.reverse_append, List.find?_append]
  rfl

theorem lastOf_cons_of_ne {k : κ} {a : α} (h : key a ≠ k) (l : List α) :
    lastOf key k (a :: l) = lastOf key k l := by
  rw [← List.singleton_append, lastOf_append]
  simp [lastOf, h]

theorem lastOf_concat_self (a : α) (l : List α) : lastOf key (key a) (l ++ [a]) = some a := by
  rw [lastOf_append]
  simp [lastOf]

theorem lastOf_concat_of_ne {k : κ} {a : α} (h : key a ≠ k) (l : List α) :
    lastOf key k (l ++ [a]) = lastOf key k l := by
  rw [lastOf_append, lastOf_cons_of_ne h]
  rfl

theorem lastOf_filter_self (k : κ) (l : List α) :
    lastOf key k (l.filter fun b => key b ≠ k) = none := by
  rw [lastOf, List.find?_eq_none]
  simp

theorem lastOf_filter_of_ne {k k' : κ} (h : k ≠ k') (l : List α) :
    lastOf key k (l.filter fun b => key b ≠ k') = lastOf key k l := by
  rw [lastOf, ← List.filter_reverse, List.find?_filter, lastOf]
  congr 1
  funext b
  by_cases hb : key b = k
  · simp [hb, h]
  · simp [hb]

theorem exists_of_lastOf {a : α} {l : List α} (h : lastOf key (key a) l = some a) :
    ∃ before after, l = before ++ a :: after ∧ ∀ b ∈ after, key b ≠ key a := by
  obtain ⟨-, after, before, hl, hafter⟩ := List.find?_eq_some_iff_append.mp h
  refine ⟨before.reverse, after.reverse, ?_, ?_⟩
  · rw [← List.reverse_reverse l, hl]
    simp
  · intro b hmem
    simpa using hafter b (List.mem_reverse.mp hmem)

namespace Overwrites

theorem foldl_filter (h : Overwrites set key) (a : α) (l : List α) (s : σ) :
    (l ++ [a]).foldl set s = (l.filter (fun b => key b ≠ key a) ++ [a]).foldl set s := by
  induction l generalizing s with
  | nil => simp
  | cons b l ih =>
      rw [List.cons_append, List.foldl_cons, ih]
      by_cases hkey : key b = key a
      · rw [List.filter_cons_of_neg (by simp [hkey])]
        set kept := l.filter fun c => key c ≠ key a with hkept
        have hothers : ∀ c ∈ kept, key c ≠ key b := by simp [hkept, hkey]
        have hmove := h.foldl_move [] hothers s
        rw [List.nil_append, List.nil_append, List.foldl_cons] at hmove
        rw [List.foldl_append, hmove, List.foldl_append, List.foldl_append]
        simp only [List.foldl_cons, List.foldl_nil]
        exact h.overwrite _ b a hkey
      · rw [List.filter_cons_of_pos (by simpa using hkey), List.cons_append, List.foldl_cons]

/-- Only the last setter of each key counts. -/
theorem foldl_eq (h : Overwrites set key) {l l' : List α}
    (hlast : ∀ k, lastOf key k l = lastOf key k l') (s : σ) :
    l.foldl set s = l'.foldl set s := by
  induction hlength : l.length using Nat.strongRecOn generalizing l l' with
  | _ n ih =>
      rcases List.eq_nil_or_concat l with rfl | ⟨init, a, rfl⟩
      · rcases List.eq_nil_or_concat l' with rfl | ⟨init, a, rfl⟩
        · rfl
        · have hnone := hlast (key a)
          rw [List.concat_eq_append, lastOf_concat_self] at hnone
          cases hnone
      · rw [List.concat_eq_append] at hlast hlength ⊢
        obtain ⟨before, after, rfl, hafter⟩ :=
          exists_of_lastOf ((hlast (key a)).symm.trans (lastOf_concat_self a init))
        rw [h.foldl_move before hafter, h.foldl_filter, h.foldl_filter a (before ++ after),
          List.foldl_append, List.foldl_append]
        congr 1
        refine ih _ ?_ (fun k => ?_) rfl
        · have hle := List.length_filter_le (fun b => decide (key b ≠ key a)) init
          rw [List.length_append, List.length_singleton] at hlength
          omega
        · by_cases hk : k = key a
          · rw [hk, lastOf_filter_self, lastOf_filter_self]
          · have hrest := hlast k
            rw [lastOf_concat_of_ne (Ne.symm hk), lastOf_append,
              lastOf_cons_of_ne (Ne.symm hk)] at hrest
            rw [lastOf_filter_of_ne hk, lastOf_filter_of_ne hk, hrest, lastOf_append]

end Overwrites

end Breaker.Foundation
