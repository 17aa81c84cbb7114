import Breaker.Foundation.Lists
import Mathlib.Data.Nat.ModEq

/-!
# Lists without long streaks

A list has a streak of `n` where `n` consecutive elements satisfy a predicate.
Without one, every `n` elements hold at least one that does not, and spacing those
evenly from the end shows that no more are needed.
-/

namespace Breaker.Foundation

variable {α : Type*} {p : α → Bool} {n : Nat} {l : List α}

/-- No prefix ends in `n` elements with `p`, so no `n` consecutive ones have it. -/
def NoStreak (p : α → Bool) (n : Nat) (l : List α) : Prop :=
  ∀ before, before <+: l → (before.rtakeWhile p).length < n

theorem noStreak_nil (hn : 0 < n) : NoStreak p n [] := by
  intro before h
  rw [List.prefix_nil.mp h]
  simpa using hn

theorem noStreak_concat_iff {x : α} : NoStreak p n (l ++ [x]) ↔
    NoStreak p n l ∧ ((l ++ [x]).rtakeWhile p).length < n := by
  constructor
  · intro h
    exact ⟨fun before hb => h before (hb.trans (List.prefix_append _ _)), h _ (List.prefix_refl _)⟩
  · rintro ⟨hl, hlast⟩ before hb
    rcases List.prefix_concat_iff.mp hb with heq | hold
    · rw [heq]
      exact hlast
    · exact hl before hold

/-! ## How many elements a list without a streak must spare -/

theorem length_le_of_noStreak (h : NoStreak p n l) :
    l.length ≤ n * l.countP (fun x => !p x) + (l.rtakeWhile p).length := by
  induction l using List.reverseRecOn with
  | nil => simp
  | append_singleton l x ih =>
      obtain ⟨hl, -⟩ := noStreak_concat_iff.mp h
      have hbefore := ih hl
      have hrun := hl l (List.prefix_refl l)
      rw [List.length_append, List.countP_append, List.length_singleton, List.countP_singleton]
      by_cases hx : p x = true
      · rw [List.rtakeWhile_concat_pos p l x hx, List.length_append, List.length_singleton]
        simp only [hx, Bool.not_true, Bool.false_eq_true, ↓reduceIte, Nat.add_zero]
        omega
      · rw [List.rtakeWhile_concat_neg p l x hx]
        simp only [hx, Bool.not_false, ↓reduceIte, Nat.mul_add, Nat.mul_one, List.length_nil]
        omega

theorem countP_add_of_noStreak (h : NoStreak p n l) : l.countP p + l.length / n ≤ l.length := by
  have hlength := length_le_of_noStreak h
  have hrun := h l (List.prefix_refl l)
  have hspared : l.length / n ≤ l.countP fun x => !p x := by
    rw [← Nat.lt_succ_iff, Nat.div_lt_iff_lt_mul (by omega), Nat.succ_mul, Nat.mul_comm]
    omega
  have hall := List.length_eq_countP_add_countP p (l := l)
  simp only [Bool.not_eq_true, Bool.decide_eq_false] at hall
  omega

theorem length_rtakeWhile_append (a : List α) :
    (l.rtakeWhile p).length ≤ ((a ++ l).rtakeWhile p).length := by
  rw [List.rtakeWhile, List.rtakeWhile, List.length_reverse, List.length_reverse,
    List.reverse_append, List.takeWhile_append]
  split_ifs with hall
  · rw [List.length_append]
    omega
  · exact le_rfl

theorem NoStreak.rtake (h : NoStreak p n l) (k : Nat) : NoStreak p n (l.rtake k) := by
  intro before hb
  have hsplit : l.take (l.length - k) ++ l.rtake k = l := List.take_append_drop _ l
  have hprefix := (List.prefix_append_right_inj (l.take (l.length - k))).mpr hb
  rw [hsplit] at hprefix
  exact (length_rtakeWhile_append _).trans_lt (h _ hprefix)

theorem NoStreak.cons {x : α} (h : NoStreak p n l)
    (hlead : ((x :: l).takeWhile p).length < n) : NoStreak p n (x :: l) := by
  intro before hb
  cases before with
  | nil => exact (Nat.zero_le _).trans_lt hlead
  | cons y before =>
      obtain ⟨rfl, hrest⟩ := List.cons_prefix_cons.mp hb
      by_cases hall : ∀ z ∈ y :: before, p z = true
      · -- The streak begins with the list, and so does the leading run.
        obtain ⟨after, rfl⟩ := hrest
        have hself : (y :: before).takeWhile p = y :: before := List.takeWhile_eq_self_iff.mpr hall
        rw [← List.cons_append, List.takeWhile_append, if_pos (by rw [hself]),
          List.length_append] at hlead
        rw [List.rtakeWhile_eq_self_iff.mpr hall]
        omega
      · refine lt_of_le_of_lt ?_ (h before hrest)
        rw [List.rtakeWhile, List.rtakeWhile, List.length_reverse, List.length_reverse,
          List.reverse_cons, List.takeWhile_append]
        split_ifs with hbefore
        · have hself : before.reverse.takeWhile p = before.reverse :=
            (List.takeWhile_prefix p).eq_of_length hbefore
          have hy : ¬ p y = true := by
            intro hy
            refine hall fun z hz => ?_
            rcases List.mem_cons.mp hz with rfl | hz
            · exact hy
            · exact List.takeWhile_eq_self_iff.mp hself z (List.mem_reverse.mpr hz)
          simp [hy, hself]
        · exact le_rfl

/-! ## Evenly spaced lists -/

/-- Counted from the end, every `n`-th element is false. -/
def spaced (n : Nat) : Nat → List Bool
  | 0 => []
  | k + 1 => decide ((k + 1) % n ≠ 0) :: spaced n k

@[simp] theorem length_spaced (n k : Nat) : (spaced n k).length = k := by
  induction k with
  | zero => rfl
  | succ k ih => rw [spaced, List.length_cons, ih]

theorem countP_spaced (n k : Nat) : (spaced n k).countP id + k / n = k := by
  induction k with
  | zero => simp [spaced]
  | succ k ih =>
      rw [spaced, List.countP_cons, Nat.succ_div]
      by_cases hdvd : n ∣ k + 1
      · have hmod : (k + 1) % n = 0 := Nat.mod_eq_zero_of_dvd hdvd
        simp only [hdvd, hmod, ne_eq, not_true_eq_false, decide_false, id_eq, Bool.false_eq_true,
          ↓reduceIte]
        omega
      · have hmod : (k + 1) % n ≠ 0 := fun hzero => hdvd (Nat.dvd_of_mod_eq_zero hzero)
        simp only [hdvd, hmod, ne_eq, not_false_eq_true, decide_true, id_eq, ↓reduceIte]
        omega

theorem length_takeWhile_spaced (n k : Nat) : ((spaced n k).takeWhile id).length ≤ k % n := by
  induction k with
  | zero => simp [spaced]
  | succ k ih =>
      rw [spaced]
      by_cases hmod : (k + 1) % n = 0
      · simp [hmod]
      · have hnext : (k + 1) % n = k % n + 1 := by
          rw [← Nat.mod_add_mod]
          rcases Nat.eq_zero_or_pos n with rfl | hn
          · simp
          · refine Nat.mod_eq_of_lt (lt_of_le_of_ne (Nat.mod_lt k hn) fun hfull => hmod ?_)
            rw [← Nat.mod_add_mod, hfull, Nat.mod_self]
        simp only [hmod, ne_eq, not_false_eq_true, decide_true, List.takeWhile_cons, id_eq,
          ↓reduceIte, List.length_cons]
        omega

theorem noStreak_spaced (hn : 0 < n) (k : Nat) : NoStreak id n (spaced n k) := by
  induction k with
  | zero => exact noStreak_nil hn
  | succ k ih =>
      exact ih.cons ((length_takeWhile_spaced n (k + 1)).trans_lt (Nat.mod_lt _ hn))

theorem getLast?_spaced (hn : 1 < n) {k : Nat} (hk : 0 < k) :
    (spaced n k).getLast? = some true := by
  induction k with
  | zero => exact absurd hk (lt_irrefl 0)
  | succ k ih =>
      cases k with
      | zero => simp [spaced, Nat.mod_eq_of_lt hn]
      | succ k =>
          rw [spaced, List.getLast?_cons, ih (Nat.succ_pos k)]
          rfl

end Breaker.Foundation
