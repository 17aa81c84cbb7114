import Mathlib.Algebra.Ring.Nat
import Mathlib.Data.List.DropRight
import Mathlib.Data.List.Perm.Subperm
import Mathlib.Data.List.Nodup

/-!
# Ends of lists and pools of indexed items

The first part is about the last elements of a history: `rtake n` is its last
`n` elements and `rtakeWhile p` its trailing run of elements with `p`.  The
second part counts the items of a pool `l : List α` that satisfy a predicate,
while single items are replaced and while items are addressed by index.
-/

namespace Breaker.Foundation

variable {α : Type*}

/-! ## The end of a history -/

theorem length_rtake (l : List α) (n : Nat) : (l.rtake n).length = min n l.length := by
  rw [List.rtake, List.length_drop]
  omega

theorem rtake_of_length_le {l : List α} {n : Nat} (h : l.length ≤ n) : l.rtake n = l := by
  rw [List.rtake, Nat.sub_eq_zero_of_le h, List.drop_zero]

theorem rtake_min_length (l : List α) (n : Nat) : l.rtake (min l.length n) = l.rtake n := by
  rw [List.rtake, List.rtake]
  congr 1
  omega

theorem rtake_concat_of_le {l : List α} {n : Nat} (hn : 1 ≤ n) (h : n ≤ l.length) (x : α) :
    (l ++ [x]).rtake n = (l.rtake n).tail ++ [x] := by
  obtain ⟨m, rfl⟩ := Nat.exists_eq_add_of_le' hn
  rw [List.rtake_concat_succ]
  congr 1
  rw [List.rtake, List.rtake, List.tail_drop]
  congr 1
  omega

theorem rtake_concat_of_lt {l : List α} {n : Nat} (h : l.length < n) (x : α) :
    (l ++ [x]).rtake n = l.rtake n ++ [x] := by
  rw [rtake_of_length_le (by simp; omega), rtake_of_length_le h.le]

theorem le_length_rtakeWhile_iff (p : α → Bool) (l : List α) (n : Nat) :
    n ≤ (l.rtakeWhile p).length ↔ n ≤ l.length ∧ ∀ x ∈ l.rtake n, p x = true := by
  induction l using List.reverseRecOn generalizing n with
  | nil => cases n <;> simp
  | append_singleton l x ih =>
      cases n with
      | zero => simp
      | succ n =>
          rw [List.rtake_concat_succ]
          by_cases hx : p x = true
          · rw [List.rtakeWhile_concat_pos p l x hx, List.length_append, List.length_append]
            simp only [List.length_singleton, Nat.add_le_add_iff_right, ih n, List.mem_append,
              List.mem_singleton]
            constructor
            · rintro ⟨hlen, hall⟩
              refine ⟨hlen, ?_⟩
              rintro y (hy | rfl)
              · exact hall y hy
              · exact hx
            · rintro ⟨hlen, hall⟩
              exact ⟨hlen, fun y hy => hall y (.inl hy)⟩
          · rw [List.rtakeWhile_concat_neg p l x hx]
            constructor
            · intro h
              simp at h
            · rintro ⟨-, hall⟩
              exact absurd (hall x (by simp)) hx

theorem filter_eq_takeWhile {key : α → Nat} {l : List α}
    (h : l.Pairwise fun a b => key a ≤ key b) (bound : Nat) :
    l.filter (fun a => key a < bound) = l.takeWhile (fun a => key a < bound) ∧
      l.filter (fun a => bound ≤ key a) = l.dropWhile (fun a => key a < bound) := by
  induction l with
  | nil => simp
  | cons a l ih =>
      rw [List.pairwise_cons] at h
      by_cases ha : key a < bound
      · have htail := ih h.2
        simpa [ha, not_le.mpr ha] using htail
      · have habove : ∀ x ∈ l, bound ≤ key x := fun x hx => (not_lt.mp ha).trans (h.1 x hx)
        have hnone : l.filter (fun a => key a < bound) = [] := by
          rw [List.filter_eq_nil_iff]
          intro x hx
          simpa using habove x hx
        have hall : l.filter (fun a => bound ≤ key a) = l := by
          rw [List.filter_eq_self]
          intro x hx
          simpa using habove x hx
        simp [ha, not_lt.mp ha, hnone, hall]

/-! ## Counting the items of a pool -/

theorem set_getElem?_self {l : List α} {i : Nat} {a : α} (h : l[i]? = some a) : l.set i a = l := by
  obtain ⟨hlt, rfl⟩ := List.getElem?_eq_some_iff.mp h
  exact List.set_getElem_self hlt

theorem countP_set_add (p : α → Bool) {l : List α} {i : Nat} {a : α} (h : l[i]? = some a)
    (b : α) :
    (l.set i b).countP p + (if p a then 1 else 0) = l.countP p + (if p b then 1 else 0) := by
  induction l generalizing i with
  | nil => simp at h
  | cons x l ih =>
      cases i with
      | zero =>
          simp only [List.getElem?_cons_zero, Option.some.injEq] at h
          subst h
          simp only [List.set_cons_zero, List.countP_cons]
          omega
      | succ i =>
          simp only [List.getElem?_cons_succ] at h
          have := ih h
          simp only [List.set_cons_succ, List.countP_cons]
          omega

theorem sum_map_le_countP {w : α → Nat} {p : α → Bool} {l : List α}
    (h : ∀ x ∈ l, w x ≤ (p x).toNat) : (l.map w).sum ≤ l.countP p := by
  induction l with
  | nil => exact le_rfl
  | cons x l ih =>
      rw [List.forall_mem_cons] at h
      have hhead := h.1
      have htail := ih h.2
      rw [List.map_cons, List.sum_cons, List.countP_cons]
      cases hp : p x with
      | false =>
          rw [hp, Bool.toNat_false] at hhead
          simp only [Bool.false_eq_true, if_false]
          omega
      | true =>
          rw [hp, Bool.toNat_true] at hhead
          simp only [if_true]
          omega

theorem sum_map_indicator [DecidableEq α] (a : α) (l : List α) :
    (l.map fun x => if x = a then 1 else 0).sum = l.count a := by
  induction l with
  | nil => rfl
  | cons x l ih => simp [List.count_cons, ih, Nat.add_comm]

theorem sum_map_set_add (w : α → Nat) {l : List α} {i : Nat} {a : α} (h : l[i]? = some a)
    (b : α) : ((l.set i b).map w).sum + w a = (l.map w).sum + w b := by
  induction l generalizing i with
  | nil => simp at h
  | cons x l ih =>
      cases i with
      | zero =>
          simp only [List.getElem?_cons_zero, Option.some.injEq] at h
          subst h
          simp only [List.set_cons_zero, List.map_cons, List.sum_cons]
          omega
      | succ i =>
          simp only [List.getElem?_cons_succ] at h
          have := ih h
          simp only [List.set_cons_succ, List.map_cons, List.sum_cons]
          omega

theorem length_le_countP_add (p q r : α → Bool) {l : List α}
    (h : ∀ x ∈ l, p x = true ∨ q x = true ∨ r x = true) :
    l.length ≤ l.countP p + l.countP q + l.countP r := by
  induction l with
  | nil => simp
  | cons x l ih =>
      have htail := ih fun y hy => h y (by simp [hy])
      simp only [List.length_cons, List.countP_cons]
      rcases h x (by simp) with hx | hx | hx <;> simp only [hx, ↓reduceIte] <;> omega

private theorem length_filter_range (p : α → Bool) (l : List α) :
    ((List.range l.length).filter fun i => l[i]?.any p).length = l.countP p := by
  induction l using List.reverseRecOn with
  | nil => simp
  | append_singleton l x ih =>
      have hsame : (List.range l.length).filter (fun i => (l ++ [x])[i]?.any p) =
          (List.range l.length).filter fun i => l[i]?.any p := by
        apply List.filter_congr
        intro i hi
        rw [List.getElem?_append_left (List.mem_range.mp hi)]
      rw [List.length_append, List.length_singleton, List.range_succ, List.filter_append,
        List.length_append, hsame, ih, List.countP_append]
      by_cases hx : p x = true <;> simp [hx]

theorem length_le_countP (p : α → Bool) {l : List α} {indices : List Nat}
    (hnodup : indices.Nodup)
    (hmem : ∀ i ∈ indices, ∃ a, l[i]? = some a ∧ p a = true) :
    indices.length ≤ l.countP p := by
  rw [← length_filter_range]
  apply (hnodup.subperm _).length_le
  intro i hi
  obtain ⟨a, ha, hpa⟩ := hmem i hi
  rw [List.mem_filter, List.mem_range]
  exact ⟨(List.getElem?_eq_some_iff.mp ha).1, by simp [ha, hpa]⟩

end Breaker.Foundation
