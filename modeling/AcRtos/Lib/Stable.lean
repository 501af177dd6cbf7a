import AcRtos.Lib.Insert

/-!
# Stable sorting by a number

`Sorts sl l`: the list `sl` holds the entries of `l` in the order of their numbers, and those of one number in
the order of `l`. Insertion behind the entries of no greater number keeps this when the new entry joins the end
of `l`.
-/

namespace AcRtos.Lib

variable {α : Type}

structure Sorts (sl l : List (α × Nat)) : Prop where
  sorted : sl.Pairwise fun e e' => e.2 ≤ e'.2
  stable : ∀ n, sl.filter (fun e => e.2 == n) = l.filter (fun e => e.2 == n)

namespace Sorts

variable {sl l : List (α × Nat)} {e : α × Nat}

theorem nil : Sorts ([] : List (α × Nat)) [] := ⟨List.Pairwise.nil, fun _ => rfl⟩

theorem mem_iff (h : Sorts sl l) : e ∈ sl ↔ e ∈ l := by
  have hfilter : ∀ xs : List (α × Nat), e ∈ xs ↔ e ∈ xs.filter (fun e' => e'.2 == e.2) := fun xs => by
    simp [List.mem_filter]
  rw [hfilter sl, h.stable, ← hfilter l]

theorem filter (h : Sorts sl l) (p : α × Nat → Bool) : Sorts (sl.filter p) (l.filter p) where
  sorted := h.sorted.sublist List.filter_sublist
  stable n := by rw [List.filter_comm, h.stable, List.filter_comm]

/-- In a sorted list the entries that pass a test on small numbers come first. -/
theorem pairwise_le (h : Sorts sl l) (n : Nat) :
    sl.Pairwise fun e e' => decide (e.2 ≤ n) = false → decide (e'.2 ≤ n) = false :=
  h.sorted.imp fun hle hn => by
    simp only [decide_eq_false_iff_not] at hn ⊢
    omega

theorem insert (h : Sorts sl l) (x : α) (n : Nat) :
    Sorts (insertWhile (fun e => decide (e.2 ≤ n)) (x, n) sl) (l ++ [(x, n)]) where
  sorted := by
    refine pairwise_insertWhile h.sorted ?_ ?_ ?_
    · intro e _ he
      simpa using he
    · intro e _ he
      simp only [decide_eq_false_iff_not] at he
      show n ≤ e.2
      omega
    · intro e e' he hle
      simp only [decide_eq_false_iff_not] at he ⊢
      omega
  stable m := by
    have hsplit : sl.filter (fun e => e.2 == m) =
        (sl.takeWhile fun e => decide (e.2 ≤ n)).filter (fun e => e.2 == m) ++
        (sl.dropWhile fun e => decide (e.2 ≤ n)).filter (fun e => e.2 == m) := by
      rw [← List.filter_append, List.takeWhile_append_dropWhile]
    rw [insertWhile, List.filter_append, List.filter_cons, List.filter_append, ← h.stable, hsplit]
    by_cases hm : n = m
    · -- the new entry goes behind all entries of its number
      subst hm
      have hafter : (sl.dropWhile fun e => decide (e.2 ≤ n)).filter (fun e => e.2 == n) = [] := by
        rw [dropWhile_eq_filter (h.pairwise_le n), List.filter_filter]
        refine List.filter_eq_nil_iff.mpr fun e _ => ?_
        by_cases he : e.2 = n <;> simp [he]
      simp [hafter]
    · simp [hm]

theorem pred (h : Sorts sl l) (hpos : ∀ e ∈ sl, 1 ≤ e.2) :
    Sorts (sl.map fun e => (e.1, e.2 - 1)) (l.map fun e => (e.1, e.2 - 1)) where
  sorted := List.pairwise_map.mpr (h.sorted.imp fun hle => by
    show _ - 1 ≤ _ - 1
    omega)
  stable n := by
    have hshift : ∀ xs : List (α × Nat), (∀ e ∈ xs, 1 ≤ e.2) →
        (xs.map fun e => (e.1, e.2 - 1)).filter (fun e => e.2 == n) =
          (xs.filter fun e => e.2 == n + 1).map fun e => (e.1, e.2 - 1) := by
      intro xs hxs
      rw [List.filter_map]
      congr 1
      refine List.filter_congr fun e he => ?_
      have hpos := hxs e he
      by_cases heq : e.2 = n + 1
      · simp [heq]
      · have : ¬ e.2 - 1 = n := by omega
        simp [heq, this]
    rw [hshift sl hpos, hshift l fun e he => hpos e (h.mem_iff.mpr he), h.stable]

theorem takeWhile_zero (h : Sorts sl l) :
    sl.takeWhile (fun e => e.2 == 0) = l.filter (fun e => e.2 == 0) ∧
      sl.dropWhile (fun e => e.2 == 0) = sl.filter (fun e => !(e.2 == 0)) := by
  have hfirst : sl.Pairwise fun e e' => (e.2 == 0) = false → (e'.2 == 0) = false :=
    h.sorted.imp fun hle he => by
      simp only [beq_eq_false_iff_ne] at he ⊢
      omega
  exact ⟨(takeWhile_eq_filter hfirst).trans (h.stable 0), dropWhile_eq_filter hfirst⟩

end Sorts

end AcRtos.Lib
