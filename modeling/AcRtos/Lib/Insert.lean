import Mathlib

/-!
# Insertion at the end of a prefix

`insertWhile p x l` inserts `x` after the longest prefix of `l` on which `p` holds: stable insertion into
a priority queue or a list of deadlines.
-/

namespace AcRtos.Lib

variable {α : Type}

def insertWhile (p : α → Bool) (x : α) (l : List α) : List α := l.takeWhile p ++ x :: l.dropWhile p

theorem insertWhile_perm (p : α → Bool) (x : α) (l : List α) : (insertWhile p x l).Perm (x :: l) := by
  have h : (l.takeWhile p ++ x :: l.dropWhile p).Perm (x :: (l.takeWhile p ++ l.dropWhile p)) :=
    List.perm_middle
  rwa [List.takeWhile_append_dropWhile] at h

@[simp] theorem mem_insertWhile {p : α → Bool} {x y : α} {l : List α} :
    y ∈ insertWhile p x l ↔ y = x ∨ y ∈ l := by
  rw [(insertWhile_perm p x l).mem_iff, List.mem_cons]

theorem insertWhile_congr {p q : α → Bool} {x : α} {l : List α} (h : ∀ y ∈ l, p y = q y) :
    insertWhile p x l = insertWhile q x l := by
  unfold insertWhile
  induction l with
  | nil => rfl
  | cons y l ih =>
    have hrest := ih fun z hz => h z (by simp [hz])
    rw [List.takeWhile_cons, List.takeWhile_cons, List.dropWhile_cons, List.dropWhile_cons,
      ← h y (by simp)]
    cases p y with
    | true => simpa using hrest
    | false => rfl

theorem nodup_insertWhile {p : α → Bool} {x : α} {l : List α} (hl : l.Nodup) (hx : x ∉ l) :
    (insertWhile p x l).Nodup :=
  (insertWhile_perm p x l).nodup_iff.mpr (List.nodup_cons.mpr ⟨hx, hl⟩)

theorem insertWhile_of_all {p : α → Bool} {x : α} {l : List α} (h : ∀ y ∈ l, p y = true) :
    insertWhile p x l = l ++ [x] := by
  have hcat := List.takeWhile_append_dropWhile (p := p) (l := l)
  have htake : l.takeWhile p = l := List.takeWhile_eq_self_iff.mpr h
  rw [htake] at hcat
  have hdrop : l.dropWhile p = [] := List.append_right_eq_self.mp hcat
  rw [insertWhile, htake, hdrop]

/-- Inserting with a decreasing test keeps a list in which every later element satisfies `r` with every
earlier one. -/
theorem pairwise_insertWhile {r : α → α → Prop} {p : α → Bool} {x : α} {l : List α}
    (hl : l.Pairwise r) (hbefore : ∀ y ∈ l, p y = true → r y x) (hafter : ∀ y ∈ l, p y = false → r x y)
    (htrans : ∀ y z, p y = false → r y z → p z = false) : (insertWhile p x l).Pairwise r := by
  induction l with
  | nil => simp [insertWhile]
  | cons y l ih =>
    rw [List.pairwise_cons] at hl
    cases hp : p y with
    | true =>
      have h := ih hl.2 (fun z hz => hbefore z (by simp [hz])) (fun z hz => hafter z (by simp [hz]))
      have hstep : insertWhile p x (y :: l) = y :: insertWhile p x l := by simp [insertWhile, hp]
      rw [hstep, List.pairwise_cons]
      refine ⟨fun z hz => ?_, h⟩
      rcases mem_insertWhile.mp hz with rfl | hz
      · exact hbefore y (by simp) hp
      · exact hl.1 z hz
    | false =>
      have hstep : insertWhile p x (y :: l) = x :: y :: l := by simp [insertWhile, hp]
      rw [hstep, List.pairwise_cons, List.pairwise_cons]
      refine ⟨fun z hz => ?_, hl⟩
      rcases List.mem_cons.mp hz with rfl | hz
      · exact hafter z (by simp) hp
      · exact hafter z (by simp [hz]) (htrans y z hp (hl.1 z hz))

/-- On a list where the test never turns true again, the prefix is the set of elements that pass. -/
theorem takeWhile_eq_filter {p : α → Bool} {l : List α}
    (h : l.Pairwise fun x y => p x = false → p y = false) : l.takeWhile p = l.filter p := by
  induction l with
  | nil => rfl
  | cons x l ih =>
    rw [List.pairwise_cons] at h
    cases hp : p x with
    | true => simp [hp, ih h.2]
    | false =>
      have hnone : l.filter p = [] := List.filter_eq_nil_iff.mpr fun y hy => by simp [h.1 y hy hp]
      simp [hp, hnone]

theorem dropWhile_eq_filter {p : α → Bool} {l : List α}
    (h : l.Pairwise fun x y => p x = false → p y = false) : l.dropWhile p = l.filter (!p ·) := by
  induction l with
  | nil => rfl
  | cons x l ih =>
    rw [List.pairwise_cons] at h
    cases hp : p x with
    | true => simp [hp, ih h.2]
    | false =>
      have hall : l.filter (!p ·) = l := List.filter_eq_self.mpr fun y hy => by simp [h.1 y hy hp]
      simp [hp, hall]

theorem filter_insertWhile {p q : α → Bool} {x : α} {l : List α}
    (h : l.Pairwise fun x y => p x = false → p y = false) (hx : q x = true) :
    (insertWhile p x l).filter q = insertWhile p x (l.filter q) := by
  have hq := h.sublist (List.filter_sublist (p := q))
  rw [insertWhile, insertWhile, takeWhile_eq_filter h, dropWhile_eq_filter h, takeWhile_eq_filter hq,
    dropWhile_eq_filter hq, List.filter_append, List.filter_cons_of_pos hx, List.filter_filter, List.filter_filter,
    List.filter_filter, List.filter_filter]
  simp only [Bool.and_comm]

theorem filter_insertWhile_of_not {p q : α → Bool} {x : α} {l : List α} (hx : q x = false) :
    (insertWhile p x l).filter q = l.filter q := by
  rw [insertWhile, List.filter_append, List.filter_cons_of_neg (by simp [hx]), ← List.filter_append,
    List.takeWhile_append_dropWhile]

end AcRtos.Lib
