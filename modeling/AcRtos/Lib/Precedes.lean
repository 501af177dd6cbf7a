import AcRtos.Lib.Insert

/-!
# One element before another

`Precedes x y l`: some `x` of `l` stands before some `y`. In a list without repetitions this orders the
elements, removing elements keeps the order of the others, and stable insertion puts the new element behind
those that pass its test.
-/

namespace AcRtos.Lib

variable {α : Type} {x y z : α} {l l' : List α}

def Precedes (x y : α) (l : List α) : Prop := [x, y].Sublist l

namespace Precedes

theorem mem_right (h : Precedes x y l) : y ∈ l := h.subset (by simp)

theorem mono (h : Precedes x y l) (hl : l.Sublist l') : Precedes x y l' := List.Sublist.trans h hl

theorem cons_iff : Precedes x y (z :: l) ↔ x = z ∧ y ∈ l ∨ Precedes x y l := by
  constructor
  · intro h
    cases h with
    | cons _ h => exact Or.inr h
    | cons_cons _ h => exact Or.inl ⟨rfl, List.singleton_sublist.mp h⟩
  · rintro (⟨rfl, hy⟩ | h)
    · exact (List.singleton_sublist.mpr hy).cons_cons _
    · exact List.Sublist.cons _ h

theorem append (hx : x ∈ l) (hy : y ∈ l') : Precedes x y (l ++ l') :=
  (List.singleton_sublist.mpr hx).append (List.singleton_sublist.mpr hy)

theorem ne (h : Precedes x y l) (hl : l.Nodup) : x ≠ y := by
  rintro rfl
  exact (List.nodup_iff_sublist.mp hl x) h

theorem total (hx : x ∈ l) (hy : y ∈ l) (hne : x ≠ y) : Precedes x y l ∨ Precedes y x l := by
  induction l with
  | nil => cases hx
  | cons z l ih =>
    rw [cons_iff, cons_iff]
    rcases List.mem_cons.mp hx with rfl | hx'
    · rcases List.mem_cons.mp hy with rfl | hy'
      · exact absurd rfl hne
      · exact Or.inl (Or.inl ⟨rfl, hy'⟩)
    · rcases List.mem_cons.mp hy with rfl | hy'
      · exact Or.inr (Or.inl ⟨rfl, hx'⟩)
      · exact (ih hx' hy').imp Or.inr Or.inr

theorem asymm (h : Precedes x y l) (hl : l.Nodup) : ¬ Precedes y x l := by
  induction l with
  | nil => cases h
  | cons z l ih =>
    rw [List.nodup_cons] at hl
    rw [cons_iff] at h ⊢
    rintro (⟨rfl, -⟩ | h')
    · rcases h with ⟨rfl, hy⟩ | h
      · exact hl.1 hy
      · exact hl.1 h.mem_right
    · rcases h with ⟨rfl, -⟩ | h
      · exact hl.1 h'.mem_right
      · exact ih h hl.2 h'

theorem of_sublist (h : Precedes x y l) (hl : l.Nodup) (hsub : l'.Sublist l) (hx : x ∈ l') (hy : y ∈ l') :
    Precedes x y l' := by
  have hne := h.ne hl
  rcases total hx hy hne with h' | h'
  · exact h'
  · exact absurd (h'.mono hsub) (h.asymm hl)

end Precedes

theorem sublist_insertWhile (p : α → Bool) (x : α) (l : List α) : l.Sublist (insertWhile p x l) := by
  have h : (l.takeWhile p ++ l.dropWhile p).Sublist (l.takeWhile p ++ x :: l.dropWhile p) :=
    (List.Sublist.refl _).append (List.sublist_cons_self _ _)
  rwa [List.takeWhile_append_dropWhile] at h

/-- The new element goes behind those that pass the test, when these come first. -/
theorem precedes_insertWhile {p : α → Bool} (hp : l.Pairwise fun y z => p y = false → p z = false) (hy : y ∈ l)
    (hpy : p y = true) : Precedes y x (insertWhile p x l) := by
  refine Precedes.append ?_ (by simp)
  rw [takeWhile_eq_filter hp]
  exact List.mem_filter.mpr ⟨hy, hpy⟩

end AcRtos.Lib
