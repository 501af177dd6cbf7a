import Mathlib

/-!
# Delta lists

A list of deadlines in which every node stores only its distance from the deadline before it. `Deltas d
base l`: the deltas `d` of the nodes of `l` add up, from `base` on, to the deadlines in `l`.
-/

namespace AcRtos.Lib

variable {α : Type}

def Deltas (d : α → Nat) : Nat → List (α × Nat) → Prop
  | _, [] => True
  | base, e :: l => e.2 = base + d e.1 ∧ Deltas d e.2 l

/-- The deadline of the last node. -/
def endOf (base : Nat) (l : List (α × Nat)) : Nat := l.foldl (fun _ e => e.2) base

section
variable {d d' : α → Nat} {base : Nat}

@[simp] theorem endOf_nil : endOf base ([] : List (α × Nat)) = base := rfl

@[simp] theorem endOf_cons (e : α × Nat) (l : List (α × Nat)) : endOf base (e :: l) = endOf e.2 l := rfl

@[simp] theorem deltas_nil : Deltas d base [] := trivial

@[simp] theorem deltas_cons {e : α × Nat} {l : List (α × Nat)} :
    Deltas d base (e :: l) ↔ e.2 = base + d e.1 ∧ Deltas d e.2 l := Iff.rfl

theorem deltas_append {l r : List (α × Nat)} :
    Deltas d base (l ++ r) ↔ Deltas d base l ∧ Deltas d (endOf base l) r := by
  induction l generalizing base with
  | nil => simp
  | cons e l ih => simp [ih, and_assoc]

theorem Deltas.congr {l : List (α × Nat)} (h : Deltas d base l) (heq : ∀ e ∈ l, d' e.1 = d e.1) :
    Deltas d' base l := by
  induction l generalizing base with
  | nil => trivial
  | cons e l ih =>
    exact ⟨by rw [heq e (by simp)]; exact h.1, ih h.2 fun e' he' => heq e' (by simp [he'])⟩

/-- Shifting all deadlines by one tick. -/
theorem Deltas.pred {l : List (α × Nat)} (h : Deltas d base l) (hbase : 1 ≤ base) :
    Deltas d (base - 1) (l.map fun e => (e.1, e.2 - 1)) := by
  induction l generalizing base with
  | nil => trivial
  | cons e l ih =>
    have h1 := h.1
    refine ⟨?_, ih h.2 (by omega)⟩
    show e.2 - 1 = base - 1 + d e.1
    omega

theorem Deltas.sum_eq {l : List (α × Nat)} (h : Deltas d base l) :
    base + (l.map fun e => d e.1).sum = endOf base l := by
  induction l generalizing base with
  | nil => simp
  | cons e l ih =>
    have h1 := h.1
    have h2 := ih h.2
    rw [List.map_cons, List.sum_cons, endOf_cons]
    omega

theorem Deltas.unique {l l' : List (α × Nat)} (h : Deltas d base l) (h' : Deltas d base l')
    (hnodes : l.map Prod.fst = l'.map Prod.fst) : l = l' := by
  induction l generalizing base l' with
  | nil => exact (List.map_eq_nil_iff.mp hnodes.symm).symm
  | cons e l ih =>
    obtain ⟨e', l', rfl, hfst, hrest⟩ := List.map_eq_cons_iff.mp hnodes.symm
    have heq : e' = e := Prod.ext hfst (by rw [h'.1, h.1, hfst])
    subst heq
    rw [ih h.2 h'.2 hrest.symm]

end

end AcRtos.Lib
