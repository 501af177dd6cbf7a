import Mathlib

/-!
# The window of a ring

A ring of `n` slots holds the sequence of its `count` slots from the `head` on, around the end. Writing the slot
behind the window and counting it appends; leaving the first slot out drops the first element.
-/

namespace AcRtos.Lib

variable {α : Type*} {n head count : Nat} {f g : Nat → α}

/-- The `count` slots from `head` on. -/
def window (n : Nat) (f : Nat → α) (head count : Nat) : List α := (List.range count).map fun i => f ((head + i) % n)

@[simp] theorem window_zero : window n f head 0 = [] := rfl

theorem window_congr (h : ∀ i, i < count → f ((head + i) % n) = g ((head + i) % n)) :
    window n f head count = window n g head count :=
  List.map_congr_left fun i hi => h i (List.mem_range.mp hi)

theorem window_succ : window n f head (count + 1) = window n f head count ++ [f ((head + count) % n)] := by
  simp [window, List.range_succ]

theorem window_head (hlt : head < n) :
    window n f head (count + 1) = f head :: window n f ((head + 1) % n) count := by
  rw [window, List.range_succ_eq_map, List.map_cons, Nat.add_zero, Nat.mod_eq_of_lt hlt, List.map_map]
  refine congrArg _ (List.map_congr_left fun i _ => ?_)
  show f ((head + (i + 1)) % n) = f (((head + 1) % n + i) % n)
  rw [Nat.mod_add_mod, Nat.add_assoc, Nat.add_comm 1 i]

theorem slot_ne {i : Nat} (hi : i < count) (hcount : count < n) : (head + i) % n ≠ (head + count) % n := by
  intro heq
  have hmod : (count - i) % n = 0 := by
    rw [← Nat.add_sub_add_left head count i]
    exact Nat.sub_mod_eq_zero_of_mod_eq heq.symm
  rw [Nat.mod_eq_of_lt (by omega)] at hmod
  omega

theorem window_push {x : α} (hcount : count < n) (hnew : g ((head + count) % n) = x)
    (hold : ∀ j, j ≠ (head + count) % n → g j = f j) :
    window n g head (count + 1) = window n f head count ++ [x] := by
  rw [window_succ, hnew, window_congr fun i hi => hold _ (slot_ne hi hcount)]

end AcRtos.Lib
