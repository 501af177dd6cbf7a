import AcRtos.Lists

/-!
# The held-mutex lists

`HeldLinks.Represents s held`: in the link state `s` the list that starts in `held_mutexes` of `t` is
`held t`. A mutex is in at most one of these lists, although each has a single `next_held_` link.
-/

namespace AcRtos

open HeldList

/-- `next` leads from `start` through exactly `xs` to the end. -/
def Path {N : Type} (next : N → Option N) : Option N → List N → Prop
  | start, [] => start = none
  | start, x :: xs => start = some x ∧ Path next (next x) xs

theorem Path.congr {N : Type} {n next' : N → Option N} {start : Option N} {xs : List N}
    (h : Path n start xs) (heq : ∀ x ∈ xs, next' x = n x) : Path next' start xs := by
  induction xs generalizing start with
  | nil => exact h
  | cons x xs ih =>
    refine ⟨h.1, ?_⟩
    rw [heq x (by simp)]
    exact ih h.2 fun y hy => heq y (by simp [hy])

/-- The lists of held mutexes of `s`. -/
structure HeldLinks.Represents (s : HeldLinks) (held : Tid → List MutexId) : Prop where
  path : ∀ t, Path s.nextHeld (s.heldMutexes t) (held t)
  nodup : ∀ t, (held t).Nodup
  disjoint : ∀ t u m, m ∈ held t → m ∈ held u → t = u

namespace HeldList

variable {s : HeldLinks} {held : Tid → List MutexId} {t : Tid} {m : MutexId}

theorem addHeld_represents (h : s.Represents held) (hfresh : ∀ u, m ∉ held u) :
    (addHeld m t s).Represents (Function.update held t (m :: held t)) := by
  have hrest : ∀ u, ∀ x ∈ held u, (addHeld m t s).nextHeld x = s.nextHeld x := fun u x hx => by
    simp [addHeld, Function.update_of_ne (show x ≠ m from fun heq => hfresh u (heq ▸ hx))]
  refine ⟨fun u => ?_, fun u => ?_, fun u v x hu hv => ?_⟩
  · by_cases hu : u = t
    · subst hu
      rw [Function.update_self]
      refine ⟨by simp [addHeld], ?_⟩
      have := (h.path u).congr (hrest u)
      simpa [addHeld] using this
    · rw [Function.update_of_ne hu]
      have := (h.path u).congr (hrest u)
      simpa [addHeld, Function.update_of_ne hu] using this
  · by_cases hu : u = t
    · subst hu
      rw [Function.update_self]
      exact List.nodup_cons.mpr ⟨hfresh u, h.nodup u⟩
    · rw [Function.update_of_ne hu]
      exact h.nodup u
  · by_cases hut : u = t <;> by_cases hvt : v = t
    · rw [hut, hvt]
    · rw [hut, Function.update_self] at hu
      rw [Function.update_of_ne hvt] at hv
      rcases List.mem_cons.mp hu with rfl | hu
      · exact absurd hv (hfresh v)
      · rw [hut]; exact h.disjoint t v x hu hv
    · rw [Function.update_of_ne hut] at hu
      rw [hvt, Function.update_self] at hv
      rcases List.mem_cons.mp hv with rfl | hv
      · exact absurd hu (hfresh u)
      · rw [hvt]; exact h.disjoint u t x hu hv
    · rw [Function.update_of_ne hut] at hu
      rw [Function.update_of_ne hvt] at hv
      exact h.disjoint u v x hu hv

/-- The slot in front of the rest of a list. -/
def slotAfter (p : Slot) : List MutexId → Slot
  | [] => p
  | x :: l => slotAfter (.mutex x) l

/-- The loop of `remove_held` stops in front of the mutex. -/
theorem findHeld_eq (fuel : Nat) {left right : List MutexId} {p : Slot}
    (hpath : Path s.nextHeld (p.read s) (left ++ m :: right)) (hm : m ∉ left)
    (hfuel : left.length ≤ fuel) : findHeld m s fuel p = some (slotAfter p left) := by
  induction left generalizing fuel p with
  | nil =>
    obtain ⟨hread, -⟩ := hpath
    unfold findHeld
    rw [hread]
    simp [slotAfter]
  | cons x left ih =>
    obtain ⟨hread, hrest⟩ := hpath
    have hx : x ≠ m := fun heq => hm (by simp [heq])
    obtain ⟨fuel, rfl⟩ : ∃ n, fuel = n + 1 := ⟨fuel - 1, by simp at hfuel; omega⟩
    unfold findHeld
    rw [hread]
    simp only [hx, if_false]
    exact ih fuel hrest (fun hmem => hm (by simp [hmem])) (by simpa using hfuel)

theorem slotAfter_concat (p : Slot) (l : List MutexId) (x : MutexId) :
    slotAfter p (l ++ [x]) = .mutex x := by
  induction l generalizing p with
  | nil => rfl
  | cons y l ih => exact ih (.mutex y)

theorem read_slotAfter {left right : List MutexId} {p : Slot}
    (hpath : Path s.nextHeld (p.read s) (left ++ m :: right)) :
    (slotAfter p left).read s = some m := by
  induction left generalizing p with
  | nil => exact hpath.1
  | cons x left ih => exact ih (p := .mutex x) hpath.2

/-- A write behind `q` does not change a slot that is neither `q` nor behind it. -/
theorem read_write_slotAfter {p q : Slot} (l : List MutexId) (v : Option MutexId)
    (hq : ∀ y, p = .mutex y → q ≠ .mutex y ∧ y ∉ l) (hqt : ∀ u, q ≠ .task u) :
    p.read ((slotAfter q l).write s v) = p.read s := by
  induction l generalizing q with
  | nil =>
    cases q with
    | task u => exact absurd rfl (hqt u)
    | mutex z =>
      cases p with
      | task u => rfl
      | mutex y =>
        have hne : y ≠ z := fun heq => (hq y rfl).1 (by rw [heq])
        simp [slotAfter, Slot.write, Slot.read, Function.update_of_ne hne]
  | cons z l ih =>
    refine ih (q := .mutex z) (fun y hy => ⟨?_, fun hmem => (hq y hy).2 (by simp [hmem])⟩) (by simp)
    rintro ⟨⟩
    exact (hq _ hy).2 (by simp)

theorem path_write {left right : List MutexId} {p : Slot}
    (hpath : Path s.nextHeld (p.read s) (left ++ m :: right)) (hm : m ∉ left)
    (hnodup : (left ++ m :: right).Nodup) (hp : ∀ x, p = .mutex x → x ∉ left ++ m :: right) :
    Path ((slotAfter p left).write s (s.nextHeld m)).nextHeld
      (p.read ((slotAfter p left).write s (s.nextHeld m))) (left ++ right) := by
  induction left generalizing p with
  | nil =>
    obtain ⟨-, hright⟩ := hpath
    cases p with
    | task t =>
      simp only [slotAfter, Slot.write, Slot.read, Function.update_self, List.nil_append]
      exact hright
    | mutex x =>
      have hx := hp x rfl
      simp only [slotAfter, Slot.write, Slot.read, Function.update_self, List.nil_append]
      exact hright.congr fun y hy => Function.update_of_ne (fun heq => hx (by simp [← heq, hy])) _ _
  | cons x left ih =>
    obtain ⟨hread, hrest⟩ := hpath
    rw [List.cons_append, List.nodup_cons] at hnodup
    have hrec := ih (p := .mutex x) hrest (fun hmem => hm (by simp [hmem])) hnodup.2
      (by rintro y ⟨⟩; exact hnodup.1)
    refine ⟨?_, hrec⟩
    -- the write happens behind `x`, so the slot in front of `x` keeps its value
    rw [← hread]
    refine read_write_slotAfter left _ (fun y hy => ⟨?_, fun hmem => hp y hy (by simp [hmem])⟩) (by simp)
    rintro ⟨⟩
    exact hp _ hy (by simp)

theorem removeHeld_represents {fuel : Nat} (h : s.Represents held) (hm : m ∈ held t)
    (hfuel : (held t).length ≤ fuel) :
    ∃ s', removeHeld fuel m t s = some s' ∧
      s'.Represents (Function.update held t ((held t).erase m)) := by
  obtain ⟨left, right, hsplit⟩ := List.append_of_mem hm
  have hnodup := h.nodup t
  rw [hsplit] at hnodup
  have hl : m ∉ left := fun hx => (List.nodup_append.mp hnodup).2.2 m hx m (by simp) rfl
  have hpath := h.path t
  rw [hsplit] at hpath hfuel
  have hfind := findHeld_eq fuel (p := .task t) hpath hl (by
    rw [List.length_append, List.length_cons] at hfuel
    omega)
  have hwrite := path_write (p := .task t) hpath hl hnodup (by simp)
  have herase : (held t).erase m = left ++ right := by
    rw [hsplit, List.erase_append_right _ hl, List.erase_cons_head]
  have hm' : ∀ u, u ≠ t → m ∉ held u := fun u hu hmem => hu (h.disjoint u t m hmem hm)
  -- the slot found lies in `t`'s list, and it holds `m`
  have hin : (∃ x, slotAfter (.task t) left = .mutex x ∧ x ∈ left) ∨
      (slotAfter (.task t) left = .task t ∧ left = []) := by
    rcases List.eq_nil_or_concat left with rfl | ⟨l, x, rfl⟩
    · exact Or.inr ⟨rfl, rfl⟩
    · left
      refine ⟨x, ?_, by simp⟩
      rw [List.concat_eq_append]
      exact slotAfter_concat _ l x
  have hread := read_slotAfter (p := .task t) hpath
  unfold removeHeld
  rw [hfind, herase]
  simp only [hread]
  refine ⟨_, rfl, fun u => ?_, fun u => ?_, fun u v x hu hv => ?_⟩
  · by_cases hu : u = t
    · subst hu
      rw [Function.update_self]
      refine Path.congr (n := ((slotAfter (.task u) left).write s (s.nextHeld m)).nextHeld) ?_
        fun x hx => Function.update_of_ne ?_ _ _
      · exact hwrite
      · rintro rfl
        rcases List.mem_append.mp hx with hx | hx
        · exact hl hx
        · exact (List.nodup_cons.mp (List.nodup_append.mp hnodup).2.1).1 hx
    · rw [Function.update_of_ne hu]
      have hstart : ((slotAfter (.task t) left).write s (s.nextHeld m)).heldMutexes u =
          s.heldMutexes u := by
        rcases hin with ⟨x, hx, -⟩ | ⟨hx, -⟩
        · rw [hx]; rfl
        · rw [hx]; simp [Slot.write, Function.update_of_ne hu]
      show Path _ (((slotAfter (.task t) left).write s (s.nextHeld m)).heldMutexes u) _
      rw [hstart]
      refine (h.path u).congr fun x hx => ?_
      have hxm : x ≠ m := fun heq => hm' u hu (heq ▸ hx)
      simp only [Function.update_of_ne hxm]
      rcases hin with ⟨y, hy, hyl⟩ | ⟨hy, -⟩
      · have hxy : x ≠ y := fun heq => hu (h.disjoint u t x hx (by rw [hsplit, heq]; simp [hyl]))
        rw [hy]
        simp [Slot.write, Function.update_of_ne hxy]
      · rw [hy]; rfl
  · by_cases hu : u = t
    · subst hu
      rw [Function.update_self, ← herase]
      exact (h.nodup u).erase m
    · rw [Function.update_of_ne hu]
      exact h.nodup u
  · have hsub : ∀ w, x ∈ Function.update held t (left ++ right) w → x ∈ held w := by
      intro w hw
      by_cases hwt : w = t
      · subst hwt
        rw [Function.update_self, ← herase] at hw
        exact List.mem_of_mem_erase hw
      · rwa [Function.update_of_ne hwt] at hw
    exact h.disjoint u v x (hsub u hu) (hsub v hv)

theorem maxWaiter_eq {waiter : MutexId → Option Nat} {next : MutexId → Option MutexId} {fuel p : Nat}
    {start : Option MutexId} {xs : List MutexId} (hpath : Path next start xs)
    (hfuel : xs.length ≤ fuel) :
    maxWaiter waiter next fuel p start = some ((xs.filterMap waiter).foldl max p) := by
  induction xs generalizing fuel p start with
  | nil =>
    rw [show start = none from hpath]
    cases fuel <;> rfl
  | cons x xs ih =>
    obtain ⟨rfl, hrest⟩ := hpath
    obtain ⟨fuel, rfl⟩ : ∃ n, fuel = n + 1 := ⟨fuel - 1, by simp at hfuel; omega⟩
    have hlen : xs.length ≤ fuel := by simpa using hfuel
    unfold maxWaiter
    cases hw : waiter x with
    | none => simpa [hw] using ih (p := p) hrest hlen
    | some w =>
      have hmax : (if w > p then w else p) = max p w := by
        split
        · rw [Nat.max_eq_right (by omega)]
        · rw [Nat.max_eq_left (by omega)]
      simp only [hmax]
      simpa [hw] using ih (p := max p w) hrest hlen

end HeldList

end AcRtos
