import AcRtos.TaskListSpec

/-!
# One task list and the tasks on it

`TaskLinks.Holds s l xs` looks at the list at `l` alone: its two ends and the links of its own tasks, and
nothing about any other list. The mutators of `TaskList` read and write no other list, so hiding the
others (`TaskLinks.only`) turns `Holds` into `Represents`, commutes with every mutator, and the sequence
results of `TaskListSpec` carry over. What lies outside follows from the writes themselves: every link a
mutator writes belongs to the task it is given or to a task on the list.
-/

namespace AcRtos

open Lib

namespace TaskLinks

variable {s s' : TaskLinks} {l : ListId} {xs ys : List Tid} {t : Tid} {v : Option Tid}

/-- The list at `l` is well formed and its tasks are `xs`, first to last. -/
structure Holds (s : TaskLinks) (l : ListId) (xs : List Tid) : Prop where
  head : (s.list l).head = xs.head?
  tail : (s.list l).tail = xs.getLast?
  seg : Seg s.prev s.next none xs none
  nodup : xs.Nodup

/-- The links of all tasks but `xs` and the ends of all lists but `l` are the same. -/
structure Outside (l : ListId) (xs : List Tid) (s s' : TaskLinks) : Prop where
  prev : ∀ y, y ∉ xs → s'.prev y = s.prev y
  next : ∀ y, y ∉ xs → s'.next y = s.next y
  list : ∀ j, j ≠ l → s'.list j = s.list j

/-- The same links with no list but `l`. -/
def only (l : ListId) (s : TaskLinks) : TaskLinks :=
  { s with list := Function.update (fun _ => ⟨none, none⟩) l (s.list l) }

@[simp] theorem only_prev : (s.only l).prev = s.prev := rfl

@[simp] theorem only_next : (s.only l).next = s.next := rfl

@[simp] theorem only_list : (s.only l).list l = s.list l := by simp [only]

/-! ### Hiding the other lists -/

theorem only_setNext : (s.setNext t v).only l = (s.only l).setNext t v := rfl

theorem only_setPrev : (s.setPrev t v).only l = (s.only l).setPrev t v := rfl

theorem only_setHead : (s.setHead l v).only l = (s.only l).setHead l v := by
  simp [only, setHead]

theorem only_setTail : (s.setTail l v).only l = (s.only l).setTail l v := by
  simp [only, setTail]

theorem not_mem_single (ht : t ∉ xs) (j : ListId) : t ∉ Function.update (fun _ => []) l xs j := by
  by_cases hj : j = l
  · subst hj
    simpa using ht
  · simp [Function.update_of_ne hj]

theorem holds_iff_only :
    s.Holds l xs ↔ (s.only l).Represents (Function.update (fun _ => []) l xs) := by
  constructor
  · intro h
    refine ⟨fun j => ?_, fun j => ?_, fun j => ?_, fun j => ?_, fun i j x hi hj => ?_⟩
    · by_cases hj : j = l
      · subst hj
        simpa using h.head
      · simp [only, Function.update_of_ne hj]
    · by_cases hj : j = l
      · subst hj
        simpa using h.tail
      · simp [only, Function.update_of_ne hj]
    · by_cases hj : j = l
      · subst hj
        simpa using h.seg
      · simp [Function.update_of_ne hj]
    · by_cases hj : j = l
      · subst hj
        simpa using h.nodup
      · simp [Function.update_of_ne hj]
    · have hlist : ∀ k, x ∈ Function.update (fun _ => []) l xs k → k = l := by
        intro k hk
        by_contra hne
        simp [Function.update_of_ne hne] at hk
      rw [hlist i hi, hlist j hj]
  · intro h
    refine ⟨?_, ?_, ?_, ?_⟩
    · simpa using h.head_eq l
    · simpa using h.tail_eq l
    · simpa using h.seg l
    · simpa using h.nodup l

theorem Holds.links_of_split (h : s.Holds l (xs ++ t :: ys)) :
    s.prev t = xs.getLast? ∧ s.next t = ys.head? :=
  (holds_iff_only.mp h).links_of_split (i := l) (by simp)

theorem Holds.prev_ne (h : s.Holds l xs) (ht : t ∈ xs) : s.prev t ≠ some t := by
  obtain ⟨left, right, rfl⟩ := List.append_of_mem ht
  rw [h.links_of_split.1]
  intro hlast
  have hnodup := h.nodup
  rw [List.nodup_append] at hnodup
  exact hnodup.2.2 t (List.mem_of_getLast? hlast) t (by simp) rfl

/-! ### Writes -/

namespace Outside

theorem refl : Outside l xs s s := ⟨fun _ _ => rfl, fun _ _ => rfl, fun _ _ => rfl⟩

theorem setNext (h : Outside l xs s s') (ht : t ∈ xs) : Outside l xs s (s'.setNext t v) := by
  refine ⟨h.prev, fun y hy => ?_, h.list⟩
  have hne : y ≠ t := fun heq => hy (heq ▸ ht)
  rw [setNext_next, Function.update_of_ne hne, h.next y hy]

theorem setPrev (h : Outside l xs s s') (ht : t ∈ xs) : Outside l xs s (s'.setPrev t v) := by
  refine ⟨fun y hy => ?_, h.next, h.list⟩
  have hne : y ≠ t := fun heq => hy (heq ▸ ht)
  rw [setPrev_prev, Function.update_of_ne hne, h.prev y hy]

theorem setHead (h : Outside l xs s s') : Outside l xs s (s'.setHead l v) := by
  refine ⟨h.prev, h.next, fun j hj => ?_⟩
  rw [setHead_list, Function.update_of_ne hj, h.list j hj]

theorem setTail (h : Outside l xs s s') : Outside l xs s (s'.setTail l v) := by
  refine ⟨h.prev, h.next, fun j hj => ?_⟩
  rw [setTail_list, Function.update_of_ne hj, h.list j hj]

end Outside

end TaskLinks

namespace TaskList

open TaskLinks

variable {s s' : TaskLinks} {l : ListId} {xs ys : List Tid} {t : Tid}

theorem only_pushBack : (pushBack l t s).only l = pushBack l t (s.only l) := by
  unfold pushBack
  simp only [setNext_list, only_list]
  cases (s.list l).tail with
  | none => simp only [only_setTail, only_setHead, only_setPrev, only_setNext]
  | some tail => simp only [only_setTail, only_setPrev, only_setNext]

theorem only_remove : (remove l t s).only l = remove l t (s.only l) := by
  cases hp : s.prev t with
  | none =>
    simp only [remove, only_prev, hp, only_next, ← only_setHead]
    cases (s.setHead l (s.next t)).next t with
    | none => simp only [only_setPrev, only_setNext, only_setTail]
    | some n => simp only [only_setPrev, only_setNext]
  | some p =>
    simp only [remove, only_prev, hp, only_next, ← only_setNext]
    cases (s.setNext p (s.next t)).next t with
    | none => simp only [only_setPrev, only_setNext, only_setTail]
    | some n => simp only [only_setPrev, only_setNext]

theorem only_insertByPriority (priority : Tid → Nat) (fuel : Nat) :
    (insertByPriority priority fuel l t s).map (TaskLinks.only l) =
      insertByPriority priority fuel l t (s.only l) := by
  unfold insertByPriority
  rw [only_list, only_next]
  by_cases hnil : (s.list l).head = none
  · rw [if_pos hnil, if_pos hnil, Option.map_some, only_pushBack]
  · rw [if_neg hnil, if_neg hnil]
    rcases findLower priority (priority t) s.next fuel (s.list l).head with - | - | current
    · rfl
    · rw [Option.map_some, only_pushBack]
    · simp only [Option.map_some, only_prev, ← only_setNext, ← only_setPrev]
      generalize (s.setNext t (some current)).setPrev t _ = s'
      cases s'.prev current with
      | none => rw [only_setPrev, only_setHead]
      | some p => rfl

/-! ### What the mutators do to the list -/

theorem pushBack_holds (h : s.Holds l xs) (ht : t ∉ xs) : (pushBack l t s).Holds l (xs ++ [t]) := by
  have hpush := pushBack_represents (l := l) (holds_iff_only.mp h) (not_mem_single ht)
  rw [holds_iff_only, only_pushBack]
  simpa using hpush

/-- The search loop ends within the length of the list, at the first task of lower priority. -/
theorem insertByPriority_holds (priority : Tid → Nat) {fuel : Nat} (h : s.Holds l xs) (ht : t ∉ xs)
    (hfuel : xs.length ≤ fuel) :
    ∃ s', insertByPriority priority fuel l t s = some s' ∧
      s'.Holds l (insertWhile (fun y => decide (priority y ≥ priority t)) t xs) := by
  have hlen : (Function.update (fun _ => []) l xs l : List Tid).length ≤ fuel := by simpa using hfuel
  obtain ⟨s₁, hs₁, hseq⟩ :=
    insertByPriority_represents priority (holds_iff_only.mp h) (not_mem_single ht) hlen
  rw [← only_insertByPriority, Option.map_eq_some_iff] at hs₁
  obtain ⟨s', hs', rfl⟩ := hs₁
  exact ⟨s', hs', holds_iff_only.mpr (by simpa using hseq)⟩

theorem remove_holds (h : s.Holds l xs) (ht : t ∈ xs) : (remove l t s).Holds l (xs.erase t) := by
  have hrem := remove_represents (l := l) (t := t) (holds_iff_only.mp h) (by simpa using ht)
  rw [holds_iff_only, only_remove]
  convert hrem using 1
  funext j
  by_cases hj : j = l
  · subst hj
    simp
  · simp [Function.update_of_ne hj]

theorem popFront_holds (h : s.Holds l (t :: xs)) : popFront l s = (some t, remove l t s) := by
  have hfirst : s.Holds l ([] ++ t :: xs) := h
  exact popFront_eq_remove (by rw [h.head]; rfl) hfirst.links_of_split.1

/-! ### What the mutators write -/

theorem pushBack_outside (h : s.Holds l xs) : Outside l (t :: xs) s (pushBack l t s) := by
  have ht : t ∈ t :: xs := by simp
  unfold pushBack
  simp only [setNext_list]
  cases htail : (s.list l).tail with
  | none => exact ((Outside.refl.setNext ht).setPrev ht).setHead.setTail
  | some tail =>
    have hmem : tail ∈ xs := List.mem_of_getLast? (by rw [← h.tail, htail])
    exact (((Outside.refl.setNext ht).setPrev ht).setNext (by simp [hmem])).setTail

theorem insertByPriority_outside {priority : Tid → Nat} {fuel : Nat} (h : s.Holds l xs)
    (ht : t ∉ xs) (hfuel : xs.length ≤ fuel) (hins : insertByPriority priority fuel l t s = some s') :
    Outside l (t :: xs) s s' := by
  have hself : t ∈ t :: xs := by simp
  have hfind := findLower_eq priority (priority t) h.seg hfuel
  rw [insertByPriority, h.head, hfind] at hins
  by_cases hnil : xs.head? = none
  · rw [if_pos hnil, Option.some_inj] at hins
    exact hins ▸ pushBack_outside h
  · rw [if_neg hnil] at hins
    cases hlower : (xs.dropWhile fun y => decide (priority y ≥ priority t)).head? with
    | none =>
      rw [hlower, Option.some_inj] at hins
      exact hins ▸ pushBack_outside h
    | some current =>
      rw [hlower, Option.some_inj] at hins
      subst hins
      have hcurrent : current ∈ xs := (List.dropWhile_sublist _).mem (List.mem_of_mem_head? hlower)
      have hne : current ≠ t := fun heq => ht (heq ▸ hcurrent)
      have hfirst : Outside l (t :: xs) s ((s.setNext t (some current)).setPrev t (s.prev current)) :=
        (Outside.refl.setNext hself).setPrev hself
      have hprev : ((s.setNext t (some current)).setPrev t (s.prev current)).prev current = s.prev current := by
        simp [Function.update_of_ne hne]
      have hlast : current ∈ t :: xs := by simp [hcurrent]
      simp only [setNext_prev, hprev]
      cases hp : s.prev current with
      | none => exact (hp ▸ hfirst).setHead.setPrev hlast
      | some p =>
        obtain ⟨left, right, rfl⟩ := List.append_of_mem hcurrent
        have hmem : p ∈ left := List.mem_of_getLast? (by rw [← h.links_of_split.1, hp])
        exact ((hp ▸ hfirst).setNext (by simp [hmem])).setPrev hlast

theorem remove_outside (h : s.Holds l xs) (ht : t ∈ xs) : Outside l xs s (remove l t s) := by
  obtain ⟨left, right, rfl⟩ := List.append_of_mem ht
  obtain ⟨hprev, hnext⟩ := h.links_of_split
  have hne := h.prev_ne ht
  refine ⟨fun y hy => ?_, fun y hy => ?_, fun j hj => ?_⟩
  · have hyt : y ≠ t := fun heq => hy (heq ▸ ht)
    have hyn : s.next t ≠ some y := by
      rw [hnext]
      intro hfirst
      exact hy (by simp [List.mem_of_mem_head? (Option.mem_def.mpr hfirst)])
    rw [remove_prev hne, if_neg hyt, if_neg hyn]
  · have hyt : y ≠ t := fun heq => hy (heq ▸ ht)
    have hyp : s.prev t ≠ some y := by
      rw [hprev]
      intro hlast
      exact hy (by simp [List.mem_of_getLast? hlast])
    rw [remove_next hne, if_neg hyt, if_neg hyp]
  · rw [remove_list hne, Function.update_of_ne hj]

theorem remove_unlinks (h : s.Holds l xs) (ht : t ∈ xs) :
    (remove l t s).prev t = none ∧ (remove l t s).next t = none := by
  have hne := h.prev_ne ht
  rw [remove_prev hne, remove_next hne]
  simp

theorem insertWhile_split (priority : Tid → Nat) (t : Tid) (xs : List Tid) :
    ∃ left right, xs = left ++ right ∧ (∀ y ∈ left, priority t ≤ priority y) ∧
      (∀ y, right.head? = some y → priority y < priority t) ∧
      insertWhile (fun y => decide (priority y ≥ priority t)) t xs = left ++ t :: right := by
  refine ⟨_, _, List.takeWhile_append_dropWhile.symm, ?_, ?_, rfl⟩
  · intro y hy
    simpa using List.mem_takeWhile_imp hy
  · intro y hy
    have hfirst := List.head?_dropWhile_not (fun y => decide (priority y ≥ priority t)) xs
    rw [hy] at hfirst
    simpa using hfirst

end TaskList

open TaskList in
/-- A well-formed list of any length and the four mutators. -/
theorem single_list_refines {s : TaskLinks} {l : ListId} {xs : List Tid} (h : s.Holds l xs)
    (priority : Tid → Nat) :
    (∀ t, t ∉ xs →
      (pushBack l t s).Holds l (xs ++ [t]) ∧ TaskLinks.Outside l (t :: xs) s (pushBack l t s)) ∧
    (∀ t, t ∉ xs → ∀ fuel, xs.length ≤ fuel →
      ∃ s' left right, insertByPriority priority fuel l t s = some s' ∧
        xs = left ++ right ∧ (∀ y ∈ left, priority t ≤ priority y) ∧
        (∀ y, right.head? = some y → priority y < priority t) ∧
        s'.Holds l (left ++ t :: right) ∧ TaskLinks.Outside l (t :: xs) s s') ∧
    (∀ t, t ∈ xs →
      (remove l t s).Holds l (xs.erase t) ∧ TaskLinks.Outside l xs s (remove l t s) ∧
        (remove l t s).prev t = none ∧ (remove l t s).next t = none) ∧
    (xs = [] → popFront l s = (none, s)) ∧
    (∀ t rest, xs = t :: rest → ∃ s', popFront l s = (some t, s') ∧
      s'.Holds l rest ∧ TaskLinks.Outside l xs s s' ∧ s'.prev t = none ∧ s'.next t = none) := by
  refine ⟨?_, ?_, ?_, ?_, ?_⟩
  · intro t ht
    exact ⟨pushBack_holds h ht, pushBack_outside h⟩
  · intro t ht fuel hfuel
    obtain ⟨s', hs', hholds⟩ := insertByPriority_holds priority h ht hfuel
    obtain ⟨left, right, hcat, hleft, hright, hins⟩ := insertWhile_split priority t xs
    rw [hins] at hholds
    exact ⟨s', left, right, hs', hcat, hleft, hright, hholds, insertByPriority_outside h ht hfuel hs'⟩
  · intro t ht
    exact ⟨remove_holds h ht, remove_outside h ht, remove_unlinks h ht⟩
  · rintro rfl
    have hhead := h.head
    simp [popFront, hhead]
  · rintro t rest rfl
    have ht : t ∈ t :: rest := by simp
    have hholds := remove_holds h ht
    rw [List.erase_cons_head] at hholds
    exact ⟨_, popFront_holds h, hholds, remove_outside h ht, remove_unlinks h ht⟩

/-- Three tasks on the list of priority 0. -/
def TaskLinks.three : TaskLinks where
  prev := fun t => if t = 1 then some 0 else if t = 2 then some 1 else none
  next := fun t => if t = 0 then some 1 else if t = 1 then some 2 else none
  list := fun l => if l = .ready 0 then ⟨some 0, some 2⟩ else ⟨none, none⟩

/-- Pushing behind three linked tasks and taking the middle one out. -/
theorem single_list_refines_three :
    TaskLinks.three.Holds (.ready 0) [0, 1, 2] ∧
      (TaskList.pushBack (.ready 0) 3 TaskLinks.three).Holds (.ready 0) [0, 1, 2, 3] ∧
      (TaskList.remove (.ready 0) 1 TaskLinks.three).Holds (.ready 0) [0, 2] := by
  have h : TaskLinks.three.Holds (.ready 0) [0, 1, 2] :=
    ⟨by decide, by decide, by simp [TaskLinks.three], by decide⟩
  obtain ⟨hpush, -, hremove, -⟩ := single_list_refines h id
  exact ⟨h, (hpush 3 (by decide)).1, (hremove 1 (by decide)).1⟩

end AcRtos
