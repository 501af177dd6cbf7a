import AcRtos.Lists
import AcRtos.Lib.Chain
import AcRtos.Lib.Insert

/-!
# `TaskList` keeps its sequences

`TaskLinks.Represents s seq`: in the link state `s` the list at address `l` holds the tasks `seq l`. Each
mutator of `TaskList` is the corresponding operation on sequences.
-/

namespace AcRtos

open Lib

/-- The task lists of `s` hold the sequences `seq`. -/
abbrev TaskLinks.Represents (s : TaskLinks) (seq : ListId → List Tid) : Prop :=
  Linked s.prev s.next (fun l => (s.list l).head) (fun l => (s.list l).tail) seq

namespace TaskList

variable {s : TaskLinks} {seq : ListId → List Tid} {l : ListId} {t : Tid}

theorem head_update (list : ListId → TaskList) (x : TaskList) :
    (fun j => (Function.update list l x j).head) =
      Function.update (fun j => (list j).head) l x.head := by
  funext j
  by_cases hj : j = l
  · subst hj; simp
  · simp [Function.update_of_ne hj]

theorem tail_update (list : ListId → TaskList) (x : TaskList) :
    (fun j => (Function.update list l x j).tail) =
      Function.update (fun j => (list j).tail) l x.tail := by
  funext j
  by_cases hj : j = l
  · subst hj; simp
  · simp [Function.update_of_ne hj]

theorem pushBack_represents (h : s.Represents seq) (hfresh : ∀ j, t ∉ seq j) :
    (pushBack l t s).Represents (Function.update seq l (seq l ++ [t])) := by
  have htail := h.tail_eq l
  have hhead := h.head_eq l
  cases hlast : (seq l).getLast? with
  | none =>
    have hnil : seq l = [] := List.getLast?_eq_none_iff.mp hlast
    rw [hlast] at htail
    refine h.insert (l := seq l) (r := []) (by simp) hfresh ?_ ?_ ?_ ?_ ?_ ?_ ?_ ?_
      <;> simp only [pushBack, TaskLinks.setNext_list, htail]
    · simp [hlast]
    · simp
    · simp [hlast]
    · simp
    · intro y hy _
      simp [Function.update_of_ne hy]
    · intro y hy _
      simp [Function.update_of_ne hy]
    · simp [head_update, hnil]
    · simp [tail_update]
  | some tail =>
    rw [hlast] at htail
    have hne : seq l ≠ [] := by rintro hnil; simp [hnil] at hlast
    have hmem : tail ∈ seq l := List.mem_of_getLast? hlast
    have htne : tail ≠ t := fun heq => hfresh l (heq ▸ hmem)
    refine h.insert (l := seq l) (r := []) (by simp) hfresh ?_ ?_ ?_ ?_ ?_ ?_ ?_ ?_
      <;> simp only [pushBack, TaskLinks.setNext_list, htail]
    · simp [hlast]
    · simp [Function.update_of_ne htne.symm]
    · intro y hy
      obtain rfl : tail = y := by simpa [hlast] using hy
      simp
    · simp
    · intro y hy hlasty
      have : y ≠ tail := fun heq => hlasty (by rw [hlast, heq])
      simp [Function.update_of_ne hy, Function.update_of_ne this]
    · intro y hy _
      simp [Function.update_of_ne hy]
    · have hupd : (seq l ++ [t]).head? = (s.list l).head := by
        rw [hhead, List.head?_append_of_ne_nil _ hne]
      simp [hupd, head_update]
    · simp [tail_update]

/-! The pointers after `remove`, for a node that is not its own neighbour. -/

theorem remove_next (hp : s.prev t ≠ some t) (y : Tid) :
    (remove l t s).next y =
      if y = t then none else if s.prev t = some y then s.next t else s.next y := by
  unfold remove
  cases hprev : s.prev t with
  | none => cases hnext : s.next t <;> simp [hnext, Function.update_apply]
  | some p =>
    have htp : t ≠ p := fun heq => hp (by rw [hprev, heq])
    cases hnext : s.next t <;> simp [hnext, htp, Function.update_apply, @eq_comm _ p y]

theorem remove_prev (hp : s.prev t ≠ some t) (y : Tid) :
    (remove l t s).prev y =
      if y = t then none else if s.next t = some y then s.prev t else s.prev y := by
  unfold remove
  cases hnext : s.next t with
  | none =>
    cases hprev : s.prev t with
    | none => simp [hnext, Function.update_apply]
    | some p =>
      have htp : t ≠ p := fun heq => hp (by rw [hprev, heq])
      simp [hnext, htp, Function.update_apply]
  | some n =>
    cases hprev : s.prev t with
    | none => simp [hnext, hprev, Function.update_apply, @eq_comm _ n y]
    | some p =>
      have htp : t ≠ p := fun heq => hp (by rw [hprev, heq])
      simp [hnext, hprev, htp, Function.update_apply, @eq_comm _ n y]

theorem remove_list (hp : s.prev t ≠ some t) :
    (remove l t s).list = Function.update s.list l
      { head := if s.prev t = none then s.next t else (s.list l).head
        tail := if s.next t = none then s.prev t else (s.list l).tail } := by
  unfold remove
  cases hprev : s.prev t with
  | none => cases hnext : s.next t <;> simp [hprev, hnext]
  | some p =>
    have htp : t ≠ p := fun heq => hp (by rw [hprev, heq])
    cases hnext : s.next t <;> simp [hprev, hnext, htp]

theorem remove_represents (h : s.Represents seq) (hmem : t ∈ seq l) :
    (remove l t s).Represents (fun j => (seq j).erase t) := by
  obtain ⟨left, right, hsplit⟩ := List.append_of_mem hmem
  obtain ⟨hprev, hnext⟩ := h.links_of_split hsplit
  have hnodup := h.nodup l
  rw [hsplit, List.nodup_append, List.nodup_cons] at hnodup
  obtain ⟨-, ⟨hr, -⟩, hsep⟩ := hnodup
  have hl : t ∉ left := fun hx => hsep t hx t (by simp) rfl
  have hseq : (fun j => (seq j).erase t) = Function.update seq l (left ++ right) := by
    funext j
    by_cases hj : j = l
    · subst hj
      rw [Function.update_self, hsplit, List.erase_append_right _ hl, List.erase_cons_head]
    · rw [Function.update_of_ne hj]
      exact List.erase_of_not_mem fun hx => hj (h.disjoint j l t hx hmem)
  have hlast : left.getLast? ≠ some t := fun heq => hl (List.mem_of_getLast? heq)
  have hfirst : right.head? ≠ some t := fun heq => hr (List.mem_of_mem_head? (by simp [heq]))
  have hp : s.prev t ≠ some t := by rwa [hprev]
  rw [hseq]
  refine h.erase (i := l) (l := left) (r := right) hsplit ?_ ?_ ?_ ?_ ?_ ?_
  · intro y hy
    have hyt : y ≠ t := fun heq => hlast (by rw [hy, heq])
    rw [remove_next hp, if_neg hyt, hprev, if_pos hy, hnext]
  · intro y hy
    have hyt : y ≠ t := fun heq => hfirst (by rw [hy, heq])
    rw [remove_prev hp, if_neg hyt, hnext, if_pos hy, hprev]
  · intro y hyt hy
    rw [remove_next hp, if_neg hyt, hprev, if_neg hy]
  · intro y hyt hy
    rw [remove_prev hp, if_neg hyt, hnext, if_neg hy]
  · have hhead := h.head_eq l
    rw [hsplit] at hhead
    rw [remove_list hp, head_update, hprev, hnext]
    congr 1
    rcases List.eq_nil_or_concat left with rfl | ⟨left', y, rfl⟩
    · simp
    · simpa using hhead
  · have htail := h.tail_eq l
    rw [hsplit] at htail
    rw [remove_list hp, tail_update, hprev, hnext]
    congr 1
    cases right with
    | nil => simp
    | cons y right' => simpa [List.getLast?_append, List.getLast?_cons] using htail

/-- Popping the head leaves the same pointers as removing it. -/
theorem popFront_eq_remove (hhead : (s.list l).head = some t) (hprev : s.prev t = none) :
    popFront l s = (some t, remove l t s) := by
  unfold popFront remove
  cases hnt : s.next t with
  | none => simp [hhead, hnt, hprev, TaskLinks.setHead, TaskLinks.setTail]
  | some n => simp [hhead, hnt, hprev, TaskLinks.setHead]

theorem popFront_cons {xs : List Tid} (h : s.Represents seq) (hseq : seq l = t :: xs) :
    (popFront l s).1 = some t ∧ (popFront l s).2.Represents (fun j => (seq j).erase t) := by
  have hhead : (s.list l).head = some t := h.head_of_cons hseq
  obtain ⟨hprev, -⟩ := h.links_of_split (l := []) hseq
  have hmem : t ∈ seq l := by rw [hseq]; exact List.mem_cons_self
  rw [popFront_eq_remove hhead hprev]
  exact ⟨rfl, remove_represents h hmem⟩

theorem popFront_nil (h : s.Represents seq) (hseq : seq l = []) : popFront l s = (none, s) := by
  have hhead : (s.list l).head = none := h.head_of_nil hseq
  simp [popFront, hhead]

/-- The search loop of `insert_by_priority` stops at the first node of lower priority: it needs as much fuel
as the list has nodes. -/
theorem findLower_eq (priority : Tid → Nat) (p : Nat) {prev next : Tid → Option Tid} {before : Option Tid}
    {xs : List Tid} {fuel : Nat} (hseg : Seg prev next before xs none) (hfuel : xs.length ≤ fuel) :
    findLower priority p next fuel xs.head? =
      some (xs.dropWhile fun y => decide (priority y ≥ p)).head? := by
  induction xs generalizing fuel before with
  | nil => cases fuel <;> rfl
  | cons x xs ih =>
    obtain ⟨fuel, rfl⟩ : ∃ n, fuel = n + 1 := ⟨fuel - 1, by simp at hfuel; omega⟩
    obtain ⟨-, hnext, hrest⟩ := hseg
    rw [Option.or_none] at hnext
    rw [List.head?_cons, findLower]
    by_cases hx : priority x ≥ p
    · rw [if_pos hx, hnext, ih hrest (by simp at hfuel; omega), List.dropWhile_cons]
      simp [hx]
    · rw [if_neg hx, List.dropWhile_cons]
      simp [hx]

theorem insertBefore_represents {left right : List Tid} {c : Tid} (h : s.Represents seq)
    (hsplit : seq l = left ++ c :: right) (hfresh : ∀ j, t ∉ seq j) :
    ∃ s' : TaskLinks, s'.Represents (Function.update seq l (left ++ t :: c :: right)) ∧
      s' = (let s := s.setNext t (some c)
            let s := s.setPrev t (s.prev c)
            let s := match s.prev c with
              | some p => s.setNext p (some t)
              | none => s.setHead l (some t)
            s.setPrev c (some t)) := by
  obtain ⟨hprev, -⟩ := h.links_of_split hsplit
  have htc : t ≠ c := fun heq => hfresh l (by rw [hsplit, heq]; simp)
  have hleft : ∀ y ∈ left, y ≠ t := fun y hy heq => hfresh l (by rw [hsplit, ← heq]; simp [hy])
  refine ⟨_, ?_, rfl⟩
  have hhead := h.head_eq l
  have htail := h.tail_eq l
  rw [hsplit] at hhead htail
  rcases List.eq_nil_or_concat left with rfl | ⟨left', p, rfl⟩
  · have hprev' : s.prev c = none := hprev
    refine h.insert (l := []) (r := c :: right) hsplit hfresh ?_ ?_ ?_ ?_ ?_ ?_ ?_ ?_
      <;> simp only [TaskLinks.setNext_prev, TaskLinks.setPrev_prev, Function.update_of_ne htc.symm, hprev']
    · simp [htc]
    · simp
    · simp
    · simp
    · intro y hy _
      simp [Function.update_of_ne hy]
    · intro y hy hyc
      have hyc' : y ≠ c := fun heq => hyc (by simp [heq])
      simp [Function.update_of_ne hy, Function.update_of_ne hyc']
    · simp [head_update]
    · simp only [TaskLinks.setPrev_list, TaskLinks.setHead_list, TaskLinks.setNext_list, tail_update, htail]
      simp [List.getLast?_cons]
  · rw [List.concat_eq_append] at *
    have hprev' : s.prev c = some p := by simpa using hprev
    have hpt : p ≠ t := hleft p (by simp)
    refine h.insert (l := left' ++ [p]) (r := c :: right) hsplit hfresh ?_ ?_ ?_ ?_ ?_ ?_ ?_ ?_
      <;> simp only [TaskLinks.setNext_prev, TaskLinks.setPrev_prev, Function.update_of_ne htc.symm, hprev']
    · simp [htc]
    · simp [hpt.symm]
    · intro y hy
      obtain rfl : p = y := by simpa using hy
      simp
    · simp
    · intro y hy hyp
      have hyp' : y ≠ p := fun heq => hyp (by simp [heq])
      simp [Function.update_of_ne hy, Function.update_of_ne hyp']
    · intro y hy hyc
      have hyc' : y ≠ c := fun heq => hyc (by simp [heq])
      simp [Function.update_of_ne hy, Function.update_of_ne hyc']
    · have : (left' ++ [p] ++ t :: c :: right).head? = (s.list l).head := by
        rw [hhead, List.append_assoc, List.append_assoc]
        cases left' <;> simp
      rw [this]
      simp
    · have : (left' ++ [p] ++ t :: c :: right).getLast? = (s.list l).tail := by
        rw [htail]
        simp [List.getLast?_append, List.getLast?_cons]
      rw [this]
      simp

theorem insertByPriority_represents (priority : Tid → Nat) {fuel : Nat} (h : s.Represents seq)
    (hfresh : ∀ j, t ∉ seq j) (hfuel : (seq l).length ≤ fuel) :
    ∃ s', insertByPriority priority fuel l t s = some s' ∧
      s'.Represents (Function.update seq l
        (insertWhile (fun y => decide (priority y ≥ priority t)) t (seq l))) := by
  have hfind := findLower_eq priority (priority t) (h.seg l) hfuel
  have hhead := h.head_eq l
  have hcat : seq l = (seq l).takeWhile (fun y => decide (priority y ≥ priority t)) ++
      (seq l).dropWhile (fun y => decide (priority y ≥ priority t)) :=
    List.takeWhile_append_dropWhile.symm
  unfold insertByPriority
  by_cases hnil : (s.list l).head = none
  · have hseq : seq l = [] := List.head?_eq_none_iff.mp (by rw [← hhead, hnil])
    rw [if_pos hnil]
    refine ⟨_, rfl, ?_⟩
    have hpush := pushBack_represents h hfresh (l := l)
    rw [hseq] at hpush ⊢
    exact hpush
  · rw [if_neg hnil, hhead, hfind]
    cases hdrop : (seq l).dropWhile (fun y => decide (priority y ≥ priority t)) with
    | nil =>
      refine ⟨_, rfl, ?_⟩
      have hpush := pushBack_represents h hfresh (l := l)
      rw [hdrop, List.append_nil] at hcat
      rw [insertWhile, hdrop, ← hcat]
      exact hpush
    | cons c right =>
      rw [hdrop] at hcat
      obtain ⟨s', hs', rfl⟩ := insertBefore_represents h hcat hfresh
      refine ⟨_, rfl, ?_⟩
      rw [insertWhile, hdrop]
      exact hs'

end TaskList

end AcRtos
