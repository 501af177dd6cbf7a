import AcRtos.Effects

/-!
# Owners and held mutexes

`Abs.Owned`: a task holds exactly the mutexes it owns, each once, and a mutex with waiters has an owner. Only
taking, releasing and passing a mutex changes who holds what; only parking makes a wait list grow.
-/

namespace AcRtos

namespace Abs

structure Owned (a : Abs) : Prop where
  held_iff : ∀ m t, m ∈ a.heldBy t ↔ a.owner m = some t
  nodup : ∀ t, (a.heldBy t).Nodup
  owner_lt : ∀ m t, a.owner m = some t → t < a.taskCount ∧ m < a.config.mutexes
  waited : ∀ m t, (a.tcb t).waitList = some (.mutex m) → a.owner m ≠ none

variable {a : Abs} {t : Tid} {m : MutexId}

theorem Owned.length_le (h : a.Owned) (t : Tid) : (a.heldBy t).length ≤ a.config.mutexes := by
  have hsub : a.heldBy t ⊆ List.range a.config.mutexes := fun m hm =>
    List.mem_range.mpr (h.owner_lt m t ((h.held_iff m t).mp hm)).2
  have hle := (List.subperm_of_subset (h.nodup t) hsub).length_le
  rwa [List.length_range] at hle

/-- The mutex `m` goes to `new`: it leaves the held list it is in and heads the one of `new`. -/
theorem Owned.rehold (h : a.Owned) {b : Abs} (new : Option Tid)
    (howner : b.owner = Function.update a.owner m new)
    (hheld : ∀ t, b.heldBy t = if new = some t then m :: (a.heldBy t).erase m else (a.heldBy t).erase m)
    (hnew : ∀ t, new = some t → t < a.taskCount ∧ m < a.config.mutexes)
    (hcount : a.taskCount ≤ b.taskCount) (hconfig : b.config = a.config)
    (hwait : ∀ x t, (b.tcb t).waitList = some (.mutex x) → b.owner x ≠ none) : b.Owned where
  held_iff x t := by
    have hmem : x ∈ (a.heldBy t).erase m ↔ x ≠ m ∧ x ∈ a.heldBy t := (h.nodup t).mem_erase_iff
    rw [hheld, howner]
    by_cases hx : x = m
    · subst hx
      rw [Function.update_self]
      split
      · rename_i hnew'
        simp [hnew']
      · rename_i hnew'
        simp [hmem, hnew']
    · rw [Function.update_of_ne hx, ← h.held_iff]
      split <;> simp [hmem, hx]
  nodup t := by
    have hnot : m ∉ (a.heldBy t).erase m := fun hm => ((h.nodup t).mem_erase_iff.mp hm).1 rfl
    rw [hheld]
    split
    · exact List.nodup_cons.mpr ⟨hnot, (h.nodup t).erase m⟩
    · exact (h.nodup t).erase m
  owner_lt x t hxt := by
    rw [hconfig]
    rw [howner] at hxt
    by_cases hx : x = m
    · subst hx
      rw [Function.update_self] at hxt
      exact ⟨lt_of_lt_of_le (hnew t hxt).1 hcount, (hnew t hxt).2⟩
    · rw [Function.update_of_ne hx] at hxt
      exact ⟨lt_of_lt_of_le (h.owner_lt x t hxt).1 hcount, (h.owner_lt x t hxt).2⟩
  waited := hwait

theorem Owned.erase_of_ne (h : a.Owned) {o : Tid} (ho : a.owner m = some o) (ht : t ≠ o) :
    (a.heldBy t).erase m = a.heldBy t :=
  List.erase_of_not_mem fun hm => by
    rw [h.held_iff, ho] at hm
    exact ht (Option.some.inj hm).symm

theorem Owned.apply (h : a.Owned) (hwf : a.WF) {act : Action} (he : act.Enabled a) :
    (act.apply a).Owned := by
  have hcount := taskCount_le_apply he
  have hconfig := apply_config he
  have hwait : ∀ x t, ((act.apply a).tcb t).waitList = some (.mutex x) → a.owner x ≠ none := by
    intro x t hw
    rcases waitList_apply hwf he hw with hw | ⟨W, timeout, rfl, hW⟩
    · exact h.waited x t hw
    · cases W with
      | lock m' =>
        cases hW
        obtain ⟨o, ho, -⟩ := he.2.2.2
        rw [ho]
        exact Option.some_ne_none o
      | _ => cases hW
  -- an owner other than the mutex's new one is the old one
  have hwait' : ∀ m new, act.owner a = Function.update a.owner m new →
      (new = none → ∀ t, ((act.apply a).tcb t).waitList ≠ some (.mutex m)) →
      ∀ x t, ((act.apply a).tcb t).waitList = some (.mutex x) → (act.apply a).owner x ≠ none := by
    intro m new ho hnone x t hw
    rw [apply_owner he, ho]
    by_cases hx : x = m
    · subst hx
      rw [Function.update_self]
      exact fun hn => hnone hn t hw
    · rw [Function.update_of_ne hx]
      exact hwait x t hw
  have hother : act.owner a = a.owner → act.heldBy a = a.heldBy → (act.apply a).Owned := by
    intro ho hh
    refine ⟨fun x t => ?_, fun t => ?_, fun x t hxt => ?_, fun x t hw => ?_⟩
    · rw [apply_heldBy, apply_owner he, hh, ho]
      exact h.held_iff x t
    · rw [apply_heldBy, hh]
      exact h.nodup t
    · rw [apply_owner he, ho] at hxt
      rw [hconfig]
      exact ⟨lt_of_lt_of_le (h.owner_lt x t hxt).1 hcount, (h.owner_lt x t hxt).2⟩
    · rw [apply_owner he, ho]
      exact hwait x t hw
  cases act with
  | acquire m t =>
    obtain ⟨hfree, hrun, hm⟩ := he
    refine h.rehold (m := m) (some t) rfl (fun u => ?_) ?_ hcount hconfig (hwait' m _ rfl ?_)
    · have herase : (a.heldBy u).erase m = a.heldBy u := List.erase_of_not_mem fun hmem => by
        rw [h.held_iff, hfree] at hmem
        cases hmem
      rw [apply_heldBy, herase]
      by_cases hu : u = t
      · subst hu; simp [Action.heldBy]
      · simp [Action.heldBy, hu, Ne.symm hu]
    · rintro u ⟨⟩
      exact ⟨hwf.lt_of_state (by simp [hrun]), hm⟩
    · intro hn
      cases hn
  | release m t =>
    obtain ⟨ho, hrun, hnil⟩ := id he
    refine h.rehold (m := m) none (apply_owner he) (fun u => ?_) (by simp) hcount hconfig
      (hwait' m none rfl fun _ u hw => ?_)
    · rw [apply_heldBy]
      by_cases hu : u = t
      · subst hu; simp [Action.heldBy]
      · simp [Action.heldBy, Function.update_of_ne hu, h.erase_of_ne ho hu]
    · rcases waitList_apply hwf he hw with hw | ⟨W, timeout, heq, -⟩
      · have hmem := hwf.mem_wait.mpr ⟨(hwf.ok u).waits (by simp [hw]), hw⟩
        rw [hnil] at hmem
        cases hmem
      · cases heq
  | pass m t next =>
    obtain ⟨ho, hrun, hhead⟩ := id he
    have hmem := List.mem_of_mem_head? hhead
    have hne : next ≠ t := by
      rintro rfl
      rw [(hwf.mem_wait.mp hmem).1] at hrun
      cases hrun
    refine h.rehold (m := m) (some next) (apply_owner he) (fun u => ?_) ?_ hcount hconfig
      (hwait' m _ rfl ?_)
    · rw [apply_heldBy]
      by_cases hu : u = next
      · subst hu
        simp [Action.heldBy, Function.update_of_ne hne, h.erase_of_ne ho hne]
      · by_cases hut : u = t
        · subst hut
          simp [Action.heldBy, Function.update_of_ne hu, Ne.symm hu]
        · simp [Action.heldBy, Function.update_of_ne hu, Function.update_of_ne hut, Ne.symm hu,
            h.erase_of_ne ho hut]
    · rintro u ⟨⟩
      exact ⟨hwf.lt_of_mem hmem, (h.owner_lt m t ho).2⟩
    · intro hn
      cases hn
  | _ => exact hother rfl rfl

end Abs

theorem Runs.keeps_owned {P : Abs → Prop} {v : Visit} {a a' : Abs} {acts : List Action} (h : Runs v a acts a')
    (hwf : a.WF) (howned : a.Owned) (hp : P a)
    (hstep :
      ∀ (act : Action) (b : Abs), b.WF → b.Owned → P b → act.Enabled b → act.Fits v b → P (act.apply b)) :
    P a' := by
  have hall : a'.Owned ∧ P a' := by
    refine h.keeps (P := fun b => b.Owned ∧ P b) hwf ⟨howned, hp⟩ ?_
    rintro act b hwf ⟨howned, hp⟩ he hf
    exact ⟨howned.apply hwf he, hstep act b hwf howned hp he hf⟩
  exact hall.2

end AcRtos
