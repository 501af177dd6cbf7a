import AcRtos.Steps

/-!
# Every task is where its control block says

`Kernel.members l` walks the list at the address `l` along the `next` pointers, as many steps as there can
be tasks; `Kernel.sleeping` walks the delay list. `Kernel.Membership` is the invariant of the lists on the
pointers: the walks meet every node of the list, and a task is met as often as its control block says.
-/

namespace AcRtos

open Lib Abs

namespace Kernel

/-- The tasks in the list at `l`, from its head. -/
def members (k : Kernel) (l : ListId) : List Tid := walk k.links.next k.config.kMaxTasks (k.links.list l).head

/-- The tasks in the delay list, from its head. -/
def sleeping (k : Kernel) : List Tid := walk k.delay.delayNext k.config.kMaxTasks k.delay.head

/-- The membership invariant of the lists. -/
structure Membership (k : Kernel) : Prop where
  /-- Heads, tails and both link directions agree; no task is in two lists or twice in one. -/
  linked : k.links.Represents k.members
  delayLinked : Linked k.delay.delayPrev k.delay.delayNext (fun _ : Unit => k.delay.head)
    (fun _ => k.sleeping.getLast?) fun _ => k.sleeping
  ready : ∀ t < k.taskCount, ∀ p, (k.members (.ready p)).count t =
    if (k.tcb t).state = .ready ∧ (k.tcb t).priority = p then 1 else 0
  waiting : ∀ t < k.taskCount, ∀ w, (k.members (.wait w)).count t =
    if (k.tcb t).waitList = some w then 1 else 0
  waiting_blocked : ∀ t < k.taskCount, (k.tcb t).waitList ≠ none → (k.tcb t).state = .blocked
  delayed : ∀ t < k.taskCount, k.sleeping.count t = if k.delay.inDelayList t then 1 else 0
  delayed_blocked : ∀ t < k.taskCount, k.delay.inDelayList t = true → (k.tcb t).state = .blocked
  blocked : ∀ t < k.taskCount, (k.tcb t).state = .blocked →
    (k.tcb t).waitList ≠ none ∨ k.delay.inDelayList t = true
  running : ∀ t < k.taskCount, (k.tcb t).state = .running → k.currentTask = some t
  unlinked : ∀ t < k.taskCount, (k.tcb t).state = .running ∨ (k.tcb t).state = .suspended ∨
    (k.tcb t).state = .deleted → (∀ l, t ∉ k.members l) ∧ t ∉ k.sleeping
  mask : ∀ p < kMaxPriorities, k.readyBitmask.getLsbD p = true ↔ k.members (.ready p) ≠ []
  /-- `TaskList::remove` on the list a control block names takes out that task and nothing else. -/
  remove : ∀ t < k.taskCount, ∀ l, placeOf (k.tcb t) = some l →
    (TaskList.remove l t k.links).Represents fun j => (k.members j).erase t

end Kernel

theorem count_of_mem_iff {xs : List Tid} {t : Tid} (hnodup : xs.Nodup) {q : Prop} [Decidable q]
    (h : t ∈ xs ↔ q) : xs.count t = if q then 1 else 0 := by
  by_cases hq : q
  · rw [if_pos hq, List.count_eq_one_of_mem hnodup (h.mpr hq)]
  · rw [if_neg hq, List.count_eq_zero_of_not_mem (fun hm => hq (h.mp hm))]

namespace Rep

variable {k : Kernel} {a : Abs}

theorem members_eq (h : Rep k a) (hwf : a.WF) : k.members = a.seq := by
  funext l
  have hhead : (k.links.list l).head = (a.seq l).head? := h.links.head_eq l
  rw [Kernel.members, hhead]
  refine (h.links.seg l).walk_eq ?_
  rw [h.core_eq]
  exact hwf.length_seq_le l

theorem sleeping_eq (h : Rep k a) (hwf : a.WF) : k.sleeping = a.sleepers.map Prod.fst := by
  have hhead : k.delay.head = (a.sleepers.map Prod.fst).head? := h.delay.linked.head_eq ()
  rw [Kernel.sleeping, hhead]
  refine (h.delay.linked.seg ()).walk_eq ?_
  rw [h.core_eq, List.length_map]
  exact hwf.length_sleepers_le

theorem lists_agree (h : Rep k a) (hwf : a.WF) : k.Membership := by
  have hmembers := h.members_eq hwf
  have hsleeping := h.sleeping_eq hwf
  have hin : ∀ t, k.delay.inDelayList t = true ↔ a.Sleeps t := h.delay.mem_iff
  refine ⟨?_, ?_, ?_, ?_, ?_, ?_, ?_, ?_, ?_, ?_, ?_, ?_⟩
  · rw [hmembers]
    exact h.links
  · rw [hsleeping]
    exact h.delay.linked
  · intro t ht p
    rw [h.core_eq] at ht ⊢
    refine count_of_mem_iff (by rw [hmembers]; exact hwf.nodup _) ?_
    rw [hmembers, hwf.mem_ready]
    simp [ht]
  · intro t ht w
    rw [h.core_eq]
    refine count_of_mem_iff (by rw [hmembers]; exact hwf.nodup _) ?_
    rw [hmembers, hwf.mem_wait]
    exact ⟨And.right, fun hw => ⟨(hwf.ok t).waits (by simp [hw]), hw⟩⟩
  · intro t _
    rw [h.core_eq]
    exact (hwf.ok t).waits
  · intro t _
    refine count_of_mem_iff (by rw [hsleeping]; exact hwf.sleepers_nodup) ?_
    rw [hsleeping]
    exact (hin t).symm
  · intro t _ hd
    rw [h.core_eq]
    exact hwf.state_of_sleeps ((hin t).mp hd)
  · intro t _
    rw [h.core_eq, hin]
    exact (hwf.ok t).blocked
  · intro t _
    rw [h.core_eq]
    exact (hwf.ok t).running
  · intro t _ hs
    rw [h.core_eq] at hs
    have hb : (a.tcb t).state ≠ .blocked := by rcases hs with hs | hs | hs <;> simp [hs]
    rw [hmembers, hsleeping]
    refine ⟨fun l hm => ?_, hwf.not_sleeps hb⟩
    cases l with
    | ready p =>
      have hr := (hwf.mem_ready.mp hm).2.1
      rcases hs with hs | hs | hs <;> rw [hs] at hr <;> cases hr
    | wait w => exact hb (hwf.mem_wait.mp hm).1
  · intro p hp
    rw [hmembers]
    exact h.mask p hp
  · intro t ht l hl
    rw [h.core_eq] at ht hl
    rw [hmembers]
    refine TaskList.remove_represents h.links ?_
    exact ((hwf.ok t).mem_seq l).mpr (by rw [place, if_pos ht, hl])

end Rep

/-- In every reachable state every task is in exactly the lists its control block names. -/
theorem membership {config : Config} {s : Sys} (h : Reachable config s) : s.k.Membership := by
  obtain ⟨a, htracks⟩ := h.tracks
  exact htracks.inv.rep.lists_agree htracks.inv.wf

/-- A run in which the running task blocks in a delay. -/
theorem membership_sleep : ∃ s, Sys.run (Sys.init .small) Sys.sleepRun = some s ∧
    (s.k.tcb 0).state = .blocked ∧ s.k.sleeping = [0] ∧ s.k.Membership := by
  have hrun : ((Sys.run (Sys.init .small) Sys.sleepRun).map fun s => ((s.k.tcb 0).state, s.k.sleeping)) =
      some (.blocked, [0]) := by decide +kernel
  obtain ⟨s, hs, hstate⟩ := Option.map_eq_some_iff.mp hrun
  rw [Prod.mk.injEq] at hstate
  exact ⟨s, hs, hstate.1, hstate.2, membership (Reachable.run .init hs)⟩

end AcRtos
