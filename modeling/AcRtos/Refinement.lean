import AcRtos.Membership
import AcRtos.TaskListSpec
import AcRtos.DelayListSpec
import AcRtos.HeldListSpec

/-!
# The pointer kernel represents the abstract kernel

`Rep k a`: the links of `k` hold the sequences of `a`, the ready bitmask marks the non-empty ready lists, and
all other data agrees. Each list operation of the scheduler is one change of the abstract sequences
(`Abs.leave`, `Abs.enter`, `Abs.setSleepers`), provided that the task is where the invariant says.
-/

namespace AcRtos

open Lib

/-! ### The ready bitmask -/

namespace ReadyMask

variable {m : BitVec 32} {p q : Nat}

theorem set_getLsbD (hq : q < 32) : (m ||| (1#32 <<< p)).getLsbD q = (m.getLsbD q || decide (q = p)) := by
  simp only [BitVec.getLsbD_or, BitVec.getLsbD_shiftLeft, BitVec.getLsbD_one, hq, decide_true]
  congr 1
  by_cases heq : q = p
  · subst heq; simp
  · by_cases hlt : q < p
    · simp [hlt, heq]
    · simp [hlt, heq]
      omega

theorem clear_getLsbD (hq : q < 32) :
    (m &&& ~~~(1#32 <<< p)).getLsbD q = (m.getLsbD q && !decide (q = p)) := by
  simp only [BitVec.getLsbD_and, BitVec.getLsbD_not, BitVec.getLsbD_shiftLeft, BitVec.getLsbD_one, hq,
    decide_true]
  by_cases heq : q = p
  · subst heq; simp
  · by_cases hlt : q < p
    · simp [hlt, heq]
    · have : ¬ q - p = 0 := by omega
      simp [hlt, heq, this]

theorem topPriority_spec (hm : m ≠ 0) :
    m.getLsbD (ReadyManager.topPriority m) = true ∧ ReadyManager.topPriority m < 32 ∧
      ∀ q, ReadyManager.topPriority m < q → m.getLsbD q = false := by
  have htop : m.getLsbD (32 - 1 - m.clz.toNat) = true :=
    BitVec.getLsbD_true_clz_of_ne_zero (by omega) hm
  have hlt : m.toNat < 2 ^ (32 - m.clz.toNat) := BitVec.toNat_lt_two_pow_sub_clz
  refine ⟨htop, ?_, fun q hq => ?_⟩
  · unfold ReadyManager.topPriority
    omega
  · unfold ReadyManager.topPriority at hq
    have hle : m.toNat < 2 ^ q := lt_of_lt_of_le hlt (Nat.pow_le_pow_right (by omega) (by omega))
    rw [BitVec.getLsbD, Nat.testBit_lt_two_pow hle]

theorem eq_zero_iff : m = 0 ↔ ∀ p, p < 32 → m.getLsbD p = false := by
  constructor
  · rintro rfl p _
    simp
  · intro h
    exact BitVec.eq_of_getLsbD_eq fun i hi => by rw [h i hi]; simp

end ReadyMask

/-! ### Changes of the sequences -/

namespace Abs

def leave (t : Tid) (a : Abs) : Abs := { a with seq := fun l => (a.seq l).erase t }

def enter (l : ListId) (ins : List Tid → List Tid) (a : Abs) : Abs :=
  { a with seq := Function.update a.seq l (ins (a.seq l)) }

def setSleepers (sl : List (Tid × Nat)) (a : Abs) : Abs := { a with sleepers := sl }

variable {a : Abs} {t : Tid}

theorem not_mem_leave (h : ∀ l, (a.seq l).Nodup) (l : ListId) : t ∉ (a.leave t).seq l :=
  fun hm => ((h l).mem_erase_iff.mp hm).1 rfl

theorem length_leave_le (l : ListId) : ((a.leave t).seq l).length ≤ (a.seq l).length :=
  (List.erase_sublist).length_le

theorem WF.length_seq_le (h : a.WF) (l : ListId) : (a.seq l).length ≤ a.config.kMaxTasks := by
  have hsub : a.seq l ⊆ List.range a.taskCount := fun t ht => List.mem_range.mpr (h.lt_of_mem ht)
  have hle := (List.subperm_of_subset (h.nodup l) hsub).length_le
  rw [List.length_range] at hle
  exact hle.trans h.count_le

theorem WF.ready_high (h : a.WF) (p : Nat) (hp : kMaxPriorities ≤ p) : a.seq (.ready p) = [] := by
  by_contra hne
  obtain ⟨t, ht⟩ := List.exists_mem_of_ne_nil _ hne
  have hprio := (h.mem_ready.mp ht).2.2
  have hlt := (h.ok t).priority_lt
  omega

theorem WF.length_sleepers_le (h : a.WF) : a.sleepers.length ≤ a.config.kMaxTasks := by
  have hsub : a.sleepers.map Prod.fst ⊆ List.range a.taskCount :=
    fun t ht => List.mem_range.mpr (h.lt_of_sleeps ht)
  have hle := (List.subperm_of_subset h.sleepers_nodup hsub).length_le
  rw [List.length_range, List.length_map] at hle
  exact hle.trans h.count_le

end Abs

/-! ### Representation -/

structure Rep (k : Kernel) (a : Abs) : Prop where
  core_eq : k.toCore = a.toCore
  links : k.links.Represents a.seq
  mask : ∀ p, p < kMaxPriorities → (k.readyBitmask.getLsbD p = true ↔ a.seq (.ready p) ≠ [])
  delay : k.delay.Represents a.sleepers
  held : k.held.Represents a.heldBy

namespace Rep

variable {k : Kernel} {a : Abs} {t : Tid} {w : WaitId}

theorem check_true (k : Kernel) (x : Assertion) : k.check x true = k := by
  simp [Core.check, Kernel.core]

theorem core (h : Rep k a) (f : Core → Core) : Rep (k.core f) (a.core f) :=
  ⟨congrArg f h.core_eq, h.links, h.mask, h.delay, h.held⟩

theorem leave_of_ne (h : Rep k a) {l j : ListId} (ht : t ∈ a.seq l) (hj : j ≠ l) :
    (a.leave t).seq j = a.seq j :=
  List.erase_of_not_mem fun hm => hj (h.links.disjoint j l t hm ht)

theorem leave_wait (h : Rep k a) {s : TaskLinks} (ht : t ∈ a.seq (.wait w))
    (hs : s.Represents (a.leave t).seq) : Rep (k.setLinks s) (a.leave t) := by
  refine ⟨h.core_eq, hs, fun p hp => ?_, h.delay, h.held⟩
  rw [h.leave_of_ne ht (by simp)]
  exact h.mask p hp

theorem remove_wait (h : Rep k a) (ht : t ∈ a.seq (.wait w)) :
    Rep (k.setLinks (TaskList.remove (.wait w) t k.links)) (a.leave t) :=
  h.leave_wait ht (TaskList.remove_represents h.links ht)

theorem popFront_wait (h : Rep k a) {xs : List Tid} (hw : a.seq (.wait w) = t :: xs) :
    (TaskList.popFront (.wait w) k.links).1 = some t ∧
      Rep (k.setLinks (TaskList.popFront (.wait w) k.links).2) (a.leave t) := by
  obtain ⟨hfst, hsnd⟩ := TaskList.popFront_cons h.links hw
  exact ⟨hfst, h.leave_wait (by rw [hw]; exact List.mem_cons_self) hsnd⟩

/-- A task leaves a ready list: the bit of an emptied list is dropped. -/
theorem leave_ready (h : Rep k a) {p : Nat} {s : TaskLinks} (ht : t ∈ a.seq (.ready p))
    (hs : s.Represents (a.leave t).seq) : Rep (ReadyManager.dropEmptyBit p (k.setLinks s)) (a.leave t) := by
  have hother : ∀ q, q ≠ p → (a.leave t).seq (.ready q) = a.seq (.ready q) := fun q hq =>
    h.leave_of_ne ht (by simpa using hq)
  have hhead : (s.list (.ready p)).head = ((a.leave t).seq (.ready p)).head? := hs.head_eq _
  have hwas : a.seq (.ready p) ≠ [] := List.ne_nil_of_mem ht
  unfold ReadyManager.dropEmptyBit
  by_cases hnil : (s.list (.ready p)).head = none
  · have hempty : (a.leave t).seq (.ready p) = [] :=
      List.head?_eq_none_iff.mp (by rw [← hhead, hnil])
    rw [if_pos (by exact hnil)]
    refine ⟨h.core_eq, hs, fun q hq => ?_, h.delay, h.held⟩
    show (k.readyBitmask &&& ~~~(1#32 <<< p)).getLsbD q = true ↔ _
    rw [ReadyMask.clear_getLsbD hq]
    by_cases hqp : q = p
    · subst hqp; simp [hempty]
    · rw [hother q hqp]
      simpa [hqp] using h.mask q hq
  · have hne : (a.leave t).seq (.ready p) ≠ [] := fun he => hnil (by rw [hhead, he]; rfl)
    rw [if_neg (by exact hnil)]
    refine ⟨h.core_eq, hs, fun q hq => ?_, h.delay, h.held⟩
    show k.readyBitmask.getLsbD q = true ↔ _
    rw [h.mask q hq]
    by_cases hqp : q = p
    · subst hqp; simp [hne, hwas]
    · rw [hother q hqp]

theorem remove_ready (h : Rep k a) (ht : t ∈ a.seq (.ready (a.tcb t).priority)) :
    Rep (ReadyManager.remove t k) (a.leave t) := by
  unfold ReadyManager.remove
  rw [h.core_eq]
  exact h.leave_ready ht (TaskList.remove_represents h.links ht)

theorem add (h : Rep k a) (hfresh : ∀ l, t ∉ a.seq l) (hp : (a.tcb t).priority < kMaxPriorities) :
    Rep (ReadyManager.add t k) (a.enter (.ready (a.tcb t).priority) (· ++ [t])) := by
  have hcheck : k.check .addPriorityRange (decide ((k.tcb t).priority < kMaxPriorities)) = k := by
    rw [h.core_eq, decide_eq_true hp, check_true]
  simp only [ReadyManager.add, hcheck]
  rw [h.core_eq]
  refine ⟨h.core_eq, TaskList.pushBack_represents h.links hfresh, fun q hq => ?_, h.delay, h.held⟩
  show (k.readyBitmask ||| (1#32 <<< (a.tcb t).priority)).getLsbD q = true ↔ _
  rw [ReadyMask.set_getLsbD hq]
  by_cases hqp : q = (a.tcb t).priority
  · subst hqp
    simp [Abs.enter]
  · have hne : ListId.ready q ≠ .ready (a.tcb t).priority := by simpa using hqp
    simp only [Abs.enter, Function.update_of_ne hne]
    simpa [hqp] using h.mask q hq

theorem insertWaiter (h : Rep k a) (hfresh : ∀ l, t ∉ a.seq l)
    (hlen : (a.seq (.wait w)).length ≤ a.config.kMaxTasks) :
    Rep (Scheduler.insertWaiter w t k) (a.enter (.wait w) (a.byPriority (a.tcb t).priority t)) := by
  obtain ⟨s', hs', hrep⟩ := TaskList.insertByPriority_represents (fun u => (a.tcb u).priority) h.links hfresh
    hlen
  unfold Scheduler.insertWaiter
  rw [h.core_eq, hs']
  refine ⟨h.core_eq, hrep, fun q hq => ?_, h.delay, h.held⟩
  have hne : ListId.ready q ≠ .wait w := by simp
  simp only [Abs.enter, Function.update_of_ne hne]
  exact h.mask q hq

theorem delayInsert (h : Rep k a) (ticks : TickType) (ht : ¬ a.Sleeps t)
    (hlen : a.sleepers.length ≤ a.config.kMaxTasks) :
    Rep (Scheduler.delayInsert t ticks k) (a.setSleepers (Countdown.schedule t ticks.toNat a.sleepers)) := by
  have hout : k.delay.inDelayList t = false := by
    rw [Bool.eq_false_iff]
    exact fun hin => ht ((h.delay.mem_iff t).mp hin)
  have hcheck : k.check .alreadyDelayed (!k.delay.inDelayList t) = k := by
    rw [hout, Bool.not_false, check_true]
  obtain ⟨d, hd, hrep⟩ := DelayList.insert_represents ticks h.delay ht hlen
  simp only [Scheduler.delayInsert, hcheck]
  rw [h.core_eq, hd]
  exact ⟨h.core_eq, h.links, h.mask, hrep, h.held⟩

theorem delayRemove (h : Rep k a) :
    Rep (k.setDelay (DelayList.remove t k.delay)) (a.setSleepers (Countdown.cancel t a.sleepers)) :=
  ⟨h.core_eq, h.links, h.mask, DelayList.remove_represents h.delay, h.held⟩

theorem cancelTimeout (h : Rep k a) :
    Rep (Scheduler.cancelTimeout t k) (a.setSleepers (Countdown.cancel t a.sleepers)) := h.delayRemove

theorem mask_zero (h : Rep k a) (hhigh : ∀ p, kMaxPriorities ≤ p → a.seq (.ready p) = []) :
    k.readyBitmask = 0 ↔ ∀ p, a.seq (.ready p) = [] := by
  rw [ReadyMask.eq_zero_iff]
  constructor
  · intro hz p
    by_cases hp : p < kMaxPriorities
    · by_contra hne
      have := (h.mask p hp).mpr hne
      rw [hz p hp] at this
      cases this
    · exact hhigh p (Nat.not_lt.mp hp)
  · intro hz p hp
    rw [Bool.eq_false_iff]
    exact fun hbit => (h.mask p hp).mp hbit (hz p)

theorem topPriority (h : Rep k a) (hhigh : ∀ p, kMaxPriorities ≤ p → a.seq (.ready p) = [])
    (hm : k.readyBitmask ≠ 0) : a.Top (ReadyManager.topPriority k.readyBitmask) := by
  obtain ⟨hbit, hlt, habove⟩ := ReadyMask.topPriority_spec hm
  refine ⟨(h.mask _ hlt).mp hbit, fun q hq => ?_⟩
  by_cases hq32 : q < kMaxPriorities
  · by_contra hne
    have := (h.mask q hq32).mpr hne
    rw [habove q hq] at this
    cases this
  · exact hhigh q (Nat.not_lt.mp hq32)

theorem getHighest (h : Rep k a) (hhigh : ∀ p, kMaxPriorities ≤ p → a.seq (.ready p) = [])
    (hne : ∃ p, a.seq (.ready p) ≠ []) :
    ∃ t p, a.Top p ∧ (a.seq (.ready p)).head? = some t ∧
      (ReadyManager.getHighestPriorityTask k).1 = some t ∧
      Rep (ReadyManager.getHighestPriorityTask k).2 (a.leave t) := by
  have hm : k.readyBitmask ≠ 0 := fun hz => by
    obtain ⟨p, hp⟩ := hne
    exact hp ((h.mask_zero hhigh).mp hz p)
  have htop := h.topPriority hhigh hm
  obtain ⟨t, xs, hseq⟩ := List.exists_cons_of_ne_nil htop.1
  obtain ⟨hfst, hsnd⟩ := TaskList.popFront_cons h.links hseq
  refine ⟨t, _, htop, by rw [hseq]; rfl, ?_, ?_⟩ <;>
    simp only [ReadyManager.getHighestPriorityTask, if_neg hm]
  · exact hfst
  · exact h.leave_ready (by rw [hseq]; exact List.mem_cons_self) hsnd

theorem getHighest_none (h : Rep k a) (hhigh : ∀ p, kMaxPriorities ≤ p → a.seq (.ready p) = [])
    (hz : ∀ p, a.seq (.ready p) = []) : ReadyManager.getHighestPriorityTask k = (none, k) := by
  rw [ReadyManager.getHighestPriorityTask, if_pos ((h.mask_zero hhigh).mpr hz)]

end Rep

end AcRtos
