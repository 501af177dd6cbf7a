import AcRtos.Refinement

/-!
# The critical sections of the scheduler

Each critical section of `Scheduler` and `ReadyManager`, run on a kernel that represents `a`, ends in one
that represents the state after the section's actions.
-/

namespace AcRtos

open Lib Abs

namespace Core

variable {e : Core} {t u : Tid} {f g : TaskControlBlock → TaskControlBlock}

@[simp] theorem setTask_setTask : (e.setTask t f).setTask t g = e.setTask t fun c => g (f c) := by
  simp [setTask]

theorem setTask_congr (h : f (e.tcb t) = g (e.tcb t)) : e.setTask t f = e.setTask t g := by
  rw [setTask, setTask, h]

end Core

namespace Abs

variable {a : Abs} {t : Tid} {f : TaskControlBlock → TaskControlBlock}

theorem erase_of_fresh (h : ∀ l, t ∉ a.seq l) : (fun l => (a.seq l).erase t) = a.seq :=
  funext fun l => List.erase_of_not_mem (h l)

theorem WF.fresh (h : a.WF) (ht : a.place t = none) (l : ListId) : t ∉ a.seq l := by
  rw [(h.ok t).mem_seq, ht]
  simp

theorem WF.fresh_of_state (h : a.WF) (hr : (a.tcb t).state ≠ .ready) (hb : (a.tcb t).state ≠ .blocked)
    (l : ListId) : t ∉ a.seq l := by
  refine h.fresh ?_ l
  rw [place, if_pos (h.lt_of_state hr), placeOf]
  cases hs : (a.tcb t).state with
  | ready => exact absurd hs hr
  | blocked => exact absurd hs hb
  | _ => rfl

theorem byPriority_congr {b : Abs} {p : Nat} {xs : List Tid}
    (h : ∀ u ∈ xs, (a.tcb u).priority = (b.tcb u).priority) : a.byPriority p t xs = b.byPriority p t xs :=
  insertWhile_congr fun u hu => by rw [h u hu]

theorem cancel_of_not_sleeps (h : ¬ a.Sleeps t) : Countdown.cancel t a.sleepers = a.sleepers :=
  Countdown.cancel_of_not_mem h

/-- The task has left its list and its countdown, and nothing else. -/
def detach (t : Tid) (a : Abs) : Abs :=
  ((a.leave t).core (·.setTask t fun c => { c with waitList := none })).setSleepers
    (Countdown.cancel t a.sleepers)

/-- A task that is in no list enters its ready list. -/
def attach (t : Tid) (a : Abs) : Abs :=
  (a.core (·.setTask t fun c => { c with state := .ready, waitList := none })).enter
    (.ready (a.tcb t).priority) (· ++ [t])

end Abs

namespace Rep

variable {k : Kernel} {a : Abs} {t : Tid} {w : WaitId}

theorem wakeHighest (h : Rep k a) {xs : List Tid} (hw : a.seq (.wait w) = t :: xs) :
    (WaitQueue.wakeHighest w k).1 = some t ∧ Rep (WaitQueue.wakeHighest w k).2 (a.detach t) := by
  obtain ⟨hfst, hrep⟩ := h.popFront_wait hw
  simp only [WaitQueue.wakeHighest, hfst, true_and]
  exact (hrep.core _).cancelTimeout

theorem wakeHighest_nil (h : Rep k a) (hw : a.seq (.wait w) = []) :
    WaitQueue.wakeHighest w k = (none, k) := by
  simp only [WaitQueue.wakeHighest, TaskList.popFront_nil h.links hw]
  rfl

theorem makeTaskReady (h : Rep k a) (hfresh : ∀ l, t ∉ a.seq l) (hs : (a.tcb t).state ≠ .deleted)
    (hp : (a.tcb t).priority < kMaxPriorities) :
    (Scheduler.makeTaskReady t k).1 = a.preempts t ∧ Rep (Scheduler.makeTaskReady t k).2 (a.attach t) := by
  have hadd := (h.core (·.setTask t fun c => { c with state := .ready, waitList := none })).add hfresh
    (by simpa using hp)
  unfold Scheduler.makeTaskReady
  rw [h.core_eq, if_neg hs]
  simp only [Core.setTask_tcb, Abs.core_toCore, Function.update_self] at hadd
  refine ⟨?_, hadd⟩
  have hcore := hadd.core_eq
  simp only [Kernel.setTask_eq]
  rw [hcore]
  simp only [Abs.enter, Abs.core_toCore, Core.preempts, Core.setTask_started, Core.setTask_currentTask,
    Core.setTask_tcb, Function.update_self]
  congr 1
  cases a.currentTask with
  | none => rfl
  | some c =>
    by_cases hc : c = t
    · subst hc; simp
    · simp [Function.update_of_ne hc]

theorem ready (h : Rep k a) (hwf : a.WF)
    (hs : (a.tcb t).state = .suspended ∨ (a.tcb t).state = .running) :
    Rep (ReadyManager.add t (k.setTask t fun c => { c with state := .ready })) (a.ready t) := by
  have hfresh := hwf.fresh_of_state (t := t) (by rcases hs with hs | hs <;> simp [hs])
    (by rcases hs with hs | hs <;> simp [hs])
  have hadd := (h.core (·.setTask t fun c => { c with state := .ready })).add hfresh
    (by simpa using (hwf.ok t).priority_lt)
  simp only [Core.setTask_tcb, Abs.core_toCore, Function.update_self] at hadd
  have heq : a.ready t =
      (a.core (·.setTask t fun c => { c with state := .ready })).enter (.ready (a.tcb t).priority)
        (· ++ [t]) := by
    refine Abs.ext_core rfl ?_ rfl rfl
    simp only [Abs.ready, Abs.move, Abs.enter, Abs.core_seq, List.erase_of_not_mem (hfresh _)]
  rw [heq]
  exact hadd

theorem setTaskPriority (h : Rep k a) (hwf : a.WF) {p : Nat} (hp : p < kMaxPriorities)
    (ht : t < a.taskCount) :
    Rep (Scheduler.setTaskPriority t p k) (if p = (a.tcb t).priority then a else a.setPriority t p) := by
  have hcheck : k.check .setPriorityRange (decide (p < kMaxPriorities)) = k := by
    rw [decide_eq_true hp, check_true]
  simp only [Scheduler.setTaskPriority, hcheck]
  by_cases heq : p = (a.tcb t).priority
  · rw [if_pos heq, h.core_eq, if_pos heq.symm]
    exact h
  rw [if_neg heq, h.core_eq, if_neg (Ne.symm heq)]
  have hnot := fun l => not_mem_leave (t := t) hwf.nodup l
  by_cases hready : (a.tcb t).state = .ready
  · -- a ready task moves to the end of its new ready list
    rw [if_pos hready]
    have hrem := h.remove_ready (hwf.mem_ready.mpr ⟨ht, hready, rfl⟩)
    have hadd := (hrem.core (·.setTask t fun c => { c with priority := p })).add hnot
      (by simpa [leave] using hp)
    have hfinal : a.setPriority t p = ((a.leave t).core (·.setTask t fun c => { c with priority := p })).enter
        (.ready p) (· ++ [t]) := by
      refine Abs.ext_core rfl ?_ rfl rfl
      simp [Abs.setPriority, Abs.move, placeOf, hready, leave, enter]
    rw [hfinal]
    simpa [leave] using hadd
  · rw [if_neg hready]
    simp only [Kernel.setTask_eq, Kernel.core_toCore, Core.setTask_tcb, h.core_eq, Function.update_self]
    by_cases hblocked : (a.tcb t).state = .blocked ∧ (a.tcb t).waitList ≠ none
    · -- a parked task is sorted again
      obtain ⟨hb, hw⟩ := hblocked
      obtain ⟨w, hw⟩ := Option.ne_none_iff_exists'.mp hw
      have hrem := (h.core (·.setTask t fun c => { c with priority := p })).remove_wait (w := w)
        (hwf.mem_wait.mpr ⟨hb, hw⟩)
      have hins := hrem.insertWaiter (w := w) hnot
        ((length_leave_le (a := a) (t := t) _).trans (hwf.length_seq_le _))
      have hfinal : a.setPriority t p =
          ((a.core (·.setTask t fun c => { c with priority := p })).leave t).enter (.wait w)
            (((a.core (·.setTask t fun c => { c with priority := p })).leave t).byPriority p t) := by
        refine Abs.ext_core rfl ?_ rfl rfl
        simp only [Abs.setPriority, Abs.move, placeOf, hb, hw, leave, enter, Abs.core_seq]
        simp only [Option.map_some, reduceCtorEq, if_false]
        congr 1
        -- the other waiters keep their priorities
        refine byPriority_congr fun u hu => ?_
        have hne : u ≠ t := fun heq => hnot _ (heq ▸ hu)
        simp [Function.update_of_ne hne]
      rw [hfinal]
      simp only [hb, hw]
      simpa [leave] using hins
    · have hplace : a.place t = none := by
        rw [place, if_pos ht, placeOf]
        cases hs : (a.tcb t).state with
        | ready => exact absurd hs hready
        | blocked => simpa [hs] using hblocked
        | _ => rfl
      have hfinal : a.setPriority t p = a.core (·.setTask t fun c => { c with priority := p }) := by
        refine Abs.ext_core rfl ?_ rfl rfl
        have hnone : placeOf { a.tcb t with priority := p } = none := by
          rw [← hplace, place, if_pos ht, placeOf, placeOf]
          cases hs : (a.tcb t).state with
          | ready => exact absurd hs hready
          | _ => rfl
        simp only [Abs.setPriority, Abs.move, hnone]
        exact erase_of_fresh (hwf.fresh hplace)
      rw [hfinal]
      cases hs : (a.tcb t).state with
      | blocked =>
        have hw : (a.tcb t).waitList = none := by simpa [hs] using hblocked
        simpa [hw] using h.core _
      | _ => exact h.core _

/-! ### Leaving the CPU -/

/-- The countdown a timeout asks for. -/
def timeoutTicks (config : Config) (timeoutMs : TickType) : Option Nat :=
  if timeoutMs = kWaitForever then none else some (msToTicks config timeoutMs).toNat

/-- The end of every blocking call: the running task writes its request, parks and starts its timeout. -/
theorem block (h : Rep k a) (hwf : a.WF) (hs : (a.tcb t).state = .running) (w : Wait)
    (timeoutMs : TickType) :
    Rep (WaitQueue.startTimeout t timeoutMs (WaitQueue.park w.list t (k.core (·.setTask t (w.request t)))))
      (a.block w t (timeoutTicks a.config timeoutMs)) := by
  have hfresh := hwf.fresh_of_state (t := t) (by simp [hs]) (by simp [hs])
  have hnone : (w.request t (a.tcb t)).waitList = none := by
    rw [(request_keeps w t _).2.2.2.1]
    exact hwf.waitList_none (by simp [hs])
  have hcheck : (k.core (·.setTask t (w.request t))).check .alreadyParked
      ((k.core (·.setTask t (w.request t))).tcb t).waitList.isNone = k.core (·.setTask t (w.request t)) := by
    have : ((k.core (·.setTask t (w.request t))).tcb t).waitList.isNone = true := by
      simp [h.core_eq, hnone]
    rw [this, check_true]
  have hparked := ((h.core (·.setTask t (w.request t))).core
    (·.setTask t fun c => { c with state := .blocked, waitList := some w.list })).insertWaiter hfresh
      (hwf.length_seq_le (.wait w.list))
  have hblock : a.block w t none = Abs.enter (.wait w.list)
      (byPriority (((a.core (·.setTask t (w.request t))).core
        (·.setTask t fun c => { c with state := .blocked, waitList := some w.list })).tcb t).priority t
        ((a.core (·.setTask t (w.request t))).core
          (·.setTask t fun c => { c with state := .blocked, waitList := some w.list })))
      ((a.core (·.setTask t (w.request t))).core
        (·.setTask t fun c => { c with state := .blocked, waitList := some w.list })) := by
    refine Abs.ext_core ?_ ?_ rfl rfl
    · simp [Abs.block, enter]
    · simp only [Abs.block, Abs.move, enter, Abs.core_seq, List.erase_of_not_mem (hfresh _)]
      congr 1
      rw [byPriority_congr (b := (a.core (·.setTask t (w.request t))).core
        (·.setTask t fun c => { c with state := .blocked, waitList := some w.list }))]
      · simp
      · intro u hu
        have hne : u ≠ t := fun heq => hfresh _ (heq ▸ hu)
        simp [Function.update_of_ne hne]
  rw [← hblock] at hparked
  simp only [WaitQueue.startTimeout, WaitQueue.park, hcheck, timeoutTicks, Kernel.setTask_eq]
  split
  · exact hparked
  · have hdelay := hparked.delayInsert (t := t)
      (msToTicks a.config timeoutMs) (hwf.not_sleeps (by simp [hs])) hwf.length_sleepers_le
    have hconfig := congrArg Core.config hparked.core_eq
    rw [hconfig]
    exact hdelay

theorem sleep (h : Rep k a) (hwf : a.WF) (hs : (a.tcb t).state = .running) (ticks : TickType) :
    Rep (Scheduler.delayInsert t ticks (k.setTask t fun c => { c with state := .blocked }))
      (a.sleep t ticks.toNat) := by
  have hfresh := hwf.fresh_of_state (t := t) (by simp [hs]) (by simp [hs])
  have hdelay := (h.core (·.setTask t fun c => { c with state := .blocked })).delayInsert (t := t)
    ticks (hwf.not_sleeps (by simp [hs])) hwf.length_sleepers_le
  have hfinal : a.sleep t ticks.toNat = (a.core (·.setTask t fun c => { c with state := .blocked })).setSleepers
      (Countdown.schedule t ticks.toNat a.sleepers) :=
    Abs.ext_core rfl (erase_of_fresh hfresh) rfl rfl
  rw [hfinal]
  exact hdelay

/-! ### Suspend and delete -/

/-- `suspend_task` and `delete_task`: the task leaves the list its state says it is in. -/
theorem retire (h : Rep k a) (hwf : a.WF) (ht : t < a.taskCount) (st : TaskState) :
    Rep ((Scheduler.unlink t k).setTask t fun c => { c with state := st }) (a.retire t st) := by
  unfold Scheduler.unlink
  rw [h.core_eq]
  cases hs : (a.tcb t).state with
  | ready =>
    have hnone := hwf.waitList_none (t := t) (by simp [hs])
    have hrem := (h.remove_ready (hwf.mem_ready.mpr ⟨ht, hs, rfl⟩)).core
      (·.setTask t fun c => { c with state := st })
    have hfinal : a.retire t st = (a.leave t).core (·.setTask t fun c => { c with state := st }) := by
      refine Abs.ext_core ?_ rfl (cancel_of_not_sleeps (hwf.not_sleeps (by simp [hs]))) rfl
      simp only [Abs.retire, move_toCore, Abs.core_toCore, leave]
      exact Core.setTask_congr (by simp [TaskControlBlock.unparked, hnone])
    rw [hfinal]
    exact hrem
  | blocked =>
    unfold Scheduler.unlinkBlocked
    rw [h.core_eq]
    cases hw : (a.tcb t).waitList with
    | some w =>
      have hrem := (((h.remove_wait (hwf.mem_wait.mpr ⟨hs, hw⟩)).core
        (·.setTask t fun c => { c with waitList := none, timeoutExpired := true })).delayRemove (t := t)).core
          (·.setTask t fun c => { c with state := st })
      have hfinal : a.retire t st = (((a.leave t).core
          (·.setTask t fun c => { c with waitList := none, timeoutExpired := true })).setSleepers
            (Countdown.cancel t a.sleepers)).core (·.setTask t fun c => { c with state := st }) := by
        refine Abs.ext_core ?_ rfl rfl rfl
        simp only [Abs.retire, move_toCore, Abs.core_toCore, leave, setSleepers, Core.setTask_setTask]
        exact Core.setTask_congr (by simp [TaskControlBlock.unparked, hw])
      rw [hfinal]
      exact hrem
    | none =>
      have hrem := (h.delayRemove (t := t)).core (·.setTask t fun c => { c with state := st })
      have hfresh := hwf.fresh (t := t) (by rw [place, if_pos ht, placeOf, hs, hw]; rfl)
      have hfinal : a.retire t st = (a.setSleepers (Countdown.cancel t a.sleepers)).core
          (·.setTask t fun c => { c with state := st }) := by
        refine Abs.ext_core ?_ (erase_of_fresh hfresh) rfl rfl
        simp only [Abs.retire, move_toCore, Abs.core_toCore, setSleepers]
        exact Core.setTask_congr (by simp [TaskControlBlock.unparked, hw])
      rw [hfinal]
      exact hrem
  | _ =>
    have hnone := hwf.waitList_none (t := t) (by simp [hs])
    have hfresh := hwf.fresh_of_state (t := t) (by simp [hs]) (by simp [hs])
    have hfinal : a.retire t st = a.core (·.setTask t fun c => { c with state := st }) := by
      refine Abs.ext_core ?_ (erase_of_fresh hfresh)
        (cancel_of_not_sleeps (hwf.not_sleeps (by simp [hs]))) rfl
      simp only [Abs.retire, move_toCore, Abs.core_toCore]
      exact Core.setTask_congr (by simp [TaskControlBlock.unparked, hnone])
    rw [hfinal]
    exact h.core _

/-! ### The tick -/

theorem expire (h : Rep k a) (hwf : a.WF) {rest : List (Tid × Nat)} (hsl : a.sleepers = (t, 0) :: rest) :
    Rep (Scheduler.expire t k) (a.expire t) := by
  have hsleeps : a.Sleeps t := by simp [Sleeps, hsl]
  have hb := hwf.state_of_sleeps hsleeps
  have hlt := hwf.lt_of_sleeps hsleeps
  have hnot := not_mem_leave (t := t) hwf.nodup
  have hcancel : Countdown.cancel t a.sleepers = rest := by
    have hnodup := hwf.sleepers_nodup
    rw [hsl, List.map_cons, List.nodup_cons] at hnodup
    have hrest := Countdown.cancel_of_not_mem hnodup.1
    simpa [hsl, Countdown.cancel] using hrest
  have hdelay : Rep (k.setDelay (DelayList.unlinkHead t k.delay)) (a.setSleepers rest) := by
    have := h.delay
    rw [hsl] at this
    exact ⟨h.core_eq, h.links, h.mask, DelayList.unlinkHead_represents this, h.held⟩
  simp only [Scheduler.expire, Kernel.setDelay_toCore]
  rw [h.core_eq]
  cases hw : (a.tcb t).waitList with
  | some w =>
    have hrem := ((hdelay.remove_wait (hwf.mem_wait.mpr ⟨hb, hw⟩)).core
      (·.setTask t fun c => { c with waitList := none, timeoutExpired := true })).core
        (·.setTask t fun c => { c with state := .ready })
    have hadd := hrem.add hnot (by simpa [leave, setSleepers] using (hwf.ok t).priority_lt)
    have hfinal : a.expire t = ((((a.setSleepers rest).leave t).core
        (·.setTask t fun c => { c with waitList := none, timeoutExpired := true })).core
          (·.setTask t fun c => { c with state := .ready })).enter (.ready (a.tcb t).priority)
            (· ++ [t]) := by
      refine Abs.ext_core ?_ rfl hcancel rfl
      simp only [Abs.expire, move_toCore, Abs.core_toCore, leave, setSleepers, enter,
        Core.setTask_setTask]
      exact Core.setTask_congr (by simp [TaskControlBlock.unparked, hw])
    rw [hfinal]
    simpa [leave, setSleepers] using hadd
  | none =>
    have hfresh := hwf.fresh (t := t) (by rw [place, if_pos hlt, placeOf, hb, hw]; rfl)
    have hadd := (hdelay.core (·.setTask t fun c => { c with state := .ready })).add hfresh
      (by simpa [setSleepers] using (hwf.ok t).priority_lt)
    have hfinal : a.expire t = ((a.setSleepers rest).core (·.setTask t fun c => { c with state := .ready })).enter
        (.ready (a.tcb t).priority) (· ++ [t]) := by
      refine Abs.ext_core ?_ ?_ hcancel rfl
      · simp only [Abs.expire, move_toCore, Abs.core_toCore, setSleepers, enter]
        exact Core.setTask_congr (by simp [TaskControlBlock.unparked, hw])
      · simp only [Abs.expire, Abs.move, Abs.core_seq, setSleepers, enter,
          List.erase_of_not_mem (hfresh _)]
    rw [hfinal]
    simpa [setSleepers] using hadd

end Rep

namespace Abs

/-- The countdowns that have run out, in order. -/
def expired (a : Abs) : List Tid := (a.sleepers.takeWhile fun e => e.2 == 0).map Prod.fst

def expireAll (ts : List Tid) (a : Abs) : Abs := ts.foldl (fun b t => b.expire t) a

variable {a : Abs} {t : Tid}

/-- What `schedule_next_task` writes into the outgoing task. -/
def saveSp (c : Tid) (a : Abs) : Abs :=
  (a.core fun e => e.check .stackOverflow (Scheduler.stackIntact c e)).core
    fun e => e.setTask c fun t => { t with sp := e.currentSp }

/-- The first half of `schedule_next_task`: the outgoing task, if it still runs, is ready again. -/
def putBack (a : Abs) : Abs :=
  match a.currentTask with
  | none => a
  | some c => if (a.tcb c).state = .running then (a.saveSp c).ready c else a.saveSp c

/-- `PendSV_Handler` stores PSP. -/
def storeSp (psp : Nat) (a : Abs) : Abs :=
  if psp = 0 then a else a.core fun e => { e with currentSp := .psp psp }

theorem sleepers_expire (h : a.WF) {n : Nat} {rest : List (Tid × Nat)} (hsl : a.sleepers = (t, n) :: rest) :
    (a.expire t).sleepers = rest := by
  have hnodup := h.sleepers_nodup
  rw [hsl, List.map_cons, List.nodup_cons] at hnodup
  have hrest := Countdown.cancel_of_not_mem hnodup.1
  show Countdown.cancel t a.sleepers = rest
  simpa [hsl, Countdown.cancel] using hrest

theorem expired_cons {rest : List (Tid × Nat)} (hsl : a.sleepers = (t, 0) :: rest) (h : a.WF) :
    a.expired = t :: (a.expire t).expired := by
  rw [expired, expired, sleepers_expire h hsl, hsl]
  rfl

end Abs

namespace Rep

variable {k : Kernel} {a : Abs} {t : Tid}

/-- The loop of `DelayList::tick` expires exactly the countdowns that have run out. -/
theorem expireLoop {fuel : Nat} (h : Rep k a) (hwf : a.WF) (hfuel : a.sleepers.length ≤ fuel) :
    Rep (Scheduler.expireLoop fuel k) (a.expireAll a.expired) ∧ (a.expireAll a.expired).WF ∧
      (a.expireAll a.expired).Positive ∧
      Runs (Visit.sysTick) a (a.expired.map .expire) (a.expireAll a.expired) := by
  induction fuel generalizing k a with
  | zero =>
    have hnil : a.sleepers = [] := List.eq_nil_of_length_eq_zero (Nat.le_zero.mp hfuel)
    have hhead : k.delay.head = none := by
      have := h.delay.linked.head_eq ()
      simpa [hnil] using this
    have hexp : a.expired = [] := by simp [expired, hnil]
    rw [hexp]
    refine ⟨?_, hwf, ?_, rfl⟩
    · rw [Scheduler.expireLoop, hhead]
      exact h
    · intro e he
      simp [expireAll, hnil] at he
  | succ fuel ih =>
    cases hsl : a.sleepers with
    | nil =>
      have hhead : k.delay.head = none := by
        have := h.delay.linked.head_eq ()
        simpa [hsl] using this
      have hexp : a.expired = [] := by simp [expired, hsl]
      rw [hexp]
      refine ⟨?_, hwf, ?_, rfl⟩
      · rw [Scheduler.expireLoop, hhead]
        exact h
      · intro e he
        simp [expireAll, hsl] at he
    | cons e rest =>
      obtain ⟨t, n⟩ := e
      have hdelay := h.delay
      rw [hsl] at hdelay
      obtain ⟨hhead, hzero⟩ := DelayList.head_expired hdelay
      rw [Scheduler.expireLoop]
      simp only [hhead]
      by_cases hn : n = 0
      · subst hn
        rw [if_pos (hzero.mpr rfl)]
        have hen : (Action.expire t).Enabled a := ⟨rest, hsl⟩
        have hrest := sleepers_expire hwf hsl
        obtain ⟨hrep, hwf', hpos, hruns⟩ := ih (h.expire hwf hsl) (hwf.apply hen) (by
          rw [hrest]
          rw [hsl, List.length_cons] at hfuel
          omega)
        rw [expired_cons hsl hwf]
        exact ⟨hrep, hwf', hpos, hen, rfl, hruns⟩
      · rw [if_neg (fun hz => hn (hzero.mp hz))]
        have hexp : a.expired = [] := by simp [expired, hsl, hn]
        rw [hexp]
        refine ⟨h, hwf, fun e he => ?_, rfl⟩
        have hsorted := hwf.sleepers_sorted
        rw [hsl, List.pairwise_cons] at hsorted
        have he' : e ∈ (t, n) :: rest := by rw [← hsl]; exact he
        rcases List.mem_cons.mp he' with rfl | he'
        · show 1 ≤ n
          omega
        · have := hsorted.1 e he'
          simp only at this
          omega

theorem countDown (h : Rep k a) (hpos : a.Positive) :
    Rep (k.setDelay (DelayList.decrementHead k.delay)) a.countDown :=
  ⟨h.core_eq, h.links, h.mask, DelayList.decrementHead_represents h.delay hpos, h.held⟩

theorem delayTick (h : Rep k a) (hwf : a.WF) (hpos : a.Positive) :
    Rep (Scheduler.delayTick k) (a.countDown.expireAll a.countDown.expired) ∧
      (a.countDown.expireAll a.countDown.expired).Positive ∧
      Runs (Visit.sysTick) a (.countDown :: a.countDown.expired.map .expire)
        (a.countDown.expireAll a.countDown.expired) := by
  have hlen : a.countDown.sleepers.length ≤ a.config.kMaxTasks := by
    simpa [Abs.countDown] using hwf.length_sleepers_le
  obtain ⟨hrep, -, hpos', hruns⟩ := (h.countDown hpos).expireLoop hwf.countDown hlen
  unfold Scheduler.delayTick
  rw [h.core_eq]
  exact ⟨hrep, hpos', hpos, rfl, hruns⟩

/-! ### Dispatching -/

theorem quiet_fail (x : Fault) (e : Core) (hx : x.expected = true) : e.Quiet (e.fail x) := by
  refine ⟨rfl, rfl, rfl, rfl, rfl, rfl, rfl, rfl, rfl, rfl, rfl, rfl, rfl, ?_⟩
  cases hf : e.fault with
  | none => exact Or.inr ⟨x, by simp [Core.fail, hf], hx⟩
  | some y => exact Or.inl (by simp [Core.fail, hf])

theorem quiet_check (x : Assertion) (b : Bool) (e : Core)
    (hx : (Fault.assert x).expected = true := by rfl) : e.Quiet (e.check x b) := by
  unfold Core.check
  split
  · exact quiet_fail _ e hx
  · exact ⟨rfl, rfl, rfl, rfl, rfl, rfl, rfl, rfl, rfl, rfl, rfl, rfl, rfl, Or.inl rfl⟩

theorem saveSp_tcb (c u : Tid) : ((a.saveSp c).tcb u).priority = (a.tcb u).priority ∧
    ((a.saveSp c).tcb u).state = (a.tcb u).state := by
  have hquiet := quiet_check .stackOverflow (Scheduler.stackIntact c a.toCore) a.toCore
  simp only [saveSp, core_toCore, Core.setTask_tcb, Function.update_apply, hquiet.tcb]
  split
  · rename_i hu
    subst hu
    exact ⟨rfl, rfl⟩
  · exact ⟨rfl, rfl⟩

theorem saveSp_wf (hwf : a.WF) (c : Tid) : (a.saveSp c).WF := by
  have hquiet := quiet_check .stackOverflow (Scheduler.stackIntact c a.toCore) a.toCore
  refine (hwf.core ?_).setTask rfl rfl (Or.inl rfl) ?_
  · exact ⟨hquiet.tcb, hquiet.currentTask, hquiet.taskCount, hquiet.config, hquiet.owner,
      fun hs => hquiet.started.trans hs⟩
  · show ((a.check .stackOverflow (Scheduler.stackIntact c a.toCore)).tcb c).basePriority < _
    rw [hquiet.tcb]
    exact (hwf.ok c).base_lt

theorem putBack_runs (hwf : a.WF) : ∃ acts, Runs (Visit.pendSV) a acts a.putBack := by
  unfold Abs.putBack
  cases hcur : a.currentTask with
  | none => exact ⟨[], rfl⟩
  | some c =>
    have hquiet := quiet_check .stackOverflow (Scheduler.stackIntact c a.toCore) a.toCore
    have hsave : Runs (Visit.pendSV) a
        [.data (.quiet (a.check .stackOverflow (Scheduler.stackIntact c a.toCore))), .save c] (a.saveSp c) := by
      refine ⟨hquiet, trivial, ?_, ⟨rfl, ?_⟩, rfl⟩
      · show c < (a.check .stackOverflow (Scheduler.stackIntact c a.toCore)).taskCount
        rw [hquiet.taskCount]
        exact hwf.current_lt c hcur
      · show (a.check .stackOverflow (Scheduler.stackIntact c a.toCore)).currentTask = some c
        rw [hquiet.currentTask, hcur]
    have hstate := (saveSp_tcb (a := a) c c).2
    simp only
    split
    · rename_i hrun
      refine ⟨_, hsave.append (Runs.single (.ready c) ⟨?_, Or.inr (hstate.trans hrun)⟩
        ⟨Or.inr ⟨rfl, hstate.trans hrun⟩, fun _ => rfl⟩)⟩
      show c < (a.check .stackOverflow (Scheduler.stackIntact c a.toCore)).taskCount
      rw [hquiet.taskCount]
      exact hwf.current_lt c hcur
    · exact ⟨_, hsave⟩

theorem putBack (h : Rep k a) (hwf : a.WF) : Rep (Scheduler.putBack k) a.putBack := by
  unfold Scheduler.putBack Abs.putBack
  rw [h.core_eq]
  cases hcur : a.currentTask with
  | none => exact h
  | some c =>
    have hsaved : Rep ((k.check .stackOverflow (Scheduler.stackIntact c a.toCore)).setTask c fun t =>
        { t with sp := (k.check .stackOverflow (Scheduler.stackIntact c a.toCore)).currentSp })
        (a.saveSp c) := by
      have hchecked := h.core fun e => e.check .stackOverflow (Scheduler.stackIntact c a.toCore)
      have := hchecked.core fun e => e.setTask c fun t => { t with sp := e.currentSp }
      exact this
    have hstate := (saveSp_tcb (a := a) c c).2
    simp only
    rw [hsaved.core_eq, hstate]
    split
    · rename_i hrun
      exact hsaved.ready (saveSp_wf hwf c) (Or.inr (hstate.trans hrun))
    · exact hsaved

theorem storeSp (h : Rep k a) (psp : Nat) :
    Rep (if psp = 0 then k else k.core fun e => { e with currentSp := .psp psp }) (a.storeSp psp) := by
  unfold Abs.storeSp
  split
  · exact h
  · exact h.core _

theorem storeSp_runs (psp : Nat) : ∃ acts, Runs (Visit.pendSV) a acts (a.storeSp psp) := by
  unfold Abs.storeSp
  split
  · exact ⟨[], rfl⟩
  · exact ⟨_, Runs.single (.data (.quiet { a.toCore with currentSp := .psp psp }))
      ⟨rfl, rfl, rfl, rfl, rfl, rfl, rfl, rfl, rfl, rfl, rfl, rfl, rfl, Or.inl rfl⟩ trivial⟩

theorem switchTo (h : Rep k (a.leave t)) : Rep (Scheduler.switchTo t k) (a.switch t) := by
  have hswitched := (h.core (·.setTask t fun c => { c with state := .running })).core
    fun e => { e with currentTask := some t, currentSp := (e.tcb t).sp }
  have hfinal : a.switch t = ((a.leave t).core (·.setTask t fun c => { c with state := .running })).core
      fun e => { e with currentTask := some t, currentSp := (e.tcb t).sp } := by
    refine Abs.ext_core ?_ rfl rfl rfl
    simp [Abs.switch, leave, Core.setTask]
  rw [hfinal]
  exact hswitched

/-- `PendSV_Handler`: after `putBack` the first task of the highest ready list is dispatched. -/
theorem pendSV (h : Rep k a) (psp : Nat) (hwf : (a.storeSp psp).putBack.WF) (hwf₀ : (a.storeSp psp).WF)
    (hne : ∃ p, (a.storeSp psp).putBack.seq (.ready p) ≠ []) :
    ∃ t p, (a.storeSp psp).putBack.Top p ∧ ((a.storeSp psp).putBack.seq (.ready p)).head? = some t ∧
      Rep (Scheduler.pendSV psp k) ((a.storeSp psp).putBack.switch t) := by
  obtain ⟨t, p, htop, hhead, hfst, hrep⟩ := ((h.storeSp psp).putBack hwf₀).getHighest hwf.ready_high hne
  refine ⟨t, p, htop, hhead, ?_⟩
  unfold Scheduler.pendSV Scheduler.scheduleNextTask
  simp only [hfst]
  exact hrep.switchTo

/-! ### Creation -/

theorem allocateTcb (h : Rep k a) (hwf : a.WF) :
    if a.taskCount < a.config.kMaxTasks then
      (Scheduler.allocateTcb k).1 = some a.taskCount ∧ Rep (Scheduler.allocateTcb k).2 a.alloc
    else Scheduler.allocateTcb k = (none, k) := by
  unfold Scheduler.allocateTcb
  rw [h.core_eq]
  by_cases hlt : a.taskCount < a.config.kMaxTasks
  · rw [if_pos hlt, if_neg (by omega)]
    refine ⟨rfl, ?_⟩
    have hfresh : ∀ l, a.taskCount ∉ a.seq l := fun l hm => Nat.lt_irrefl _ (hwf.lt_of_mem hm)
    have hcore := h.core fun e =>
      { e with taskCount := a.taskCount + 1 }.setTask a.taskCount fun c =>
        { c with state := .suspended, waitList := none }
    refine ⟨hcore.core_eq, ?_, h.mask, h.delay, h.held⟩
    -- the links of a new control block are written, but it is in no list
    have hne : ∀ l, ∀ u ∈ a.seq l, u ≠ a.taskCount := fun l u hu heq => hfresh l (heq ▸ hu)
    refine ⟨h.links.head_eq, h.links.tail_eq, fun l => ?_, h.links.nodup, h.links.disjoint⟩
    exact (h.links.seg l).congr (fun u hu => Function.update_of_ne (hne l u hu) _ _)
      (fun u hu => Function.update_of_ne (hne l u hu) _ _)
  · rw [if_neg hlt, if_pos (by omega)]

theorem initTcb (h : Rep k a) (site : Site) (p : Nat) :
    Rep (Scheduler.initTcb t site p k) (a.initTcb t site p) := (h.core _).core _

end Rep

end AcRtos
