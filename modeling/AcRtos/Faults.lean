import AcRtos.StackPointers
import AcRtos.QueueWaits

/-!
# What stops the machine

The machine stops in a step exactly when the application breaks a rule that an `ACRTOS_ASSERT` states and the build has
assertions, or when it unlocks a free mutex before `start()` (`stops_iff_misused`). So no assertion about the kernel's
own lists, priorities, rings and stacks ever fails, no other null pointer is dereferenced, and every loop ends. A kernel
is `Tame` if nothing has stopped it but, at most, what never does.
-/

namespace AcRtos

open Abs

/-- The rules that the kernel checks, and the one call that it does not survive. -/
def Sys.Misuses (s : Sys) : Event → Fault → Prop
  | .call .start, .assert .startedTwice => s.k.started = true
  | .call (.resume (some t)), .assert .resumeInDelayList => s.k.delay.inDelayList t = true
  | .call (.take x ms), .assert .takeBeforeStart => ms ≠ 0 ∧ s.k.count x = 0 ∧ s.k.currentTask = none
  | .call (.lock _), .assert .lockBeforeStart => s.k.currentTask = none
  | .call (.lock m), .assert .lockOwnMutex => s.k.currentTask ≠ none ∧ s.k.owner m = s.k.currentTask
  | .call (.unlock m), .assert .unlockNotOwner => s.k.currentTask ≠ s.k.owner m
  | .call (.unlock m), .nullDeref => s.k.currentTask = none ∧ s.k.owner m = none
  | .call (.send q _ ms), .assert .queueBeforeStart =>
      ms ≠ 0 ∧ (s.k.ring q).count = s.k.config.capacity q ∧ s.k.currentTask = none
  | .call (.receive q ms), .assert .queueBeforeStart => ms ≠ 0 ∧ (s.k.ring q).count = 0 ∧ s.k.currentTask = none
  | .call (.waitBits _ mask _ _ _), .assert .waitBitsBeforeStart => mask ≠ 0 ∧ s.k.currentTask = none
  | .advance, .assert .createdTwice =>
      ∃ x f p, s.pc s.k.self = .create .assertFlag x f p ∧ s.k.isCreated x = true
  | .advance, .assert .priorityRange => ∃ x f p, s.pc s.k.self = .create .alloc x f p ∧ kMaxPriorities ≤ p
  | .advance, .assert .kMaxTasksTooSmall =>
      ∃ x f p, s.pc s.k.self = .create .alloc x f p ∧ p < kMaxPriorities ∧ s.k.config.kMaxTasks ≤ s.k.taskCount
  | _, _ => False

/-- A broken rule stops the machine if it is checked. -/
def Sys.Stops (s : Sys) (e : Event) (x : Fault) : Prop :=
  s.Misuses e x ∧ (x = .nullDeref ∨ s.k.config.useAssert = true)

/-! ### Operations that stop nothing -/

/-- If the machine has stopped, then by what never happens. -/
def Core.Tame (e : Core) : Prop := ∀ x, e.fault = some x → x.expected = false

namespace Core.Tame

variable {k : Kernel} {e e' : Core} {t : Tid} {w : WaitId}

theorem of_none (h : e.fault = none) : e.Tame := fun x hx => by
  rw [h] at hx
  cases hx

theorem same (h : e.Tame) (hf : e'.fault = e.fault) : e'.Tame := fun x hx => h x (hf ▸ hx)

theorem fail {x : Fault} (h : k.Tame) (hx : x.expected = false) : (k.fail x).Tame := by
  intro y hy
  have hor : k.fault.or (some x) = some y := hy
  cases hk : k.fault with
  | some z =>
    rw [hk] at hor
    cases hor
    exact h _ hk
  | none =>
    rw [hk] at hor
    cases hor
    exact hx

theorem check {x : Assertion} {b : Bool} (h : k.Tame)
    (hx : b = true ∨ k.config.useAssert = false ∨ (Fault.assert x).expected = false) : (k.check x b).Tame := by
  rw [Kernel.check_eq, Kernel.core_toCore, Core.check]
  split
  · rename_i hfails
    simp only [Bool.and_eq_true, Bool.not_eq_true'] at hfails
    rcases hx with hb | hoff | hnever
    · rw [hb] at hfails
      cases hfails.2
    · rw [hoff] at hfails
      cases hfails.1
    · exact h.fail hnever
  · exact h

theorem add (t : Tid) (h : k.Tame) : (ReadyManager.add t k).Tame := h.check (Or.inr (Or.inr rfl))

theorem dropEmptyBit (p : Nat) (h : k.Tame) : (ReadyManager.dropEmptyBit p k).Tame := by
  unfold ReadyManager.dropEmptyBit
  split <;> exact h

theorem remove (t : Tid) (h : k.Tame) : (ReadyManager.remove t k).Tame := dropEmptyBit (k := k.setLinks _) _ h

theorem getHighestPriorityTask (h : k.Tame) : (ReadyManager.getHighestPriorityTask k).2.Tame := by
  unfold ReadyManager.getHighestPriorityTask
  split
  · exact h
  · exact dropEmptyBit (k := k.setLinks _) _ h

theorem insertWaiter (w : WaitId) (t : Tid) (h : k.Tame) : (Scheduler.insertWaiter w t k).Tame := by
  unfold Scheduler.insertWaiter
  split
  · exact h
  · exact h.fail rfl

theorem delayInsert (t : Tid) (ticks : TickType) (h : k.Tame) : (Scheduler.delayInsert t ticks k).Tame := by
  have hcheck : (k.check .alreadyDelayed (!k.delay.inDelayList t)).Tame := h.check (Or.inr (Or.inr rfl))
  unfold Scheduler.delayInsert
  simp only
  split
  · exact hcheck
  · exact hcheck.fail rfl

theorem wakeHighest (w : WaitId) (h : k.Tame) : (WaitQueue.wakeHighest w k).2.Tame := by
  unfold WaitQueue.wakeHighest
  simp only
  split <;> exact h

theorem makeTaskReady (t : Tid) (h : k.Tame) : (Scheduler.makeTaskReady t k).2.Tame := by
  unfold Scheduler.makeTaskReady
  split
  · exact h
  · exact add (k := k.setTask t _) t h

theorem setTaskPriority (t : Tid) (p : Nat) (h : k.Tame) : (Scheduler.setTaskPriority t p k).Tame := by
  have hcheck : (k.check .setPriorityRange (decide (p < kMaxPriorities))).Tame := h.check (Or.inr (Or.inr rfl))
  unfold Scheduler.setTaskPriority
  simp only
  split
  · exact hcheck
  · split
    · exact add (k := (ReadyManager.remove t _).setTask t _) t (hcheck.remove t)
    · split
      · exact insertWaiter (k := ((k.check .setPriorityRange _).setTask t _).setLinks _) _ t hcheck
      · exact hcheck

theorem park (w : WaitId) (t : Tid) (h : k.Tame) : (WaitQueue.park w t k).Tame := by
  have hcheck : (k.check .alreadyParked (k.tcb t).waitList.isNone).Tame := h.check (Or.inr (Or.inr rfl))
  exact insertWaiter (k := (k.check .alreadyParked _).setTask t _) w t hcheck

theorem startTimeout (t : Tid) (ms : TickType) (h : k.Tame) : (WaitQueue.startTimeout t ms k).Tame := by
  unfold WaitQueue.startTimeout
  split
  · exact h
  · exact h.delayInsert t _

theorem unlink (t : Tid) (h : k.Tame) : (Scheduler.unlink t k).Tame := by
  unfold Scheduler.unlink
  split
  · exact h.remove t
  · unfold Scheduler.unlinkBlocked
    simp only
    split <;> exact h
  · exact h

theorem suspendTask (t : Tid) (h : k.Tame) : (Scheduler.suspendTask t k).2.Tame := by
  unfold Scheduler.suspendTask
  split
  · exact h
  · exact h.unlink t

theorem deleteTask (t : Tid) (h : k.Tame) : (Scheduler.deleteTask t k).2.Tame := h.unlink t

theorem resumeTask (t : Tid) (h : k.Tame) : (Scheduler.resumeTask t k).2.Tame := by
  unfold Scheduler.resumeTask
  split
  · exact h
  · exact add (k := k.setTask t _) t h

theorem delayMs (ms : TickType) (h : k.Tame) : (Scheduler.delayMs ms k).2.Tame := by
  unfold Scheduler.delayMs
  simp only
  split
  · exact h
  · split
    · exact h
    · exact delayInsert (k := k.setTask _ _) _ _ h

theorem delayUntil (wakeTime : TickType) (h : k.Tame) : (Scheduler.delayUntil wakeTime k).2.Tame := by
  unfold Scheduler.delayUntil
  simp only
  split
  · exact h
  · split
    · exact h
    · exact delayInsert (k := k.setTask _ _) _ _ h

theorem expire (t : Tid) (h : k.Tame) : (Scheduler.expire t k).Tame := by
  unfold Scheduler.expire
  refine add (k := Kernel.setTask t _ _) t ?_
  split <;> exact h

theorem expireLoop (fuel : Nat) (h : k.Tame) : (Scheduler.expireLoop fuel k).Tame := by
  induction fuel generalizing k with
  | zero =>
    unfold Scheduler.expireLoop
    split
    · exact h
    · split
      · exact h.fail rfl
      · exact h
  | succ fuel ih =>
    unfold Scheduler.expireLoop
    split
    · exact h
    · split
      · exact ih (h.expire _)
      · exact h

theorem tick (h : k.Tame) : (Scheduler.tick k).2.Tame :=
  expireLoop (k := (k.core fun e => { e with tickCount := e.tickCount + 1 }).setDelay _) _ h

theorem pendSV (psp : Nat) (h : k.Tame)
    (hc : ∀ t, k.currentTask = some t → Scheduler.stackIntact t k.toCore = true) :
    (Scheduler.pendSV psp k).Tame := by
  have hput : (Scheduler.putBack (if psp = 0 then k else k.core fun e => { e with currentSp := .psp psp })).Tame := by
    have hstored : (if psp = 0 then k else k.core fun e => { e with currentSp := .psp psp }).Tame ∧
        ∀ t, (if psp = 0 then k else k.core fun e => { e with currentSp := .psp psp }).currentTask = some t →
          Scheduler.stackIntact t
            (if psp = 0 then k else k.core fun e => { e with currentSp := .psp psp }).toCore = true := by
      split <;> exact ⟨h, hc⟩
    generalize (if psp = 0 then k else k.core fun e => { e with currentSp := .psp psp }) = k₁ at hstored
    obtain ⟨htame, hintact⟩ := hstored
    unfold Scheduler.putBack
    split
    · exact htame
    · rename_i c hcur
      have hcheck := htame.check (x := .stackOverflow) (Or.inl (hintact c hcur))
      simp only
      split
      · exact add (k := ((k₁.check .stackOverflow _).setTask c _).setTask c _) c hcheck
      · exact hcheck
  have hpick := hput.getHighestPriorityTask
  unfold Scheduler.pendSV Scheduler.scheduleNextTask
  simp only
  split
  · exact hpick
  · exact hpick.check (Or.inr (Or.inr rfl))

/-! ### Semaphores, mutexes and event groups -/

theorem tryTake (x : SemId) (c : Ctx) (h : k.Tame) : (Semaphore.tryTake x c k).2.Tame := by
  unfold Semaphore.tryTake
  split <;> exact h

theorem giveLocked (x : SemId) (h : k.Tame) : (Semaphore.giveLocked x k).2.Tame := by
  have hwake := h.wakeHighest (.sem x)
  unfold Semaphore.giveLocked
  simp only
  split
  · exact makeTaskReady (k := (WaitQueue.wakeHighest (.sem x) k).2.emit _) _ hwake
  · split <;> exact hwake

theorem take (x : SemId) (ms : TickType) (h : k.Tame)
    (hx : ms ≠ 0 ∧ k.count x = 0 ∧ k.currentTask = none → k.config.useAssert = false) :
    (Semaphore.take x ms k).2.Tame := by
  unfold Semaphore.take
  split
  · exact h.tryTake x _
  · rename_i hms
    split
    · exact h
    · rename_i hcount
      have hzero : k.count x = 0 := by
        simpa [BitVec.lt_def, BitVec.toNat_eq] using hcount
      split
      · rename_i hnone
        exact h.check (Or.inr (Or.inl (hx ⟨hms, hzero, hnone⟩)))
      · exact startTimeout (k := WaitQueue.park _ _ _) _ _ (park (k := k.setTask _ _) _ _ h)

theorem handOff (m : MutexId) (h : k.Tame) : (Mutex.handOff m k).2.Tame := by
  unfold Mutex.handOff
  simp only
  split
  · exact makeTaskReady (k := ((WaitQueue.wakeHighest (.mutex m) k).2.core _).setHeld _) _ (h.wakeHighest _)
  · exact h.wakeHighest _

theorem restorePriority (t : Tid) (b : Bool) (h : k.Tame) : (Mutex.restorePriority t b k).2.Tame := by
  unfold Mutex.restorePriority
  split
  · exact h.fail rfl
  · split
    · exact h.setTaskPriority _ _
    · exact h

theorem lock (m : MutexId) (h : k.Tame) (hnone : k.currentTask = none → k.config.useAssert = false)
    (hown : k.currentTask ≠ none ∧ k.owner m = k.currentTask → k.config.useAssert = false) :
    (Mutex.lock m k).2.Tame := by
  unfold Mutex.lock
  split
  · rename_i hcur
    exact h.check (Or.inr (Or.inl (hnone hcur)))
  · rename_i c hcur
    split
    · exact h
    · rename_i owner howner
      split
      · rename_i hsame
        exact h.check (Or.inr (Or.inl (hown ⟨by simp [hcur], by rw [howner, hcur, hsame]⟩)))
      · refine park (k := Kernel.setTask c _ _) _ _ ?_
        split
        · exact h.setTaskPriority _ _
        · exact h

theorem unlock (m : MutexId) (h : k.Tame) (hnot : k.currentTask ≠ k.owner m → k.config.useAssert = false)
    (hfree : ¬ (k.currentTask = none ∧ k.owner m = none)) : (Mutex.unlock m k).2.Tame := by
  unfold Mutex.unlock
  split
  · rename_i hne
    exact h.check (Or.inr (Or.inl (hnot hne)))
  · rename_i heq
    split
    · rename_i hnone
      exact absurd ⟨hnone, (not_not.mp heq).symm.trans hnone⟩ hfree
    · refine restorePriority _ _ (handOff m ?_)
      split
      · exact h
      · exact h.fail rfl

theorem satisfy (g : EventId) (t : Tid) (e : Core) : (EventGroup.satisfy g t e).fault = e.fault := by
  unfold EventGroup.satisfy EventGroup.report EventGroup.consume
  split <;> split <;> rfl

theorem scanLoop (g : EventId) (fuel : Nat) (cur : Option Tid) (y : Bool) (h : k.Tame) :
    (EventGroup.scanLoop g fuel cur y k).2.Tame := by
  induction fuel generalizing cur y k with
  | zero =>
    cases cur with
    | none => exact h
    | some t => exact h.fail rfl
  | succ fuel ih =>
    cases cur with
    | none => exact h
    | some t =>
      simp only [EventGroup.scanLoop]
      split
      · exact ih _ _ (makeTaskReady (k := Kernel.core _ _) t (h.same (satisfy g t _)))
      · exact ih _ _ h

theorem setBitsLocked (g : EventId) (mask : BitVec 32) (h : k.Tame) : (EventGroup.setBitsLocked g mask k).2.Tame :=
  scanLoop (k := k.core _) g _ _ _ h

theorem waitBits (g : EventId) (mask : BitVec 32) (all clear : Bool) (ms : TickType) (t : Tid) (h : k.Tame) :
    (EventGroup.waitBits g mask all clear ms t k).2.Tame := by
  have hconsume : ∀ c mask clear, (k.core (EventGroup.consume g c mask clear)).Tame := fun c mask clear =>
    h.same (by cases clear <;> rfl)
  unfold EventGroup.waitBits
  split
  · exact hconsume _ _ _
  · split
    · exact hconsume _ _ _
    · exact startTimeout (k := WaitQueue.park _ _ _) _ _ (park (k := k.setTask _ _) _ _ h)

/-! ### Queues -/

theorem waiting_xfer {a : Abs} (hwf : a.WF) (hs : a.Starved) (hw : w.transfers = true) :
    ∀ t ∈ a.seq (.wait w), (a.tcb t).xferPtr = some (.task t) :=
  fun t ht => hs.xfer t w (hwf.mem_wait.mp ht).2 hw

theorem woken_xfer {a : Abs} (hrep : Rep k a) (hx : ∀ t ∈ a.seq (.wait w), (a.tcb t).xferPtr = some (.task t)) :
    WaitQueue.wakeHighest w k = (none, k) ∨
    ∃ t, (WaitQueue.wakeHighest w k).1 = some t ∧
      ((WaitQueue.wakeHighest w k).2.tcb t).xferPtr = some (.task t) := by
  cases hseq : a.seq (.wait w) with
  | nil => exact Or.inl (hrep.wakeHighest_nil hseq)
  | cons t ts =>
    obtain ⟨hfst, hrep'⟩ := hrep.wakeHighest hseq
    refine Or.inr ⟨t, hfst, ?_⟩
    rw [hrep'.core_eq]
    simp only [detach, Abs.setSleepers, Abs.leave, core_toCore, Core.setTask_tcb, Function.update_self]
    exact hx t (by rw [hseq]; exact List.mem_cons_self)

theorem trySendLocked {a : Abs} (hrep : Rep k a) (hwf : a.WF) (hs : a.Starved) (q : QueueId) (p : Ctx) (h : k.Tame) :
    (QueueCore.trySendLocked q p k).2.Tame := by
  have hwake := h.wakeHighest (.receivers q)
  unfold QueueCore.trySendLocked
  rcases woken_xfer hrep (waiting_xfer hwf hs (w := .receivers q) rfl) with hnone | ⟨t, hfst, hx⟩
  · rw [hnone]
    simp only
    split <;> exact h
  · generalize WaitQueue.wakeHighest (.receivers q) k = r at hwake hfst hx
    obtain ⟨o, k₁⟩ := r
    obtain rfl : o = some t := hfst
    have hcheck := hwake.check (x := .handoffNotEmpty) (b := decide ((k₁.ring q).count = 0)) (Or.inr (Or.inr rfl))
    have htcb : (k₁.check .handoffNotEmpty (decide ((k₁.ring q).count = 0))).tcb = k₁.tcb :=
      (Core.check_keeps _ _ _).1
    simp only
    generalize k₁.check .handoffNotEmpty (decide ((k₁.ring q).count = 0)) = k₂ at hcheck htcb
    refine makeTaskReady (k := k₂.core (QueueCore.handOver q p t)) t (hcheck.same ?_)
    rw [← htcb] at hx
    rw [Kernel.core_toCore, QueueCore.handOver, hx]
    rfl

theorem tryReceiveLocked {a : Abs} (hrep : Rep k a) (hwf : a.WF) (hs : a.Starved) (q : QueueId) (p : Ctx) (h : k.Tame) :
    (QueueCore.tryReceiveLocked q p k).2.Tame := by
  unfold QueueCore.tryReceiveLocked QueueCore.backFill
  split
  · exact h
  · have hwake := wakeHighest (k := k.core (QueueCore.popTo q p)) (.senders q) h
    have hrep' := hrep.core (QueueCore.popTo q p)
    have hwaiting := waiting_xfer hwf hs (w := .senders q) rfl
    rcases woken_xfer hrep' hwaiting with hnone | ⟨t, hfst, hx⟩
    · rw [hnone]
      exact h
    · generalize WaitQueue.wakeHighest (.senders q) (k.core (QueueCore.popTo q p)) = r at hwake hfst hx
      obtain ⟨o, k₁⟩ := r
      obtain rfl : o = some t := hfst
      refine makeTaskReady (k := k₁.core (QueueCore.pushOf q t)) t (hwake.same ?_)
      rw [Kernel.core_toCore, QueueCore.pushOf, hx]
      rfl

/-- A refused attempt leaves the kernel as it was, and the ring was full or empty. -/
theorem refused_send {a : Abs} (hrep : Rep k a) (hwf : a.WF) (hs : a.Starved) {q : QueueId} {p : Ctx}
    (hret : (QueueCore.trySendLocked q p k).1.1 = false) :
    (QueueCore.trySendLocked q p k).2 = k ∧ (k.ring q).count = k.config.capacity q := by
  obtain ⟨hk, -, hfull⟩ := (trySendLocked_leads (v := ⟨.call, p, false, .user, .user, true⟩) _ hrep hwf hs rfl
    fun _ => rfl).2.2 hret
  refine ⟨hk, ?_⟩
  rw [hrep.core_eq]
  exact Nat.le_antisymm (hs.ring q).count_le (Nat.not_lt.mp hfull)

theorem refused_receive {q : QueueId} {p : Ctx} (hret : (QueueCore.tryReceiveLocked q p k).1.1 = false) :
    (QueueCore.tryReceiveLocked q p k).2 = k ∧ (k.ring q).count = 0 := by
  unfold QueueCore.tryReceiveLocked at hret ⊢
  split
  · exact ⟨rfl, ‹_›⟩
  · rename_i hne
    rw [if_neg hne] at hret
    cases hret

theorem sendOrBlock (w : Wait) (ms : TickType) {r : (Bool × Bool) × Kernel} (h : r.2.Tame)
    (hx : r.1.1 = false → ms ≠ 0 → r.2.currentTask = none → r.2.config.useAssert = false) :
    (QueueCore.sendOrBlock w ms r).2.Tame := by
  unfold QueueCore.sendOrBlock
  split
  · exact h
  · rename_i hret
    split
    · exact h
    · rename_i hms
      unfold QueueCore.blockCurrentLocked
      cases hcur : r.2.currentTask with
      | none => exact h.check (Or.inr (Or.inl (hx (by simpa using hret) hms hcur)))
      | some t =>
        simp only
        exact startTimeout (k := WaitQueue.park _ _ _) _ _ (park (k := r.2.setTask _ _) _ _ h)

/-! ### `create_task` -/

theorem allocate (p : Nat) (h : k.Tame) (hp : kMaxPriorities ≤ p → k.config.useAssert = false)
    (hroom : p < kMaxPriorities → k.config.kMaxTasks ≤ k.taskCount → k.config.useAssert = false) :
    (Scheduler.allocate p k).2.Tame := by
  have hcheck : (k.check .priorityRange (decide (p < kMaxPriorities))).Tame := by
    refine h.check ?_
    by_cases hlt : p < kMaxPriorities
    · exact Or.inl (decide_eq_true hlt)
    · exact Or.inr (Or.inl (hp (Nat.not_lt.mp hlt)))
  have hrest : (k.check .priorityRange (decide (p < kMaxPriorities))).taskCount = k.taskCount ∧
      (k.check .priorityRange (decide (p < kMaxPriorities))).config = k.config :=
    ⟨check_taskCount _ _ _, (Still.check _ _ (.refl _)).config⟩
  unfold Scheduler.allocate
  simp only
  generalize k.check .priorityRange (decide (p < kMaxPriorities)) = k₁ at hcheck hrest
  split
  · exact hcheck
  · rename_i hlt
    unfold Scheduler.allocateTcb
    split
    · rename_i hfull
      refine hcheck.check (Or.inr (Or.inl ?_))
      rw [hrest.2]
      exact hroom (Nat.not_le.mp hlt) (by rw [← hrest.1, ← hrest.2]; exact hfull)
    · exact check (k := Kernel.setLinks _ (Kernel.setTask _ _ (k₁.core _))) hcheck (Or.inl rfl)

theorem allocate_isSome {p : Nat} (hp : p < kMaxPriorities) (hroom : k.taskCount < k.config.kMaxTasks) :
    (Scheduler.allocate p k).1.isSome = true := by
  have htrue : k.check .priorityRange (decide (p < kMaxPriorities)) = k := by
    rw [decide_eq_true hp]
    exact Rep.check_true _ _
  simp only [Scheduler.allocate, htrue, if_neg (Nat.not_le.mpr hp), Scheduler.allocateTcb,
    if_neg (Nat.not_le.mpr hroom), Option.isSome_some]

theorem created (c : Ctx) (x : Site) (z : Option Tid) (s : Sys) (h : k.Tame) (hz : x = idleSite → z.isSome = true) :
    (s.created c x z k).k.Tame := by
  unfold Sys.created
  split
  · exact h.check (Or.inl (hz ‹_›))
  · exact h

end Core.Tame

/-! ### The canaries -/

/-- Every stack begins with the canary. -/
def Sys.Intact (s : Sys) : Prop := ∀ t x, (s.k.tcb t).stackBase = some x → (s.k.storage x).word0 = kStackCanary

section
variable {config : Config} {s s' : Sys} {a : Abs} {e : Event} {t : Tid}

theorem Inv.intact_step (h : Inv s a) (hs : s.step e = some s') {σ : Slips} (hσ : s.Admits σ e) (htold : s.Told σ)
    (hisr : s.pc .isr = .user) (hin : s.Intact) : s'.Intact := by
  intro t x hx
  have hold : (s.k.tcb t).stackBase = some x ∨ e = .advance ∧ ∃ f p, s.pc s.k.self = .create (.init t) x f p := by
    by_cases hinit : e = .advance ∧ ∃ y f p, s.pc s.k.self = .create (.init t) y f p
    · obtain ⟨rfl, y, f, p, hpc⟩ := hinit
      obtain rfl : y = x := Option.some.inj ((initTcb_step hs hpc).2.1.symm.trans hx)
      exact Or.inr ⟨rfl, f, p, hpc⟩
    · by_cases hp : ∃ psp, e = .pendSV psp
      · exact Or.inl ((quiet_writes .isr hs (Or.inr hp)).1.stackBase t ▸ hx)
      · refine Or.inl ((h.stack_step hs (fun psp he => hp ⟨psp, he⟩) fun he y f p hpc => ?_).2 ▸ hx)
        exact hinit ⟨he, y, f, p, hpc⟩
  by_cases hstores : s.Stores e x
  · obtain ⟨rfl, phase, f, p, hpc, hphase⟩ := hstores
    rw [advance_of_create hs hpc]
    rcases hphase with rfl | ⟨u, rfl⟩
    · rcases hold with hstack | ⟨-, g, q, hinit⟩
      · simpa [Sys.advanceCreate, Sys.setPc, Sys.setK] using hin t x hstack
      · cases hpc.symm.trans hinit
    · simp [Sys.advanceCreate, Scheduler.initTcb, Sys.setPc, Sys.setK]
  · rw [h.storage_step hs hσ htold hisr hstores]
    rcases hold with hstack | ⟨he, f, p, hpc⟩
    · exact hin t x hstack
    · exact absurd ⟨he, _, f, p, hpc, Or.inr ⟨t, rfl⟩⟩ hstores

theorem Reachable.stacked (h : Reachable config s) : Stacked s ∧ s.Intact := by
  induction h with
  | init => exact ⟨Stacked.init config, fun t x hx => by cases hx⟩
  | step e h hs ih =>
    obtain ⟨a, htracks⟩ := h.tracks
    obtain ⟨htold, hisr, -⟩ := htracks.told
    exact ⟨htracks.inv.stacked_step hs ih.1, htracks.inv.intact_step hs (Sys.admits_slips trivial) htold hisr ih.2⟩

theorem Reachable.stackIntact (h : Reachable config s) (hcur : s.k.currentTask = some t) :
    Scheduler.stackIntact t s.k.toCore = true := by
  obtain ⟨a, htracks⟩ := h.tracks
  obtain ⟨hst, hin⟩ := h.stacked
  obtain ⟨x, hx⟩ := htracks.inv.current_stack hst hcur
  unfold Scheduler.stackIntact
  rw [hx]
  exact decide_eq_true (hin t x hx)

end

/-! ### Steps -/

section
variable {config : Config} {s s' : Sys} {a : Abs} {e : Event} {k : Kernel}

theorem check_fault (x : Assertion) (hf : k.fault = none) (hon : k.config.useAssert = true) :
    (k.check x false).fault = some (.assert x) := by
  rw [Kernel.check_eq, Kernel.core_toCore, Core.check, hon]
  show k.fault.or (some (.assert x)) = _
  rw [hf]
  rfl

theorem check_keeps_fault {x : Fault} (y : Assertion) (b : Bool) (hf : k.fault = some x) :
    (k.check y b).fault = some x := by
  rw [Kernel.check_eq, Kernel.core_toCore, Core.check]
  split
  · show k.fault.or (some (.assert y)) = _
    rw [hf]
    rfl
  · exact hf

theorem created_fault {x : Fault} (c : Ctx) (y : Site) (z : Option Tid) (hf : k.fault = some x) :
    (s.created c y z k).k.fault = some x := by
  unfold Sys.created
  split
  · exact check_keeps_fault _ _ hf
  · exact hf

/-- A broken rule that is checked stops the machine. -/
theorem Inv.stops {x : Fault} (hi : Inv s a) (h : s.Stops e x) (hs : s.step e = some s') : s'.k.fault = some x := by
  obtain ⟨hm, hon⟩ := h
  have hchecked : ∀ {y : Assertion} {k : Kernel}, s.k.fault = none → x = .assert y → k.fault = s.k.fault →
      k.config = s.k.config → (k.check y false).fault = some (.assert y) := fun {y k} hnone hx hf hconf =>
    check_fault y (hf.trans hnone) (by rw [hconf]; exact hon.resolve_left (by rw [hx]; simp))
  unfold Sys.Misuses at hm
  split at hm
  · -- `start`
    obtain ⟨hfault, -, -, -, -, rfl⟩ := Sys.step_call.mp hs
    simp only [Sys.beginCall]
    rw [if_pos (show (s.k.emit (.call s.k.self .start)).started = true from hm)]
    exact hchecked hfault rfl rfl rfl
  · -- `resume`
    rename_i t
    obtain ⟨hfault, -, -, -, -, rfl⟩ := Sys.step_call.mp hs
    show ((s.k.emit (.call s.k.self (.resume (some t)))).check .resumeInDelayList (!s.k.delay.inDelayList t)).fault = _
    rw [hm]
    exact hchecked hfault rfl rfl rfl
  · -- `take`
    rename_i y ms
    obtain ⟨hfault, -, -, -, -, rfl⟩ := Sys.step_call.mp hs
    obtain ⟨hms, hcount, hnone⟩ := hm
    show (Semaphore.take y ms (s.k.emit (.call s.k.self (.take y ms)))).2.fault = _
    have hzero : ¬ (s.k.emit (.call s.k.self (.take y ms))).count y > 0 := by
      rw [show (s.k.emit (.call s.k.self (.take y ms))).count y = 0 from hcount]
      decide
    have hcur : (s.k.emit (.call s.k.self (.take y ms))).currentTask = none := hnone
    simp only [Semaphore.take, if_neg hms, if_neg hzero, hcur]
    exact hchecked hfault rfl rfl rfl
  · -- `lock`
    rename_i m
    obtain ⟨hfault, -, -, -, -, rfl⟩ := Sys.step_call.mp hs
    show (Mutex.lock m (s.k.emit (.call s.k.self (.lock m)))).2.fault = _
    have hcur : (s.k.emit (.call s.k.self (.lock m))).currentTask = none := hm
    simp only [Mutex.lock, hcur]
    exact hchecked hfault rfl rfl rfl
  · rename_i m
    obtain ⟨hfault, -, -, -, -, rfl⟩ := Sys.step_call.mp hs
    obtain ⟨hsome, hown⟩ := hm
    show (Mutex.lock m (s.k.emit (.call s.k.self (.lock m)))).2.fault = _
    obtain ⟨t, ht⟩ := Option.ne_none_iff_exists'.mp hsome
    have hcur : (s.k.emit (.call s.k.self (.lock m))).currentTask = some t := ht
    have howner : (s.k.emit (.call s.k.self (.lock m))).owner m = some t := hown.trans ht
    simp only [Mutex.lock, hcur, howner, if_true]
    exact hchecked hfault rfl rfl rfl
  · -- `unlock`
    rename_i m
    obtain ⟨hfault, -, -, -, -, rfl⟩ := Sys.step_call.mp hs
    show (Mutex.unlock m (s.k.emit (.call s.k.self (.unlock m)))).2.fault = _
    have hne : (s.k.emit (.call s.k.self (.unlock m))).currentTask ≠
        (s.k.emit (.call s.k.self (.unlock m))).owner m := hm
    simp only [Mutex.unlock, if_pos hne]
    exact hchecked hfault rfl rfl rfl
  · rename_i m
    obtain ⟨hfault, -, -, -, -, rfl⟩ := Sys.step_call.mp hs
    obtain ⟨hnone, hfree⟩ := hm
    show (Mutex.unlock m (s.k.emit (.call s.k.self (.unlock m)))).2.fault = _
    have hcur : (s.k.emit (.call s.k.self (.unlock m))).currentTask = none := hnone
    have howner : (s.k.emit (.call s.k.self (.unlock m))).owner m = none := hfree
    simp only [Mutex.unlock, hcur, howner, ne_eq, not_true_eq_false, if_false]
    show s.k.fault.or (some .nullDeref) = _
    rw [hfault]
    rfl
  · -- `send`
    rename_i q item ms
    obtain ⟨hfault, -, -, -, -, rfl⟩ := Sys.step_call.mp hs
    obtain ⟨hms, hfull, hnone⟩ := hm
    -- a full queue has no receivers
    have hnil : a.seq (.wait (.receivers q)) = [] := by
      refine List.eq_nil_iff_forall_not_mem.mpr fun t ht => ?_
      have hz := hi.starved.receivers q t (hi.wf.mem_wait.mp ht).2
      rw [hi.rep.core_eq, hz] at hfull
      exact absurd (a.config.capacity_pos q) (by omega)
    have hemit : Rep (s.k.emit (.call s.k.self (.send q item ms))) _ :=
      hi.rep.core (·.emit (.call s.k.self (.send q item ms)))
    have hrep := hemit.core (·.setFrame s.k.self fun f => { f with item := item })
    generalize hk : (s.k.emit (.call s.k.self (.send q item ms))).core
      (·.setFrame s.k.self fun f => { f with item := item }) = k at hrep
    have hcur : k.currentTask = none := by rw [← hk]; exact hnone
    have hfull' : ¬ (k.ring q).count < k.config.capacity q := by
      rw [← hk]
      exact Nat.not_lt.mpr (le_of_eq hfull.symm)
    have hf : k.fault = s.k.fault := by rw [← hk]; rfl
    have hconf : k.config = s.k.config := by rw [← hk]; rfl
    have hret : QueueCore.trySendLocked q k.self k = ((false, false), k) := by
      simp only [QueueCore.trySendLocked, hrep.wakeHighest_nil hnil, if_neg hfull']
    show (QueueCore.send q ms ((s.k.emit (.call s.k.self (.send q item ms))).core
      (·.setFrame s.k.self fun f => { f with item := item }))).2.fault = _
    rw [hk]
    simp only [QueueCore.send, hret, QueueCore.sendOrBlock, Bool.false_eq_true, if_false, if_neg hms,
      QueueCore.blockCurrentLocked, hcur]
    exact hchecked hfault rfl hf hconf
  · -- `receive`
    rename_i q ms
    obtain ⟨hfault, -, -, -, -, rfl⟩ := Sys.step_call.mp hs
    obtain ⟨hms, hzero, hnone⟩ := hm
    show (QueueCore.receive q ms (s.k.emit (.call s.k.self (.receive q ms)))).2.fault = _
    have hz : ((s.k.emit (.call s.k.self (.receive q ms))).ring q).count = 0 := hzero
    have hcur : (s.k.emit (.call s.k.self (.receive q ms))).currentTask = none := hnone
    simp only [QueueCore.receive, QueueCore.tryReceiveLocked, if_pos hz, QueueCore.sendOrBlock, Bool.false_eq_true,
      if_false, if_neg hms, QueueCore.blockCurrentLocked, hcur]
    exact hchecked hfault rfl rfl rfl
  · -- `wait_bits`
    rename_i g mask all clear ms
    obtain ⟨hfault, -, -, -, -, rfl⟩ := Sys.step_call.mp hs
    obtain ⟨hmask, hnone⟩ := hm
    have hcur : (s.k.emit (.call s.k.self (.waitBits g mask all clear ms))).currentTask = none := hnone
    simp only [Sys.beginCall, if_neg hmask, hcur]
    exact hchecked hfault rfl rfl rfl
  · -- `create_task`
    obtain ⟨y, f, p, hpc, hflag⟩ := hm
    have hfault := (Sys.step_advance.mp hs).1
    rw [advance_of_create hs hpc]
    show (s.k.check .createdTwice (!s.k.isCreated y)).fault = _
    rw [hflag]
    exact hchecked hfault rfl rfl rfl
  · obtain ⟨y, f, p, hpc, hp⟩ := hm
    have hfault := (Sys.step_advance.mp hs).1
    have hret : Scheduler.allocate p s.k = (none, s.k.check .priorityRange false) := by
      simp only [Scheduler.allocate, if_pos hp, decide_eq_false (Nat.not_lt.mpr hp)]
    rw [advance_of_create hs hpc]
    simp only [Sys.advanceCreate, hret]
    exact created_fault _ _ _ (hchecked hfault rfl rfl rfl)
  · obtain ⟨y, f, p, hpc, hp, hfull⟩ := hm
    have hfault := (Sys.step_advance.mp hs).1
    have htrue : s.k.check .priorityRange (decide (p < kMaxPriorities)) = s.k := by
      rw [decide_eq_true hp]
      exact Rep.check_true _ _
    have hret : Scheduler.allocate p s.k = (none, s.k.check .kMaxTasksTooSmall false) := by
      simp only [Scheduler.allocate, htrue, if_neg (Nat.not_le.mpr hp), Scheduler.allocateTcb,
        if_pos (show s.k.taskCount ≥ s.k.config.kMaxTasks from hfull), Option.isSome_none]
    rw [advance_of_create hs hpc]
    simp only [Sys.advanceCreate, hret]
    exact created_fault _ _ _ (hchecked hfault rfl rfl rfl)
  · exact hm.elim

/-- A call that breaks no rule that is checked stops nothing. -/
theorem Inv.tame_call (h : Inv s a) {c : Call} (hs : s.step (.call c) = some s') (hno : ∀ x, ¬ s.Stops (.call c) x) :
    s'.k.Tame := by
  obtain ⟨hfault, hcan, huser, -, -, rfl⟩ := Sys.step_call.mp hs
  have hoff : ∀ x, s.Misuses (.call c) x → s.k.config.useAssert = false := fun x hm => by
    by_contra hon
    exact hno x ⟨hm, Or.inr (by simpa using hon)⟩
  have hk : (s.k.emit (.call s.k.self c)).Tame := .of_none hfault
  have hmark : (Action.data (.mark (.call s.k.self c))).Enabled a := rfl
  have hwf : (a.core (·.emit (.call s.k.self c))).WF := h.wf.apply hmark
  have hst : (a.core (·.emit (.call s.k.self c))).Starved :=
    h.starved.apply h.wf hmark
  have hrep : Rep (s.k.emit (.call s.k.self c)) (a.core (·.emit (.call s.k.self c))) := h.rep.core _
  cases c with
  | createTask x f p => exact hk
  | start =>
    simp only [Sys.beginCall]
    split
    · rename_i hstarted
      exact hk.check (Or.inr (Or.inl (hoff (.assert .startedTwice) hstarted)))
    · exact hk
  | delayMs ms => exact hk.delayMs ms
  | delayUntil t => exact hk.delayUntil t
  | suspend t => cases t <;> exact hk
  | resume t =>
    cases t with
    | none => exact hk
    | some t =>
      refine hk.check ?_
      cases hin : s.k.delay.inDelayList t with
      | false => exact Or.inl (by simp [hin])
      | true => exact Or.inr (Or.inl (hoff (.assert .resumeInDelayList) hin))
  | terminate t => cases t <;> exact hk
  | yield => exact hk
  | take x ms => exact hk.take x ms (hoff (.assert .takeBeforeStart))
  | tryTake x => exact hk.tryTake x _
  | give x => exact hk.giveLocked x
  | lock m => exact hk.lock m (hoff (.assert .lockBeforeStart)) (hoff (.assert .lockOwnMutex))
  | unlock m =>
    refine hk.unlock m (hoff (.assert .unlockNotOwner)) fun hfree => ?_
    exact hno .nullDeref ⟨hfree, Or.inl rfl⟩
  | send q item ms =>
    have hrep' := hrep.core (·.setFrame s.k.self fun f => { f with item := item })
    have hframe : (Action.data (.frame s.k.self fun f => { f with item := item })).Enabled
      (a.core (·.emit (.call s.k.self (.send q item ms)))) := trivial
    have hwf' := hwf.apply hframe
    have hst' := hst.apply hwf hframe
    refine Core.Tame.sendOrBlock _ _ (.trySendLocked hrep' hwf' hst' q _ hk) fun hret hms hnone => ?_
    obtain ⟨hk', hfull⟩ := Core.Tame.refused_send hrep' hwf' hst' hret
    rw [hk'] at hnone ⊢
    exact hoff (.assert .queueBeforeStart) ⟨hms, hfull, hnone⟩
  | receive q ms =>
    refine Core.Tame.sendOrBlock _ _ (.tryReceiveLocked hrep hwf hst q _ hk) fun hret hms hnone => ?_
    obtain ⟨hk', hz⟩ := Core.Tame.refused_receive hret
    rw [hk'] at hnone ⊢
    exact hoff (.assert .queueBeforeStart) ⟨hms, hz, hnone⟩
  | waitBits g mask all clear ms =>
    simp only [Sys.beginCall]
    split
    · exact hk
    · rename_i hmask
      split
      · rename_i hnone
        exact hk.check (Or.inr (Or.inl (hoff (.assert .waitBitsBeforeStart) ⟨hmask, hnone⟩)))
      · exact hk
  | setBits g mask => exact hk.setBitsLocked g mask
  | clearBits g mask => exact hk
  | getBits g => exact hk
  | enterCritical => exact hk
  | exitCritical => exact hk

theorem Inv.tame_create (h : Inv s a) (hs : s.step .advance = some s') (hno : ∀ x, ¬ s.Stops .advance x)
    {phase : CreatePhase} {x : Site} {f : Callable} {p : Nat} (hpc : s.pc s.k.self = .create phase x f p) :
    s'.k.Tame := by
  have hfault := (Sys.step_advance.mp hs).1
  have hk : s.k.Tame := .of_none hfault
  have hoff : ∀ y, s.Misuses .advance y → s.k.config.useAssert = false := fun y hm => by
    by_contra hon
    exact hno y ⟨hm, Or.inr (by simpa using hon)⟩
  -- `start()` makes its task as the first one of its site, and there is room for it
  have hboots : x = idleSite → Boots s a s.k.self phase ∧ p = 0 := fun hx => by
    have hok := h.control.ok s.k.self
    rw [hpc] at hok
    exact hok.1 hx
  rw [advance_of_create hs hpc]
  cases phase with
  | assertFlag =>
    refine hk.check ?_
    cases hflag : s.k.isCreated x with
    | false => exact Or.inl rfl
    | true => exact Or.inr (Or.inl (hoff (.assert .createdTwice) ⟨x, f, p, hpc, hflag⟩))
  | testFlag =>
    simp only [Sys.advanceCreate]
    split
    · rename_i hflag
      refine hk.created _ _ _ _ fun hx => ?_
      have hfree := (hboots hx).1.flag rfl
      rw [h.rep.core_eq, hx, hfree] at hflag
      cases hflag
    · exact hk
  | setFlag => exact hk
  | copy => exact hk
  | alloc =>
    have hnext := hk.allocate p (fun hp => hoff (.assert .priorityRange) ⟨x, f, p, hpc, hp⟩)
      fun hp hfull => hoff (.assert .kMaxTasksTooSmall) ⟨x, f, p, hpc, hp, hfull⟩
    simp only [Sys.advanceCreate]
    split
    · rename_i hnone
      refine hnext.created _ _ _ _ fun hx => ?_
      obtain ⟨hb, rfl⟩ := hboots hx
      have hroom := hb.room rfl
      rw [← h.rep.core_eq] at hroom
      have hsome := Core.Tame.allocate_isSome (p := 0) (by decide) hroom
      rw [hnone] at hsome
      cases hsome
    · exact hnext
  | init t => exact hk
  | ready t =>
    have hready : (Scheduler.addToReadyQueue t s.k).Tame := Core.Tame.add (k := s.k.setTask t _) t hk
    simp only [Sys.advanceCreate]
    split <;> exact hready
  | preempt t =>
    have hdone := hk.created s.k.self x (some t) s fun _ => rfl
    simp only [Sys.advanceCreate]
    split <;> exact hdone

theorem Inv.tame_advance (h : Inv s a) (hs : s.step .advance = some s') (hno : ∀ x, ¬ s.Stops .advance x) :
    s'.k.Tame := by
  by_cases hcreate : ∃ phase x f p, s.pc s.k.self = .create phase x f p
  · obtain ⟨phase, x, f, p, hpc⟩ := hcreate
    exact h.tame_create hs hno hpc
  obtain ⟨hfault, -, hgo⟩ := Sys.step_advance.mp hs
  have hk : s.k.Tame := .of_none hfault
  unfold Sys.advance at hgo
  cases hpc : s.pc s.k.self with
  | create phase x f p => exact absurd ⟨phase, x, f, p, hpc⟩ hcreate
  | suspendBody t =>
    simp only [hpc] at hgo
    cases hgo
    exact hk.suspendTask t
  | resumeBody t =>
    simp only [hpc] at hgo
    cases hgo
    exact hk.resumeTask t
  | deleteBody t =>
    simp only [hpc] at hgo
    cases hgo
    exact hk.deleteTask t
  | waitBody g mask all clear ms =>
    simp only [hpc] at hgo
    split at hgo <;> cases hgo
    exact hk.waitBits g mask all clear ms _
  | finish w =>
    simp only [hpc] at hgo
    split at hgo <;> cases hgo
    exact hk
  | user => simp [hpc] at hgo
  | halted => simp [hpc] at hgo
  | _ =>
    simp only [hpc] at hgo
    cases hgo
    exact hk

theorem Inv.tame_isr (h : Inv s a) {c : IsrCall} {y : Bool} (hs : s.step (.isr c y) = some s') : s'.k.Tame := by
  obtain ⟨hfault, -, -, -, rfl⟩ := Sys.step_isr.mp hs
  have hk : (s.k.emit (.isrCall c)).Tame := .of_none hfault
  have hmark : (Action.data (.mark (.isrCall c))).Enabled a := rfl
  have hwf : (a.core (·.emit (.isrCall c))).WF := h.wf.apply hmark
  have hst : (a.core (·.emit (.isrCall c))).Starved := h.starved.apply h.wf hmark
  have hrep : Rep (s.k.emit (.isrCall c)) (a.core (·.emit (.isrCall c))) := h.rep.core _
  cases c with
  | tryTakeFromIsr x => exact hk.tryTake x .isr
  | giveFromIsr x => exact hk.giveLocked x
  | sendFromIsr q item =>
    have hrep' := hrep.core (·.setFrame .isr fun f => { f with item := item })
    have hframe : (Action.data (.frame .isr fun f => { f with item := item })).Enabled
      (a.core (·.emit (.isrCall (.sendFromIsr q item)))) := trivial
    exact Core.Tame.trySendLocked hrep' (hwf.apply hframe) (hst.apply hwf hframe) q .isr hk
  | receiveFromIsr q => exact Core.Tame.tryReceiveLocked hrep hwf hst q .isr hk
  | setBitsFromIsr g mask => exact hk.setBitsLocked g mask

/-! ### Runs -/

/-- The machine stops in a step exactly when the step breaks a rule and the build checks it, and then with that
assertion; or when it unlocks a free mutex before `start()`. So no assertion about lists, priorities, rings, stacks or
the idle task ever fails, no other null pointer is followed, and every loop of the kernel ends. -/
theorem stops_iff_misused (h : Reachable config s) (hs : s.step e = some s') (x : Fault) :
    s'.k.fault = some x ↔ s.Misuses e x ∧ (x = .nullDeref ∨ config.useAssert = true) := by
  obtain ⟨a, htracks⟩ := h.tracks
  have hi := htracks.inv
  have hconfig : s.k.config = config := by
    rw [hi.rep.core_eq]
    exact htracks.config_eq
  rw [← hconfig]
  refine ⟨fun hx => ?_, fun hx => hi.stops hx hs⟩
  by_contra hnot
  have hnone : ∀ y, ¬ s.Stops e y := fun y hy => by
    obtain rfl : x = y := Option.some.inj (hx.symm.trans (hi.stops hy hs))
    exact hnot hy
  have htame : s'.k.Tame := by
    cases e with
    | call c => exact hi.tame_call hs hnone
    | advance => exact hi.tame_advance hs hnone
    | tick =>
      obtain ⟨hfault, -, -, rfl⟩ := Sys.step_tick.mp hs
      exact (Core.Tame.of_none hfault : s.k.Tame).tick
    | isr c y => exact hi.tame_isr hs
    | pendSV psp =>
      obtain ⟨hfault, -, -, rfl⟩ := Sys.step_pendSV.mp hs
      exact (Core.Tame.of_none hfault : s.k.Tame).pendSV psp fun t ht => h.stackIntact ht
  have hexpected := (h.step e hs).fault_expected hx
  rw [htame x hx] at hexpected
  cases hexpected

/-- A task gives its mutex back twice. -/
def Sys.unlockTwiceRun : List Event :=
  createRun 1 3 ++ startRun ++ [.call (.lock 0), .advance, .call (.unlock 0), .advance]

theorem stops_iff_misused_unlock : ∃ s s', Sys.run (Sys.init .small) Sys.unlockTwiceRun = some s ∧
    s.step (.call (.unlock 0)) = some s' ∧ s'.k.fault = some (.assert .unlockNotOwner) := by
  have hrun : ((Sys.init .small).run Sys.unlockTwiceRun).map (fun s => (s.k.currentTask, s.k.owner 0)) =
      some (some 0, none) := by decide +kernel
  have hstep : ((Sys.init .small).run Sys.unlockTwiceRun).map (fun s => (s.step (.call (.unlock 0))).isSome) =
      some true := by decide +kernel
  obtain ⟨s, hs, hstate⟩ := Option.map_eq_some_iff.mp hrun
  rw [hs, Option.map_some, Option.some.injEq] at hstep
  obtain ⟨s', hs'⟩ := Option.isSome_iff_exists.mp hstep
  obtain ⟨hcur, hown⟩ := Prod.mk.inj hstate
  have hmisuse : s.Misuses (.call (.unlock 0)) (.assert .unlockNotOwner) := by
    show s.k.currentTask ≠ s.k.owner 0
    rw [hcur, hown]
    decide
  exact ⟨s, s', hs, hs', (stops_iff_misused (Reachable.init.run hs) hs' _).mpr ⟨hmisuse, Or.inr rfl⟩⟩

end

end AcRtos
