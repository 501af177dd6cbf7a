import AcRtos.Sections

/-!
# What a critical section writes

Few places write into the history and into the buffers of the callers: those where a token, an item or event
bits change hands. The list operations, the scheduler and the mutexes leave both alone, and the stacks of the
tasks too (`Core.Still`). `Core.Writes c own` is what a whole section does: it adds entries to the history that
mark nothing, and those of its own context `c` are `own`.
-/

namespace AcRtos

/-- History, buffers and stacks are left alone. -/
structure Core.Still (e e' : Core) : Prop where
  config : e'.config = e.config
  currentTask : e'.currentTask = e.currentTask
  frame : e'.frame = e.frame
  trace : e'.trace = e.trace
  storage : e'.storage = e.storage
  stackBase : ∀ t, (e'.tcb t).stackBase = (e.tcb t).stackBase

/-- The history grows by entries that mark nothing, `own` being those of `c`; the stacks are left alone. -/
structure Core.Writes (c : Ctx) (own : List Obs) (e e' : Core) : Prop where
  trace : ∃ os, e'.trace = e.trace ++ os ∧ (∀ o ∈ os, o.isMark = false) ∧
    os.filter (fun o => o.ctx == some c) = own
  storage : e'.storage = e.storage
  stackBase : ∀ t, (e'.tcb t).stackBase = (e.tcb t).stackBase

namespace Core

variable {e e' e'' : Core} {c : Ctx} {own own' : List Obs}

theorem Still.refl (e : Core) : e.Still e := ⟨rfl, rfl, rfl, rfl, rfl, fun _ => rfl⟩

theorem Still.trans (h : e.Still e') (h' : e'.Still e'') : e.Still e'' :=
  ⟨h'.config.trans h.config, h'.currentTask.trans h.currentTask, h'.frame.trans h.frame, h'.trace.trans h.trace,
    h'.storage.trans h.storage, fun t => (h'.stackBase t).trans (h.stackBase t)⟩

theorem Still.self (h : e.Still e') : e'.self = e.self := by
  unfold Core.self
  rw [h.currentTask]

theorem Still.writes (h : e.Still e') (c : Ctx) : e.Writes c [] e' :=
  ⟨⟨[], by rw [h.trace, List.append_nil], by simp, rfl⟩, h.storage, h.stackBase⟩

theorem Writes.trans (h : e.Writes c own e') (h' : e'.Writes c own' e'') : e.Writes c (own ++ own') e'' := by
  obtain ⟨os, htrace, hmark, hown⟩ := h.trace
  obtain ⟨os', htrace', hmark', hown'⟩ := h'.trace
  refine ⟨⟨os ++ os', ?_, ?_, ?_⟩, h'.storage.trans h.storage, fun t => (h'.stackBase t).trans (h.stackBase t)⟩
  · rw [htrace', htrace, List.append_assoc]
  · intro o ho
    rcases List.mem_append.mp ho with ho | ho
    · exact hmark o ho
    · exact hmark' o ho
  · rw [List.filter_append, hown, hown']

theorem Still.writes_trans (h : e.Still e') (h' : e'.Writes c own e'') : e.Writes c own e'' := by
  simpa using (h.writes c).trans h'

theorem Writes.still (h : e.Writes c own e') (h' : e'.Still e'') : e.Writes c own e'' := by
  simpa using h.trans (h'.writes c)

theorem Writes.talk (h : e.Writes c own e') : talk c e'.trace = (talk c e.trace).add own := by
  obtain ⟨os, htrace, hmark, hown⟩ := h.trace
  rw [htrace, talk_append_add fun o ho _ => hmark o ho, hown]

end Core

/-! ### The scheduler -/

namespace Core.Still

variable {e : Core} {k : Kernel}

theorem setTask {t : Tid} {f : TaskControlBlock → TaskControlBlock}
    (hf : (f (k.tcb t)).stackBase = (k.tcb t).stackBase) (h : e.Still k.toCore) :
    e.Still (k.setTask t f).toCore := by
  refine h.trans ⟨rfl, rfl, rfl, rfl, rfl, fun u => ?_⟩
  by_cases hu : u = t
  · subst hu
    simpa using hf
  · simp [Function.update_of_ne hu]

theorem fail (x : Fault) (h : e.Still k.toCore) : e.Still (k.fail x).toCore :=
  h.trans ⟨rfl, rfl, rfl, rfl, rfl, fun _ => rfl⟩

theorem check (x : Assertion) (b : Bool) (h : e.Still k.toCore) : e.Still (k.check x b).toCore := by
  rw [Kernel.check_eq, Kernel.core_toCore, Core.check]
  split
  · exact h.fail _
  · exact h

theorem setOwner (m : MutexId) (o : Option Tid) (h : e.Still k.toCore) :
    e.Still (k.core (·.setOwner m o)).toCore :=
  h.trans ⟨rfl, rfl, rfl, rfl, rfl, fun _ => rfl⟩

theorem setLinks (l : TaskLinks) (h : e.Still k.toCore) : e.Still (k.setLinks l).toCore := h

theorem setDelay (d : DelayLinks) (h : e.Still k.toCore) : e.Still (k.setDelay d).toCore := h

theorem setHeld (x : HeldLinks) (h : e.Still k.toCore) : e.Still (k.setHeld x).toCore := h

theorem add (t : Tid) (h : e.Still k.toCore) : e.Still (ReadyManager.add t k).toCore := h.check _ _

theorem dropEmptyBit (p : Nat) (h : e.Still k.toCore) : e.Still (ReadyManager.dropEmptyBit p k).toCore := by
  unfold ReadyManager.dropEmptyBit
  split <;> exact h

theorem remove (t : Tid) (h : e.Still k.toCore) : e.Still (ReadyManager.remove t k).toCore :=
  dropEmptyBit _ (h.setLinks _)

theorem getHighestPriorityTask (h : e.Still k.toCore) :
    e.Still (ReadyManager.getHighestPriorityTask k).2.toCore := by
  unfold ReadyManager.getHighestPriorityTask
  split
  · exact h
  · exact dropEmptyBit _ (h.setLinks _)

theorem insertWaiter (w : WaitId) (t : Tid) (h : e.Still k.toCore) :
    e.Still (Scheduler.insertWaiter w t k).toCore := by
  unfold Scheduler.insertWaiter
  split
  · exact h
  · exact h.fail _

theorem delayInsert (t : Tid) (ticks : TickType) (h : e.Still k.toCore) :
    e.Still (Scheduler.delayInsert t ticks k).toCore := by
  unfold Scheduler.delayInsert
  simp only
  split
  · exact setDelay _ (h.check _ _)
  · exact fail _ (h.check _ _)

theorem wakeHighest (w : WaitId) (h : e.Still k.toCore) : e.Still (WaitQueue.wakeHighest w k).2.toCore := by
  unfold WaitQueue.wakeHighest
  simp only
  split
  · exact h
  · exact setDelay _ (setTask rfl (h.setLinks _))

theorem makeTaskReady (t : Tid) (h : e.Still k.toCore) : e.Still (Scheduler.makeTaskReady t k).2.toCore := by
  unfold Scheduler.makeTaskReady
  split
  · exact h
  · exact add t (h.setTask rfl)

theorem setTaskPriority (t : Tid) (p : Nat) (h : e.Still k.toCore) :
    e.Still (Scheduler.setTaskPriority t p k).toCore := by
  have hcheck := h.check .setPriorityRange (decide (p < kMaxPriorities))
  unfold Scheduler.setTaskPriority
  simp only
  split
  · exact hcheck
  · split
    · exact add t (setTask rfl (hcheck.remove t))
    · split
      · exact insertWaiter _ t (setLinks _ (hcheck.setTask rfl))
      · exact hcheck.setTask rfl

theorem park (w : WaitId) (t : Tid) (h : e.Still k.toCore) : e.Still (WaitQueue.park w t k).toCore :=
  insertWaiter w t (setTask rfl (h.check _ _))

theorem startTimeout (t : Tid) (ms : TickType) (h : e.Still k.toCore) :
    e.Still (WaitQueue.startTimeout t ms k).toCore := by
  unfold WaitQueue.startTimeout
  split
  · exact h
  · exact h.delayInsert t _

theorem unlink (t : Tid) (h : e.Still k.toCore) : e.Still (Scheduler.unlink t k).toCore := by
  unfold Scheduler.unlink
  split
  · exact h.remove t
  · unfold Scheduler.unlinkBlocked
    simp only
    split
    · exact setDelay _ (setTask rfl (h.setLinks _))
    · exact h.setDelay _
  · exact h

theorem suspendTask (t : Tid) (h : e.Still k.toCore) : e.Still (Scheduler.suspendTask t k).2.toCore := by
  unfold Scheduler.suspendTask
  split
  · exact h
  · exact setTask rfl (h.unlink t)

theorem deleteTask (t : Tid) (h : e.Still k.toCore) : e.Still (Scheduler.deleteTask t k).2.toCore :=
  setTask rfl (h.unlink t)

theorem resumeTask (t : Tid) (h : e.Still k.toCore) : e.Still (Scheduler.resumeTask t k).2.toCore := by
  unfold Scheduler.resumeTask
  split
  · exact h
  · exact add t (h.setTask rfl)

theorem delayMs (ms : TickType) (h : e.Still k.toCore) : e.Still (Scheduler.delayMs ms k).2.toCore := by
  unfold Scheduler.delayMs
  simp only
  split
  · exact h
  · split
    · exact h
    · exact delayInsert _ _ (h.setTask rfl)

theorem delayUntil (wakeTime : TickType) (h : e.Still k.toCore) :
    e.Still (Scheduler.delayUntil wakeTime k).2.toCore := by
  unfold Scheduler.delayUntil
  simp only
  split
  · exact h
  · split
    · exact h
    · exact delayInsert _ _ (h.setTask rfl)

theorem expire (t : Tid) (h : e.Still k.toCore) : e.Still (Scheduler.expire t k).toCore := by
  unfold Scheduler.expire
  refine add t (setTask rfl ?_)
  split
  · exact setTask rfl (setLinks _ (h.setDelay _))
  · exact h.setDelay _

theorem expireLoop (fuel : Nat) (h : e.Still k.toCore) : e.Still (Scheduler.expireLoop fuel k).toCore := by
  induction fuel generalizing k with
  | zero =>
    unfold Scheduler.expireLoop
    split
    · exact h
    · split
      · exact h.fail _
      · exact h
  | succ fuel ih =>
    unfold Scheduler.expireLoop
    split
    · exact h
    · split
      · exact ih (h.expire _)
      · exact h

theorem tick (h : e.Still k.toCore) : e.Still (Scheduler.tick k).2.toCore := by
  refine expireLoop _ (setDelay _ ?_)
  exact h.trans ⟨rfl, rfl, rfl, rfl, rfl, fun _ => rfl⟩

theorem putBack (h : e.Still k.toCore) : e.Still (Scheduler.putBack k).toCore := by
  unfold Scheduler.putBack
  split
  · exact h
  · have hsaved := fun t sp => setTask (t := t) (f := fun c => { c with sp := sp }) rfl
      (h.check .stackOverflow (Scheduler.stackIntact t k.toCore))
    simp only
    split
    · exact add _ (setTask rfl (hsaved _ _))
    · exact hsaved _ _

/-! ### Mutexes -/

theorem handOff (m : MutexId) (h : e.Still k.toCore) : e.Still (Mutex.handOff m k).2.toCore := by
  unfold Mutex.handOff
  simp only
  split
  · exact makeTaskReady _ (setHeld _ (setOwner _ _ (h.wakeHighest _)))
  · exact setOwner _ _ (h.wakeHighest _)

theorem restorePriority (t : Tid) (b : Bool) (h : e.Still k.toCore) :
    e.Still (Mutex.restorePriority t b k).2.toCore := by
  unfold Mutex.restorePriority
  split
  · exact h.fail _
  · split
    · exact h.setTaskPriority _ _
    · exact h

theorem unlock (m : MutexId) (h : e.Still k.toCore) : e.Still (Mutex.unlock m k).2.toCore := by
  unfold Mutex.unlock
  split
  · exact h.check _ _
  · split
    · exact h.fail _
    · refine restorePriority _ _ (handOff m ?_)
      split
      · exact h.setHeld _
      · exact h.fail _

end Core.Still

theorem pendSV_writes (psp : Nat) (c : Ctx) (k : Kernel) : k.Writes c [] (Scheduler.pendSV psp k).toCore := by
  have hstore : k.Still (if psp = 0 then k else k.core fun e => { e with currentSp := .psp psp }).toCore := by
    split
    · exact .refl _
    · exact ⟨rfl, rfl, rfl, rfl, rfl, fun _ => rfl⟩
  have hpicked := (hstore.putBack).getHighestPriorityTask
  unfold Scheduler.pendSV Scheduler.scheduleNextTask
  simp only
  split
  · rename_i next _
    have hrun := hpicked.setTask (t := next) (f := fun c => { c with state := .running }) rfl
    exact ⟨(hrun.writes c).trace, hrun.storage, hrun.stackBase⟩
  · exact (hpicked.check _ _).writes c

/-! ### Semaphores -/

/-- The context `c` is on no wait list. -/
def Core.Free (e : Core) (c : Ctx) : Prop := ∀ t, c = .task t → (e.tcb t).waitList = none

open AcRtos.Core Abs

theorem Core.Free.ne {e : Core} {c : Ctx} {t : Tid} {w : WaitId} (h : e.Free c) (hw : (e.tcb t).waitList = some w) :
    Ctx.task t ≠ c := by
  rintro rfl
  rw [h t rfl] at hw
  cases hw

section
variable {k : Kernel} {a : Abs} {c : Ctx}

theorem tryTake_writes (s : SemId) (c : Ctx) (k : Kernel) :
    k.Writes c (if (Semaphore.tryTake s c k).1 then [.semTake s c] else []) (Semaphore.tryTake s c k).2.toCore := by
  unfold Semaphore.tryTake
  split
  · exact (Still.refl _).writes c
  · refine ⟨⟨[.semTake s c], rfl, ?_, ?_⟩, rfl, fun _ => rfl⟩
    · simp [Obs.isMark]
    · simp [Obs.ctx]

theorem giveLocked_writes (h : Rep k a) (hwf : a.WF) (hc : a.Free c) (s : SemId) :
    k.Writes c [] (Semaphore.giveLocked s k).2.toCore := by
  unfold Semaphore.giveLocked
  cases hseq : a.seq (.wait (.sem s)) with
  | nil =>
    rw [h.wakeHighest_nil hseq]
    simp only
    split
    · exact ⟨⟨[.semGive s], rfl, by simp [Obs.isMark], by simp [Obs.ctx]⟩, rfl, fun _ => rfl⟩
    · exact ⟨⟨[.semDrop s], rfl, by simp [Obs.isMark], by simp [Obs.ctx]⟩, rfl, fun _ => rfl⟩
  | cons t xs =>
    have hw := (hwf.mem_wait (t := t)).mp (by rw [hseq]; exact List.mem_cons_self)
    have hne := hc.ne hw.2
    have hwake : k.Still (WaitQueue.wakeHighest (.sem s) k).2.toCore := (Still.refl _).wakeHighest _
    simp only [(h.wakeHighest hseq).1]
    have hhand : k.Writes c [] ((WaitQueue.wakeHighest (.sem s) k).2.emit (.semHand s t)).toCore :=
      hwake.writes_trans ⟨⟨[.semHand s t], rfl, by simp [Obs.isMark], by simp [Obs.ctx, hne]⟩, rfl,
        fun _ => rfl⟩
    exact hhand.still (Still.makeTaskReady t (.refl _))

/-! ### Queues -/

theorem trySendLocked_writes (h : Rep k a) (hwf : a.WF) (hs : a.Starved) {p : Ctx} (hp : a.Free p) (q : QueueId) :
    ((QueueCore.trySendLocked q p k).1.1 = false ∧ (QueueCore.trySendLocked q p k).2 = k) ∨
    ((QueueCore.trySendLocked q p k).1.1 = true ∧
      k.Writes p [.accept q p (copyBytes (a.config.itemSize q) (a.frame p).item)]
        (QueueCore.trySendLocked q p k).2.toCore) := by
  unfold QueueCore.trySendLocked
  cases hseq : a.seq (.wait (.receivers q)) with
  | nil =>
    rw [h.wakeHighest_nil hseq]
    simp only
    split
    · refine Or.inr ⟨rfl, ⟨⟨_, rfl, by simp [Obs.isMark], ?_⟩, rfl, fun _ => rfl⟩⟩
      rw [h.core_eq]
      simp [Obs.ctx]
    · exact Or.inl ⟨rfl, rfl⟩
  | cons t xs =>
    have hw := ((hwf.mem_wait (t := t)).mp (by rw [hseq]; exact List.mem_cons_self)).2
    have hne := hp.ne hw
    obtain ⟨hfst, hrep⟩ := h.wakeHighest hseq
    have hwake : k.Still (WaitQueue.wakeHighest (.receivers q) k).2.toCore := (Still.refl _).wakeHighest _
    generalize hk : (WaitQueue.wakeHighest (.receivers q) k) = r at hfst hrep hwake
    obtain ⟨o, k₁⟩ := r
    obtain rfl : o = some t := hfst
    have hchecked := hwake.check .handoffNotEmpty (decide ((k₁.ring q).count = 0))
    have hx : (((k₁.check .handoffNotEmpty (decide ((k₁.ring q).count = 0))).tcb t).xferPtr) = some (.task t) := by
      have hcheck : (k₁.check .handoffNotEmpty (decide ((k₁.ring q).count = 0))).tcb = k₁.tcb := by
        rw [Kernel.check_eq, Kernel.core_toCore, Core.check]
        split <;> rfl
      rw [hcheck, hrep.core_eq]
      simp only [detach, Abs.setSleepers, Abs.leave, core_toCore, Core.setTask_tcb, Function.update_self]
      exact hs.xfer t _ hw rfl
    refine Or.inr ⟨rfl, ?_⟩
    simp only
    generalize k₁.check .handoffNotEmpty (decide ((k₁.ring q).count = 0)) = k₂ at hchecked hx ⊢
    show k.Writes p _ (Scheduler.makeTaskReady t (k₂.core (QueueCore.handOver q p t))).2.toCore
    have hhand : k₂.Writes p [.accept q p (copyBytes (a.config.itemSize q) (a.frame p).item)]
        (k₂.core (QueueCore.handOver q p t)).toCore := by
      rw [Kernel.core_toCore, QueueCore.handOver, hx]
      refine ⟨⟨_, List.append_assoc _ _ _, by simp [Obs.isMark], ?_⟩, rfl, fun _ => rfl⟩
      rw [hchecked.config, hchecked.frame, h.core_eq]
      simp [Obs.ctx, hne]
    exact (hchecked.writes_trans hhand).still (Still.makeTaskReady t (.refl _))

theorem tryReceiveLocked_writes (h : Rep k a) (hwf : a.WF) (hs : a.Starved) {p : Ctx} (hp : a.Free p) (q : QueueId) :
    ((QueueCore.tryReceiveLocked q p k).1.1 = false ∧ (QueueCore.tryReceiveLocked q p k).2 = k) ∨
    ((QueueCore.tryReceiveLocked q p k).1.1 = true ∧
      ∃ x, k.Writes p [.deliver q p x] (QueueCore.tryReceiveLocked q p k).2.toCore ∧
        ((QueueCore.tryReceiveLocked q p k).2.frame p).item = x) := by
  unfold QueueCore.tryReceiveLocked
  split
  · exact Or.inl ⟨rfl, rfl⟩
  refine Or.inr ⟨rfl, ((k.ring q).popRaw (k.config.itemSize q) (k.config.capacity q)).1, ?_⟩
  simp only
  have hpop : k.Writes p [.deliver q p ((k.ring q).popRaw (k.config.itemSize q) (k.config.capacity q)).1]
      (k.core (QueueCore.popTo q p)).toCore :=
    ⟨⟨[_], rfl, by simp [Obs.isMark], by simp [Obs.ctx]⟩, rfl, fun _ => rfl⟩
  have hframe : ((k.core (QueueCore.popTo q p)).frame p).item =
      ((k.ring q).popRaw (k.config.itemSize q) (k.config.capacity q)).1 := by
    simp [QueueCore.popTo]
  have hrep := h.core (QueueCore.popTo q p)
  unfold QueueCore.backFill
  cases hseq : a.seq (.wait (.senders q)) with
  | nil =>
    rw [hrep.wakeHighest_nil hseq]
    exact ⟨hpop, hframe⟩
  | cons t xs =>
    have hw := ((hwf.mem_wait (t := t)).mp (by rw [hseq]; exact List.mem_cons_self)).2
    have hne := hp.ne hw
    obtain ⟨hfst, hrep₁⟩ := hrep.wakeHighest hseq
    have hwake : (k.core (QueueCore.popTo q p)).Still
        (WaitQueue.wakeHighest (.senders q) (k.core (QueueCore.popTo q p))).2.toCore := (Still.refl _).wakeHighest _
    generalize WaitQueue.wakeHighest (.senders q) (k.core (QueueCore.popTo q p)) = r at hfst hrep₁ hwake
    obtain ⟨o, k₁⟩ := r
    obtain rfl : o = some t := hfst
    have hx : (k₁.tcb t).xferPtr = some (.task t) := by
      rw [hrep₁.core_eq]
      simp only [detach, Abs.setSleepers, Abs.leave, core_toCore, Core.setTask_tcb, Function.update_self]
      exact hs.xfer t _ hw rfl
    have hpush : k₁.Writes p [] (k₁.core (QueueCore.pushOf q t)).toCore := by
      rw [Kernel.core_toCore, QueueCore.pushOf, hx]
      exact ⟨⟨[_], rfl, by simp [Obs.isMark], by simp [Obs.ctx, hne]⟩, rfl, fun _ => rfl⟩
    have hframe₁ : (k₁.core (QueueCore.pushOf q t)).frame = k₁.frame := by
      rw [Kernel.core_toCore, QueueCore.pushOf, hx]
      rfl
    have hready : (k₁.core (QueueCore.pushOf q t)).Still
        (Scheduler.makeTaskReady t (k₁.core (QueueCore.pushOf q t))).2.toCore := Still.makeTaskReady t (.refl _)
    refine ⟨?_, ?_⟩
    · simpa using ((hpop.still hwake).trans hpush).still hready
    · show ((Scheduler.makeTaskReady t (k₁.core (QueueCore.pushOf q t))).2.frame p).item = _
      rw [hready.frame, hframe₁, hwake.frame, hframe]

/-! ### Event groups -/

theorem consume_writes (g : EventId) (c : Ctx) (mask : BitVec 32) (clear : Bool) (e : Core) :
    e.Writes c [.bitsRead g c (e.currentBits g)
      (if clear then e.currentBits g &&& ~~~mask else e.currentBits g)] (EventGroup.consume g c mask clear e) := by
  cases clear with
  | true => exact ⟨⟨[_], rfl, by simp [Obs.isMark], by simp [Obs.ctx]⟩, rfl, fun _ => rfl⟩
  | false => exact ⟨⟨[_], rfl, by simp [Obs.isMark], by simp [Obs.ctx]⟩, rfl, fun _ => rfl⟩

end

end AcRtos
