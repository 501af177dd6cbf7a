import AcRtos.Lists

/-!
# The scheduler

`ReadyManager`, `DelayList::tick` and the critical sections of `Scheduler` (`scheduler.cpp`, `task.cpp`).
Code outside a critical section (the tests before it, `task_yield()` after it) is in `Machine.lean`.
-/

namespace AcRtos

/-! ### Ready lists -/

namespace ReadyManager

/-- `ReadyManager::add`. -/
def add (task : Tid) (k : Kernel) : Kernel :=
  let prio := (k.tcb task).priority
  let k := k.check .addPriorityRange (decide (prio < kMaxPriorities))
  let k := k.setLinks (TaskList.pushBack (.ready prio) task k.links)
  k.setMask (k.readyBitmask ||| (1#32 <<< prio))

/-- The last two lines of `remove` and `get_highest_priority_task`. -/
def dropEmptyBit (prio : Nat) (k : Kernel) : Kernel :=
  if (k.links.list (.ready prio)).head = none then
    k.setMask (k.readyBitmask &&& ~~~(1#32 <<< prio))
  else k

/-- `ReadyManager::remove`. -/
def remove (task : Tid) (k : Kernel) : Kernel :=
  let prio := (k.tcb task).priority
  dropEmptyBit prio (k.setLinks (TaskList.remove (.ready prio) task k.links))

/-- `31 - __builtin_clz(mask)`. -/
def topPriority (mask : BitVec 32) : Nat := 31 - mask.clz.toNat

/-- `ReadyManager::get_highest_priority_task`. -/
def getHighestPriorityTask (k : Kernel) : Option Tid × Kernel :=
  if k.readyBitmask = 0 then (none, k)
  else
    let top := topPriority k.readyBitmask
    let popped := TaskList.popFront (.ready top) k.links
    (popped.1, dropEmptyBit top (k.setLinks popped.2))

end ReadyManager

namespace Scheduler

/-! ### Dispatching -/

/-- `prev_task->stack_base[0] == kStackCanary`. -/
def stackIntact (t : Tid) (e : Core) : Bool :=
  match (e.tcb t).stackBase with
  | some site => decide ((e.storage site).word0 = kStackCanary)
  | none => false

/-- The first half of `schedule_next_task`: the outgoing task, if it still runs, goes back to the end of
its ready list. -/
def putBack (k : Kernel) : Kernel :=
  match k.currentTask with
  | none => k
  | some prev =>
      let k := k.check .stackOverflow (stackIntact prev k.toCore)
      let k := k.setTask prev fun c => { c with sp := k.currentSp }
      if (k.tcb prev).state = .running then
        ReadyManager.add prev (k.setTask prev fun c => { c with state := .ready })
      else k

/-- The second half of `schedule_next_task`. -/
def switchTo (next : Tid) (k : Kernel) : Kernel :=
  let k := k.setTask next fun c => { c with state := .running }
  k.core fun e => { e with currentTask := some next, currentSp := (e.tcb next).sp }

def scheduleNextTask (k : Kernel) : Kernel :=
  let picked := ReadyManager.getHighestPriorityTask (putBack k)
  match picked.1 with
  | some next => switchTo next picked.2
  | none => picked.2.check .readyQueueEmpty false

/-- `PendSV_Handler`: PSP is stored into `current_sp` unless it is still 0. -/
def pendSV (psp : Nat) (k : Kernel) : Kernel :=
  scheduleNextTask (if psp = 0 then k else k.core fun e => { e with currentSp := .psp psp })

/-! ### Task creation -/

/-- `Scheduler::allocate_tcb`. -/
def allocateTcb (k : Kernel) : Option Tid × Kernel :=
  if k.taskCount ≥ k.config.kMaxTasks then (none, k)
  else
    let t := k.taskCount
    let k := k.core fun e => { e with taskCount := t + 1 }
    let k := k.setTask t fun c => { c with state := .suspended, waitList := none }
    (some t, k.setLinks ((k.links.setPrev t none).setNext t none))

/-- `create_task_impl` up to the allocation. -/
def allocate (priority : Nat) (k : Kernel) : Option Tid × Kernel :=
  let k := k.check .priorityRange (decide (priority < kMaxPriorities))
  if priority ≥ kMaxPriorities then (none, k)
  else
    let r := allocateTcb k
    (r.1, r.2.check .kMaxTasksTooSmall r.1.isSome)

/-- `create_task_impl` between its two critical sections: the stack and the priorities. -/
def initTcb (t : Tid) (site : Site) (priority : Nat) (k : Kernel) : Kernel :=
  let k := k.core (·.setStorage site fun x => { x with word0 := kStackCanary, frame := some site })
  k.setTask t fun c =>
    { c with stackBase := some site, sp := .initial site, priority := priority, basePriority := priority }

/-- `Scheduler::add_to_ready_queue`. -/
def addToReadyQueue (t : Tid) (k : Kernel) : Kernel :=
  ReadyManager.add t (k.setTask t fun c => { c with state := .ready })

/-! ### Delays -/

/-- `delay_list_.insert`. -/
def delayInsert (t : Tid) (ticks : TickType) (k : Kernel) : Kernel :=
  let k := k.check .alreadyDelayed (!k.delay.inDelayList t)
  match DelayList.insert k.config.kMaxTasks t ticks k.delay with
  | some d => k.setDelay d
  | none => k.fail .endlessLoop

/-- `Scheduler::delay_until`. -/
def delayUntil (wakeTime : TickType) (k : Kernel) : Outcome × Kernel :=
  match k.currentTask with
  | none => (.ret .unit false, k)
  | some t =>
      let remaining := wakeTime - k.tickCount
      if remaining.toInt ≤ 0 then (.ret .unit false, k)
      else
        let k := k.setTask t fun c => { c with state := .blocked }
        (.ret .unit true, delayInsert t remaining k)

/-- `Scheduler::delay_ms`. -/
def delayMs (ms : TickType) (k : Kernel) : Outcome × Kernel :=
  let ticks := msToTicks k.config ms
  match k.currentTask with
  | none => (.ret .unit false, k)
  | some t =>
      if ticks = 0 then (.ret .unit false, k)
      else
        let k := k.setTask t fun c => { c with state := .blocked }
        (.ret .unit true, delayInsert t ticks k)

/-- The loop body of `DelayList::tick`: the head `t` has expired. -/
def expire (t : Tid) (k : Kernel) : Kernel :=
  let k := k.setDelay (DelayList.unlinkHead t k.delay)
  let k := match (k.tcb t).waitList with
    | some w =>
        (k.setLinks (TaskList.remove (.wait w) t k.links)).setTask t fun c =>
          { c with waitList := none, timeoutExpired := true }
    | none => k
  ReadyManager.add t (k.setTask t fun c => { c with state := .ready })

/-- The loop of `DelayList::tick`. -/
def expireLoop : Nat → Kernel → Kernel
  | fuel, k =>
      match k.delay.head with
      | none => k
      | some t =>
          if k.delay.delayTicks t = 0 then
            match fuel with
            | 0 => k.fail .endlessLoop
            | fuel + 1 => expireLoop fuel (expire t k)
          else k

/-- `DelayList::tick`. -/
def delayTick (k : Kernel) : Kernel :=
  expireLoop k.config.kMaxTasks (k.setDelay (DelayList.decrementHead k.delay))

/-- `Scheduler::needs_preemption`. -/
def needsPreemption (k : Kernel) : Bool :=
  match k.currentTask with
  | none => k.readyBitmask != 0
  | some c => k.readyBitmask != 0 &&
      decide ((k.tcb c).priority ≤ ReadyManager.topPriority k.readyBitmask)

/-- `Scheduler::tick`. -/
def tick (k : Kernel) : Bool × Kernel :=
  let k := delayTick (k.core fun e => { e with tickCount := e.tickCount + 1 })
  (needsPreemption k, k)

/-! ### Suspend, resume, delete -/

/-- What `suspend_task` and `delete_task` do to a blocked task. -/
def unlinkBlocked (task : Tid) (k : Kernel) : Kernel :=
  let k := match (k.tcb task).waitList with
    | some w =>
        (k.setLinks (TaskList.remove (.wait w) task k.links)).setTask task fun c =>
          { c with waitList := none, timeoutExpired := true }
    | none => k
  k.setDelay (DelayList.remove task k.delay)

/-- The task leaves the list its state says it is in. -/
def unlink (task : Tid) (k : Kernel) : Kernel :=
  match (k.tcb task).state with
  | .ready => ReadyManager.remove task k
  | .blocked => unlinkBlocked task k
  | _ => k

/-- The critical section of `suspend_task`. -/
def suspendTask (task : Tid) (k : Kernel) : Outcome × Kernel :=
  if (k.tcb task).state = .suspended then (.ret .unit false, k)
  else
    let k := unlink task k
    (.ret .unit (k.currentTask == some task && k.started),
      k.setTask task fun c => { c with state := .suspended })

/-- The critical section of `delete_task`. -/
def deleteTask (task : Tid) (k : Kernel) : Outcome × Kernel :=
  let k := unlink task k
  (.ret .unit (k.currentTask == some task && k.started),
    k.setTask task fun c => { c with state := .deleted })

/-- `Scheduler::make_task_ready`. -/
def makeTaskReady (task : Tid) (k : Kernel) : Bool × Kernel :=
  if (k.tcb task).state = .deleted then (false, k)
  else
    let k := ReadyManager.add task (k.setTask task fun c => { c with state := .ready, waitList := none })
    (k.preempts task, k)

/-- The critical section of `resume_task`. -/
def resumeTask (task : Tid) (k : Kernel) : Outcome × Kernel :=
  if (k.tcb task).state ≠ .suspended then (.ret .unit false, k)
  else
    let k := ReadyManager.add task (k.setTask task fun c => { c with state := .ready })
    (.ret .unit (k.preempts task), k)

/-! ### Priorities and timeouts -/

/-- `insert_by_priority` on the wait list `w`. -/
def insertWaiter (w : WaitId) (task : Tid) (k : Kernel) : Kernel :=
  match TaskList.insertByPriority (fun t => (k.tcb t).priority) k.config.kMaxTasks (.wait w) task
      k.links with
  | some links => k.setLinks links
  | none => k.fail .endlessLoop

/-- `Scheduler::set_task_priority`. -/
def setTaskPriority (task : Tid) (priority : Nat) (k : Kernel) : Kernel :=
  let k := k.check .setPriorityRange (decide (priority < kMaxPriorities))
  let assign := fun k : Kernel => k.setTask task fun c => { c with priority := priority }
  if (k.tcb task).priority = priority then k
  else if (k.tcb task).state = .ready then
    ReadyManager.add task (assign (ReadyManager.remove task k))
  else
    let k := assign k
    match (k.tcb task).state, (k.tcb task).waitList with
    | .blocked, some w => insertWaiter w task (k.setLinks (TaskList.remove (.wait w) task k.links))
    | _, _ => k

/-- `Scheduler::cancel_timeout`. -/
def cancelTimeout (task : Tid) (k : Kernel) : Kernel :=
  k.setDelay (DelayList.remove task k.delay)

end Scheduler

end AcRtos
