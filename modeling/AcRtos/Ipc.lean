import AcRtos.Scheduler

/-!
# Semaphores, mutexes and event groups

The critical sections of `ipc.cpp`. A blocking call that has to wait ends its section with `.wait`; what
the caller does after `task_yield()` is in `Machine.lean`.
-/

namespace AcRtos

open Scheduler

/-! ### `WaitQueue` -/

namespace WaitQueue

/-- `WaitQueue::park`. -/
def park (w : WaitId) (task : Tid) (k : Kernel) : Kernel :=
  let k := k.check .alreadyParked (k.tcb task).waitList.isNone
  insertWaiter w task (k.setTask task fun c => { c with state := .blocked, waitList := some w })

/-- `WaitQueue::wake_highest`. -/
def wakeHighest (w : WaitId) (k : Kernel) : Option Tid × Kernel :=
  let popped := TaskList.popFront (.wait w) k.links
  let k := k.setLinks popped.2
  match popped.1 with
  | none => (none, k)
  | some task => (some task, cancelTimeout task (k.setTask task fun c => { c with waitList := none }))

/-- The tail of every blocking section: `if (timeout_ms != kWaitForever) start_timeout_for_current_task`. -/
def startTimeout (task : Tid) (timeoutMs : TickType) (k : Kernel) : Kernel :=
  if timeoutMs = kWaitForever then k else delayInsert task (msToTicks k.config timeoutMs) k

end WaitQueue

open WaitQueue

/-! ### `Semaphore` -/

namespace Semaphore

/-- `--count_`, for the context `c`. -/
def takeToken (s : SemId) (c : Ctx) (e : Core) : Core :=
  (e.setCount s (e.count s - 1)).emit (.semTake s c)

/-- `++count_`. -/
def addToken (s : SemId) (e : Core) : Core := (e.setCount s (e.count s + 1)).emit (.semGive s)

/-- `Semaphore::try_take`, for the context `c`. -/
def tryTake (s : SemId) (c : Ctx) (k : Kernel) : Bool × Kernel :=
  if k.count s = 0 then (false, k) else (true, k.core (takeToken s c))

/-- `Semaphore::take`. -/
def take (s : SemId) (timeoutMs : TickType) (k : Kernel) : Outcome × Kernel :=
  if timeoutMs = 0 then
    let r := tryTake s k.self k
    (.ret (.bool r.1) false, r.2)
  else if k.count s > 0 then (.ret (.bool true) false, k.core (takeToken s k.self))
  else
    match k.currentTask with
    | none => (.ret (.bool false) false, k.check .takeBeforeStart false)
    | some task =>
        let k := k.setTask task fun c => { c with timeoutExpired := false }
        (.wait (.take s), startTimeout task timeoutMs (park (.sem s) task k))

/-- The critical section of `give` and `give_from_isr`. -/
def giveLocked (s : SemId) (k : Kernel) : Bool × Kernel :=
  let r := wakeHighest (.sem s) k
  let k := r.2
  match r.1 with
  | some woken => makeTaskReady woken (k.emit (.semHand s woken))
  | none =>
      if k.count s < 0xFFFFFFFF#32 then (false, k.core (addToken s))
      else (false, k.emit (.semDrop s))

def give (s : SemId) (k : Kernel) : Outcome × Kernel :=
  let r := giveLocked s k
  (.ret .unit r.1, r.2)

def tryTakeFromIsr (s : SemId) (k : Kernel) : Bool × Kernel := tryTake s .isr k

def giveFromIsr (s : SemId) (k : Kernel) : Bool × Kernel := giveLocked s k

end Semaphore

/-! ### `Mutex` -/

namespace Mutex

/-- `wait_.peek_highest()` of the mutex `m`, by its priority. -/
def waiterPriority (k : Kernel) (m : MutexId) : Option Nat :=
  (k.links.list (.wait (.mutex m))).head.map fun w => (k.tcb w).priority

/-- `Mutex::recompute_priority`. -/
def recomputePriority (t : Tid) (k : Kernel) : Option Nat :=
  HeldList.maxWaiter (waiterPriority k) k.held.nextHeld k.config.mutexes (k.tcb t).basePriority
    (k.held.heldMutexes t)

/-- `Mutex::lock`. -/
def lock (m : MutexId) (k : Kernel) : Outcome × Kernel :=
  match k.currentTask with
  | none => (.ret (.bool false) false, k.check .lockBeforeStart false)
  | some current =>
      match k.owner m with
      | none =>
          (.ret (.bool true) false,
            (k.core (·.setOwner m (some current))).setHeld (HeldList.addHeld m current k.held))
      | some owner =>
          if owner = current then (.ret (.bool false) false, k.check .lockOwnMutex false)
          else
            let k := if (k.tcb current).priority > (k.tcb owner).priority then
                setTaskPriority owner (k.tcb current).priority k
              else k
            let k := k.setTask current fun c => { c with timeoutExpired := false }
            (.wait (.lock m), park (.mutex m) current k)

/-- The hand-off in `unlock`: the new owner, if a task waits, is made ready. -/
def handOff (m : MutexId) (k : Kernel) : Bool × Kernel :=
  let r := wakeHighest (.mutex m) k
  let k := r.2
  match r.1 with
  | some next =>
      makeTaskReady next
        ((k.core (·.setOwner m (some next))).setHeld (HeldList.addHeld m next k.held))
  | none => (false, k.core (·.setOwner m none))

/-- The end of `unlock`: the caller drops to what its remaining mutexes ask for. -/
def restorePriority (current : Tid) (shouldPreempt : Bool) (k : Kernel) : Bool × Kernel :=
  match recomputePriority current k with
  | none => (shouldPreempt, k.fail .endlessLoop)
  | some np =>
      if np ≠ (k.tcb current).priority then (true, setTaskPriority current np k)
      else (shouldPreempt, k)

/-- `Mutex::unlock`. With no task and no owner the comparison succeeds and `remove_held` dereferences
null. -/
def unlock (m : MutexId) (k : Kernel) : Outcome × Kernel :=
  if k.currentTask ≠ k.owner m then (.ret (.bool false) false, k.check .unlockNotOwner false)
  else
    match k.currentTask with
    | none => (.ret (.bool true) false, k.fail .nullDeref)
    | some current =>
        let k := match HeldList.removeHeld k.config.mutexes m current k.held with
          | some held => k.setHeld held
          | none => k.fail .endlessLoop
        let handed := handOff m k
        let r := restorePriority current handed.1 handed.2
        (.ret (.bool true) r.1, r.2)

end Mutex

/-! ### `EventGroup` -/

namespace EventGroup

/-- `EventGroup::bits_satisfy`. -/
def bitsSatisfy (bits mask : BitVec 32) (waitAll : Bool) : Bool :=
  if waitAll then bits &&& mask == mask else bits &&& mask != 0

/-- `EventGroup::condition_met`. -/
def conditionMet (t : TaskControlBlock) (bits : BitVec 32) : Bool :=
  if t.eventWaitAll then bits &&& t.eventWaitMask == t.eventWaitMask else bits &&& t.eventWaitMask != 0

/-- The bits are read for the context `c` and, if `clear`, those of `mask` are removed. -/
def consume (g : EventId) (c : Ctx) (mask : BitVec 32) (clear : Bool) (e : Core) : Core :=
  let v := e.currentBits g
  let e := if clear then e.setBits g (v &&& ~~~mask) else e
  e.emit (.bitsRead g c v (e.currentBits g))

/-- `*static_cast<uint32_t*>(cur->xfer_ptr) = satisfied_bits`. -/
def report (cur : Tid) (satisfiedBits : BitVec 32) (e : Core) : Core :=
  match (e.tcb cur).xferPtr with
  | some p => e.setFrame p fun f => { f with bits := satisfiedBits }
  | none => e

/-- What a waiter whose condition holds gets. -/
def satisfy (g : EventId) (cur : Tid) (e : Core) : Core :=
  report cur (e.currentBits g)
    (consume g (.task cur) (e.tcb cur).eventWaitMask (e.tcb cur).eventClearOnExit e)

/-- What `scan_and_wake_locked` does with a waiter whose condition holds. -/
def wakeWaiter (g : EventId) (cur : Tid) (k : Kernel) : Bool × Kernel :=
  let k := k.setLinks (TaskList.remove (.wait (.waiters g)) cur k.links)
  let k := cancelTimeout cur k
  makeTaskReady cur (k.core (satisfy g cur))

/-- The loop of `scan_and_wake_locked`. -/
def scanLoop (g : EventId) : Nat → Option Tid → Bool → Kernel → Bool × Kernel
  | _, none, shouldYield, k => (shouldYield, k)
  | 0, some _, shouldYield, k => (shouldYield, k.fail .endlessLoop)
  | fuel + 1, some cur, shouldYield, k =>
      let next := k.links.next cur
      if conditionMet (k.tcb cur) (k.currentBits g) then
        let r := wakeWaiter g cur k
        scanLoop g fuel next (shouldYield || r.1) r.2
      else scanLoop g fuel next shouldYield k

/-- `EventGroup::scan_and_wake_locked`. -/
def scanAndWakeLocked (g : EventId) (k : Kernel) : Bool × Kernel :=
  scanLoop g k.config.kMaxTasks (k.links.list (.wait (.waiters g))).head false k

/-- A read of `current_bits_` into the result of the running context. -/
def readBits (g : EventId) (k : Kernel) : Outcome × Kernel :=
  (.ret (.bits (k.currentBits g)) false, k.core (consume g k.self 0 false))

/-- The critical section of `EventGroup::wait_bits`; `current` is the task read before it. -/
def waitBits (g : EventId) (mask : BitVec 32) (waitAll clearOnExit : Bool) (timeoutMs : TickType)
    (current : Tid) (k : Kernel) : Outcome × Kernel :=
  if bitsSatisfy (k.currentBits g) mask waitAll then
    (.ret (.bits (k.currentBits g)) false, k.core (consume g (.task current) mask clearOnExit))
  else if timeoutMs = 0 then readBits g k
  else
    let k := k.setTask current fun c =>
      { c with
        eventWaitMask := mask
        eventWaitAll := waitAll
        eventClearOnExit := clearOnExit
        xferPtr := some (.task current)
        timeoutExpired := false }
    (.wait (.bits g mask waitAll clearOnExit), startTimeout current timeoutMs (park (.waiters g) current k))

/-- `current_bits_ |= mask`. -/
def addBits (g : EventId) (mask : BitVec 32) (e : Core) : Core :=
  (e.setBits g (e.currentBits g ||| mask)).emit (.bitsSet g mask)

/-- `current_bits_ &= ~mask`. -/
def dropBits (g : EventId) (mask : BitVec 32) (e : Core) : Core :=
  (e.setBits g (e.currentBits g &&& ~~~mask)).emit (.bitsClear g mask)

/-- The critical section of `set_bits` and `set_bits_from_isr`. -/
def setBitsLocked (g : EventId) (mask : BitVec 32) (k : Kernel) : Bool × Kernel :=
  scanAndWakeLocked g (k.core (addBits g mask))

/-- `EventGroup::set_bits`. -/
def setBits (g : EventId) (mask : BitVec 32) (k : Kernel) : Outcome × Kernel :=
  let r := setBitsLocked g mask k
  (.ret (.bits (r.2.currentBits g)) r.1, r.2)

/-- `EventGroup::set_bits_from_isr`. -/
def setBitsFromIsr (g : EventId) (mask : BitVec 32) (k : Kernel) : Bool × Kernel :=
  setBitsLocked g mask k

/-- `EventGroup::clear_bits`. -/
def clearBits (g : EventId) (mask : BitVec 32) (k : Kernel) : Outcome × Kernel :=
  let k := k.core (dropBits g mask)
  (.ret (.bits (k.currentBits g)) false, k)

end EventGroup

end AcRtos
