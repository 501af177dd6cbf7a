import Mathlib

/-!
# Kernel data types

`types.hpp` and `acRtosConfig.hpp`, and the names by which the model refers to kernel objects. A task is
its index in `Scheduler::task_table_`; semaphores, mutexes, queues and event groups are static objects of
the application and are numbered; a pointer to a `TaskList` is the name of the list.
-/

namespace AcRtos

/-- Kernel time: timestamps and delay lengths in ticks. -/
abbrev TickType := BitVec 32

def kWaitForever : TickType := 0xFFFFFFFF#32
def kStackCanary : BitVec 32 := 0xDEADBEEF#32
def kMaxPriorities : Nat := 32

abbrev Tid := Nat
abbrev SemId := Nat
abbrev MutexId := Nat
abbrev QueueId := Nat
abbrev EventId := Nat
/-- A source location that calls `create_task`: it owns one `storage` array and one `is_created` flag. -/
abbrev Site := Nat
abbrev Callable := Nat
/-- The bytes of one queue item. -/
abbrev Item := List UInt8

/-- The `create_task` call inside `Scheduler::start()`. -/
def idleSite : Site := 0
def idleCallable : Callable := 0

/-- Build-time constants, with the `static_assert`s of `acRtosConfig.hpp`, and the statically allocated
objects of the application with their constructor arguments. -/
structure Config where
  kMaxTasks : Nat
  kTickRateMs : Nat
  useAssert : Bool
  mutexes : Nat
  initialCount : SemId → BitVec 32
  itemSize : QueueId → Nat
  capacity : QueueId → Nat
  kMaxTasks_pos : 0 < kMaxTasks
  /-- `task_count_` is a `uint8_t`. -/
  kMaxTasks_le : kMaxTasks ≤ 255
  kTickRateMs_pos : 0 < kTickRateMs
  kTickRateMs_dvd : 1000 % kTickRateMs = 0
  itemSize_pos : ∀ q, 0 < itemSize q
  capacity_pos : ∀ q, 0 < capacity q

/-- A build with room for four tasks, ticks of 1 ms and one-byte items. -/
def Config.small : Config where
  kMaxTasks := 4
  kTickRateMs := 1
  useAssert := true
  mutexes := 2
  initialCount := fun _ => 0
  itemSize := fun _ => 1
  capacity := fun _ => 2
  kMaxTasks_pos := by decide
  kMaxTasks_le := by decide
  kTickRateMs_pos := by decide
  kTickRateMs_dvd := by decide
  itemSize_pos := fun _ => by decide
  capacity_pos := fun _ => by decide

/-- A build without assertions. -/
def Config.unchecked : Config := { Config.small with useAssert := false }

/-- `ms_to_ticks`: milliseconds to ticks, rounding up. -/
def msToTicks (config : Config) (ms : TickType) : TickType :=
  if ms = 0 then 0
  else BitVec.ofNat 32 (ms.toNat / config.kTickRateMs +
    (if ms.toNat % config.kTickRateMs ≠ 0 then 1 else 0))

theorem msToTicks_toNat (config : Config) {ms : TickType} (hms : ms ≠ 0) :
    (msToTicks config ms).toNat = ms.toNat / config.kTickRateMs +
      (if ms.toNat % config.kTickRateMs ≠ 0 then 1 else 0) := by
  have hdiv := Nat.div_add_mod ms.toNat config.kTickRateMs
  have hmul := Nat.le_mul_of_pos_left (ms.toNat / config.kTickRateMs) config.kTickRateMs_pos
  have hlt := ms.isLt
  rw [msToTicks, if_neg hms, BitVec.toNat_ofNat, Nat.mod_eq_of_lt]
  generalize ms.toNat / config.kTickRateMs = quotient at *
  split <;> omega

theorem msToTicks_pos (config : Config) {ms : TickType} (hms : ms ≠ 0) :
    1 ≤ (msToTicks config ms).toNat := by
  have hne : ms.toNat ≠ 0 := fun hz => hms (BitVec.eq_of_toNat_eq (by simpa using hz))
  have hdiv := Nat.div_add_mod ms.toNat config.kTickRateMs
  rw [msToTicks_toNat config hms]
  by_cases hmod : ms.toNat % config.kTickRateMs = 0
  · have hquot : ms.toNat / config.kTickRateMs ≠ 0 := fun hz => by
      rw [hz, hmod] at hdiv
      simp at hdiv
      exact hne hdiv.symm
    have := Nat.pos_of_ne_zero hquot
    exact Nat.le_add_right_of_le this
  · rw [if_pos hmod]
    exact Nat.le_add_left _ _

inductive TaskState
  | ready
  | running
  | blocked
  | suspended
  | deleted
  deriving DecidableEq, Repr

/-- A wait list: the `TaskList` inside an IPC object. -/
inductive WaitId
  | sem (s : SemId)
  | mutex (m : MutexId)
  | senders (q : QueueId)
  | receivers (q : QueueId)
  | waiters (g : EventId)
  deriving DecidableEq, Repr

/-- The address of a `TaskList`: `ready_lists_[p]` or a wait list. -/
inductive ListId
  | ready (p : Nat)
  | wait (w : WaitId)
  deriving DecidableEq, Repr

/-- Who runs: `main()` before the first switch, a task, or an interrupt handler. -/
inductive Ctx
  | main
  | task (t : Tid)
  | isr
  deriving DecidableEq, Repr

/-- A saved stack pointer: none, the initial frame in a site's storage, or a PSP value that PendSV stored. -/
inductive Sp
  | null
  | initial (site : Site)
  | psp (addr : Nat)
  deriving DecidableEq, Repr

/-- The `ACRTOS_ASSERT`s of the kernel. Three kinds are left out: `!in_isr()` (the blocking calls of the
model are made from task context only), `task != nullptr` where the model passes a task and no pointer,
and the one of `peek_highest_priority`, whose only caller has just tested `is_empty()`. -/
inductive Assertion
  | stackOverflow
  | readyQueueEmpty
  | priorityRange
  | kMaxTasksTooSmall
  | createdTwice
  | startedTwice
  | noSlotForIdle
  | resumeInDelayList
  | setPriorityRange
  | addPriorityRange
  | alreadyParked
  | alreadyDelayed
  | takeBeforeStart
  | lockBeforeStart
  | lockOwnMutex
  | unlockNotOwner
  | handoffNotEmpty
  | queueBeforeStart
  | waitBitsBeforeStart
  deriving DecidableEq, Repr

/-- What stops the machine: a failed assertion, a null dereference, or a list walk longer than the table
of the nodes it walks over (the list is then cyclic and the loop does not end). -/
inductive Fault
  | assert (a : Assertion)
  | nullDeref
  | endlessLoop
  deriving DecidableEq, Repr

/-- The result a kernel call returns to its caller. -/
inductive Ret
  | unit
  | bool (b : Bool)
  | bits (v : BitVec 32)
  | task (h : Option Tid)
  deriving DecidableEq, Repr

/-- The calls of the application. A `Task` handle is an `Option Tid`: the invalid handle is `none`. -/
inductive Call
  | createTask (site : Site) (callable : Callable) (priority : Nat)
  | start
  | delayMs (ms : TickType)
  | delayUntil (wakeTime : TickType)
  | suspend (h : Option Tid)
  | resume (h : Option Tid)
  | terminate (h : Option Tid)
  | yield
  | take (s : SemId) (timeoutMs : TickType)
  | tryTake (s : SemId)
  | give (s : SemId)
  | lock (m : MutexId)
  | unlock (m : MutexId)
  | send (q : QueueId) (item : Item) (timeoutMs : TickType)
  | receive (q : QueueId) (timeoutMs : TickType)
  | waitBits (g : EventId) (mask : BitVec 32) (waitAll clearOnExit : Bool) (timeoutMs : TickType)
  | setBits (g : EventId) (mask : BitVec 32)
  | clearBits (g : EventId) (mask : BitVec 32)
  | getBits (g : EventId)
  | enterCritical
  | exitCritical
  deriving DecidableEq, Repr

/-- The calls of interrupt handlers. -/
inductive IsrCall
  | tryTakeFromIsr (s : SemId)
  | giveFromIsr (s : SemId)
  | sendFromIsr (q : QueueId) (item : Item)
  | receiveFromIsr (q : QueueId)
  | setBitsFromIsr (g : EventId) (mask : BitVec 32)
  deriving DecidableEq, Repr

/-- What a parked caller does after `task_yield()`: it reads how its wait ended. -/
inductive Wait
  | take (s : SemId)
  | lock (m : MutexId)
  | send (q : QueueId)
  | receive (q : QueueId)
  | bits (g : EventId) (mask : BitVec 32) (waitAll clearOnExit : Bool)
  deriving DecidableEq, Repr

/-- The list a parked caller is on. -/
def Wait.list : Wait → WaitId
  | .take s => .sem s
  | .lock m => .mutex m
  | .send q => .senders q
  | .receive q => .receivers q
  | .bits g _ _ _ => .waiters g

/-- How a critical section ends: with the call's result and whether `task_yield()` is owed before it is
returned, or with the caller parked. -/
inductive Outcome
  | ret (r : Ret) (yield : Bool)
  | wait (w : Wait)
  deriving DecidableEq, Repr

/-- History entries. The kernel does not read them; they record where tokens, items and event bits went. -/
inductive Obs
  | call (c : Ctx) (call : Call)
  | isrCall (call : IsrCall)
  | ret (c : Ctx) (r : Ret)
  | semTake (s : SemId) (c : Ctx)
  | semHand (s : SemId) (t : Tid)
  | semGive (s : SemId)
  | semDrop (s : SemId)
  | accept (q : QueueId) (c : Ctx) (x : Item)
  | deliver (q : QueueId) (c : Ctx) (x : Item)
  | bitsSet (g : EventId) (mask : BitVec 32)
  | bitsClear (g : EventId) (mask : BitVec 32)
  /-- The value `v` that a wait of `c` will return was read; `after` are the bits right after it. -/
  | bitsRead (g : EventId) (c : Ctx) (v after : BitVec 32)
  deriving DecidableEq, Repr

end AcRtos
