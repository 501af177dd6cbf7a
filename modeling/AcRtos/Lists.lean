import AcRtos.Kernel

/-!
# The intrusive lists

`TaskList`, `DelayList` and the held-mutex list of `task.cpp` and `ipc.cpp` as functions on the link
records. A search loop takes fuel, one unit for each node it may visit, and answers `none` when the fuel
runs out before the end of the list.
-/

namespace AcRtos

namespace TaskLinks

@[simps -fullyApplied] def setNext (t : Tid) (v : Option Tid) (s : TaskLinks) : TaskLinks :=
  { s with next := Function.update s.next t v }

@[simps -fullyApplied] def setPrev (t : Tid) (v : Option Tid) (s : TaskLinks) : TaskLinks :=
  { s with prev := Function.update s.prev t v }

@[simps -fullyApplied] def setHead (l : ListId) (v : Option Tid) (s : TaskLinks) : TaskLinks :=
  { s with list := Function.update s.list l { s.list l with head := v } }

@[simps -fullyApplied] def setTail (l : ListId) (v : Option Tid) (s : TaskLinks) : TaskLinks :=
  { s with list := Function.update s.list l { s.list l with tail := v } }

end TaskLinks

/-! ### `TaskList` -/

namespace TaskList

/-- `TaskList::push_back`. -/
def pushBack (l : ListId) (task : Tid) (s : TaskLinks) : TaskLinks :=
  let s := s.setNext task none
  match (s.list l).tail with
  | none => ((s.setPrev task none).setHead l (some task)).setTail l (some task)
  | some tail => ((s.setPrev task (some tail)).setNext tail (some task)).setTail l (some task)

/-- The search loop of `insert_by_priority`: the first node of lower priority than `p`. -/
def findLower (priority : Tid → Nat) (p : Nat) (next : Tid → Option Tid) :
    Nat → Option Tid → Option (Option Tid)
  | _, none => some none
  | 0, some _ => none
  | fuel + 1, some current =>
      if priority current ≥ p then findLower priority p next fuel (next current)
      else some (some current)

/-- `TaskList::insert_by_priority`. -/
def insertByPriority (priority : Tid → Nat) (fuel : Nat) (l : ListId) (task : Tid) (s : TaskLinks) :
    Option TaskLinks :=
  if (s.list l).head = none then some (pushBack l task s)
  else
    match findLower priority (priority task) s.next fuel (s.list l).head with
    | none => none
    | some none => some (pushBack l task s)
    | some (some current) =>
        let s := s.setNext task (some current)
        let s := s.setPrev task (s.prev current)
        let s := match s.prev current with
          | some p => s.setNext p (some task)
          | none => s.setHead l (some task)
        some (s.setPrev current (some task))

/-- `TaskList::pop_front`. -/
def popFront (l : ListId) (s : TaskLinks) : Option Tid × TaskLinks :=
  match (s.list l).head with
  | none => (none, s)
  | some task =>
      let s := s.setHead l (s.next task)
      let s := match (s.list l).head with
        | some head => s.setPrev head none
        | none => s.setTail l none
      (some task, (s.setNext task none).setPrev task none)

/-- `TaskList::remove`. -/
def remove (l : ListId) (task : Tid) (s : TaskLinks) : TaskLinks :=
  let s := match s.prev task with
    | some p => s.setNext p (s.next task)
    | none => s.setHead l (s.next task)
  let s := match s.next task with
    | some n => s.setPrev n (s.prev task)
    | none => s.setTail l (s.prev task)
  (s.setNext task none).setPrev task none

end TaskList

/-! ### `DelayList` -/

namespace DelayLinks

@[simps -fullyApplied] def setDelayPrev (t : Tid) (v : Option Tid) (s : DelayLinks) : DelayLinks :=
  { s with delayPrev := Function.update s.delayPrev t v }

@[simps -fullyApplied] def setDelayNext (t : Tid) (v : Option Tid) (s : DelayLinks) : DelayLinks :=
  { s with delayNext := Function.update s.delayNext t v }

@[simps -fullyApplied] def setDelayTicks (t : Tid) (v : TickType) (s : DelayLinks) : DelayLinks :=
  { s with delayTicks := Function.update s.delayTicks t v }

@[simps -fullyApplied] def setInDelayList (t : Tid) (v : Bool) (s : DelayLinks) : DelayLinks :=
  { s with inDelayList := Function.update s.inDelayList t v }

end DelayLinks

namespace DelayList

/-- The search loop of `insert`: the remaining ticks and the neighbours of the new node. -/
def findSlot (s : DelayLinks) : Nat → TickType → Option Tid → Option Tid →
    Option (TickType × Option Tid × Option Tid)
  | _, ticks, prev, none => some (ticks, prev, none)
  | 0, _, _, some _ => none
  | fuel + 1, ticks, prev, some current =>
      if ticks ≥ s.delayTicks current then
        findSlot s fuel (ticks - s.delayTicks current) (some current) (s.delayNext current)
      else some (ticks, prev, some current)

/-- The end of `insert`: link `task` between `prev` and `current`. -/
def linkAt (task : Tid) (ticks : TickType) (prev current : Option Tid) (s : DelayLinks) : DelayLinks :=
  let s := ((s.setDelayTicks task ticks).setDelayPrev task prev).setDelayNext task current
  let s := match prev with
    | some p => s.setDelayNext p (some task)
    | none => { s with head := some task }
  let s := match current with
    | some c => (s.setDelayPrev c (some task)).setDelayTicks c (s.delayTicks c - ticks)
    | none => s
  s.setInDelayList task true

/-- `DelayList::insert`. -/
def insert (fuel : Nat) (task : Tid) (ticks : TickType) (s : DelayLinks) : Option DelayLinks :=
  match findSlot s fuel ticks none s.head with
  | none => none
  | some (ticks, prev, current) => some (linkAt task ticks prev current s)

/-- `DelayList::remove`. -/
def remove (task : Tid) (s : DelayLinks) : DelayLinks :=
  if s.inDelayList task = false then s
  else
    let s := match s.delayNext task with
      | some n =>
          (s.setDelayTicks n (s.delayTicks n + s.delayTicks task)).setDelayPrev n (s.delayPrev task)
      | none => s
    let s := match s.delayPrev task with
      | some p => s.setDelayNext p (s.delayNext task)
      | none => { s with head := s.delayNext task }
    (((s.setDelayNext task none).setDelayPrev task none).setDelayTicks task 0).setInDelayList task false

/-- The decrement at the start of `tick`. -/
def decrementHead (s : DelayLinks) : DelayLinks :=
  match s.head with
  | none => s
  | some h => if s.delayTicks h > 0 then s.setDelayTicks h (s.delayTicks h - 1) else s

/-- The unlinking at the start of the loop body of `tick`. -/
def unlinkHead (t : Tid) (s : DelayLinks) : DelayLinks :=
  let s := { s with head := s.delayNext t }
  let s := match s.head with
    | some h => s.setDelayPrev h none
    | none => s
  ((s.setDelayNext t none).setDelayPrev t none).setInDelayList t false

end DelayList

/-! ### Held mutexes -/

namespace HeldList

/-- `Mutex::add_held`. -/
def addHeld (m : MutexId) (t : Tid) (s : HeldLinks) : HeldLinks :=
  { heldMutexes := Function.update s.heldMutexes t (some m)
    nextHeld := Function.update s.nextHeld m (s.heldMutexes t) }

/-- Where the pointer `pp` of `remove_held` points: at a task's `held_mutexes` or at a `next_held_`. -/
inductive Slot
  | task (t : Tid)
  | mutex (m : MutexId)

def Slot.read (s : HeldLinks) : Slot → Option MutexId
  | .task t => s.heldMutexes t
  | .mutex m => s.nextHeld m

def Slot.write (s : HeldLinks) (v : Option MutexId) : Slot → HeldLinks
  | .task t => { s with heldMutexes := Function.update s.heldMutexes t v }
  | .mutex m => { s with nextHeld := Function.update s.nextHeld m v }

/-- The loop of `remove_held`: the slot that holds `m`, or the one that ends the list. -/
def findHeld (m : MutexId) (s : HeldLinks) : Nat → Slot → Option Slot
  | fuel, pp =>
      match pp.read s with
      | none => some pp
      | some x =>
          if x = m then some pp
          else match fuel with
            | 0 => none
            | fuel + 1 => findHeld m s fuel (.mutex x)

/-- `Mutex::remove_held`. -/
def removeHeld (fuel : Nat) (m : MutexId) (t : Tid) (s : HeldLinks) : Option HeldLinks :=
  match findHeld m s fuel (.task t) with
  | none => none
  | some pp =>
      let s := match pp.read s with
        | some _ => pp.write s (s.nextHeld m)
        | none => s
      some { s with nextHeld := Function.update s.nextHeld m none }

/-- The loop of `recompute_priority`, with the head priority of each mutex's wait list in `waiter`. -/
def maxWaiter (waiter : MutexId → Option Nat) (nextHeld : MutexId → Option MutexId) :
    Nat → Nat → Option MutexId → Option Nat
  | _, p, none => some p
  | 0, _, some _ => none
  | fuel + 1, p, some m =>
      let p := match waiter m with
        | some w => if w > p then w else p
        | none => p
      maxWaiter waiter nextHeld fuel p (nextHeld m)

end HeldList

end AcRtos
