import AcRtos.Types

/-!
# The kernel state

The fields of `TaskControlBlock`, `Scheduler`, `ReadyManager`, `DelayList` and of the IPC objects. The
link fields of the control blocks live in three records, one for each kind of intrusive list (`TaskLinks`
for `prev`/`next`, `DelayLinks` for `delay_*`, `HeldLinks` for `held_mutexes`/`next_held_`); all other
data is the `Core`. Updates of one field are named and have their projections as `simp` lemmas.
-/

namespace AcRtos

/-- A `TaskControlBlock` without its link fields. -/
structure TaskControlBlock where
  sp : Sp := .null
  state : TaskState := .ready
  stackBase : Option Site := none
  priority : Nat := 0
  basePriority : Nat := 0
  waitList : Option WaitId := none
  timeoutExpired : Bool := false
  xferPtr : Option Ctx := none
  eventWaitMask : BitVec 32 := 0
  eventWaitAll : Bool := false
  eventClearOnExit : Bool := false
  deriving DecidableEq

/-- The static `storage` of a `create_task` call site: its first word, the callable placed at its top and
the initial frame below the callable (the trampoline of the site, with the stored callable as `r0`). -/
structure Storage where
  word0 : BitVec 32 := 0
  callable : Option Callable := none
  frame : Option Site := none
  deriving DecidableEq

/-- The ring buffer of a `QueueCore`; `item_size_` and `capacity_` are in `Config`. -/
structure Ring where
  storage : Nat → UInt8 := fun _ => 0
  head : Nat := 0
  tail : Nat := 0
  count : Nat := 0

/-- The local variables of a kernel call that other contexts reach through `xfer_ptr`: the item buffer of
`send`/`receive` and `return_bits` of `wait_bits`. -/
structure Frame where
  item : Item := []
  bits : BitVec 32 := 0
  deriving DecidableEq

structure Core where
  config : Config
  tcb : Tid → TaskControlBlock
  currentTask : Option Tid
  currentSp : Sp
  taskCount : Nat
  started : Bool
  tickCount : TickType
  owner : MutexId → Option Tid
  count : SemId → BitVec 32
  ring : QueueId → Ring
  currentBits : EventId → BitVec 32
  isCreated : Site → Bool
  storage : Site → Storage
  frame : Ctx → Frame
  fault : Option Fault
  trace : List Obs

/-- `TaskList`. -/
structure TaskList where
  head : Option Tid := none
  tail : Option Tid := none
  deriving DecidableEq

/-- `prev`/`next` of every control block and every `TaskList` object. -/
structure TaskLinks where
  prev : Tid → Option Tid
  next : Tid → Option Tid
  list : ListId → TaskList

/-- The `DelayList` head and the `delay_*` fields of every control block. -/
structure DelayLinks where
  head : Option Tid
  delayPrev : Tid → Option Tid
  delayNext : Tid → Option Tid
  delayTicks : Tid → TickType
  inDelayList : Tid → Bool

/-- `held_mutexes` of every control block and `next_held_` of every mutex. -/
structure HeldLinks where
  heldMutexes : Tid → Option MutexId
  nextHeld : MutexId → Option MutexId

structure Kernel extends Core where
  links : TaskLinks
  readyBitmask : BitVec 32
  delay : DelayLinks
  held : HeldLinks

/-! ### Updates of the core -/

namespace Core

@[simps -fullyApplied] def setTask (t : Tid) (f : TaskControlBlock → TaskControlBlock) (e : Core) : Core :=
  { e with tcb := Function.update e.tcb t (f (e.tcb t)) }

@[simps -fullyApplied] def setOwner (m : MutexId) (o : Option Tid) (e : Core) : Core :=
  { e with owner := Function.update e.owner m o }

@[simps -fullyApplied] def setCount (s : SemId) (n : BitVec 32) (e : Core) : Core :=
  { e with count := Function.update e.count s n }

@[simps -fullyApplied] def setRing (q : QueueId) (r : Ring) (e : Core) : Core :=
  { e with ring := Function.update e.ring q r }

@[simps -fullyApplied] def setBits (g : EventId) (v : BitVec 32) (e : Core) : Core :=
  { e with currentBits := Function.update e.currentBits g v }

@[simps -fullyApplied] def setStorage (x : Site) (f : Storage → Storage) (e : Core) : Core :=
  { e with storage := Function.update e.storage x (f (e.storage x)) }

@[simps -fullyApplied] def setFrame (c : Ctx) (f : Frame → Frame) (e : Core) : Core :=
  { e with frame := Function.update e.frame c (f (e.frame c)) }

@[simps -fullyApplied] def emit (o : Obs) (e : Core) : Core := { e with trace := e.trace ++ [o] }

/-- The first fault stays. -/
@[simps -fullyApplied] def fail (f : Fault) (e : Core) : Core := { e with fault := e.fault.or (some f) }

/-- `ACRTOS_ASSERT`. -/
def check (a : Assertion) (b : Bool) (e : Core) : Core :=
  if e.config.useAssert && !b then e.fail (.assert a) else e

/-- The running context: `get_current_task()`, or `main()` before the first switch. -/
def self (e : Core) : Ctx :=
  match e.currentTask with
  | some t => .task t
  | none => .main

/-- `started_ && current_task_ != nullptr && task->priority > current_task_->priority`. -/
def preempts (e : Core) (t : Tid) : Bool :=
  e.started && match e.currentTask with
    | some c => decide ((e.tcb c).priority < (e.tcb t).priority)
    | none => false

end Core

namespace Kernel

/-- An update that touches no link. -/
@[simps toCore links readyBitmask delay held] def core (f : Core → Core) (k : Kernel) : Kernel :=
  { k with toCore := f k.toCore }

def setTask (t : Tid) (f : TaskControlBlock → TaskControlBlock) (k : Kernel) : Kernel :=
  k.core (·.setTask t f)

@[simps toCore links readyBitmask delay held] def setLinks (l : TaskLinks) (k : Kernel) : Kernel :=
  { k with links := l }

@[simps toCore links readyBitmask delay held] def setDelay (d : DelayLinks) (k : Kernel) : Kernel :=
  { k with delay := d }

@[simps toCore links readyBitmask delay held] def setHeld (h : HeldLinks) (k : Kernel) : Kernel := { k with held := h }

@[simps toCore links readyBitmask delay held] def setMask (m : BitVec 32) (k : Kernel) : Kernel :=
  { k with readyBitmask := m }

def emit (o : Obs) (k : Kernel) : Kernel := k.core (·.emit o)

def fail (f : Fault) (k : Kernel) : Kernel := k.core (·.fail f)

def check (a : Assertion) (b : Bool) (k : Kernel) : Kernel := k.core (·.check a b)

section
variable (k : Kernel) (t : Tid) (g : TaskControlBlock → TaskControlBlock) (o : Obs) (x : Fault)
  (a : Assertion) (b : Bool)

@[simp] theorem setTask_eq : k.setTask t g = k.core (·.setTask t g) := rfl
@[simp] theorem emit_eq : k.emit o = k.core (·.emit o) := rfl
@[simp] theorem fail_eq : k.fail x = k.core (·.fail x) := rfl
@[simp] theorem check_eq : k.check a b = k.core (·.check a b) := rfl

end

/-- The kernel before `main()`: every object as constructed. -/
def init (config : Config) : Kernel where
  config := config
  tcb := fun _ => {}
  currentTask := none
  currentSp := .null
  taskCount := 0
  started := false
  tickCount := 0
  owner := fun _ => none
  count := config.initialCount
  ring := fun _ => {}
  currentBits := fun _ => 0
  isCreated := fun _ => false
  storage := fun _ => {}
  frame := fun _ => {}
  fault := none
  trace := []
  links := ⟨fun _ => none, fun _ => none, fun _ => {}⟩
  readyBitmask := 0
  delay := ⟨none, fun _ => none, fun _ => none, fun _ => 0, fun _ => false⟩
  held := ⟨fun _ => none, fun _ => none⟩

end Kernel

end AcRtos
