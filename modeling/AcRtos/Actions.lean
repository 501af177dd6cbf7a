import AcRtos.Abstract
import AcRtos.History
import AcRtos.Machine

/-!
# The actions of the abstract kernel

Every critical section is a short sequence of actions. An action is enabled in some states and changes the
state by a function; `Runs a acts a'` is a sequence of enabled actions. A data operation touches no task, a
handing wakes one waiter of an IPC object with what the object has for it, and all other actions move one
task or change the owner of one mutex. The priorities that a mutex makes change are part of the action: a
task that parks on it lifts the owner, and the owner drops to what its other mutexes ask for when it leaves.
-/

namespace AcRtos

/-- The `else` branch of a wait that ends without being served. -/
def TaskControlBlock.unparked (c : TaskControlBlock) : TaskControlBlock :=
  match c.waitList with
  | some _ => { c with waitList := none, timeoutExpired := true }
  | none => c

/-- What a caller writes into its control block before it parks. -/
def Wait.request (t : Tid) : Wait → TaskControlBlock → TaskControlBlock
  | .take _, c | .lock _, c => { c with timeoutExpired := false }
  | .send _, c | .receive _, c => { c with xferPtr := some (.task t), timeoutExpired := false }
  | .bits _ mask waitAll clearOnExit, c =>
      { c with
        eventWaitMask := mask
        eventWaitAll := waitAll
        eventClearOnExit := clearOnExit
        xferPtr := some (.task t)
        timeoutExpired := false }

/-- What can stop the machine: an assertion about the use of the kernel or the dereference in `unlock()`, but
no assertion about the kernel's own lists and no endless walk. -/
def Fault.expected : Fault → Bool
  | .assert .readyQueueEmpty | .assert .setPriorityRange | .assert .addPriorityRange | .assert .alreadyParked
  | .assert .alreadyDelayed | .assert .handoffNotEmpty | .endlessLoop => false
  | _ => true

/-- `e'` differs from `e` in what no wait, no object and no priority depends on. -/
structure Core.Quiet (e e' : Core) : Prop where
  config : e'.config = e.config
  tcb : e'.tcb = e.tcb
  currentTask : e'.currentTask = e.currentTask
  taskCount : e'.taskCount = e.taskCount
  started : e'.started = e.started
  tickCount : e'.tickCount = e.tickCount
  owner : e'.owner = e.owner
  count : e'.count = e.count
  ring : e'.ring = e.ring
  currentBits : e'.currentBits = e.currentBits
  isCreated : e'.isCreated = e.isCreated
  frame : e'.frame = e.frame
  trace : e'.trace = e.trace
  fault : e'.fault = e.fault ∨ ∃ x, e'.fault = some x ∧ x.expected = true

/-- Operations that touch neither a task nor a list. -/
inductive DataOp
  | mark (o : Obs)
  | frame (c : Ctx) (f : Frame → Frame)
  | quiet (e : Core)
  | tick
  | setFlag (x : Site)
  | start
  | takeToken (s : SemId) (c : Ctx)
  | addToken (s : SemId)
  | dropToken (s : SemId)
  | pushFrom (q : QueueId) (p : Ctx)
  | popTo (q : QueueId) (p : Ctx)
  | consume (g : EventId) (c : Ctx) (mask : BitVec 32) (clear : Bool)
  | addBits (g : EventId) (mask : BitVec 32)
  | dropBits (g : EventId) (mask : BitVec 32)

def DataOp.run : DataOp → Core → Core
  | .mark o, e => e.emit o
  | .frame c f, e => e.setFrame c f
  | .quiet e', _ => e'
  | .tick, e => { e with tickCount := e.tickCount + 1 }
  | .setFlag x, e => { e with isCreated := Function.update e.isCreated x true }
  | .start, e => { e with started := true }
  | .takeToken s c, e => Semaphore.takeToken s c e
  | .addToken s, e => Semaphore.addToken s e
  | .dropToken s, e => e.emit (.semDrop s)
  | .pushFrom q p, e => QueueCore.pushFrom q p e
  | .popTo q p, e => QueueCore.popTo q p e
  | .consume g c mask clear, e => EventGroup.consume g c mask clear e
  | .addBits g mask, e => EventGroup.addBits g mask e
  | .dropBits g mask, e => EventGroup.dropBits g mask e

/-- What a woken waiter is served with: a token, the item of the context `p`, the slot in the ring that `p`
has just emptied, or event bits. -/
inductive Handing
  | token (s : SemId)
  | item (q : QueueId) (p : Ctx)
  | slot (q : QueueId) (p : Ctx)
  | bits (g : EventId)

namespace Handing

def list : Handing → WaitId
  | .token s => .sem s
  | .item q _ => .receivers q
  | .slot q _ => .senders q
  | .bits g => .waiters g

def run (t : Tid) : Handing → Core → Core
  | .token s, e => e.emit (.semHand s t)
  | .item q p, e => QueueCore.handOver q p t e
  | .slot q p, e => QueueCore.pushOf q t (QueueCore.popTo q p e)
  | .bits g, e => EventGroup.satisfy g t e

end Handing

inductive Action
  | data (d : DataOp)
  | save (t : Tid)
  | ready (t : Tid)
  | switch (t : Tid)
  | alloc
  | initTcb (t : Tid) (site : Site) (priority : Nat)
  | sleep (t : Tid) (n : Nat)
  | countDown
  | expire (t : Tid)
  | retire (t : Tid) (st : TaskState)
  | park (w : Wait) (t : Tid) (timeout : Option Nat)
  | hand (h : Handing) (t : Tid)
  | acquire (m : MutexId) (t : Tid)
  | release (m : MutexId) (t : Tid)
  | pass (m : MutexId) (t next : Tid)

namespace Abs

/-- The place behind the last waiter of at least the priority `p`. -/
def byPriority (p : Nat) (t : Tid) (a : Abs) (xs : List Tid) : List Tid :=
  Lib.insertWhile (fun y => decide ((a.tcb y).priority ≥ p)) t xs

def ready (t : Tid) (a : Abs) : Abs :=
  a.move t (fun c => { c with state := .ready }) (some (.ready (a.tcb t).priority)) (· ++ [t]) .keep

/-- The end of a wait that was served. -/
def wake (t : Tid) (a : Abs) : Abs :=
  a.move t (fun c => { c with state := .ready, waitList := none })
    (some (.ready (a.tcb t).priority)) (· ++ [t]) .cancel

def expire (t : Tid) (a : Abs) : Abs :=
  a.move t (fun c => { c.unparked with state := .ready }) (some (.ready (a.tcb t).priority)) (· ++ [t])
    .cancel

def retire (t : Tid) (st : TaskState) (a : Abs) : Abs :=
  a.move t (fun c => { c.unparked with state := st }) none (· ++ [t]) .cancel

def sleep (t : Tid) (n : Nat) (a : Abs) : Abs :=
  a.move t (fun c => { c with state := .blocked }) none (· ++ [t]) (.set n)

/-- The task goes behind the waiters of at least its priority. -/
def block (w : Wait) (t : Tid) (timeout : Option Nat) (a : Abs) : Abs :=
  a.move t (fun c => { w.request t c with state := .blocked, waitList := some w.list })
    (some (.wait w.list)) (a.byPriority (a.tcb t).priority t) (timeout.elim .keep .set)

def setPriority (t : Tid) (p : Nat) (a : Abs) : Abs :=
  a.move t (fun c => { c with priority := p }) (placeOf { a.tcb t with priority := p })
    (if (a.tcb t).state = .ready then (· ++ [t]) else a.byPriority p t) .keep

/-- A task that parks on a mutex lifts its owner. -/
def boost (w : Wait) (t : Tid) (a : Abs) : Abs :=
  match w with
  | .lock m =>
      match a.owner m with
      | some o => if (a.tcb o).priority < (a.tcb t).priority then a.setPriority o (a.tcb t).priority else a
      | none => a
  | _ => a

def park (w : Wait) (t : Tid) (timeout : Option Nat) (a : Abs) : Abs := (a.boost w t).block w t timeout

/-- The priority of the first waiter on a mutex. -/
def waiterPriority (a : Abs) (m : MutexId) : Option Nat :=
  (a.seq (.wait (.mutex m))).head?.map fun u => (a.tcb u).priority

/-- What the mutexes of `t` ask for. -/
def recompute (a : Abs) (t : Tid) : Nat :=
  ((a.heldBy t).filterMap a.waiterPriority).foldl max (a.tcb t).basePriority

def restore (t : Tid) (a : Abs) : Abs :=
  if a.recompute t ≠ (a.tcb t).priority then a.setPriority t (a.recompute t) else a

/-- `t` leaves the ready list and becomes the current task. -/
def switch (t : Tid) (a : Abs) : Abs :=
  (a.core fun e => { e with currentTask := some t, currentSp := (e.tcb t).sp }).move t
    (fun c => { c with state := .running }) none (· ++ [t]) .keep

def alloc (a : Abs) : Abs :=
  a.core fun e =>
    { e with taskCount := e.taskCount + 1 }.setTask e.taskCount fun c =>
      { c with state := .suspended, waitList := none }

def initTcb (t : Tid) (site : Site) (p : Nat) (a : Abs) : Abs :=
  (a.core (·.setStorage site fun x => { x with word0 := kStackCanary, frame := some site })).core
    (·.setTask t fun c =>
      { c with stackBase := some site, sp := .initial site, priority := p, basePriority := p })

def countDown (a : Abs) : Abs := { a with sleepers := a.sleepers.map fun e => (e.1, e.2 - 1) }

@[simps -fullyApplied toCore seq sleepers heldBy] def setHeldBy (t : Tid) (ms : List MutexId) (a : Abs) : Abs :=
  { a with heldBy := Function.update a.heldBy t ms }

def acquire (m : MutexId) (t : Tid) (a : Abs) : Abs :=
  (a.core (·.setOwner m (some t))).setHeldBy t (m :: a.heldBy t)

/-- `t` lets go of `m`. -/
def drop (m : MutexId) (t : Tid) (a : Abs) : Abs :=
  (a.core (·.setOwner m none)).setHeldBy t ((a.heldBy t).erase m)

/-- The mutex `m` goes to the waiter `next`. -/
def give (m : MutexId) (next : Tid) (a : Abs) : Abs := (a.acquire m next).wake next

/-- The highest priority at which a task is ready. -/
def Top (a : Abs) (p : Nat) : Prop := a.seq (.ready p) ≠ [] ∧ ∀ q, p < q → a.seq (.ready q) = []

end Abs

def DataOp.Enabled (a : Abs) : DataOp → Prop
  | .mark o => o.isMark = true
  | .frame _ _ | .tick | .setFlag _ | .start => True
  | .quiet e => a.Quiet e
  | .takeToken s _ => a.count s ≠ 0
  | .addToken s => a.seq (.wait (.sem s)) = [] ∧ a.count s ≠ 0xFFFFFFFF#32
  | .dropToken s => a.seq (.wait (.sem s)) = [] ∧ a.count s = 0xFFFFFFFF#32
  | .pushFrom q _ => a.seq (.wait (.receivers q)) = [] ∧ (a.ring q).count < a.config.capacity q
  | .popTo q _ => (a.ring q).count ≠ 0 ∧ a.seq (.wait (.senders q)) = []
  | .consume .. | .addBits .. | .dropBits .. => True

def Handing.Enabled (a : Abs) (t : Tid) : Handing → Prop
  | .bits g => t ∈ a.seq (.wait (.waiters g)) ∧
      EventGroup.conditionMet (a.tcb t) (a.currentBits g) = true
  | .slot q _ => (a.seq (.wait (.senders q))).head? = some t ∧ (a.ring q).count ≠ 0
  | h => (a.seq (.wait h.list)).head? = some t

/-- What the caller `t` found when it decided to wait. -/
def Wait.Blocks (a : Abs) (t : Tid) : Wait → Prop
  | .take s => a.count s = 0
  | .lock m => ∃ o, a.owner m = some o ∧ o ≠ t ∧ o < a.taskCount
  | .send q => a.seq (.wait (.receivers q)) = [] ∧ ¬ (a.ring q).count < a.config.capacity q
  | .receive q => (a.ring q).count = 0
  | .bits g mask waitAll _ => EventGroup.bitsSatisfy (a.currentBits g) mask waitAll = false

namespace Action

def Enabled (a : Abs) : Action → Prop
  | .data d => d.Enabled a
  | .save t => t < a.taskCount
  | .ready t => t < a.taskCount ∧ ((a.tcb t).state = .suspended ∨ (a.tcb t).state = .running)
  | .switch t => (∀ c, a.currentTask = some c → (a.tcb c).state ≠ .running) ∧
      ∃ p, a.Top p ∧ (a.seq (.ready p)).head? = some t
  | .alloc => a.taskCount < a.config.kMaxTasks
  | .initTcb t _ p => t < a.taskCount ∧ (a.tcb t).state = .suspended ∧ p < kMaxPriorities ∧
      ∀ m, a.owner m ≠ some t
  | .sleep t n => t < a.taskCount ∧ (a.tcb t).state = .running ∧ 1 ≤ n
  | .countDown => a.Positive
  | .expire t => ∃ rest, a.sleepers = (t, 0) :: rest
  | .retire t st => t < a.taskCount ∧ (a.tcb t).state ≠ .suspended ∧ st = .suspended ∨
      t < a.taskCount ∧ st = .deleted
  | .park w t timeout => t < a.taskCount ∧ (a.tcb t).state = .running ∧
      (∀ n ∈ timeout, 1 ≤ n ∧ ∀ m, w ≠ .lock m) ∧ w.Blocks a t
  | .hand h t => h.Enabled a t
  | .acquire m t => a.owner m = none ∧ (a.tcb t).state = .running ∧ m < a.config.mutexes
  | .release m t => a.owner m = some t ∧ (a.tcb t).state = .running ∧ a.seq (.wait (.mutex m)) = []
  | .pass m t next => a.owner m = some t ∧ (a.tcb t).state = .running ∧
      (a.seq (.wait (.mutex m))).head? = some next

def apply (a : Abs) : Action → Abs
  | .data d => a.core d.run
  | .save t => a.core fun e => e.setTask t fun c => { c with sp := e.currentSp }
  | .ready t => a.ready t
  | .switch t => a.switch t
  | .alloc => a.alloc
  | .initTcb t site p => a.initTcb t site p
  | .sleep t n => a.sleep t n
  | .countDown => a.countDown
  | .expire t => a.expire t
  | .retire t st => a.retire t st
  | .park w t timeout => a.park w t timeout
  | .hand h t => (a.core (h.run t)).wake t
  | .acquire m t => a.acquire m t
  | .release m t => (a.drop m t).restore t
  | .pass m t next => ((a.drop m t).give m next).restore t

end Action

/-! ### Visits -/

/-- A `task_yield()` is still to come. -/
def Pc.owes : Pc → Bool
  | .yield _ | .yieldWait _ | .startYield | .create (.preempt _) _ _ _ => true
  | _ => false

/-- How the kernel is entered: by a call of the running context, by a call of an interrupt handler, by
SysTick or by PendSV. -/
inductive Entry
  | call
  | handler
  | sysTick
  | pendSV
  deriving DecidableEq

/-- One visit to the kernel: who makes it, whether inside a user critical section, what the visitor does
before and after it, and whether the visit promises a context switch. -/
structure Visit where
  entry : Entry
  ctx : Ctx
  masked : Bool
  before : Pc
  after : Pc
  owed : Bool

namespace Visit

/-- A step of the running context `c`. -/
def call (c : Ctx) (masked : Bool) (before after : Pc) : Visit :=
  ⟨.call, c, masked, before, after, after.owes⟩

/-- The visit of an interrupt handler. -/
def handler (owed : Bool) : Visit := ⟨.handler, .isr, false, .user, .user, owed⟩

def sysTick : Visit := ⟨.sysTick, .isr, false, .user, .user, true⟩

def pendSV : Visit := ⟨.pendSV, .isr, false, .user, .user, true⟩

end Visit

def DataOp.Fits (v : Visit) (a : Abs) : DataOp → Prop
  | .mark (.call c _) | .mark (.ret c _) => c = v.ctx
  | .mark _ => v.ctx = .isr
  | .frame c _ | .takeToken _ c | .pushFrom _ c | .popTo _ c | .consume _ c _ _ => c = v.ctx
  | .tick => v.entry = .sysTick
  | .setFlag x => ∃ f p, v.before = .create .setFlag x f p
  | .start => v.before = .startRun
  | .addBits g mask => v.before = .user ∧ ((talk v.ctx a.trace).asked = some (.inl (.setBits g mask)) ∨
      (talk v.ctx a.trace).asked = some (.inr (.setBitsFromIsr g mask)))
  | _ => True

def Handing.Fits (v : Visit) : Handing → Prop
  | .item _ p | .slot _ p => p = v.ctx
  | _ => True

/-- Who performs an action, and that a woken task of higher priority gets its context switch. -/
def Action.Fits (v : Visit) (a : Abs) : Action → Prop
  | .data d => d.Fits v a
  | .save t => v.entry = .pendSV ∧ a.currentTask = some t
  | .ready t =>
      ((v.before = .resumeBody t ∨ ∃ site f p, v.before = .create (.ready t) site f p) ∧
          (a.tcb t).state = .suspended ∨
        v.entry = .pendSV ∧ (a.tcb t).state = .running) ∧ (a.preempts t = true → v.owed = true)
  | .switch _ => v = .pendSV
  | .countDown | .expire _ => v.entry = .sysTick
  | .alloc => ∃ site f p, v.before = .create .alloc site f p ∧
      v.after = .create (.init a.taskCount) site f p
  | .initTcb t site p => ∃ f, v.before = .create (.init t) site f p
  | .sleep t _ => v.ctx = .task t ∧ v.masked = false ∧ v.after = .yield .unit ∧ v.owed = true
  | .retire t st =>
      (v.before = .suspendBody t ∧ st = .suspended ∨ v.before = .deleteBody t ∧ st = .deleted) ∧
        (a.currentTask = some t → v.masked = false ∧ v.after = .yield .unit ∧ v.owed = true)
  | .park w t _ => v.ctx = .task t ∧ v.masked = false ∧ v.after = .yieldWait w ∧ v.owed = true
  | .hand h t => h.Fits v ∧ (a.preempts t = true → v.owed = true)
  | .acquire m t => v.ctx = .task t ∧ v.after = .ret (.bool true) ∧
      (talk (.task t) a.trace).asked = some (.inl (.lock m))
  | .release m t => v.ctx = .task t ∧ (talk (.task t) a.trace).asked = some (.inl (.unlock m)) ∧
      (v.owed = false → (a.drop m t).recompute t = (a.tcb t).priority)
  | .pass m t next => v.ctx = .task t ∧ (talk (.task t) a.trace).asked = some (.inl (.unlock m)) ∧
      (a.preempts next = true → v.owed = true) ∧
      (v.owed = false → ((a.drop m t).give m next).recompute t = (a.tcb t).priority)

/-- The actions of one visit, each enabled where it is taken. -/
def Runs (v : Visit) : Abs → List Action → Abs → Prop
  | a, [], a' => a' = a
  | a, act :: acts, a' => act.Enabled a ∧ act.Fits v a ∧ Runs v (act.apply a) acts a'

namespace Runs

variable {v : Visit} {a b c : Abs} {acts acts' : List Action}

theorem append (h : Runs v a acts b) (h' : Runs v b acts' c) : Runs v a (acts ++ acts') c := by
  induction acts generalizing a with
  | nil => obtain rfl : b = a := h; exact h'
  | cons act acts ih => exact ⟨h.1, h.2.1, ih h.2.2⟩

theorem single (act : Action) (he : act.Enabled a) (hf : act.Fits v a) : Runs v a [act] (act.apply a) :=
  ⟨he, hf, rfl⟩

theorem invariant {P : Abs → Prop} (h : Runs v a acts b) (ha : P a)
    (hstep : ∀ act ∈ acts, ∀ c, P c → act.Enabled c → act.Fits v c → P (act.apply c)) : P b := by
  induction acts generalizing a with
  | nil => obtain rfl : b = a := h; exact ha
  | cons act acts ih =>
    exact ih h.2.2 (hstep act (by simp) a ha h.1 h.2.1) fun act' hmem => hstep act' (by simp [hmem])

end Runs

/-! ### Data operations touch no task -/

namespace Core

/-- The parts of the core that say where a task has to be. -/
structure Alike (e e' : Core) : Prop where
  tcb : e'.tcb = e.tcb
  currentTask : e'.currentTask = e.currentTask
  taskCount : e'.taskCount = e.taskCount
  config : e'.config = e.config
  owner : e'.owner = e.owner
  started : e.started = true → e'.started = true

theorem Alike.refl (e : Core) : e.Alike e := ⟨rfl, rfl, rfl, rfl, rfl, id⟩

theorem Alike.trans {e₁ e₂ e₃ : Core} (h : e₁.Alike e₂) (h' : e₂.Alike e₃) : e₁.Alike e₃ :=
  ⟨h'.tcb.trans h.tcb, h'.currentTask.trans h.currentTask, h'.taskCount.trans h.taskCount,
    h'.config.trans h.config, h'.owner.trans h.owner, fun hs => h'.started (h.started hs)⟩

section
variable (e : Core) (o : Obs) (c : Ctx) (f : Frame → Frame) (s : SemId) (n : BitVec 32) (q : QueueId)
  (r : Ring) (x : Fault)

theorem alike_emit : e.Alike (e.emit o) := ⟨rfl, rfl, rfl, rfl, rfl, id⟩
theorem alike_setFrame : e.Alike (e.setFrame c f) := ⟨rfl, rfl, rfl, rfl, rfl, id⟩
theorem alike_setCount : e.Alike (e.setCount s n) := ⟨rfl, rfl, rfl, rfl, rfl, id⟩
theorem alike_setBits : e.Alike (e.setBits s n) := ⟨rfl, rfl, rfl, rfl, rfl, id⟩
theorem alike_setRing : e.Alike (e.setRing q r) := ⟨rfl, rfl, rfl, rfl, rfl, id⟩
theorem alike_fail : e.Alike (e.fail x) := ⟨rfl, rfl, rfl, rfl, rfl, id⟩

end

theorem alike_consume (g : EventId) (c : Ctx) (mask : BitVec 32) (clear : Bool) (e : Core) :
    e.Alike (EventGroup.consume g c mask clear e) := by
  cases clear with
  | true => exact (alike_setBits e g _).trans (alike_emit _ _)
  | false => exact alike_emit _ _

theorem alike_report (t : Tid) (v : BitVec 32) (e : Core) : e.Alike (EventGroup.report t v e) := by
  unfold EventGroup.report
  split
  · exact alike_setFrame _ _ _
  · exact Alike.refl _

theorem alike_pushFrom (q : QueueId) (p : Ctx) (e : Core) : e.Alike (QueueCore.pushFrom q p e) :=
  (alike_setRing e q _).trans (alike_emit _ _)

theorem alike_popTo (q : QueueId) (p : Ctx) (e : Core) : e.Alike (QueueCore.popTo q p e) :=
  ((alike_setRing e q _).trans (alike_setFrame _ p _)).trans (alike_emit _ _)

end Core

open AcRtos.Core in
theorem DataOp.alike {a : Abs} {d : DataOp} (h : d.Enabled a) : a.toCore.Alike (d.run a.toCore) := by
  cases d with
  | mark o => exact alike_emit _ _
  | frame c f => exact alike_setFrame _ _ _
  | quiet e => exact ⟨h.tcb, h.currentTask, h.taskCount, h.config, h.owner, fun hs => h.started.trans hs⟩
  | tick => exact ⟨rfl, rfl, rfl, rfl, rfl, id⟩
  | setFlag x => exact ⟨rfl, rfl, rfl, rfl, rfl, id⟩
  | start => exact ⟨rfl, rfl, rfl, rfl, rfl, fun _ => rfl⟩
  | takeToken s c => exact (alike_setCount _ _ _).trans (alike_emit _ _)
  | addToken s => exact (alike_setCount _ _ _).trans (alike_emit _ _)
  | dropToken s => exact alike_emit _ _
  | pushFrom q p => exact alike_pushFrom _ _ _
  | popTo q p => exact alike_popTo _ _ _
  | consume g c mask clear => exact alike_consume _ _ _ _ _
  | addBits g mask => exact (alike_setBits _ _ _).trans (alike_emit _ _)
  | dropBits g mask => exact (alike_setBits _ _ _).trans (alike_emit _ _)

open AcRtos.Core in
theorem Handing.alike (h : Handing) (t : Tid) (e : Core) : e.Alike (h.run t e) := by
  cases h with
  | token s => exact alike_emit _ _
  | item q p =>
    show e.Alike (QueueCore.handOver q p t e)
    unfold QueueCore.handOver
    split
    · exact alike_fail _ _
    · exact ((alike_setFrame _ _ _).trans (alike_emit _ _)).trans (alike_emit _ _)
  | slot q p =>
    refine (alike_popTo q p e).trans ?_
    show Core.Alike _ (QueueCore.pushOf q t _)
    unfold QueueCore.pushOf
    split
    · exact alike_fail _ _
    · exact alike_pushFrom _ _ _
  | bits g =>
    refine (alike_consume g (.task t) (e.tcb t).eventWaitMask (e.tcb t).eventClearOnExit e).trans ?_
    exact alike_report t _ _

end AcRtos
