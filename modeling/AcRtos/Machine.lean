import AcRtos.Queue

/-!
# The machine

One CPU runs `main()`, the tasks and the interrupt handlers over the kernel. A step is one critical
section, or one read or write outside of them, of the running context; one call of an interrupt handler;
a SysTick; or PendSV. Between the end of a critical section and its `task_yield()` interrupts may come, and
so may a context switch they pend. The application is arbitrary: any context in user code may make any
call, as long as

* blocking calls are made outside user critical sections (`cs = 0`),
* `suspend`/`resume`/`terminate` get a handle that `create_task` made, so never the idle task,
* an item has the size of the queue's item type, a mutex is one of the application's mutexes, and `start()`
  is called by `main()` with a free slot for the idle task (`kMaxTasks` counts it).
-/

namespace AcRtos

/-- Where a context is inside `create_task`; the phases from `init` on know the new control block. -/
inductive CreatePhase
  | assertFlag
  | testFlag
  | setFlag
  | copy
  | alloc
  | init (t : Tid)
  | ready (t : Tid)
  | preempt (t : Tid)
  deriving DecidableEq, Repr

/-- What a context does next. -/
inductive Pc
  | user
  | create (phase : CreatePhase) (site : Site) (callable : Callable) (priority : Nat)
  | startRun
  | startYield
  | halted
  | suspendBody (t : Tid)
  | resumeBody (t : Tid)
  | deleteBody (t : Tid)
  | waitBody (g : EventId) (mask : BitVec 32) (waitAll clearOnExit : Bool) (timeoutMs : TickType)
  /-- `task_yield()`, then return `r`. -/
  | yield (r : Ret)
  /-- `task_yield()`, then read how the wait ended. -/
  | yieldWait (w : Wait)
  | finish (w : Wait)
  | reread (g : EventId)
  | ret (r : Ret)
  deriving DecidableEq, Repr

/-- The kernel, the PendSV pending bit, what every context does next, the nesting of the running context's
user critical sections, the idle task and the handles `create_task` has made. -/
structure Sys where
  k : Kernel
  pend : Bool
  pc : Ctx → Pc
  cs : Nat
  idle : Option Tid
  handles : List Tid

inductive Event
  | call (c : Call)
  | advance
  | tick
  /-- A handler's call; `yield`: the handler then calls `task_yield()`. -/
  | isr (c : IsrCall) (yield : Bool)
  | pendSV (psp : Nat)
  deriving DecidableEq, Repr

namespace Call

/-- Calls that may give up the CPU. -/
def mayBlock (self : Ctx) : Call → Bool
  | .start | .delayMs _ | .delayUntil _ | .lock _ => true
  | .suspend (some t) | .terminate (some t) => self == .task t
  | .take _ timeoutMs | .send _ _ timeoutMs | .receive _ timeoutMs | .waitBits _ _ _ _ timeoutMs =>
      timeoutMs != 0
  | _ => false

/-- The rules of the application. -/
def admissible (s : Sys) (c : Call) : Bool :=
  (!c.mayBlock s.k.self || s.cs == 0) &&
  match c with
  | .createTask site _ _ => site != idleSite
  | .start => s.k.started || (s.k.self == .main && decide (s.k.taskCount < s.k.config.kMaxTasks))
  | .suspend (some t) | .resume (some t) | .terminate (some t) => s.handles.contains t
  | .yield => s.k.started
  | .lock m | .unlock m => decide (m < s.k.config.mutexes)
  | .send q item _ => decide (item.length = s.k.config.itemSize q)
  | .exitCritical => s.cs != 0
  | _ => true

end Call

namespace Sys

def init (config : Config) : Sys where
  k := Kernel.init config
  pend := false
  pc := fun _ => .user
  cs := 0
  idle := none
  handles := []

def setPc (c : Ctx) (p : Pc) (s : Sys) : Sys := { s with pc := Function.update s.pc c p }

def setK (k : Kernel) (s : Sys) : Sys := { s with k := k }

/-- The running context's next instruction: unless PRIMASK is set, a pending PendSV comes first. -/
def canRun (s : Sys) : Bool := s.cs != 0 || !s.pend

/-- What follows a critical section. -/
def afterSection : Outcome → Pc
  | .ret r true => .yield r
  | .ret r false => .ret r
  | .wait w => .yieldWait w

/-- The running context `c` executed a critical section. -/
def settle (c : Ctx) (r : Outcome × Kernel) (s : Sys) : Sys :=
  (s.setK r.2).setPc c (afterSection r.1)

/-- The first steps of a call of `c`. -/
def beginCall (c : Ctx) (call : Call) (s : Sys) : Sys :=
  let k := s.k.emit (.call c call)
  match call with
  | .createTask site f priority => (s.setK k).setPc c (.create .assertFlag site f priority)
  | .start =>
      if k.started then (s.setK (k.check .startedTwice false)).setPc c .halted
      else (s.setK k).setPc c (.create .assertFlag idleSite idleCallable 0)
  | .delayMs ms => s.settle c (Scheduler.delayMs ms k)
  | .delayUntil wakeTime => s.settle c (Scheduler.delayUntil wakeTime k)
  | .suspend none | .resume none | .terminate none => (s.setK k).setPc c (.ret .unit)
  | .suspend (some t) =>
      (s.setK k).setPc c (if (k.tcb t).state = .deleted then .ret .unit else .suspendBody t)
  | .resume (some t) =>
      (s.setK (k.check .resumeInDelayList (!k.delay.inDelayList t))).setPc c (.resumeBody t)
  | .terminate (some t) =>
      (s.setK k).setPc c (if (k.tcb t).state = .deleted then .ret .unit else .deleteBody t)
  | .yield => (s.setK k).setPc c (.yield .unit)
  | .take x timeoutMs => s.settle c (Semaphore.take x timeoutMs k)
  | .tryTake x =>
      let r := Semaphore.tryTake x c k
      s.settle c (.ret (.bool r.1) false, r.2)
  | .give x => s.settle c (Semaphore.give x k)
  | .lock m => s.settle c (Mutex.lock m k)
  | .unlock m => s.settle c (Mutex.unlock m k)
  | .send q item timeoutMs =>
      s.settle c (QueueCore.send q timeoutMs (k.core (·.setFrame c fun f => { f with item := item })))
  | .receive q timeoutMs => s.settle c (QueueCore.receive q timeoutMs k)
  | .waitBits g mask waitAll clearOnExit timeoutMs =>
      if mask = 0 then s.settle c (EventGroup.readBits g k)
      else
        match k.currentTask with
        | none => s.settle c (EventGroup.readBits g (k.check .waitBitsBeforeStart false))
        | some _ =>
            (s.setK (k.core (·.setFrame c fun f => { f with bits := 0 }))).setPc c
              (.waitBody g mask waitAll clearOnExit timeoutMs)
  | .setBits g mask => s.settle c (EventGroup.setBits g mask k)
  | .clearBits g mask => s.settle c (EventGroup.clearBits g mask k)
  | .getBits g => s.settle c (EventGroup.readBits g k)
  | .enterCritical => { (s.setK k).setPc c (.ret .unit) with cs := s.cs + 1 }
  | .exitCritical => { (s.setK k).setPc c (.ret .unit) with cs := s.cs - 1 }

/-- The end of `create_task`: back to its caller, which for the idle task is `start()`. -/
def created (c : Ctx) (site : Site) (h : Option Tid) (k : Kernel) (s : Sys) : Sys :=
  if site = idleSite then (s.setK (k.check .noSlotForIdle h.isSome)).setPc c .startRun
  else (s.setK k).setPc c (.ret (.task h))

/-- One step of `create_task`. -/
def advanceCreate (c : Ctx) (phase : CreatePhase) (site : Site) (f : Callable) (priority : Nat)
    (s : Sys) : Sys :=
  let goto := fun (p : CreatePhase) (s : Sys) => s.setPc c (.create p site f priority)
  match phase with
  | .assertFlag => goto .testFlag (s.setK (s.k.check .createdTwice (!s.k.isCreated site)))
  | .testFlag => if s.k.isCreated site then s.created c site none s.k else goto .setFlag s
  | .setFlag =>
      goto .copy (s.setK (s.k.core fun e => { e with isCreated := Function.update e.isCreated site true }))
  | .copy => goto .alloc (s.setK (s.k.core (·.setStorage site fun x => { x with callable := some f })))
  | .alloc =>
      let r := Scheduler.allocate priority s.k
      match r.1 with
      | none => s.created c site none r.2
      | some t => goto (.init t) (s.setK r.2)
  | .init t => goto (.ready t) (s.setK (Scheduler.initTcb t site priority s.k))
  | .ready t =>
      let s := goto (.preempt t) (s.setK (Scheduler.addToReadyQueue t s.k))
      if site = idleSite then { s with idle := some t } else { s with handles := t :: s.handles }
  | .preempt t =>
      let s := s.created c site (some t) s.k
      if s.k.preempts t then { s with pend := true } else s

/-- The call of `t` that waited on `w` is back from `task_yield()`. -/
def afterWait (t : Tid) (w : Wait) (k : Kernel) : Pc :=
  let expired := (k.tcb t).timeoutExpired
  match w with
  | .bits g _ _ _ => if expired then .reread g else .ret (.bits (k.frame (.task t)).bits)
  | _ => .ret (.bool !expired)

/-- The next step of the running context inside a call. -/
def advance (c : Ctx) (s : Sys) : Option Sys :=
  match s.pc c with
  | .user | .halted => none
  | .create phase site f priority => some (s.advanceCreate c phase site f priority)
  | .startRun => some ((s.setK (s.k.core fun e => { e with started := true })).setPc c .startYield)
  | .startYield => some { s.setPc c .halted with pend := true }
  | .suspendBody t => some (s.settle c (Scheduler.suspendTask t s.k))
  | .resumeBody t => some (s.settle c (Scheduler.resumeTask t s.k))
  | .deleteBody t => some (s.settle c (Scheduler.deleteTask t s.k))
  | .waitBody g mask waitAll clearOnExit timeoutMs =>
      match s.k.currentTask with
      | none => none
      | some t => some (s.settle c (EventGroup.waitBits g mask waitAll clearOnExit timeoutMs t s.k))
  | .yield r => some { s.setPc c (.ret r) with pend := true }
  | .yieldWait w => some { s.setPc c (.finish w) with pend := true }
  | .finish w =>
      match s.k.currentTask with
      | none => none
      | some t => some (s.setPc c (afterWait t w s.k))
  | .reread g => some (s.settle c (EventGroup.readBits g s.k))
  | .ret r => some ((s.setK (s.k.emit (.ret c r))).setPc c .user)

/-- A handler's call: its result, whether it reports that a yield is due, and the kernel. -/
def isrCall (c : IsrCall) (k : Kernel) : (Ret × Bool) × Kernel :=
  match c with
  | .tryTakeFromIsr x =>
      let r := Semaphore.tryTakeFromIsr x k
      ((.bool r.1, false), r.2)
  | .giveFromIsr x =>
      let r := Semaphore.giveFromIsr x k
      ((.bool r.1, r.1), r.2)
  | .sendFromIsr q item =>
      let r := QueueCore.sendFromIsr q (k.core (·.setFrame .isr fun f => { f with item := item }))
      ((.bool r.1.1, r.1.2), r.2)
  | .receiveFromIsr q =>
      let r := QueueCore.receiveFromIsr q k
      ((.bool r.1.1, r.1.2), r.2)
  | .setBitsFromIsr g mask =>
      let r := EventGroup.setBitsFromIsr g mask k
      ((.bits (r.2.currentBits g), r.1), r.2)

def isrAdmissible (k : Kernel) : IsrCall → Bool
  | .sendFromIsr q item => decide (item.length = k.config.itemSize q)
  | _ => true

/-- One step of the machine. After a fault nothing moves any more. -/
def step (s : Sys) (e : Event) : Option Sys :=
  if s.k.fault.isSome then none
  else
    match e with
    | .call c =>
        if s.canRun && s.pc s.k.self == .user && (s.idle.map Ctx.task != some s.k.self) &&
            c.admissible s then
          some (s.beginCall s.k.self c)
        else none
    | .advance => if s.canRun then s.advance s.k.self else none
    | .tick =>
        if s.cs == 0 && s.k.started then
          let r := Scheduler.tick s.k
          some { s.setK r.2 with pend := s.pend || r.1 }
        else none
    | .isr c yield =>
        if s.cs == 0 && isrAdmissible s.k c && (!yield || s.k.started) then
          let r := isrCall c (s.k.emit (.isrCall c))
          some { s.setK (r.2.emit (.ret .isr r.1.1)) with pend := s.pend || yield }
        else none
    | .pendSV psp =>
        if s.pend && s.cs == 0 then
          some { s.setK (Scheduler.pendSV psp s.k) with pend := false }
        else none

/-- The steps of a list of events. -/
def run (s : Sys) : List Event → Option Sys
  | [] => some s
  | e :: es =>
      match s.step e with
      | some s' => run s' es
      | none => none

/-- `P` holds in every state that the events pass. -/
def Throughout (P : Sys → Prop) (s : Sys) : List Event → Prop
  | [] => P s
  | e :: es => P s ∧ ∀ s', s.step e = some s' → Throughout P s' es

/-- Every step of the events is as `good` says of its state and event. -/
def Each (good : Sys → Event → Prop) (s : Sys) : List Event → Prop
  | [] => True
  | e :: es => good s e ∧ ∀ s', s.step e = some s' → Each good s' es

/-- A `create_task` call of the running context, with all its steps. -/
def createRun (site : Site) (priority : Nat) : List Event :=
  .call (.createTask site site priority) :: List.replicate 9 .advance

/-- `start()` up to the dispatch of the first task. -/
def startRun : List Event := .call .start :: List.replicate 10 .advance ++ [.pendSV 0]

/-- One task is created and started, and delays itself for five ticks. -/
def sleepRun : List Event := createRun 1 3 ++ startRun ++ [.call (.delayMs 5), .advance]

end Sys

theorem Sys.run_cons {s s' : Sys} {e : Event} {es : List Event} (hrun : s.run (e :: es) = some s') :
    ∃ s₁, s.step e = some s₁ ∧ s₁.run es = some s' := by
  rw [Sys.run] at hrun
  split at hrun
  · exact ⟨_, ‹_›, hrun⟩
  · cases hrun

theorem Sys.run_concat {s s' : Sys} {e : Event} {es : List Event} (hrun : s.run (es ++ [e]) = some s') :
    ∃ s₁, s.run es = some s₁ ∧ s₁.step e = some s' := by
  induction es generalizing s with
  | nil =>
    obtain ⟨s₁, hs, hrun⟩ := Sys.run_cons hrun
    cases hrun
    exact ⟨s, rfl, hs⟩
  | cons e' es ih =>
    obtain ⟨s₁, hs, hrun⟩ := Sys.run_cons hrun
    obtain ⟨s₂, hrun', hs'⟩ := ih hrun
    refine ⟨s₂, ?_, hs'⟩
    rw [Sys.run, hs]
    exact hrun'

theorem Sys.Throughout.head {P : Sys → Prop} {s : Sys} {es : List Event} (h : s.Throughout P es) : P s := by
  cases es with
  | nil => exact h
  | cons e es => exact h.1

theorem Sys.Each.append {good : Sys → Event → Prop} {s s' : Sys} {es es' : List Event} (h : s.Each good (es ++ es'))
    (hrun : s.run es = some s') : s.Each good es ∧ s'.Each good es' := by
  induction es generalizing s with
  | nil =>
    cases hrun
    exact ⟨trivial, h⟩
  | cons e es ih =>
    obtain ⟨s₁, hs, hrun⟩ := Sys.run_cons hrun
    obtain ⟨h₁, h₂⟩ := ih (h.2 s₁ hs) hrun
    refine ⟨⟨h.1, fun s₂ hs₂ => ?_⟩, h₂⟩
    obtain rfl : s₁ = s₂ := Option.some.inj (hs.symm.trans hs₂)
    exact h₁

theorem Sys.Each.and {good good' : Sys → Event → Prop} {s : Sys} {es : List Event} (h : s.Each good es)
    (h' : s.Each good' es) : s.Each (fun s e => good s e ∧ good' s e) es := by
  induction es generalizing s with
  | nil => trivial
  | cons e es ih => exact ⟨⟨h.1, h'.1⟩, fun s₁ hs => ih (h.2 s₁ hs) (h'.2 s₁ hs)⟩

/-- On a given run it can be decided whether every step is good. -/
instance Sys.decidableEach (good : Sys → Event → Prop) [∀ s e, Decidable (good s e)] :
    (s : Sys) → (es : List Event) → Decidable (s.Each good es)
  | _, [] => isTrue trivial
  | s, e :: es =>
    match h : s.step e with
    | none => decidable_of_iff (good s e) ⟨fun hg => ⟨hg, fun s' hs => by rw [h] at hs; cases hs⟩, And.left⟩
    | some s₁ =>
      have := decidableEach good s₁ es
      decidable_of_iff (good s e ∧ s₁.Each good es)
        ⟨fun hg => ⟨hg.1, fun s' hs => Option.some.inj (h.symm.trans hs) ▸ hg.2⟩,
          fun hg => ⟨hg.1, hg.2 s₁ h⟩⟩

theorem Sys.each_of_forall {good : Sys → Event → Prop} {es : List Event} (h : ∀ e ∈ es, ∀ s, good s e)
    (s : Sys) :
    s.Each good es := by
  induction es generalizing s with
  | nil => trivial
  | cons e es ih => exact ⟨h e (by simp) s, fun s' _ => ih (fun e' he' => h e' (by simp [he'])) s'⟩

/-- The states of the machine. -/
inductive Reachable (config : Config) : Sys → Prop
  | init : Reachable config (Sys.init config)
  | step {s s' : Sys} (e : Event) (h : Reachable config s) (hs : s.step e = some s') : Reachable config s'

theorem Reachable.run {config : Config} {s s' : Sys} {es : List Event} (h : Reachable config s)
    (hrun : s.run es = some s') : Reachable config s' := by
  induction es generalizing s with
  | nil =>
    cases hrun
    exact h
  | cons e es ih =>
    obtain ⟨s₁, hs, hrun⟩ := Sys.run_cons hrun
    exact ih (h.step e hs) hrun

/-- When a step keeps `P` exactly if it is `good`, `P` holds throughout a run exactly if all its steps are. -/
theorem Reachable.throughout_iff {config : Config} {P : Sys → Prop} {good : Sys → Event → Prop} {s s' : Sys}
    {es : List Event} (h : Reachable config s) (hrun : s.run es = some s') (hP : P s)
    (hstep : ∀ s e s', Reachable config s → P s → s.step e = some s' → (P s' ↔ good s e)) :
    s.Throughout P es ↔ s.Each good es := by
  induction es generalizing s with
  | nil => exact ⟨fun _ => trivial, fun _ => hP⟩
  | cons e es ih =>
    obtain ⟨s₁, hs, hrun⟩ := Sys.run_cons hrun
    constructor
    · rintro ⟨-, hrest⟩
      have hP₁ : P s₁ := by
        have := hrest s₁ hs
        cases es with
        | nil => exact this
        | cons e' es' => exact this.1
      refine ⟨(hstep s e s₁ h hP hs).mp hP₁, fun s₂ hs₂ => ?_⟩
      obtain rfl : s₁ = s₂ := Option.some.inj (hs.symm.trans hs₂)
      exact (ih (h.step e hs) hrun hP₁).mp (hrest s₁ hs)
    · rintro ⟨hg, hrest⟩
      refine ⟨hP, fun s₂ hs₂ => ?_⟩
      obtain rfl : s₁ = s₂ := Option.some.inj (hs.symm.trans hs₂)
      exact (ih (h.step e hs) hrun ((hstep s e s₁ h hP hs).mpr hg)).mpr (hrest s₁ hs)

end AcRtos
