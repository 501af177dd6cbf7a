import AcRtos.Bystanders
import AcRtos.Steps

/-!
# Calls and their answers

What a call of a context must leave behind when it returns: the entries that the history has for it since the
call began, and the buffer or the mutex it leaves the caller with. A call that parks is at first `Waiting`; when
its wait has ended it is either `Failed`, with no entry, or `Served`, and then it has its answer already.

Two slips of the code spoil an answer: `wait_bits` reads the bits again when its wait has failed, and then it
reports bits that it does not clear; and a second `lock()` of the owner fails although the caller has the mutex.
`Slips` says which of them a run may meet.
-/

namespace AcRtos

open Abs AcRtos.Core

structure Slips where
  stale : Prop
  relock : Prop

/-- What a wait matches it clears, if it was asked to. -/
def EventGroup.Consumes (mask : BitVec 32) (waitAll clear : Bool) (v after : BitVec 32) : Prop :=
  bitsSatisfy v mask waitAll = true → after = if clear then v &&& ~~~mask else v

namespace Call

/-- The wait that a call makes when it cannot be served at once. -/
def waits : Call → Option Wait
  | .take s _ => some (.take s)
  | .lock m => some (.lock m)
  | .send q _ _ => some (.send q)
  | .receive q _ => some (.receive q)
  | .waitBits g mask waitAll clear _ => some (.bits g mask waitAll clear)
  | _ => none

/-- The entries `os` that the history has of a call of `c` that returns `r`. -/
def Answer (σ : Slips) (c : Ctx) (os : List Obs) (r : Ret) : Call → Prop
  | .take s _ => r = .bool true ∧ (os = [.semTake s c] ∨ ∃ t, c = .task t ∧ os = [.semHand s t]) ∨
      r = .bool false ∧ os = []
  | .tryTake s => r = .bool true ∧ os = [.semTake s c] ∨ r = .bool false ∧ os = []
  | .send q item _ => r = .bool true ∧ os = [.accept q c item] ∨ r = .bool false ∧ os = []
  | .receive q _ => (∃ x, r = .bool true ∧ os = [.deliver q c x]) ∨ r = .bool false ∧ os = []
  | .waitBits g mask waitAll clear _ => ∃ v after, r = .bits v ∧ os = [.bitsRead g c v after] ∧
      (EventGroup.Consumes mask waitAll clear v after ∨ σ.stale)
  | .getBits g => ∃ v, r = .bits v ∧ os = [.bitsRead g c v v]
  | .createTask _ _ _ => os = [] ∧ ∃ x, r = .task x
  | .lock _ | .unlock _ => os = [] ∧ ∃ b, r = .bool b
  | .setBits _ _ | .clearBits _ _ => os = [] ∧ ∃ v, r = .bits v
  | _ => os = [] ∧ r = .unit

/-- What the call leaves its caller with: the item received, or the mutex. -/
def Leaves (σ : Slips) (e : Core) (c : Ctx) (os : List Obs) (r : Ret) : Call → Prop
  | .receive q _ => ∀ x, os = [.deliver q c x] → (e.frame c).item = x
  | .lock m => ∀ t, c = .task t →
      r = .bool true ∧ e.owner m = some t ∨ r = .bool false ∧ (e.owner m ≠ some t ∨ σ.relock)
  | _ => True

end Call

namespace Wait

/-- The request in a control block. -/
def Requested (c : TaskControlBlock) : Wait → Prop
  | .bits _ mask waitAll clear =>
      c.eventWaitMask = mask ∧ c.eventWaitAll = waitAll ∧ c.eventClearOnExit = clear
  | _ => True

/-- What a served wait returns. -/
def result (f : Frame) : Wait → Ret
  | .bits _ _ _ _ => .bits f.bits
  | _ => .bool true

end Wait

namespace Core

/-- `c` is in the call `x`, and the history has no entry for it yet. -/
def Asks (e : Core) (c : Ctx) (x : Call) : Prop := talk c e.trace = ⟨some (.inl x), []⟩

/-- The call `x` of `c` is answered with `r`. -/
def Answers (σ : Slips) (e : Core) (c : Ctx) (x : Call) (r : Ret) : Prop :=
  ∃ os, talk c e.trace = ⟨some (.inl x), os⟩ ∧ x.Answer σ c os r ∧ x.Leaves σ e c os r

/-- The call `x` of `t` is parked and waits for `w`. -/
structure Waiting (e : Core) (t : Tid) (x : Call) (w : Wait) : Prop where
  asks : e.Asks (.task t) x
  list : (e.tcb t).waitList = some w.list
  expired : (e.tcb t).timeoutExpired = false
  request : w.Requested (e.tcb t)
  item : ∀ q item ms, x = .send q item ms → copyBytes (e.config.itemSize q) (e.frame (.task t)).item = item
  alien : ∀ m, x = .lock m → e.owner m ≠ some t

/-- The wait of `t` has ended without being served. -/
structure Failed (e : Core) (t : Tid) (x : Call) : Prop where
  asks : e.Asks (.task t) x
  list : (e.tcb t).waitList = none
  expired : (e.tcb t).timeoutExpired = true
  alien : ∀ m, x = .lock m → e.owner m ≠ some t

/-- The wait of `t` has been served. -/
structure Served (σ : Slips) (e : Core) (t : Tid) (x : Call) (w : Wait) : Prop where
  list : (e.tcb t).waitList = none
  expired : (e.tcb t).timeoutExpired = false
  answers : e.Answers σ (.task t) x (w.result (e.frame (.task t)))

/-- The call `x` of `t` has parked on `w`. -/
def Waits (σ : Slips) (e : Core) (t : Tid) (x : Call) (w : Wait) : Prop :=
  x.waits = some w ∧ (e.Waiting t x w ∨ e.Failed t x ∨ e.Served σ t x w)

end Core

/-- What the call `x` of `c` has come to when a section of it ends. -/
def Outcome.Said (σ : Slips) (e : Core) (c : Ctx) (x : Call) : Outcome → Prop
  | .ret r _ => e.Answers σ c x r
  | .wait w => x.waits = some w ∧ ∃ t, c = .task t ∧ e.Waiting t x w

/-- The section of `c` from `e` to `e'` ends so. -/
def Outcome.Tells (σ : Slips) (e e' : Core) (c : Ctx) (x : Call) (o : Outcome) : Prop :=
  (∃ own, e.Writes c own e') ∧ o.Said σ e' c x

/-! ### Sections of the running context -/

section
variable {σ : Slips} {k : Kernel} {a : Abs} {c : Ctx} {x : Call} {t : Tid}

theorem Core.Asks.still {e e' : Core} (h : e.Asks c x) (hstill : e.Still e') : e'.Asks c x := by
  rw [Asks, hstill.trace]
  exact h

theorem Core.Asks.answers {e e' : Core} {own : List Obs} {r : Ret} {y : Bool} (h : e.Asks c x)
    (hw : e.Writes c own e') (hanswer : x.Answer σ c own r) (hleaves : x.Leaves σ e' c own r) :
    (Outcome.ret r y).Tells σ e e' c x :=
  ⟨⟨own, hw⟩, own, by rw [hw.talk, h]; rfl, hanswer, hleaves⟩

theorem Core.Asks.returns {e e' : Core} {r : Ret} {y : Bool} (h : e.Asks c x) (hstill : e.Still e')
    (hanswer : x.Answer σ c [] r) (hleaves : x.Leaves σ e' c [] r) : (Outcome.ret r y).Tells σ e e' c x :=
  h.answers (hstill.writes c) hanswer hleaves

theorem Abs.Entered.free (h : a.Entered) : a.Free a.self := by
  intro t ht
  have hrun := h.running t (self_task ht)
  exact h.wf.waitList_none (by simp [hrun])

theorem Core.check_keeps (y : Assertion) (b : Bool) (e : Core) :
    (e.check y b).tcb = e.tcb ∧ (e.check y b).owner = e.owner := by
  unfold Core.check
  split <;> exact ⟨rfl, rfl⟩

theorem setTaskPriority_owner (t : Tid) (p : Nat) (k : Kernel) :
    (Scheduler.setTaskPriority t p k).owner = k.owner := by
  have hadd : ∀ k : Kernel, (ReadyManager.add t k).owner = k.owner := fun k =>
    (check_keeps .addPriorityRange (decide ((k.tcb t).priority < kMaxPriorities)) k.toCore).2
  have hremove : ∀ k : Kernel, (ReadyManager.remove t k).owner = k.owner := by
    intro k
    unfold ReadyManager.remove ReadyManager.dropEmptyBit
    simp only
    split <;> rfl
  have hinsert : ∀ w (k : Kernel), (Scheduler.insertWaiter w t k).owner = k.owner := by
    intro w k
    unfold Scheduler.insertWaiter
    split <;> rfl
  have hcheck := (check_keeps .setPriorityRange (decide (p < kMaxPriorities)) k.toCore).2
  unfold Scheduler.setTaskPriority
  simp only
  split
  · exact hcheck
  · split
    · rw [hadd]
      exact (hremove _).trans hcheck
    · split
      · rw [hinsert]
        exact hcheck
      · exact hcheck

theorem park_core (w : WaitId) (ms : TickType) (k : Kernel) :
    ((WaitQueue.startTimeout t ms (WaitQueue.park w t k)).tcb t) =
      { k.tcb t with state := .blocked, waitList := some w } ∧
    (WaitQueue.startTimeout t ms (WaitQueue.park w t k)).owner = k.owner := by
  have hpark : ((WaitQueue.park w t k).tcb t) = { k.tcb t with state := .blocked, waitList := some w } ∧
      (WaitQueue.park w t k).owner = k.owner := by
    obtain ⟨htcb, howner⟩ := check_keeps .alreadyParked (k.tcb t).waitList.isNone k.toCore
    unfold WaitQueue.park Scheduler.insertWaiter
    simp only
    split <;> simp [htcb, howner]
  have hdelay : ∀ ticks (k : Kernel), (Scheduler.delayInsert t ticks k).tcb = k.tcb ∧
      (Scheduler.delayInsert t ticks k).owner = k.owner := by
    intro ticks k
    obtain ⟨htcb, howner⟩ := check_keeps .alreadyDelayed (!k.delay.inDelayList t) k.toCore
    unfold Scheduler.delayInsert
    simp only
    split
    · exact ⟨htcb, howner⟩
    · exact ⟨htcb, howner⟩
  unfold WaitQueue.startTimeout
  split
  · exact hpark
  · rw [(hdelay _ _).1, (hdelay _ _).2]
    exact hpark

theorem Core.Asks.waiting {w : Wait} (h : k.Asks (.task t) x) (hw : x.waits = some w) (ms : TickType)
    (hitem : ∀ q item ms, x = .send q item ms → copyBytes (k.config.itemSize q) (k.frame (.task t)).item = item)
    (halien : ∀ m, x = .lock m → k.owner m ≠ some t) :
    (Outcome.wait w).Tells σ k.toCore (WaitQueue.startTimeout t ms
      (WaitQueue.park w.list t (k.setTask t (w.request t)))).toCore (.task t) x := by
  obtain ⟨htcb, howner⟩ := park_core (t := t) w.list ms (k.setTask t (w.request t))
  have hstill : k.Still (WaitQueue.startTimeout t ms (WaitQueue.park w.list t (k.setTask t (w.request t)))).toCore :=
    Still.startTimeout t ms (Still.park w.list t (Still.setTask (by cases w <;> rfl) (.refl _)))
  have hself : (k.setTask t (w.request t)).tcb t = w.request t (k.tcb t) := by simp
  rw [hself] at htcb
  refine ⟨⟨[], hstill.writes _⟩, hw, t, rfl, h.still hstill, by rw [htcb], ?_, ?_, fun q item ms hx => ?_,
    fun m hx => ?_⟩
  · rw [htcb]
    cases w <;> rfl
  · rw [htcb]
    cases w with
    | bits g mask all clear => exact ⟨rfl, rfl, rfl⟩
    | _ => trivial
  · rw [hstill.config, hstill.frame]
    exact hitem q item ms hx
  · rw [howner]
    exact halien m hx

theorem take_tells {s : SemId} {ms : TickType} (h : k.Asks k.self (.take s ms)) :
    (Semaphore.take s ms k).1.Tells σ k.toCore (Semaphore.take s ms k).2.toCore k.self (.take s ms) := by
  unfold Semaphore.take
  split
  · have hw := tryTake_writes s k.self k
    cases hb : (Semaphore.tryTake s k.self k).1 with
    | true =>
      rw [hb, if_pos rfl] at hw
      exact h.answers hw (Or.inl ⟨by rw [hb], Or.inl rfl⟩) trivial
    | false =>
      rw [hb, if_neg (by simp)] at hw
      exact h.answers hw (Or.inr ⟨by rw [hb], rfl⟩) trivial
  · split
    · have hw : k.Writes k.self [.semTake s k.self] (k.core (Semaphore.takeToken s k.self)).toCore :=
        ⟨⟨[.semTake s k.self], rfl, by simp [Obs.isMark], by simp [Obs.ctx]⟩, rfl, fun _ => rfl⟩
      exact h.answers hw (Or.inl ⟨rfl, Or.inl rfl⟩) trivial
    · split
      · exact h.returns (Still.check _ _ (.refl _)) (Or.inr ⟨rfl, rfl⟩) trivial
      · rename_i t hcur
        have hself : k.self = .task t := by simp [Core.self, hcur]
        rw [hself] at h ⊢
        exact h.waiting rfl ms (by simp) (by simp)

theorem lock_tells {m : MutexId} (h : k.Asks k.self (.lock m))
    (hrelock : ∀ t, k.currentTask = some t → k.owner m = some t → σ.relock) :
    (Mutex.lock m k).1.Tells σ k.toCore (Mutex.lock m k).2.toCore k.self (.lock m) := by
  unfold Mutex.lock
  split
  · rename_i hcur
    have hself : k.self = .main := by simp [Core.self, hcur]
    refine h.returns (Still.check _ _ (.refl _)) ⟨rfl, _, rfl⟩ fun t ht => ?_
    rw [hself] at ht
    cases ht
  · rename_i current hcur
    have hself : k.self = .task current := by simp [Core.self, hcur]
    rw [hself] at h ⊢
    split
    · refine h.returns (Still.setHeld _ (Still.setOwner _ _ (.refl _))) ⟨rfl, _, rfl⟩ ?_
      rintro t ⟨⟩
      exact Or.inl ⟨rfl, Function.update_self _ _ _⟩
    · rename_i owner howner
      split
      · rename_i heq
        subst heq
        refine h.returns (Still.check _ _ (.refl _)) ⟨rfl, _, rfl⟩ ?_
        rintro t ⟨⟩
        exact Or.inr ⟨rfl, Or.inr (hrelock _ hcur howner)⟩
      · rename_i hne
        have hlift : k.Still (if (k.tcb current).priority > (k.tcb owner).priority then
            Scheduler.setTaskPriority owner (k.tcb current).priority k else k).toCore := by
          split
          · exact Still.setTaskPriority _ _ (.refl _)
          · exact .refl _
        have howner' : (if (k.tcb current).priority > (k.tcb owner).priority then
            Scheduler.setTaskPriority owner (k.tcb current).priority k else k).owner = k.owner := by
          split
          · exact setTaskPriority_owner _ _ _
          · rfl
        simp only
        generalize (if (k.tcb current).priority > (k.tcb owner).priority then
            Scheduler.setTaskPriority owner (k.tcb current).priority k else k) = k₁ at hlift howner' ⊢
        have hparks := (h.still hlift).waiting (σ := σ) (w := .lock m) rfl kWaitForever (by simp) (by
          rintro m' ⟨⟩
          rw [howner', howner]
          simpa using hne)
        rw [WaitQueue.startTimeout, if_pos rfl] at hparks
        obtain ⟨⟨own, hw⟩, hsaid⟩ := hparks
        exact ⟨⟨own, hlift.writes_trans hw⟩, hsaid⟩

theorem unlock_tells {m : MutexId} (h : k.Asks c (.unlock m)) :
    (Mutex.unlock m k).1.Tells σ k.toCore (Mutex.unlock m k).2.toCore c (.unlock m) := by
  have hstill : k.Still (Mutex.unlock m k).2.toCore := Still.unlock m (.refl _)
  have hret : ∃ b y, (Mutex.unlock m k).1 = .ret (.bool b) y := by
    unfold Mutex.unlock
    split
    · exact ⟨_, _, rfl⟩
    · split <;> exact ⟨_, _, rfl⟩
  obtain ⟨b, y, hret⟩ := hret
  rw [hret]
  exact h.returns hstill ⟨rfl, b, rfl⟩ trivial

theorem give_tells {s : SemId} (hrep : Rep k a) (hi : a.Entered) (h : k.Asks k.self (.give s)) :
    (Semaphore.give s k).1.Tells σ k.toCore (Semaphore.give s k).2.toCore k.self (.give s) :=
  h.answers (giveLocked_writes hrep hi.wf (by rw [self_eq hrep]; exact hi.free) s) ⟨rfl, rfl⟩ trivial

theorem sendOrBlock_tells {w : Wait} {ms : TickType} {r : (Bool × Bool) × Kernel} (h : k.Asks k.self x)
    (hw : x.waits = some w)
    (hreq : ∀ t c, w.request t c = { c with xferPtr := some (.task t), timeoutExpired := false })
    (hitem : ∀ q item ms, x = .send q item ms → copyBytes (k.config.itemSize q) (k.frame k.self).item = item)
    (hlock : ∀ m, x ≠ .lock m) (hfalse : x.Answer σ k.self [] (.bool false))
    (hleaves : ∀ e', x.Leaves σ e' k.self [] (.bool false))
    (hr : r.1.1 = false ∧ r.2 = k ∨
      r.1.1 = true ∧ (Outcome.ret (.bool true) r.1.2).Tells σ k.toCore r.2.toCore k.self x) :
    (QueueCore.sendOrBlock w ms r).1.Tells σ k.toCore (QueueCore.sendOrBlock w ms r).2.toCore k.self x := by
  unfold QueueCore.sendOrBlock
  rcases hr with ⟨hb, hk⟩ | ⟨hb, hanswers⟩
  · rw [hb, hk]
    simp only [Bool.false_eq_true, if_false]
    split
    · exact h.returns (.refl _) hfalse (hleaves _)
    · unfold QueueCore.blockCurrentLocked
      cases hcur : k.currentTask with
      | none =>
        simp only
        exact h.returns (Still.check _ _ (.refl _)) hfalse (hleaves _)
      | some t =>
        have hself : k.self = .task t := by simp [Core.self, hcur]
        rw [hself] at h hitem ⊢
        have hparks := h.waiting (σ := σ) hw ms hitem fun m hm => absurd hm (hlock m)
        rw [show w.request t = fun c => { c with xferPtr := some (.task t), timeoutExpired := false } from
          funext (hreq t)] at hparks
        exact hparks
  · rw [hb]
    exact hanswers

theorem send_tells {q : QueueId} {item : Item} {ms : TickType} (hrep : Rep k a) (hi : a.Entered)
    (h : k.Asks k.self (.send q item ms))
    (hitem : copyBytes (k.config.itemSize q) (k.frame k.self).item = item) :
    (QueueCore.send q ms k).1.Tells σ k.toCore (QueueCore.send q ms k).2.toCore k.self (.send q item ms) := by
  unfold QueueCore.send
  refine sendOrBlock_tells h rfl (fun _ _ => rfl) ?_ (by simp) (Or.inr ⟨rfl, rfl⟩) (fun _ => trivial) ?_
  · rintro q' item' ms' ⟨⟩
    exact hitem
  · refine (trySendLocked_writes hrep hi.wf hi.starved (by rw [self_eq hrep]; exact hi.free) q).imp_right
      fun ⟨hb, hw⟩ => ⟨hb, h.answers hw (Or.inl ⟨rfl, ?_⟩) trivial⟩
    rw [← hitem, hrep.core_eq]

theorem receive_tells {q : QueueId} {ms : TickType} (hrep : Rep k a) (hi : a.Entered)
    (h : k.Asks k.self (.receive q ms)) :
    (QueueCore.receive q ms k).1.Tells σ k.toCore (QueueCore.receive q ms k).2.toCore k.self (.receive q ms) := by
  unfold QueueCore.receive
  refine sendOrBlock_tells h rfl (fun _ _ => rfl) (by simp) (by simp) (Or.inr ⟨rfl, rfl⟩) (fun _ _ => nofun) ?_
  refine (tryReceiveLocked_writes hrep hi.wf hi.starved (by rw [self_eq hrep]; exact hi.free) q).imp_right
    fun ⟨hb, y, hw, hframe⟩ => ⟨hb, h.answers hw (Or.inl ⟨y, rfl, rfl⟩) ?_⟩
  rintro z heq
  rw [List.cons.injEq, Obs.deliver.injEq] at heq
  rw [hframe, heq.1.2.2]

/-! ### Event groups -/

theorem readBits_tells {g : EventId} {mask : BitVec 32} {all clear : Bool} {ms : TickType}
    (h : k.Asks k.self (.waitBits g mask all clear ms))
    (hread : EventGroup.Consumes mask all clear (k.currentBits g) (k.currentBits g) ∨ σ.stale) :
    (EventGroup.readBits g k).1.Tells σ k.toCore (EventGroup.readBits g k).2.toCore k.self
      (.waitBits g mask all clear ms) :=
  h.answers (consume_writes g k.self 0 false k.toCore) ⟨_, _, rfl, rfl, hread⟩ trivial

theorem getBits_tells {g : EventId} (h : k.Asks k.self (.getBits g)) :
    (EventGroup.readBits g k).1.Tells σ k.toCore (EventGroup.readBits g k).2.toCore k.self (.getBits g) :=
  h.answers (consume_writes g k.self 0 false k.toCore) ⟨_, rfl, rfl⟩ trivial

theorem waitBits_tells {g : EventId} {mask : BitVec 32} {all clear : Bool} {ms : TickType}
    (hcur : k.currentTask = some t) (h : k.Asks k.self (.waitBits g mask all clear ms)) :
    (EventGroup.waitBits g mask all clear ms t k).1.Tells σ k.toCore
      (EventGroup.waitBits g mask all clear ms t k).2.toCore
      k.self (.waitBits g mask all clear ms) := by
  have hself : k.self = .task t := by simp [Core.self, hcur]
  unfold EventGroup.waitBits
  split
  · rw [hself] at h ⊢
    exact h.answers (consume_writes g (.task t) mask clear k.toCore) ⟨_, _, rfl, rfl, Or.inl fun _ => rfl⟩ trivial
  · rename_i hunmet
    split
    · exact readBits_tells h (Or.inl fun hmet => absurd hmet hunmet)
    · rw [hself] at h ⊢
      exact h.waiting (w := .bits g mask all clear) rfl ms (by simp) (by simp)

theorem clearBits_tells {g : EventId} {mask : BitVec 32} (h : k.Asks c (.clearBits g mask)) :
    (EventGroup.clearBits g mask k).1.Tells σ k.toCore
      (EventGroup.clearBits g mask k).2.toCore c (.clearBits g mask) := by
  have hw : k.Writes c [] (k.core (EventGroup.dropBits g mask)).toCore :=
    ⟨⟨[.bitsClear g mask], rfl, by simp [Obs.isMark], by simp [Obs.ctx]⟩, rfl, fun _ => rfl⟩
  exact h.answers hw ⟨rfl, _, rfl⟩ trivial

theorem Abs.scan_induction {g : EventId} {P : Abs → Prop} {ts : List Tid} (hwf : a.WF) (hs : a.Starved)
    (hnodup : ts.Nodup) (hsub : ∀ t ∈ ts, t ∈ a.seq (.wait (.waiters g))) (ha : P a)
    (hstep : ∀ b t, b.WF → b.Starved → (Action.hand (.bits g) t).Enabled b → P b →
      P ((Action.hand (.bits g) t).apply b)) : P (a.scan g ts) := by
  induction ts generalizing a with
  | nil => exact ha
  | cons t ts ih =>
    obtain ⟨hnot, hnodup⟩ := List.nodup_cons.mp hnodup
    unfold Abs.scan
    split
    · rename_i hmet
      have hen : (Action.hand (.bits g) t).Enabled a := ⟨hsub t (by simp), hmet⟩
      refine ih (hwf.apply hen) (hs.apply hwf hen) hnodup (fun u hu => ?_) (hstep a t hwf hs hen ha)
      show u ∈ ((a.core ((Handing.bits g).run t)).wake t).seq (.wait (.waiters g))
      have hut : u ≠ t := by
        rintro rfl
        exact hnot hu
      rw [seq_wake_wait, List.mem_erase_of_ne hut]
      exact hsub u (by simp [hu])
    · exact ih hwf hs hnodup (fun u hu => hsub u (by simp [hu])) ha

theorem setBitsLocked_writes {g : EventId} {mask : BitVec 32} (hrep : Rep k a) (hwf : a.WF) (hs : a.Starved)
    (hc : a.Free c) : k.Writes c [] (EventGroup.setBitsLocked g mask k).2.toCore := by
  cases hr : EventGroup.setBitsLocked g mask k with
  | mk y k₁ =>
  obtain ⟨-, hrep', -⟩ := setBitsLocked_runs (v := .handler true) hrep hwf hr fun _ => rfl
  have hen : (Action.data (.addBits g mask)).Enabled a := trivial
  have hadd : k.Writes c [] (a.core (EventGroup.addBits g mask)).toCore := by
    rw [hrep.core_eq]
    exact ⟨⟨[.bitsSet g mask], rfl, by simp [Obs.isMark], by simp [Obs.ctx]⟩, rfl, fun _ => rfl⟩
  show k.Writes c [] k₁.toCore
  rw [hrep'.core_eq]
  have hall : k.Writes c [] ((a.core (EventGroup.addBits g mask)).scan g (a.seq (.wait (.waiters g)))).toCore ∧
      ((a.core (EventGroup.addBits g mask)).scan g (a.seq (.wait (.waiters g)))).Free c := by
    refine Abs.scan_induction (P := fun b => k.Writes c [] b.toCore ∧ b.Free c) (hwf.apply hen) (hs.apply hwf hen)
      (hwf.nodup _) (fun _ ht => ht) ⟨hadd, hc⟩ ?_
    rintro b t hwf hs hen ⟨hw, hfree⟩
    have hwaits := (hwf.mem_wait.mp hen.1).2
    have hx : (b.tcb t).xferPtr = some (.task t) := hs.xfer t _ hwaits rfl
    refine ⟨?_, fun u hu => ?_⟩
    · refine (List.nil_append ([] : List Obs)) ▸ hw.trans ⟨⟨[(Handing.bits g).gift t b.toCore], ?_, ?_, ?_⟩,
        ?_, ?_⟩
      · rw [apply_trace hwf hs hen]
        rfl
      · simpa using (gift_ctx (.bits g) t b.toCore).2
      · simp [(gift_ctx (.bits g) t b.toCore).1, hfree.ne hwaits]
      · show ((Handing.bits g).run t b.toCore).storage = b.storage
        rw [Handing.run_bits hx]
        cases (b.tcb t).eventClearOnExit <;> rfl
      · intro u
        rw [apply_tcb hwf hen]
        simp only [Action.tcb]
        split <;> rfl
    · rw [apply_tcb hwf hen]
      simp only [Action.tcb]
      split
      · rfl
      · exact hfree u hu
  exact hall.1

theorem setBits_tells {g : EventId} {mask : BitVec 32} (hrep : Rep k a) (hi : a.Entered)
    (h : k.Asks k.self (.setBits g mask)) :
    (EventGroup.setBits g mask k).1.Tells σ k.toCore (EventGroup.setBits g mask k).2.toCore k.self (.setBits g mask) :=
  h.answers (setBitsLocked_writes hrep hi.wf hi.starved (by rw [self_eq hrep]; exact hi.free)) ⟨rfl, _, rfl⟩ trivial

end

end AcRtos
