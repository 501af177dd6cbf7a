import AcRtos.Twins

/-!
# Operations without the scheduler's choices

An `Op` is what one step of the machine does to the kernel, with the place of the running context and the task that a
context switch picks written into it, so that it can be performed on other kernels than the one it comes from. Every
step of the machine is such an operation (`Inv.performs`), and twins that perform the same operation show the same of
it to everybody but `W` (`Twins.perform`).
-/

namespace AcRtos

open Abs

/-! ### Operations -/

inductive Op
  | call (c : Call)
  /-- The running context goes on with `p`. -/
  | go (p : Pc)
  | isr (c : IsrCall)
  | tick
  | dispatch (next : Tid) (psp : Nat)
  deriving DecidableEq

/-- A machine on the kernel `k` whose running context is about to do `p`. -/
def Kernel.at (p : Pc) (k : Kernel) : Sys where
  k := k
  pend := false
  pc := fun _ => p
  cs := 0
  idle := none
  handles := []

@[simp] theorem Kernel.at_k (p : Pc) (k : Kernel) : (k.at p).k = k := rfl

/-- What a machine shows of the context `c`. -/
def Sys.look (c : Ctx) (s : Sys) : Pc × Kernel := (s.pc c, s.k)

namespace Op

/-- What the performer does next, and the kernel. -/
def run (k : Kernel) : Op → Option (Pc × Kernel)
  | .call c => some (((k.at .user).beginCall k.self c).look k.self)
  | .go p => ((k.at p).advance k.self).map (Sys.look k.self)
  | .isr c =>
      let r := Sys.isrCall c (k.emit (.isrCall c))
      some (if r.1.2 then .yield r.1.1 else .ret r.1.1, r.2.emit (.ret .isr r.1.1))
  | .tick => some (.user, (Scheduler.tick k).2)
  | .dispatch next psp => (Scheduler.dispatch next psp k).map fun k => (.user, k)

/-- After a fault nothing is performed. -/
def perform (k : Kernel) (op : Op) : Option (Pc × Kernel) := if k.fault.isSome then none else op.run k

theorem perform_eq {k : Kernel} {op : Op} (hfault : k.fault = none) : op.perform k = op.run k := by
  rw [perform, hfault]
  rfl

theorem perform_some {k : Kernel} {op : Op} {r : Pc × Kernel} (h : op.perform k = some r) :
    k.fault = none ∧ op.run k = some r := by
  unfold perform at h
  split at h
  · cases h
  · rename_i hf
    exact ⟨by simpa using hf, h⟩

/-- Who performs it. -/
def actor (k : Kernel) : Op → Ctx
  | .call _ | .go _ => k.self
  | .isr _ | .tick | .dispatch .. => .isr

end Op

/-- A call returns its result with or without a `task_yield()` before. -/
def Pc.calm : Pc → Pc
  | .yield r => .ret r
  | p => p

/-- What can be seen of an operation without looking at `W`: who performed it, what the performer does next and has
in its buffers, and the tasks whose waits it ended. -/
structure Report where
  actor : Ctx
  outcome : Option (Pc × Frame)
  woken : List Tid
  deriving DecidableEq

/-- A `resume(W)` may owe a yield or not. -/
def Op.told (W : Tid) (op : Op) (p : Pc) : Pc := if op = .go (.resumeBody W) then p.calm else p

def Op.report (W : Tid) (k : Kernel) (op : Op) (p : Pc) (k' : Kernel) : Report where
  actor := op.actor k
  outcome := if op.actor k = .task W then none else some (op.told W p, k'.frame (op.actor k))
  woken := (List.range k.taskCount).filter fun t =>
    t != W && decide ((k.tcb t).state = .blocked) && decide ((k'.tcb t).state = .ready)

/-! ### The machine performs operations -/

namespace Sys

variable {s s' : Sys} {c : Ctx}

/-- The operation of a step. -/
def op (s : Sys) : Event → Op
  | .call c => .call c
  | .advance => .go (s.pc s.k.self)
  | .tick => .tick
  | .isr c _ => .isr c
  | .pendSV psp => .dispatch ((Scheduler.pendSV psp s.k).currentTask.getD 0) psp

@[simp] theorem look_setPc (p : Pc) : (s.setPc c p).look c = (p, s.k) :=
  Prod.ext (show Function.update s.pc c p c = p from Function.update_self c p s.pc) rfl

@[simp] theorem setK_k (k : Kernel) : (s.setK k).k = k := rfl

@[simp] theorem look_settle (r : Outcome × Kernel) : (s.settle c r).look c = (afterSection r.1, r.2) := look_setPc _

@[simp] theorem look_created (site : Site) (h : Option Tid) (k : Kernel) : (s.created c site h k).look c =
    if site = idleSite then (.startRun, k.check .noSlotForIdle h.isSome) else (.ret (.task h), k) := by
  unfold created
  split <;> exact look_setPc _

@[simp] theorem look_with (pend : Bool) (cs : Nat) (idle : Option Tid) (handles : List Tid) :
    look c { s with pend, cs, idle, handles } = s.look c := rfl

theorem look_beginCall (h : s'.k = s.k) (call : Call) :
    (s'.beginCall c call).look c = (s.beginCall c call).look c := by
  cases call with
  | suspend t => cases t <;> simp [beginCall, h]
  | resume t => cases t <;> simp [beginCall, h]
  | terminate t => cases t <;> simp [beginCall, h]
  | start =>
    simp only [beginCall, h]
    split <;> simp
  | waitBits g mask waitAll clear ms =>
    simp only [beginCall, h]
    split
    · simp
    · split <;> simp
  | enterCritical => simp only [beginCall, look, setPc, Function.update_self, setK_k, h]
  | exitCritical => simp only [beginCall, look, setPc, Function.update_self, setK_k, h]
  | _ => simp [beginCall, h]

theorem look_advanceCreate (h : s'.k = s.k) (phase : CreatePhase) (site : Site) (f : Callable) (p : Nat) :
    (s'.advanceCreate c phase site f p).look c = (s.advanceCreate c phase site f p).look c := by
  cases phase with
  | testFlag =>
    simp only [advanceCreate, h]
    split <;> simp [h]
  | alloc =>
    simp only [advanceCreate, h]
    split <;> simp
  | ready t =>
    simp only [advanceCreate, h]
    split
    · simp only [look, setPc, Function.update_self, setK_k]
    · simp only [look, setPc, Function.update_self, setK_k]
  | preempt t =>
    have hlook : (s'.created c site (some t) s.k).look c = (s.created c site (some t) s.k).look c := by
      rw [look_created, look_created]
    obtain ⟨hpc, hcreated⟩ := Prod.mk.inj hlook
    simp only [advanceCreate, h, hcreated]
    split
    · simp only [look, hpc]
    · exact hlook
  | _ => simp [advanceCreate, h]

theorem look_advance (h : s'.look c = s.look c) : (s'.advance c).map (look c) = (s.advance c).map (look c) := by
  obtain ⟨hpc, hk⟩ := Prod.mk.inj h
  unfold advance
  rw [hpc, hk]
  cases s.pc c with
  | create phase site f p => exact congrArg some (look_advanceCreate hk phase site f p)
  | waitBody g mask waitAll clear ms => cases s.k.currentTask <;> simp
  | finish w => cases s.k.currentTask <;> simp [hk]
  | yield r => simp only [Option.map_some, look, setPc, Function.update_self, hk]
  | yieldWait w => simp only [Option.map_some, look, setPc, Function.update_self, hk]
  | startYield => simp only [Option.map_some, look, setPc, Function.update_self, hk]
  | _ => simp

end Sys

theorem Rep.getHighest_eq {k : Kernel} {a : Abs} (h : Rep k a) (hwf : a.WF) (hne : ∃ p, a.seq (.ready p) ≠ []) :
    ∃ t, t < a.taskCount ∧ (a.tcb t).state = .ready ∧
      ReadyManager.getHighestPriorityTask k = (some t, ReadyManager.remove t k) := by
  have hm : k.readyBitmask ≠ 0 := fun hz => by
    obtain ⟨p, hp⟩ := hne
    exact hp ((h.mask_zero hwf.ready_high).mp hz p)
  obtain ⟨t, xs, hseq⟩ := List.exists_cons_of_ne_nil (h.topPriority hwf.ready_high hm).1
  obtain ⟨hlt, hs, hprio⟩ := hwf.mem_ready.mp (show t ∈ _ by rw [hseq]; exact List.mem_cons_self)
  obtain ⟨hprev, -⟩ := h.links.links_of_split (l := []) hseq
  refine ⟨t, hlt, hs, ?_⟩
  rw [ReadyManager.getHighestPriorityTask, if_neg hm, ReadyManager.remove, h.core_eq, hprio]
  simp only [TaskList.popFront_eq_remove (h.links.head_of_cons hseq) hprev]

namespace Inv

variable {s s' : Sys} {a : Abs} {e : Event}

/-- PendSV is the dispatch of the task that it makes the current one. -/
theorem pendSV_dispatch (h : Inv s a) (hpend : s.pend = true) (psp : Nat) :
    Scheduler.dispatch ((Scheduler.pendSV psp s.k).currentTask.getD 0) psp s.k = some (Scheduler.pendSV psp s.k) := by
  obtain ⟨u, p, acts, hruns, htop, -⟩ := h.dispatch hpend psp
  have hwf := hruns.wf h.wf
  obtain ⟨acts₁, hstore⟩ := Rep.storeSp_runs (a := a) psp
  have hback := (h.rep.storeSp psp).putBack (hstore.wf h.wf)
  obtain ⟨t, hlt, hs, hpick⟩ := hback.getHighest_eq hwf ⟨p, htop.1⟩
  have hkernel : Scheduler.pendSV psp s.k = Scheduler.switchTo t (ReadyManager.remove t
      (Scheduler.putBack (if psp = 0 then s.k else s.k.core fun e => { e with currentSp := .psp psp }))) := by
    unfold Scheduler.pendSV Scheduler.scheduleNextTask
    simp only [hpick]
  have hcur : (Scheduler.pendSV psp s.k).currentTask = some t := by rw [hkernel]; rfl
  rw [hcur, hkernel, Option.getD_some, Scheduler.dispatch, if_pos]
  rw [hback.core_eq]
  exact ⟨hlt, hs⟩

theorem performs (h : Inv s a) (hs : s.step e = some s') : ∃ p, (s.op e).perform s.k = some (p, s'.k) ∧
    ((∃ c, e = .call c) ∨ e = .advance → p = s'.pc s.k.self) := by
  cases e with
  | call c =>
    obtain ⟨hfault, -, -, -, -, rfl⟩ := Sys.step_call.mp hs
    have hk : (s.k.at .user).k = s.k := rfl
    have hlook := Sys.look_beginCall (c := s.k.self) hk c
    exact ⟨_, (Op.perform_eq hfault).trans (congrArg some hlook), fun _ => rfl⟩
  | advance =>
    obtain ⟨hfault, -, hadv⟩ := Sys.step_advance.mp hs
    have hstart : (s.k.at (s.pc s.k.self)).look s.k.self = s.look s.k.self := rfl
    have hlook := Sys.look_advance hstart
    rw [hadv, Option.map_some] at hlook
    exact ⟨_, (Op.perform_eq hfault).trans hlook, fun _ => rfl⟩
  | tick =>
    obtain ⟨hfault, -, -, rfl⟩ := Sys.step_tick.mp hs
    exact ⟨_, Op.perform_eq hfault, by simp⟩
  | isr c yield =>
    obtain ⟨hfault, -, -, -, rfl⟩ := Sys.step_isr.mp hs
    exact ⟨_, Op.perform_eq hfault, by simp⟩
  | pendSV psp =>
    obtain ⟨hfault, hpend, -, rfl⟩ := Sys.step_pendSV.mp hs
    refine ⟨.user, (Op.perform_eq hfault).trans ?_, by simp⟩
    rw [Sys.op, Op.run, h.pendSV_dispatch hpend psp]
    rfl

end Inv

/-! ### Twins perform the same operations -/

theorem Kernel.Twin.emit {W : Tid} {away : Bool} {k k' : Kernel} {o : Obs} (h : Kernel.Twin W away k k')
    (ho : o.isMark = true) : Kernel.Twin W away (k.emit o) (k'.emit o) := by
  obtain ⟨a, b, h⟩ := h
  exact h.data (.mark o) ho ho (h.veiled.emit o o)

/-- The performer is told the same, and the kernels stay twins. -/
def Kernel.Shows (W : Tid) (away : Bool) (op : Op) (c : Ctx) (r r' : Pc × Kernel) : Prop :=
  (c ≠ .task W → op.told W r'.1 = op.told W r.1) ∧ Kernel.Twin W away r.2 r'.2

/-- What a machine in which `W` is an old task knows of the next step of its running context. -/
def Pc.Fits (W : Tid) (e : Core) : Pc → Prop
  | .suspendBody t | .deleteBody t => t < e.taskCount
  | .create .alloc _ _ _ => W < e.taskCount
  | .create (.init t) _ _ p =>
    t < e.taskCount ∧ (e.tcb t).state = .suspended ∧ (∀ m, e.owner m ≠ some t) ∧ W ≠ t ∧
      p < kMaxPriorities
  | .create (.ready t) _ _ _ => (e.tcb t).state = .suspended ∧ W ≠ t
  | _ => True

/-- What it knows of its operation. -/
def Op.Fits (W : Tid) (e : Core) : Op → Prop
  | .call c =>
    (∀ t, e.currentTask = some t → (e.tcb t).state = .running) ∧ ∀ m, c = .lock m → m < e.config.mutexes
  | .go p => (p.gives = false → ∀ t, e.currentTask = some t → (e.tcb t).state = .running) ∧ p.Fits W e
  | _ => True

theorem Inv.fits {s s' : Sys} {a : Abs} {e : Event} {W : Tid} (h : Inv s a) (hs : s.step e = some s')
    (hW : W ∈ s.handles) :
    (s.op e).Fits W s.k.toCore := by
  have hself := h.self_eq
  rw [h.rep.core_eq]
  cases e with
  | call c =>
    obtain ⟨-, hcan, hpc, -, hadm, -⟩ := Sys.step_call.mp hs
    have he := h.entered hcan (by rw [← hself, hpc]; rfl)
    refine ⟨he.running, fun m hc => ?_⟩
    subst hc
    have hm := (Bool.and_eq_true_iff.mp hadm).2
    rw [h.rep.core_eq] at hm
    simpa using hm
  | advance =>
    obtain ⟨-, hcan, hadv⟩ := Sys.step_advance.mp hs
    refine ⟨fun hg => (h.entered hcan (by rw [← hself]; exact hg)).running, ?_⟩
    have hok := h.control.ok s.k.self
    have hlt := fun t ht => h.control.handles t ht
    have hfree : ∀ t, t ∉ s.handles → s.idle ≠ some t → ∀ m, a.owner m ≠ some t :=
      fun t hnot hidle m ho =>
      (h.control.owners m t ho).elim hnot hidle
    cases hpc : s.pc s.k.self with
    | suspendBody t => rw [hpc] at hok; exact hlt t hok.1
    | deleteBody t => rw [hpc] at hok; exact hlt t hok.1
    | create phase site f p =>
      rw [hpc] at hok
      cases phase with
      | alloc => exact hlt W hW
      | init t =>
        have hb := hok.2.1 t rfl
        exact ⟨hb.lt, hb.suspended, hfree t hb.unnamed hb.not_idle, fun heq => hb.unnamed (heq ▸ hW),
          hok.2.2 t rfl⟩
      | ready t =>
        have hb := hok.2.1 t rfl
        exact ⟨hb.suspended, fun heq => hb.unnamed (heq ▸ hW)⟩
      | _ => trivial
    | _ => trivial
  | _ => trivial

namespace Twins

variable {W t : Tid} {away : Bool} {k k' k₁ k₁' : Kernel} {a b : Abs} {op : Op}

theorem emit (h : Twins W away k k' a b) {o : Obs} (ho : o.isMark = true) :
    Twins W away (k.emit o) (k'.emit o) (a.core (·.emit o)) (b.core (·.emit o)) :=
  h.next (.data (.mark o)) ho ho (by simp) (h.rep.core _) (h.rep'.core _) (h.veiled.emit o o)

theorem setFrame (h : Twins W away k k' a b) {c : Ctx} (f : Frame → Frame)
    (hidle : c = .task W → (a.tcb W).waitList = none) : Twins W away (k.core (·.setFrame c f))
      (k'.core (·.setFrame c f)) (a.core (·.setFrame c f)) (b.core (·.setFrame c f)) :=
  h.next (.data (.frame c f)) trivial trivial (by simp) (h.rep.core _) (h.rep'.core _)
    (h.veiled.setFrame (fun _ => rfl) fun hc q => by simp [hidle hc])

theorem idle_self (h : Twins W away k k' a b) (hr : ∀ t, a.currentTask = some t → (a.tcb t).state = .running)
    (hself : a.self = .task W) : (a.tcb W).waitList = none :=
  h.sound.wf.waitList_none (by simp [hr W (Core.self_task hself)])

theorem shows_section (c : Ctx) {r r' : Pc × Kernel} {x x' : Outcome × Kernel} (hr : r = (Sys.afterSection x.1, x.2))
    (hr' : r' = (Sys.afterSection x'.1, x'.2)) (h : x'.1 = x.1 ∧ Kernel.Twin W away x.2 x'.2) :
    Kernel.Shows W away op c r r' := by
  subst hr hr'
  exact ⟨fun _ => by rw [h.1], h.2⟩

theorem shows_goto (c : Ctx) {r r' : Pc × Kernel} {p : Pc} (hr : r = (p, k₁)) (hr' : r' = (p, k₁'))
    (h : Kernel.Twin W away k₁ k₁') : Kernel.Shows W away op c r r' := by
  subst hr hr'
  exact ⟨fun _ => rfl, h⟩

/-! ### Interrupt handlers -/

theorem isrCall (h : Twins W away k k' a b) (c : IsrCall)
    (hserved : away = true → ((Sys.isrCall c k).2.tcb W).waitList ≠ none) :
    (Sys.isrCall c k').1 = (Sys.isrCall c k).1 ∧ Kernel.Twin W away (Sys.isrCall c k).2 (Sys.isrCall c k').2 := by
  cases c with
  | tryTakeFromIsr s =>
    obtain ⟨hret, htwin⟩ := h.tryTake s .isr
    exact ⟨congrArg (fun x => (Ret.bool x, false)) hret, htwin⟩
  | giveFromIsr s =>
    obtain ⟨hret, htwin⟩ := h.giveLocked s hserved
    exact ⟨congrArg (fun x => (Ret.bool x, x)) hret, htwin⟩
  | sendFromIsr q item =>
    have hframe := h.setFrame (c := .isr) (fun f => { f with item := item }) (by simp)
    have hitem := congrArg Frame.item (hframe.veiled.frame .isr (by simp))
    obtain ⟨hret, htwin⟩ := hframe.trySendLocked q hitem hserved
    exact ⟨congrArg (fun x => (Ret.bool x.1, x.2)) hret, htwin⟩
  | receiveFromIsr q =>
    obtain ⟨hret, htwin⟩ := h.tryReceiveLocked q (p := .isr) (by simp) hserved
    exact ⟨congrArg (fun x => (Ret.bool x.1, x.2)) hret, htwin⟩
  | setBitsFromIsr g mask =>
    obtain ⟨hret, c, d, htwin⟩ := h.setBitsLocked g mask hserved
    refine ⟨?_, c, d, htwin⟩
    have hbits := htwin.veiled.currentBits
    rw [← htwin.rep.core_eq, ← htwin.rep'.core_eq] at hbits
    exact Prod.ext (congrArg (fun bits : EventId → BitVec 32 => Ret.bits (bits g)) hbits) hret

/-! ### Calls -/

theorem deleted (h : Twins W away k k' a b) (t : Tid) :
    (k'.tcb t).state = .deleted ↔ (k.tcb t).state = .deleted := by
  rw [h.rep.core_eq, h.rep'.core_eq]
  exact h.veiled.deleted h.sound.wf

theorem inDelayList (h : Twins W away k k' a b) (t : Tid) (hout : (!k.delay.inDelayList t) = true) :
    (!k'.delay.inDelayList t) = true := by
  simp only [Bool.not_eq_true', Bool.eq_false_iff, ne_eq] at hout ⊢
  intro hin
  have hmem := (h.rep'.delay.mem_iff t).mp hin
  rw [h.veiled.sleepers] at hmem
  exact hout ((h.rep.delay.mem_iff t).mpr ((List.filter_sublist.map Prod.fst).subset hmem))

theorem call (h : Twins W away k k' a b) (hr : ∀ t, a.currentTask = some t → (a.tcb t).state = .running) {c : Call}
    (hm : ∀ m, c = .lock m → m < a.config.mutexes)
    (hserved : away = true → ((((k.at .user).beginCall k.self c).look k.self).2.tcb W).waitList ≠ none) :
    Kernel.Shows W away op k.self (((k.at .user).beginCall k.self c).look k.self)
      (((k'.at .user).beginCall k.self c).look k.self) := by
  have hcaller : a.self = k.self := (self_eq h.rep).symm
  have hmark := h.emit (o := .call k.self c) rfl
  have hframe := fun f => hmark.setFrame (c := k.self) f fun hW => hmark.idle_self hr (hcaller.trans hW)
  have hset : ∀ {s : Sys} {c : Ctx} {p : Pc}, (s.setPc c p).look c = (p, s.k) := Sys.look_setPc _
  cases c with
  | createTask site f p => exact shows_goto _ hset hset hmark.same
  | yield => exact shows_goto _ hset hset hmark.same
  | enterCritical => exact shows_goto _ hset hset hmark.same
  | exitCritical => exact shows_goto _ hset hset hmark.same
  | start =>
    have hstarted : (k'.emit (.call k.self .start)).started = (k.emit (.call k.self .start)).started := by
      rw [hmark.rep.core_eq, hmark.rep'.core_eq, hmark.veiled.started]
    by_cases hs : (k.emit (.call k.self .start)).started = true
    · simp only [Sys.beginCall, Kernel.at_k, hstarted, hs, if_true]
      exact shows_goto _ hset hset (hmark.check id)
    · simp only [Sys.beginCall, Kernel.at_k, hstarted, hs, Bool.false_eq_true, if_false]
      exact shows_goto _ hset hset hmark.same
  | suspend t =>
    cases t with
    | none => exact shows_goto _ hset hset hmark.same
    | some t =>
      have hdel := hmark.deleted t
      simp only [Sys.beginCall, Kernel.at_k, hdel]
      exact shows_goto _ hset hset hmark.same
  | resume t =>
    cases t with
    | none => exact shows_goto _ hset hset hmark.same
    | some t => exact shows_goto _ hset hset (hmark.check (hmark.inDelayList t))
  | terminate t =>
    cases t with
    | none => exact shows_goto _ hset hset hmark.same
    | some t =>
      have hdel := hmark.deleted t
      simp only [Sys.beginCall, Kernel.at_k, hdel]
      exact shows_goto _ hset hset hmark.same
  | delayMs ms => exact shows_section _ hset hset (hmark.delayMs hr ms)
  | delayUntil wakeTime => exact shows_section _ hset hset (hmark.delayUntil hr wakeTime)
  | take s ms => exact shows_section _ hset hset (hmark.take hr s ms)
  | tryTake s =>
    obtain ⟨hret, htwin⟩ := hmark.tryTake s k.self
    exact shows_section _ hset hset ⟨congrArg (fun x => Outcome.ret (.bool x) false) hret, htwin⟩
  | give s =>
    obtain ⟨hret, htwin⟩ := hmark.giveLocked s hserved
    exact shows_section _ hset hset ⟨congrArg (Outcome.ret .unit) hret, htwin⟩
  | lock m => exact shows_section _ hset hset (hmark.lock hr (hm m rfl))
  | unlock m => exact shows_section _ hset hset (hmark.unlock hr m)
  | send q item ms =>
    refine shows_section _ hset hset ((hframe fun f => { f with item := item }).send hr q ms ?_ hserved)
    show (Function.update b.frame k.self _ a.self).item = (Function.update a.frame k.self _ a.self).item
    rw [hcaller, Function.update_self, Function.update_self]
  | receive q ms => exact shows_section _ hset hset (hmark.receive hr q ms hserved)
  | waitBits g mask waitAll clear ms =>
    by_cases hmask : mask = 0
    · simp only [Sys.beginCall, Kernel.at_k, if_pos hmask]
      exact shows_section _ hset hset (hmark.readBits g)
    · have hcur : (k'.emit (.call k.self (.waitBits g mask waitAll clear ms))).currentTask =
          (k.emit (.call k.self (.waitBits g mask waitAll clear ms))).currentTask := by
        rw [hmark.rep.core_eq, hmark.rep'.core_eq, hmark.veiled.currentTask]
      simp only [Sys.beginCall, Kernel.at_k, if_neg hmask, hcur]
      cases (k.emit (.call k.self (.waitBits g mask waitAll clear ms))).currentTask with
      | none =>
        obtain ⟨c, d, hchecked⟩ := hmark.check (x := .waitBitsBeforeStart) (p := false) (q := false) id
        exact shows_section _ hset hset (hchecked.readBits g)
      | some t => exact shows_goto _ hset hset (hframe _).same
  | setBits g mask => exact shows_section _ hset hset (hmark.setBits g mask hserved)
  | clearBits g mask => exact shows_section _ hset hset (hmark.clearBits g mask)
  | getBits g => exact shows_section _ hset hset (hmark.readBits g)

/-! ### The next step of a call -/

theorem retired (h : Twins W away k k' a b) (hlt : t < a.taskCount) (st : TaskState) :
    (((Scheduler.unlink t k).setTask t fun c => { c with state := st }).tcb t).waitList = none := by
  rw [(h.rep.retire h.sound.wf hlt st).core_eq, Abs.retire, move_tcb_self]
  exact unparked_waitList _

theorem shown_of_suspend (h : Twins W away k k' a b) (hlt : t < a.taskCount)
    (hserved : away = true → ((Scheduler.suspendTask t k).2.tcb W).waitList ≠ none) : shown away W t = true := by
  by_cases hW : t = W
  · subst hW
    cases haway : away with
    | false => rfl
    | true =>
      obtain ⟨⟨w, hw, -⟩, -⟩ := h.veiled.peers.parked haway
      have hne : (k.tcb t).state ≠ .suspended := by
        rw [h.rep.core_eq, (h.sound.wf.ok t).waits (by simp [hw])]
        simp
      refine absurd ?_ (hserved haway)
      rw [Scheduler.suspendTask, if_neg hne]
      exact h.retired hlt .suspended
  · exact shown_of_ne hW

theorem shown_of_delete (h : Twins W away k k' a b) (hlt : t < a.taskCount)
    (hserved : away = true → ((Scheduler.deleteTask t k).2.tcb W).waitList ≠ none) : shown away W t = true := by
  by_cases hW : t = W
  · subst hW
    cases haway : away with
    | false => rfl
    | true => exact absurd (h.retired hlt .deleted) (hserved haway)
  · exact shown_of_ne hW

theorem setStorage (h : Twins W away k k' a b) (site : Site) (f : Storage → Storage) :
    Kernel.Twin W away (k.core (·.setStorage site f)) (k'.core (·.setStorage site f)) := by
  have hquiet : ∀ e : Core, e.Quiet (e.setStorage site f) := fun e =>
    ⟨rfl, rfl, rfl, rfl, rfl, rfl, rfl, rfl, rfl, rfl, rfl, rfl, rfl, Or.inl rfl⟩
  exact ⟨_, _, h.rep.core _, h.rep'.core _,
    h.sound.apply (.data (.quiet (a.setStorage site f))) (hquiet a.toCore) (by simp),
    h.sound'.apply (.data (.quiet (b.setStorage site f))) (hquiet b.toCore) (by simp),
    h.veiled.objects (fun _ => rfl) (fun _ => rfl) (fun _ => rfl) fun _ => rfl⟩

theorem created (c : Ctx) (site : Site) (x : Option Tid) {s s' : Sys} (h : Twins W away k k' a b) :
    Kernel.Shows W away op c ((s.created c site x k).look c) ((s'.created c site x k').look c) := by
  rw [Sys.look_created, Sys.look_created]
  split
  · exact shows_goto _ rfl rfl (h.check id)
  · exact shows_goto _ rfl rfl h.same

theorem advanceCreate (h : Twins W away k k' a b) (c : Ctx) {phase : CreatePhase} {site : Site} {f : Callable} {p : Nat}
    (hfits : (Pc.create phase site f p).Fits W a.toCore) {s s' : Sys} (hs : s.k = k) (hs' : s'.k = k') :
    Kernel.Shows W away op c ((s.advanceCreate c phase site f p).look c)
      ((s'.advanceCreate c phase site f p).look c) := by
  subst hs hs'
  have hset : ∀ {s : Sys} {p : Pc}, (s.setPc c p).look c = (p, s.k) := Sys.look_setPc _
  have hflag : ∀ x, s'.k.isCreated x = s.k.isCreated x := fun x => by
    rw [h.rep.core_eq, h.rep'.core_eq, h.veiled.isCreated]
  cases phase with
  | assertFlag =>
    simp only [Sys.advanceCreate, hflag]
    exact shows_goto _ hset hset (h.check id)
  | testFlag =>
    simp only [Sys.advanceCreate, hflag]
    split
    · exact created c site none h
    · exact shows_goto _ hset hset h.same
  | setFlag =>
    exact shows_goto _ hset hset (h.data (.setFlag site) trivial trivial
      (h.veiled.objects (fun _ => rfl) (fun _ => rfl) (fun _ => rfl) fun _ => rfl))
  | copy => exact shows_goto _ hset hset (h.setStorage site _)
  | alloc =>
    obtain ⟨hret, d, e, hnext⟩ := h.allocate hfits p
    simp only [Sys.advanceCreate, hret]
    cases (Scheduler.allocate p s.k).1 with
    | none => exact created c site none hnext
    | some t => exact shows_goto _ hset hset hnext.same
  | init t =>
    obtain ⟨hlt, hs, hfree, hW, hp⟩ := hfits
    exact shows_goto _ hset hset (h.initTcb hlt hs hfree hW site hp)
  | ready t =>
    obtain ⟨hs, hW⟩ := hfits
    have hready := h.readies hs (by rw [h.veiled.tcb t hW.symm]; exact hs)
    by_cases hsite : site = idleSite
    · simp only [Sys.advanceCreate, if_pos hsite]
      exact shows_goto _ hset hset hready
    · simp only [Sys.advanceCreate, if_neg hsite]
      exact shows_goto _ hset hset hready
  | preempt t =>
    have hlook : ∀ s : Sys, (s.advanceCreate c (.preempt t) site f p).look c =
        (s.created c site (some t) s.k).look c :=
      fun s => by
        simp only [Sys.advanceCreate]
        split <;> rfl
    rw [hlook, hlook]
    exact created c site (some t) h

theorem afterWait (h : Twins W away k k' a b) (w : Wait) (ht : t ≠ W) :
    Sys.afterWait t w k' = Sys.afterWait t w k := by
  unfold Sys.afterWait
  rw [h.rep.core_eq, h.rep'.core_eq, h.veiled.tcb t ht, h.veiled.frame (.task t) (by simpa using ht)]

theorem advance (h : Twins W away k k' a b) {p : Pc}
    (hr : p.gives = false → ∀ t, a.currentTask = some t → (a.tcb t).state = .running) (hfits : p.Fits W a.toCore)
    {s₁ : Sys}
    (hgo : (k.at p).advance k.self = some s₁) (hserved : away = true → (s₁.k.tcb W).waitList ≠ none) :
    ∃ s₁', (k'.at p).advance k.self = some s₁' ∧
      Kernel.Shows W away (.go p) k.self (s₁.look k.self) (s₁'.look k.self) := by
  have hset : ∀ {s : Sys} {c : Ctx} {p : Pc}, (s.setPc c p).look c = (p, s.k) := Sys.look_setPc _
  have hcur : k'.currentTask = k.currentTask := by rw [h.rep.core_eq, h.rep'.core_eq, h.veiled.currentTask]
  have hself : ∀ {t}, k.currentTask = some t → k.self = .task t := fun {t} ht => by simp [Core.self, ht]
  cases p with
  | user => cases hgo
  | halted => cases hgo
  | create phase site f p =>
    cases hgo
    exact ⟨_, rfl, h.advanceCreate k.self hfits rfl rfl⟩
  | startRun =>
    cases hgo
    exact ⟨_, rfl, shows_goto _ hset hset (h.data .start trivial trivial
      (h.veiled.objects (fun _ => rfl) (fun _ => rfl) (fun _ => rfl) fun _ => rfl))⟩
  | startYield =>
    cases hgo
    exact ⟨_, rfl, shows_goto _ hset hset h.same⟩
  | suspendBody t =>
    cases hgo
    exact ⟨_, rfl, shows_section _ hset hset (h.suspendTask (hr rfl) hfits (h.shown_of_suspend hfits hserved))⟩
  | resumeBody t =>
    cases hgo
    obtain ⟨hsame, ⟨⟨y, hy⟩, y', hy'⟩, htwin⟩ := h.resumeTask t
    refine ⟨_, rfl, fun _ => ?_, htwin⟩
    rw [Sys.look_settle, Sys.look_settle]
    by_cases ht : t = W
    · -- one of the two may owe a yield
      subst ht
      have hcalm : ∀ y, (Sys.afterSection (.ret .unit y)).calm = .ret .unit := fun y => by cases y <;> rfl
      simp only [Op.told, if_true, Kernel.at_k, hy, hy', hcalm]
    · simp only [Kernel.at_k, hsame ht]
  | deleteBody t =>
    cases hgo
    exact ⟨_, rfl, shows_section _ hset hset (h.deleteTask hfits (h.shown_of_delete hfits hserved))⟩
  | waitBody g mask waitAll clear ms =>
    cases ht : k.currentTask with
    | none => simp [Sys.advance, Kernel.at, ht] at hgo
    | some t =>
      rw [ht] at hcur
      have hstep : ∀ {k₀ : Kernel}, k₀.currentTask = some t →
          (k₀.at (.waitBody g mask waitAll clear ms)).advance k.self =
          some ((k₀.at (.waitBody g mask waitAll clear ms)).settle k.self
            (EventGroup.waitBits g mask waitAll clear ms t k₀)) := fun {k₀} h₀ => by
        simp only [Sys.advance, Kernel.at, h₀]
      cases (hstep ht).symm.trans hgo
      have hta : a.currentTask = some t := by rw [← h.rep.core_eq]; exact ht
      exact ⟨_, hstep hcur, shows_section _ hset hset (h.waitBits hta (hr rfl t hta) g mask waitAll clear ms)⟩
  | yield r =>
    cases hgo
    exact ⟨_, rfl, shows_goto _ hset hset h.same⟩
  | yieldWait w =>
    cases hgo
    exact ⟨_, rfl, shows_goto _ hset hset h.same⟩
  | finish w =>
    cases ht : k.currentTask with
    | none => simp [Sys.advance, Kernel.at, ht] at hgo
    | some t =>
      rw [ht] at hcur
      have hstep : ∀ {k₀ : Kernel}, k₀.currentTask = some t → (k₀.at (.finish w)).advance k.self =
          some ((k₀.at (.finish w)).setPc k.self (Sys.afterWait t w k₀)) := fun {k₀} h₀ => by
        simp only [Sys.advance, Kernel.at, h₀]
      cases (hstep ht).symm.trans hgo
      refine ⟨_, hstep hcur, fun hne => ?_, h.same⟩
      rw [hset, hset, h.afterWait w fun hW => hne (by rw [hself ht, hW])]
  | reread g =>
    cases hgo
    exact ⟨_, rfl, shows_section _ hset hset (h.readBits g)⟩
  | ret r =>
    cases hgo
    exact ⟨_, rfl, shows_goto _ hset hset (Kernel.Twin.emit h.same rfl)⟩

/-! ### Operations -/

theorem report (h : Twins W away k k' a b) {away' : Bool} {r r' : Pc × Kernel}
    (hs : Kernel.Shows W away' op (op.actor k) r r') : op.report W k' r'.1 r'.2 = op.report W k r.1 r.2 := by
  obtain ⟨htold, c, d, htwins⟩ := hs
  have hactor : op.actor k' = op.actor k := by
    cases op with
    | call c => exact h.self
    | go p => exact h.self
    | _ => rfl
  have htcb : ∀ t, t ≠ W → k'.tcb t = k.tcb t ∧ r'.2.tcb t = r.2.tcb t := fun t ht => by
    rw [h.rep.core_eq, h.rep'.core_eq, htwins.rep.core_eq, htwins.rep'.core_eq]
    exact ⟨h.veiled.tcb t ht, htwins.veiled.tcb t ht⟩
  have hcount : k'.taskCount = k.taskCount := by rw [h.rep.core_eq, h.rep'.core_eq, h.veiled.taskCount]
  unfold Op.report
  rw [hactor, hcount]
  congr 1
  · split
    · rfl
    · rename_i hne
      rw [htold hne, htwins.rep.core_eq, htwins.rep'.core_eq, htwins.veiled.frame _ hne]
  · refine List.filter_congr fun t _ => ?_
    by_cases ht : t = W
    · simp [ht]
    · rw [(htcb t ht).1, (htcb t ht).2]

/-- An operation that the machine performs can be performed on the twin, which stays a twin; `W` comes back if a tick
ends its wait. -/
theorem perform (h : Twins W away k k' a b) {r : Pc × Kernel} (hfits : op.Fits W a.toCore)
    (hop : op.perform k = some r)
    (hserved : op ≠ .tick → away = true → (r.2.tcb W).waitList ≠ none) :
    ∃ r' away', op.perform k' = some r' ∧ op.report W k' r'.1 r'.2 = op.report W k r.1 r.2 ∧
      Kernel.Twin W away' r.2 r'.2 ∧ (away' = true → away = true) ∧
      (away = true → away' = false → (r.2.tcb W).waitList = none) := by
  obtain ⟨hfault, hop⟩ := Op.perform_some hop
  have hfault' : k'.fault = none := by
    rw [h.rep'.core_eq]
    exact h.veiled.fault (by rw [← h.rep.core_eq]; exact hfault)
  have hend : ∀ {r'}, op.run k' = some r' → Kernel.Shows W away op (op.actor k) r r' →
      ∃ r' away', op.perform k' = some r' ∧ op.report W k' r'.1 r'.2 = op.report W k r.1 r.2 ∧
        Kernel.Twin W away' r.2 r'.2 ∧ (away' = true → away = true) ∧
        (away = true → away' = false → (r.2.tcb W).waitList = none) := fun {r'} hr' hs =>
    ⟨r', away, (Op.perform_eq hfault').trans hr', h.report hs, hs.2, id, fun haway hback => by
      rw [haway] at hback
      cases hback⟩
  cases op with
  | call c =>
    cases hop
    refine hend (congrArg some ?_) (h.call hfits.1 hfits.2 (hserved (by simp)))
    rw [h.self]
  | go p =>
    obtain ⟨s₁, hgo, rfl⟩ := Option.map_eq_some_iff.mp hop
    obtain ⟨s₁', hgo', hs⟩ := h.advance hfits.1 hfits.2 hgo (hserved (by simp))
    refine hend ?_ hs
    rw [Op.run, h.self, hgo']
    rfl
  | isr c =>
    cases hop
    obtain ⟨hret, htwin⟩ := (h.emit (o := .isrCall c) rfl).isrCall c (hserved (by simp))
    have hrun : (Op.isr c).run k' = some (if (Sys.isrCall c (k.emit (.isrCall c))).1.2 then
          .yield (Sys.isrCall c (k.emit (.isrCall c))).1.1 else .ret (Sys.isrCall c (k.emit (.isrCall c))).1.1,
        (Sys.isrCall c (k'.emit (.isrCall c))).2.emit (.ret .isr (Sys.isrCall c (k.emit (.isrCall c))).1.1)) := by
      rw [← hret]
      rfl
    exact hend hrun ⟨fun _ => rfl, htwin.emit rfl⟩
  | tick =>
    cases hop
    obtain ⟨away', htwin, hmono, hback⟩ := h.tick
    exact ⟨_, away', Op.perform_eq hfault', h.report ⟨fun _ => rfl, htwin⟩, htwin, hmono, hback⟩
  | dispatch next psp =>
    obtain ⟨k₁, hk₁, rfl⟩ := Option.map_eq_some_iff.mp hop
    obtain ⟨k₁', hk₁', htwin⟩ := h.dispatch hk₁
    have hrun : (Op.dispatch next psp).run k' = some (.user, k₁') := by
      rw [Op.run, hk₁']
      rfl
    exact hend hrun ⟨fun _ => rfl, htwin⟩

end Twins

end AcRtos
