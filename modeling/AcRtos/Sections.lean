import AcRtos.Objects
import AcRtos.Ownership
import AcRtos.SchedulerRefinement

/-!
# Critical sections as visits

Every critical section that the running context enters, and every call of an interrupt handler, is a run of
actions of its visit (`Visit.Leads`): the kernel afterwards represents the state at the end of the run.
-/

namespace AcRtos

open Abs

/-- The visit `v` can take the abstract kernel from `a` to a state that `k'` represents. -/
def Visit.Leads (v : Visit) (a : Abs) (k' : Kernel) : Prop := ∃ acts a', Runs v a acts a' ∧ Rep k' a'

/-- A critical section of the context `c` with outcome `o`. -/
abbrev Visit.section (c : Ctx) (masked : Bool) (before : Pc) (o : Outcome) : Visit :=
  Visit.call c masked before (Sys.afterSection o)

/-- A call that ends so gives up the CPU. -/
def Outcome.yields : Outcome → Bool
  | .ret _ yield => yield
  | .wait _ => true

/-- A critical section of the running context, with the pc `before` it, that ends with the outcome `o` and
the kernel `k'`. A yield is asked for only after `start()`. -/
def Abs.Enters (a : Abs) (masked : Bool) (before : Pc) (o : Outcome) (k' : Kernel) : Prop :=
  (Visit.section a.self masked before o).Leads a k' ∧ (o.yields = true → a.started = true)

/-- What holds when the running context enters a critical section. -/
structure Abs.Entered (a : Abs) : Prop where
  wf : a.WF
  owned : a.Owned
  starved : a.Starved
  running : ∀ t, a.currentTask = some t → (a.tcb t).state = .running
  started : ∀ t, a.currentTask = some t → a.started = true

namespace Visit

variable {v : Visit} {k k' : Kernel} {a : Abs}

theorem leads_refl (h : Rep k a) : v.Leads a k := ⟨[], a, rfl, h⟩

theorem leads_of_action (act : Action) (he : act.Enabled a) (hf : act.Fits v a)
    (h : Rep k' (act.apply a)) : v.Leads a k' := ⟨_, _, Runs.single act he hf, h⟩

theorem leads_cons (act : Action) (he : act.Enabled a) (hf : act.Fits v a)
    (h : v.Leads (act.apply a) k') : v.Leads a k' := by
  obtain ⟨acts, a', hruns, hrep⟩ := h
  exact ⟨act :: acts, a', ⟨he, hf, hruns⟩, hrep⟩

theorem leads_data (h : Rep k a) {d : DataOp} (he : d.Enabled a) (hf : d.Fits v a) :
    v.Leads a (k.core d.run) := leads_of_action (.data d) he hf (h.core d.run)

theorem leads_check (h : Rep k a) (x : Assertion) (b : Bool) (hx : (Fault.assert x).expected = true := by rfl) :
    v.Leads a (k.check x b) := by
  refine leads_of_action (.data (.quiet (a.check x b))) (Rep.quiet_check x b a.toCore hx) trivial ?_
  exact h.core (·.check x b)

end Visit

open Visit

theorem Visit.Leads.enters {a : Abs} {masked : Bool} {before : Pc} {r : Ret} {k' : Kernel}
    (h : (Visit.section a.self masked before (.ret r false)).Leads a k') :
    a.Enters masked before (.ret r false) k' := ⟨h, by simp [Outcome.yields]⟩

theorem Core.started_of_preempts {e : Core} {t : Tid} (h : e.preempts t = true) : e.started = true := by
  simp only [Core.preempts, Bool.and_eq_true] at h
  exact h.1

section
variable {k k' : Kernel} {a : Abs} {masked : Bool} {before : Pc} {o : Outcome}

theorem Abs.Entered.task_self (_ : a.Entered) {t : Tid} (ht : a.currentTask = some t) :
    a.self = .task t := by
  simp [Core.self, ht]

theorem self_eq (h : Rep k a) : k.self = a.self := by rw [h.core_eq]

theorem park_acts (h : Rep k a) (hwf : a.WF) {t : Tid} (ht : a.currentTask = some t) (hr : (a.tcb t).state = .running)
    (w : Wait) (hw : ∀ m, w ≠ .lock m) (hblocks : w.Blocks a t) {ms : TickType} (hms : ms ≠ 0) :
    (Action.park w t (Rep.timeoutTicks a.config ms)).Enabled a ∧
      Rep (WaitQueue.startTimeout t ms (WaitQueue.park w.list t (k.core (·.setTask t (w.request t)))))
        ((Action.park w t (Rep.timeoutTicks a.config ms)).apply a) := by
  have hboost : a.boost w t = a := by
    cases w with
    | lock m => exact absurd rfl (hw m)
    | _ => rfl
  refine ⟨⟨hwf.current_lt t ht, hr, fun n hn => ?_, hblocks⟩, ?_⟩
  · unfold Rep.timeoutTicks at hn
    split at hn
    · cases hn
    · cases hn
      exact ⟨msToTicks_pos a.config hms, hw⟩
  · have := h.block hwf hr w ms
    simpa [Action.apply, Abs.park, hboost] using this

theorem park_leads (before : Pc) (h : Rep k a) (hi : a.Entered) {t : Tid} (ht : a.currentTask = some t) (w : Wait)
    (hw : ∀ m, w ≠ .lock m) (hblocks : w.Blocks a t) {ms : TickType} (hms : ms ≠ 0)
    (hm : masked = false) :
    (Visit.section a.self masked before (.wait w)).Leads a
      (WaitQueue.startTimeout t ms (WaitQueue.park w.list t (k.core (·.setTask t (w.request t))))) := by
  obtain ⟨hen, hrep⟩ := park_acts h hi.wf ht (hi.running t ht) w hw hblocks hms
  exact leads_of_action _ hen ⟨hi.task_self ht, hm, rfl, rfl⟩ hrep

/-! ### Semaphores -/

theorem tryTake_leads (h : Rep k a) {v : Visit} {s : SemId} {b : Bool}
    (heq : Semaphore.tryTake s v.ctx k = (b, k')) : v.Leads a k' := by
  unfold Semaphore.tryTake at heq
  split at heq
  · cases heq
    exact leads_refl h
  · rename_i hcount
    cases heq
    refine leads_data (d := .takeToken s v.ctx) h ?_ rfl
    show a.count s ≠ 0
    rwa [← h.core_eq]

theorem take_leads (h : Rep k a) (hi : a.Entered) {s : SemId} {ms : TickType}
    (hm : ms ≠ 0 → masked = false) (heq : Semaphore.take s ms k = (o, k')) : a.Enters masked before o k' := by
  unfold Semaphore.take at heq
  split at heq
  · cases heq
    rw [self_eq h]
    exact (tryTake_leads (v := Visit.section a.self masked before _) (s := s) h rfl).enters
  · rename_i hms
    split at heq
    · rename_i hcount
      cases heq
      rw [self_eq h]
      refine Leads.enters (leads_data (d := .takeToken s a.self) h ?_ rfl)
      show a.count s ≠ 0
      rw [← h.core_eq]
      bv_omega
    · split at heq
      · cases heq
        exact (leads_check h _ _).enters
      · rename_i t ht
        cases heq
        rw [h.core_eq] at ht
        refine ⟨park_leads _ h hi ht (.take s) (by simp) ?_ hms (hm hms), fun _ => hi.started t ht⟩
        show a.count s = 0
        rw [← h.core_eq]
        bv_omega

/-! ### Serving the first waiter -/

/-- What a handing writes is decided by what the waiter asked for: it does not see that the waiter has left
its list, and leaves all tasks alone. -/
structure Delivers (t : Tid) (f : Core → Core) : Prop where
  setTask : ∀ e : Core, f (e.setTask t fun c => { c with waitList := none }) =
    (f e).setTask t fun c => { c with waitList := none }
  tcb : ∀ e : Core, (f e).tcb = e.tcb
  currentTask : ∀ e : Core, (f e).currentTask = e.currentTask
  started : ∀ e : Core, (f e).started = e.started

theorem delivers_id (t : Tid) : Delivers t id := ⟨fun _ => rfl, fun _ => rfl, fun _ => rfl, fun _ => rfl⟩

theorem delivers_token (t : Tid) (s : SemId) : Delivers t ((Handing.token s).run t) :=
  ⟨fun _ => rfl, fun _ => rfl, fun _ => rfl, fun _ => rfl⟩

theorem delivers_item (t : Tid) (q : QueueId) (p : Ctx) : Delivers t ((Handing.item q p).run t) := by
  refine ⟨fun e => ?_, fun e => ((Handing.item q p).alike t e).tcb,
    fun e => ((Handing.item q p).alike t e).currentTask, fun e => ?_⟩
  · simp only [Handing.run, QueueCore.handOver, Core.setTask_tcb, Function.update_self]
    split <;> rfl
  · simp only [Handing.run, QueueCore.handOver]
    split <;> rfl

theorem delivers_pushOf (t : Tid) (q : QueueId) : Delivers t (QueueCore.pushOf q t) := by
  refine ⟨fun e => ?_, fun e => ?_, fun e => ?_, fun e => ?_⟩
  · simp only [QueueCore.pushOf, Core.setTask_tcb, Function.update_self]
    split <;> rfl
  all_goals
    unfold QueueCore.pushOf
    split <;> rfl

theorem delivers_satisfy (t : Tid) (g : EventId) : Delivers t (EventGroup.satisfy g t) := by
  refine ⟨fun e => ?_, fun e => ((Handing.bits g).alike t e).tcb,
    fun e => ((Handing.bits g).alike t e).currentTask, fun e => ?_⟩
  · simp only [EventGroup.satisfy, EventGroup.consume, EventGroup.report, Core.setTask_tcb,
      Function.update_self, Core.setTask_currentBits]
    cases (e.tcb t).eventClearOnExit <;> simp <;> split <;> rfl
  · simp only [EventGroup.satisfy, EventGroup.report, EventGroup.consume]
    cases (e.tcb t).eventClearOnExit <;> split <;> rfl

theorem preempts_congr {e e' : Core} {t : Tid} (hstarted : e'.started = e.started)
    (hcurrent : e'.currentTask = e.currentTask)
    (hprio : ∀ u, (e'.tcb u).priority = (e.tcb u).priority) : e'.preempts t = e.preempts t := by
  unfold Core.preempts
  rw [hstarted, hcurrent, hprio]
  cases e.currentTask with
  | none => rfl
  | some c => simp only [hprio]

/-- `make_task_ready` of a waiter that has left its list and its countdown and has been served by `f`. -/
theorem serve {f : Core → Core} {t : Tid} (hf : Delivers t f) {b : Abs} (hwf : a.WF)
    (hb : (a.tcb t).state = .blocked) (hseq : b.seq = fun l => (a.seq l).erase t)
    (hsleepers : b.sleepers = Countdown.cancel t a.sleepers) (hheld : b.heldBy = a.heldBy)
    (hcore : b.toCore = f a.toCore ∨ b.toCore = (f a.toCore).setTask t fun c => { c with waitList := none })
    (h : Rep k b) : (Scheduler.makeTaskReady t k).1 = a.preempts t ∧
      Rep (Scheduler.makeTaskReady t k).2 ((a.core f).wake t) := by
  have htcb : ∀ u, (b.tcb u).state = (a.tcb u).state ∧ (b.tcb u).priority = (a.tcb u).priority := by
    intro u
    rcases hcore with hc | hc
    · rw [hc, hf.tcb]
      exact ⟨rfl, rfl⟩
    · rw [hc, Core.setTask_tcb, hf.tcb]
      by_cases hu : u = t
      · subst hu; simp
      · simp [Function.update_of_ne hu]
  have hstarted : b.started = a.started := by
    rcases hcore with hc | hc
    · rw [hc, hf.started]
    · rw [hc, Core.setTask_started, hf.started]
  have hcurrent : b.currentTask = a.currentTask := by
    rcases hcore with hc | hc
    · rw [hc, hf.currentTask]
    · rw [hc, Core.setTask_currentTask, hf.currentTask]
  obtain ⟨hflag, hready⟩ := h.makeTaskReady (t := t)
    (fun l hl => not_mem_leave hwf.nodup l (by rw [hseq] at hl; exact hl))
    (by rw [(htcb t).1, hb]; simp) (by rw [(htcb t).2]; exact (hwf.ok t).priority_lt)
  refine ⟨hflag.trans (preempts_congr hstarted hcurrent fun u => (htcb u).2), ?_⟩
  have hfinal : b.attach t = (a.core f).wake t := by
    have hprio : ((f a.toCore).tcb t).priority = (a.tcb t).priority := by rw [hf.tcb]
    refine Abs.ext_core ?_ ?_ ?_ ?_
    · rcases hcore with hc | hc
      · simp only [attach, enter, core_toCore, hc]
        rfl
      · simp only [attach, enter, core_toCore, hc, Core.setTask_setTask]
        rfl
    · simp only [attach, enter, Abs.wake, Abs.move, core_toCore, core_seq, hprio, (htcb t).2, hseq]
    · exact hsleepers
    · exact hheld
  rw [hfinal] at hready
  exact hready

theorem serve_first (h : Rep k a) (hwf : a.WF) {f : Core → Core} {t : Tid} (hf : Delivers t f) {w : WaitId}
    {xs : List Tid} (hseq : a.seq (.wait w) = t :: xs) :
    (WaitQueue.wakeHighest w k).1 = some t ∧
      (Scheduler.makeTaskReady t ((WaitQueue.wakeHighest w k).2.core f)).1 = a.preempts t ∧
      Rep (Scheduler.makeTaskReady t ((WaitQueue.wakeHighest w k).2.core f)).2 ((a.core f).wake t) := by
  obtain ⟨hfst, hrep⟩ := h.wakeHighest hseq
  have hmem := (hwf.mem_wait (t := t)).mp (by rw [hseq]; exact List.mem_cons_self)
  obtain ⟨hflag, hready⟩ := serve hf (b := (a.detach t).core f) hwf hmem.1 rfl rfl rfl
    (Or.inr (hf.setTask a.toCore)) (hrep.core f)
  exact ⟨hfst, hflag, hready⟩

theorem giveLocked_leads {v : Visit} (h : Rep k a) (hwf : a.WF) {s : SemId} {y : Bool}
    (heq : Semaphore.giveLocked s k = (y, k')) (hy : y = true → v.owed = true) :
    v.Leads a k' ∧ (y = true → a.started = true) := by
  unfold Semaphore.giveLocked at heq
  cases hseq : a.seq (.wait (.sem s)) with
  | nil =>
    rw [h.wakeHighest_nil hseq] at heq
    simp only at heq
    rw [h.core_eq] at heq
    split at heq <;> cases heq
    · rename_i hlt
      exact ⟨leads_data (d := .addToken s) h ⟨hseq, by bv_omega⟩ trivial, by simp⟩
    · rename_i hge
      exact ⟨leads_data (d := .dropToken s) h ⟨hseq, by bv_omega⟩ trivial, by simp⟩
  | cons t xs =>
    obtain ⟨hfst, hflag, hrep⟩ := serve_first h hwf (delivers_token t s) hseq
    simp only [hfst, Kernel.emit_eq] at heq
    have hk : (Scheduler.makeTaskReady t
        ((WaitQueue.wakeHighest (.sem s) k).2.core ((Handing.token s).run t))) = (y, k') := heq
    rw [hk] at hflag hrep
    refine ⟨leads_of_action (.hand (.token s) t) ?_ ⟨trivial, fun hp => hy ?_⟩ hrep, fun hy => ?_⟩
    · show (a.seq (.wait (.sem s))).head? = some t
      rw [hseq]; rfl
    · exact hflag.trans hp
    · exact Core.started_of_preempts (hflag.symm.trans hy)

theorem give_leads (h : Rep k a) (hi : a.Entered) {s : SemId} (heq : Semaphore.give s k = (o, k')) :
    a.Enters masked before o k' := by
  cases hr : Semaphore.giveLocked s k with
  | mk y k₁ =>
    simp only [Semaphore.give, hr] at heq
    cases heq
    exact giveLocked_leads h hi.wf hr fun hy => by cases hy; rfl

/-! ### Queues -/

theorem trySendLocked_leads (k' : Kernel) {v : Visit} (h : Rep k a) (hwf : a.WF) (hs : a.Starved) {q : QueueId}
    {b y : Bool} (heq : QueueCore.trySendLocked q v.ctx k = ((b, y), k'))
    (hy : y = true → v.owed = true) :
    v.Leads a k' ∧ (y = true → a.started = true) ∧
      (b = false → k' = k ∧ a.seq (.wait (.receivers q)) = [] ∧
        ¬ (a.ring q).count < a.config.capacity q) := by
  unfold QueueCore.trySendLocked at heq
  cases hseq : a.seq (.wait (.receivers q)) with
  | nil =>
    rw [h.wakeHighest_nil hseq] at heq
    simp only at heq
    rw [h.core_eq] at heq
    split at heq <;> cases heq
    · rename_i hlt
      exact ⟨leads_data (d := .pushFrom q v.ctx) h ⟨hseq, hlt⟩ rfl, by simp, by simp⟩
    · rename_i hge
      exact ⟨leads_refl h, by simp, fun _ => ⟨rfl, rfl, hge⟩⟩
  | cons t xs =>
    obtain ⟨hfst, hflag, hrep⟩ := serve_first h hwf (delivers_item t q v.ctx) hseq
    have hmem := (hwf.mem_wait (t := t)).mp (by rw [hseq]; exact List.mem_cons_self)
    have hempty : (((WaitQueue.wakeHighest (.receivers q) k).2.ring q).count = 0) := by
      rw [(h.wakeHighest hseq).2.core_eq]
      exact hs.receivers q t hmem.2
    simp only [hfst, decide_eq_true hempty, Rep.check_true] at heq
    cases hr : Scheduler.makeTaskReady t
      ((WaitQueue.wakeHighest (.receivers q) k).2.core (QueueCore.handOver q v.ctx t)) with
    | mk y' k₁ =>
      have hk : Scheduler.makeTaskReady t
        ((WaitQueue.wakeHighest (.receivers q) k).2.core ((Handing.item q v.ctx).run t)) = (y', k₁) := hr
      rw [hr] at heq
      rw [hk] at hflag hrep
      cases heq
      refine ⟨leads_of_action (.hand (.item q v.ctx) t) ?_ ⟨rfl, fun hp => hy ?_⟩ hrep, fun hy => ?_,
        by simp⟩
      · show (a.seq (.wait (.receivers q))).head? = some t
        rw [hseq]; rfl
      · exact hflag.trans hp
      · exact Core.started_of_preempts (hflag.symm.trans hy)

theorem tryReceiveLocked_leads (k' : Kernel) {v : Visit} (h : Rep k a) (hwf : a.WF) {q : QueueId} {b y : Bool}
    (heq : QueueCore.tryReceiveLocked q v.ctx k = ((b, y), k')) (hy : y = true → v.owed = true) :
    v.Leads a k' ∧ (y = true → a.started = true) ∧ (b = false → k' = k ∧ (a.ring q).count = 0) := by
  unfold QueueCore.tryReceiveLocked at heq
  rw [h.core_eq] at heq
  split at heq
  · rename_i hz
    cases heq
    exact ⟨leads_refl h, by simp, fun _ => ⟨rfl, hz⟩⟩
  · rename_i hne
    have hpop := h.core (QueueCore.popTo q v.ctx)
    have halike := Core.alike_popTo q v.ctx a.toCore
    unfold QueueCore.backFill at heq
    cases hseq : a.seq (.wait (.senders q)) with
    | nil =>
      rw [hpop.wakeHighest_nil hseq] at heq
      cases heq
      exact ⟨leads_data (d := .popTo q v.ctx) h ⟨hne, hseq⟩ rfl, by simp, by simp⟩
    | cons t xs =>
      obtain ⟨hfst, hflag, hrep⟩ := serve_first hpop (hwf.core halike) (delivers_pushOf t q) hseq
      simp only [hfst] at heq
      cases hr : Scheduler.makeTaskReady t ((WaitQueue.wakeHighest (.senders q)
          (k.core (QueueCore.popTo q v.ctx))).2.core (QueueCore.pushOf q t)) with
      | mk y' k₁ =>
        rw [hr] at heq hflag hrep
        cases heq
        have hsame : (a.core (QueueCore.popTo q v.ctx)).preempts t = a.preempts t :=
          preempts_congr rfl halike.currentTask fun u => by
            show ((QueueCore.popTo q v.ctx a.toCore).tcb u).priority = _
            rw [halike.tcb]
        refine ⟨leads_of_action (.hand (.slot q v.ctx) t) ⟨?_, hne⟩ ⟨rfl, fun hp => hy ?_⟩ hrep,
          fun hy => ?_, by simp⟩
        · rw [hseq]; rfl
        · exact hflag.trans (hsame.trans hp)
        · exact Core.started_of_preempts ((hflag.trans hsame).symm.trans hy)

theorem sendOrBlock_leads (h : Rep k a) (hi : a.Entered) {w : Wait} (hw : ∀ m, w ≠ .lock m)
    (hreq : ∀ t c, w.request t c = { c with xferPtr := some (.task t), timeoutExpired := false })
    {ms : TickType} (hm : ms ≠ 0 → masked = false) {r : (Bool × Bool) × Kernel}
    (hr : ∀ v : Visit, v.ctx = a.self → (r.1.2 = true → v.owed = true) → v.Leads a r.2)
    (hyield : r.1.2 = true → a.started = true) (hfail : r.1.1 = false → r.2 = k ∧ ∀ t, w.Blocks a t)
    (heq : QueueCore.sendOrBlock w ms r = (o, k')) : a.Enters masked before o k' := by
  unfold QueueCore.sendOrBlock at heq
  split at heq
  · cases heq
    exact ⟨hr _ rfl fun hy => by rw [hy]; rfl, hyield⟩
  · rename_i hb
    obtain ⟨hk, hblocks⟩ := hfail (by simpa using hb)
    split at heq
    · cases heq
      rw [hk]
      exact (leads_refl h).enters
    · rename_i hms
      rw [hk] at heq
      unfold QueueCore.blockCurrentLocked at heq
      rw [h.core_eq] at heq
      cases hcur : a.currentTask with
      | none =>
        simp only [hcur] at heq
        cases heq
        exact (leads_check h _ _).enters
      | some t =>
        simp only [hcur] at heq
        cases heq
        have hpark := park_leads before h hi hcur w hw (hblocks t) hms (hm hms)
        rw [hi.task_self hcur] at hpark
        rw [show w.request t = fun c => { c with xferPtr := some (.task t), timeoutExpired := false } from
          funext (hreq t)] at hpark
        refine ⟨?_, fun _ => hi.started t hcur⟩
        rw [hi.task_self hcur]
        exact hpark

theorem send_leads (h : Rep k a) (hi : a.Entered) {q : QueueId} {ms : TickType}
    (hm : ms ≠ 0 → masked = false) (heq : QueueCore.send q ms k = (o, k')) : a.Enters masked before o k' := by
  have htry := fun (v : Visit) (hv : v.ctx = a.self) =>
    trySendLocked_leads (QueueCore.trySendLocked q a.self k).2 (v := v) (q := q) h hi.wf hi.starved
      (by rw [hv])
  unfold QueueCore.send at heq
  rw [self_eq h] at heq
  obtain ⟨-, hyield, hfail⟩ := htry ⟨.call, a.self, masked, .user, .user, true⟩ rfl fun _ => rfl
  refine sendOrBlock_leads h hi (w := .send q) (by simp) (fun _ _ => rfl) hm (fun v hv hy => (htry v hv hy).1)
    hyield (fun hb => ?_) heq
  obtain ⟨hk, hnil, hfull⟩ := hfail hb
  exact ⟨hk, fun t => ⟨hnil, hfull⟩⟩

theorem receive_leads (h : Rep k a) (hi : a.Entered) {q : QueueId} {ms : TickType}
    (hm : ms ≠ 0 → masked = false) (heq : QueueCore.receive q ms k = (o, k')) : a.Enters masked before o k' := by
  have htry := fun (v : Visit) (hv : v.ctx = a.self) =>
    tryReceiveLocked_leads (QueueCore.tryReceiveLocked q a.self k).2 (v := v) (q := q) h hi.wf
      (by rw [hv])
  unfold QueueCore.receive at heq
  rw [self_eq h] at heq
  obtain ⟨-, hyield, hfail⟩ := htry ⟨.call, a.self, masked, .user, .user, true⟩ rfl fun _ => rfl
  refine sendOrBlock_leads h hi (w := .receive q) (by simp) (fun _ _ => rfl) hm
    (fun v hv hy => (htry v hv hy).1) hyield (fun hb => ?_) heq
  obtain ⟨hk, hz⟩ := hfail hb
  exact ⟨hk, fun t => hz⟩

/-! ### Mutexes -/

theorem acquire_rep (h : Rep k a) (howned : a.Owned) {m : MutexId} {t : Tid} (hfree : a.owner m = none) :
    Rep ((k.core (·.setOwner m (some t))).setHeld (HeldList.addHeld m t k.held)) (a.acquire m t) := by
  have hfresh : ∀ u, m ∉ a.heldBy u := fun u hu => by
    rw [howned.held_iff, hfree] at hu
    cases hu
  have hheld := HeldList.addHeld_represents (t := t) h.held hfresh
  exact ⟨(h.core (·.setOwner m (some t))).core_eq, h.links, h.mask, h.delay, hheld⟩

theorem park_lock_rep (h : Rep k a) (hwf : a.WF) (howned : a.Owned) {m : MutexId} {t u : Tid}
    (howner : a.owner m = some u) (hrun : (a.tcb t).state = .running) :
    Rep (WaitQueue.park (.mutex m) t ((if (a.tcb t).priority > (a.tcb u).priority then
      Scheduler.setTaskPriority u (a.tcb t).priority k else k).setTask t fun c => { c with timeoutExpired := false }))
      (a.park (.lock m) t none) := by
  have hboost : Rep (if (a.tcb t).priority > (a.tcb u).priority then
      Scheduler.setTaskPriority u (a.tcb t).priority k else k) (a.boost (.lock m) t) := by
    rw [boost_lock howner]
    by_cases hlt' : (a.tcb u).priority < (a.tcb t).priority
    · have hset := h.setTaskPriority hwf (hwf.ok t).priority_lt (howned.owner_lt m u howner).1
      rw [if_neg (by omega)] at hset
      rw [if_pos hlt', if_pos hlt']
      exact hset
    · rw [if_neg hlt', if_neg hlt']
      exact h
  have hwf' : (a.boost (.lock m) t).WF := hwf.boost fun m' hm' o ho => by
    cases hm'
    exact (howned.owner_lt m o ho).1
  have hrun' : ((a.boost (.lock m) t).tcb t).state = .running := by
    rw [boost_tcb]
    exact hrun
  exact hboost.block hwf' hrun' (.lock m) kWaitForever

theorem lock_leads (h : Rep k a) (hi : a.Entered) {m : MutexId} (hm : m < a.config.mutexes)
    (hmasked : masked = false) (hasked : (talk a.self a.trace).asked = some (.inl (.lock m)))
    (heq : Mutex.lock m k = (o, k')) : a.Enters masked before o k' := by
  unfold Mutex.lock at heq
  rw [h.core_eq] at heq
  cases hcur : a.currentTask with
  | none =>
    simp only [hcur] at heq
    cases heq
    exact (leads_check h _ _).enters
  | some t =>
    have hrun := hi.running t hcur
    refine ⟨?_, fun _ => hi.started t hcur⟩
    rw [hi.task_self hcur] at hasked ⊢
    simp only [hcur] at heq
    cases howner : a.owner m with
    | none =>
      simp only [howner] at heq
      cases heq
      exact leads_of_action (.acquire m t) ⟨howner, hrun, hm⟩ ⟨rfl, rfl, hasked⟩ (acquire_rep h hi.owned howner)
    | some u =>
      simp only [howner] at heq
      split at heq
      · cases heq
        exact leads_check h _ _
      · rename_i hne
        cases heq
        have hlt := (hi.owned.owner_lt m u howner).1
        exact leads_of_action (.park (.lock m) t none)
          ⟨hi.wf.current_lt t hcur, hrun, by simp, u, howner, hne, hlt⟩
          ⟨rfl, hmasked, rfl, rfl⟩ (park_lock_rep h hi.wf hi.owned howner hrun)

theorem waiterPriority_eq (h : Rep k a) : Mutex.waiterPriority k = a.waiterPriority := by
  funext m
  unfold Mutex.waiterPriority Abs.waiterPriority
  rw [h.core_eq, show (k.links.list (.wait (.mutex m))).head = _ from h.links.head_eq _]

theorem restorePriority (h : Rep k a) (hwf : a.WF) {t : Tid} (ht : t < a.taskCount)
    (hlen : (a.heldBy t).length ≤ a.config.mutexes) (y : Bool) :
    (Mutex.restorePriority t y k).1 = (y || decide (a.recompute t ≠ (a.tcb t).priority)) ∧
      Rep (Mutex.restorePriority t y k).2 (a.restore t) := by
  have hrec : Mutex.recomputePriority t k = some (a.recompute t) := by
    unfold Mutex.recomputePriority
    rw [waiterPriority_eq h, h.core_eq]
    exact HeldList.maxWaiter_eq (h.held.path t) hlen
  have hset := h.setTaskPriority hwf (hwf.recompute_lt (t := t)) ht
  unfold Mutex.restorePriority Abs.restore
  rw [hrec]
  simp only
  rw [h.core_eq]
  by_cases heq : a.recompute t = (a.tcb t).priority
  · rw [if_neg (not_not.mpr heq), if_neg (not_not.mpr heq)]
    exact ⟨by simp [heq], h⟩
  · rw [if_pos heq, if_pos heq]
    rw [if_neg heq] at hset
    exact ⟨by simp [heq], hset⟩

theorem handOff_first (h : Rep k a) (hwf : a.WF) {m : MutexId} {next : Tid} {xs : List Tid}
    (hseq : a.seq (.wait (.mutex m)) = next :: xs) (hfresh : ∀ u, m ∉ a.heldBy u) :
    (Mutex.handOff m k).1 = a.preempts next ∧ Rep (Mutex.handOff m k).2 (a.give m next) := by
  obtain ⟨hfst, hrep⟩ := h.wakeHighest hseq
  have hmem := (hwf.mem_wait (t := next)).mp (by rw [hseq]; exact List.mem_cons_self)
  have howned := hrep.core (·.setOwner m (some next))
  have hheld : Rep (((WaitQueue.wakeHighest (.mutex m) k).2.core (·.setOwner m (some next))).setHeld
      (HeldList.addHeld m next ((WaitQueue.wakeHighest (.mutex m) k).2.core
        (·.setOwner m (some next))).held))
      (((a.detach next).core (·.setOwner m (some next))).setHeldBy next (m :: a.heldBy next)) :=
    ⟨howned.core_eq, howned.links, howned.mask, howned.delay,
      HeldList.addHeld_represents howned.held hfresh⟩
  have hserve := serve (delivers_id next) (a := a.acquire m next)
    (b := ((a.detach next).core (·.setOwner m (some next))).setHeldBy next (m :: a.heldBy next))
    (hwf.acquire m) hmem.1 rfl rfl rfl (Or.inr rfl) hheld
  unfold Mutex.handOff
  simp only [hfst]
  exact hserve

/-- What `unlock` takes from the list of held mutexes: `owner_` is written by the hand-off only. -/
theorem removeHeld_rep (h : Rep k a) (howned : a.Owned) {m : MutexId} {t : Tid} (howner : a.owner m = some t) :
    ∃ held', HeldList.removeHeld a.config.mutexes m t k.held = some held' ∧
      Rep (k.setHeld held') (a.setHeldBy t ((a.heldBy t).erase m)) ∧
      ∀ u, m ∉ (a.setHeldBy t ((a.heldBy t).erase m)).heldBy u := by
  have hin := (howned.held_iff m t).mpr howner
  obtain ⟨held', hremove, hheld⟩ := HeldList.removeHeld_represents h.held hin (howned.length_le t)
  refine ⟨held', hremove, ⟨h.core_eq, h.links, h.mask, h.delay, hheld⟩, fun u hu => ?_⟩
  by_cases hut : u = t
  · subst hut
    have hmem : m ∈ (a.heldBy u).erase m := by simpa using hu
    exact ((howned.nodup u).mem_erase_iff.mp hmem).1 rfl
  · have hmem : m ∈ a.heldBy u := by simpa [Function.update_of_ne hut] using hu
    rw [howned.held_iff, howner] at hmem
    exact hut (Option.some.inj hmem).symm

theorem unlock_release (h : Rep k a) (hwf : a.WF) (howned : a.Owned) {m : MutexId} {t : Tid}
    (hcur : a.currentTask = some t) (howner : a.owner m = some t) (hseq : a.seq (.wait (.mutex m)) = []) :
    ∃ k', Mutex.unlock m k =
        (.ret (.bool true) (decide ((a.drop m t).recompute t ≠ (a.tcb t).priority)), k') ∧
      Rep k' ((a.drop m t).restore t) := by
  obtain ⟨held', hremove, hdropped, -⟩ := removeHeld_rep h howned howner
  have hoff : Mutex.handOff m (k.setHeld held') = (false, (k.setHeld held').core (·.setOwner m none)) := by
    unfold Mutex.handOff
    rw [hdropped.wakeHighest_nil hseq]
  have hrep : Rep ((k.setHeld held').core (·.setOwner m none)) (a.drop m t) := hdropped.core (·.setOwner m none)
  have hlen : ((a.drop m t).heldBy t).length ≤ a.config.mutexes := by
    have : (a.drop m t).heldBy t = (a.heldBy t).erase m := by simp [Abs.drop]
    rw [this]
    exact List.erase_sublist.length_le.trans (howned.length_le t)
  obtain ⟨hflag, hrestored⟩ := restorePriority hrep (hwf.drop m) (hwf.current_lt t hcur) hlen false
  refine ⟨_, ?_, hrestored⟩
  unfold Mutex.unlock
  rw [h.core_eq, if_neg (by rw [hcur, howner]; simp)]
  simp only [hcur, hremove, hoff]
  rw [hflag, Bool.false_or]
  rfl

theorem unlock_pass (h : Rep k a) (hwf : a.WF) (howned : a.Owned) {m : MutexId} {t next : Tid} {xs : List Tid}
    (hcur : a.currentTask = some t) (howner : a.owner m = some t) (hrun : (a.tcb t).state = .running)
    (hseq : a.seq (.wait (.mutex m)) = next :: xs) :
    ∃ k', Mutex.unlock m k = (.ret (.bool true) (a.preempts next ||
        decide (((a.drop m t).give m next).recompute t ≠ (a.tcb t).priority)), k') ∧
      Rep k' (((a.drop m t).give m next).restore t) := by
  obtain ⟨held', hremove, hdropped, hfresh⟩ := removeHeld_rep h howned howner
  have hin : next ∈ a.seq (.wait (.mutex m)) := by rw [hseq]; exact List.mem_cons_self
  have hne : next ≠ t := by
    rintro rfl
    rw [(hwf.mem_wait.mp hin).1] at hrun
    cases hrun
  obtain ⟨hpre, hgiven⟩ := handOff_first hdropped (hwf.setHeldBy _) hseq hfresh
  have hsame : (a.setHeldBy t ((a.heldBy t).erase m)).give m next = (a.drop m t).give m next := by
    unfold Abs.give
    congr 1
    refine Abs.ext_core ?_ rfl rfl rfl
    simp [Abs.acquire, Abs.drop, Core.setOwner]
  rw [hsame] at hgiven
  have hheldBy : ((a.drop m t).give m next).heldBy t = (a.heldBy t).erase m := by
    simp [Abs.give, Abs.wake, Abs.acquire, Abs.drop, Function.update_of_ne hne.symm]
  have hlen : (((a.drop m t).give m next).heldBy t).length ≤ a.config.mutexes := by
    rw [hheldBy]
    exact List.erase_sublist.length_le.trans (howned.length_le t)
  have hprio : ((((a.drop m t).give m next)).tcb t).priority = (a.tcb t).priority := by
    rw [Abs.give, Abs.wake, move_tcb, if_neg hne.symm]
    rfl
  have hwf' : ((a.drop m t).give m next).WF := ((hwf.drop m).acquire m).wake (hwf.lt_of_mem hin)
  obtain ⟨hflag, hrestored⟩ := restorePriority hgiven hwf' (hwf.current_lt t hcur) hlen
    (Mutex.handOff m (k.setHeld held')).1
  refine ⟨_, ?_, hrestored⟩
  unfold Mutex.unlock
  rw [h.core_eq, if_neg (by rw [hcur, howner]; simp)]
  simp only [hcur, hremove]
  rw [hflag, hprio, hpre]
  rfl

theorem unlock_leads (h : Rep k a) (hi : a.Entered) {m : MutexId}
    (hasked : (talk a.self a.trace).asked = some (.inl (.unlock m)))
    (heq : Mutex.unlock m k = (o, k')) : a.Enters masked before o k' := by
  by_cases howner : a.currentTask = a.owner m
  · cases hcur : a.currentTask with
    | none =>
      unfold Mutex.unlock at heq
      rw [h.core_eq, if_neg (not_not.mpr howner)] at heq
      simp only [hcur] at heq
      cases heq
      exact (leads_of_action (.data (.quiet (a.fail .nullDeref))) (Rep.quiet_fail _ _ rfl) trivial
        (h.core (·.fail .nullDeref))).enters
    | some t =>
      have hrun := hi.running t hcur
      rw [hi.task_self hcur] at hasked
      refine ⟨?_, fun _ => hi.started t hcur⟩
      rw [hi.task_self hcur]
      rw [hcur] at howner
      cases hseq : a.seq (.wait (.mutex m)) with
      | nil =>
        obtain ⟨k₁, hk₁, hrep⟩ := unlock_release h hi.wf hi.owned hcur howner.symm hseq
        obtain ⟨rfl, rfl⟩ := Prod.mk.inj (heq.symm.trans hk₁)
        refine leads_of_action (.release m t) ⟨howner.symm, hrun, hseq⟩ ⟨rfl, hasked, fun ho => ?_⟩ hrep
        by_contra hne
        rw [decide_eq_true hne] at ho
        cases ho
      | cons next xs =>
        obtain ⟨k₁, hk₁, hrep⟩ := unlock_pass h hi.wf hi.owned hcur howner.symm hrun hseq
        obtain ⟨rfl, rfl⟩ := Prod.mk.inj (heq.symm.trans hk₁)
        refine leads_of_action (.pass m t next) ⟨howner.symm, hrun, by rw [hseq]; rfl⟩
          ⟨rfl, hasked, fun hp => ?_, fun ho => ?_⟩ hrep
        · rw [hp, Bool.true_or]
          rfl
        · by_contra hne
          rw [decide_eq_true hne, Bool.or_true] at ho
          cases ho
  · unfold Mutex.unlock at heq
    rw [h.core_eq, if_pos howner] at heq
    cases heq
    exact (leads_check h _ _).enters

/-! ### Event groups -/

theorem scanLoop_true (g : EventId) (fuel : Nat) (cur : Option Tid) (k : Kernel) :
    (EventGroup.scanLoop g fuel cur true k).1 = true := by
  induction fuel generalizing cur k with
  | zero => cases cur <;> rfl
  | succ fuel ih =>
    cases cur with
    | none => rfl
    | some t =>
      simp only [EventGroup.scanLoop, Bool.true_or]
      split <;> exact ih _ _

theorem seq_wake_wait {t : Tid} {w : WaitId} (f : Core → Core) :
    ((a.core f).wake t).seq (.wait w) = (a.seq (.wait w)).erase t := by
  simp [Abs.wake, Abs.move]

/-- The waiters `ts` are looked at in turn, and those whose condition holds by then are served. -/
def Abs.scan (g : EventId) : List Tid → Abs → Abs
  | [], a => a
  | t :: ts, a =>
      if EventGroup.conditionMet (a.tcb t) (a.currentBits g) then
        Abs.scan g ts ((Action.hand (.bits g) t).apply a)
      else Abs.scan g ts a

theorem wakeWaiter_serves {g : EventId} {t : Tid} (h : Rep k a) (hwf : a.WF)
    (he : (Action.hand (.bits g) t).Enabled a) :
    (EventGroup.wakeWaiter g t k).1 = a.preempts t ∧
      Rep (EventGroup.wakeWaiter g t k).2 ((Action.hand (.bits g) t).apply a) := by
  have hmem : t ∈ a.seq (.wait (.waiters g)) := he.1
  have hgone := ((h.remove_wait hmem).cancelTimeout (t := t)).core (EventGroup.satisfy g t)
  exact serve (delivers_satisfy t g) (a := a)
    (b := ((a.leave t).setSleepers (Countdown.cancel t a.sleepers)).core (EventGroup.satisfy g t))
    hwf (hwf.mem_wait.mp hmem).1 rfl rfl rfl (Or.inl rfl) hgone

theorem seq_hand_bits {g : EventId} {t : Tid} {kept rest : List Tid} (hwf : a.WF)
    (hseq : a.seq (.wait (.waiters g)) = kept ++ t :: rest) :
    ((Action.hand (.bits g) t).apply a).seq (.wait (.waiters g)) = kept ++ rest := by
  have hnot : t ∉ kept := fun hin => by
    have hnodup := hwf.nodup (.wait (.waiters g))
    rw [hseq, List.nodup_append] at hnodup
    exact hnodup.2.2 t hin t (by simp) rfl
  show ((a.core ((Handing.bits g).run t)).wake t).seq (.wait (.waiters g)) = kept ++ rest
  rw [seq_wake_wait, hseq, List.erase_append_right _ hnot, List.erase_cons_head]

/-- The scan wakes waiters one after the other; `kept` are those it has passed, `rest` those to come. -/
theorem scanLoop_runs (kept : List Tid) {v : Visit} {g : EventId} {fuel : Nat} {rest : List Tid} {acc y : Bool}
    (h : Rep k a) (hwf : a.WF) (hseq : a.seq (.wait (.waiters g)) = kept ++ rest)
    (hfuel : rest.length ≤ fuel) (heq : EventGroup.scanLoop g fuel rest.head? acc k = (y, k'))
    (hy : y = true → v.owed = true) (hacc : acc = true → a.started = true) :
    (∃ acts, Runs v a acts (a.scan g rest)) ∧ Rep k' (a.scan g rest) ∧ (y = true → a.started = true) := by
  induction rest generalizing kept fuel acc k a with
  | nil =>
    have hend : EventGroup.scanLoop g fuel none acc k = (acc, k) := by cases fuel <;> rfl
    rw [List.head?_nil, hend] at heq
    cases heq
    exact ⟨⟨[], rfl⟩, h, hacc⟩
  | cons t rest ih =>
    obtain ⟨fuel, rfl⟩ : ∃ n, fuel = n + 1 := ⟨fuel - 1, by simp at hfuel; omega⟩
    obtain ⟨-, hnext⟩ := h.links.links_of_split hseq
    have hmem : t ∈ a.seq (.wait (.waiters g)) := by rw [hseq]; simp
    simp only [List.head?_cons, EventGroup.scanLoop, hnext, h.core_eq] at heq
    have hlen : rest.length ≤ fuel := by simpa using hfuel
    split at heq
    · rename_i hmet
      have hen : (Action.hand (.bits g) t).Enabled a := ⟨hmem, hmet⟩
      obtain ⟨hflag, hrep⟩ := wakeWaiter_serves h hwf hen
      have hstarted : ((Action.hand (.bits g) t).apply a).started = a.started := apply_started hen
      have hacc' : (acc || (EventGroup.wakeWaiter g t k).1) = true →
          ((Action.hand (.bits g) t).apply a).started = true := by
        intro hor
        rw [hstarted]
        rcases Bool.or_eq_true_iff.mp hor with hor | hor
        · exact hacc hor
        · exact Core.started_of_preempts (hflag.symm.trans hor)
      obtain ⟨⟨acts, hruns⟩, hrest, hflagged⟩ :=
        ih kept hrep (hwf.apply hen) (seq_hand_bits hwf hseq) hlen heq hacc'
      have hscan : a.scan g (t :: rest) = ((Action.hand (.bits g) t).apply a).scan g rest := if_pos hmet
      rw [hscan]
      refine ⟨⟨.hand (.bits g) t :: acts, hen, ⟨trivial, fun hp => hy ?_⟩, hruns⟩, hrest,
        fun ht => hstarted.symm.trans (hflagged ht)⟩
      -- the flag of this waiter survives to the end
      have hw : (EventGroup.wakeWaiter g t k).1 = true := hflag.trans hp
      rw [hw, Bool.or_true] at heq
      have hend := scanLoop_true g fuel rest.head? (EventGroup.wakeWaiter g t k).2
      rw [heq] at hend
      exact hend
    · rename_i hmet
      rw [show a.scan g (t :: rest) = a.scan g rest from if_neg hmet]
      refine ih (kept ++ [t]) h hwf ?_ hlen heq hacc
      rw [hseq, List.append_assoc]
      rfl

theorem setBitsLocked_runs {v : Visit} (h : Rep k a) (hwf : a.WF) {g : EventId} {mask : BitVec 32}
    {y : Bool} (heq : EventGroup.setBitsLocked g mask k = (y, k')) (hy : y = true → v.owed = true) :
    (∃ acts, Runs v (a.core (EventGroup.addBits g mask)) acts
      ((a.core (EventGroup.addBits g mask)).scan g (a.seq (.wait (.waiters g))))) ∧
    Rep k' ((a.core (EventGroup.addBits g mask)).scan g (a.seq (.wait (.waiters g)))) ∧
    (y = true → a.started = true) := by
  unfold EventGroup.setBitsLocked EventGroup.scanAndWakeLocked at heq
  have hrep := h.core (EventGroup.addBits g mask)
  have hwf' : (a.core (EventGroup.addBits g mask)).WF :=
    hwf.core ((Core.alike_setBits _ _ _).trans (Core.alike_emit _ _))
  have hhead : ((k.core (EventGroup.addBits g mask)).links.list (.wait (.waiters g))).head =
      (a.seq (.wait (.waiters g))).head? := h.links.head_eq _
  rw [hhead] at heq
  have hfuel : (a.seq (.wait (.waiters g))).length ≤ (k.core (EventGroup.addBits g mask)).config.kMaxTasks := by
    rw [hrep.core_eq]
    exact hwf'.length_seq_le _
  exact scanLoop_runs [] hrep hwf' rfl hfuel heq hy (by simp)

theorem setBitsLocked_leads {v : Visit} (h : Rep k a) (hwf : a.WF) {g : EventId} {mask : BitVec 32}
    {y : Bool} (hf : (DataOp.addBits g mask).Fits v a) (heq : EventGroup.setBitsLocked g mask k = (y, k'))
    (hy : y = true → v.owed = true) : v.Leads a k' ∧ (y = true → a.started = true) := by
  obtain ⟨⟨acts, hruns⟩, hrep, hstarted⟩ := setBitsLocked_runs h hwf heq hy
  exact ⟨leads_cons (.data (.addBits g mask)) trivial hf ⟨acts, _, hruns, hrep⟩, hstarted⟩

theorem setBits_leads (h : Rep k a) (hi : a.Entered) {g : EventId} {mask : BitVec 32}
    (hbefore : before = .user) (hasked : (talk a.self a.trace).asked = some (.inl (.setBits g mask)))
    (heq : EventGroup.setBits g mask k = (o, k')) : a.Enters masked before o k' := by
  cases hr : EventGroup.setBitsLocked g mask k with
  | mk y k₁ =>
    simp only [EventGroup.setBits, hr] at heq
    cases heq
    exact setBitsLocked_leads h hi.wf ⟨hbefore, Or.inl hasked⟩ hr fun hy => by cases hy; rfl

theorem readBits_leads (h : Rep k a) {g : EventId} (heq : EventGroup.readBits g k = (o, k')) :
    a.Enters masked before o k' := by
  cases heq
  rw [self_eq h]
  exact Leads.enters (leads_data (d := .consume g a.self 0 false) h trivial rfl)

theorem clearBits_leads (h : Rep k a) {g : EventId} {mask : BitVec 32}
    (heq : EventGroup.clearBits g mask k = (o, k')) : a.Enters masked before o k' := by
  cases heq
  exact Leads.enters (leads_data (d := .dropBits g mask) h trivial trivial)

theorem waitBits_leads (h : Rep k a) (hi : a.Entered) {g : EventId} {mask : BitVec 32}
    {waitAll clear : Bool} {ms : TickType} {t : Tid} (ht : a.currentTask = some t)
    (hm : ms ≠ 0 → masked = false)
    (heq : EventGroup.waitBits g mask waitAll clear ms t k = (o, k')) :
    a.Enters masked before o k' := by
  unfold EventGroup.waitBits at heq
  rw [h.core_eq] at heq
  split at heq
  · cases heq
    exact Leads.enters (leads_data (d := .consume g (.task t) mask clear) h trivial (hi.task_self ht).symm)
  · rename_i hblocks
    split at heq
    · exact readBits_leads h heq
    · rename_i hms
      cases heq
      exact ⟨park_leads _ h hi ht (.bits g mask waitAll clear) (by simp)
        (by simpa [Wait.Blocks] using hblocks) hms (hm hms), fun _ => hi.started t ht⟩

/-! ### The scheduler's own calls -/

theorem sleep_leads (h : Rep k a) (hi : a.Entered) {t : Tid} (ht : a.currentTask = some t)
    {ticks : TickType} (hne : ticks ≠ 0) (hm : masked = false) :
    (Visit.section a.self masked before (.ret .unit true)).Leads a
      (Scheduler.delayInsert t ticks (k.setTask t fun c => { c with state := .blocked })) := by
  refine leads_of_action (.sleep t ticks.toNat) ⟨hi.wf.current_lt t ht, hi.running t ht, ?_⟩
    ⟨hi.task_self ht, hm, rfl, rfl⟩ (h.sleep hi.wf (hi.running t ht) ticks)
  have : ticks.toNat ≠ 0 := fun hz => hne (BitVec.eq_of_toNat_eq (by simpa using hz))
  omega

theorem delayMs_leads (h : Rep k a) (hi : a.Entered) {ms : TickType} (hm : masked = false)
    (heq : Scheduler.delayMs ms k = (o, k')) : a.Enters masked before o k' := by
  unfold Scheduler.delayMs at heq
  rw [h.core_eq] at heq
  cases hcur : a.currentTask with
  | none =>
    simp only [hcur] at heq
    cases heq
    exact (leads_refl h).enters
  | some t =>
    simp only [hcur] at heq
    split at heq
    · cases heq
      exact (leads_refl h).enters
    · rename_i hne
      cases heq
      exact ⟨sleep_leads h hi hcur hne hm, fun _ => hi.started t hcur⟩

theorem delayUntil_leads (h : Rep k a) (hi : a.Entered) {wakeTime : TickType} (hm : masked = false)
    (heq : Scheduler.delayUntil wakeTime k = (o, k')) : a.Enters masked before o k' := by
  unfold Scheduler.delayUntil at heq
  rw [h.core_eq] at heq
  cases hcur : a.currentTask with
  | none =>
    simp only [hcur] at heq
    cases heq
    exact (leads_refl h).enters
  | some t =>
    simp only [hcur] at heq
    split at heq
    · cases heq
      exact (leads_refl h).enters
    · rename_i hpos
      cases heq
      refine ⟨sleep_leads h hi hcur (fun hz => hpos ?_) hm, fun _ => hi.started t hcur⟩
      rw [hz]
      decide

theorem retire_leads (before : Pc) (st : TaskState) (h : Rep k a) (hi : a.Entered) {t : Tid} (ht : t < a.taskCount)
    (hbefore : before = .suspendBody t ∧ st = .suspended ∧ (a.tcb t).state ≠ .suspended ∨
      before = .deleteBody t ∧ st = .deleted)
    (hm : a.currentTask = some t → masked = false) :
    a.Enters masked before (.ret .unit (a.currentTask == some t && a.started))
      ((Scheduler.unlink t k).setTask t fun c => { c with state := st }) := by
  refine ⟨leads_of_action (.retire t st) ?_ ⟨?_, fun hcur => ?_⟩ (h.retire hi.wf ht st),
    fun hy => (Bool.and_eq_true_iff.mp hy).2⟩
  · rcases hbefore with ⟨-, hst, hne⟩ | ⟨-, hst⟩
    · exact Or.inl ⟨ht, hne, hst⟩
    · exact Or.inr ⟨ht, hst⟩
  · rcases hbefore with ⟨hb, hst, -⟩ | ⟨hb, hst⟩
    · exact Or.inl ⟨hb, hst⟩
    · exact Or.inr ⟨hb, hst⟩
  · refine ⟨hm hcur, ?_⟩
    rw [hcur, hi.started t hcur]
    simp [Visit.call, Sys.afterSection, Pc.owes]

theorem unlink_core (t : Tid) (k : Kernel) :
    (Scheduler.unlink t k).currentTask = k.currentTask ∧ (Scheduler.unlink t k).started = k.started := by
  unfold Scheduler.unlink
  split
  · unfold ReadyManager.remove ReadyManager.dropEmptyBit
    simp only
    split <;> exact ⟨rfl, rfl⟩
  · unfold Scheduler.unlinkBlocked
    simp only
    split <;> exact ⟨rfl, rfl⟩
  · exact ⟨rfl, rfl⟩

theorem suspendTask_leads (h : Rep k a) (hi : a.Entered) {t : Tid} (ht : t < a.taskCount)
    (hm : a.currentTask = some t → masked = false)
    (heq : Scheduler.suspendTask t k = (o, k')) :
    a.Enters masked (.suspendBody t) o k' := by
  obtain ⟨hcur, hstarted⟩ := unlink_core t k
  unfold Scheduler.suspendTask at heq
  split at heq
  · cases heq
    exact (leads_refl h).enters
  · rename_i hne
    cases heq
    rw [h.core_eq] at hne
    have := retire_leads (.suspendBody t) .suspended h hi ht (Or.inl ⟨rfl, rfl, hne⟩) hm
    rw [hcur, hstarted, h.core_eq]
    exact this

theorem deleteTask_leads (h : Rep k a) (hi : a.Entered) {t : Tid} (ht : t < a.taskCount)
    (hm : a.currentTask = some t → masked = false)
    (heq : Scheduler.deleteTask t k = (o, k')) :
    a.Enters masked (.deleteBody t) o k' := by
  obtain ⟨hcur, hstarted⟩ := unlink_core t k
  unfold Scheduler.deleteTask at heq
  cases heq
  have := retire_leads (.deleteBody t) .deleted h hi ht (Or.inr ⟨rfl, rfl⟩) hm
  rw [hcur, hstarted, h.core_eq]
  exact this

theorem preempts_ready {t : Tid} : (a.ready t).preempts t = a.preempts t := by
  refine preempts_congr rfl rfl fun u => ?_
  rw [Abs.ready, move_tcb]
  split <;> rfl

theorem resumeTask_leads (h : Rep k a) (hi : a.Entered) {t : Tid}
    (heq : Scheduler.resumeTask t k = (o, k')) :
    a.Enters masked (.resumeBody t) o k' := by
  unfold Scheduler.resumeTask at heq
  split at heq
  · cases heq
    exact (leads_refl h).enters
  · rename_i hs
    cases heq
    rw [h.core_eq, not_not] at hs
    have hready := h.ready hi.wf (Or.inl hs)
    have hflag : (ReadyManager.add t (k.setTask t fun c => { c with state := .ready })).preempts t =
        a.preempts t := by
      rw [hready.core_eq]
      exact preempts_ready
    simp only [Kernel.setTask_eq] at hflag ⊢
    rw [hflag]
    exact ⟨leads_of_action (.ready t) ⟨hi.wf.lt_of_state (by simp [hs]), Or.inl hs⟩
      ⟨Or.inl ⟨Or.inl rfl, hs⟩, fun hp => by rw [hp]; rfl⟩ hready, Core.started_of_preempts⟩

theorem addToReadyQueue_leads (masked : Bool) (h : Rep k a) (hi : a.Entered) {t : Tid}
    (hs : (a.tcb t).state = .suspended)
    (site : Site) (f : Callable) (p : Nat) :
    (Visit.call a.self masked (.create (.ready t) site f p) (.create (.preempt t) site f p)).Leads a
      (Scheduler.addToReadyQueue t k) :=
  leads_of_action (.ready t) ⟨hi.wf.lt_of_state (by simp [hs]), Or.inl hs⟩
    ⟨Or.inl ⟨Or.inr ⟨site, f, p, rfl⟩, hs⟩, fun _ => rfl⟩ (h.ready hi.wf (Or.inl hs))

end

end AcRtos
