import AcRtos.Parking
import AcRtos.Steps
import AcRtos.Veil

/-!
# Two kernels at once

`Kernel.Twin W away k k'`: `k'` is the kernel `k` without a wait of `W`. Every critical section, executed in both, ends
in the same way and keeps the two kernels together, unless it serves `W` while it is away.
-/

namespace AcRtos

open Abs

structure Twins (W : Tid) (away : Bool) (k k' : Kernel) (a b : Abs) : Prop where
  rep : Rep k a
  rep' : Rep k' b
  sound : a.Sound
  sound' : b.Sound
  veiled : Veiled W away a b

def Kernel.Twin (W : Tid) (away : Bool) (k k' : Kernel) : Prop := ∃ a b, Twins W away k k' a b

namespace Abs.Veiled

variable {W t : Tid} {away : Bool} {a b : Abs}

theorem blocks (h : Veiled W away a b) {w : Wait} (hw : w.Blocks a t) : w.Blocks b t := by
  cases w with
  | take s => exact (congrFun h.count s).trans hw
  | lock m =>
    obtain ⟨o, ho, hne, hlt⟩ := hw
    exact ⟨o, (congrFun h.owner m).trans ho, hne, by rw [h.taskCount]; exact hlt⟩
  | send q =>
    refine ⟨h.nil hw.1, ?_⟩
    rw [h.ring, h.config]
    exact hw.2
  | receive q =>
    show (b.ring q).count = 0
    rw [h.ring]
    exact hw
  | bits g mask all clear =>
    show EventGroup.bitsSatisfy (b.currentBits g) mask all = false
    rw [h.currentBits]
    exact hw

theorem cons (h : Veiled W away a b) {w : WaitId} {xs : List Tid} (hseq : a.seq (.wait w) = t :: xs)
    (ht : shown away W t = true) : b.seq (.wait w) = t :: xs.filter (shown away W) := by
  rw [h.waits, hseq, List.filter_cons_of_pos ht]

end Abs.Veiled

/-- A context switch to `next`, if it is ready, whatever the ready lists say of its turn. -/
def Scheduler.dispatch (next : Tid) (psp : Nat) (k : Kernel) : Option Kernel :=
  let k := putBack (if psp = 0 then k else k.core fun e => { e with currentSp := .psp psp })
  if next < k.taskCount ∧ (k.tcb next).state = .ready then some (switchTo next (ReadyManager.remove next k)) else none

namespace Twins

variable {W t : Tid} {away : Bool} {k k' k₁ k₁' : Kernel} {a b : Abs}

theorem next (h : Twins W away k k' a b) (act : Action) (he : act.Enabled a) (he' : act.Enabled b)
    (hne : act ≠ .countDown) (hrep : Rep k₁ (act.apply a)) (hrep' : Rep k₁' (act.apply b))
    (hv : Veiled W away (act.apply a) (act.apply b)) : Twins W away k₁ k₁' (act.apply a) (act.apply b) :=
  ⟨hrep, hrep', h.sound.apply _ he hne, h.sound'.apply _ he' hne, hv⟩

theorem act (h : Twins W away k k' a b) (act : Action) (he : act.Enabled a) (he' : act.Enabled b)
    (hne : act ≠ .countDown) (hrep : Rep k₁ (act.apply a)) (hrep' : Rep k₁' (act.apply b))
    (hv : Veiled W away (act.apply a) (act.apply b)) : Kernel.Twin W away k₁ k₁' :=
  ⟨_, _, h.next act he he' hne hrep hrep' hv⟩

theorem data (h : Twins W away k k' a b) (d : DataOp) (he : d.Enabled a) (he' : d.Enabled b)
    (hv : Veiled W away (a.core d.run) (b.core d.run)) : Kernel.Twin W away (k.core d.run) (k'.core d.run) :=
  h.act (.data d) he he' (by simp) (h.rep.core _) (h.rep'.core _) hv

theorem same (h : Twins W away k k' a b) : Kernel.Twin W away k k' := ⟨a, b, h⟩

theorem check (h : Twins W away k k' a b) {x : Assertion} {p q : Bool} (hpq : p = true → q = true)
    (hx : (Fault.assert x).expected = true := by rfl) : Kernel.Twin W away (k.check x p) (k'.check x q) := by
  refine ⟨_, _, h.rep.core (·.check x p), h.rep'.core (·.check x q), ?_, ?_, h.veiled.check hpq⟩
  · exact h.sound.apply (.data (.quiet (a.check x p))) (Rep.quiet_check x p a.toCore hx) (by simp)
  · exact h.sound'.apply (.data (.quiet (b.check x q))) (Rep.quiet_check x q b.toCore hx) (by simp)

theorem self (h : Twins W away k k' a b) : k'.self = k.self := by
  rw [self_eq h.rep, self_eq h.rep', h.veiled.self]

theorem park (h : Twins W away k k' a b) (ht : a.currentTask = some t) (hr : (a.tcb t).state = .running) (w : Wait)
    (hw : ∀ m, w ≠ .lock m) (hblocks : w.Blocks a t) {ms : TickType} (hms : ms ≠ 0)
    (hitem : ∀ q, w = .send q → (b.frame (.task t)).item = (a.frame (.task t)).item) :
    Kernel.Twin W away (WaitQueue.startTimeout t ms (WaitQueue.park w.list t (k.core (·.setTask t (w.request t)))))
      (WaitQueue.startTimeout t ms (WaitQueue.park w.list t (k'.core (·.setTask t (w.request t))))) := by
  have hboost : ∀ e : Abs, e.boost w t = e := fun e => by
    cases w with
    | lock m => exact absurd rfl (hw m)
    | _ => rfl
  obtain ⟨hen, hrep⟩ := park_acts h.rep h.sound.wf ht hr w hw hblocks hms
  obtain ⟨hen', hrep'⟩ :=
    park_acts h.rep' h.sound'.wf (h.veiled.currentTask.trans ht) (h.veiled.running h.sound.wf hr)
    w hw (h.veiled.blocks hblocks) hms
  rw [h.veiled.config] at hen' hrep'
  refine h.act (.park w t (Rep.timeoutTicks a.config ms)) hen hen' (by simp) hrep hrep' ?_
  simp only [Action.apply, Abs.park, hboost]
  exact h.veiled.block h.sound.wf h.sound.sorted hr hitem

/-! ### Semaphores -/

theorem tryTake (h : Twins W away k k' a b) (s : SemId) (c : Ctx) :
    (Semaphore.tryTake s c k').1 = (Semaphore.tryTake s c k).1 ∧
      Kernel.Twin W away (Semaphore.tryTake s c k).2 (Semaphore.tryTake s c k').2 := by
  unfold Semaphore.tryTake
  rw [h.rep.core_eq, h.rep'.core_eq, h.veiled.count]
  split
  · exact ⟨rfl, h.same⟩
  · rename_i hcount
    exact ⟨rfl, h.data (.takeToken s c) hcount (by rw [DataOp.Enabled, h.veiled.count]; exact hcount)
      (h.veiled.objects (fun _ => rfl) (fun _ => rfl) (fun _ => rfl) fun _ => rfl)⟩

theorem take (h : Twins W away k k' a b) (hr : ∀ t, a.currentTask = some t → (a.tcb t).state = .running) (s : SemId)
    (ms : TickType) : (Semaphore.take s ms k').1 = (Semaphore.take s ms k).1 ∧
      Kernel.Twin W away (Semaphore.take s ms k).2 (Semaphore.take s ms k').2 := by
  unfold Semaphore.take
  by_cases hms : ms = 0
  · rw [if_pos hms, if_pos hms, h.self]
    obtain ⟨hret, hk⟩ := h.tryTake s k.self
    exact ⟨congrArg (fun b => Outcome.ret (.bool b) false) hret, hk⟩
  · rw [if_neg hms, if_neg hms, h.self, h.rep.core_eq, h.rep'.core_eq, h.veiled.count, h.veiled.currentTask]
    split
    · rename_i hcount
      have hne : a.count s ≠ 0 := by bv_omega
      exact ⟨rfl, h.data (.takeToken s a.self) hne (by rw [DataOp.Enabled, h.veiled.count]; exact hne)
        (h.veiled.objects (fun _ => rfl) (fun _ => rfl) (fun _ => rfl) fun _ => rfl)⟩
    · rename_i hcount
      cases ht : a.currentTask with
      | none => exact ⟨rfl, h.check id⟩
      | some t =>
        refine ⟨rfl, h.park ht (hr t ht) (.take s) (by simp) ?_ hms (by simp)⟩
        show a.count s = 0
        bv_omega

/-! ### Serving the first waiter -/

theorem woken (f : Core → Core) (hrep : Rep k₁ ((a.core f).wake t)) : (k₁.tcb t).waitList = none := by
  rw [hrep.core_eq, Abs.wake, move_tcb_self]

theorem shown_of_woken {f : Core → Core} (hrep : Rep k₁ ((a.core f).wake t))
    (hserved : away = true → (k₁.tcb W).waitList ≠ none) : shown away W t = true := by
  by_cases ht : t = W
  · subst ht
    cases haway : away with
    | false => rfl
    | true => exact absurd (woken f hrep) (hserved haway)
  · exact shown_of_ne ht

theorem giveLocked (h : Twins W away k k' a b) (s : SemId)
    (hserved : away = true → ((Semaphore.giveLocked s k).2.tcb W).waitList ≠ none) :
    (Semaphore.giveLocked s k').1 = (Semaphore.giveLocked s k).1 ∧
      Kernel.Twin W away (Semaphore.giveLocked s k).2 (Semaphore.giveLocked s k').2 := by
  unfold Semaphore.giveLocked at hserved ⊢
  cases hseq : a.seq (.wait (.sem s)) with
  | nil =>
    have hseq' := h.veiled.nil hseq
    rw [h.rep.wakeHighest_nil hseq, h.rep'.wakeHighest_nil hseq']
    simp only
    rw [h.rep.core_eq, h.rep'.core_eq, h.veiled.count]
    split
    · rename_i hlt
      have hne : a.count s ≠ 0xFFFFFFFF#32 := by bv_omega
      exact ⟨rfl, h.data (.addToken s) ⟨hseq, hne⟩ ⟨hseq', by rw [h.veiled.count]; exact hne⟩
        (h.veiled.objects (fun _ => rfl) (fun _ => rfl) (fun _ => rfl) fun _ => rfl)⟩
    · rename_i hge
      have heq : a.count s = 0xFFFFFFFF#32 := by bv_omega
      exact ⟨rfl, h.data (.dropToken s) ⟨hseq, heq⟩ ⟨hseq', by rw [h.veiled.count]; exact heq⟩
        (h.veiled.emit _ _)⟩
  | cons t xs =>
    obtain ⟨hfst, hflag, hrep⟩ := serve_first h.rep h.sound.wf (delivers_token t s) hseq
    simp only [hfst, Kernel.emit_eq] at hserved ⊢
    have ht := shown_of_woken hrep hserved
    obtain ⟨hfst', hflag', hrep'⟩ := serve_first h.rep' h.sound'.wf (delivers_token t s) (h.veiled.cons hseq ht)
    simp only [hfst']
    have he : (Handing.token s).Enabled a t := by
      show (a.seq (.wait (.sem s))).head? = some t
      rw [hseq]
      rfl
    obtain ⟨he', hv⟩ := h.veiled.hand h.sound h.sound' he ht (by simp) (by simp)
    exact ⟨hflag'.trans ((h.veiled.preempts t).trans hflag.symm),
      h.act (.hand (.token s) t) he he' (by simp) hrep hrep' hv⟩

/-! ### Queues -/

theorem trySendLocked (h : Twins W away k k' a b) (q : QueueId) {p : Ctx}
    (hitem : (b.frame p).item = (a.frame p).item)
    (hserved : away = true → ((QueueCore.trySendLocked q p k).2.tcb W).waitList ≠ none) :
    (QueueCore.trySendLocked q p k').1 = (QueueCore.trySendLocked q p k).1 ∧
      Kernel.Twin W away (QueueCore.trySendLocked q p k).2 (QueueCore.trySendLocked q p k').2 := by
  unfold QueueCore.trySendLocked at hserved ⊢
  cases hseq : a.seq (.wait (.receivers q)) with
  | nil =>
    have hseq' := h.veiled.nil hseq
    rw [h.rep.wakeHighest_nil hseq, h.rep'.wakeHighest_nil hseq']
    simp only
    rw [h.rep.core_eq, h.rep'.core_eq, h.veiled.ring, h.veiled.config]
    split
    · rename_i hlt
      exact ⟨rfl,
        h.data (.pushFrom q p) ⟨hseq, hlt⟩ ⟨hseq', by rw [h.veiled.ring, h.veiled.config]; exact hlt⟩
        (h.veiled.pushFrom hitem)⟩
    · exact ⟨rfl, h.same⟩
  | cons t xs =>
    obtain ⟨hfst, hflag, hrep⟩ := serve_first h.rep h.sound.wf (delivers_item t q p) hseq
    have hempty : ∀ {k a}, Rep k a → a.Sound → ∀ {xs}, a.seq (.wait (.receivers q)) = t :: xs →
        ((WaitQueue.wakeHighest (.receivers q) k).2.ring q).count = 0 := fun {k a} hrep hs {xs} hseq => by
      have hmem := (hs.wf.mem_wait (t := t)).mp (by rw [hseq]; exact List.mem_cons_self)
      rw [(hrep.wakeHighest hseq).2.core_eq]
      exact hs.starved.receivers q t hmem.2
    simp only [hfst, decide_eq_true (hempty h.rep h.sound hseq), Rep.check_true] at hserved ⊢
    have ht := shown_of_woken hrep hserved
    have hseq' := h.veiled.cons hseq ht
    obtain ⟨hfst', hflag', hrep'⟩ := serve_first h.rep' h.sound'.wf (delivers_item t q p) hseq'
    simp only [hfst', decide_eq_true (hempty h.rep' h.sound' hseq'), Rep.check_true]
    have he : (Handing.item q p).Enabled a t := by
      show (a.seq (.wait (.receivers q))).head? = some t
      rw [hseq]
      rfl
    obtain ⟨he', hv⟩ := h.veiled.hand h.sound h.sound' he ht (fun q' p' heq => by cases heq; exact hitem) (by simp)
    have hsame := hflag'.trans ((h.veiled.preempts t).trans hflag.symm)
    exact ⟨congrArg (fun y => (true, y)) hsame, h.act (.hand (.item q p) t) he he' (by simp) hrep hrep' hv⟩

theorem tryReceiveLocked (h : Twins W away k k' a b) (q : QueueId) {p : Ctx}
    (hidle : p = .task W → (a.tcb W).waitList = none)
    (hserved : away = true → ((QueueCore.tryReceiveLocked q p k).2.tcb W).waitList ≠ none) :
    (QueueCore.tryReceiveLocked q p k').1 = (QueueCore.tryReceiveLocked q p k).1 ∧
      Kernel.Twin W away (QueueCore.tryReceiveLocked q p k).2 (QueueCore.tryReceiveLocked q p k').2 := by
  have hcount : (k.ring q).count = (a.ring q).count ∧ (k'.ring q).count = (a.ring q).count := by
    rw [h.rep.core_eq, h.rep'.core_eq, h.veiled.ring]
    exact ⟨rfl, rfl⟩
  have hparked : p = .task W → ∀ q, (a.tcb W).waitList ≠ some (.senders q) := fun heq q => by simp [hidle heq]
  unfold QueueCore.tryReceiveLocked at hserved ⊢
  simp only [hcount] at hserved ⊢
  split
  · exact ⟨rfl, h.same⟩
  · rename_i hne
    rw [if_neg hne] at hserved
    have hpop := h.rep.core (QueueCore.popTo q p)
    have hpop' := h.rep'.core (QueueCore.popTo q p)
    unfold QueueCore.backFill at hserved ⊢
    cases hseq : a.seq (.wait (.senders q)) with
    | nil =>
      have hseq' := h.veiled.nil hseq
      rw [hpop.wakeHighest_nil hseq, hpop'.wakeHighest_nil hseq']
      exact ⟨rfl,
        h.data (.popTo q p) ⟨hne, hseq⟩ ⟨by rw [h.veiled.ring]; exact hne, hseq'⟩ (h.veiled.popTo hparked)⟩
    | cons t xs =>
      have halike := fun e => Core.alike_popTo q p e
      obtain ⟨hfst, hflag, hrep⟩ := serve_first hpop (h.sound.wf.core (halike a.toCore)) (delivers_pushOf t q) hseq
      simp only [hfst] at hserved ⊢
      have ht := shown_of_woken hrep hserved
      have hseq' := h.veiled.cons hseq ht
      obtain ⟨hfst', hflag', hrep'⟩ :=
        serve_first hpop' (h.sound'.wf.core (halike b.toCore)) (delivers_pushOf t q) hseq'
      simp only [hfst']
      have he : (Handing.slot q p).Enabled a t := ⟨by rw [hseq]; rfl, hne⟩
      obtain ⟨he', hv⟩ := h.veiled.hand h.sound h.sound' he ht (by simp) fun q' heq => by
        cases heq
        exact hparked rfl
      have hsame := hflag'.trans (((h.veiled.popTo hparked).preempts t).trans hflag.symm)
      exact ⟨congrArg (fun y => (true, y)) hsame, h.act (.hand (.slot q p) t) he he' (by simp) hrep hrep' hv⟩

theorem sendOrBlock (h : Twins W away k k' a b) (hr : ∀ t, a.currentTask = some t → (a.tcb t).state = .running)
    {w : Wait}
    (hw : ∀ m, w ≠ .lock m)
    (hreq : ∀ t c, w.request t c = { c with xferPtr := some (.task t), timeoutExpired := false }) (ms : TickType)
    (hitem : ∀ q t, w = .send q → a.currentTask = some t → (b.frame (.task t)).item = (a.frame (.task t)).item)
    {r r' : (Bool × Bool) × Kernel} (hsame : r'.1 = r.1) (htwin : Kernel.Twin W away r.2 r'.2)
    (hfail : r.1.1 = false → r.2 = k ∧ r'.2 = k' ∧ ∀ t, w.Blocks a t) :
    (QueueCore.sendOrBlock w ms r').1 = (QueueCore.sendOrBlock w ms r).1 ∧
      Kernel.Twin W away (QueueCore.sendOrBlock w ms r).2 (QueueCore.sendOrBlock w ms r').2 := by
  unfold QueueCore.sendOrBlock
  rw [hsame]
  by_cases hb : r.1.1 = true
  · rw [if_pos hb, if_pos hb]
    exact ⟨rfl, htwin⟩
  · rw [if_neg hb, if_neg hb]
    obtain ⟨hk, hk', hblocks⟩ := hfail (by simpa using hb)
    by_cases hms : ms = 0
    · rw [if_pos hms, if_pos hms]
      exact ⟨rfl, htwin⟩
    · rw [if_neg hms, if_neg hms, hk, hk']
      unfold QueueCore.blockCurrentLocked
      rw [h.rep.core_eq, h.rep'.core_eq, h.veiled.currentTask]
      cases ht : a.currentTask with
      | none => exact ⟨rfl, h.check id⟩
      | some t =>
        have hself : a.self = .task t := by simp [Core.self, ht]
        have hself' : b.self = .task t := by rw [h.veiled.self, hself]
        have hpark := h.park ht (hr t ht) w hw (hblocks t) hms fun q hq => hitem q t hq ht
        rw [show w.request t = fun c => { c with xferPtr := some (.task t), timeoutExpired := false } from
          funext (hreq t)] at hpark
        refine ⟨rfl, ?_⟩
        simp only [hself, hself']
        exact hpark

theorem served_of_sendOrBlock (h : Twins W away k k' a b) {w : Wait} {ms : TickType} {r : (Bool × Bool) × Kernel}
    (hfail : r.1.1 = false → r.2 = k)
    (hserved : away = true → ((QueueCore.sendOrBlock w ms r).2.tcb W).waitList ≠ none) (haway : away = true) :
    (r.2.tcb W).waitList ≠ none := by
  by_cases hb : r.1.1 = true
  · have := hserved haway
    rw [QueueCore.sendOrBlock, if_pos hb] at this
    exact this
  · rw [hfail (by simpa using hb), h.rep.core_eq]
    obtain ⟨⟨w, hw, -⟩, -⟩ := h.veiled.peers.parked haway
    simp [hw]

theorem send (h : Twins W away k k' a b) (hr : ∀ t, a.currentTask = some t → (a.tcb t).state = .running)
    (q : QueueId)
    (ms : TickType) (hitem : (b.frame a.self).item = (a.frame a.self).item)
    (hserved : away = true → ((QueueCore.send q ms k).2.tcb W).waitList ≠ none) :
    (QueueCore.send q ms k').1 = (QueueCore.send q ms k).1 ∧
      Kernel.Twin W away (QueueCore.send q ms k).2 (QueueCore.send q ms k').2 := by
  have hfail := h.rep.trySendLocked_fails (q := q) (p := k.self) h.sound.wf h.sound.starved
  have hfail' := h.rep'.trySendLocked_fails (q := q) (p := k.self) h.sound'.wf h.sound'.starved
  have hcaller : (b.frame k.self).item = (a.frame k.self).item := by rw [self_eq h.rep]; exact hitem
  obtain ⟨hsame, htwin⟩ := h.trySendLocked q hcaller (h.served_of_sendOrBlock (fun hb => (hfail hb).1) hserved)
  unfold QueueCore.send
  rw [h.self]
  refine h.sendOrBlock hr (w := .send q) (by simp) (fun _ _ => rfl) ms (fun _ t _ ht => ?_) hsame htwin
    fun hb => ⟨(hfail hb).1, (hfail' (by rw [hsame]; exact hb)).1, (hfail hb).2⟩
  rw [Core.self, ht] at hitem
  exact hitem

theorem receive (h : Twins W away k k' a b) (hr : ∀ t, a.currentTask = some t → (a.tcb t).state = .running)
    (q : QueueId)
    (ms : TickType) (hserved : away = true → ((QueueCore.receive q ms k).2.tcb W).waitList ≠ none) :
    (QueueCore.receive q ms k').1 = (QueueCore.receive q ms k).1 ∧
      Kernel.Twin W away (QueueCore.receive q ms k).2 (QueueCore.receive q ms k').2 := by
  have hfail := h.rep.tryReceiveLocked_fails (q := q) (p := k.self) h.sound.wf
  have hfail' := h.rep'.tryReceiveLocked_fails (q := q) (p := k.self) h.sound'.wf
  have hidle : k.self = .task W → (a.tcb W).waitList = none := fun hself => by
    rw [self_eq h.rep] at hself
    exact h.sound.wf.waitList_none (by simp [hr W (Core.self_task hself)])
  obtain ⟨hsame, htwin⟩ := h.tryReceiveLocked q hidle (h.served_of_sendOrBlock (fun hb => (hfail hb).1) hserved)
  unfold QueueCore.receive
  rw [h.self]
  exact h.sendOrBlock hr (w := .receive q) (by simp) (fun _ _ => rfl) ms (by simp) hsame htwin
    fun hb => ⟨(hfail hb).1, (hfail' (by rw [hsame]; exact hb)).1, (hfail hb).2⟩

/-! ### Mutexes -/

theorem fail (h : Twins W away k k' a b) (x : Fault) (hx : x.expected = true) :
    Kernel.Twin W away (k.fail x) (k'.fail x) := by
  refine ⟨_, _, h.rep.core (·.fail x), h.rep'.core (·.fail x), ?_, ?_, ?_⟩
  · exact h.sound.apply (.data (.quiet (a.fail x))) (Rep.quiet_fail x a.toCore hx) (by simp)
  · exact h.sound'.apply (.data (.quiet (b.fail x))) (Rep.quiet_fail x b.toCore hx) (by simp)
  · exact h.veiled.core h.veiled.common (fun hf => by simp [Core.fail] at hf) rfl rfl h.veiled.frame
      h.veiled.peers.item

theorem lock (h : Twins W away k k' a b) (hr : ∀ t, a.currentTask = some t → (a.tcb t).state = .running)
    {m : MutexId}
    (hm : m < a.config.mutexes) : (Mutex.lock m k').1 = (Mutex.lock m k).1 ∧
      Kernel.Twin W away (Mutex.lock m k).2 (Mutex.lock m k').2 := by
  unfold Mutex.lock
  rw [h.rep.core_eq, h.rep'.core_eq, h.veiled.currentTask, h.veiled.owner]
  cases ht : a.currentTask with
  | none => exact ⟨rfl, h.check id⟩
  | some t =>
    have hrun := hr t ht
    have hrun' := h.veiled.running h.sound.wf hrun
    cases howner : a.owner m with
    | none =>
      have howner' : b.owner m = none := by rw [h.veiled.owner]; exact howner
      exact ⟨rfl,
        h.act (.acquire m t) ⟨howner, hrun, hm⟩ ⟨howner', hrun', by rw [h.veiled.config]; exact hm⟩ (by simp)
        (acquire_rep h.rep h.sound.owned howner) (acquire_rep h.rep' h.sound'.owned howner') (h.veiled.acquire m t)⟩
    | some u =>
      have howner' : b.owner m = some u := by rw [h.veiled.owner]; exact howner
      simp only
      by_cases hut : u = t
      · rw [if_pos hut, if_pos hut]
        exact ⟨rfl, h.check id⟩
      · rw [if_neg hut, if_neg hut]
        have hlt := (h.sound.owned.owner_lt m u howner).1
        have hblocks : (Wait.lock m).Blocks a t := ⟨u, howner, hut, hlt⟩
        have hcount := h.sound.wf.current_lt t ht
        have hboost : ∀ {e : Abs}, e.Sound → (e.boost (.lock m) t).WF := fun {e} he => he.wf.boost fun m' _ o ho =>
          (he.owned.owner_lt m' o ho).1
        have hv : Veiled W away ((a.boost (.lock m) t).block (.lock m) t none)
            ((b.boost (.lock m) t).block (.lock m) t none) :=
          (h.veiled.boost h.sound.wf h.sound'.wf h.sound.sorted (.lock m) t).block (hboost h.sound)
            (h.sound.sorted.boost h.sound.wf.nodup _) (by rw [boost_tcb]; exact hrun) (by simp)
        exact ⟨rfl, h.act (.park (.lock m) t none) ⟨hcount, hrun, by simp, hblocks⟩
          ⟨by rw [h.veiled.taskCount]; exact hcount, hrun', by simp, h.veiled.blocks hblocks⟩ (by simp)
          (park_lock_rep h.rep h.sound.wf h.sound.owned howner hrun)
          (park_lock_rep h.rep' h.sound'.wf h.sound'.owned howner' hrun') hv⟩

theorem unlock (h : Twins W away k k' a b) (hr : ∀ t, a.currentTask = some t → (a.tcb t).state = .running)
    (m : MutexId) : (Mutex.unlock m k').1 = (Mutex.unlock m k).1 ∧
      Kernel.Twin W away (Mutex.unlock m k).2 (Mutex.unlock m k').2 := by
  by_cases howner : a.currentTask = a.owner m
  · have howner' : b.currentTask = b.owner m := by rw [h.veiled.currentTask, h.veiled.owner, howner]
    cases ht : a.currentTask with
    | none =>
      have ht' : b.currentTask = none := h.veiled.currentTask.trans ht
      unfold Mutex.unlock
      rw [h.rep.core_eq, h.rep'.core_eq, if_neg (not_not.mpr howner), if_neg (not_not.mpr howner')]
      simp only [ht, ht', true_and]
      exact h.fail .nullDeref rfl
    | some t =>
      have ht' : b.currentTask = some t := h.veiled.currentTask.trans ht
      rw [ht] at howner
      rw [ht'] at howner'
      have hrun := hr t ht
      have hrun' := h.veiled.running h.sound.wf hrun
      have hdrop := h.veiled.drop m t
      have hwf := h.sound.wf.drop (t := t) m
      have hwf' := h.sound'.wf.drop (t := t) m
      cases hseq : a.seq (.wait (.mutex m)) with
      | nil =>
        have hseq' := h.veiled.nil hseq
        obtain ⟨k₁, hk₁, hrep⟩ := unlock_release h.rep h.sound.wf h.sound.owned ht howner.symm hseq
        obtain ⟨k₁', hk₁', hrep'⟩ := unlock_release h.rep' h.sound'.wf h.sound'.owned ht' howner'.symm hseq'
        rw [hk₁, hk₁', hdrop.recompute hwf, h.veiled.priority]
        exact ⟨rfl,
          h.act (.release m t) ⟨howner.symm, hrun, hseq⟩ ⟨howner'.symm, hrun', hseq'⟩ (by simp) hrep hrep'
          (hdrop.restore hwf hwf' h.sound.sorted t)⟩
      | cons next xs =>
        have hseq' : b.seq (.wait (.mutex m)) = next :: xs := by rw [h.veiled.mutex h.sound.wf, hseq]
        have hin : next ∈ a.seq (.wait (.mutex m)) := by rw [hseq]; exact List.mem_cons_self
        have hlt := h.sound.wf.lt_of_mem hin
        have hshown : shown away W next = true := by
          rw [← h.veiled.mutex h.sound.wf, h.veiled.waits] at hin
          exact (List.mem_filter.mp hin).2
        obtain ⟨k₁, hk₁, hrep⟩ := unlock_pass h.rep h.sound.wf h.sound.owned ht howner.symm hrun hseq
        obtain ⟨k₁', hk₁', hrep'⟩ := unlock_pass h.rep' h.sound'.wf h.sound'.owned ht' howner'.symm hrun' hseq'
        have hgive := (hdrop.acquire m next).wake (hwf.acquire m) hshown
        have hwfg := (hwf.acquire (t := next) m).wake hlt
        have hwfg' := (hwf'.acquire (t := next) m).wake (show next < b.taskCount by rw [h.veiled.taskCount]; exact hlt)
        have hrec : ((b.drop m t).give m next).recompute t = ((a.drop m t).give m next).recompute t :=
          hgive.recompute hwfg t
        rw [hk₁, hk₁', hrec, h.veiled.priority, h.veiled.preempts]
        exact ⟨rfl, h.act (.pass m t next) ⟨howner.symm, hrun, by rw [hseq]; rfl⟩
          ⟨howner'.symm, hrun', by rw [hseq']; rfl⟩ (by simp) hrep hrep'
          (hgive.restore hwfg hwfg' (Sorted.wake (t := next) (show (a.drop m t).Sorted from h.sound.sorted) hwf.nodup)
            t)⟩
  · have howner' : ¬ b.currentTask = b.owner m := by rw [h.veiled.currentTask, h.veiled.owner]; exact howner
    unfold Mutex.unlock
    rw [h.rep.core_eq, h.rep'.core_eq, if_pos howner, if_pos howner']
    exact ⟨rfl, h.check id⟩

/-! ### Event groups -/

theorem scan_idle {g : EventId} {ts : List Tid} {e : Abs} (hidle : (e.tcb W).waitList = none) :
    ((e.scan g ts).tcb W).waitList = none := by
  induction ts generalizing e with
  | nil => exact hidle
  | cons t ts ih =>
    unfold Abs.scan
    split
    · refine ih ?_
      show (((e.core ((Handing.bits g).run t)).wake t).tcb W).waitList = none
      rw [Abs.wake, move_tcb, show (e.core ((Handing.bits g).run t)).tcb = e.tcb from
        ((Handing.bits g).alike t e.toCore).tcb]
      split
      · rfl
      · exact hidle
    · exact ih hidle

/-- The two scans look at the same waiters but for `W`; `kept` and `kept'` are those they have passed. -/
theorem scanLoop {g : EventId} {rest : List Tid} (kept kept' : List Tid) (h : Twins W away k k' a b)
    (hseq : a.seq (.wait (.waiters g)) = kept ++ rest)
    (hseq' : b.seq (.wait (.waiters g)) = kept' ++ rest.filter (shown away W)) {fuel fuel' : Nat}
    (hfuel : rest.length ≤ fuel) (hfuel' : (rest.filter (shown away W)).length ≤ fuel') (acc : Bool)
    (hserved : away = true → ((a.scan g rest).tcb W).waitList ≠ none) :
    (EventGroup.scanLoop g fuel' (rest.filter (shown away W)).head? acc k').1 =
        (EventGroup.scanLoop g fuel rest.head? acc k).1 ∧
      Kernel.Twin W away (EventGroup.scanLoop g fuel rest.head? acc k).2
        (EventGroup.scanLoop g fuel' (rest.filter (shown away W)).head? acc k').2 := by
  induction rest generalizing kept kept' fuel fuel' acc k k' a b with
  | nil =>
    have hend : ∀ fuel k, EventGroup.scanLoop g fuel none acc k = (acc, k) := fun fuel k => by cases fuel <;> rfl
    rw [List.filter_nil, List.head?_nil, hend, hend]
    exact ⟨rfl, h.same⟩
  | cons t rest ih =>
    obtain ⟨fuel, rfl⟩ : ∃ n, fuel = n + 1 := ⟨fuel - 1, by simp at hfuel; omega⟩
    obtain ⟨-, hnext⟩ := h.rep.links.links_of_split hseq
    have hmem : t ∈ a.seq (.wait (.waiters g)) := by rw [hseq]; simp
    have hw := (h.sound.wf.mem_wait.mp hmem).2
    have hlen : rest.length ≤ fuel := by simpa using hfuel
    simp only [List.head?_cons, EventGroup.scanLoop, hnext, h.rep.core_eq]
    have hscan : a.scan g (t :: rest) = if EventGroup.conditionMet (a.tcb t) (a.currentBits g) then
        ((Action.hand (.bits g) t).apply a).scan g rest else a.scan g rest := rfl
    cases hmet : EventGroup.conditionMet (a.tcb t) (a.currentBits g) with
    | true =>
      rw [hscan, if_pos hmet] at hserved
      have he : (Handing.bits g).Enabled a t := ⟨hmem, hmet⟩
      have ht : shown away W t = true := by
        by_cases hW : t = W
        · subst hW
          cases haway : away with
          | false => rfl
          | true =>
            -- `W` would be served and stay so to the end of the scan
            refine absurd (scan_idle ?_) (hserved haway)
            show (((a.core _).wake t).tcb t).waitList = none
            rw [Abs.wake, move_tcb_self]
        · exact shown_of_ne hW
      rw [List.filter_cons_of_pos ht] at hseq' hfuel' ⊢
      obtain ⟨fuel', rfl⟩ : ∃ n, fuel' = n + 1 := ⟨fuel' - 1, by simp at hfuel'; omega⟩
      obtain ⟨-, hnext'⟩ := h.rep'.links.links_of_split hseq'
      obtain ⟨he', hv⟩ := h.veiled.hand h.sound h.sound' he ht (by simp) (by simp)
      obtain ⟨hflag, hrep⟩ := wakeWaiter_serves h.rep h.sound.wf he
      obtain ⟨hflag', hrep'⟩ := wakeWaiter_serves h.rep' h.sound'.wf he'
      have hmet' : EventGroup.conditionMet (b.tcb t) (b.currentBits g) = true := (h.veiled.met ht hw).trans hmet
      simp only [List.head?_cons, EventGroup.scanLoop, hnext', h.rep'.core_eq, hmet', if_true, hflag, hflag',
        h.veiled.preempts]
      exact ih kept kept' (h.next (.hand (.bits g) t) he he' (by simp) hrep hrep' hv)
        (seq_hand_bits h.sound.wf hseq) (seq_hand_bits h.sound'.wf hseq') hlen (by simpa using hfuel') _ hserved
    | false =>
      rw [hscan, if_neg (by simp [hmet])] at hserved
      simp only [Bool.false_eq_true, if_false]
      have hseq₁ : a.seq (.wait (.waiters g)) = (kept ++ [t]) ++ rest := by rw [hseq, List.append_assoc]; rfl
      by_cases ht : shown away W t = true
      · rw [List.filter_cons_of_pos ht] at hseq' hfuel' ⊢
        obtain ⟨fuel', rfl⟩ : ∃ n, fuel' = n + 1 := ⟨fuel' - 1, by simp at hfuel'; omega⟩
        obtain ⟨-, hnext'⟩ := h.rep'.links.links_of_split hseq'
        have hmet' : EventGroup.conditionMet (b.tcb t) (b.currentBits g) = false := (h.veiled.met ht hw).trans hmet
        simp only [List.head?_cons, EventGroup.scanLoop, hnext', h.rep'.core_eq, hmet', Bool.false_eq_true, if_false]
        refine ih (kept ++ [t]) (kept' ++ [t]) h hseq₁ ?_ hlen (by simpa using hfuel') acc hserved
        rw [hseq', List.append_assoc]
        rfl
      · rw [List.filter_cons_of_neg ht] at hseq' hfuel' ⊢
        exact ih (kept ++ [t]) kept' h hseq₁ hseq' hlen hfuel' acc hserved

theorem setBitsLocked (h : Twins W away k k' a b) (g : EventId) (mask : BitVec 32)
    (hserved : away = true → ((EventGroup.setBitsLocked g mask k).2.tcb W).waitList ≠ none) :
    (EventGroup.setBitsLocked g mask k').1 = (EventGroup.setBitsLocked g mask k).1 ∧
      Kernel.Twin W away (EventGroup.setBitsLocked g mask k).2 (EventGroup.setBitsLocked g mask k').2 := by
  have hset := h.next (.data (.addBits g mask)) trivial trivial (by simp) (h.rep.core _) (h.rep'.core _)
    (h.veiled.objects (fun _ => rfl) (fun _ => rfl) (fun _ => rfl) fun _ => rfl)
  have hfuel : ∀ {k : Kernel} {a : Abs}, Rep k a → a.WF →
      (a.seq (.wait (.waiters g))).length ≤ k.config.kMaxTasks :=
    fun {k a} hrep hwf => by
      rw [hrep.core_eq]
      exact hwf.length_seq_le _
  have hend : Rep (EventGroup.setBitsLocked g mask k).2
      ((a.core (EventGroup.addBits g mask)).scan g (a.seq (.wait (.waiters g)))) :=
    (setBitsLocked_runs (v := ⟨.call, .isr, false, .user, .user, true⟩) h.rep h.sound.wf rfl fun _ => rfl).2.1
  unfold EventGroup.setBitsLocked EventGroup.scanAndWakeLocked at hserved hend ⊢
  have hhead : ((k.core (EventGroup.addBits g mask)).links.list (.wait (.waiters g))).head =
      (a.seq (.wait (.waiters g))).head? := h.rep.links.head_eq _
  have hhead' : ((k'.core (EventGroup.addBits g mask)).links.list (.wait (.waiters g))).head =
      ((a.seq (.wait (.waiters g))).filter (shown away W)).head? := by
    rw [← h.veiled.waits]
    exact h.rep'.links.head_eq _
  rw [hhead] at hserved hend ⊢
  rw [hhead']
  refine hset.scanLoop [] [] rfl (h.veiled.waits _) (hfuel h.rep h.sound.wf) ?_ false fun haway => ?_
  · have := hfuel h.rep' h.sound'.wf
    rw [← h.veiled.waits]
    exact this
  · have := hserved haway
    rw [hend.core_eq] at this
    exact this

theorem setBits (h : Twins W away k k' a b) (g : EventId) (mask : BitVec 32)
    (hserved : away = true → ((EventGroup.setBits g mask k).2.tcb W).waitList ≠ none) :
    (EventGroup.setBits g mask k').1 = (EventGroup.setBits g mask k).1 ∧
      Kernel.Twin W away (EventGroup.setBits g mask k).2 (EventGroup.setBits g mask k').2 := by
  obtain ⟨hflag, c, d, htwin⟩ := h.setBitsLocked g mask hserved
  refine ⟨?_, c, d, htwin⟩
  unfold EventGroup.setBits
  simp only
  rw [hflag, htwin.rep.core_eq, htwin.rep'.core_eq, htwin.veiled.currentBits]

theorem readBits (h : Twins W away k k' a b) (g : EventId) :
    (EventGroup.readBits g k').1 = (EventGroup.readBits g k).1 ∧
      Kernel.Twin W away (EventGroup.readBits g k).2 (EventGroup.readBits g k').2 := by
  unfold EventGroup.readBits
  rw [h.self, h.rep.core_eq, h.rep'.core_eq, h.veiled.currentBits]
  exact ⟨rfl, h.data (.consume g a.self 0 false) trivial trivial (h.veiled.consume g _ 0 false)⟩

theorem clearBits (h : Twins W away k k' a b) (g : EventId) (mask : BitVec 32) :
    (EventGroup.clearBits g mask k').1 = (EventGroup.clearBits g mask k).1 ∧
      Kernel.Twin W away (EventGroup.clearBits g mask k).2 (EventGroup.clearBits g mask k').2 := by
  have hv : Veiled W away (a.core (EventGroup.dropBits g mask)) (b.core (EventGroup.dropBits g mask)) :=
    h.veiled.objects (fun _ => rfl) (fun _ => rfl) (fun _ => rfl) fun _ => rfl
  refine ⟨?_, h.data (.dropBits g mask) trivial trivial hv⟩
  have hrep := h.rep.core (EventGroup.dropBits g mask)
  have hrep' := h.rep'.core (EventGroup.dropBits g mask)
  unfold EventGroup.clearBits
  simp only
  rw [hrep.core_eq, hrep'.core_eq, hv.currentBits]

theorem waitBits (h : Twins W away k k' a b) (ht : a.currentTask = some t) (hr : (a.tcb t).state = .running)
    (g : EventId) (mask : BitVec 32) (waitAll clear : Bool) (ms : TickType) :
    (EventGroup.waitBits g mask waitAll clear ms t k').1 = (EventGroup.waitBits g mask waitAll clear ms t k).1 ∧
      Kernel.Twin W away (EventGroup.waitBits g mask waitAll clear ms t k).2
        (EventGroup.waitBits g mask waitAll clear ms t k').2 := by
  unfold EventGroup.waitBits
  rw [h.rep.core_eq, h.rep'.core_eq, h.veiled.currentBits]
  split
  · exact ⟨rfl, h.data (.consume g (.task t) mask clear) trivial trivial (h.veiled.consume g _ mask clear)⟩
  · rename_i hblocks
    split
    · exact h.readBits g
    · rename_i hms
      exact ⟨rfl, h.park ht hr (.bits g mask waitAll clear) (by simp) (by simpa [Wait.Blocks] using hblocks) hms
        (by simp)⟩

/-! ### The scheduler's own calls -/

theorem sleep (h : Twins W away k k' a b) (ht : a.currentTask = some t) (hr : (a.tcb t).state = .running)
    {ticks : TickType} (hne : ticks ≠ 0) :
    Kernel.Twin W away (Scheduler.delayInsert t ticks (k.setTask t fun c => { c with state := .blocked }))
      (Scheduler.delayInsert t ticks (k'.setTask t fun c => { c with state := .blocked })) := by
  have hlt := h.sound.wf.current_lt t ht
  have hr' := h.veiled.running h.sound.wf hr
  have hpos : 1 ≤ ticks.toNat := Nat.pos_of_ne_zero fun hz => hne (BitVec.eq_of_toNat_eq (by simpa using hz))
  exact h.act (.sleep t ticks.toNat) ⟨hlt, hr, hpos⟩ ⟨by rw [h.veiled.taskCount]; exact hlt, hr', hpos⟩
    (by simp)
    (h.rep.sleep h.sound.wf hr ticks) (h.rep'.sleep h.sound'.wf hr' ticks) (h.veiled.sleep h.sound.wf h.sound'.wf hr _)

theorem delayMs (h : Twins W away k k' a b) (hr : ∀ t, a.currentTask = some t → (a.tcb t).state = .running)
    (ms : TickType) : (Scheduler.delayMs ms k').1 = (Scheduler.delayMs ms k).1 ∧
      Kernel.Twin W away (Scheduler.delayMs ms k).2 (Scheduler.delayMs ms k').2 := by
  unfold Scheduler.delayMs
  rw [h.rep.core_eq, h.rep'.core_eq, h.veiled.currentTask, h.veiled.config]
  cases ht : a.currentTask with
  | none => exact ⟨rfl, h.same⟩
  | some t =>
    simp only
    split
    · exact ⟨rfl, h.same⟩
    · rename_i hne
      exact ⟨rfl, h.sleep ht (hr t ht) hne⟩

theorem delayUntil (h : Twins W away k k' a b) (hr : ∀ t, a.currentTask = some t → (a.tcb t).state = .running)
    (wakeTime : TickType) : (Scheduler.delayUntil wakeTime k').1 = (Scheduler.delayUntil wakeTime k).1 ∧
      Kernel.Twin W away (Scheduler.delayUntil wakeTime k).2 (Scheduler.delayUntil wakeTime k').2 := by
  unfold Scheduler.delayUntil
  rw [h.rep.core_eq, h.rep'.core_eq, h.veiled.currentTask, h.veiled.tickCount]
  cases ht : a.currentTask with
  | none => exact ⟨rfl, h.same⟩
  | some t =>
    simp only
    split
    · exact ⟨rfl, h.same⟩
    · rename_i hpos
      refine ⟨rfl, h.sleep ht (hr t ht) fun hz => hpos ?_⟩
      rw [hz]
      decide

theorem retire (h : Twins W away k k' a b) (ht : t < a.taskCount) (hs : shown away W t = true) {st : TaskState}
    (hst : st = .suspended ∧ (a.tcb t).state ≠ .suspended ∧ (b.tcb t).state ≠ .suspended ∨ st = .deleted) :
    Kernel.Twin W away ((Scheduler.unlink t k).setTask t fun c => { c with state := st })
      ((Scheduler.unlink t k').setTask t fun c => { c with state := st }) := by
  have hlt' : t < b.taskCount := by rw [h.veiled.taskCount]; exact ht
  refine h.act (.retire t st) ?_ ?_ (by simp) (h.rep.retire h.sound.wf ht st) (h.rep'.retire h.sound'.wf hlt' st)
    (h.veiled.retire h.sound.wf hs st)
  · rcases hst with ⟨hst, hne, -⟩ | hst
    · exact Or.inl ⟨ht, hne, hst⟩
    · exact Or.inr ⟨ht, hst⟩
  · rcases hst with ⟨hst, -, hne⟩ | hst
    · exact Or.inl ⟨hlt', hne, hst⟩
    · exact Or.inr ⟨hlt', hst⟩

theorem unlinked (h : Twins W away k k' a b) (t : Tid) :
    (Scheduler.unlink t k).currentTask = a.currentTask ∧ (Scheduler.unlink t k).started = a.started ∧
      (Scheduler.unlink t k').currentTask = a.currentTask ∧ (Scheduler.unlink t k').started = a.started := by
  obtain ⟨hcur, hstarted⟩ := unlink_core t k
  obtain ⟨hcur', hstarted'⟩ := unlink_core t k'
  rw [hcur, hstarted, hcur', hstarted', h.rep.core_eq, h.rep'.core_eq]
  exact ⟨rfl, rfl, h.veiled.currentTask, h.veiled.started⟩

theorem deleteTask (h : Twins W away k k' a b) (ht : t < a.taskCount) (hs : shown away W t = true) :
    (Scheduler.deleteTask t k').1 = (Scheduler.deleteTask t k).1 ∧
      Kernel.Twin W away (Scheduler.deleteTask t k).2 (Scheduler.deleteTask t k').2 := by
  obtain ⟨hcur, hstarted, hcur', hstarted'⟩ := h.unlinked t
  refine ⟨?_, h.retire ht hs (Or.inr rfl)⟩
  simp only [Scheduler.deleteTask]
  rw [hcur, hstarted, hcur', hstarted']

/-- A suspended task is not the current one, so that a task suspended in `a` alone is suspended in `b`, too. -/
theorem suspendTask (h : Twins W away k k' a b) (hr : ∀ t, a.currentTask = some t → (a.tcb t).state = .running)
    (ht : t < a.taskCount) (hs : shown away W t = true) :
    (Scheduler.suspendTask t k').1 = (Scheduler.suspendTask t k).1 ∧
      Kernel.Twin W away (Scheduler.suspendTask t k).2 (Scheduler.suspendTask t k').2 := by
  obtain ⟨hcur, hstarted, hcur', hstarted'⟩ := h.unlinked t
  have hlt' : t < b.taskCount := by rw [h.veiled.taskCount]; exact ht
  unfold Scheduler.suspendTask
  rw [h.rep.core_eq, h.rep'.core_eq]
  by_cases hsus : (a.tcb t).state = .suspended
  · rw [if_pos hsus]
    rcases h.veiled.suspended h.sound.wf hsus with hsus' | ⟨rfl, rfl, hgap⟩
    · rw [if_pos hsus']
      exact ⟨rfl, h.same⟩
    · have hsus' : (b.tcb t).state ≠ .suspended := by simp [hgap]
      have hnot : (a.currentTask == some t && a.started) = false := by
        by_contra hon
        have hon' : a.currentTask = some t ∧ a.started = true := by simpa using hon
        rw [hr t hon'.1] at hsus
        cases hsus
      rw [if_neg hsus']
      refine ⟨?_, a, b.retire t .suspended, h.rep, h.rep'.retire h.sound'.wf hlt' _, h.sound, ?_,
        h.veiled.retire_right h.sound.wf h.sound'.wf hsus hgap⟩
      · simp only
        rw [hcur', hstarted', hnot]
      · exact h.sound'.apply (.retire t .suspended) (Or.inl ⟨hlt', hsus', rfl⟩) (by simp)
  · have hsus' := h.veiled.not_suspended hsus
    rw [if_neg hsus, if_neg hsus']
    refine ⟨?_, h.retire ht hs (Or.inl ⟨rfl, hsus, hsus'⟩)⟩
    simp only
    rw [hcur, hstarted, hcur', hstarted']

theorem readies (h : Twins W away k k' a b) (hs : (a.tcb t).state = .suspended) (hs' : (b.tcb t).state = .suspended) :
    Kernel.Twin W away (ReadyManager.add t (k.setTask t fun c => { c with state := .ready }))
      (ReadyManager.add t (k'.setTask t fun c => { c with state := .ready })) := by
  have hlt := h.sound.wf.lt_of_state (t := t) (by simp [hs])
  exact h.act (.ready t) ⟨hlt, Or.inl hs⟩ ⟨by rw [h.veiled.taskCount]; exact hlt, Or.inl hs'⟩ (by simp)
    (h.rep.ready h.sound.wf (Or.inl hs)) (h.rep'.ready h.sound'.wf (Or.inl hs'))
    (h.veiled.ready h.sound.wf h.sound'.wf (by simp [hs]) (by simp [hs']))

/-- `W` may be suspended in `a` alone; then only `a` makes it ready, and only `a` may ask for a yield. -/
theorem resumeTask (h : Twins W away k k' a b) (t : Tid) :
    (t ≠ W → (Scheduler.resumeTask t k').1 = (Scheduler.resumeTask t k).1) ∧
      ((∃ y, (Scheduler.resumeTask t k).1 = .ret .unit y) ∧ ∃ y, (Scheduler.resumeTask t k').1 = .ret .unit y) ∧
      Kernel.Twin W away (Scheduler.resumeTask t k).2 (Scheduler.resumeTask t k').2 := by
  have hret : ∀ k, ∃ y, (Scheduler.resumeTask t k).1 = .ret .unit y := fun k => by
    unfold Scheduler.resumeTask
    split <;> exact ⟨_, rfl⟩
  refine ⟨fun hne => ?_, ⟨hret k, hret k'⟩, ?_⟩
  · unfold Scheduler.resumeTask
    rw [h.rep.core_eq, h.rep'.core_eq, h.veiled.tcb t hne]
    split
    · rfl
    · rename_i hs
      rw [not_not] at hs
      have hs' : (b.tcb t).state = .suspended := by rw [h.veiled.tcb t hne]; exact hs
      have hrep := h.rep.ready h.sound.wf (Or.inl hs)
      have hrep' := h.rep'.ready h.sound'.wf (Or.inl hs')
      simp only [Kernel.setTask_eq] at hrep hrep' ⊢
      rw [hrep.core_eq, hrep'.core_eq, preempts_ready, preempts_ready, h.veiled.preempts]
  · unfold Scheduler.resumeTask
    rw [h.rep.core_eq, h.rep'.core_eq]
    by_cases hs : (a.tcb t).state = .suspended
    · rw [if_neg (not_not.mpr hs)]
      rcases h.veiled.suspended h.sound.wf hs with hs' | ⟨rfl, rfl, hgap⟩
      · rw [if_neg (not_not.mpr hs')]
        exact h.readies hs hs'
      · rw [if_pos (by simp [hgap])]
        refine ⟨a.ready t, b, h.rep.ready h.sound.wf (Or.inl hs), h.rep', ?_, h.sound',
          h.veiled.ready_left h.sound.wf h.sound'.wf hs hgap⟩
        exact h.sound.apply (.ready t) ⟨h.sound.wf.lt_of_state (by simp [hs]), Or.inl hs⟩ (by simp)
    · rw [if_pos hs, if_pos (h.veiled.not_suspended hs)]
      exact h.same

/-! ### Task creation -/

theorem allocate (h : Twins W away k k' a b) (hW : W < a.taskCount) (p : Nat) :
    (Scheduler.allocate p k').1 = (Scheduler.allocate p k).1 ∧
      Kernel.Twin W away (Scheduler.allocate p k).2 (Scheduler.allocate p k').2 := by
  obtain ⟨a, b, h, hW⟩ : ∃ c d, Twins W away (k.check .priorityRange (decide (p < kMaxPriorities)))
      (k'.check .priorityRange (decide (p < kMaxPriorities))) c d ∧ W < c.taskCount := by
    obtain ⟨c, d, htwins⟩ := h.check (x := .priorityRange) (p := decide (p < kMaxPriorities)) id
    refine ⟨c, d, htwins, ?_⟩
    have hcount := (Rep.quiet_check .priorityRange (decide (p < kMaxPriorities)) a.toCore).taskCount
    have hcore : c.toCore = a.check .priorityRange (decide (p < kMaxPriorities)) :=
      htwins.rep.core_eq.symm.trans (h.rep.core (·.check .priorityRange (decide (p < kMaxPriorities)))).core_eq
    rw [hcore, hcount]
    exact hW
  unfold Scheduler.allocate
  simp only
  split
  · exact ⟨rfl, h.same⟩
  · have halloc := h.rep.allocateTcb h.sound.wf
    have halloc' := h.rep'.allocateTcb h.sound'.wf
    rw [h.veiled.taskCount, h.veiled.config] at halloc'
    by_cases hlt : a.taskCount < a.config.kMaxTasks
    · rw [if_pos hlt] at halloc halloc'
      have hlt' : b.taskCount < b.config.kMaxTasks := by rw [h.veiled.taskCount, h.veiled.config]; exact hlt
      simp only [halloc.1, halloc'.1]
      exact ⟨trivial, (h.next .alloc hlt hlt' (by simp) halloc.2 halloc'.2 (h.veiled.alloc hW)).check id⟩
    · rw [if_neg hlt] at halloc halloc'
      simp only [halloc, halloc']
      exact ⟨trivial, h.check id⟩

theorem initTcb (h : Twins W away k k' a b) (hlt : t < a.taskCount) (hs : (a.tcb t).state = .suspended)
    (hfree : ∀ m, a.owner m ≠ some t) (hW : W ≠ t) (site : Site) {p : Nat} (hp : p < kMaxPriorities) :
    Kernel.Twin W away (Scheduler.initTcb t site p k) (Scheduler.initTcb t site p k') :=
  h.act (.initTcb t site p) ⟨hlt, hs, hp, hfree⟩
    ⟨by rw [h.veiled.taskCount]; exact hlt, by rw [h.veiled.tcb t hW.symm]; exact hs, hp,
      by rw [h.veiled.owner]; exact hfree⟩
    (by simp) (h.rep.initTcb site p) (h.rep'.initTcb site p) (h.veiled.initTcb hW site p)

/-! ### The tick -/

theorem expireAll_idle {ts : List Tid} {e : Abs} (h : (e.tcb W).waitList = none ∨ W ∈ ts) :
    ((e.expireAll ts).tcb W).waitList = none := by
  induction ts generalizing e with
  | nil => exact h.resolve_right List.not_mem_nil
  | cons t ts ih =>
    refine ih (e := e.expire t) ?_
    rw [Abs.expire, move_tcb]
    by_cases ht : W = t
    · rw [if_pos ht]
      exact Or.inl (unparked_waitList _)
    · rw [if_neg ht]
      exact h.imp_right fun hin => (List.mem_cons.mp hin).resolve_left ht

theorem tick (h : Twins W away k k' a b) : ∃ away', Kernel.Twin W away' (Scheduler.tick k).2 (Scheduler.tick k').2 ∧
    (away' = true → away = true) ∧
    (away = true → away' = false → ((Scheduler.tick k).2.tcb W).waitList = none) := by
  have htick := h.next (.data .tick) trivial trivial (by simp) (h.rep.core _) (h.rep'.core _)
    (h.veiled.objects (fun _ => rfl) (fun _ => rfl) (fun _ => rfl) fun _ => rfl)
  obtain ⟨hrep, hpos, hruns⟩ := htick.rep.delayTick htick.sound.wf htick.sound.positive
  obtain ⟨hrep', hpos', hruns'⟩ := htick.rep'.delayTick htick.sound'.wf htick.sound'.positive
  have hcount := htick.veiled.countDown
  have hwf := htick.sound.wf.countDown
  have hnodup : ∀ {e : Abs}, e.WF → e.expired.Nodup := fun {e} he =>
    he.sleepers_nodup.sublist ((List.takeWhile_sublist _).map Prod.fst)
  have hlt : ∀ {e : Abs}, e.WF → ∀ t ∈ e.expired, t < e.taskCount := fun {e} he t ht =>
    he.lt_of_sleeps (((List.takeWhile_sublist _).map Prod.fst).subset ht)
  have hall := hcount.expireAll hwf htick.sound'.wf.countDown (hnodup hwf) (hlt hwf)
  rw [← hcount.expired hwf] at hall
  refine ⟨_, ⟨_, _, hrep, hrep', htick.sound.runs hruns hpos, htick.sound'.runs hruns' hpos', hall⟩,
    fun haway => (Bool.and_eq_true_iff.mp haway).1, fun haway hback => ?_⟩
  rw [haway, Bool.true_and, decide_eq_false_iff_not, not_not] at hback
  show ((Scheduler.delayTick (k.core DataOp.tick.run)).tcb W).waitList = none
  rw [hrep.core_eq]
  exact expireAll_idle (Or.inr hback)

/-! ### Context switches -/

theorem storeSp (h : Twins W away k k' a b) (psp : Nat) :
    Twins W away (if psp = 0 then k else k.core fun e => { e with currentSp := .psp psp })
      (if psp = 0 then k' else k'.core fun e => { e with currentSp := .psp psp }) (a.storeSp psp) (b.storeSp psp) := by
  have hsound : ∀ {e : Abs}, e.Sound → (e.storeSp psp).Sound := fun {e} he => by
    obtain ⟨acts, hruns⟩ := Rep.storeSp_runs (a := e) psp
    exact he.runs hruns (hruns.positive (by simp [Visit.pendSV]) he.positive)
  exact ⟨h.rep.storeSp psp, h.rep'.storeSp psp, hsound h.sound, hsound h.sound', h.veiled.storeSp psp⟩

theorem putBack (h : Twins W away k k' a b) :
    Twins W away (Scheduler.putBack k) (Scheduler.putBack k') a.putBack b.putBack := by
  have hsound : ∀ {e : Abs}, e.Sound → e.putBack.Sound := fun {e} he => by
    obtain ⟨acts, hruns⟩ := Rep.putBack_runs he.wf
    exact he.runs hruns (hruns.positive (by simp [Visit.pendSV]) he.positive)
  exact ⟨h.rep.putBack h.sound.wf, h.rep'.putBack h.sound'.wf, hsound h.sound, hsound h.sound',
    h.veiled.putBack h.sound.wf h.sound'.wf⟩

/-- A task that can be dispatched in `k` can be dispatched in `k'`, whether or not the ready lists would give it. -/
theorem dispatch (h : Twins W away k k' a b) {psp : Nat} (hk : Scheduler.dispatch t psp k = some k₁) :
    ∃ k₁', Scheduler.dispatch t psp k' = some k₁' ∧ Kernel.Twin W away k₁ k₁' := by
  have hback := (h.storeSp psp).putBack
  have hnone : ∀ {e : Abs}, e.Sound → ∀ c, (e.putBack.tcb c).state ≠ .running := fun {e} he c => by
    obtain ⟨acts, hruns⟩ := Rep.putBack_runs he.wf
    exact Inv.putBack_running he.wf (hruns.wf he.wf) c
  have hstill := hnone (h.storeSp psp).sound
  have hstill' := hnone (h.storeSp psp).sound'
  have hready : ∀ {e : Abs}, e.Sound → t < e.taskCount → (e.tcb t).state = .ready →
      t ∈ e.seq (.ready (e.tcb t).priority) := fun {e} he hlt hs => he.wf.mem_ready.mpr ⟨hlt, hs, rfl⟩
  unfold Scheduler.dispatch at hk ⊢
  simp only [hback.rep.core_eq] at hk
  simp only [hback.rep'.core_eq]
  split at hk
  · rename_i hready'
    obtain ⟨hlt, hs⟩ := hready'
    cases hk
    have hlt' : t < (b.storeSp psp).putBack.taskCount := by rw [hback.veiled.taskCount]; exact hlt
    have hs' : ((b.storeSp psp).putBack.tcb t).state = .ready := by
      by_cases hW : t = W
      · subst hW
        have haway : away = false := by
          simpa using hback.veiled.shown_of_awake hback.sound.wf (t := t) (by simp [hs])
        rcases hback.veiled.peers.state haway with heq | ⟨heq, -⟩ | ⟨-, heq⟩
        · exact heq.trans hs
        · rw [hs] at heq
          cases heq
        · exact absurd heq (hstill' t)
      · rw [hback.veiled.tcb t hW]
        exact hs
    rw [if_pos ⟨hlt', hs'⟩]
    exact ⟨_, rfl, _, _, (hback.rep.remove_ready (hready hback.sound hlt hs)).switchTo,
      (hback.rep'.remove_ready (hready hback.sound' hlt' hs')).switchTo,
      hback.sound.switch (fun c _ => hstill c) hlt hs, hback.sound'.switch (fun c _ => hstill' c) hlt' hs',
      hback.veiled.switch hback.sound.wf hback.sound'.wf (fun c _ => hstill c) hs hs' hlt⟩
  · cases hk

/-! ### The steps of the call that is left out -/

theorem data_left (h : Twins W away k k' a b) (d : DataOp) (he : d.Enabled a)
    (hcommon : (d.run a.toCore).common = a.common) (hfault : (d.run a.toCore).fault = a.fault)
    (htcb : (d.run a.toCore).tcb = a.tcb) (hframe : ∀ c, c ≠ .task W → (d.run a.toCore).frame c = a.frame c)
    (hidle : away = false → ∀ q, (a.tcb W).waitList = some (.senders q) →
      (d.run a.toCore).frame (.task W) = a.frame (.task W)) : Twins W away (k.core d.run) k' (a.core d.run) b where
  rep := h.rep.core d.run
  rep' := h.rep'
  sound := h.sound.apply (.data d) he (by simp)
  sound' := h.sound'
  veiled := by
    refine h.veiled.core (g := id) (h.veiled.common.trans hcommon.symm)
      (fun hf => h.veiled.fault (hfault ▸ hf)) htcb rfl
      (fun c hc => (h.veiled.frame c hc).trans (hframe c hc).symm) fun haway q hq => ?_
    rw [hidle haway q hq]
    exact h.veiled.peers.item haway q hq

theorem emit_left (h : Twins W away k k' a b) {o : Obs} (ho : o.isMark = true) :
    Twins W away (k.emit o) k' (a.core (·.emit o)) b :=
  h.data_left (.mark o) ho rfl rfl rfl (fun _ _ => rfl) fun _ _ _ => rfl

theorem setFrame_left (h : Twins W away k k' a b) (hidle : (a.tcb W).waitList = none) (f : Frame → Frame) :
    Twins W away (k.core (·.setFrame (.task W) f)) k' (a.core (·.setFrame (.task W) f)) b :=
  h.data_left (.frame (.task W) f) trivial rfl rfl rfl (fun _ hc => Function.update_of_ne hc _ _)
    fun _ q hq => by simp [hidle] at hq

theorem readBits_left (h : Twins W away k k' a b) (g : EventId) :
    Kernel.Twin W away (EventGroup.readBits g k).2 k' := by
  have hrep := h.data_left (.consume g k.self 0 false) trivial rfl rfl rfl (fun _ _ => rfl) fun _ _ _ => rfl
  exact ⟨_, _, hrep⟩

theorem park_left {k₁ : Kernel} (h : Twins W false k k' a b) (hr : (a.tcb W).state = .running) {w : Wait}
    {ms : TickType}
    (hp : a.Parks W w ms k₁) : Kernel.Twin W true k₁ k' := by
  have hsound := h.sound.apply _ hp.enabled (by simp)
  rw [hp.apply_eq] at hsound
  exact ⟨_, b, hp.rep, h.rep', hsound, h.sound', h.veiled.block_left h.sound.wf hp.no_lock hr⟩

theorem suspend_left (h : Twins W true k k' a b) (hcur : a.currentTask ≠ some W) :
    Kernel.Twin W false (Scheduler.suspendTask W k).2 k' := by
  obtain ⟨⟨w, hw, -⟩, hawake⟩ := h.veiled.peers.parked rfl
  have hblocked := (h.sound.wf.ok W).waits (by simp [hw])
  have hne : (a.tcb W).state ≠ .suspended := by simp [hblocked]
  have hlt := h.sound.wf.lt_of_state (t := W) (by simp [hblocked])
  have hready : (b.tcb W).state = .ready := hawake.resolve_right fun hr => by
    have hon := (h.sound'.wf.ok W).running hr
    exact hcur (h.veiled.currentTask.symm.trans hon)
  unfold Scheduler.suspendTask
  rw [h.rep.core_eq, if_neg hne]
  exact ⟨_, b, h.rep.retire h.sound.wf hlt _, h.rep',
    h.sound.apply (.retire W .suspended) (Or.inl ⟨hlt, hne, rfl⟩)
    (by simp), h.sound', h.veiled.retire_left h.sound.wf h.sound'.wf hready⟩

end Twins

end AcRtos
