import AcRtos.Objects
import AcRtos.Ownership
import AcRtos.SchedulerRefinement
import AcRtos.WaitOrder

/-!
# A kernel in which one wait is left out

`Abs.Veiled W away a b`: `b` is the kernel `a` without a wait of the task `W`. While `W` is away it is parked in `a` and
awake in `b`; the wait lists and the countdowns of `b` are those of `a` without it. When it is back the lists are the
same. All objects and all other tasks are the same throughout; what `W` wrote into its own control block and buffers
for its wait may differ. The ready lists are not compared. Every action of another task, and every action of `W` when
it is back, keeps the relation.
-/

namespace AcRtos

open Lib

/-- What belongs to no single task. -/
def Core.common (e : Core) : Core := { e with tcb := fun _ => {}, frame := fun _ => {}, fault := none, trace := [] }

/-- The tasks that a list shows. -/
def shown (away : Bool) (W t : Tid) : Bool := !away || t != W

section
variable {W t : Tid} {away : Bool}

@[simp] theorem shown_back : shown false W t = true := rfl

theorem shown_of_ne (h : t ≠ W) : shown away W t = true := by simp [shown, h]

@[simp] theorem shown_self : shown away W W = !away := by simp [shown]

theorem ne_of_shown (h : shown true W t = true) : t ≠ W := by simpa [shown] using h

@[simp] theorem filter_shown_back (xs : List Tid) : xs.filter (shown false W) = xs :=
  List.filter_eq_self.mpr fun _ _ => rfl

end

/-- Where `W` stands in the two kernels when it is back: in the same state, or still suspended in the one that
suspended it, or not yet put back in the one that never parked it. -/
def TaskState.Near (st st' : TaskState) : Prop :=
  st' = st ∨ st = .suspended ∧ st' = .ready ∨ st = .ready ∧ st' = .running

/-- The two control blocks of `W`, and the items in its buffers. -/
structure Peers (away : Bool) (c c' : TaskControlBlock) (item item' : Item) : Prop where
  sp : c'.sp = c.sp
  stackBase : c'.stackBase = c.stackBase
  priority : c'.priority = c.priority
  basePriority : c'.basePriority = c.basePriority
  parked : away = true → (∃ w, c.waitList = some w ∧ ∀ m, w ≠ .mutex m) ∧
    (c'.state = .ready ∨ c'.state = .running)
  state : away = false → c.state.Near c'.state
  waitList : away = false → c'.waitList = c.waitList
  request : away = false → ∀ g, c.waitList = some (.waiters g) → c'.eventWaitMask = c.eventWaitMask ∧
    c'.eventWaitAll = c.eventWaitAll ∧ c'.eventClearOnExit = c.eventClearOnExit
  item : away = false → ∀ q, c.waitList = some (.senders q) → item' = item

/-- What no wait touches. -/
def TaskControlBlock.Keeps (c d : TaskControlBlock) : Prop :=
  d.sp = c.sp ∧ d.stackBase = c.stackBase ∧ d.priority = c.priority ∧ d.basePriority = c.basePriority

theorem unparked_keeps (c : TaskControlBlock) : c.Keeps c.unparked := by
  unfold TaskControlBlock.unparked
  split <;> exact ⟨rfl, rfl, rfl, rfl⟩

theorem Peers.back {away : Bool} {c c' d d' : TaskControlBlock} {i i' j j' : Item} (h : Peers away c c' i i')
    (hd : c.Keeps d) (hd' : c'.Keeps d') (hstate : d.state.Near d'.state) (hw : d'.waitList = d.waitList)
    (hrequest : ∀ g, d.waitList = some (.waiters g) → d'.eventWaitMask = d.eventWaitMask ∧
      d'.eventWaitAll = d.eventWaitAll ∧ d'.eventClearOnExit = d.eventClearOnExit)
    (hitem : ∀ q, d.waitList = some (.senders q) → j' = j) : Peers false d d' j j' where
  sp := by rw [hd'.1, h.sp, hd.1]
  stackBase := by rw [hd'.2.1, h.stackBase, hd.2.1]
  priority := by rw [hd'.2.2.1, h.priority, hd.2.2.1]
  basePriority := by rw [hd'.2.2.2, h.basePriority, hd.2.2.2]
  parked := by simp
  state _ := hstate
  waitList _ := hw
  request _ := hrequest
  item _ := hitem

/-- Out of all lists, what a wait has written does not matter. -/
theorem Peers.idle {away : Bool} {c c' d d' : TaskControlBlock} {i i' j j' : Item} (h : Peers away c c' i i')
    (hd : c.Keeps d) (hd' : c'.Keeps d') (hstate : d.state.Near d'.state) (hw : d.waitList = none)
    (hw' : d'.waitList = none) : Peers false d d' j j' :=
  h.back hd hd' hstate (hw'.trans hw.symm) (by simp [hw]) (by simp [hw])

namespace Abs

/-- The invariants of the kernel between two ticks. -/
structure Sound (a : Abs) : Prop where
  wf : a.WF
  owned : a.Owned
  starved : a.Starved
  sorted : a.Sorted
  positive : a.Positive

theorem Sound.apply {a : Abs} (h : a.Sound) (act : Action) (he : act.Enabled a) (hne : act ≠ .countDown) :
    (act.apply a).Sound :=
  ⟨h.wf.apply he, h.owned.apply h.wf he, h.starved.apply h.wf he, h.sorted.apply h.wf he, h.positive.apply he hne⟩

theorem Sound.runs {a a' : Abs} {v : Visit} {acts : List Action} (h : a.Sound) (hruns : Runs v a acts a')
    (hpos : a'.Positive) : a'.Sound := by
  have hall := hruns.keeps_starved (P := fun b => b.Owned ∧ b.Sorted) h.wf h.starved ⟨h.owned, h.sorted⟩
    fun act b hwf _ hb he _ => ⟨hb.1.apply hwf he, hb.2.apply hwf he⟩
  have hstarved := hruns.keeps_starved (P := Starved) h.wf h.starved h.starved
    fun act b hwf _ hb he _ => hb.apply hwf he
  exact ⟨hruns.wf h.wf, hall.1, hstarved, hall.2, hpos⟩

theorem Sound.switch {a : Abs} {t : Tid} (h : a.Sound)
    (hnone : ∀ c, a.currentTask = some c → (a.tcb c).state ≠ .running)
    (hlt : t < a.taskCount) (hs : (a.tcb t).state = .ready) : (a.switch t).Sound := by
  have hwaits : ∀ u, ((a.switch t).tcb u).waitList = (a.tcb u).waitList ∧
      ((a.switch t).tcb u).xferPtr = (a.tcb u).xferPtr := fun u => by
    rw [Abs.switch, move_tcb]
    split <;> exact ⟨rfl, rfl⟩
  have hcore : (a.core fun e => { e with currentTask := some t, currentSp := (e.tcb t).sp }).Sorted := h.sorted
  refine ⟨h.wf.switch (h.wf.mem_ready.mpr ⟨hlt, hs, rfl⟩) hnone, ?_, ?_, hcore.move h.wf.nodup (by simp),
    h.positive⟩
  · exact ⟨h.owned.held_iff, h.owned.nodup, h.owned.owner_lt,
      fun m u hw => h.owned.waited m u ((hwaits u).1 ▸ hw)⟩
  · exact ⟨fun s u hw => h.starved.sem s u ((hwaits u).1 ▸ hw),
      fun q u hw => h.starved.receivers q u ((hwaits u).1 ▸ hw),
      fun q u hw => h.starved.senders q u ((hwaits u).1 ▸ hw),
      fun u w hw htr => (hwaits u).2.trans (h.starved.xfer u w ((hwaits u).1 ▸ hw) htr), h.starved.ring⟩

structure Veiled (W : Tid) (away : Bool) (a b : Abs) : Prop where
  common : b.common = a.common
  fault : a.fault = none → b.fault = none
  tcb : ∀ t, t ≠ W → b.tcb t = a.tcb t
  frame : ∀ c, c ≠ .task W → b.frame c = a.frame c
  waits : ∀ w, b.seq (.wait w) = (a.seq (.wait w)).filter (shown away W)
  sleepers : b.sleepers = a.sleepers.filter fun e => shown away W e.1
  heldBy : b.heldBy = a.heldBy
  peers : Peers away (a.tcb W) (b.tcb W) (a.frame (.task W)).item (b.frame (.task W)).item

namespace Veiled

variable {W t u : Tid} {away : Bool} {a b : Abs}

theorem refl (W : Tid) (a : Abs) : Veiled W false a a where
  common := rfl
  fault := id
  tcb _ _ := rfl
  frame _ _ := rfl
  waits _ := by simp
  sleepers := by simp
  heldBy := rfl
  peers := ⟨rfl, rfl, rfl, rfl, by simp, fun _ => Or.inl rfl, fun _ => rfl, fun _ _ _ => ⟨rfl, rfl, rfl⟩,
    fun _ _ _ => rfl⟩

/-! ### What the relation says of the common data -/

section
variable (h : Veiled W away a b)
include h

theorem config : b.config = a.config := (congrArg Core.config h.common :)
theorem currentTask : b.currentTask = a.currentTask := (congrArg Core.currentTask h.common :)
theorem currentSp : b.currentSp = a.currentSp := (congrArg Core.currentSp h.common :)
theorem taskCount : b.taskCount = a.taskCount := (congrArg Core.taskCount h.common :)
theorem started : b.started = a.started := (congrArg Core.started h.common :)
theorem tickCount : b.tickCount = a.tickCount := (congrArg Core.tickCount h.common :)
theorem owner : b.owner = a.owner := (congrArg Core.owner h.common :)
theorem count : b.count = a.count := (congrArg Core.count h.common :)
theorem ring : b.ring = a.ring := (congrArg Core.ring h.common :)
theorem currentBits : b.currentBits = a.currentBits := (congrArg Core.currentBits h.common :)
theorem isCreated : b.isCreated = a.isCreated := (congrArg Core.isCreated h.common :)
theorem storage : b.storage = a.storage := (congrArg Core.storage h.common :)

theorem self : b.self = a.self := by rw [Core.self, Core.self, h.currentTask]

theorem priority (t : Tid) : (b.tcb t).priority = (a.tcb t).priority := by
  by_cases ht : t = W
  · rw [ht]
    exact h.peers.priority
  · rw [h.tcb t ht]

theorem basePriority (t : Tid) : (b.tcb t).basePriority = (a.tcb t).basePriority := by
  by_cases ht : t = W
  · rw [ht]
    exact h.peers.basePriority
  · rw [h.tcb t ht]

theorem preempts (t : Tid) : b.preempts t = a.preempts t := by
  unfold Core.preempts
  rw [h.started, h.currentTask, h.priority]
  cases a.currentTask with
  | none => rfl
  | some c => simp only [h.priority]

theorem head {w : WaitId} (ht : (a.seq (.wait w)).head? = some t) (hs : shown away W t = true) :
    (b.seq (.wait w)).head? = some t := by
  obtain ⟨xs, hseq⟩ := List.head?_eq_some_iff.mp ht
  rw [h.waits, hseq, List.filter_cons_of_pos hs]
  rfl

theorem nil {w : WaitId} (hn : a.seq (.wait w) = []) : b.seq (.wait w) = [] := by rw [h.waits, hn]; rfl

theorem mutex (ha : a.WF) (m : MutexId) : b.seq (.wait (.mutex m)) = a.seq (.wait (.mutex m)) := by
  rw [h.waits]
  cases away with
  | false => exact filter_shown_back _
  | true =>
    refine List.filter_eq_self.mpr fun t ht => shown_of_ne fun heq => ?_
    obtain ⟨⟨w, hw, hne⟩, -⟩ := h.peers.parked rfl
    rw [heq, ha.mem_wait, hw] at ht
    exact hne m (Option.some.inj ht.2)

theorem waiterPriority (ha : a.WF) : b.waiterPriority = a.waiterPriority := by
  funext m
  rw [Abs.waiterPriority, Abs.waiterPriority, h.mutex ha]
  simp only [h.priority]

theorem recompute (ha : a.WF) (t : Tid) : b.recompute t = a.recompute t := by
  rw [Abs.recompute, Abs.recompute, h.heldBy, h.waiterPriority ha, h.basePriority]

end

/-! ### Data -/

theorem core (h : Veiled W away a b) {f g : Core → Core} (hcommon : (g b.toCore).common = (f a.toCore).common)
    (hfault : (f a.toCore).fault = none → (g b.toCore).fault = none) (htcb : (f a.toCore).tcb = a.tcb)
    (htcb' : (g b.toCore).tcb = b.tcb)
    (hframe : ∀ c, c ≠ .task W → (g b.toCore).frame c = (f a.toCore).frame c)
    (hitem : away = false → ∀ q, (a.tcb W).waitList = some (.senders q) →
      ((g b.toCore).frame (.task W)).item = ((f a.toCore).frame (.task W)).item) :
    Veiled W away (a.core f) (b.core g) where
  common := hcommon
  fault := hfault
  tcb t ht := by
    show (g b.toCore).tcb t = (f a.toCore).tcb t
    rw [htcb, htcb']
    exact h.tcb t ht
  frame := hframe
  waits := h.waits
  sleepers := h.sleepers
  heldBy := h.heldBy
  peers := by
    show Peers away ((f a.toCore).tcb W) ((g b.toCore).tcb W) _ _
    rw [htcb, htcb']
    exact { h.peers with item := hitem }

theorem objects (h : Veiled W away a b) {f : Core → Core} (hcommon : ∀ e, (f e).common = (f e.common).common)
    (hfault : ∀ e, (f e).fault = e.fault) (htcb : ∀ e, (f e).tcb = e.tcb) (hframe : ∀ e, (f e).frame = e.frame) :
    Veiled W away (a.core f) (b.core f) := by
  refine h.core ?_ ?_ (htcb _) (htcb _) ?_ ?_
  · rw [hcommon, hcommon a.toCore, h.common]
  · rw [hfault, hfault]
    exact h.fault
  · rw [hframe, hframe]
    exact h.frame
  · rw [hframe, hframe]
    exact h.peers.item

theorem emit (h : Veiled W away a b) (o o' : Obs) : Veiled W away (a.core (·.emit o)) (b.core (·.emit o')) :=
  h.core h.common h.fault rfl rfl h.frame h.peers.item

theorem consume (h : Veiled W away a b) (g : EventId) (c : Ctx) (mask : BitVec 32) (clear : Bool) :
    Veiled W away (a.core (EventGroup.consume g c mask clear)) (b.core (EventGroup.consume g c mask clear)) := by
  cases clear with
  | false => exact h.emit _ _
  | true => exact h.objects (fun _ => rfl) (fun _ => rfl) (fun _ => rfl) fun _ => rfl

theorem setFrame (h : Veiled W away a b) {c : Ctx} {f g : Frame → Frame}
    (hfg : c ≠ .task W → f (a.frame c) = g (a.frame c))
    (hidle : c = .task W → ∀ q, (a.tcb W).waitList ≠ some (.senders q)) :
    Veiled W away (a.core (·.setFrame c f)) (b.core (·.setFrame c g)) := by
  refine h.core h.common h.fault rfl rfl (fun c' hc' => ?_) fun hback q hq => ?_
  · show Function.update b.frame c _ c' = Function.update a.frame c _ c'
    by_cases hc : c' = c
    · subst hc
      rw [Function.update_self, Function.update_self, h.frame c' hc', hfg hc']
    · rw [Function.update_of_ne hc, Function.update_of_ne hc, h.frame c' hc']
  · have hc : Ctx.task W ≠ c := fun heq => hidle heq.symm q hq
    show (Function.update b.frame c _ (.task W)).item = (Function.update a.frame c _ (.task W)).item
    rw [Function.update_of_ne hc, Function.update_of_ne hc]
    exact h.peers.item hback q hq

theorem check (h : Veiled W away a b) {x : Assertion} {p q : Bool} (hpq : p = true → q = true) :
    Veiled W away (a.core (·.check x p)) (b.core (·.check x q)) := by
  have hrest : ∀ (e : Core) (r : Bool), (e.check x r).common = e.common ∧ (e.check x r).tcb = e.tcb ∧
      (e.check x r).frame = e.frame := fun e r => by
    unfold Core.check
    split <;> exact ⟨rfl, rfl, rfl⟩
  refine h.core ?_ (fun hf => ?_) (hrest _ _).2.1 (hrest _ _).2.1 ?_ ?_
  · rw [(hrest _ _).1, (hrest _ _).1]
    exact h.common
  · unfold Core.check at hf ⊢
    rw [h.config]
    cases hu : a.config.useAssert with
    | false =>
      rw [hu, Bool.false_and, if_neg (by simp)] at hf
      rw [Bool.false_and, if_neg (by simp)]
      exact h.fault hf
    | true =>
      cases hp : p with
      | false =>
        rw [hu, hp] at hf
        simp [Core.fail] at hf
      | true =>
        rw [hu, hp] at hf
        rw [hpq hp]
        exact h.fault hf
  · rw [(hrest _ _).2.2, (hrest _ _).2.2]
    exact h.frame
  · rw [(hrest _ _).2.2, (hrest _ _).2.2]
    exact h.peers.item

theorem pushFrom (h : Veiled W away a b) {q : QueueId} {p : Ctx} (hitem : (b.frame p).item = (a.frame p).item) :
    Veiled W away (a.core (QueueCore.pushFrom q p)) (b.core (QueueCore.pushFrom q p)) := by
  refine h.core ?_ h.fault rfl rfl h.frame h.peers.item
  show (b.setRing q ((b.ring q).pushRaw (b.config.itemSize q) (b.config.capacity q) (b.frame p).item)).common = _
  rw [hitem, h.ring, h.config]
  exact congrArg (fun e => (Core.setRing q _ e).common) h.common

theorem popTo (h : Veiled W away a b) {q : QueueId} {p : Ctx}
    (hidle : p = .task W → ∀ q, (a.tcb W).waitList ≠ some (.senders q)) :
    Veiled W away (a.core (QueueCore.popTo q p)) (b.core (QueueCore.popTo q p)) := by
  have hring := h.objects (f := fun e => e.setRing q ((e.ring q).popRaw (e.config.itemSize q) (e.config.capacity q)).2)
    (fun _ => rfl) (fun _ => rfl) (fun _ => rfl) fun _ => rfl
  have hpopped : (b.ring q).popRaw (b.config.itemSize q) (b.config.capacity q) =
      (a.ring q).popRaw (a.config.itemSize q) (a.config.capacity q) := by rw [h.ring, h.config]
  have hframe := hring.setFrame (c := p)
    (f := fun f => { f with item := ((a.ring q).popRaw (a.config.itemSize q) (a.config.capacity q)).1 })
    (g := fun f => { f with item := ((b.ring q).popRaw (b.config.itemSize q) (b.config.capacity q)).1 })
    (fun _ => by rw [hpopped]) hidle
  exact hframe.emit (.deliver q p _) (.deliver q p _)

theorem setTask (h : Veiled W away a b) {f g : TaskControlBlock → TaskControlBlock}
    (htcb : t ≠ W → g (a.tcb t) = f (a.tcb t))
    (hpeers : W = t → Peers away (f (a.tcb W)) (g (b.tcb W)) (a.frame (.task W)).item (b.frame (.task W)).item) :
    Veiled W away (a.core (·.setTask t f)) (b.core (·.setTask t g)) where
  common := h.common
  fault := h.fault
  tcb u hu := by
    simp only [Abs.core_toCore, Core.setTask_tcb, Function.update_apply]
    split
    · rename_i heq
      subst heq
      rw [h.tcb u hu]
      exact htcb hu
    · exact h.tcb u hu
  frame := h.frame
  waits := h.waits
  sleepers := h.sleepers
  heldBy := h.heldBy
  peers := by
    simp only [Abs.core_toCore, Core.setTask_tcb, Function.update_apply]
    by_cases ht : W = t
    · subst ht
      rw [if_pos rfl, if_pos rfl]
      exact hpeers rfl
    · rw [if_neg ht, if_neg ht]
      exact h.peers

/-! ### Moves -/

theorem filter_erase {xs : List Tid} (p : Tid → Bool) (h : xs.Nodup) :
    (xs.erase t).filter p = (xs.filter p).erase t := by
  rw [h.erase_eq_filter, (h.filter p).erase_eq_filter, List.filter_filter, List.filter_filter]
  simp only [Bool.and_comm]

theorem left (h : Veiled W away a b) (ha : a.WF) (t : Tid) (w : WaitId) :
    (b.seq (.wait w)).erase t = ((a.seq (.wait w)).erase t).filter (shown away W) := by
  rw [h.waits, filter_erase _ (ha.nodup _)]

theorem alarm (h : Veiled W away a b) (ha : a.WF) (alarm : Alarm) (ht : shown away W t = true) :
    alarm.apply t b.sleepers = (alarm.apply t a.sleepers).filter fun e => shown away W e.1 := by
  rw [h.sleepers]
  cases alarm with
  | keep => rfl
  | cancel =>
    simp only [Alarm.apply, Countdown.cancel, List.filter_filter]
    simp only [Bool.and_comm]
  | set n =>
    refine (filter_insertWhile (q := fun e : Tid × Nat => shown away W e.1) ?_ ht).symm
    refine ha.sleepers_sorted.imp fun hle hlt => ?_
    simp only [decide_eq_false_iff_not] at hlt ⊢
    omega

theorem moves (h : Veiled W away a b) {away' : Bool} {f g : TaskControlBlock → TaskControlBlock}
    {dest dest' : Option ListId} {ins ins' : List Tid → List Tid} {alarm alarm' : Alarm}
    (htcb : t ≠ W → g (a.tcb t) = f (a.tcb t))
    (hwaits : ∀ w, (b.move t g dest' ins' alarm').seq (.wait w) =
      ((a.move t f dest ins alarm).seq (.wait w)).filter (shown away' W))
    (hsleepers : alarm'.apply t b.sleepers = (alarm.apply t a.sleepers).filter fun e => shown away' W e.1)
    (hpeers : Peers away' (if W = t then f (a.tcb W) else a.tcb W) (if W = t then g (b.tcb W) else b.tcb W)
      (a.frame (.task W)).item (b.frame (.task W)).item) :
    Veiled W away' (a.move t f dest ins alarm) (b.move t g dest' ins' alarm') where
  common := h.common
  fault := h.fault
  tcb u hu := by
    rw [move_tcb, move_tcb, h.tcb u hu]
    split
    · rename_i heq
      subst heq
      exact htcb hu
    · rfl
  frame := h.frame
  waits := hwaits
  sleepers := hsleepers
  heldBy := h.heldBy
  peers := by
    rw [move_tcb, move_tcb]
    exact hpeers

theorem move_seq_wait {f : TaskControlBlock → TaskControlBlock} {dest : Option ListId} {ins : List Tid → List Tid}
    {alarm : Alarm} (hdest : ∀ w, dest ≠ some (.wait w)) (w : WaitId) :
    (a.move t f dest ins alarm).seq (.wait w) = (a.seq (.wait w)).erase t := by
  unfold Abs.move
  cases dest with
  | none => rfl
  | some d =>
    have hne : ListId.wait w ≠ d := fun heq => hdest w (by rw [heq])
    simp only [Function.update_of_ne hne]

theorem move_out (h : Veiled W away a b) (ha : a.WF) {f g : TaskControlBlock → TaskControlBlock}
    {dest dest' : Option ListId} {ins ins' : List Tid → List Tid} (alarm : Alarm) (ht : shown away W t = true)
    (hdest : ∀ w, dest ≠ some (.wait w)) (hdest' : ∀ w, dest' ≠ some (.wait w))
    (htcb : t ≠ W → g (a.tcb t) = f (a.tcb t))
    (hpeers : W = t → away = false → Peers false (f (a.tcb W)) (g (b.tcb W)) (a.frame (.task W)).item
      (b.frame (.task W)).item) :
    Veiled W away (a.move t f dest ins alarm) (b.move t g dest' ins' alarm) := by
  refine h.moves htcb (fun w => ?_) (h.alarm ha alarm ht) ?_
  · rw [move_seq_wait hdest, move_seq_wait hdest']
    exact h.left ha t w
  · split
    · rename_i heq
      have hback : away = false := by
        subst heq
        simpa using ht
      subst hback
      exact hpeers heq rfl
    · exact h.peers

theorem move_in (h : Veiled W away a b) (ha : a.WF) (hs : a.Sorted) {f g : TaskControlBlock → TaskControlBlock}
    {w : WaitId} (p : Nat) (alarm : Alarm) (ht : shown away W t = true) (htcb : t ≠ W → g (a.tcb t) = f (a.tcb t))
    (hpeers : W = t → away = false → Peers false (f (a.tcb W)) (g (b.tcb W)) (a.frame (.task W)).item
      (b.frame (.task W)).item) :
    Veiled W away (a.move t f (some (.wait w)) (a.byPriority p t) alarm)
      (b.move t g (some (.wait w)) (b.byPriority p t) alarm) := by
  refine h.moves htcb (fun w' => ?_) (h.alarm ha alarm ht) ?_
  · by_cases hw : w' = w
    · subst hw
      simp only [Abs.move, Function.update_self]
      rw [h.left ha t w', byPriority_congr (b := a) fun u _ => h.priority u]
      refine (filter_insertWhile ?_ ht).symm
      refine ((hs w').sublist List.erase_sublist).imp fun hle hlt => ?_
      simp only [decide_eq_false_iff_not] at hlt ⊢
      omega
    · have hne : ListId.wait w' ≠ .wait w := by simpa using hw
      simp only [Abs.move, Function.update_of_ne hne]
      exact h.left ha t w'
  · split
    · rename_i heq
      have hback : away = false := by
        subst heq
        simpa using ht
      subst hback
      exact hpeers heq rfl
    · exact h.peers

/-! ### The task itself -/

theorem shown_of_awake (h : Veiled W away a b) (ha : a.WF) (hs : (a.tcb t).state ≠ .blocked) :
    shown away W t = true := by
  by_cases ht : t = W
  · subst ht
    cases hw : away with
    | false => rfl
    | true =>
      obtain ⟨⟨w, hw, -⟩, -⟩ := h.peers.parked hw
      exact absurd ((ha.ok t).waits (by simp [hw])) hs
  · exact shown_of_ne ht

theorem running (h : Veiled W away a b) (ha : a.WF) (hr : (a.tcb t).state = .running) : (b.tcb t).state = .running := by
  have hs := h.shown_of_awake (t := t) ha (by simp [hr])
  by_cases ht : t = W
  · subst ht
    have hnear := h.peers.state (by simpa using hs)
    rw [hr] at hnear
    rcases hnear with heq | ⟨heq, -⟩ | ⟨heq, -⟩
    · exact heq
    · cases heq
    · cases heq
  · rw [h.tcb t ht]
    exact hr

theorem waitList (h : Veiled W away a b) (ht : shown away W t = true) : (b.tcb t).waitList = (a.tcb t).waitList := by
  by_cases hW : t = W
  · subst hW
    exact h.peers.waitList (by simpa using ht)
  · rw [h.tcb t hW]

/-- A task that is suspended in `a` is suspended in `b`, but for `W`: it may have been suspended in its wait. -/
theorem suspended (h : Veiled W away a b) (ha : a.WF) (hs : (a.tcb t).state = .suspended) :
    (b.tcb t).state = .suspended ∨ t = W ∧ away = false ∧ (b.tcb t).state = .ready := by
  by_cases hW : t = W
  · subst hW
    have haway : away = false := by simpa using h.shown_of_awake ha (t := t) (by simp [hs])
    rcases h.peers.state haway with heq | ⟨-, heq⟩ | ⟨heq, -⟩
    · exact Or.inl (heq.trans hs)
    · exact Or.inr ⟨rfl, haway, heq⟩
    · rw [hs] at heq
      cases heq
  · rw [h.tcb t hW]
    exact Or.inl hs

theorem not_suspended (h : Veiled W away a b) (hs : (a.tcb t).state ≠ .suspended) :
    (b.tcb t).state ≠ .suspended := by
  by_cases hW : t = W
  · subst hW
    cases haway : away with
    | true => rcases (h.peers.parked haway).2 with heq | heq <;> simp [heq]
    | false =>
      rcases h.peers.state haway with heq | ⟨heq, -⟩ | ⟨-, heq⟩
      · rwa [heq]
      · exact absurd heq hs
      · simp [heq]
  · rwa [h.tcb t hW]

theorem deleted (h : Veiled W away a b) (ha : a.WF) : (b.tcb t).state = .deleted ↔ (a.tcb t).state = .deleted := by
  by_cases hW : t = W
  · subst hW
    cases haway : away with
    | true =>
      obtain ⟨⟨w, hw, -⟩, hawake⟩ := h.peers.parked haway
      have hblocked := (ha.ok t).waits (by simp [hw])
      rcases hawake with heq | heq <;> simp [heq, hblocked]
    | false => rcases h.peers.state haway with heq | ⟨heq, heq'⟩ | ⟨heq, heq'⟩ <;> simp [*]
  · rw [h.tcb t hW]

theorem placeOf_wait (h : Veiled W away a b) (ha : a.WF) (hb : b.WF) (ht : shown away W t = true) {w : WaitId}
    {p : Nat} :
    placeOf { b.tcb t with priority := p } = some (.wait w) ↔
      placeOf { a.tcb t with priority := p } = some (.wait w) := by
  have hplace : ∀ {e : Abs}, e.WF → (placeOf { e.tcb t with priority := p } = some (.wait w) ↔
      (e.tcb t).waitList = some w) := fun {e} he => by
    constructor
    · intro hp
      unfold placeOf at hp
      split at hp
      · cases hp
      · obtain ⟨w', hw', heq⟩ := Option.map_eq_some_iff.mp hp
        cases heq
        exact hw'
      · cases hp
    · intro hw
      have hblocked := (he.ok t).waits (by simp [hw])
      simp only [placeOf, hblocked, hw, Option.map_some]
  rw [hplace ha, hplace hb, h.waitList ht]

theorem setPriority (h : Veiled W away a b) (ha : a.WF) (hb : b.WF) (hs : a.Sorted) (t : Tid) (p : Nat) :
    Veiled W away (a.setPriority t p) (b.setPriority t p) := by
  have htcb : t ≠ W → ({ a.tcb t with priority := p } : TaskControlBlock) = { a.tcb t with priority := p } :=
    fun _ => rfl
  have hpeers : W = t → ∀ away', away = away' →
      Peers away' { a.tcb W with priority := p } { b.tcb W with priority := p }
      (a.frame (.task W)).item (b.frame (.task W)).item := by
    rintro - away' rfl
    exact { h.peers with priority := rfl }
  by_cases hparked : ∃ w, placeOf { a.tcb t with priority := p } = some (.wait w)
  · obtain ⟨w, hw⟩ := hparked
    have hblocked : (a.tcb t).state ≠ .ready := fun hr => by
      simp only [placeOf, hr] at hw
      cases hw
    by_cases ht : shown away W t = true
    · have hw' := (h.placeOf_wait ha hb ht).mpr hw
      have hblocked' : (b.tcb t).state ≠ .ready := fun hr => by
        simp only [placeOf, hr] at hw'
        cases hw'
      rw [Abs.setPriority, Abs.setPriority, hw, hw', if_neg hblocked, if_neg hblocked']
      exact h.move_in ha hs p .keep ht htcb fun heq hback => hpeers heq false hback
    · -- the task that is away moves within its list
      obtain ⟨rfl, rfl⟩ : t = W ∧ away = true := by simpa [shown, and_comm] using ht
      have hout : ∀ w, placeOf { b.tcb t with priority := p } ≠ some (.wait w) := fun w' hw' => by
        rcases (h.peers.parked rfl).2 with hst | hst
        · simp only [placeOf, hst] at hw'
          cases hw'
        · simp only [placeOf, hst] at hw'
          cases hw'
      rw [Abs.setPriority, Abs.setPriority, hw, if_neg hblocked]
      refine h.moves htcb (fun w' => ?_) h.sleepers ?_
      · rw [move_seq_wait hout, h.left ha]
        by_cases hne : w' = w
        · subst hne
          simp only [Abs.move, Function.update_self]
          exact (filter_insertWhile_of_not (by simp)).symm
        · have hne' : ListId.wait w' ≠ .wait w := by simpa using hne
          simp only [Abs.move, Function.update_of_ne hne']
      · rw [if_pos rfl, if_pos rfl]
        exact hpeers rfl true rfl
  · have ht : shown away W t = true := by
      by_cases hW : t = W
      · subst hW
        cases hw : away with
        | false => rfl
        | true =>
          obtain ⟨⟨w, hw, -⟩, -⟩ := h.peers.parked hw
          have hblocked := (ha.ok t).waits (by simp [hw])
          exact absurd ⟨w, by simp only [placeOf, hblocked, hw, Option.map_some]⟩ hparked
      · exact shown_of_ne hW
    refine h.move_out ha .keep ht (fun w hw => hparked ⟨w, hw⟩)
      (fun w hw => hparked ⟨w, (h.placeOf_wait ha hb ht).mp hw⟩) htcb fun heq hback => hpeers heq false hback

theorem boost (h : Veiled W away a b) (ha : a.WF) (hb : b.WF) (hs : a.Sorted) (w : Wait) (t : Tid) :
    Veiled W away (a.boost w t) (b.boost w t) := by
  unfold Abs.boost
  cases w with
  | lock m =>
    simp only [h.owner, h.priority]
    cases a.owner m with
    | none => exact h
    | some o =>
      simp only
      split
      · exact h.setPriority ha hb hs o _
      · exact h
  | _ => exact h

theorem restore (h : Veiled W away a b) (ha : a.WF) (hb : b.WF) (hs : a.Sorted) (t : Tid) :
    Veiled W away (a.restore t) (b.restore t) := by
  unfold Abs.restore
  rw [h.recompute ha, h.priority]
  split
  · exact h.setPriority ha hb hs t _
  · exact h

theorem wake (h : Veiled W away a b) (ha : a.WF) (ht : shown away W t = true) : Veiled W away (a.wake t) (b.wake t) :=
  h.move_out ha .cancel ht (by simp) (by simp) (fun _ => rfl) fun _ _ =>
    h.peers.idle ⟨rfl, rfl, rfl, rfl⟩ ⟨rfl, rfl, rfl, rfl⟩ (Or.inl rfl) rfl rfl

theorem ready (h : Veiled W away a b) (ha : a.WF) (hb : b.WF) (hs : (a.tcb t).state ≠ .blocked)
    (hs' : (b.tcb t).state ≠ .blocked) : Veiled W away (a.ready t) (b.ready t) := by
  refine h.move_out ha .keep (h.shown_of_awake ha hs) (by simp) (by simp) (fun _ => rfl) ?_
  rintro rfl -
  exact h.peers.idle ⟨rfl, rfl, rfl, rfl⟩ ⟨rfl, rfl, rfl, rfl⟩ (Or.inl rfl) (ha.waitList_none hs)
    (hb.waitList_none hs')

theorem expire (h : Veiled W away a b) (ha : a.WF) (ht : shown away W t = true) :
    Veiled W away (a.expire t) (b.expire t) :=
  h.move_out ha .cancel ht (by simp) (by simp) (fun _ => rfl) fun _ _ =>
    h.peers.idle (unparked_keeps _) (unparked_keeps _) (Or.inl rfl) (unparked_waitList _) (unparked_waitList _)

theorem retire (h : Veiled W away a b) (ha : a.WF) (ht : shown away W t = true) (st : TaskState) :
    Veiled W away (a.retire t st) (b.retire t st) :=
  h.move_out ha .cancel ht (by simp) (by simp) (fun _ => rfl) fun _ _ =>
    h.peers.idle (unparked_keeps _) (unparked_keeps _) (Or.inl rfl) (unparked_waitList _) (unparked_waitList _)

theorem sleep (h : Veiled W away a b) (ha : a.WF) (hb : b.WF) (hr : (a.tcb t).state = .running) (n : Nat) :
    Veiled W away (a.sleep t n) (b.sleep t n) := by
  have hr' := h.running ha hr
  refine h.move_out ha (.set n) (h.shown_of_awake ha (by simp [hr])) (by simp) (by simp) (fun _ => rfl) ?_
  rintro rfl -
  exact h.peers.idle ⟨rfl, rfl, rfl, rfl⟩ ⟨rfl, rfl, rfl, rfl⟩ (Or.inl rfl) (ha.waitList_none (by simp [hr]))
    (hb.waitList_none (by simp [hr']))

theorem switch (h : Veiled W away a b) (ha : a.WF) (hb : b.WF)
    (hnone : ∀ c, a.currentTask = some c → (a.tcb c).state ≠ .running) (hs : (a.tcb t).state = .ready)
    (hs' : (b.tcb t).state = .ready) (ht : t < a.taskCount) : Veiled W away (a.switch t) (b.switch t) := by
  have hsp : (b.tcb t).sp = (a.tcb t).sp := by
    by_cases ht : t = W
    · rw [ht]
      exact h.peers.sp
    · rw [h.tcb t ht]
  have hnow := h.core (f := fun e => { e with currentTask := some t, currentSp := (e.tcb t).sp })
    (g := fun e => { e with currentTask := some t, currentSp := (e.tcb t).sp }) (by
      rw [hsp]
      exact congrArg (fun e : Core => { e with currentTask := some t, currentSp := (a.tcb t).sp }) h.common)
    h.fault rfl rfl h.frame h.peers.item
  refine hnow.move_out (ha.setCurrent ht hnone _) .keep (h.shown_of_awake ha (by simp [hs])) (by simp) (by simp)
    (fun _ => rfl) ?_
  rintro rfl -
  exact h.peers.idle ⟨rfl, rfl, rfl, rfl⟩ ⟨rfl, rfl, rfl, rfl⟩ (Or.inl rfl) (ha.waitList_none (by simp [hs]))
    (hb.waitList_none (by simp [hs']))

theorem block (h : Veiled W away a b) (ha : a.WF) (hs : a.Sorted) {w : Wait} {timeout : Option Nat}
    (hr : (a.tcb t).state = .running)
    (hitem : ∀ q, w = .send q → (b.frame (.task t)).item = (a.frame (.task t)).item) :
    Veiled W away (a.block w t timeout) (b.block w t timeout) := by
  rw [Abs.block, Abs.block, h.priority]
  refine h.move_in ha hs _ _ (h.shown_of_awake ha (by simp [hr])) (fun _ => rfl) ?_
  rintro rfl rfl
  have hkeeps : ∀ c : TaskControlBlock, c.Keeps { w.request W c with state := .blocked, waitList := some w.list } :=
    fun c => by cases w <;> exact ⟨rfl, rfl, rfl, rfl⟩
  refine h.peers.back (hkeeps _) (hkeeps _) (Or.inl rfl) rfl (fun g hg => ?_) fun q hq => ?_
  · cases w with
    | bits g mask all clear => exact ⟨rfl, rfl, rfl⟩
    | _ => cases hg
  · cases w with
    | send q => exact hitem q rfl
    | _ => cases hq

/-! ### Mutexes -/

theorem setHeldBy (h : Veiled W away a b) (t : Tid) {ms ms' : List MutexId} (hms : ms' = ms) :
    Veiled W away (a.setHeldBy t ms) (b.setHeldBy t ms') where
  __ := h
  heldBy := by
    show Function.update b.heldBy t ms' = Function.update a.heldBy t ms
    rw [h.heldBy, hms]

theorem setOwner (h : Veiled W away a b) (m : MutexId) (o : Option Tid) :
    Veiled W away (a.core (·.setOwner m o)) (b.core (·.setOwner m o)) :=
  h.objects (fun _ => rfl) (fun _ => rfl) (fun _ => rfl) fun _ => rfl

theorem acquire (h : Veiled W away a b) (m : MutexId) (t : Tid) : Veiled W away (a.acquire m t) (b.acquire m t) :=
  (h.setOwner m (some t)).setHeldBy t (by rw [h.heldBy])

theorem drop (h : Veiled W away a b) (m : MutexId) (t : Tid) : Veiled W away (a.drop m t) (b.drop m t) :=
  (h.setOwner m none).setHeldBy t (by rw [h.heldBy])

/-! ### Handings -/

theorem hands (h : Veiled W away a b) (ha : a.Starved) (hb : b.Starved) {hd : Handing}
    (ht : shown away W t = true) (hw : (a.tcb t).waitList = some hd.list)
    (hitem : ∀ q p, hd = .item q p → (b.frame p).item = (a.frame p).item)
    (hslot : ∀ q, hd = .slot q (.task W) → ∀ q, (a.tcb W).waitList ≠ some (.senders q)) :
    Veiled W away (a.core (hd.run t)) (b.core (hd.run t)) := by
  have hw' := (h.waitList ht).trans hw
  have hptr := fun htr => ha.xfer t hd.list hw htr
  have hptr' := fun htr => hb.xfer t hd.list hw' htr
  cases hd with
  | token s => exact h.objects (fun _ => rfl) (fun _ => rfl) (fun _ => rfl) fun _ => rfl
  | item q p =>
    have hover : ∀ {e : Abs}, (e.tcb t).xferPtr = some (.task t) → e.core ((Handing.item q p).run t) =
        ((e.core (·.setFrame (.task t) fun f =>
            { f with item := copyBytes (e.config.itemSize q) (e.frame p).item })).core
          (·.emit (.accept q p (copyBytes (e.config.itemSize q) (e.frame p).item)))).core
            (·.emit (.deliver q (.task t) (copyBytes (e.config.itemSize q) (e.frame p).item))) := fun {e} he => by
      simp only [Handing.run, QueueCore.handOver, Abs.core, he]
    rw [hover (hptr rfl), hover (hptr' rfl), h.config, hitem q p rfl]
    refine ((h.setFrame (fun _ => rfl) fun heq q' hq => ?_).emit _ _).emit _ _
    cases heq
    rw [hw] at hq
    cases hq
  | slot q p =>
    have hpush : ∀ {e : Abs}, (e.tcb t).xferPtr = some (.task t) → e.core ((Handing.slot q p).run t) =
        (e.core (QueueCore.popTo q p)).core (QueueCore.pushFrom q (.task t)) := fun {e} he => by
      have he' : ((QueueCore.popTo q p e.toCore).tcb t).xferPtr = some (.task t) := he
      simp only [Handing.run, QueueCore.pushOf, Abs.core, he']
    rw [hpush (hptr rfl), hpush (hptr' rfl)]
    have hpop := h.popTo (q := q) (p := p) fun heq => hslot q (by rw [heq])
    refine hpop.pushFrom ?_
    by_cases hW : t = W
    · subst hW
      exact hpop.peers.item (by simpa using ht) q hw
    · rw [hpop.frame (.task t) (by simpa using hW)]
  | bits g =>
    have hrequest : (b.tcb t).eventWaitMask = (a.tcb t).eventWaitMask ∧
        (b.tcb t).eventClearOnExit = (a.tcb t).eventClearOnExit := by
      by_cases hW : t = W
      · subst hW
        have hr := h.peers.request (by simpa using ht) g hw
        exact ⟨hr.1, hr.2.2⟩
      · rw [h.tcb t hW]
        exact ⟨rfl, rfl⟩
    have hsatisfy : ∀ {e : Abs}, (e.tcb t).xferPtr = some (.task t) → e.core ((Handing.bits g).run t) =
        (e.core (EventGroup.consume g (.task t) (e.tcb t).eventWaitMask (e.tcb t).eventClearOnExit)).core
          (·.setFrame (.task t) fun f => { f with bits := e.currentBits g }) := fun {e} he => by
      simp only [Handing.run, EventGroup.satisfy, EventGroup.report, EventGroup.consume, Abs.core]
      cases (e.tcb t).eventClearOnExit <;> simp [he]
    rw [hsatisfy (hptr rfl), hsatisfy (hptr' rfl), hrequest.1, hrequest.2, h.currentBits]
    refine (h.consume g (.task t) _ _).setFrame (fun _ => rfl) fun heq q hq => ?_
    cases heq
    have hq' : (a.tcb W).waitList = some (.senders q) := by
      rw [← hq]
      cases (a.tcb W).eventClearOnExit <;> rfl
    rw [hw] at hq'
    cases hq'

theorem met (h : Veiled W away a b) {g : EventId} (ht : shown away W t = true)
    (hw : (a.tcb t).waitList = some (.waiters g)) : EventGroup.conditionMet (b.tcb t) (b.currentBits g) =
      EventGroup.conditionMet (a.tcb t) (a.currentBits g) := by
  rw [h.currentBits]
  by_cases hW : t = W
  · subst hW
    obtain ⟨hmask, hall, -⟩ := h.peers.request (by simpa using ht) g hw
    unfold EventGroup.conditionMet
    rw [hmask, hall]
  · rw [h.tcb t hW]

theorem hand (h : Veiled W away a b) (ha : a.Sound) (hb : b.Sound) {hd : Handing} (he : hd.Enabled a t)
    (ht : shown away W t = true) (hitem : ∀ q p, hd = .item q p → (b.frame p).item = (a.frame p).item)
    (hslot : ∀ q, hd = .slot q (.task W) → ∀ q, (a.tcb W).waitList ≠ some (.senders q)) :
    hd.Enabled b t ∧ Veiled W away ((Action.hand hd t).apply a) ((Action.hand hd t).apply b) := by
  have hw := (ha.wf.mem_wait.mp (Handing.Enabled.mem he)).2
  have hcore := h.hands ha.starved hb.starved ht hw hitem hslot
  refine ⟨?_, hcore.wake (ha.wf.core (hd.alike t a.toCore)) ht⟩
  cases hd with
  | token s => exact h.head he ht
  | item q p => exact h.head he ht
  | slot q p => exact ⟨h.head he.1 ht, by rw [h.ring]; exact he.2⟩
  | bits g =>
    refine ⟨?_, (h.met ht hw).trans he.2⟩
    rw [h.waits]
    exact List.mem_filter.mpr ⟨he.1, ht⟩

/-! ### The wait that is left out -/

theorem erase_wait (ha : a.WF) (hs : (a.tcb t).state ≠ .blocked) (w : WaitId) :
    (a.seq (.wait w)).erase t = a.seq (.wait w) :=
  List.erase_of_not_mem fun hm => hs (ha.mem_wait.mp hm).1

theorem filter_shown_away (ha : a.WF) (w : WaitId) :
    (a.seq (.wait w)).filter (shown true W) = (a.seq (.wait w)).erase W := by
  rw [(ha.nodup _).erase_eq_filter]
  rfl

theorem move_left (h : Veiled W away a b) {away' : Bool} {f : TaskControlBlock → TaskControlBlock}
    {dest : Option ListId} {ins : List Tid → List Tid} {alarm : Alarm}
    (hwaits : ∀ w, b.seq (.wait w) = ((a.move W f dest ins alarm).seq (.wait w)).filter (shown away' W))
    (hsleepers : b.sleepers = (alarm.apply W a.sleepers).filter fun e => shown away' W e.1)
    (hpeers : Peers away' (f (a.tcb W)) (b.tcb W) (a.frame (.task W)).item (b.frame (.task W)).item) :
    Veiled W away' (a.move W f dest ins alarm) b where
  common := h.common
  fault := h.fault
  tcb u hu := by
    rw [move_tcb_of_ne hu]
    exact h.tcb u hu
  frame := h.frame
  waits := hwaits
  sleepers := hsleepers
  heldBy := h.heldBy
  peers := by
    rw [move_tcb_self]
    exact hpeers

theorem move_right (h : Veiled W away a b) {f : TaskControlBlock → TaskControlBlock}
    {dest : Option ListId} {ins : List Tid → List Tid} {alarm : Alarm}
    (hwaits : ∀ w, (b.move W f dest ins alarm).seq (.wait w) = b.seq (.wait w))
    (hsleepers : alarm.apply W b.sleepers = b.sleepers)
    (hpeers : Peers away (a.tcb W) (f (b.tcb W)) (a.frame (.task W)).item (b.frame (.task W)).item) :
    Veiled W away a (b.move W f dest ins alarm) where
  common := h.common
  fault := h.fault
  tcb u hu := by
    rw [move_tcb_of_ne hu]
    exact h.tcb u hu
  frame := h.frame
  waits w := (hwaits w).trans (h.waits w)
  sleepers := hsleepers.trans h.sleepers
  heldBy := h.heldBy
  peers := by
    rw [move_tcb_self]
    exact hpeers

theorem block_left (h : Veiled W false a b) (ha : a.WF) {w : Wait} {timeout : Option Nat}
    (hw : ∀ m, w ≠ .lock m) (hr : (a.tcb W).state = .running) : Veiled W true (a.block w W timeout) b := by
  have hr' := h.running ha hr
  have hkeeps : (a.tcb W).Keeps { w.request W (a.tcb W) with state := .blocked, waitList := some w.list } := by
    cases w <;> exact ⟨rfl, rfl, rfl, rfl⟩
  refine h.move_left (fun w' => ?_) ?_ ?_
  · rw [h.waits, filter_shown_back]
    have hout := erase_wait (t := W) ha (by simp [hr])
    by_cases hne : w' = w.list
    · subst hne
      simp only [Abs.move, Function.update_self, hout]
      refine (List.filter_eq_self.mpr fun u hu => shown_of_ne fun heq => ?_).symm.trans
        (filter_insertWhile_of_not (by simp)).symm
      rw [heq, ha.mem_wait, hr] at hu
      cases hu.1
    · have hne' : ListId.wait w' ≠ .wait w.list := by simpa using hne
      simp only [Abs.move, Function.update_of_ne hne', hout]
      refine (List.filter_eq_self.mpr fun u hu => shown_of_ne fun heq => ?_).symm
      rw [heq, ha.mem_wait, hr] at hu
      cases hu.1
  · have hback : b.sleepers = a.sleepers := by
      rw [h.sleepers]
      exact List.filter_eq_self.mpr fun _ _ => rfl
    have hout : a.sleepers.filter (fun e => shown true W e.1) = a.sleepers :=
      List.filter_eq_self.mpr fun e he => shown_of_ne fun heq =>
        ha.not_sleeps (t := W) (by simp [hr]) (heq ▸ List.mem_map_of_mem he)
    rw [hback]
    cases timeout with
    | none => exact hout.symm
    | some n => exact (hout.symm.trans (filter_insertWhile_of_not (by simp)).symm)
  · obtain ⟨hsp, hbase, hprio, hbprio⟩ := hkeeps
    exact ⟨by rw [h.peers.sp, hsp], by rw [h.peers.stackBase, hbase], by rw [h.peers.priority, hprio],
      by rw [h.peers.basePriority, hbprio],
      fun _ => ⟨⟨w.list, rfl, fun m => by cases w <;> simp [Wait.list] at hw ⊢⟩, Or.inr hr'⟩, by simp,
        by simp, by simp,
      by simp⟩

theorem ends_left (h : Veiled W true a b) (ha : a.WF) (hb : b.WF) {f : TaskControlBlock → TaskControlBlock}
    {dest : Option ListId} {ins : List Tid → List Tid} (hdest : ∀ w, dest ≠ some (.wait w))
    (hkeeps : (a.tcb W).Keeps (f (a.tcb W))) (hw : (f (a.tcb W)).waitList = none)
    (hnear : (f (a.tcb W)).state.Near (b.tcb W).state) : Veiled W false (a.move W f dest ins .cancel) b := by
  have hawake : (b.tcb W).state ≠ .blocked := by
    rcases (h.peers.parked rfl).2 with hs | hs <;> simp [hs]
  refine h.move_left (fun w => ?_) ?_ (h.peers.idle hkeeps ⟨rfl, rfl, rfl, rfl⟩ hnear hw (hb.waitList_none hawake))
  · rw [move_seq_wait hdest, filter_shown_back, h.waits, filter_shown_away ha]
  · rw [h.sleepers]
    refine Eq.trans ?_ (List.filter_eq_self.mpr fun _ _ => rfl).symm
    refine List.filter_congr fun e _ => ?_
    by_cases he : e.1 = W
    · simp [he]
    · simp [shown_of_ne he, he]

theorem expire_left (h : Veiled W true a b) (ha : a.WF) (hb : b.WF) : Veiled W false (a.expire W) b := by
  refine h.ends_left ha hb (by simp) (unparked_keeps _) (unparked_waitList _) ?_
  rcases (h.peers.parked rfl).2 with hs | hs
  · exact Or.inl hs
  · exact Or.inr (Or.inr ⟨rfl, hs⟩)

theorem retire_left (h : Veiled W true a b) (ha : a.WF) (hb : b.WF) (hs : (b.tcb W).state = .ready) :
    Veiled W false (a.retire W .suspended) b :=
  h.ends_left ha hb (by simp) (unparked_keeps _) (unparked_waitList _) (Or.inr (Or.inl ⟨rfl, hs⟩))

theorem ready_left (h : Veiled W false a b) (ha : a.WF) (hb : b.WF) (hs : (a.tcb W).state = .suspended)
    (hs' : (b.tcb W).state = .ready) : Veiled W false (a.ready W) b := by
  refine h.move_left (fun w => ?_) h.sleepers
    (h.peers.idle ⟨rfl, rfl, rfl, rfl⟩ ⟨rfl, rfl, rfl, rfl⟩ (Or.inl hs')
    (ha.waitList_none (by simp [hs])) (hb.waitList_none (by simp [hs'])))
  rw [move_wait, erase_wait ha (by simp [hs])]
  exact h.waits w

theorem retire_right (h : Veiled W false a b) (ha : a.WF) (hb : b.WF) (hs : (a.tcb W).state = .suspended)
    (hs' : (b.tcb W).state = .ready) : Veiled W false a (b.retire W .suspended) := by
  refine h.move_right (fun w => ?_) (cancel_of_not_sleeps (hb.not_sleeps (by simp [hs']))) ?_
  · rw [move_seq_wait (by simp), erase_wait hb (by simp [hs'])]
  · exact h.peers.idle ⟨rfl, rfl, rfl, rfl⟩ (unparked_keeps _) (Or.inl hs.symm) (ha.waitList_none (by simp [hs]))
      (unparked_waitList _)

/-- `W` is put back in the kernel that never parked it. -/
theorem ready_right (h : Veiled W away a b) (ha : a.WF) (hb : b.WF) (hs : (a.tcb W).state ≠ .running)
    (hs' : (b.tcb W).state = .running) : Veiled W away a (b.ready W) := by
  refine h.move_right (fun w => ?_) rfl ?_
  · rw [move_wait, erase_wait hb (by simp [hs'])]
  · cases haway : away with
    | true => exact ⟨h.peers.sp, h.peers.stackBase, h.peers.priority, h.peers.basePriority,
        fun _ => ⟨(h.peers.parked haway).1, Or.inl rfl⟩, by simp, by simp, by simp, by simp⟩
    | false =>
      have hready : (a.tcb W).state = .ready := by
        rcases h.peers.state haway with heq | ⟨-, heq⟩ | ⟨heq, -⟩
        · exact absurd (heq.symm.trans hs') hs
        · rw [hs'] at heq
          cases heq
        · exact heq
      exact h.peers.idle ⟨rfl, rfl, rfl, rfl⟩ ⟨rfl, rfl, rfl, rfl⟩ (Or.inl hready.symm)
        (ha.waitList_none (by simp [hready]))
        (hb.waitList_none (by simp [hs']))

/-! ### The tick -/

theorem countDown (h : Veiled W away a b) : Veiled W away a.countDown b.countDown where
  __ := h
  sleepers := by
    show b.sleepers.map _ = (a.sleepers.map _).filter _
    rw [h.sleepers, List.filter_map]
    rfl

theorem expired (h : Veiled W away a b) (ha : a.WF) : b.expired = a.expired.filter (shown away W) := by
  have hsorted : a.sleepers.Pairwise fun e e' => (e.2 == 0) = false → (e'.2 == 0) = false :=
    ha.sleepers_sorted.imp fun hle hne => by
      simp only [beq_eq_false_iff_ne] at hne ⊢
      omega
  rw [Abs.expired, Abs.expired, h.sleepers, takeWhile_eq_filter hsorted,
    takeWhile_eq_filter (hsorted.sublist List.filter_sublist), List.filter_map, List.filter_filter, List.filter_filter]
  congr 2
  funext e
  exact Bool.and_comm _ _

theorem expireAll {ts : List Tid} (h : Veiled W away a b) (ha : a.WF) (hb : b.WF) (hnodup : ts.Nodup)
    (hlt : ∀ t ∈ ts, t < a.taskCount) : Veiled W (away && decide (W ∉ ts)) (a.expireAll ts)
      (b.expireAll (ts.filter (shown away W))) := by
  induction ts generalizing a b away with
  | nil => simpa [Abs.expireAll] using h
  | cons t ts ih =>
    obtain ⟨hnot, hnodup⟩ := List.nodup_cons.mp hnodup
    have ha' := ha.expire (hlt t (by simp))
    have hrest : ∀ u ∈ ts, u < (a.expire t).taskCount := fun u hu => hlt u (by simp [hu])
    by_cases ht : shown away W t = true
    · rw [List.filter_cons_of_pos ht]
      have hne : (away && decide (W ∉ t :: ts)) = (away && decide (W ∉ ts)) := by
        cases haway : away with
        | false => rfl
        | true =>
          rw [haway] at ht
          simp [Ne.symm (ne_of_shown ht)]
      rw [hne]
      exact ih (h.expire ha ht) ha' (hb.expire (by rw [h.taskCount]; exact hlt t (by simp))) hnodup hrest
    · obtain ⟨rfl, rfl⟩ : t = W ∧ away = true := by simpa [shown, and_comm] using ht
      rw [List.filter_cons_of_neg ht]
      have hback := ih (h.expire_left ha hb) ha' hb hnodup hrest
      have hrest : ts.filter (shown true t) = ts :=
        List.filter_eq_self.mpr fun u hu => shown_of_ne fun heq => hnot (heq ▸ hu)
      rw [filter_shown_back] at hback
      rw [hrest]
      have haway : (true && decide (t ∉ t :: ts)) = (false && decide (t ∉ ts)) := by simp
      rw [haway]
      exact hback

/-! ### Context switches -/

theorem storeSp (h : Veiled W away a b) (psp : Nat) : Veiled W away (a.storeSp psp) (b.storeSp psp) := by
  unfold Abs.storeSp
  split
  · exact h
  · exact h.objects (fun _ => rfl) (fun _ => rfl) (fun _ => rfl) fun _ => rfl

theorem stackIntact (h : Veiled W away a b) (c : Tid) :
    Scheduler.stackIntact c b.toCore = Scheduler.stackIntact c a.toCore := by
  have hbase : (b.tcb c).stackBase = (a.tcb c).stackBase := by
    by_cases hc : c = W
    · rw [hc]
      exact h.peers.stackBase
    · rw [h.tcb c hc]
  rw [Scheduler.stackIntact, Scheduler.stackIntact, hbase, h.storage]

theorem saveSp (h : Veiled W away a b) (c : Tid) : Veiled W away (a.saveSp c) (b.saveSp c) := by
  have hcheck : Veiled W away (a.core fun e => e.check .stackOverflow (Scheduler.stackIntact c e))
      (b.core fun e => e.check .stackOverflow (Scheduler.stackIntact c e)) :=
    h.check (by rw [h.stackIntact c]; exact id)
  have hsp := hcheck.currentSp
  exact hcheck.setTask (fun _ => by rw [hsp]) fun _ => { hcheck.peers with sp := hsp }

theorem putBack (h : Veiled W away a b) (ha : a.WF) (hb : b.WF) : Veiled W away a.putBack b.putBack := by
  unfold Abs.putBack
  rw [h.currentTask]
  cases a.currentTask with
  | none => exact h
  | some c =>
    have hsaved := h.saveSp c
    have hstate := fun e : Abs => (Rep.saveSp_tcb (a := e) c c).2
    simp only
    by_cases hr : (a.tcb c).state = .running
    · have hr' := h.running ha hr
      rw [if_pos hr, if_pos hr']
      exact hsaved.ready (Rep.saveSp_wf ha c) (Rep.saveSp_wf hb c) (by simp [hstate, hr]) (by simp [hstate, hr'])
    · rw [if_neg hr]
      split
      · rename_i hr'
        obtain rfl : c = W := by
          by_contra hne
          rw [h.tcb c hne] at hr'
          exact hr hr'
        exact hsaved.ready_right (Rep.saveSp_wf ha c) (Rep.saveSp_wf hb c) (by rwa [hstate]) (by rwa [hstate])
      · exact hsaved

/-! ### Creation -/

theorem alloc (h : Veiled W away a b) (hW : W < a.taskCount) : Veiled W away a.alloc b.alloc := by
  have hcount := h.objects (f := fun e => { e with taskCount := e.taskCount + 1 }) (fun _ => rfl) (fun _ => rfl)
    (fun _ => rfl) fun _ => rfl
  have hset := hcount.setTask (t := a.taskCount) (f := fun c => { c with state := .suspended, waitList := none })
    (g := fun c => { c with state := .suspended, waitList := none }) (fun _ => rfl)
    fun heq => absurd heq (Nat.ne_of_lt hW)
  have heq : b.alloc = (b.core fun e => { e with taskCount := e.taskCount + 1 }).core
      (·.setTask a.taskCount fun c => { c with state := .suspended, waitList := none }) := by
    rw [Abs.alloc, ← h.taskCount]
    rfl
  rw [heq]
  exact hset

theorem initTcb (h : Veiled W away a b) (ht : W ≠ t) (site : Site) (p : Nat) :
    Veiled W away (a.initTcb t site p) (b.initTcb t site p) :=
  (h.objects (f := (·.setStorage site fun x => { x with word0 := kStackCanary, frame := some site })) (fun _ => rfl)
    (fun _ => rfl) (fun _ => rfl) fun _ => rfl).setTask (fun _ => rfl) fun heq => absurd heq ht

end Veiled

end Abs

end AcRtos
