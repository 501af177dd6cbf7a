import AcRtos.Membership

/-!
# What an action changes

For every action, the control block of an arbitrary task afterwards (`Action.tcb`), the owners and held
mutexes, and the rest of the core. Proofs about runs use these equations and do not unfold the actions.
-/

namespace AcRtos

namespace Abs

variable {a : Abs} {t u : Tid}

theorem move_tcb {f : TaskControlBlock → TaskControlBlock} {dest : Option ListId}
    {ins : List Tid → List Tid} {alarm : Alarm} :
    (a.move t f dest ins alarm).tcb u = if u = t then f (a.tcb u) else a.tcb u := by
  by_cases hu : u = t
  · subst hu
    rw [if_pos rfl, move_tcb_self]
  · rw [if_neg hu, move_tcb_of_ne hu]

theorem move_ready {f : TaskControlBlock → TaskControlBlock} {alarm : Alarm} (hnot : ∀ q, t ∉ a.seq (.ready q))
    (p : Nat) : (a.move t f (some (.ready (a.tcb t).priority)) (· ++ [t]) alarm).seq (.ready p) =
      a.seq (.ready p) ++ [t].filter fun u => decide ((a.tcb u).priority = p) := by
  by_cases h : p = (a.tcb t).priority
  · subst h
    simp [move, List.erase_of_not_mem (hnot _)]
  · have hne : ListId.ready p ≠ .ready (a.tcb t).priority := by simpa using h
    simp [move, Function.update_of_ne hne, List.erase_of_not_mem (hnot p), Ne.symm h]

theorem move_wait {f : TaskControlBlock → TaskControlBlock} {p : Nat} {ins : List Tid → List Tid} {alarm : Alarm}
    (w : WaitId) : (a.move t f (some (.ready p)) ins alarm).seq (.wait w) = (a.seq (.wait w)).erase t := by
  simp [move]

theorem boost_lock {m : MutexId} {o : Tid} (ho : a.owner m = some o) :
    a.boost (.lock m) t =
      if (a.tcb o).priority < (a.tcb t).priority then a.setPriority o (a.tcb t).priority else a := by
  simp only [boost, ho]

/-- The priority of `u` after `t` has parked on `w`. -/
def boosted (w : Wait) (t u : Tid) (a : Abs) : Nat :=
  match w with
  | .lock m =>
      if a.owner m = some u ∧ (a.tcb u).priority < (a.tcb t).priority then (a.tcb t).priority
      else (a.tcb u).priority
  | _ => (a.tcb u).priority

theorem boost_tcb (w : Wait) : (a.boost w t).tcb u = { a.tcb u with priority := a.boosted w t u } := by
  cases w with
  | lock m =>
    cases ho : a.owner m with
    | none => simp [boost, boosted, ho]
    | some o =>
      rw [boost_lock ho]
      by_cases hlt : (a.tcb o).priority < (a.tcb t).priority
      · rw [if_pos hlt, setPriority, move_tcb]
        by_cases hu : u = o
        · subst hu
          simp [boosted, ho, hlt]
        · simp [boosted, ho, hu, Ne.symm hu]
      · rw [if_neg hlt]
        by_cases hu : o = u
        · subst hu
          simp [boosted, ho, hlt]
        · simp [boosted, ho, hu]
  | _ => rfl

theorem restore_tcb :
    (a.restore t).tcb u = if u = t then { a.tcb u with priority := a.recompute t } else a.tcb u := by
  unfold restore
  split
  · rw [setPriority, move_tcb]
  · rename_i heq
    rw [not_not] at heq
    by_cases hu : u = t
    · subst hu
      rw [if_pos rfl, heq]
    · rw [if_neg hu]

end Abs

/-- The control block of `u` after the action. -/
def Action.tcb (a : Abs) (u : Tid) : Action → TaskControlBlock
  | .data _ | .countDown => a.tcb u
  | .save t => if u = t then { a.tcb u with sp := a.currentSp } else a.tcb u
  | .ready t => if u = t then { a.tcb u with state := .ready } else a.tcb u
  | .switch t => if u = t then { a.tcb u with state := .running } else a.tcb u
  | .alloc => if u = a.taskCount then { a.tcb u with state := .suspended, waitList := none } else a.tcb u
  | .initTcb t site p =>
      if u = t then
        { a.tcb u with stackBase := some site, sp := .initial site, priority := p, basePriority := p }
      else a.tcb u
  | .sleep t _ => if u = t then { a.tcb u with state := .blocked } else a.tcb u
  | .expire t => if u = t then { (a.tcb u).unparked with state := .ready } else a.tcb u
  | .retire t st => if u = t then { (a.tcb u).unparked with state := st } else a.tcb u
  | .park w t _ =>
      if u = t then { w.request t (a.tcb u) with state := .blocked, waitList := some w.list }
      else { a.tcb u with priority := a.boosted w t u }
  | .hand _ t => if u = t then { a.tcb u with state := .ready, waitList := none } else a.tcb u
  | .acquire _ _ => a.tcb u
  | .release m t =>
      if u = t then { a.tcb u with priority := (a.drop m t).recompute t } else a.tcb u
  | .pass m t next =>
      if u = t then { a.tcb u with priority := ((a.drop m t).give m next).recompute t }
      else if u = next then { a.tcb u with state := .ready, waitList := none } else a.tcb u

namespace Abs

variable {a : Abs} {act : Action} {u : Tid}

theorem apply_tcb (h : a.WF) (he : act.Enabled a) : (act.apply a).tcb u = act.tcb a u := by
  cases act with
  | data d => exact congrFun (d.alike he).tcb u
  | save t => exact Function.update_apply _ _ _ _ |>.trans (by split <;> simp_all [Action.tcb])
  | ready t => exact move_tcb
  | switch t => exact move_tcb
  | alloc =>
    simp only [Action.apply, alloc, Action.tcb, core_toCore, Core.setTask_tcb, Function.update_apply]
    split <;> simp_all
  | initTcb t site p =>
    simp only [Action.apply, initTcb, Action.tcb, core_toCore, Core.setTask_tcb, Core.setStorage_tcb,
      Function.update_apply]
    split <;> simp_all
  | sleep t n => exact move_tcb
  | countDown => rfl
  | expire t => exact move_tcb
  | retire t st => exact move_tcb
  | park w t timeout =>
    show ((a.boost w t).block w t timeout).tcb u = _
    rw [block, move_tcb, boost_tcb]
    by_cases hu : u = t
    · subst hu
      have hsame : a.boosted w u u = (a.tcb u).priority := by
        unfold boosted
        split
        · simp
        · rfl
      simp only [Action.tcb, if_pos, hsame]
    · simp only [Action.tcb, if_neg hu]
  | hand hd t =>
    have hsame := congrFun (hd.alike t a.toCore).tcb u
    simp only [Action.apply, wake, Action.tcb]
    rw [move_tcb]
    simp only [core_toCore, hsame]
  | acquire m t => rfl
  | release m t =>
    show ((a.drop m t).restore t).tcb u = _
    rw [restore_tcb]
    rfl
  | pass m t next =>
    have hne : next ≠ t := by
      rintro rfl
      have := (h.mem_wait.mp (List.mem_of_mem_head? he.2.2)).1
      rw [he.2.1] at this
      cases this
    show (((a.drop m t).give m next).restore t).tcb u = _
    rw [restore_tcb, give, wake, move_tcb]
    by_cases hu : u = t
    · subst hu
      simp only [Action.tcb, if_pos, if_neg hne.symm]
      rfl
    · simp only [Action.tcb, if_neg hu]
      rfl

/-! ### Owners -/

theorem boost_heldBy {t : Tid} (w : Wait) : (a.boost w t).heldBy = a.heldBy := by
  unfold boost
  split
  · split
    · split <;> rfl
    · rfl
  · rfl

theorem boost_sleepers {t : Tid} (w : Wait) : (a.boost w t).sleepers = a.sleepers := by
  unfold boost
  split
  · split
    · split <;> rfl
    · rfl
  · rfl

theorem restore_heldBy {t : Tid} : (a.restore t).heldBy = a.heldBy := by
  unfold restore; split <;> rfl

theorem restore_sleepers {t : Tid} : (a.restore t).sleepers = a.sleepers := by
  unfold restore; split <;> rfl

end Abs

/-- The owners after the action. -/
def Action.owner (a : Abs) : Action → MutexId → Option Tid
  | .acquire m t => Function.update a.owner m (some t)
  | .release m _ => Function.update a.owner m none
  | .pass m _ next => Function.update a.owner m (some next)
  | _ => a.owner

/-- The held mutexes after the action. -/
def Action.heldBy (a : Abs) : Action → Tid → List MutexId
  | .acquire m t => Function.update a.heldBy t (m :: a.heldBy t)
  | .release m t => Function.update a.heldBy t ((a.heldBy t).erase m)
  | .pass m t next =>
      Function.update (Function.update a.heldBy t ((a.heldBy t).erase m)) next
        (m :: Function.update a.heldBy t ((a.heldBy t).erase m) next)
  | _ => a.heldBy

namespace Abs

variable {a : Abs} {act : Action} {u : Tid}

theorem apply_owner (he : act.Enabled a) : (act.apply a).owner = act.owner a := by
  cases act with
  | data d => exact (d.alike he).owner
  | park w t timeout => exact (SameRest.boost w).owner
  | hand hd t => exact (hd.alike t a.toCore).owner
  | release m t => exact SameRest.restore.owner
  | pass m t next =>
    refine SameRest.restore.owner.trans ?_
    simp [give, wake, drop, acquire, Action.owner]
  | _ => rfl

theorem apply_heldBy : (act.apply a).heldBy = act.heldBy a := by
  cases act with
  | park w t timeout => exact boost_heldBy w
  | release m t => exact restore_heldBy
  | pass m t next => exact restore_heldBy
  | _ => rfl

/-! ### The scheduler's own fields -/

theorem apply_currentTask (he : act.Enabled a) :
    (act.apply a).currentTask = match act with | .switch t => some t | _ => a.currentTask := by
  cases act with
  | data d => exact (d.alike he).currentTask
  | park w t timeout => exact (SameRest.boost w).currentTask
  | hand hd t => exact (hd.alike t a.toCore).currentTask
  | release m t => exact SameRest.restore.currentTask
  | pass m t next => exact SameRest.restore.currentTask
  | _ => rfl

theorem apply_config (he : act.Enabled a) : (act.apply a).config = a.config := by
  cases act with
  | data d => exact (d.alike he).config
  | park w t timeout => exact (SameRest.boost w).config
  | hand hd t => exact (hd.alike t a.toCore).config
  | release m t => exact SameRest.restore.config
  | pass m t next => exact SameRest.restore.config
  | _ => rfl

theorem apply_taskCount (he : act.Enabled a) :
    (act.apply a).taskCount = match act with | .alloc => a.taskCount + 1 | _ => a.taskCount := by
  cases act with
  | data d => exact (d.alike he).taskCount
  | park w t timeout => exact (SameRest.boost w).taskCount
  | hand hd t => exact (hd.alike t a.toCore).taskCount
  | release m t => exact SameRest.restore.taskCount
  | pass m t next => exact SameRest.restore.taskCount
  | _ => rfl

theorem taskCount_le_apply (he : act.Enabled a) : a.taskCount ≤ (act.apply a).taskCount := by
  rw [apply_taskCount he]
  split
  · omega
  · exact Nat.le_refl _

theorem consume_rest (g : EventId) (c : Ctx) (mask : BitVec 32) (clear : Bool) (e : Core) :
    (EventGroup.consume g c mask clear e).started = e.started ∧
      (EventGroup.consume g c mask clear e).isCreated = e.isCreated ∧
      (EventGroup.consume g c mask clear e).tickCount = e.tickCount := by
  cases clear <;> exact ⟨rfl, rfl, rfl⟩

theorem report_rest (t : Tid) (v : BitVec 32) (e : Core) :
    (EventGroup.report t v e).started = e.started ∧
      (EventGroup.report t v e).isCreated = e.isCreated ∧
      (EventGroup.report t v e).tickCount = e.tickCount := by
  unfold EventGroup.report
  split <;> exact ⟨rfl, rfl, rfl⟩

theorem pushOf_rest (q : QueueId) (t : Tid) (e : Core) :
    (QueueCore.pushOf q t e).started = e.started ∧ (QueueCore.pushOf q t e).isCreated = e.isCreated ∧
      (QueueCore.pushOf q t e).tickCount = e.tickCount := by
  unfold QueueCore.pushOf
  split <;> exact ⟨rfl, rfl, rfl⟩

theorem handing_rest (hd : Handing) (t : Tid) (e : Core) :
    (hd.run t e).started = e.started ∧ (hd.run t e).isCreated = e.isCreated ∧
      (hd.run t e).tickCount = e.tickCount := by
  cases hd with
  | token s => exact ⟨rfl, rfl, rfl⟩
  | item q p =>
    simp only [Handing.run, QueueCore.handOver]
    split <;> exact ⟨rfl, rfl, rfl⟩
  | slot q p => exact pushOf_rest q t (QueueCore.popTo q p e)
  | bits g =>
    have hc := consume_rest g (.task t) (e.tcb t).eventWaitMask (e.tcb t).eventClearOnExit e
    have hr := report_rest t (e.currentBits g)
      (EventGroup.consume g (.task t) (e.tcb t).eventWaitMask (e.tcb t).eventClearOnExit e)
    exact ⟨hr.1.trans hc.1, hr.2.1.trans hc.2.1, hr.2.2.trans hc.2.2⟩

theorem apply_started (he : act.Enabled a) :
    (act.apply a).started = match act with | .data .start => true | _ => a.started := by
  cases act with
  | data d =>
    cases d with
    | quiet e => exact he.started
    | consume g c mask clear => exact (consume_rest g c mask clear _).1
    | _ => rfl
  | park w t timeout => exact (SameRest.boost w).started
  | hand hd t => exact (handing_rest hd t a.toCore).1
  | release m t => exact SameRest.restore.started
  | pass m t next => exact SameRest.restore.started
  | _ => rfl

theorem apply_isCreated (he : act.Enabled a) :
    (act.apply a).isCreated =
      match act with | .data (.setFlag x) => Function.update a.isCreated x true | _ => a.isCreated := by
  cases act with
  | data d =>
    cases d with
    | quiet e => exact he.isCreated
    | consume g c mask clear => exact (consume_rest g c mask clear _).2.1
    | _ => rfl
  | park w t timeout => exact (SameRest.boost w).isCreated
  | hand hd t => exact (handing_rest hd t a.toCore).2.1
  | release m t => exact SameRest.restore.isCreated
  | pass m t next => exact SameRest.restore.isCreated
  | _ => rfl

theorem apply_tickCount (he : act.Enabled a) :
    (act.apply a).tickCount = match act with | .data .tick => a.tickCount + 1 | _ => a.tickCount := by
  cases act with
  | data d =>
    cases d with
    | quiet e => exact he.tickCount
    | consume g c mask clear => exact (consume_rest g c mask clear _).2.2
    | _ => rfl
  | park w t timeout => exact (SameRest.boost w).tickCount
  | hand hd t => exact (handing_rest hd t a.toCore).2.2
  | release m t => exact SameRest.restore.tickCount
  | pass m t next => exact SameRest.restore.tickCount
  | _ => rfl

/-! ### Waits and countdowns -/

/-- A task waits after an action only if it waited before, or if the action parked it. -/
theorem waitList_apply (h : a.WF) (he : act.Enabled a) {w : WaitId}
    (hw : ((act.apply a).tcb u).waitList = some w) :
    (a.tcb u).waitList = some w ∨ ∃ W timeout, act = .park W u timeout ∧ W.list = w := by
  rw [apply_tcb h he] at hw
  cases act with
  | park W t timeout =>
    by_cases hu : u = t
    · subst hu
      right
      refine ⟨W, timeout, rfl, ?_⟩
      simpa [Action.tcb] using hw
    · left
      simpa [Action.tcb, hu] using hw
  | pass m t next =>
    left
    simp only [Action.tcb] at hw
    split at hw
    · exact hw
    · split at hw
      · cases hw
      · exact hw
  | _ =>
    left
    simp only [Action.tcb] at hw
    first
      | exact hw
      | (split at hw <;> first | exact hw | cases hw | (simp at hw))

/-- The fields a parked task's request is kept in. -/
structure SameRequest (c c' : TaskControlBlock) : Prop where
  xferPtr : c'.xferPtr = c.xferPtr
  eventWaitMask : c'.eventWaitMask = c.eventWaitMask
  eventWaitAll : c'.eventWaitAll = c.eventWaitAll
  eventClearOnExit : c'.eventClearOnExit = c.eventClearOnExit

theorem sameRequest_unparked (c : TaskControlBlock) : SameRequest c c.unparked := by
  unfold TaskControlBlock.unparked
  split <;> exact ⟨rfl, rfl, rfl, rfl⟩

theorem sameRequest_tcb (hne : ∀ w timeout, act ≠ .park w u timeout) :
    SameRequest (a.tcb u) (act.tcb a u) := by
  have hexpire := sameRequest_unparked (a.tcb u)
  cases act with
  | park w t timeout =>
    have hu : u ≠ t := fun heq => hne w timeout (by rw [heq])
    simp only [Action.tcb, if_neg hu]
    exact ⟨rfl, rfl, rfl, rfl⟩
  | expire t =>
    simp only [Action.tcb]
    split
    · exact ⟨hexpire.xferPtr, hexpire.eventWaitMask, hexpire.eventWaitAll, hexpire.eventClearOnExit⟩
    · exact ⟨rfl, rfl, rfl, rfl⟩
  | retire t st =>
    simp only [Action.tcb]
    split
    · exact ⟨hexpire.xferPtr, hexpire.eventWaitMask, hexpire.eventWaitAll, hexpire.eventClearOnExit⟩
    · exact ⟨rfl, rfl, rfl, rfl⟩
  | pass m t next =>
    simp only [Action.tcb]
    split
    · exact ⟨rfl, rfl, rfl, rfl⟩
    · split <;> exact ⟨rfl, rfl, rfl, rfl⟩
  | _ =>
    simp only [Action.tcb]
    first
      | exact ⟨rfl, rfl, rfl, rfl⟩
      | (split <;> exact ⟨rfl, rfl, rfl, rfl⟩)

theorem sleeps_apply (hs : (act.apply a).Sleeps u) :
    a.Sleeps u ∨ (∃ n, act = .sleep u n) ∨ ∃ w n, act = .park w u (some n) := by
  have hcancel : ∀ {t}, u ∈ (Countdown.cancel t a.sleepers).map Prod.fst → a.Sleeps u := fun hm =>
    (Countdown.mem_cancel.mp hm).2
  cases act with
  | sleep t n =>
    rcases Countdown.mem_schedule.mp hs with rfl | hs
    · exact Or.inr (Or.inl ⟨n, rfl⟩)
    · exact Or.inl hs
  | park w t timeout =>
    have hsl : (a.boost w t).sleepers = a.sleepers := boost_sleepers w
    have hs' : u ∈ ((timeout.elim Alarm.keep Alarm.set).apply t (a.boost w t).sleepers).map Prod.fst := hs
    rw [hsl] at hs'
    cases timeout with
    | none => exact Or.inl hs'
    | some n =>
      rcases Countdown.mem_schedule.mp hs' with rfl | hs'
      · exact Or.inr (Or.inr ⟨w, n, rfl⟩)
      · exact Or.inl hs'
  | expire t => exact Or.inl (hcancel hs)
  | retire t st => exact Or.inl (hcancel hs)
  | hand hd t => exact Or.inl (hcancel hs)
  | countDown =>
    left
    obtain ⟨e, he, rfl⟩ := List.mem_map.mp hs
    obtain ⟨e', he', rfl⟩ := List.mem_map.mp he
    exact List.mem_map.mpr ⟨e', he', rfl⟩
  | release m t =>
    left
    rw [Sleeps, Action.apply, restore_sleepers] at hs
    exact hs
  | pass m t next =>
    rw [Sleeps, Action.apply, restore_sleepers] at hs
    exact Or.inl (hcancel hs)
  | _ => exact Or.inl hs

theorem Positive.apply (h : a.Positive) (he : act.Enabled a) (hne : act ≠ .countDown) :
    (act.apply a).Positive := by
  have hcancel : ∀ t, ∀ e ∈ Countdown.cancel t a.sleepers, 1 ≤ e.2 :=
    fun t e hmem => h e (Countdown.cancel_sublist.subset hmem)
  have hschedule : ∀ t n, 1 ≤ n → ∀ e ∈ Countdown.schedule t n a.sleepers, 1 ≤ e.2 := by
    intro t n hn e hmem
    rcases Lib.mem_insertWhile.mp hmem with rfl | hmem
    · exact hn
    · exact h e hmem
  cases act with
  | countDown => exact absurd rfl hne
  | sleep t n => exact hschedule t n he.2.2
  | expire t => exact hcancel t
  | retire t st => exact hcancel t
  | hand hd t => exact hcancel t
  | park w t timeout =>
    intro e hmem
    cases timeout with
    | none => exact h e (boost_sleepers w ▸ hmem)
    | some n =>
      refine hschedule t n (he.2.2.1 n rfl).1 e ?_
      rw [← boost_sleepers w]
      exact hmem
  | release m t =>
    intro e hmem
    exact h e (by simpa [Action.apply, restore_sleepers, drop] using hmem)
  | pass m t next =>
    intro e hmem
    refine hcancel next e ?_
    simpa [Action.apply, restore_sleepers, give, wake, Alarm.apply, drop, acquire] using hmem
  | _ => exact h

end Abs

end AcRtos
