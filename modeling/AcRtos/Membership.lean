import AcRtos.Actions

/-!
# Membership

Every action keeps the membership invariant `Abs.WF`: `WF.apply` is its step lemma, `Runs.wf` its run lemma.
The actions that move a task are instances of `WF.move`, which asks only that the new control block agrees
with the list the task enters.
-/

namespace AcRtos

open Lib

namespace Abs

variable {a : Abs} {t : Tid}

theorem WF.lt_of_mem (h : a.WF) {l : ListId} (ht : t ∈ a.seq l) : t < a.taskCount := by
  have hplace := ((h.ok t).mem_seq l).mp ht
  by_contra hlt
  rw [place, if_neg hlt] at hplace
  cases hplace

theorem WF.lt_of_state (h : a.WF) (ht : (a.tcb t).state ≠ .ready) : t < a.taskCount := by
  by_contra hlt
  exact ht ((h.ok t).fresh (Nat.not_lt.mp hlt)).1

theorem WF.mem_wait (h : a.WF) {w : WaitId} :
    t ∈ a.seq (.wait w) ↔ (a.tcb t).state = .blocked ∧ (a.tcb t).waitList = some w := by
  rw [(h.ok t).mem_seq]
  constructor
  · intro hplace
    rw [place] at hplace
    split at hplace
    · unfold placeOf at hplace
      split at hplace <;> simp_all
    · cases hplace
  · rintro ⟨hb, hw⟩
    rw [place, if_pos (h.lt_of_state (by simp [hb])), placeOf, hb]
    simp [hw]

theorem WF.mem_ready (h : a.WF) {p : Nat} :
    t ∈ a.seq (.ready p) ↔ t < a.taskCount ∧ (a.tcb t).state = .ready ∧ (a.tcb t).priority = p := by
  rw [(h.ok t).mem_seq]
  constructor
  · intro hplace
    rw [place] at hplace
    split at hplace
    · unfold placeOf at hplace
      split at hplace <;> simp_all
    · cases hplace
  · rintro ⟨hlt, hs, hp⟩
    rw [place, if_pos hlt, placeOf, hs, hp]

theorem WF.state_of_sleeps (h : a.WF) (ht : a.Sleeps t) : (a.tcb t).state = .blocked := (h.ok t).sleeps ht

theorem WF.waitList_none (h : a.WF) (ht : (a.tcb t).state ≠ .blocked) : (a.tcb t).waitList = none := by
  by_contra hw
  exact ht ((h.ok t).waits hw)

theorem WF.not_sleeps (h : a.WF) (ht : (a.tcb t).state ≠ .blocked) : ¬ a.Sleeps t :=
  fun hs => ht (h.state_of_sleeps hs)

theorem WF.core (h : a.WF) {f : Core → Core} (hf : a.toCore.Alike (f a.toCore)) : (a.core f).WF where
  ok t := (h.ok t).congr (fun _ => Iff.rfl) (congrFun hf.tcb t) Iff.rfl hf.taskCount fun hr => by
    rw [show (a.core f).currentTask = a.currentTask from hf.currentTask]
    exact (h.ok t).running hr
  nodup := h.nodup
  sleepers_nodup := h.sleepers_nodup
  sleepers_sorted := h.sleepers_sorted
  count_le := by
    rw [show (a.core f).taskCount = a.taskCount from hf.taskCount,
      show (a.core f).config = a.config from hf.config]
    exact h.count_le
  current_lt t ht := by
    rw [show (a.core f).currentTask = a.currentTask from hf.currentTask] at ht
    rw [show (a.core f).taskCount = a.taskCount from hf.taskCount]
    exact h.current_lt t ht

/-! ### Moves -/

theorem perm_atEnd (t : Tid) (xs : List Tid) : (xs ++ [t]).Perm (t :: xs) := List.perm_append_singleton t xs

theorem perm_byPriority (p : Nat) (t : Tid) (xs : List Tid) : (a.byPriority p t xs).Perm (t :: xs) :=
  insertWhile_perm _ t xs

theorem WF.ready (h : a.WF) (ht : t < a.taskCount)
    (hs : (a.tcb t).state = .suspended ∨ (a.tcb t).state = .running) : (a.ready t).WF := by
  have hnb : (a.tcb t).state ≠ .blocked := by rcases hs with hs | hs <;> simp [hs]
  refine h.move ht (perm_atEnd t) rfl (fun hsl => absurd hsl (h.not_sleeps hnb)) ?_ ?_ ?_
    (h.ok t).priority_lt rfl ?_
  · simp
  · simp [h.waitList_none hnb]
  · simp
  · simp

theorem WF.wake (h : a.WF) (ht : t < a.taskCount) : (a.wake t).WF := by
  refine h.move ht (perm_atEnd t) rfl ?_ ?_ ?_ ?_ (h.ok t).priority_lt rfl ?_ <;>
    simp [Alarm.sleeps]

@[simp] theorem unparked_priority (c : TaskControlBlock) : c.unparked.priority = c.priority := by
  unfold TaskControlBlock.unparked; split <;> rfl

@[simp] theorem unparked_basePriority (c : TaskControlBlock) :
    c.unparked.basePriority = c.basePriority := by
  unfold TaskControlBlock.unparked; split <;> rfl

@[simp] theorem unparked_waitList (c : TaskControlBlock) : c.unparked.waitList = none := by
  unfold TaskControlBlock.unparked; split <;> simp_all

theorem WF.expire (h : a.WF) (ht : t < a.taskCount) : (a.expire t).WF := by
  refine h.move ht (perm_atEnd t) ?_ ?_ ?_ ?_ ?_ ?_ ?_ ?_ <;> simp [Alarm.sleeps, placeOf]
  exact (h.ok t).priority_lt

theorem WF.retire (h : a.WF) (ht : t < a.taskCount) {st : TaskState}
    (hst : st = .suspended ∨ st = .deleted) : (a.retire t st).WF := by
  refine h.move ht (perm_atEnd t) ?_ ?_ ?_ ?_ ?_ ?_ ?_ ?_ <;>
    rcases hst with rfl | rfl <;> simp [Alarm.sleeps, placeOf]
  all_goals exact (h.ok t).priority_lt

theorem WF.sleep (h : a.WF) (ht : t < a.taskCount) (hs : (a.tcb t).state = .running) {n : Nat} :
    (a.sleep t n).WF := by
  have hnb : (a.tcb t).state ≠ .blocked := by simp [hs]
  refine h.move ht (perm_atEnd t) ?_ ?_ ?_ ?_ ?_ (h.ok t).priority_lt rfl
    (fun _ _ => h.not_sleeps hnb)
  · simp [placeOf, h.waitList_none hnb]
  · simp
  · simp [Alarm.sleeps]
  · simp
  · simp

theorem request_keeps (w : Wait) (t : Tid) (c : TaskControlBlock) :
    (w.request t c).state = c.state ∧ (w.request t c).priority = c.priority ∧
      (w.request t c).basePriority = c.basePriority ∧ (w.request t c).waitList = c.waitList ∧
      (w.request t c).timeoutExpired = false := by
  cases w <;> exact ⟨rfl, rfl, rfl, rfl, rfl⟩

@[simp] theorem request_priority (w : Wait) (t : Tid) (c : TaskControlBlock) :
    (w.request t c).priority = c.priority := (request_keeps w t c).2.1

@[simp] theorem request_basePriority (w : Wait) (t : Tid) (c : TaskControlBlock) :
    (w.request t c).basePriority = c.basePriority := (request_keeps w t c).2.2.1

theorem WF.block (h : a.WF) (ht : t < a.taskCount) (hs : (a.tcb t).state = .running) {w : Wait}
    {timeout : Option Nat} : (a.block w t timeout).WF := by
  have hnb : (a.tcb t).state ≠ .blocked := by simp [hs]
  refine h.move ht (perm_byPriority _ t) rfl ?_ ?_ ?_ ?_ ?_ ?_ (fun _ _ => h.not_sleeps hnb)
  · simp
  · simp
  · simp
  · simp
  · simpa using (h.ok t).priority_lt
  · simp

theorem WF.setPriority (h : a.WF) (ht : t < a.taskCount) {p : Nat} (hp : p < kMaxPriorities) :
    (a.setPriority t p).WF := by
  refine h.move ht ?_ rfl ?_ ?_ ?_ ?_ hp rfl ?_
  · intro xs
    split
    · exact perm_atEnd t xs
    · exact perm_byPriority p t xs
  · exact (h.ok t).sleeps
  · exact (h.ok t).blocked
  · exact (h.ok t).waits
  · exact (h.ok t).running
  · simp

theorem WF.boost (h : a.WF) {w : Wait} (hw : ∀ m, w = .lock m → ∀ o, a.owner m = some o → o < a.taskCount) :
    (a.boost w t).WF := by
  unfold Abs.boost
  split
  · rename_i m
    split
    · rename_i o ho
      split
      · exact h.setPriority (hw m rfl o ho) (h.ok t).priority_lt
      · exact h
    · exact h
  · exact h

theorem exists_boost_tcb (w : Wait) (u : Tid) : ∃ p, (a.boost w t).tcb u = { a.tcb u with priority := p } := by
  unfold Abs.boost
  split
  · split
    · rename_i o _
      split
      · by_cases hu : u = o
        · subst hu
          exact ⟨_, move_tcb_self⟩
        · exact ⟨_, move_tcb_of_ne hu⟩
      · exact ⟨_, rfl⟩
    · exact ⟨_, rfl⟩
  · exact ⟨_, rfl⟩

/-- `e'` differs from `e` in the control blocks only. -/
structure SameRest (e e' : Core) : Prop where
  config : e'.config = e.config
  currentTask : e'.currentTask = e.currentTask
  taskCount : e'.taskCount = e.taskCount
  started : e'.started = e.started
  owner : e'.owner = e.owner
  count : e'.count = e.count
  ring : e'.ring = e.ring
  currentBits : e'.currentBits = e.currentBits
  isCreated : e'.isCreated = e.isCreated
  frame : e'.frame = e.frame
  trace : e'.trace = e.trace
  tickCount : e'.tickCount = e.tickCount
  storage : e'.storage = e.storage
  fault : e'.fault = e.fault

theorem SameRest.refl (e : Core) : SameRest e e :=
  ⟨rfl, rfl, rfl, rfl, rfl, rfl, rfl, rfl, rfl, rfl, rfl, rfl, rfl, rfl⟩

theorem SameRest.setPriority (p : Nat) : SameRest a.toCore (a.setPriority t p).toCore :=
  ⟨rfl, rfl, rfl, rfl, rfl, rfl, rfl, rfl, rfl, rfl, rfl, rfl, rfl, rfl⟩

theorem SameRest.boost (w : Wait) : SameRest a.toCore (a.boost w t).toCore := by
  unfold Abs.boost
  split
  · split
    · split
      · exact .setPriority _
      · exact .refl _
    · exact .refl _
  · exact .refl _

theorem SameRest.restore : SameRest a.toCore (a.restore t).toCore := by
  unfold Abs.restore
  split
  · exact .setPriority _
  · exact .refl _

theorem WF.park (h : a.WF) (ht : t < a.taskCount) (hs : (a.tcb t).state = .running) {w : Wait}
    {timeout : Option Nat} (hw : ∀ m, w = .lock m → ∀ o, a.owner m = some o → o < a.taskCount) :
    (a.park w t timeout).WF := by
  obtain ⟨p, hp⟩ := a.exists_boost_tcb (t := t) w t
  exact (h.boost hw).block (by rw [(SameRest.boost w).taskCount]; exact ht) (by rw [hp]; exact hs)

/-- What the mutexes of `t` ask for is its base priority or the priority of the first waiter on one of them. -/
theorem recompute_cases : a.recompute t = (a.tcb t).basePriority ∨ ∃ m u, m ∈ a.heldBy t ∧
    (a.seq (.wait (.mutex m))).head? = some u ∧ a.recompute t = (a.tcb u).priority := by
  have hmem : a.recompute t ∈ (a.tcb t).basePriority :: (a.heldBy t).filterMap a.waiterPriority :=
    List.max_mem (List.cons_ne_nil _ _)
  rcases List.mem_cons.mp hmem with heq | hmem
  · exact Or.inl heq
  · obtain ⟨m, hm, hp⟩ := List.mem_filterMap.mp hmem
    obtain ⟨u, hu, heq⟩ := Option.map_eq_some_iff.mp hp
    exact Or.inr ⟨m, u, hm, hu, heq.symm⟩

theorem WF.recompute_lt (h : a.WF) : a.recompute t < kMaxPriorities := by
  rcases recompute_cases (a := a) (t := t) with heq | ⟨m, u, -, -, heq⟩
  · rw [heq]
    exact (h.ok t).base_lt
  · rw [heq]
    exact (h.ok u).priority_lt

theorem WF.restore (h : a.WF) (ht : t < a.taskCount) : (a.restore t).WF := by
  unfold Abs.restore
  split
  · exact h.setPriority ht h.recompute_lt
  · exact h

theorem WF.setCurrent (h : a.WF) (ht : t < a.taskCount)
    (hnone : ∀ c, a.currentTask = some c → (a.tcb c).state ≠ .running) (sp : Sp) :
    (a.core fun e => { e with currentTask := some t, currentSp := sp }).WF where
  ok u := (h.ok u).congr (fun _ => Iff.rfl) rfl Iff.rfl rfl fun hr =>
    absurd hr (hnone u ((h.ok u).running hr))
  nodup := h.nodup
  sleepers_nodup := h.sleepers_nodup
  sleepers_sorted := h.sleepers_sorted
  count_le := h.count_le
  current_lt u hu := by
    obtain rfl : t = u := by simpa [Abs.core] using hu
    exact ht

theorem WF.switch (h : a.WF) (hs : t ∈ a.seq (.ready (a.tcb t).priority))
    (hnone : ∀ c, a.currentTask = some c → (a.tcb c).state ≠ .running) : (a.switch t).WF := by
  have hready := (h.mem_ready.mp hs)
  have hnb : (a.tcb t).state ≠ .blocked := by simp [hready.2.1]
  refine (h.setCurrent hready.1 hnone _).move hready.1 (perm_atEnd t) rfl
    (fun hsl => absurd hsl (h.not_sleeps hnb)) ?_ ?_ ?_ (h.ok t).priority_lt rfl ?_
  · simp
  · simp [Abs.core, h.waitList_none hnb]
  · simp [Abs.core]
  · simp

theorem WF.setTask (h : a.WF) {f : TaskControlBlock → TaskControlBlock}
    (hstate : (f (a.tcb t)).state = (a.tcb t).state) (hwait : (f (a.tcb t)).waitList = (a.tcb t).waitList)
    (hprio : (f (a.tcb t)).priority = (a.tcb t).priority ∨
      (a.tcb t).state ≠ .ready ∧ (f (a.tcb t)).priority < kMaxPriorities)
    (hbase : (f (a.tcb t)).basePriority < kMaxPriorities) :
    (a.core (·.setTask t f)).WF where
  ok u := by
    by_cases hu : u = t
    · subst hu
      have htcb : (a.core (·.setTask u f)).tcb u = f (a.tcb u) := Function.update_self _ _ _
      have hplace : (a.core (·.setTask u f)).place u = a.place u := by
        unfold place placeOf
        rw [htcb, hstate, hwait]
        rcases hprio with hp | ⟨hn, -⟩
        · rw [hp]; rfl
        · cases hs : (a.tcb u).state with
          | ready => exact absurd hs hn
          | _ => rfl
      refine ⟨fun l => by rw [hplace]; exact (h.ok u).mem_seq l, fun hs => ?_, fun hb => ?_, fun hw => ?_,
        fun hr => ?_, ?_, ?_, fun hf => ?_⟩
      · rw [htcb, hstate]; exact (h.ok u).sleeps hs
      · rw [htcb, hstate] at hb
        rw [htcb, hwait]
        exact (h.ok u).blocked hb
      · rw [htcb, hwait] at hw
        rw [htcb, hstate]
        exact (h.ok u).waits hw
      · rw [htcb, hstate] at hr
        exact (h.ok u).running hr
      · rw [htcb]
        rcases hprio with hp | ⟨-, hp⟩
        · rw [hp]; exact (h.ok u).priority_lt
        · exact hp
      · rw [htcb]; exact hbase
      · rw [htcb, hstate, hwait]
        exact (h.ok u).fresh hf
    · refine (h.ok u).congr (fun _ => Iff.rfl) ?_ Iff.rfl rfl (h.ok u).running
      exact Function.update_of_ne hu _ _
  nodup := h.nodup
  sleepers_nodup := h.sleepers_nodup
  sleepers_sorted := h.sleepers_sorted
  count_le := h.count_le
  current_lt := h.current_lt

theorem WF.alloc (h : a.WF) (hlt : a.taskCount < a.config.kMaxTasks) : a.alloc.WF := by
  have hfresh := (h.ok a.taskCount).fresh (Nat.le_refl _)
  have hnot : ∀ l, a.taskCount ∉ a.seq l := fun l hm => Nat.lt_irrefl _ (h.lt_of_mem hm)
  refine ⟨fun u => ?_, h.nodup, h.sleepers_nodup, h.sleepers_sorted, hlt, fun u hu => ?_⟩
  · by_cases hu : u = a.taskCount
    · subst hu
      have htcb : a.alloc.tcb a.taskCount =
          { a.tcb a.taskCount with state := .suspended, waitList := none } := Function.update_self _ _ _
      refine ⟨fun l => ?_, fun hs => ?_, ?_, ?_, ?_, ?_, ?_, fun hf => ?_⟩
      · have hplace : a.alloc.place a.taskCount = none := by
          rw [place, if_pos (by simp [Abs.alloc, Abs.core]), placeOf, htcb]
        rw [hplace]
        exact iff_of_false (hnot l) (by simp)
      · have := (h.ok a.taskCount).sleeps hs
        rw [hfresh.1] at this
        cases this
      · rw [htcb]; simp
      · rw [htcb]; simp
      · rw [htcb]; simp
      · rw [htcb]; exact (h.ok _).priority_lt
      · rw [htcb]; exact (h.ok _).base_lt
      · exact absurd hf (by simp [Abs.alloc, Abs.core])
    · have htcb : a.alloc.tcb u = a.tcb u := Function.update_of_ne hu _ _
      have hcount : a.alloc.taskCount = a.taskCount + 1 := rfl
      have hplace : a.alloc.place u = a.place u := by
        rw [place, place, htcb, hcount]
        by_cases hlt : u < a.taskCount
        · rw [if_pos hlt, if_pos (Nat.lt_succ_of_lt hlt)]
        · rw [if_neg hlt, if_neg fun hc => (Nat.lt_succ_iff_lt_or_eq.mp hc).elim hlt hu]
      refine ⟨fun l => by rw [hplace]; exact (h.ok u).mem_seq l, ?_, ?_, ?_, ?_, ?_, ?_, fun hf => ?_⟩
      · rw [htcb]; exact (h.ok u).sleeps
      · rw [htcb]; exact (h.ok u).blocked
      · rw [htcb]; exact (h.ok u).waits
      · rw [htcb]; exact (h.ok u).running
      · rw [htcb]; exact (h.ok u).priority_lt
      · rw [htcb]; exact (h.ok u).base_lt
      · rw [htcb]; exact (h.ok u).fresh (Nat.le_of_succ_le hf)
  · exact Nat.lt_succ_of_lt (h.current_lt u hu)

theorem WF.countDown (h : a.WF) : a.countDown.WF := by
  have hnames : a.countDown.sleepers.map Prod.fst = a.sleepers.map Prod.fst := by
    simp [Abs.countDown, Function.comp_def]
  refine ⟨fun u => (h.ok u).congr (fun _ => Iff.rfl) rfl ?_ rfl (h.ok u).running, h.nodup, ?_, ?_,
    h.count_le, h.current_lt⟩
  · rw [Sleeps, hnames]; rfl
  · rw [hnames]; exact h.sleepers_nodup
  · refine List.pairwise_map.mpr (h.sleepers_sorted.imp fun hle => ?_)
    show _ - 1 ≤ _ - 1
    omega

theorem WF.setHeldBy (h : a.WF) (ms : List MutexId) : (a.setHeldBy t ms).WF :=
  ⟨fun u => (h.ok u).congr (fun _ => Iff.rfl) rfl Iff.rfl rfl (h.ok u).running, h.nodup, h.sleepers_nodup,
    h.sleepers_sorted, h.count_le, h.current_lt⟩

theorem WF.setOwner (h : a.WF) (m : MutexId) (o : Option Tid) : (a.core (·.setOwner m o)).WF :=
  ⟨fun u => (h.ok u).congr (fun _ => Iff.rfl) rfl Iff.rfl rfl (h.ok u).running, h.nodup, h.sleepers_nodup,
    h.sleepers_sorted, h.count_le, h.current_lt⟩

theorem Handing.Enabled.mem {hd : Handing} (he : hd.Enabled a t) : t ∈ a.seq (.wait hd.list) := by
  cases hd with
  | bits g => exact he.1
  | slot q p => exact List.mem_of_mem_head? he.1
  | _ => exact List.mem_of_mem_head? he

theorem WF.lt_of_sleeps (h : a.WF) (ht : a.Sleeps t) : t < a.taskCount :=
  h.lt_of_state (by simp [h.state_of_sleeps ht])

theorem WF.acquire (h : a.WF) (m : MutexId) : (a.acquire m t).WF := (h.setOwner m _).setHeldBy _

theorem WF.drop (h : a.WF) (m : MutexId) : (a.drop m t).WF := (h.setOwner m _).setHeldBy _

theorem WF.apply (h : a.WF) {act : Action} (he : act.Enabled a) : (act.apply a).WF := by
  cases act with
  | data d => exact h.core (d.alike he)
  | save t => exact h.setTask rfl rfl (Or.inl rfl) (h.ok t).base_lt
  | ready t => exact h.ready he.1 he.2
  | switch t =>
    obtain ⟨hnone, p, -, hhead⟩ := he
    have hmem := List.mem_of_mem_head? hhead
    rw [← (h.mem_ready.mp hmem).2.2] at hmem
    exact h.switch hmem hnone
  | alloc => exact h.alloc he
  | initTcb t site p =>
    refine (h.core ⟨rfl, rfl, rfl, rfl, rfl, id⟩).setTask rfl rfl (Or.inr ⟨?_, he.2.2.1⟩) he.2.2.1
    show (a.tcb t).state ≠ .ready
    simp [he.2.1]
  | sleep t n => exact h.sleep he.1 he.2.1
  | countDown => exact h.countDown
  | expire t =>
    obtain ⟨rest, hrest⟩ := he
    exact h.expire (h.lt_of_sleeps (by simp [Sleeps, hrest]))
  | retire t st =>
    rcases he with ⟨hlt, -, hst⟩ | ⟨hlt, hst⟩
    · exact h.retire hlt (Or.inl hst)
    · exact h.retire hlt (Or.inr hst)
  | park w t timeout =>
    obtain ⟨hlt, hs, -, hw⟩ := he
    refine h.park hlt hs fun m hm o ho => ?_
    subst hm
    obtain ⟨o', ho', -, hlt'⟩ := hw
    rw [ho] at ho'
    cases ho'
    exact hlt'
  | hand hd t =>
    have halike := hd.alike t a.toCore
    refine (h.core halike).wake ?_
    rw [show (a.core (hd.run t)).taskCount = a.taskCount from halike.taskCount]
    exact h.lt_of_mem (Handing.Enabled.mem he)
  | acquire m t => exact h.acquire m
  | release m t => exact (h.drop m).restore (h.lt_of_state (by simp [he.2.1]))
  | pass m t next =>
    exact (((h.drop m).acquire m).wake (h.lt_of_mem (List.mem_of_mem_head? he.2.2))).restore
      (h.lt_of_state (by simp [he.2.1]))

end Abs

theorem Runs.wf {v : Visit} {a a' : Abs} {acts : List Action} (h : Runs v a acts a') (ha : a.WF) :
    a'.WF :=
  h.invariant ha fun _ _ _ hb he _ => hb.apply he

/-- What every action of a visit keeps in a well-formed kernel, the visit keeps. -/
theorem Runs.keeps {P : Abs → Prop} {v : Visit} {a a' : Abs} {acts : List Action} (h : Runs v a acts a') (hwf : a.WF)
    (hp : P a)
    (hstep : ∀ (act : Action) (b : Abs), b.WF → P b → act.Enabled b → act.Fits v b → P (act.apply b)) :
    P a' := by
  have hall : a'.WF ∧ P a' := by
    refine h.invariant (P := fun b => b.WF ∧ P b) ⟨hwf, hp⟩ ?_
    rintro act - b ⟨hwf, hp⟩ he hf
    exact ⟨hwf.apply he, hstep act b hwf hp he hf⟩
  exact hall.2

end AcRtos
