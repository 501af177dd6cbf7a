import AcRtos.ListMembership

/-!
# What `resume_task` does

The documentation of `Task::resume()` promises no effect on tasks in other states than `Suspended`. The section
of `resume_task` keeps this promise, but the assertion in front of it fails for every task that sleeps, in a
delay or in a timed wait.
-/

namespace AcRtos

open Abs

namespace Scheduler

/-- `resume_task` from its assertion to its `task_yield()`, when nothing comes between them. -/
def resumeTaskWhole (task : Tid) (k : Kernel) : Outcome × Kernel :=
  resumeTask task (k.check .resumeInDelayList (!k.delay.inDelayList task))

end Scheduler

namespace Kernel

/-- The suspended task `t` becomes the last one of the ready list of its priority, and `y` says whether it
preempts the current task. -/
structure Resumed (k : Kernel) (t : Tid) (y : Bool) (k' : Kernel) : Prop where
  core : k'.toCore = k.toCore.setTask t fun c => { c with state := .ready }
  enters : k'.members (.ready (k.tcb t).priority) = k.members (.ready (k.tcb t).priority) ++ [t]
  lists : ∀ l, l ≠ .ready (k.tcb t).priority → k'.members l = k.members l
  mask : ∀ p < kMaxPriorities,
    k'.readyBitmask.getLsbD p = (k.readyBitmask.getLsbD p || decide (p = (k.tcb t).priority))
  delay : k'.delay = k.delay
  held : k'.held = k.held
  yield : y = true ↔ ∃ c, k.currentTask = some c ∧ (k.tcb c).priority < (k.tcb t).priority

/-- The documented effect of `resume_task(t)`. -/
structure ResumesAsTold (k : Kernel) (t : Tid) : Prop where
  other : (k.tcb t).state ≠ .suspended → Scheduler.resumeTaskWhole t k = (.ret .unit false, k)
  suspended : (k.tcb t).state = .suspended →
    ∃ y k', Scheduler.resumeTaskWhole t k = (.ret .unit y, k') ∧ k.Resumed t y k'

end Kernel

section
variable {k : Kernel} {a : Abs} {t : Tid}

/-- `started_ && current_task_ != nullptr && …` once a current task means that the scheduler has started. -/
theorem Core.preempts_iff {e : Core} (hs : ∀ c, e.currentTask = some c → e.started = true) :
    e.preempts t = true ↔ ∃ c, e.currentTask = some c ∧ (e.tcb c).priority < (e.tcb t).priority := by
  unfold Core.preempts
  cases hcur : e.currentTask with
  | none => simp
  | some c => simp [hs c hcur]

theorem Rep.resumed (h : Rep k a) (hwf : a.WF) (hs : (a.tcb t).state = .suspended)
    (hstarted : ∀ c, a.currentTask = some c → a.started = true) :
    ∃ y k', Scheduler.resumeTask t k = (.ret .unit y, k') ∧ k.Resumed t y k' := by
  have hready := h.ready hwf (Or.inl hs)
  have hwf' : (a.ready t).WF := hwf.ready (hwf.lt_of_state (by simp [hs])) (Or.inl hs)
  have hfresh := hwf.fresh_of_state (t := t) (by simp [hs]) (by simp [hs])
  have hstate : (k.tcb t).state = .suspended := by rw [h.core_eq]; exact hs
  have hcheck : (decide (((k.setTask t fun c => { c with state := .ready }).tcb t).priority < kMaxPriorities)) =
      true := by
    rw [decide_eq_true_iff, Kernel.setTask_eq, Kernel.core_toCore, h.core_eq]
    simpa using (hwf.ok t).priority_lt
  refine ⟨_, _, by rw [Scheduler.resumeTask, if_neg (not_not.mpr hstate)], ?_, ?_, ?_, ?_, ?_, ?_, ?_⟩
  · rw [hready.core_eq, h.core_eq]
    rfl
  · rw [hready.members_eq hwf', h.members_eq hwf, h.core_eq, Abs.ready]
    simp [Abs.move, List.erase_of_not_mem (hfresh _)]
  · intro l hl
    rw [h.core_eq] at hl
    rw [hready.members_eq hwf', h.members_eq hwf, Abs.ready]
    simp [Abs.move, Function.update_of_ne hl, List.erase_of_not_mem (hfresh _)]
  · intro p hp
    simp only [ReadyManager.add, hcheck, Rep.check_true, Kernel.setMask_readyBitmask]
    rw [ReadyMask.set_getLsbD hp]
    simp
  · simp only [ReadyManager.add, hcheck, Rep.check_true]
    rfl
  · simp only [ReadyManager.add, hcheck, Rep.check_true]
    rfl
  · rw [hready.core_eq, h.core_eq]
    rw [show (a.ready t).preempts t = a.preempts t from preempts_ready]
    exact Core.preempts_iff hstarted

theorem resumeTaskWhole_fault (hf : k.fault = none) (hassert : k.config.useAssert = true)
    (hin : k.delay.inDelayList t = true) (hs : (k.tcb t).state ≠ .suspended) :
    (Scheduler.resumeTaskWhole t k).2.fault = some (.assert .resumeInDelayList) := by
  unfold Scheduler.resumeTaskWhole Scheduler.resumeTask
  simp [Core.check, hassert, hin, hs, hf]

theorem not_resumesAsTold (hf : k.fault = none) (hassert : k.config.useAssert = true)
    (hin : k.delay.inDelayList t = true) (hs : (k.tcb t).state ≠ .suspended) : ¬ k.ResumesAsTold t := by
  intro htold
  have hfail := resumeTaskWhole_fault hf hassert hin hs
  rw [htold.other hs, hf] at hfail
  cases hfail

end

/-- `resume_task` has exactly its documented effect when its task is in no delay list, or with the assertions
compiled out. -/
theorem resume_as_told {config : Config} {s : Sys} (h : Reachable config s) (hf : s.k.fault = none) (t : Tid) :
    s.k.ResumesAsTold t ↔ (s.k.delay.inDelayList t = false ∨ s.k.config.useAssert = false) := by
  obtain ⟨a, htracks⟩ := h.tracks
  have hi := htracks.inv
  have hin : s.k.delay.inDelayList t = true ↔ a.Sleeps t := hi.rep.delay.mem_iff t
  constructor
  · intro htold
    by_contra hboth
    simp only [not_or, Bool.not_eq_false] at hboth
    obtain ⟨hsleeps, hassert⟩ := hboth
    have hblocked : (s.k.tcb t).state = .blocked := by
      rw [hi.rep.core_eq]
      exact hi.wf.state_of_sleeps (hin.mp hsleeps)
    exact not_resumesAsTold hf hassert hsleeps (by simp [hblocked]) htold
  · intro hok
    have hcheck : s.k.check .resumeInDelayList (!s.k.delay.inDelayList t) = s.k := by
      rcases hok with hout | hassert
      · rw [hout, Bool.not_false, Rep.check_true]
      · simp [Core.check, hassert, Kernel.core]
    refine ⟨fun hs => ?_, fun hs => ?_⟩
    · rw [Scheduler.resumeTaskWhole, hcheck, Scheduler.resumeTask, if_pos hs]
    · rw [hi.rep.core_eq] at hs
      rw [Scheduler.resumeTaskWhole, hcheck]
      exact hi.rep.resumed hi.wf hs fun c hc => (hi.control.current c hc).1

/-- One task delays itself and another one resumes it. -/
def Sys.resumeRun : List Event :=
  createRun 1 3 ++ createRun 2 2 ++ startRun ++ [.call (.delayMs 5), .advance, .pendSV 0]

theorem resume_fails : ∃ s s', Sys.run (Sys.init .small) Sys.resumeRun = some s ∧
    (s.k.tcb 0).state = .blocked ∧ s.step (.call (.resume (some 0))) = some s' ∧
    s'.k.fault = some (.assert .resumeInDelayList) ∧ ¬ s.k.ResumesAsTold 0 := by
  have hrun : ((Sys.run (Sys.init .small) Sys.resumeRun).map fun s => ((s.k.tcb 0).state, s.k.fault,
      s.k.delay.inDelayList 0, s.k.config.useAssert, (s.step (.call (.resume (some 0)))).map fun s' => s'.k.fault)) =
      some (.blocked, none, true, true, some (some (.assert .resumeInDelayList))) := by decide +kernel
  obtain ⟨s, hs, hstate⟩ := Option.map_eq_some_iff.mp hrun
  simp only [Prod.mk.injEq] at hstate
  obtain ⟨hblocked, hf, hin, hassert, hstep⟩ := hstate
  obtain ⟨s', hs', hfault⟩ := Option.map_eq_some_iff.mp hstep
  exact ⟨s, s', hs, hblocked, hs', hfault, not_resumesAsTold hf hassert hin (by simp [hblocked])⟩

/-- The running task suspends the other one. -/
def Sys.suspendRun : List Event :=
  createRun 1 3 ++ createRun 2 2 ++ startRun ++ [.call (.suspend (some 1)), .advance, .advance]

/-- The suspended task and the running one are resumed. -/
theorem resume_as_told_suspended : ∃ s y k', Sys.run (Sys.init .small) Sys.suspendRun = some s ∧
    (s.k.tcb 1).state = .suspended ∧ Scheduler.resumeTaskWhole 1 s.k = (.ret .unit y, k') ∧ s.k.Resumed 1 y k' ∧
    (s.k.tcb 0).state = .running ∧ s.k.ResumesAsTold 0 := by
  have hrun : ((Sys.run (Sys.init .small) Sys.suspendRun).map fun s => (s.k.fault, (s.k.tcb 1).state,
      s.k.delay.inDelayList 1, (s.k.tcb 0).state, s.k.delay.inDelayList 0)) =
      some (none, .suspended, false, .running, false) := by decide +kernel
  obtain ⟨s, hs, hstate⟩ := Option.map_eq_some_iff.mp hrun
  simp only [Prod.mk.injEq] at hstate
  obtain ⟨hfault, hsuspended, hout, hrunning, hawake⟩ := hstate
  have htold := resume_as_told (Reachable.run .init hs) hfault
  obtain ⟨y, k', hwhole, hresumed⟩ := ((htold 1).mpr (Or.inl hout)).suspended hsuspended
  exact ⟨s, y, k', hs, hsuspended, hwhole, hresumed, hrunning, (htold 0).mpr (Or.inl hawake)⟩

end AcRtos
