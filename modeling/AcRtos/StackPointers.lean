import AcRtos.Board
import AcRtos.StrictPriority

/-!
# Saved stack pointers

Where the kernel keeps the stack of a task: `stack_base` and `sp` are written by `create_task_impl` and `sp` by
`schedule_next_task`, by nothing else (`Inv.stack_step`). PendSV saves `current_sp` for the outgoing task and hands out
that of the task it dispatches (`Inv.switches`), which `create_task` has given a stack (`Stacked`).
-/

namespace AcRtos

open Abs

section
variable {v : Visit} {a a' : Abs} {acts : List Action} {act : Action} {u : Tid}

theorem Abs.stack_apply (h : a.WF) (he : act.Enabled a) (hf : act.Fits v a) (hv : v.entry ≠ .pendSV)
    (hb : ∀ x f p, v.before ≠ .create (.init u) x f p) :
    ((act.apply a).tcb u).sp = (a.tcb u).sp ∧ ((act.apply a).tcb u).stackBase = (a.tcb u).stackBase := by
  rw [apply_tcb h he]
  cases act with
  | data d => exact ⟨rfl, rfl⟩
  | countDown => exact ⟨rfl, rfl⟩
  | acquire m t => exact ⟨rfl, rfl⟩
  | save t => exact absurd hf.1 hv
  | initTcb t x p =>
    obtain ⟨f, hbefore⟩ := hf
    have hne : u ≠ t := by
      rintro rfl
      exact hb _ _ _ hbefore
    simp only [Action.tcb, if_neg hne, and_self]
  | park w t timeout =>
    simp only [Action.tcb]
    split
    · cases w <;> exact ⟨rfl, rfl⟩
    · exact ⟨rfl, rfl⟩
  | pass m t next =>
    simp only [Action.tcb]
    split
    · exact ⟨rfl, rfl⟩
    · split <;> exact ⟨rfl, rfl⟩
  | expire t =>
    simp only [Action.tcb]
    split
    · exact ⟨(unparked_keeps _).1, (unparked_keeps _).2.1⟩
    · exact ⟨rfl, rfl⟩
  | retire t st =>
    simp only [Action.tcb]
    split
    · exact ⟨(unparked_keeps _).1, (unparked_keeps _).2.1⟩
    · exact ⟨rfl, rfl⟩
  | _ =>
    simp only [Action.tcb]
    split <;> exact ⟨rfl, rfl⟩

theorem Runs.stack (h : Runs v a acts a') (hwf : a.WF) (hv : v.entry ≠ .pendSV)
    (hb : ∀ x f p, v.before ≠ .create (.init u) x f p) :
    (a'.tcb u).sp = (a.tcb u).sp ∧ (a'.tcb u).stackBase = (a.tcb u).stackBase := by
  induction acts generalizing a with
  | nil =>
    obtain rfl : a' = a := h
    exact ⟨rfl, rfl⟩
  | cons act acts ih =>
    obtain ⟨he, hf, hrest⟩ := h
    obtain ⟨hsp, hbase⟩ := ih hrest (hwf.apply he)
    have hstep := stack_apply (u := u) hwf he hf hv hb
    exact ⟨hsp.trans hstep.1, hbase.trans hstep.2⟩

end

section
variable {s s' : Sys} {a : Abs} {e : Event} {t u : Tid} {x : Site} {f : Callable} {p : Nat}

theorem Sys.visit_entry (hne : ∀ psp, e ≠ .pendSV psp) : (s.visit e s').entry ≠ .pendSV := by
  cases e with
  | pendSV psp => exact absurd rfl (hne psp)
  | _ => simp [Sys.visit, Visit.call, Visit.handler, Visit.sysTick]

theorem Sys.visit_create {phase : CreatePhase} (hs : s.step e = some s')
    (hb : (s.visit e s').before = .create phase x f p) : e = .advance ∧ s.pc s.k.self = .create phase x f p := by
  cases e with
  | call c =>
    have huser : s.pc s.k.self = .user := (Sys.step_call.mp hs).2.2.1
    cases huser.symm.trans hb
  | advance => exact ⟨rfl, hb⟩
  | _ => cases hb

theorem Inv.stack_step (h : Inv s a) (hs : s.step e = some s') (hne : ∀ psp, e ≠ .pendSV psp)
    (hno : e = .advance → ∀ x f p, s.pc s.k.self ≠ .create (.init u) x f p) :
    (s'.k.tcb u).sp = (s.k.tcb u).sp ∧ (s'.k.tcb u).stackBase = (s.k.tcb u).stackBase := by
  obtain ⟨acts, a', hruns, hinv⟩ := h.step hs
  rw [h.rep.core_eq, hinv.rep.core_eq]
  refine hruns.stack h.wf (Sys.visit_entry hne) fun x f p hb => ?_
  obtain ⟨he, hpc⟩ := Sys.visit_create hs hb
  exact hno he x f p hpc

theorem Inv.current_step (h : Inv s a) (hs : s.step e = some s') (hne : ∀ psp, e ≠ .pendSV psp) :
    s'.k.currentTask = s.k.currentTask := by
  obtain ⟨acts, a', hruns, hinv⟩ := h.step hs
  rw [h.rep.core_eq, hinv.rep.core_eq]
  exact (hruns.passes h.wf).current (Sys.visit_entry hne)

theorem initTcb_step (hs : s.step .advance = some s') (hpc : s.pc s.k.self = .create (.init t) x f p) :
    (s'.k.tcb t).sp = .initial x ∧ (s'.k.tcb t).stackBase = some x ∧ ∀ u, u ≠ t → s'.k.tcb u = s.k.tcb u := by
  rw [advance_of_create hs hpc]
  refine ⟨?_, ?_, fun u hu => ?_⟩
  · simp [Sys.advanceCreate, Scheduler.initTcb, Sys.setPc, Sys.setK]
  · simp [Sys.advanceCreate, Scheduler.initTcb, Sys.setPc, Sys.setK]
  · simp [Sys.advanceCreate, Scheduler.initTcb, Sys.setPc, Sys.setK, Function.update_of_ne hu]

/-! ### Every task that was ever ready has a stack -/

/-- The control blocks without a stack are those that are still being built. -/
structure Stacked (s : Sys) : Prop where
  lt : ∀ t x, (s.k.tcb t).stackBase = some x → t < s.k.taskCount
  built : ∀ t < s.k.taskCount, (s.k.tcb t).stackBase = none → ∃ c x f p, s.pc c = .create (.init t) x f p
  fresh : ∀ c t x f p, s.pc c = .create (.init t) x f p → (s.k.tcb t).stackBase = none

theorem Stacked.init (config : Config) : Stacked (Sys.init config) where
  lt t x ht := by cases ht
  built t ht := absurd ht (Nat.not_lt_zero t)
  fresh c t x f p hpc := by cases hpc

theorem check_taskCount (x : Assertion) (b : Bool) (k : Kernel) : (k.check x b).taskCount = k.taskCount := by
  rw [Kernel.check_eq, Kernel.core_toCore, Core.check]
  split <;> rfl

theorem allocate_count (p : Nat) (k : Kernel) :
    (Scheduler.allocate p k).1 = none ∧ (Scheduler.allocate p k).2.taskCount = k.taskCount ∨
    (Scheduler.allocate p k).1 = some k.taskCount ∧ (Scheduler.allocate p k).2.taskCount = k.taskCount + 1 := by
  unfold Scheduler.allocate Scheduler.allocateTcb
  simp only
  split
  · exact Or.inl ⟨rfl, check_taskCount _ _ _⟩
  · split
    · exact Or.inl ⟨rfl, (check_taskCount _ _ _).trans (check_taskCount _ _ _)⟩
    · refine Or.inr ⟨congrArg some (check_taskCount _ _ _), (check_taskCount _ _ _).trans ?_⟩
      show (k.check .priorityRange _).taskCount + 1 = _
      rw [check_taskCount]

theorem Inv.pc_other (h : Inv s a) (hs : s.step e = some s') {c : Ctx}
    (hc : (∃ y, e = .call y) ∨ e = .advance → c ≠ s.k.self) : s'.pc c = s.pc c := by
  cases e with
  | call y => exact h.pc_step hs (hc (Or.inl ⟨y, rfl⟩))
  | advance => exact h.pc_step hs (hc (Or.inr rfl))
  | tick => obtain ⟨-, -, -, rfl⟩ := Sys.step_tick.mp hs; rfl
  | isr y z => obtain ⟨-, -, -, -, rfl⟩ := Sys.step_isr.mp hs; rfl
  | pendSV psp => obtain ⟨-, -, -, rfl⟩ := Sys.step_pendSV.mp hs; rfl

theorem Inv.init_step (h : Inv s a) (hs : s.step e = some s') {c : Ctx} (hc : s'.pc c = .create (.init t) x f p) :
    s.pc c = .create (.init t) x f p ∨
    c = s.k.self ∧ e = .advance ∧ s.pc s.k.self = .create .alloc x f p ∧ t = s.k.taskCount := by
  by_cases hown : ((∃ y, e = .call y) ∨ e = .advance) ∧ c = s.k.self
  swap
  · exact Or.inl ((h.pc_other hs fun he heq => hown ⟨he, heq⟩).symm.trans hc)
  obtain ⟨⟨y, rfl⟩ | rfl, rfl⟩ := hown
  · obtain ⟨-, -, -, -, -, rfl⟩ := Sys.step_call.mp hs
    cases beginCall_create hc
  obtain ⟨-, -, hgo⟩ := Sys.step_advance.mp hs
  by_cases hcreate : ∃ phase y g q, s.pc s.k.self = .create phase y g q
  swap
  · exact absurd hc (advance_create hgo fun phase y g q hpc => hcreate ⟨phase, y, g, q, hpc⟩)
  obtain ⟨phase, y, g, q, hpc⟩ := hcreate
  have hs' := advance_of_create hs hpc
  have hgoto : ∀ (s₁ : Sys) (p₁ : Pc), (s₁.setPc s.k.self p₁).pc s.k.self = p₁ :=
    fun s₁ p₁ => Function.update_self _ _ _
  have hcreated : ∀ (z : Option Tid) (k : Kernel),
      (s.created s.k.self y z k).pc s.k.self ≠ .create (.init t) x f p := by
    intro z k hz
    unfold Sys.created at hz
    split at hz <;> cases (hgoto _ _).symm.trans hz
  rw [hs'] at hc
  cases phase with
  | alloc =>
    simp only [Sys.advanceCreate] at hc
    rcases allocate_count q s.k with ⟨hfst, -⟩ | ⟨hfst, -⟩ <;> simp only [hfst] at hc
    · exact absurd hc (hcreated _ _)
    · cases (hgoto _ _).symm.trans hc
      exact Or.inr ⟨rfl, rfl, hpc, rfl⟩
  | testFlag =>
    simp only [Sys.advanceCreate] at hc
    split at hc
    · exact absurd hc (hcreated _ _)
    · cases (hgoto _ _).symm.trans hc
  | ready u =>
    simp only [Sys.advanceCreate] at hc
    split at hc <;> cases (hgoto _ _).symm.trans hc
  | preempt u =>
    simp only [Sys.advanceCreate] at hc
    split at hc <;> exact absurd hc (hcreated _ _)
  | _ => cases (hgoto _ _).symm.trans hc

theorem Inv.stacked_step (h : Inv s a) (hs : s.step e = some s') (hst : Stacked s) : Stacked s' := by
  have hgrow : s.k.taskCount ≤ s'.k.taskCount := by
    obtain ⟨acts, a', hruns, hinv⟩ := h.step hs
    rw [h.rep.core_eq, hinv.rep.core_eq]
    exact (hruns.passes h.wf).count_le
  by_cases hinit : e = .advance ∧ ∃ u x f p, s.pc s.k.self = .create (.init u) x f p
  · obtain ⟨rfl, u, x, f, p, hpc⟩ := hinit
    obtain ⟨-, hu, hothers⟩ := initTcb_step hs hpc
    have hcount : s'.k.taskCount = s.k.taskCount := by
      rw [advance_of_create hs hpc]
      rfl
    refine ⟨fun t y ht => ?_, fun t hlt hnone => ?_, fun c t y g q hc => ?_⟩
    rotate_left 2
    · have hold := (h.init_step hs hc).resolve_right fun hal => by cases hpc.symm.trans hal.2.2.1
      have hne : t ≠ u := by
        rintro rfl
        have hself := h.control.builds c s.k.self t (by rw [hold]; rfl) (by rw [hpc]; rfl)
        rw [hself, advance_of_create hs hpc] at hc
        cases (Function.update_self s.k.self _ s.pc).symm.trans hc
      rw [hothers t hne]
      exact hst.fresh c t y g q hold
    · by_cases hne : t = u
      · subst hne
        have hbuilds := h.control.building (c := s.k.self) (t := t) (by rw [hpc]; rfl)
        rw [hcount, h.rep.core_eq]
        exact hbuilds.lt
      · rw [hothers t hne] at ht
        exact lt_of_lt_of_le (hst.lt t y ht) hgrow
    have hne : t ≠ u := by
      rintro rfl
      rw [hu] at hnone
      cases hnone
    rw [hothers t hne] at hnone
    obtain ⟨c, y, g, q, hc⟩ := hst.built t (hcount ▸ hlt) hnone
    refine ⟨c, y, g, q, (h.pc_other hs fun _ => ?_).trans hc⟩
    rintro rfl
    rw [hpc] at hc
    cases hc
    exact hne rfl
  · have hbase : ∀ u, (s'.k.tcb u).stackBase = (s.k.tcb u).stackBase := by
      intro u
      by_cases hp : ∃ psp, e = .pendSV psp
      · obtain ⟨psp, rfl⟩ := hp
        exact (quiet_writes .isr hs (Or.inr ⟨psp, rfl⟩)).1.stackBase u
      · exact (h.stack_step hs (fun psp he => hp ⟨psp, he⟩) fun he x f p hpc => hinit ⟨he, u, x, f, p, hpc⟩).2
    refine ⟨fun t y ht => lt_of_lt_of_le (hst.lt t y (by rw [← hbase]; exact ht)) hgrow, fun t hlt hnone => ?_,
      fun c t y g q hc => ?_⟩
    rotate_left
    · rw [hbase]
      rcases h.init_step hs hc with hold | ⟨-, -, -, rfl⟩
      · exact hst.fresh c t y g q hold
      · exact Option.eq_none_iff_forall_ne_some.mpr fun z hz => absurd (hst.lt _ z hz) (lt_irrefl _)
    by_cases hold : t < s.k.taskCount
    · obtain ⟨c, x, f, p, hc⟩ := hst.built t hold (by rw [← hbase]; exact hnone)
      refine ⟨c, x, f, p, (h.pc_other hs fun he => ?_).trans hc⟩
      rintro rfl
      rcases he with ⟨y, rfl⟩ | rfl
      · have huser : s.pc s.k.self = .user := (Sys.step_call.mp hs).2.2.1
        cases huser.symm.trans hc
      · exact hinit ⟨rfl, t, x, f, p, hc⟩
    · -- a control block more: `allocate_tcb` has just made it
      have hgrows : s'.k.taskCount ≠ s.k.taskCount := by omega
      obtain ⟨acts, a', hruns, hinv⟩ := h.step hs
      rw [h.rep.core_eq, hinv.rep.core_eq] at hgrows
      obtain ⟨-, x, f, p, hb⟩ := (hruns.passes h.wf).count.resolve_left hgrows
      obtain ⟨rfl, hpc⟩ := Sys.visit_create hs hb
      have hs' := advance_of_create hs hpc
      simp only [Sys.advanceCreate] at hs'
      rcases allocate_count p s.k with ⟨hfst, hcount⟩ | ⟨hfst, hcount⟩
      · rw [hfst] at hs'
        simp only at hs'
        have : s'.k.taskCount = s.k.taskCount := by
          rw [hs', ← hcount]
          unfold Sys.created
          split
          · exact check_taskCount _ _ _
          · rfl
        omega
      · rw [hfst] at hs'
        simp only at hs'
        have hnew : t = s.k.taskCount := by
          have : s'.k.taskCount = s.k.taskCount + 1 := by rw [hs']; exact hcount
          omega
        refine ⟨s.k.self, x, f, p, ?_⟩
        rw [hs', hnew]
        exact Function.update_self _ _ _

theorem Inv.has_stack (h : Inv s a) (hst : Stacked s) (hlt : t < s.k.taskCount)
    (hs : (s.k.tcb t).state ≠ .suspended) : ∃ x, (s.k.tcb t).stackBase = some x := by
  cases hb : (s.k.tcb t).stackBase with
  | some x => exact ⟨x, rfl⟩
  | none =>
    obtain ⟨c, x, f, p, hc⟩ := hst.built t hlt hb
    have hbuilds := h.control.building (c := c) (t := t) (by rw [hc]; rfl)
    rw [h.rep.core_eq] at hs
    exact absurd hbuilds.suspended hs

theorem Inv.current_stack (h : Inv s a) (hst : Stacked s) (hcur : s.k.currentTask = some t) :
    ∃ x, (s.k.tcb t).stackBase = some x := by
  rw [h.rep.core_eq] at hcur
  cases hb : (s.k.tcb t).stackBase with
  | some x => exact ⟨x, rfl⟩
  | none =>
    obtain ⟨c, x, f, p, hc⟩ := hst.built t (by rw [h.rep.core_eq]; exact h.wf.current_lt t hcur) hb
    have hbuilds := h.control.building (c := c) (t := t) (by rw [hc]; rfl)
    rcases (h.control.current t hcur).2 with hmem | hidle
    · exact absurd hmem hbuilds.unnamed
    · exact absurd hidle hbuilds.not_idle

/-! ### PendSV -/

theorem Abs.saveSp_sp (c u : Tid) : ((a.saveSp c).tcb u).sp = if u = c then a.currentSp else (a.tcb u).sp := by
  have hcheck : (a.check .stackOverflow (Scheduler.stackIntact c a.toCore)).tcb = a.tcb ∧
      (a.check .stackOverflow (Scheduler.stackIntact c a.toCore)).currentSp = a.currentSp := by
    unfold Core.check
    split <;> exact ⟨rfl, rfl⟩
  simp only [Abs.saveSp, core_toCore, Core.setTask_tcb, Function.update_apply, hcheck.1, hcheck.2]
  split <;> rfl

theorem Abs.putBack_sp (u : Tid) :
    (a.putBack.tcb u).sp = if a.currentTask = some u then a.currentSp else (a.tcb u).sp := by
  unfold Abs.putBack
  cases hcur : a.currentTask with
  | none => simp
  | some c =>
    have hsave := Abs.saveSp_sp (a := a) c u
    have hif : (if some c = some u then a.currentSp else (a.tcb u).sp) =
        if u = c then a.currentSp else (a.tcb u).sp := by
      by_cases hu : u = c
      · rw [if_pos (by rw [hu]), if_pos hu]
      · rw [if_neg fun heq => hu (Option.some.inj heq).symm, if_neg hu]
    rw [hif, ← hsave]
    simp only
    split
    · rw [Abs.ready, move_tcb]
      split <;> rfl
    · rfl

/-- PendSV saves the stack pointer of the task that it takes the CPU from, and hands out the one of the next task. -/
theorem Inv.switches (h : Inv s a) (hst : Stacked s) {psp : Nat} (hs : s.step (.pendSV psp) = some s') :
    ∃ next x, s'.k.currentTask = some next ∧ (s.k.tcb next).stackBase = some x ∧
      s'.k.currentSp = (s'.k.tcb next).sp ∧
      (∀ t, s.k.currentTask ≠ some t → (s'.k.tcb t).sp = (s.k.tcb t).sp) ∧
      ∀ t, s.k.currentTask = some t → psp ≠ 0 → (s'.k.tcb t).sp = .psp psp := by
  obtain ⟨-, hpend, -, hs'⟩ := Sys.step_pendSV.mp hs
  obtain ⟨next, hnext, hrun, hbefore, -, hcount, -⟩ := h.dispatches hs
  obtain ⟨c, p, acts, hruns, -, -, -, hrep⟩ := h.dispatch hpend psp
  replace hrep : Rep s'.k ((a.storeSp psp).putBack.switch c) := by
    rw [hs']
    exact hrep
  obtain ⟨hsame, hcur, -⟩ := storeSp_core (a := a) psp
  have hput := fun u => Abs.putBack_sp (a := a.storeSp psp) u
  rw [hsame, hcur] at hput
  have hsp : ∀ u, (((a.storeSp psp).putBack.switch c).tcb u).sp = ((a.storeSp psp).putBack.tcb u).sp := fun u => by
    rw [Abs.switch, move_tcb]
    split <;> rfl
  have hlt : next < s.k.taskCount := by
    obtain ⟨acts, a', -, hinv⟩ := h.step hs
    rw [hinv.rep.core_eq] at hnext hcount
    exact hcount ▸ hinv.wf.current_lt next hnext
  obtain ⟨x, hx⟩ := h.has_stack hst hlt fun hsus => by
    rcases hbefore with hb | hb <;> cases hsus.symm.trans hb
  refine ⟨next, x, hnext, hx, ?_, fun t ht => ?_, fun t ht hpsp => ?_⟩
  · rw [hrep.core_eq] at hnext ⊢
    cases hnext
    show ((a.storeSp psp).putBack.tcb next).sp = _
    exact (hsp next).symm
  · rw [h.rep.core_eq] at ht
    rw [hrep.core_eq, h.rep.core_eq, hsp, hput, if_neg ht]
  · rw [h.rep.core_eq] at ht
    rw [hrep.core_eq, hsp, hput, if_pos ht, Abs.storeSp, if_neg hpsp]
    rfl

end

end AcRtos
