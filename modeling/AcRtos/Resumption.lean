import AcRtos.Contexts
import AcRtos.Flow

/-!
# Resumption

What the port gives to the tasks on the boards that good steps reach: a task goes on with the registers it was left with
(`context_kept`) and begins at its trampoline (`starts_at_trampoline`), its stack stays its own (`stacks_hold`), and the
board does what the machine does, PRIMASK being set as long as a critical section is open (`board_refines`).
-/

namespace AcRtos

open Lib.Cortex

/-! ### Critical sections and `start()` in the machine -/

section
variable {s s' : Sys} {a : Abs} {c : Ctx} {e : Event}

theorem created_cs (x : Site) (h : Option Tid) (k : Kernel) : (s.created c x h k).cs = s.cs := by
  unfold Sys.created
  split <;> rfl

theorem beginCall_cs (y : Call) : (s.beginCall c y).cs =
    match y with
    | .enterCritical => s.cs + 1
    | .exitCritical => s.cs - 1
    | _ => s.cs := by
  cases y with
  | suspend t => cases t <;> rfl
  | resume t => cases t <;> rfl
  | terminate t => cases t <;> rfl
  | start =>
    simp only [Sys.beginCall]
    split <;> rfl
  | waitBits g mask all clear ms =>
    simp only [Sys.beginCall]
    split
    · rfl
    · split <;> rfl
  | _ => rfl

theorem advance_cs (h : s.advance c = some s') : s'.cs = s.cs := by
  unfold Sys.advance at h
  cases hpc : s.pc c with
  | user => simp [hpc] at h
  | halted => simp [hpc] at h
  | create phase x f p =>
    simp only [hpc] at h
    cases h
    cases phase with
    | testFlag =>
      simp only [Sys.advanceCreate]
      split
      · exact created_cs _ _ _
      · rfl
    | alloc =>
      simp only [Sys.advanceCreate]
      split
      · exact created_cs _ _ _
      · rfl
    | ready t =>
      simp only [Sys.advanceCreate]
      split <;> rfl
    | preempt t =>
      simp only [Sys.advanceCreate]
      split <;> exact created_cs _ _ _
    | _ => rfl
  | waitBody g mask all clear ms =>
    simp only [hpc] at h
    split at h <;> cases h
    rfl
  | finish w =>
    simp only [hpc] at h
    split at h <;> cases h
    rfl
  | _ =>
    simp only [hpc] at h
    cases h
    rfl

theorem step_cs (hs : s.step e = some s') (he : e ≠ .call .enterCritical) (he' : e ≠ .call .exitCritical) :
    s'.cs = s.cs := by
  cases e with
  | call y =>
    obtain ⟨-, -, -, -, -, rfl⟩ := Sys.step_call.mp hs
    rw [beginCall_cs]
    cases y <;> first | rfl | exact absurd rfl he | exact absurd rfl he'
  | advance => exact advance_cs (Sys.step_advance.mp hs).2.2
  | tick => obtain ⟨-, -, -, rfl⟩ := Sys.step_tick.mp hs; rfl
  | isr y z => obtain ⟨-, -, -, -, rfl⟩ := Sys.step_isr.mp hs; rfl
  | pendSV psp => obtain ⟨-, -, -, rfl⟩ := Sys.step_pendSV.mp hs; rfl

theorem beginCall_halted {y : Call} (h : (s.beginCall c y).pc c = .halted) : s.k.started = true := by
  have hbegins := Sys.beginCall_begins (s := s) (c := c) y
  rw [h] at hbegins
  cases hbegins with
  | settled p h => cases h
  | startedTwice h => exact h

theorem advance_halted (h : s.advance c = some s') (hhalt : s'.pc c = .halted) : s.pc c = .startYield := by
  have hgoes := Sys.advance_goes h
  rw [hhalt] at hgoes
  generalize s.pc c = p at hgoes
  cases hgoes with
  | startYield => rfl
  | body p q hp hq => cases hq

theorem Reachable.starts_main {config : Config} (h : Reachable config s) (hpc : s.pc c = .startYield) : c = .main := by
  induction h with
  | init => cases hpc
  | step e hr hs ih =>
    rename_i s s'
    obtain ⟨a, htracks⟩ := hr.tracks
    have hi := htracks.inv
    by_cases hc : c = (s.visit e s').ctx
    case neg => exact ih ((hi.pc_step hs hc).symm.trans hpc)
    case pos =>
      cases e with
      | call y =>
        obtain ⟨-, -, -, -, -, rfl⟩ := Sys.step_call.mp hs
        have hself : c = s.k.self := hc
        rw [← hself] at hpc
        have hbegins := Sys.beginCall_begins (s := s) (c := c) y
        rw [hpc] at hbegins
        cases hbegins with
        | settled p h => cases h
      | advance =>
        obtain ⟨-, -, hadv⟩ := Sys.step_advance.mp hs
        have hself : c = s.k.self := hc
        rw [← hself] at hadv
        have hgoes := Sys.advance_goes hadv
        rw [hpc] at hgoes
        generalize hp : s.pc c = p at hgoes
        cases hgoes with
        | startRun =>
          have hok := hi.control.ok c
          rw [hp] at hok
          exact hok.1
        | body p q hbody hq => cases hq
      | tick =>
        obtain ⟨-, -, -, rfl⟩ := Sys.step_tick.mp hs
        exact ih hpc
      | isr y z =>
        obtain ⟨-, -, -, -, rfl⟩ := Sys.step_isr.mp hs
        exact ih hpc
      | pendSV psp =>
        obtain ⟨-, -, -, rfl⟩ := Sys.step_pendSV.mp hs
        exact ih hpc

theorem Inv.started_step (h : Inv s a) (hs : s.step e = some s') :
    s'.k.started = s.k.started ∨ e = .advance ∧ s.pc s.k.self = .startRun := by
  obtain ⟨acts, a', hruns, hinv⟩ := h.step hs
  rw [h.rep.core_eq, hinv.rep.core_eq]
  refine (hruns.passes h.wf).started.imp id fun ⟨hb, _⟩ => ?_
  cases e with
  | call y =>
    have huser : s.pc s.k.self = .user := (Sys.step_call.mp hs).2.2.1
    cases huser.symm.trans hb
  | advance => exact ⟨rfl, by rw [← h.rep.core_eq]; exact hb⟩
  | _ => cases hb

end

/-! ### PRIMASK and `main()` on the board -/

/-- The step of the machine that a step of the board is. -/
def BoardEvent.event (b : Board) : BoardEvent → Option Event
  | .exec .. => none
  | .call c _ => some (.call c)
  | .advance => some .advance
  | .tick _ => some .tick
  | .isr c yield _ => some (.isr c yield)
  | .pendSV => some (.pendSV b.outgoing.1)

/-- What `n` nested `CriticalSection`s have saved. -/
def nested : Nat → List Bool
  | 0 => []
  | n + 1 => decide (n ≠ 0) :: nested n

namespace Board

variable (L : Layout) (b : Board)

/-- PRIMASK is set in critical sections, and each of them will restore it. -/
def Masked : Prop := b.primask = decide (b.sys.cs ≠ 0) ∧ b.saved = nested b.sys.cs

/-- While no task has run `main()` is in `start()` once the kernel is started, and PSP is 0 at the end of it. -/
structure Booted : Prop where
  started : b.sys.k.currentTask = none → b.sys.k.started = true →
    b.sys.pc .main = .startYield ∨ b.sys.pc .main = .halted
  sp : b.sys.k.currentTask = none → b.sys.pc .main = .halted → b.cpu.sp = 0

section
variable {L b}
variable {config : Config} {b' : Board} {e : BoardEvent} {t : Tid} {x : Site}

theorem Masked.step (h : b.Masked) (hs : b.step L e = some b') : b'.Masked := by
  obtain ⟨hprimask, hsaved⟩ := h
  cases e with
  | exec cpu ws =>
    obtain ⟨-, rfl⟩ := step_exec.mp hs
    exact ⟨hprimask, hsaved⟩
  | call c ws =>
    obtain ⟨s, hstep, rfl⟩ := step_call.mp hs
    obtain ⟨-, -, -, -, hadm, rfl⟩ := Sys.step_call.mp hstep
    cases c with
    | enterCritical =>
      exact ⟨by simp [mask, beginCall_cs], by rw [beginCall_cs]; simp only [mask, nested, hprimask, hsaved]⟩
    | exitCritical =>
      obtain ⟨n, hn⟩ := Nat.exists_eq_succ_of_ne_zero (n := b.sys.cs) (by
        simp only [Call.admissible, Bool.and_eq_true] at hadm
        simpa using hadm.2)
      unfold Masked
      rw [beginCall_cs]
      simp only [mask, hsaved, hn, nested]
      exact ⟨rfl, rfl⟩
    | _ => exact ⟨by rw [beginCall_cs]; exact hprimask, by rw [beginCall_cs]; exact hsaved⟩
  | advance =>
    obtain ⟨s, hstep, rfl⟩ := step_advance.mp hs
    have hcs := step_cs hstep (by simp) (by simp)
    exact ⟨by rw [hcs]; exact hprimask, by rw [hcs]; exact hsaved⟩
  | tick ws =>
    obtain ⟨-, s, hstep, rfl⟩ := step_tick.mp hs
    have hcs : (b.interrupt ws s).sys.cs = b.sys.cs := step_cs hstep (by simp) (by simp)
    exact ⟨by rw [hcs]; exact hprimask, by rw [hcs]; exact hsaved⟩
  | isr i y ws =>
    obtain ⟨-, s, hstep, rfl⟩ := step_isr.mp hs
    have hcs : (b.interrupt ws s).sys.cs = b.sys.cs := step_cs hstep (by simp) (by simp)
    exact ⟨by rw [hcs]; exact hprimask, by rw [hcs]; exact hsaved⟩
  | pendSV =>
    obtain ⟨-, s, hstep, rfl⟩ := step_pendSV.mp hs
    have hcs := step_cs hstep (by simp) (by simp)
    have hzero : b.sys.cs = 0 := (Sys.step_pendSV.mp hstep).2.2.1
    exact ⟨by rw [hcs, hzero]; rfl, by rw [hcs]; exact hsaved⟩

theorem Booted.interrupt {ev : Event} {s : Sys} {ws : List (Nat × Word)} (h : b.Booted) (hm : Grounded config b.sys)
    (hs : b.sys.step ev = some s) (hev : ev = .tick ∨ ∃ i y, ev = .isr i y) : (b.interrupt ws s).Booted := by
  obtain ⟨a, hinv⟩ := hm.inv
  have hcur := hinv.current_step hs (by rcases hev with rfl | ⟨i, y, rfl⟩ <;> simp)
  have hpc : s.pc .main = b.sys.pc .main := hinv.pc_other hs (by rcases hev with rfl | ⟨i, y, rfl⟩ <;> simp)
  have hstarted : s.k.started = b.sys.k.started :=
    (hinv.started_step hs).resolve_right (by rcases hev with rfl | ⟨i, y, rfl⟩ <;> simp)
  refine ⟨fun hnone hst => ?_, fun hnone hhalt => ?_⟩
  · show s.pc .main = _ ∨ s.pc .main = _
    rw [hpc]
    exact h.started (hcur.symm.trans hnone) (hstarted.symm.trans hst)
  · have hcpu : (b.interrupt ws s).cpu = b.cpu := by
      unfold Board.interrupt
      rw [show b.sys.k.currentTask = none from hcur.symm.trans hnone]
      rfl
    rw [hcpu]
    exact h.sp (hcur.symm.trans hnone) (hpc.symm.trans hhalt)

theorem Booted.step (h : b.Booted) (hm : Grounded config b.sys) (hg : b.Good L e) (hs : b.step L e = some b') :
    b'.Booted := by
  obtain ⟨a, hinv⟩ := hm.inv
  have hself : b.sys.k.currentTask = none → b.sys.k.self = .main := fun hnone => by simp [Core.self, hnone]
  cases e with
  | exec cpu ws =>
    obtain ⟨-, rfl⟩ := step_exec.mp hs
    exact ⟨h.started, fun hnone hhalt => (hg.1.2.2 hnone).trans (h.sp hnone hhalt)⟩
  | call c ws =>
    obtain ⟨s, hstep, rfl⟩ := step_call.mp hs
    have hcur := hinv.current_step hstep (by simp)
    have hstarted := (hinv.started_step hstep).resolve_right (by simp)
    obtain ⟨-, -, huser, -, -, rfl⟩ := Sys.step_call.mp hstep
    -- `main()` makes no call once the kernel is started
    have hno : b.sys.k.currentTask = none → b.sys.k.started = false := fun hnone => by
      rw [hself hnone] at huser
      cases hst : b.sys.k.started with
      | false => rfl
      | true => rcases h.started hnone hst with hpc | hpc <;> cases huser.symm.trans hpc
    refine ⟨fun hnone hst => ?_, fun hnone hhalt => ?_⟩
    · cases (hno (hcur.symm.trans hnone)).symm.trans (hstarted.symm.trans hst)
    · have hnone' := hcur.symm.trans hnone
      have hbegan :=
        beginCall_halted (s := b.sys) (c := b.sys.k.self) (y := c) (by rw [hself hnone'] at hhalt ⊢; exact hhalt)
      cases (hno hnone').symm.trans hbegan
  | advance =>
    obtain ⟨s, hstep, rfl⟩ := step_advance.mp hs
    have hcur := hinv.current_step hstep (by simp)
    obtain ⟨-, -, hgo⟩ := Sys.step_advance.mp hstep
    refine ⟨fun hnone hst => ?_, fun hnone hhalt => ?_⟩
    · have hmain := hself (hcur.symm.trans hnone)
      rw [hmain] at hgo
      have hpc : b.sys.pc .main = .startRun ∨ b.sys.pc .main = .startYield ∨ b.sys.pc .main = .halted := by
        rcases hinv.started_step hstep with heq | ⟨-, hrun⟩
        · exact Or.inr (h.started (hcur.symm.trans hnone) (heq.symm.trans hst))
        · rw [hmain] at hrun
          exact Or.inl hrun
      rcases hpc with hpc | hpc | hpc <;> simp only [Sys.advance, hpc] at hgo <;> cases hgo
      · exact Or.inl (by simp [Sys.setPc])
      · exact Or.inr (by simp [Sys.setPc])
    · have hmain := hself (hcur.symm.trans hnone)
      rw [hmain] at hgo
      have hpc : b.pc = .startYield := by
        unfold pc
        rw [hmain]
        exact advance_halted hgo hhalt
      simp only [hpc, if_true]
  | tick ws =>
    obtain ⟨-, s, hstep, rfl⟩ := step_tick.mp hs
    exact h.interrupt hm hstep (Or.inl rfl)
  | isr i y ws =>
    obtain ⟨-, s, hstep, rfl⟩ := step_isr.mp hs
    exact h.interrupt hm hstep (Or.inr ⟨i, y, rfl⟩)
  | pendSV =>
    obtain ⟨-, s, hstep, rfl⟩ := step_pendSV.mp hs
    obtain ⟨next, x, hnext, -⟩ := hinv.switches hm.stacked hstep
    refine ⟨fun hnone => ?_, fun hnone => ?_⟩ <;> cases hnext.symm.trans hnone

/-! ### What the port gives -/

theorem step_event (hs : b.step L e = some b') :
    e.event b = none ∧ b'.sys = b.sys ∨ ∃ ev, e.event b = some ev ∧ b.sys.step ev = some b'.sys := by
  cases e with
  | exec cpu ws =>
    obtain ⟨-, rfl⟩ := step_exec.mp hs
    exact Or.inl ⟨rfl, rfl⟩
  | call c ws =>
    obtain ⟨s, hstep, rfl⟩ := step_call.mp hs
    exact Or.inr ⟨_, rfl, hstep⟩
  | advance =>
    obtain ⟨s, hstep, rfl⟩ := step_advance.mp hs
    exact Or.inr ⟨_, rfl, hstep⟩
  | tick ws =>
    obtain ⟨-, s, hstep, rfl⟩ := step_tick.mp hs
    exact Or.inr ⟨_, rfl, hstep⟩
  | isr i y ws =>
    obtain ⟨-, s, hstep, rfl⟩ := step_isr.mp hs
    exact Or.inr ⟨_, rfl, hstep⟩
  | pendSV =>
    obtain ⟨-, s, hstep, rfl⟩ := step_pendSV.mp hs
    exact Or.inr ⟨_, rfl, hstep⟩

theorem Good.not_reflags (hg : b.Good L e) {ev : Event} (he : e.event b = some ev) : ¬ b.sys.Reflags ev := by
  cases e with
  | exec cpu ws => cases he
  | advance =>
    cases he
    exact hg.2 rfl
  | _ => cases he; exact id

/-- The invariant of the board. -/
structure Ok (L : Layout) (config : Config) (b : Board) : Prop where
  reachable : Reachable config b.sys
  grounded : Grounded config b.sys
  sound : b.Sound L
  masked : b.Masked
  booted : b.Booted

theorem Ok.step (h : b.Ok L config) (hg : b.Good L e) (hs : b.step L e = some b') :
    b'.Ok L config ∧ ∀ t x, (b.sys.k.tcb t).stackBase = some x →
      (b.sys.k.currentTask = some t → e.own = false) → b'.context L t = b.context L t := by
  obtain ⟨hreach, hm, hsound, hmasked, hbooted⟩ := h
  obtain ⟨hsound', hcontext⟩ :=
    hsound.step hm hg (fun he hnone => hbooted.sp hnone (by subst he; exact hg.1.2 hnone)) hs
  have hsys : Reachable config b'.sys ∧ Grounded config b'.sys := by
    rcases step_event hs with ⟨-, heq⟩ | ⟨ev, he, hstep⟩
    · rw [heq]
      exact ⟨hreach, hm⟩
    · exact ⟨hreach.step ev hstep, hm.step hstep (hg.not_reflags he)⟩
  exact ⟨⟨hsys.1, hsys.2, hsound', hmasked.step hs, hbooted.step hm hg hs⟩, hcontext⟩

theorem Ok.initial_context {f : Callable} {p : Nat} (h : b.Ok L config) (hpc : b.pc = .create (.init t) x f p)
    (hs : b.step L .advance = some b') : (b'.sys.k.tcb t).stackBase = some x ∧
      b'.context L t = initialThread (L.stackTop x) (L.trampoline x) (BitVec.ofNat 32 (L.callableAddr x)) := by
  obtain ⟨s, hstep, rfl⟩ := step_advance.mp hs
  obtain ⟨hsp, hx, -⟩ := initTcb_step hstep hpc
  refine ⟨hx, ?_⟩
  have hcur : s.k.currentTask ≠ some t := fun hcur => by
    obtain ⟨a, hinv⟩ := h.grounded.inv
    obtain ⟨y, hy⟩ := h.grounded.current_stack ((hinv.current_step hstep (by simp)).symm.trans hcur)
    rw [h.grounded.stacked.fresh _ _ _ _ _ hpc] at hy
    cases hy
  have hthread := (place_init (L := L) (x := x) (t := t) (m := b.mem) (f := f) (p := p)).2.2
  rw [context, if_neg hcur, thread]
  simp only [hsp, hpc]
  exact hthread

theorem Reached.ok (h : Reached L config b) : b.Ok L config := by
  induction h with
  | init cpu mem =>
    have hnone : ∀ t x, ((Board.init config cpu mem).sys.k.tcb t).stackBase ≠ some x := fun t x hx => by cases hx
    exact ⟨.init, Grounded.init config, ⟨fun t x hx => absurd hx (hnone t x), fun t x hx => absurd hx (hnone t x),
      fun t x hx => absurd hx (hnone t x)⟩, ⟨rfl, rfl⟩,
      ⟨fun _ hst => (by cases hst), fun _ hhalt => (by cases hhalt)⟩⟩
  | step e h hg hs ih => exact (ih.step hg hs).1

theorem Reached.run {es : List BoardEvent} (h : Reached L config b) (hrun : b.run L es = some b')
    (hes : b.Each L (Good L) es) : Reached L config b' := by
  induction es generalizing b with
  | nil =>
    cases hrun
    exact h
  | cons e es ih =>
    obtain ⟨b₁, hs, hrun⟩ := run_cons hrun
    exact ih (h.step e hes.1 hs) hrun (hes.2 b₁ hs)

theorem Ok.stack_step (h : b.Ok L config) (hs : b.step L e = some b') (hx : (b.sys.k.tcb t).stackBase = some x) :
    (b'.sys.k.tcb t).stackBase = some x := by
  rcases step_event hs with ⟨-, heq⟩ | ⟨ev, he, hstep⟩
  · rw [heq]
    exact hx
  · by_cases hp : ∃ psp, ev = .pendSV psp
    · rw [(Inv.quiet_writes .isr hstep (Or.inr hp)).1.stackBase t]
      exact hx
    · exact (h.grounded.stack_to hstep (fun psp hev => hp ⟨psp, hev⟩) hx).1

/-- A task gets a stack where `create_task` lays it out. -/
theorem Ok.new_stack (h : b.Ok L config) (hs : b.step L e = some b') (hold : (b.sys.k.tcb t).stackBase ≠ some x)
    (hx : (b'.sys.k.tcb t).stackBase = some x) : e = .advance ∧ ∃ f p, b.pc = .create (.init t) x f p := by
  rcases step_event hs with ⟨-, heq⟩ | ⟨ev, hev, hstep⟩
  · rw [heq] at hx
    exact absurd hx hold
  · have hne : ∀ psp, ev ≠ .pendSV psp := by
      rintro psp rfl
      rw [(Inv.quiet_writes .isr hstep (Or.inr ⟨psp, rfl⟩)).1.stackBase t] at hx
      exact hold hx
    obtain ⟨⟨rfl, hpc⟩, -⟩ := (h.grounded.stack_from hstep hne hx).resolve_left fun hkeeps => hold hkeeps.1
    cases e with
    | advance => exact ⟨rfl, hpc⟩
    | _ => cases hev

theorem Ok.context_run {es : List BoardEvent} (h : b.Ok L config) (hx : (b.sys.k.tcb t).stackBase = some x)
    (hrun : b.run L es = some b')
    (hes : b.Each L (fun b e => b.Good L e ∧ (b.sys.k.currentTask = some t → e.own = false)) es) :
    b'.context L t = b.context L t := by
  induction es generalizing b with
  | nil =>
    cases hrun
    rfl
  | cons e es ih =>
    obtain ⟨b₁, hs, hrun⟩ := run_cons hrun
    obtain ⟨hok, hcontext⟩ := h.step hes.1.1 hs
    exact (ih hok (h.stack_step hs hx) hrun (hes.2 b₁ hs)).trans (hcontext t x hx hes.1.2)

/-! ### Stack pointers -/

/-- Every stack pointer, saved or in use, lies above the canary and below the callable. -/
def Kept (L : Layout) (b : Board) : Prop := ∀ t x, (b.sys.k.tcb t).stackBase = some x →
  L.base x < (b.context L t).sp ∧ (b.context L t).sp ≤ L.stackTop x

theorem Ok.cpu_sp (h : b.Ok L config) (hs : b.step L e = some b') (hcur : b.sys.k.currentTask = some t)
    (he : e = .advance ∨ ∃ c ws, e = .call c ws) : b'.cpu.sp = b.cpu.sp := by
  rcases he with rfl | ⟨c, ws, rfl⟩
  · obtain ⟨s, hstep, rfl⟩ := step_advance.mp hs
    have hpc : b.pc ≠ .startYield := fun hpc => by
      have hmain := h.reachable.starts_main hpc
      rw [Core.self, hcur] at hmain
      cases hmain
    simp only [if_neg hpc]
  · obtain ⟨s, hstep, rfl⟩ := step_call.mp hs
    cases c <;> rfl

theorem Ok.current_step (h : b.Ok L config) (hs : b.step L e = some b') (he : e.own = true) :
    b'.sys.k.currentTask = b.sys.k.currentTask := by
  obtain ⟨a, hinv⟩ := h.grounded.inv
  rcases step_event hs with ⟨-, heq⟩ | ⟨ev, hev, hstep⟩
  · rw [heq]
  · refine hinv.current_step hstep fun psp => ?_
    rintro rfl
    cases e with
    | pendSV => cases he
    | _ => cases hev

theorem Ok.kept_step (h : b.Ok L config) (hk : b.Kept L) (hg : b.Good L e) (he : b.Keeps L e)
    (hs : b.step L e = some b') : b'.Kept L := by
  intro t x hx
  by_cases hold : (b.sys.k.tcb t).stackBase = some x
  · by_cases hown : b.sys.k.currentTask = some t ∧ e.own = true
    · obtain ⟨hcur, hown⟩ := hown
      have hcur' := (h.current_step hs hown).trans hcur
      have hbefore := hk t x hold
      rw [context, if_pos hcur] at hbefore
      rw [context, if_pos hcur']
      show L.base x < b'.cpu.sp ∧ b'.cpu.sp ≤ L.stackTop x
      cases e with
      | exec cpu ws =>
        obtain ⟨-, rfl⟩ := step_exec.mp hs
        exact he t hcur x hold
      | call c ws =>
        rw [h.cpu_sp hs hcur (.inr ⟨c, ws, rfl⟩)]
        exact hbefore
      | advance =>
        rw [h.cpu_sp hs hcur (.inl rfl)]
        exact hbefore
      | _ => cases hown
    · rw [(h.step hg hs).2 t x hold fun hcur => by simpa [hcur] using hown]
      exact hk t x hold
  · obtain ⟨rfl, f, p, hpc⟩ := h.new_stack hs hold hx
    have hroom := (L.stackTop_bounds x).1
    rw [(h.initial_context hpc hs).2]
    show L.base x < L.stackTop x ∧ L.stackTop x ≤ L.stackTop x
    omega

theorem Ok.kept_run {es : List BoardEvent} (h : b.Ok L config) (hk : b.Kept L) (hrun : b.run L es = some b')
    (hes : b.Each L (fun b e => b.Good L e ∧ b.Keeps L e) es) : b'.Ok L config ∧ b'.Kept L := by
  induction es generalizing b with
  | nil =>
    cases hrun
    exact ⟨h, hk⟩
  | cons e es ih =>
    obtain ⟨b₁, hs, hrun⟩ := run_cons hrun
    obtain ⟨hg, hkeeps⟩ := hes.1
    exact ih (h.step hg hs).1 (h.kept_step hk hg hkeeps hs) hrun (hes.2 b₁ hs)

end

end Board

/-! ### A board with two tasks -/

/-- Stacks of 64 words behind each other. -/
def Layout.small : Layout where
  base x := 1024 + 64 * x
  stackWords _ := 64
  size _ := 8
  trampoline x := BitVec.ofNat 32 (0x8000000 + 2 * x)
  image f _ := BitVec.ofNat 32 f
  base_pos x := by omega
  base_even x := by omega
  stackWords_ge _ := le_refl _
  stackWords_even _ := rfl
  size_lt _ := by decide
  apart x y hxy := by
    rcases Nat.lt_or_gt_of_ne hxy with hlt | hlt
    · left
      omega
    · right
      omega

/-- The registers `cpu` with the value `v` in most of them. -/
def Lib.Cortex.Cpu.fill (v : Word) (sp : Nat) (fpca : Bool) : Cpu where
  r _ := v
  lr := v
  pc := v
  xpsr := 0x01000000#32
  sp := sp
  s _ := v
  fpscr := 0
  fpca := fpca
  xpsr_pad := by decide

namespace Board

/-- Two tasks of priority 3 are created and the first one is started. -/
def bootRun : List BoardEvent :=
  .call (.createTask 1 1 3) [] :: List.replicate 9 .advance ++
    .call (.createTask 2 2 3) [] :: List.replicate 9 .advance ++
    .call .start [] :: List.replicate 10 .advance ++ [.pendSV]

/-- The first task uses the FPU. -/
def fpuRun : List BoardEvent := bootRun ++ [.exec (.fill 7 1141 true) [(1141, 1), (1150, 2)]]

/-- A tick lets the second task run, and the next one the first task again. -/
def sliceRun : List BoardEvent := [.tick [], .pendSV, .exec (.fill 8 1200 false) [(1200, 3)], .tick [(16, 4)], .pendSV]

/-- The board after `es`. -/
def booted (es : List BoardEvent) : Option Board := (Board.init .small (.fill 0 0 false) fun _ => 0).run .small es

theorem booted_reached {es : List BoardEvent} {b : Board} (hb : booted es = some b)
    (hes : (Board.init .small (.fill 0 0 false) fun _ => 0).Each .small (Good .small) es) : Reached .small .small b :=
  (Reached.init (.fill 0 0 false) fun _ => 0).run hb hes

end Board

/-! ### What the port gives -/

section
variable {L : Layout} {config : Config} {b b' : Board} {t u : Tid} {x : Site} {es : List BoardEvent}

/-- A task that executes nothing itself keeps its registers: through interrupts, through context switches away from it
and back, and whatever the others do in the meantime as long as they do not write below its stack pointer. -/
theorem context_kept (h : b.Reached L config) (hx : (b.sys.k.tcb t).stackBase = some x)
    (hrun : b.run L es = some b')
    (hes : b.Each L (fun b e => b.Good L e ∧ (b.sys.k.currentTask = some t → e.own = false)) es) :
    b'.context L t = b.context L t :=
  h.ok.context_run hx hrun hes

/-- The first task keeps the 7 in its registers, also in those of the FPU. -/
theorem context_kept_slice : ∃ b b', Board.booted Board.fpuRun = some b ∧ b.run .small Board.sliceRun = some b' ∧
    b'.sys.k.currentTask = some 0 ∧ b'.cpu.thread = b.cpu.thread ∧ b.cpu.s 20 = 7 := by
  have hgood : (Board.init .small (.fill 0 0 false) fun _ => 0).Each .small (Board.Good .small) Board.fpuRun := by
    decide +kernel
  have hstate : (Board.booted Board.fpuRun).map
      (fun b => (b.sys.k.currentTask, (b.sys.k.tcb 0).stackBase, b.cpu.s 20)) =
      some (some 0, some 1, 7) := by decide +kernel
  have hends : (Board.booted Board.fpuRun).map (fun b => (b.run .small Board.sliceRun).map
      fun b => b.sys.k.currentTask) =
      some (some (some 0)) := by decide +kernel
  have hslice : (Board.booted Board.fpuRun).map (fun b => decide (b.Each .small
      (fun b e => b.Good .small e ∧ (b.sys.k.currentTask = some 0 → e.own = false)) Board.sliceRun)) =
        some true := by
    decide +kernel
  obtain ⟨b, hb, hstate⟩ := Option.map_eq_some_iff.mp hstate
  rw [hb, Option.map_some, Option.some.injEq] at hends hslice
  obtain ⟨b', hb', hcur'⟩ := Option.map_eq_some_iff.mp hends
  simp only [Prod.mk.injEq] at hstate
  obtain ⟨hcur, hx, hs⟩ := hstate
  have hkept := context_kept (Board.booted_reached hb hgood) hx hb' (of_decide_eq_true hslice)
  rw [Board.context, Board.context, if_pos hcur, if_pos hcur'] at hkept
  exact ⟨b, b', hb, hb', hcur', hkept, hs⟩

/-- A new task begins at its trampoline, with the address of its callable as the parameter and an empty stack. -/
theorem starts_at_trampoline (h : b.Reached L config) {f : Callable} {p : Nat} (hpc : b.pc = .create (.init t) x f p)
    {b₁ : Board} (hs : b.step L .advance = some b₁) (hrun : b₁.run L es = some b')
    (hes : b₁.Each L (fun b e => b.Good L e ∧ (b.sys.k.currentTask = some t → e.own = false)) es) :
    b'.context L t = initialThread (L.stackTop x) (L.trampoline x) (BitVec.ofNat 32 (L.callableAddr x)) := by
  have hg : b.Good L .advance := by
    refine ⟨trivial, fun _ hre => ?_⟩
    unfold Board.pc at hpc
    simp [Sys.Reflags, hpc] at hre
  obtain ⟨hok, -⟩ := h.ok.step hg hs
  obtain ⟨hx, hstart⟩ := h.ok.initial_context hpc hs
  exact (hok.context_run hx hrun hes).trans hstart

theorem starts_at_trampoline_boot : ∃ b b₁ b', Board.booted (Board.bootRun.take 6) = some b ∧
    b.step .small .advance = some b₁ ∧ b₁.run .small (Board.bootRun.drop 7) = some b' ∧
    b'.sys.k.currentTask = some 0 ∧ b'.cpu.thread = initialThread 1150 0x8000002#32 4600#32 := by
  have hgood : (Board.init .small (.fill 0 0 false) fun _ => 0).Each .small (Board.Good .small)
      (Board.bootRun.take 6) := by
    decide +kernel
  have hpc : (Board.booted (Board.bootRun.take 6)).map Board.pc = some (.create (.init 0) 1 1 3) := by decide +kernel
  have hrest : (Board.booted (Board.bootRun.take 6)).map (fun b => (b.step .small .advance).map fun b =>
      decide (b.Each .small (fun b e => b.Good .small e ∧ (b.sys.k.currentTask = some 0 → e.own = false))
        (Board.bootRun.drop 7))) = some (some true) := by
    decide +kernel
  have hends : (Board.booted (Board.bootRun.take 6)).map (fun b => (b.step .small .advance).map fun b =>
      (b.run .small (Board.bootRun.drop 7)).map fun b => b.sys.k.currentTask) = some (some (some (some 0))) := by
    decide +kernel
  obtain ⟨b, hb, hpc⟩ := Option.map_eq_some_iff.mp hpc
  rw [hb, Option.map_some, Option.some.injEq] at hrest hends
  obtain ⟨b₁, hs, hslice⟩ := Option.map_eq_some_iff.mp hrest
  rw [hs, Option.map_some, Option.some.injEq] at hends
  obtain ⟨b', hb', hcur⟩ := Option.map_eq_some_iff.mp hends
  have hstart := starts_at_trampoline (Board.booted_reached hb hgood) hpc hs hb' (of_decide_eq_true hslice)
  rw [Board.context, if_pos hcur] at hstart
  exact ⟨b, b₁, b', hb, hs, hb', hcur, hstart⟩

/-- Every task has a stack of its own with an intact canary. Its stack pointer lies above the canary and below the
callable, and so does what PendSV saved of it: a block of at least 17 words. -/
theorem stacks_hold {cpu : Cpu} {m : Mem} (hrun : (Board.init config cpu m).run L es = some b)
    (hes : (Board.init config cpu m).Each L (fun b e => b.Good L e ∧ b.Keeps L e) es)
    (hx : (b.sys.k.tcb t).stackBase = some x) :
    b.mem (L.base x) = kStackCanary ∧ (∀ u, (b.sys.k.tcb u).stackBase = some x → u = t) ∧
      L.base x < (b.context L t).sp ∧ (b.context L t).sp ≤ L.stackTop x ∧
      (b.sys.k.currentTask ≠ some t → L.base x < L.addr (b.sys.k.tcb t).sp ∧
        L.addr (b.sys.k.tcb t).sp + 17 ≤ (b.thread L t).sp ∧ (b.thread L t).sp ≤ L.stackTop x) := by
  have hinit : (Board.init config cpu m).Kept L := fun t x hx => by cases hx
  obtain ⟨⟨-, hm, hsound, -, -⟩, hkept⟩ := (Board.Reached.init cpu m).ok.kept_run hinit hrun hes
  obtain ⟨hlow, hhigh⟩ := hkept t x hx
  refine ⟨hsound.canary t x hx, fun u hu => hm.apart hu hx, hlow, hhigh, fun ht => ?_⟩
  rw [Board.context, if_neg ht] at hhigh
  refine ⟨(hsound.saved t x hx ht).1, ?_, hhigh⟩
  have hsp := savedThread_sp (a := L.addr (b.sys.k.tcb t).sp) (m := b.mem)
  have hwords := switchWords_ge (!(b.mem (L.addr (b.sys.k.tcb t).sp + 8)).getLsbD 4)
  have hframe : 8 ≤ frameWords (!(b.mem (L.addr (b.sys.k.tcb t).sp + 8)).getLsbD 4) := by
    cases !(b.mem (L.addr (b.sys.k.tcb t).sp + 8)).getLsbD 4 <;> decide
  show _ ≤ (savedThread _ _).sp
  omega

/-- The first task is off the CPU with its FPU registers saved, the second one runs. -/
theorem stacks_hold_slice : ∃ b, Board.booted (Board.fpuRun ++ Board.sliceRun.take 3) = some b ∧
    b.sys.k.currentTask = some 1 ∧ b.mem 1088 = kStackCanary ∧ b.mem 1152 = kStackCanary ∧
    1088 < Layout.small.addr (b.sys.k.tcb 0).sp ∧
    Layout.small.addr (b.sys.k.tcb 0).sp + 17 ≤ (b.thread .small 0).sp ∧ (b.thread .small 0).sp ≤ 1150 ∧
    1152 < b.cpu.sp ∧ b.cpu.sp ≤ 1214 := by
  have hgood : (Board.init .small (.fill 0 0 false) fun _ => 0).Each .small
      (fun b e => b.Good .small e ∧ b.Keeps .small e) (Board.fpuRun ++ Board.sliceRun.take 3) := by
    decide +kernel
  have hstate : (Board.booted (Board.fpuRun ++ Board.sliceRun.take 3)).map (fun b =>
      (b.sys.k.currentTask, (b.sys.k.tcb 0).stackBase, (b.sys.k.tcb 1).stackBase)) =
        some (some 1, some 1, some 2) := by
    decide +kernel
  obtain ⟨b, hb, hstate⟩ := Option.map_eq_some_iff.mp hstate
  simp only [Prod.mk.injEq] at hstate
  obtain ⟨hcur, hx₀, hx₁⟩ := hstate
  have hne : b.sys.k.currentTask ≠ some 0 := by
    rw [hcur]
    decide
  obtain ⟨hcanary₀, -, -, -, hsaved⟩ := stacks_hold hb hgood hx₀
  obtain ⟨hcanary₁, -, hlow, hhigh, -⟩ := stacks_hold hb hgood hx₁
  rw [Board.context, if_pos hcur] at hlow hhigh
  obtain ⟨haddr, hwords, htop⟩ := hsaved hne
  exact ⟨b, hb, hcur, hcanary₀, hcanary₁, haddr, hwords, htop, hlow, hhigh⟩

/-- The board does what the machine does, and lets everything happen that happens there: PRIMASK holds interrupts off
exactly while a critical section of the application is open. -/
theorem board_refines (h : b.Reached L config) (e : BoardEvent) :
    Reachable config b.sys ∧ (b.primask = true ↔ b.sys.cs ≠ 0) ∧
      (b.step L e).map Board.sys = match e.event b with
        | some ev => b.sys.step ev
        | none => if b.sys.k.fault.isSome then none else some b.sys := by
  obtain ⟨hmask, -⟩ := h.ok.masked
  refine ⟨h.ok.reachable, by simp [hmask], ?_⟩
  have hid : ∀ (o : Option Sys) (f : Sys → Board), (∀ s, (f s).sys = s) → (o.map f).map Board.sys = o := by
    intro o f hf
    cases o with
    | none => rfl
    | some s => exact congrArg some (hf s)
  have hclosed : ∀ ev, b.primask = true →
      (ev = .tick ∨ (∃ i y, ev = .isr i y) ∨ ∃ psp, ev = .pendSV psp) →
      none = b.sys.step ev := by
    intro ev hp hev
    have hcs : b.sys.cs ≠ 0 := by simpa [hmask] using hp
    rcases hev with rfl | ⟨i, y, rfl⟩ | ⟨psp, rfl⟩ <;> simp [Sys.step, hcs]
  cases e with
  | exec cpu ws =>
    simp only [Board.step, BoardEvent.event]
    split <;> rfl
  | call c ws => exact hid _ _ fun _ => rfl
  | advance => exact hid _ _ fun _ => rfl
  | tick ws =>
    simp only [Board.step, BoardEvent.event]
    split
    · exact hclosed _ ‹_› (Or.inl rfl)
    · exact hid _ _ fun _ => rfl
  | isr i y ws =>
    simp only [Board.step, BoardEvent.event]
    split
    · exact hclosed _ ‹_› (Or.inr (Or.inl ⟨i, y, rfl⟩))
    · exact hid _ _ fun _ => rfl
  | pendSV =>
    simp only [Board.step, BoardEvent.event]
    split
    · exact hclosed _ ‹_› (Or.inr (Or.inr ⟨_, rfl⟩))
    · exact hid _ _ fun _ => rfl

theorem board_refines_boot : ∃ b, Board.booted Board.bootRun = some b ∧ Reachable .small b.sys ∧
    (b.primask = true ↔ b.sys.cs ≠ 0) ∧ ((b.step .small (.tick [])).map Board.sys = b.sys.step .tick) := by
  have hgood : (Board.init .small (.fill 0 0 false) fun _ => 0).Each .small (Board.Good .small) Board.bootRun := by
    decide +kernel
  have hsome : (Board.booted Board.bootRun).isSome = true := by decide +kernel
  obtain ⟨b, hb⟩ := Option.isSome_iff_exists.mp hsome
  exact ⟨b, hb, board_refines (Board.booted_reached hb hgood) (.tick [])⟩

end

end AcRtos
