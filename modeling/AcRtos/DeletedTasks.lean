import AcRtos.Steps

/-!
# Deleted tasks

Every path that makes a task ready tests its state inside the critical section that does so, and none takes a
deleted task. `suspend_task` is the exception: it tests for `Deleted` before its section and in the section only
for `Suspended`. When the task is deleted between the two, it ends up suspended and can be resumed. A run
keeps a deleted task deleted exactly when no step of it is such a section (`deleted_terminal`).
-/

namespace AcRtos

open Abs

namespace Sys

/-- The next step is the critical section of a `suspend_task` whose test for `Deleted` is out of date. -/
def SuspendsDeleted (t : Tid) (s : Sys) (e : Event) : Prop :=
  e = .advance ∧ s.pc s.k.self = .suspendBody t ∧ (s.k.tcb t).state = .deleted

/-- `t` is deleted, and a context switch does not pick it. -/
structure Dead (t : Tid) (s : Sys) : Prop where
  state : (s.k.tcb t).state = .deleted
  undispatched : ∀ psp s', s.step (.pendSV psp) = some s' → s'.k.currentTask ≠ some t

end Sys

theorem Abs.deleted_apply {v : Visit} {a : Abs} {act : Action} {t : Tid} (h : a.WF) (he : act.Enabled a)
    (hf : act.Fits v a) (hv : v.before ≠ .suspendBody t) (hd : (a.tcb t).state = .deleted) :
    ((act.apply a).tcb t).state = .deleted := by
  rcases shift h he t with hsame | hshift
  · rw [hsame, hd]
  · generalize ((act.apply a).tcb t).state = st at hshift ⊢
    have hnot : ∀ {st'}, (a.tcb t).state = st' → st' = .deleted := fun hst => hst.symm.trans hd
    have hwait : ∀ {w}, (a.tcb t).waitList = some w → False := fun hw => by
      have := hnot ((h.ok t).waits (by simp [hw]))
      cases this
    cases hshift with
    | alloc heq => cases hnot ((h.ok t).fresh (Nat.le_of_eq heq.symm)).1
    | ready hst => rcases hst with hst | hst <;> cases hnot hst
    | switch hst => cases hnot hst
    | sleep n hst => cases hnot hst
    | park w timeout hst => cases hnot hst
    | expire hst => cases hnot hst
    | hand hd hw => exact (hwait hw).elim
    | pass m u hw => exact (hwait hw).elim
    | retire st hst =>
      rcases hst with ⟨rfl, -⟩ | rfl
      · rcases hf.1 with ⟨hb, -⟩ | ⟨-, hst⟩
        · exact absurd hb hv
        · cases hst
      · rfl

theorem Runs.deleted {v : Visit} {a a' : Abs} {acts : List Action} {t : Tid} (h : Runs v a acts a') (hwf : a.WF)
    (hv : v.before ≠ .suspendBody t) (hd : (a.tcb t).state = .deleted) : (a'.tcb t).state = .deleted :=
  h.keeps (P := fun b => (b.tcb t).state = .deleted) hwf hd fun _ _ hwf hd he hf => deleted_apply hwf he hf hv hd

namespace Inv

variable {s s' : Sys} {a : Abs} {e : Event} {t : Tid}

theorem suspends_of_before (hs : s.step e = some s') (hb : (s.visit e s').before = .suspendBody t) :
    e = .advance ∧ s.pc s.k.self = .suspendBody t := by
  cases e with
  | advance => exact ⟨rfl, hb⟩
  | call c =>
    -- a call starts in user code
    have hpc : s.pc s.k.self = .suspendBody t := hb
    obtain ⟨-, -, huser, -⟩ := Sys.step_call.mp hs
    cases huser.symm.trans hpc
  | tick => cases hb
  | isr c yield => cases hb
  | pendSV psp => cases hb

theorem deleted_step (h : Inv s a) (hs : s.step e = some s') (hd : (s.k.tcb t).state = .deleted) :
    (s'.k.tcb t).state = .deleted ↔ ¬ s.SuspendsDeleted t e := by
  constructor
  · rintro hd' ⟨rfl, hpc, -⟩
    obtain ⟨-, -, hadv⟩ := Sys.step_advance.mp hs
    simp only [Sys.advance, hpc] at hadv
    cases hadv
    simp [Sys.settle, Sys.setPc, Sys.setK, Scheduler.suspendTask, Scheduler.unlink, hd] at hd'
  · intro hnot
    obtain ⟨acts, a', hruns, hinv⟩ := h.step hs
    rw [h.rep.core_eq] at hd
    rw [hinv.rep.core_eq]
    refine hruns.deleted h.wf (fun hb => hnot ?_) hd
    obtain ⟨he, hpc⟩ := suspends_of_before hs hb
    exact ⟨he, hpc, by rw [h.rep.core_eq]; exact hd⟩

theorem running_of_pendSV (h : Inv s a) {psp : Nat} (hs : s.step (.pendSV psp) = some s') :
    ∃ u, s'.k.currentTask = some u ∧ (s'.k.tcb u).state = .running := by
  obtain ⟨-, hpend, -, rfl⟩ := Sys.step_pendSV.mp hs
  obtain ⟨u, p, acts, -, -, -, -, hrep⟩ := h.dispatch hpend psp
  refine ⟨u, ?_, ?_⟩
  · show (Scheduler.pendSV psp s.k).currentTask = some u
    rw [hrep.core_eq]
    rfl
  · show ((Scheduler.pendSV psp s.k).tcb u).state = .running
    rw [hrep.core_eq, Abs.switch, move_tcb, if_pos rfl]

theorem dead (h : Inv s a) (hd : (s.k.tcb t).state = .deleted) : s.Dead t := by
  refine ⟨hd, fun psp s' hs hcur => ?_⟩
  have hd' := (h.deleted_step hs hd).mpr fun hlate => by cases hlate.1
  obtain ⟨u, hu, hrun⟩ := h.running_of_pendSV hs
  obtain rfl : u = t := Option.some.inj (hu.symm.trans hcur)
  rw [hd'] at hrun
  cases hrun

end Inv

/-- A deleted task stays deleted, and is never dispatched, in every state that a run passes exactly when no
step of the run is the late section of a `suspend_task`. -/
theorem deleted_terminal {config : Config} {s s' : Sys} {es : List Event} {t : Tid} (h : Reachable config s)
    (hrun : s.run es = some s') (hd : (s.k.tcb t).state = .deleted) :
    s.Throughout (Sys.Dead t) es ↔ s.Each (fun s e => ¬ s.SuspendsDeleted t e) es := by
  obtain ⟨a, htracks⟩ := h.tracks
  refine h.throughout_iff hrun (htracks.inv.dead hd) fun s e s₁ h hdead hs => ?_
  obtain ⟨a, htracks⟩ := h.tracks
  obtain ⟨acts, a₁, hruns, hinv⟩ := htracks.inv.step hs
  rw [← htracks.inv.deleted_step hs hdead.state]
  exact ⟨fun hdead₁ => hdead₁.state, hinv.dead⟩

namespace Sys

/-- Of three tasks the second delays itself and the first starts to suspend the third; then the second wakes
and deletes the third. -/
def deleteRun : List Event :=
  createRun 1 2 ++ createRun 2 3 ++ createRun 3 1 ++ startRun ++
    [.call (.delayMs 1), .advance, .pendSV 0, .call (.suspend (some 2)), .tick, .pendSV 0, .advance,
      .call (.terminate (some 2)), .advance]

/-- The second task delays itself again; the first finishes its call, resumes the third task and delays itself
too. -/
def reviveRun : List Event :=
  [.advance, .call (.delayMs 5), .advance, .pendSV 0, .advance, .advance, .call (.resume (some 2)), .advance,
    .advance, .call (.delayMs 5), .advance, .pendSV 0]

end Sys

/-- A tick after the deletion is no late section. -/
theorem deleted_terminal_tick : ∃ s, Sys.run (Sys.init .small) Sys.deleteRun = some s ∧
    (s.Throughout (Sys.Dead 2) [.tick] ↔ s.Each (fun s e => ¬ s.SuspendsDeleted 2 e) [.tick]) := by
  have hrun : ((Sys.run (Sys.init .small) Sys.deleteRun).map fun s =>
      ((s.k.tcb 2).state, (s.run [.tick]).isSome)) = some (.deleted, true) := by decide +kernel
  obtain ⟨s, hs, hstate⟩ := Option.map_eq_some_iff.mp hrun
  rw [Prod.mk.injEq] at hstate
  obtain ⟨s', hs'⟩ := Option.isSome_iff_exists.mp hstate.2
  exact ⟨s, hs, deleted_terminal (Reachable.run .init hs) hs' hstate.1⟩

/-- The late section of the first task suspends the deleted task, which is resumed and then dispatched. -/
theorem deleted_revived : ¬ ∀ (config : Config) (s s' : Sys) (es : List Event) (t : Tid),
    Reachable config s → s.run es = some s' → (s.k.tcb t).state = .deleted →
      (s'.k.tcb t).state = .deleted := by
  intro hall
  have hrun : ((Sys.run (Sys.init .small) Sys.deleteRun).map fun s =>
      ((s.k.tcb 2).state, (s.run Sys.reviveRun).map fun s' => ((s'.k.tcb 2).state, s'.k.currentTask))) =
      some (.deleted, some (.running, some 2)) := by decide +kernel
  obtain ⟨s, hs, hstate⟩ := Option.map_eq_some_iff.mp hrun
  rw [Prod.mk.injEq] at hstate
  obtain ⟨s', hs', hstate'⟩ := Option.map_eq_some_iff.mp hstate.2
  rw [Prod.mk.injEq] at hstate'
  have hd := hall .small s s' Sys.reviveRun 2 (Reachable.run .init hs) hs' hstate.1
  rw [hd] at hstate'
  cases hstate'.1

end AcRtos
