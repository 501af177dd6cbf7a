import AcRtos.QueueWaits
import AcRtos.ReadyOrder

/-!
# Strict priority scheduling

`Core.Calm`: the current task runs and no ready task has a higher priority. An action either keeps this or belongs
to a visit that owes a context switch (`calm_apply`); a dispatch establishes it. Between the steps of the machine
the kernel is calm unless PendSV is pending or the running context is about to request it (`Sys.Ordered`).
-/

namespace AcRtos

open Lib Abs

/-- The current task runs, and no ready task, `x` left aside, has a higher priority. -/
def Core.Calm (e : Core) (x : Option Tid) : Prop :=
  ∃ c, e.currentTask = some c ∧ (e.tcb c).state = .running ∧
    ∀ t < e.taskCount, (e.tcb t).state = .ready → some t ≠ x → (e.tcb t).priority ≤ (e.tcb c).priority

theorem Core.Calm.mono {e : Core} {x : Option Tid} (h : e.Calm none) : e.Calm x := by
  obtain ⟨c, hcur, hrun, htop⟩ := h
  exact ⟨c, hcur, hrun, fun t hlt hs _ => htop t hlt hs nofun⟩

namespace Abs

variable {a a' : Abs} {v : Visit} {act : Action} {acts : List Action} {x : Option Tid} {c t u : Tid}

/-- A task that the visit need not yield to has no higher priority. -/
theorem le_of_preempts (hs : a.started = true) (hcur : a.currentTask = some c) (howed : v.owed = false)
    (hp : a.preempts t = true → v.owed = true) : (a.tcb t).priority ≤ (a.tcb c).priority := by
  by_contra hlt
  have : a.preempts t = true := by
    simp only [Core.preempts, hs, hcur, Bool.true_and, decide_eq_true_eq]
    omega
  rw [hp this] at howed
  cases howed

theorem priority_apply (hwf : a.WF) (he : act.Enabled a) (hf : act.Fits v a) (howed : v.owed = false)
    (hinit : ∀ site p, act ≠ .initTcb u site p) : ((act.apply a).tcb u).priority = (a.tcb u).priority := by
  rw [apply_tcb hwf he]
  cases act with
  | park w t timeout => rw [hf.2.2.2] at howed; cases howed
  | initTcb t site p =>
    have hu : u ≠ t := fun heq => hinit site p (by rw [heq])
    rw [Action.tcb, if_neg hu]
  | release m t =>
    simp only [Action.tcb]
    split
    · rename_i hu
      subst hu
      exact hf.2.2 howed
    · rfl
  | pass m t next =>
    simp only [Action.tcb]
    split
    · rename_i hu
      subst hu
      exact hf.2.2.2 howed
    · split <;> rfl
  | _ =>
    simp only [Action.tcb]
    first
      | done
      | rfl
      | (split <;> simp)

theorem runs_on_apply (hwf : a.WF) (he : act.Enabled a) (hf : act.Fits v a) (hv : v.entry ≠ .pendSV)
    (howed : v.owed = false) (hcur : a.currentTask = some c) (hrun : (a.tcb c).state = .running) :
    ((act.apply a).tcb c).state = .running := by
  rcases shift hwf he c with hsame | hshift
  · rw [hsame, hrun]
  · generalize ((act.apply a).tcb c).state = st at hshift ⊢
    have howes : v.owed = true → st = .running := fun ho => by
      rw [ho] at howed
      cases howed
    cases hshift with
    | alloc heq => exact absurd (hwf.current_lt c hcur) (by rw [heq]; exact Nat.lt_irrefl _)
    | switch hst => rfl
    | ready hst =>
      rcases hf.1 with ⟨-, hsus⟩ | ⟨hp, -⟩
      · rw [hrun] at hsus
        cases hsus
      · exact absurd hp hv
    | sleep n hst => exact howes hf.2.2.2
    | park w timeout hst => exact howes hf.2.2.2
    | expire hst => rw [hrun] at hst; cases hst
    | hand hd hw => rw [(hwf.ok c).waits (by simp [hw])] at hrun; cases hrun
    | pass m y hw => rw [(hwf.ok c).waits (by simp [hw])] at hrun; cases hrun
    | retire st hst => exact howes (hf.2 hcur).2.2

theorem calm_apply (h : a.Calm x) (hwf : a.WF) (hs : a.started = true) (he : act.Enabled a) (hf : act.Fits v a)
    (hv : v.entry ≠ .pendSV) (hv' : v.entry ≠ .sysTick) (howed : v.owed = false) : (act.apply a).Calm x := by
  obtain ⟨c, hcur, hrun, htop⟩ := h
  have hcur' : (act.apply a).currentTask = some c := by
    rw [apply_currentTask he]
    split
    · exact absurd (congrArg Visit.entry hf) hv
    · exact hcur
  have hrun' := runs_on_apply hwf he hf hv howed hcur hrun
  have hpc : ((act.apply a).tcb c).priority = (a.tcb c).priority := by
    refine priority_apply hwf he hf howed ?_
    rintro site p rfl
    rw [he.2.1] at hrun
    cases hrun
  refine ⟨c, hcur', hrun', fun t hlt hready hx => ?_⟩
  have hpt : ((act.apply a).tcb t).priority = (a.tcb t).priority := by
    refine priority_apply hwf he hf howed ?_
    rintro site p rfl
    rw [apply_tcb hwf he, Action.tcb, if_pos rfl, show (_ : TaskControlBlock).state = (a.tcb t).state from rfl,
      he.2.1] at hready
    cases hready
  rw [hpt, hpc]
  have hle : (a.preempts t = true → v.owed = true) → (a.tcb t).priority ≤ (a.tcb c).priority :=
    le_of_preempts hs hcur howed
  rcases shift hwf he t with hsame | hshift
  · rw [hsame] at hready
    refine htop t ?_ hready hx
    -- a new control block is suspended
    rw [apply_taskCount he] at hlt
    cases act with
    | alloc =>
      refine Nat.lt_of_le_of_ne (Nat.le_of_lt_succ hlt) ?_
      rintro rfl
      rw [← hsame, apply_tcb hwf he, Action.tcb, if_pos rfl] at hready
      cases hready
    | _ => exact hlt
  · rw [hready] at hshift
    cases hshift with
    | retire _ hst => rcases hst with ⟨hst, -⟩ | hst <;> cases hst
    | ready hst => exact hle hf.2
    | expire hst => exact absurd hf hv'
    | hand hd hw => exact hle hf.2
    | pass m y hw => exact hle hf.2.2.1

theorem calm_runs (h : a.Calm x) (hruns : Runs v a acts a') (hwf : a.WF) (hs : a.started = true)
    (hv : v.entry ≠ .pendSV) (hv' : v.entry ≠ .sysTick) (howed : v.owed = false) : a'.Calm x := by
  have hall : a'.started = true ∧ a'.Calm x := by
    refine hruns.keeps (P := fun b => b.started = true ∧ b.Calm x) hwf ⟨hs, h⟩ ?_
    rintro act b hwf ⟨hs, hcalm⟩ he hf
    refine ⟨?_, calm_apply hcalm hwf hs he hf hv hv' howed⟩
    rw [apply_started he]
    split
    · rfl
    · exact hs
  exact hall.2

end Abs

/-! ### Between the steps -/

/-- The task that has just become ready and is still to be compared with the current task. -/
def Pc.fresh : Pc → Option Tid
  | .create (.preempt t) _ _ _ => some t
  | _ => none

theorem Pc.fresh_eq {p : Pc} {t : Tid} (h : p.fresh = some t) : ∃ site f q, p = .create (.preempt t) site f q := by
  unfold Pc.fresh at h
  split at h
  · cases h
    exact ⟨_, _, _, rfl⟩
  · cases h

namespace Sys

/-- Handlers yield when a call of theirs reports that a yield is due. -/
def Obliges (s : Sys) (e : Event) : Prop :=
  ∀ c yield, e = .isr c yield → (isrCall c (s.k.emit (.isrCall c))).1.2 = true → yield = true

/-- Unless a context switch is pending or due, the kernel is calm. -/
def Ordered (s : Sys) : Prop :=
  s.k.started = true → s.pend = true ∨ (s.pc s.k.self).owes = true ∧ (s.pc s.k.self).fresh = none ∨
    s.k.Calm (s.pc s.k.self).fresh

theorem created_pend (c : Ctx) (site : Site) (x : Option Tid) (k : Kernel) (s : Sys) :
    (s.created c site x k).pend = s.pend := by
  unfold created
  split <;> rfl

theorem beginCall_pend (c : Ctx) (call : Call) (s : Sys) : (s.beginCall c call).pend = s.pend := by
  unfold beginCall
  cases call with
  | start => simp only; split <;> rfl
  | suspend x => cases x <;> rfl
  | resume x => cases x <;> rfl
  | terminate x => cases x <;> rfl
  | waitBits g mask all clear ms =>
    simp only
    split
    · rfl
    · split <;> rfl
  | _ => rfl

theorem advanceCreate_pend (c : Ctx) (phase : CreatePhase) (site : Site) (f : Callable) (p : Nat) {s : Sys}
    (h : s.pend = true) : (s.advanceCreate c phase site f p).pend = true := by
  cases phase with
  | testFlag =>
    simp only [advanceCreate]
    split
    · rw [created_pend, h]
    · exact h
  | alloc =>
    simp only [advanceCreate]
    split
    · rw [created_pend, h]
    · exact h
  | ready t =>
    simp only [advanceCreate]
    split <;> exact h
  | preempt t =>
    simp only [advanceCreate]
    split
    · rfl
    · rw [created_pend, h]
  | _ => exact h

theorem advance_pend {c : Ctx} {s s' : Sys} (hs : s.advance c = some s') (h : s.pend = true) : s'.pend = true := by
  unfold advance at hs
  split at hs
  case h_3 phase site f p _ =>
    cases hs
    exact advanceCreate_pend c phase site f p h
  all_goals first
    | cases hs
    | (split at hs <;> cases hs)
  all_goals first
    | exact h
    | rfl

end Sys

namespace Abs

variable {a : Abs} {u : Tid}

theorem putBack_tcb (hwf : a.WF) : (a.putBack.tcb u).priority = (a.tcb u).priority ∧
    (a.putBack.tcb u).state = if (a.tcb u).state = .running then .ready else (a.tcb u).state := by
  unfold Abs.putBack
  split
  · rename_i hnone
    refine ⟨rfl, ?_⟩
    split
    · rename_i hrun
      rw [(hwf.ok u).running hrun] at hnone
      cases hnone
    · rfl
  · rename_i c hcur
    have hsave := Rep.saveSp_tcb (a := a) c u
    have hother : u ≠ c → (a.tcb u).state ≠ .running := fun hu hrun => by
      rw [(hwf.ok u).running hrun] at hcur
      exact hu (Option.some.inj hcur)
    split
    · rename_i hrun
      rw [Abs.ready, move_tcb]
      by_cases hu : u = c
      · subst hu
        rw [if_pos rfl, if_pos hrun]
        exact ⟨hsave.1, rfl⟩
      · rw [if_neg hu, if_neg (hother hu)]
        exact hsave
    · rename_i hrun
      refine ⟨hsave.1, ?_⟩
      rw [hsave.2, if_neg]
      by_cases hu : u = c
      · rw [hu]
        exact hrun
      · exact hother hu

theorem storeSp_core (psp : Nat) : (a.storeSp psp).tcb = a.tcb ∧ (a.storeSp psp).currentTask = a.currentTask ∧
    (a.storeSp psp).taskCount = a.taskCount := by
  unfold Abs.storeSp
  split <;> exact ⟨rfl, rfl, rfl⟩

end Abs

section
variable {s s' : Sys} {k : Kernel} {a : Abs} {c t : Tid} {x : Option Tid}

theorem Rep.le_of_not_needed (h : Rep k a) (hwf : a.WF) (hcur : a.currentTask = some c)
    (hn : Scheduler.needsPreemption k = false) (hlt : t < a.taskCount) (hready : (a.tcb t).state = .ready) :
    (a.tcb t).priority ≤ (a.tcb c).priority := by
  have hmem := hwf.mem_ready.mpr ⟨hlt, hready, rfl⟩
  have hmask : k.readyBitmask ≠ 0 := fun hz => by
    rw [(h.mask_zero hwf.ready_high).mp hz] at hmem
    cases hmem
  have htop := h.topPriority hwf.ready_high hmask
  have hle : (a.tcb t).priority ≤ ReadyManager.topPriority k.readyBitmask := by
    by_contra hgt
    rw [htop.2 _ (Nat.not_le.mp hgt)] at hmem
    cases hmem
  unfold Scheduler.needsPreemption at hn
  rw [h.core_eq, hcur] at hn
  simp only [Bool.and_eq_false_iff, bne_eq_false_iff_eq, decide_eq_false_iff_not] at hn
  have := hn.resolve_left hmask
  omega

theorem Inv.calm_tick (h : Inv s a) (hcalm : s.k.Calm x) (hs : s.step .tick = some s') (hpend : s'.pend = false) :
    s'.k.Calm x := by
  obtain ⟨acts, a', hruns, hinv⟩ := h.step hs
  obtain ⟨c, hcur, hrun, -⟩ := hcalm
  have hpass := hruns.passes h.wf
  rw [h.rep.core_eq] at hcur hrun
  have hcur' : a'.currentTask = some c := (hpass.current (by simp [Sys.visit, Visit.sysTick])).trans hcur
  have hrun' : (a'.tcb c).state = .running := by
    rcases hpass.running (by simp [Sys.visit, Visit.sysTick]) c hcur hrun with hr | ⟨-, hg⟩
    · exact hr
    · cases hg
  have hn : Scheduler.needsPreemption s'.k = false := by
    obtain ⟨-, -, -, rfl⟩ := Sys.step_tick.mp hs
    exact (Bool.or_eq_false_iff.mp hpend).2
  rw [hinv.rep.core_eq]
  exact ⟨c, hcur', hrun', fun t hlt hready _ => hinv.rep.le_of_not_needed hinv.wf hcur' hn hlt hready⟩

/-- The task that PendSV dispatches has the highest priority of all that are ready or running. -/
theorem Inv.dispatches (h : Inv s a) {psp : Nat} (hs : s.step (.pendSV psp) = some s') :
    ∃ c, s'.k.currentTask = some c ∧ (s'.k.tcb c).state = .running ∧
      ((s.k.tcb c).state = .ready ∨ (s.k.tcb c).state = .running) ∧
      (∀ t, (s'.k.tcb t).priority = (s.k.tcb t).priority) ∧ s'.k.taskCount = s.k.taskCount ∧
      (∀ t < s.k.taskCount, (s.k.tcb t).state = .ready ∨ (s.k.tcb t).state = .running →
        (s.k.tcb t).priority ≤ (s.k.tcb c).priority) ∧
      ∀ t, (s'.k.tcb t).state = .ready → (s.k.tcb t).state = .ready ∨ (s.k.tcb t).state = .running := by
  obtain ⟨-, hpend, -, hs'⟩ := Sys.step_pendSV.mp hs
  obtain ⟨c, p, acts, hruns, htop, hhead, hen, hrep⟩ := h.dispatch hpend psp
  obtain ⟨acts₁, hstore⟩ := Rep.storeSp_runs (a := a) psp
  have hwf := hruns.wf h.wf
  have htcb := fun u => putBack_tcb (u := u) (hstore.wf h.wf)
  obtain ⟨hsame, -, hcount⟩ := storeSp_core (a := a) psp
  have hcount' : (a.storeSp psp).putBack.taskCount = a.taskCount := by
    rcases (hruns.passes h.wf).count with heq | ⟨-, site, f, q, hb⟩
    · exact heq
    · cases hb
  simp only [hsame] at htcb
  generalize (a.storeSp psp).putBack = b at hwf htop hhead hen hrep htcb hcount'
  replace hrep : Rep s'.k (b.switch c) := by
    rw [hs']
    exact hrep
  have hc := hwf.mem_ready.mp (List.mem_of_mem_head? hhead)
  have hswitch : ∀ u, (b.switch c).tcb u = if u = c then { b.tcb u with state := .running } else b.tcb u :=
    fun u => move_tcb
  have hwas : ∀ u, (b.tcb u).state = .ready → (a.tcb u).state = .ready ∨ (a.tcb u).state = .running :=
    fun u hu => by
    rw [(htcb u).2] at hu
    split at hu
    · exact Or.inr ‹_›
    · exact Or.inl hu
  rw [hrep.core_eq, h.rep.core_eq]
  refine ⟨c, rfl, by rw [hswitch, if_pos rfl], hwas c hc.2.1, fun u => ?_, hcount', fun u hlt hu => ?_,
    fun u hu => ?_⟩
  · rw [hswitch]
    split <;> exact (htcb u).1
  · have hready : (b.tcb u).state = .ready := by
      rw [(htcb u).2]
      split
      · rfl
      · rename_i hne
        exact hu.resolve_right hne
    rw [← (htcb u).1, ← (htcb c).1, hc.2.2]
    by_contra hgt
    have hmem := hwf.mem_ready.mpr ⟨by rw [hcount']; exact hlt, hready, rfl⟩
    rw [htop.2 _ (Nat.not_le.mp hgt)] at hmem
    cases hmem
  · rw [hswitch] at hu
    split at hu
    · cases hu
    · exact hwas u hu

theorem Inv.calm_pendSV (h : Inv s a) {psp : Nat} (hs : s.step (.pendSV psp) = some s') : s'.k.Calm none := by
  obtain ⟨c, hcur, hrun, -, hprio, hcount, htop, hwas⟩ := h.dispatches hs
  refine ⟨c, hcur, hrun, fun t hlt hready _ => ?_⟩
  rw [hprio, hprio]
  exact htop t (by rw [← hcount]; exact hlt) (hwas t hready)

end

/-! ### Steps of the running context -/

namespace Sys

variable {s s' : Sys} {c : Ctx} {t : Tid}

theorem setPc_self (c : Ctx) (p : Pc) (s : Sys) : (s.setPc c p).pc c = p := Function.update_self _ _ _

theorem settle_fresh (c : Ctx) (r : Outcome × Kernel) (s : Sys) : ((s.settle c r).pc c).fresh = none := by
  rw [settle, setPc_self]
  obtain ⟨o, k⟩ := r
  cases o with
  | ret r y => cases y <;> rfl
  | wait w => rfl

theorem created_fresh (c : Ctx) (site : Site) (x : Option Tid) (k : Kernel) (s : Sys) :
    ((s.created c site x k).pc c).fresh = none := by
  unfold created
  split <;> rw [setPc_self] <;> rfl

theorem beginCall_fresh (c : Ctx) (call : Call) (s : Sys) : ((s.beginCall c call).pc c).fresh = none := by
  have hset : ∀ k p, p.fresh = none → (((s.setK k).setPc c p).pc c).fresh = none := fun k p hp => by
    rw [setPc_self, hp]
  have hsettle := settle_fresh c
  unfold beginCall
  cases call with
  | start => simp only; split <;> exact hset _ _ rfl
  | suspend x =>
    cases x with
    | none => exact hset _ _ rfl
    | some t => refine hset _ _ ?_; split <;> rfl
  | terminate x =>
    cases x with
    | none => exact hset _ _ rfl
    | some t => refine hset _ _ ?_; split <;> rfl
  | resume x => cases x <;> exact hset _ _ rfl
  | waitBits g mask all clear ms =>
    simp only
    split
    · exact hsettle _ _
    · split
      · exact hsettle _ _
      · exact hset _ _ rfl
  | createTask site f p => exact hset _ _ rfl
  | yield => exact hset _ _ rfl
  | enterCritical => exact hset _ _ rfl
  | exitCritical => exact hset _ _ rfl
  | _ => exact hsettle _ _

theorem advance_yields (hs : s.advance c = some s') (ho : (s.pc c).owes = true) (hf : (s.pc c).fresh = none) :
    s'.pend = true := by
  unfold advance at hs
  cases hpc : s.pc c with
  | create phase site f p =>
    rw [hpc] at ho hf
    cases phase with
    | preempt t => cases hf
    | _ => cases ho
  | yield r => rw [hpc] at hs; cases hs; rfl
  | yieldWait w => rw [hpc] at hs; cases hs; rfl
  | startYield => rw [hpc] at hs; cases hs; rfl
  | _ => rw [hpc] at ho; cases ho

theorem advance_preempt {site : Site} {f : Callable} {p : Nat} (hs : s.advance c = some s')
    (hpc : s.pc c = .create (.preempt t) site f p) :
    s'.k = s.k ∧ (s'.pc c).fresh = none ∧ (s'.pend = true ∨ s.k.preempts t = false) := by
  have hk : (s.created c site (some t) s.k).k = s.k := by
    unfold created
    split
    · exact Rep.check_true s.k .noSlotForIdle
    · rfl
  have hfresh := created_fresh c site (some t) s.k s
  unfold advance at hs
  rw [hpc] at hs
  simp only [advanceCreate, Option.some.injEq] at hs
  subst hs
  split
  · exact ⟨hk, hfresh, Or.inl rfl⟩
  · rename_i hp
    rw [hk] at hp
    exact ⟨hk, hfresh, Or.inr (by simpa using hp)⟩

theorem advance_fresh (hs : s.advance c = some s') (hf : (s'.pc c).fresh = some t) :
    (∃ site f p, s.pc c = .create (.ready t) site f p) ∧ s'.k = Scheduler.addToReadyQueue t s.k := by
  unfold advance at hs
  cases hpc : s.pc c with
  | create phase site f p =>
    rw [hpc] at hs
    cases hs
    cases phase with
    | ready u =>
      simp only [advanceCreate] at hf ⊢
      have hu : u = t := by
        split at hf <;> · rw [setPc_self] at hf; cases hf; rfl
      subst hu
      refine ⟨⟨site, f, p, rfl⟩, ?_⟩
      split <;> rfl
    | testFlag =>
      simp only [advanceCreate] at hf
      split at hf
      · rw [created_fresh] at hf
        cases hf
      · rw [setPc_self] at hf
        cases hf
    | alloc =>
      simp only [advanceCreate] at hf
      split at hf
      · rw [created_fresh] at hf
        cases hf
      · rw [setPc_self] at hf
        cases hf
    | preempt u =>
      simp only [advanceCreate] at hf
      split at hf <;> · rw [created_fresh] at hf; cases hf
    | _ =>
      simp only [advanceCreate] at hf
      rw [setPc_self] at hf
      cases hf
  | finish w =>
    rw [hpc] at hs
    simp only at hs
    split at hs
    · cases hs
    · cases hs
      rw [setPc_self] at hf
      unfold afterWait at hf
      cases w <;> simp only at hf <;> first | cases hf | (split at hf <;> cases hf)
  | waitBody g mask all clear ms =>
    rw [hpc] at hs
    simp only at hs
    split at hs
    · cases hs
    · cases hs
      rw [settle_fresh] at hf
      cases hf
  | user => rw [hpc] at hs; cases hs
  | halted => rw [hpc] at hs; cases hs
  | suspendBody u => rw [hpc] at hs; cases hs; rw [settle_fresh] at hf; cases hf
  | resumeBody u => rw [hpc] at hs; cases hs; rw [settle_fresh] at hf; cases hf
  | deleteBody u => rw [hpc] at hs; cases hs; rw [settle_fresh] at hf; cases hf
  | reread g => rw [hpc] at hs; cases hs; rw [settle_fresh] at hf; cases hf
  | _ =>
    rw [hpc] at hs
    cases hs
    rw [show (_ : Sys).pc c = _ from setPc_self c _ _] at hf
    cases hf

end Sys

section
variable {s s' : Sys} {a a' : Abs} {acts : List Action} {e : Event} {c : Ctx} {t : Tid}

theorem Inv.self_step (h : Inv s a) (hs : s.step e = some s') (hne : ∀ psp, e ≠ .pendSV psp) :
    s'.k.self = s.k.self := by
  obtain ⟨acts, a', hruns, hinv⟩ := h.step hs
  have hcur : a'.currentTask = a.currentTask := (hruns.passes h.wf).current (by
    cases e with
    | pendSV psp => exact absurd rfl (hne psp)
    | _ => simp [Sys.visit, Visit.call, Visit.handler, Visit.sysTick])
  rw [hinv.self_eq, h.self_eq]
  simp only [Core.self, hcur]

theorem Inv.calm_call (h : Inv s a) (hcalm : s.k.Calm none) (hs : s.step e = some s')
    (he : (∃ x, e = .call x) ∨ e = .advance) (hstarted : s.k.started = true)
    (howed : (s'.pc s.k.self).owes = false) : s'.k.Calm none := by
  obtain ⟨acts, a', hruns, hinv⟩ := h.step hs
  rw [h.rep.core_eq] at hcalm hstarted
  rw [hinv.rep.core_eq]
  rcases he with ⟨x, rfl⟩ | rfl <;>
    exact calm_runs hcalm hruns h.wf hstarted (by simp [Sys.visit, Visit.call]) (by simp [Sys.visit, Visit.call]) howed

theorem Inv.calm_ready (h : Inv s a) (hcalm : s.k.Calm none) {site : Site} {f : Callable} {p : Nat}
    (hpc : s.pc s.k.self = .create (.ready t) site f p) (hk : s'.k = Scheduler.addToReadyQueue t s.k) :
    s'.k.Calm (some t) := by
  have hb : Builds s a t := h.control.building (c := s.k.self) (by rw [hpc]; rfl)
  have hrep : Rep s'.k (a.ready t) := by
    rw [hk]
    exact h.rep.ready h.wf (Or.inl hb.suspended)
  have htcb : ∀ u, (a.ready t).tcb u = if u = t then { a.tcb u with state := .ready } else a.tcb u :=
    fun u => move_tcb
  rw [h.rep.core_eq] at hcalm
  obtain ⟨c, hcur, hrun, htop⟩ := hcalm
  have hc : c ≠ t := by
    rintro rfl
    rw [hb.suspended] at hrun
    cases hrun
  rw [hrep.core_eq]
  refine ⟨c, hcur, by rw [htcb, if_neg hc]; exact hrun, fun u hlt hready hu => ?_⟩
  have hu' : u ≠ t := fun heq => hu (by rw [heq])
  rw [htcb, if_neg hu'] at hready
  rw [htcb, if_neg hu', htcb, if_neg hc]
  exact htop u hlt hready nofun

theorem Sys.Ordered.call (hord : s.Ordered) (h : Inv s a) (hs : s.step e = some s')
    (he : (∃ x, e = .call x) ∨ e = .advance) : s'.Ordered := by
  have hself : s'.k.self = s.k.self := h.self_step hs (by rcases he with ⟨x, rfl⟩ | rfl <;> simp)
  -- what the step does, by its kind
  have hkind : (s.pc s.k.self = .user ∧ (s'.pc s.k.self).fresh = none ∧ s'.pend = s.pend) ∨
      s.advance s.k.self = some s' := by
    rcases he with ⟨x, rfl⟩ | rfl
    · obtain ⟨-, -, hpc, -, -, rfl⟩ := Sys.step_call.mp hs
      exact Or.inl ⟨hpc, beginCall_fresh _ _ _, beginCall_pend _ _ _⟩
    · exact Or.inr (Sys.step_advance.mp hs).2.2
  intro hstarted'
  rw [hself]
  by_cases hstarted : s.k.started = true
  · rcases hord hstarted with hpend | ⟨ho, hf⟩ | hcalm
    · rcases hkind with ⟨-, -, heq⟩ | hadv
      · exact Or.inl (heq.trans hpend)
      · exact Or.inl (advance_pend hadv hpend)
    · rcases hkind with ⟨hpc, -⟩ | hadv
      · rw [hpc] at ho
        cases ho
      · exact Or.inl (advance_yields hadv ho hf)
    · cases hf : (s.pc s.k.self).fresh with
      | none =>
        rw [hf] at hcalm
        cases hf' : (s'.pc s.k.self).fresh with
        | none =>
          cases ho : (s'.pc s.k.self).owes with
          | true => exact Or.inr (Or.inl ⟨rfl, rfl⟩)
          | false => exact Or.inr (Or.inr (h.calm_call hcalm hs he hstarted ho))
        | some t =>
          rcases hkind with ⟨-, hnone, -⟩ | hadv
          · rw [hnone] at hf'
            cases hf'
          · obtain ⟨⟨site, f, p, hpc⟩, hk⟩ := advance_fresh hadv hf'
            exact Or.inr (Or.inr (h.calm_ready hcalm hpc hk))
      | some t =>
        -- the new task is compared with the current one
        obtain ⟨site, f, p, hpc⟩ := Pc.fresh_eq hf
        rcases hkind with ⟨huser, -⟩ | hadv
        · rw [huser] at hpc
          cases hpc
        · obtain ⟨hk, hnone, hp⟩ := advance_preempt hadv hpc
          rcases hp with hpend | hp
          · exact Or.inl hpend
          · rw [hf] at hcalm
            obtain ⟨c, hcur, hrun, htop⟩ := hcalm
            rw [hnone, hk]
            refine Or.inr (Or.inr ⟨c, hcur, hrun, fun u hlt hready _ => ?_⟩)
            by_cases hu : u = t
            · subst hu
              simpa [Core.preempts, hstarted, hcur] using hp
            · exact htop u hlt hready (by simpa using hu)
  · -- only the end of `start()` starts the scheduler
    obtain ⟨acts, a', hruns, hinv⟩ := h.step hs
    rcases (hruns.passes h.wf).started with heq | ⟨hb, -⟩
    · rw [h.rep.core_eq] at hstarted
      rw [hinv.rep.core_eq, heq] at hstarted'
      exact absurd hstarted' hstarted
    · have hpc : s.pc s.k.self = .startRun := by rcases he with ⟨x, rfl⟩ | rfl <;> exact hb
      rcases hkind with ⟨huser, -⟩ | hadv
      · rw [huser] at hpc
        cases hpc
      · unfold advance at hadv
        rw [hpc] at hadv
        cases hadv
        exact Or.inr (Or.inl (by rw [setPc_self]; exact ⟨rfl, rfl⟩))

theorem Sys.Ordered.interrupt (hord : s.Ordered) (hpc : s'.pc = s.pc) (hself : s'.k.self = s.k.self)
    (hstarted : s'.k.started = s.k.started) (hkeep : s.pend = true → s'.pend = true)
    (hcalm : ∀ x, s.k.Calm x → s.k.started = true → s'.pend = true ∨ s'.k.Calm x) : s'.Ordered := by
  intro hs
  rw [hstarted] at hs
  rw [hpc, hself]
  rcases hord hs with hpend | howes | hc
  · exact Or.inl (hkeep hpend)
  · exact Or.inr (Or.inl howes)
  · exact (hcalm _ hc hs).imp_right Or.inr

theorem Sys.Ordered.step (hord : s.Ordered) (h : Inv s a) (hg : s.Obliges e) (hs : s.step e = some s') :
    s'.Ordered := by
  obtain ⟨acts, a', hruns, hinv⟩ := h.step hs
  have hpass := hruns.passes h.wf
  have hstarted : s.visit e s' = .sysTick ∨ (∃ y, s.visit e s' = .handler y) → s'.k.started = s.k.started := by
    intro hv
    rcases hpass.started with heq | ⟨hb, -⟩
    · rw [hinv.rep.core_eq, h.rep.core_eq, heq]
    · rcases hv with hv | ⟨y, hv⟩ <;> rw [hv] at hb <;> cases hb
  cases e with
  | call x => exact hord.call h hs (Or.inl ⟨x, rfl⟩)
  | advance => exact hord.call h hs (Or.inr rfl)
  | pendSV psp => exact fun _ => Or.inr (Or.inr (h.calm_pendSV hs).mono)
  | tick =>
    have hself := h.self_step hs (by simp)
    obtain ⟨-, -, -, hs'⟩ := Sys.step_tick.mp hs
    refine hord.interrupt (by rw [hs']; rfl) hself (hstarted (Or.inl rfl)) ?_ fun x hc _ => ?_
    · intro hp
      simp [hs', hp]
    · cases hpend : s'.pend with
      | true => exact Or.inl rfl
      | false => exact Or.inr (h.calm_tick hc hs hpend)
  | isr c yield =>
    have hself := h.self_step hs (by simp)
    obtain ⟨hpc, hpend⟩ : s'.pc = s.pc ∧ s'.pend = (s.pend || yield) := by
      obtain ⟨-, -, -, -, rfl⟩ := Sys.step_isr.mp hs
      exact ⟨rfl, rfl⟩
    refine hord.interrupt hpc hself (hstarted (Or.inr ⟨_, rfl⟩)) (fun hp => by rw [hpend, hp]; rfl)
      fun x hc hst => ?_
    cases hy : (Sys.isrCall c (s.k.emit (.isrCall c))).1.2 with
    | true =>
      left
      rw [hpend, hg c yield rfl hy, Bool.or_true]
    | false =>
      right
      rw [h.rep.core_eq] at hc hst
      rw [hinv.rep.core_eq]
      exact calm_runs hc hruns h.wf hst (by simp [Sys.visit, Visit.handler]) (by simp [Sys.visit, Visit.handler]) hy

end

theorem Tracks.ordered {config : Config} {s : Sys} {a : Abs} (h : Tracks config Sys.Obliges s a) : s.Ordered := by
  induction h with
  | init => exact nofun
  | step e h hg hs hruns hinv ih => exact ih.step h.inv hg hs

/-- In a run in which handlers yield when they are told to: the idle task is always ready or running, so that every
dispatch finds a ready task, and it takes one of the highest priority among the ready tasks and the one that ran; and
when no context switch is pending or owed, the current task runs and no ready task has a higher priority. -/
theorem strict_priority {config : Config} {s : Sys} {es : List Event} (hrun : (Sys.init config).run es = some s)
    (hes : (Sys.init config).Each Sys.Obliges es) :
    (s.k.started = true → ∃ i, s.idle = some i ∧
      ((s.k.tcb i).state = .ready ∨ (s.k.tcb i).state = .running)) ∧
    s.k.fault ≠ some (.assert .readyQueueEmpty) ∧
    (∀ psp s', s.step (.pendSV psp) = some s' → ∃ c, s'.k.currentTask = some c ∧
      (s'.k.tcb c).state = .running ∧
      ((s.k.tcb c).state = .ready ∨ s.k.currentTask = some c ∧ (s.k.tcb c).state = .running) ∧
      ∀ t < s.k.taskCount, (s.k.tcb t).state = .ready ∨ (s.k.tcb t).state = .running →
        (s.k.tcb t).priority ≤ (s.k.tcb c).priority) ∧
    (s.k.started = true → s.pend = false → (s.pc s.k.self).owes = false →
      ∃ c, s.k.currentTask = some c ∧ (s.k.tcb c).state = .running ∧
        ∀ t < s.k.taskCount, (s.k.tcb t).state = .ready → (s.k.tcb t).priority ≤ (s.k.tcb c).priority) := by
  obtain ⟨a, htracks⟩ := (Tracks.init : Tracks config Sys.Obliges _ _).run hrun hes
  have hinv := htracks.inv
  refine ⟨fun hs => ?_, fun hf => ?_, fun psp s' hs => ?_, fun hs hpend howes => ?_⟩
  · rw [hinv.rep.core_eq] at hs ⊢
    obtain ⟨i, hi⟩ := Option.ne_none_iff_exists'.mp (hinv.control.booted hs)
    exact ⟨i, hi, (hinv.control.idle i hi).2.2⟩
  · have := (Reachable.run .init hrun).fault_expected hf
    cases this
  · obtain ⟨c, hcur, hr, hwas, -, -, htop, -⟩ := hinv.dispatches hs
    refine ⟨c, hcur, hr, hwas.imp_right fun hr' => ⟨?_, hr'⟩, htop⟩
    rw [hinv.rep.core_eq] at hr' ⊢
    exact (hinv.wf.ok c).running hr'
  · rcases htracks.ordered hs with hp | ⟨ho, -⟩ | ⟨c, hcur, hr, htop⟩
    · rw [hp] at hpend
      cases hpend
    · rw [ho] at howes
      cases howes
    · refine ⟨c, hcur, hr, fun t hlt hready => htop t hlt hready ?_⟩
      intro hf
      obtain ⟨site, f, q, hpc⟩ := Pc.fresh_eq hf.symm
      rw [hpc] at howes
      cases howes

/-- Two tasks; the lower one gives a token that the higher one waits for, and yields. -/
def Sys.wakeRun : List Event := createRun 1 1 ++ createRun 2 3 ++ startRun ++
  [.call (.take 0 kWaitForever), .advance, .pendSV 0, .call (.give 0), .advance, .pendSV 0]

theorem strict_priority_wake : ∃ s, Sys.run (Sys.init .small) Sys.wakeRun = some s ∧
    ∃ c, s.k.currentTask = some c ∧ (s.k.tcb 0).priority ≤ (s.k.tcb c).priority := by
  have hrun : ((Sys.run (Sys.init .small) Sys.wakeRun).map fun s =>
      (s.k.started, s.pend, (s.pc s.k.self).owes, s.k.taskCount, (s.k.tcb 0).state)) =
      some (true, false, false, 3, .ready) := by decide +kernel
  obtain ⟨s, hs, heq⟩ := Option.map_eq_some_iff.mp hrun
  simp only [Prod.mk.injEq] at heq
  obtain ⟨hstarted, hpend, howes, hcount, hready⟩ := heq
  have hquiet : ∀ e ∈ Sys.wakeRun, (match e with | .isr _ _ => false | _ => true) = true := by decide
  have hes : (Sys.init .small).Each Sys.Obliges Sys.wakeRun := by
    refine Sys.each_of_forall (fun e he s c y heq => ?_) _
    subst heq
    cases hquiet _ he
  obtain ⟨-, -, -, hcalm⟩ := strict_priority hs hes
  obtain ⟨c, hcur, -, htop⟩ := hcalm hstarted hpend howes
  exact ⟨s, hs, c, hcur, htop 0 (by rw [hcount]; decide) hready⟩

end AcRtos
