import AcRtos.Lifecycle

/-!
# Waits with a timeout

While a task waits, every tick takes one off its count and nothing else does (`Inv.waits_step`, `Reachable.waits_run`).
So a wait that began with a timeout of `n` ticks ends with the `n`-th tick at the latest, and no tick ends a wait for
ever. The flag that the call reads on its return tells an end by time, or by a suspension, from being served
(`timed_wait`).
-/

namespace AcRtos

open Lib Abs

namespace Sys

/-- What the step `e` makes of the wait of `t` for `w` with `left` ticks to go. -/
inductive WaitGoes (s : Sys) (e : Event) (s' : Sys) (t : Tid) (w : WaitId) (left : Option Nat) : Prop
  | on (he : e ≠ .tick) (hp : s'.k.phase t = .waiting w left)
  | counts (he : e = .tick) (hleft : left ≠ some 1) (hp : s'.k.phase t = .waiting w (left.map (· - 1)))
  | expires (he : e = .tick) (hleft : left = some 1) (hp : s'.k.phase t = .ready)
      (hflag : (s'.k.tcb t).timeoutExpired = true)
  | retires (hr : s.Retires t e) (hp : s'.k.phase t = .suspended ∨ s'.k.phase t = .deleted)
      (hflag : (s'.k.tcb t).timeoutExpired = true)
  | served (he : e ≠ .tick) (hr : ¬ s.Retires t e) (hp : s'.k.phase t = .ready)
      (hflag : (s'.k.tcb t).timeoutExpired = false)

end Sys

/-! ### The flag -/

namespace Abs

variable {a a' : Abs} {act : Action} {acts : List Action} {v : Visit} {t : Tid}

theorem flag_apply (hwf : a.WF) (he : act.Enabled a) (hidle : (a.tcb t).state ≠ .running)
    (hswitch : act ≠ .switch t)
    (hexpire : act ≠ .expire t) (hretire : ∀ st, act ≠ .retire t st) :
    ((act.apply a).tcb t).state ≠ .running ∧ ((act.apply a).tcb t).timeoutExpired = (a.tcb t).timeoutExpired := by
  rw [apply_tcb hwf he]
  cases act with
  | switch u =>
    have hu : t ≠ u := fun heq => hswitch (by rw [heq])
    rw [Action.tcb, if_neg hu]
    exact ⟨hidle, rfl⟩
  | expire u =>
    have hu : t ≠ u := fun heq => hexpire (by rw [heq])
    rw [Action.tcb, if_neg hu]
    exact ⟨hidle, rfl⟩
  | retire u st =>
    have hu : t ≠ u := fun heq => hretire st (by rw [heq])
    rw [Action.tcb, if_neg hu]
    exact ⟨hidle, rfl⟩
  | park w u timeout =>
    have hu : t ≠ u := by
      rintro rfl
      exact hidle he.2.1
    rw [Action.tcb, if_neg hu]
    exact ⟨hidle, rfl⟩
  | pass m u next =>
    rw [Action.tcb]
    split
    · exact ⟨hidle, rfl⟩
    · split
      · exact ⟨by simp, rfl⟩
      · exact ⟨hidle, rfl⟩
  | data d => exact ⟨hidle, rfl⟩
  | countDown => exact ⟨hidle, rfl⟩
  | acquire m u => exact ⟨hidle, rfl⟩
  | _ =>
    rw [Action.tcb]
    split
    · first
        | exact ⟨hidle, rfl⟩
        | exact ⟨by simp, rfl⟩
    · exact ⟨hidle, rfl⟩

end Abs

section
variable {config : Config} {s s₀ s₁ s' : Sys} {a : Abs} {e : Event} {es : List Event} {t : Tid} {w : WaitId}
  {left : Option Nat}

theorem Inv.keeps_flag (h : Inv s a) (hs : s.step e = some s') (hidle : (s.k.tcb t).state ≠ .running)
    (he : e ≠ .tick)
    (hsv : ∀ psp, e ≠ .pendSV psp) (hr : ¬ s.Retires t e) :
    (s'.k.tcb t).timeoutExpired = (s.k.tcb t).timeoutExpired := by
  obtain ⟨acts, a', hruns, hinv⟩ := h.step hs
  rw [h.rep.core_eq] at hidle
  rw [h.rep.core_eq, hinv.rep.core_eq]
  have hentry : (s.visit e s').entry = .call ∨ (s.visit e s').entry = .handler := by
    cases e with
    | call y => exact .inl rfl
    | advance => exact .inl rfl
    | isr y yield => exact .inr rfl
    | tick => exact absurd rfl he
    | pendSV psp => exact absurd rfl (hsv psp)
  refine (hruns.keeps (P := fun b => (b.tcb t).state ≠ .running ∧
    (b.tcb t).timeoutExpired = (a.tcb t).timeoutExpired) h.wf ⟨hidle, rfl⟩ fun act b hwf hb hen hf => ?_).2
  have hkeep := flag_apply (t := t) hwf hen hb.1 ?switch ?expire ?retire
  case switch =>
    rintro rfl
    have hpend := congrArg Visit.entry (show s.visit e s' = Visit.pendSV from hf)
    rcases hentry with hcall | hhandler
    · cases hcall.symm.trans hpend
    · cases hhandler.symm.trans hpend
  case expire =>
    rintro rfl
    have htick : (s.visit e s').entry = .sysTick := hf
    rcases hentry with hcall | hhandler
    · cases hcall.symm.trans htick
    · cases hhandler.symm.trans htick
  case retire =>
    rintro st rfl
    exact hr (retires_of_mem rfl hs hf)
  exact ⟨hkeep.1, hkeep.2.trans hb.2⟩

theorem Inv.flag_retires (h : Inv s a) (hs : s.step e = some s') (hr : s.Retires t e)
    (hw : (s.k.tcb t).waitList = some w) : (s'.k.tcb t).timeoutExpired = true := by
  rw [h.rep.core_eq] at hw
  rcases h.retires hs hr with ⟨hst, -⟩ | ⟨st, hrep⟩
  · have hblocked := (h.wf.ok t).waits (by rw [hw]; exact Option.some_ne_none w)
    rw [hst] at hblocked
    cases hblocked
  · rw [hrep.core_eq, Abs.retire, move_tcb, if_pos rfl]
    exact (TaskControlBlock.unparked_expired (by rw [hw]; exact Option.some_ne_none w)).2

theorem Inv.phase_retires (h : Inv s a) (hs : s.step e = some s') (hr : s.Retires t e) :
    s'.k.phase t = .suspended ∨ s'.k.phase t = .deleted := by
  obtain ⟨rfl, hpc⟩ := hr
  have hok := h.control.ok a.self
  rw [← h.self_eq] at hok
  obtain ⟨-, -, hadv⟩ := Sys.step_advance.mp hs
  simp only [Sys.advance] at hadv
  rcases hpc with hpc | hpc
  · rw [hpc] at hadv hok
    cases hadv
    exact .inl (h.rep.suspend_phase h.wf (h.control.handles t hok.1))
  · rw [hpc] at hadv hok
    cases hadv
    exact .inr (h.rep.delete_phase h.wf (h.control.handles t hok.1))

/-! ### Waits, step by step -/

theorem Kernel.waitList_of_phase {k : Kernel} (h : k.phase t = .waiting w left) : (k.tcb t).waitList = some w := by
  rw [Kernel.phase] at h
  split at h
  · unfold TaskControlBlock.phase at h
    split at h
    case h_5 =>
      split at h
      · rename_i w' hw
        cases h
        exact hw
      · cases h
    all_goals cases h
  · cases h

theorem Inv.phase_waiting (h : Inv s a) (hw : (s.k.tcb t).waitList = some w) :
    s.k.phase t = .waiting w (Countdown.left t a.sleepers) := by
  rw [h.rep.phase_eq h.wf]
  rw [h.rep.core_eq] at hw
  exact Abs.phase_waiting h.wf hw

theorem Inv.left_pos (h : Inv s a) {n : Nat} (hp : s.k.phase t = .waiting w (some n)) : 0 < n := by
  have hleft := hp.symm.trans (h.phase_waiting (Kernel.waitList_of_phase hp))
  simp only [Phase.waiting.injEq, true_and] at hleft
  exact h.positive _ ((Countdown.left_eq_some h.wf.sleepers_nodup).mp hleft.symm)

theorem Inv.flag_expires (h : Inv s a) (hs : s.step .tick = some s') (hw : (s.k.tcb t).waitList = some w)
    (hready : s'.k.phase t = .ready) : (s'.k.tcb t).timeoutExpired = true := by
  obtain ⟨c, ts, -, -, -, hexpires⟩ := h.expires hs
  by_cases ht : t ∈ ts
  · exact (hexpires.parked t ht (by rw [hw]; exact Option.some_ne_none w)).2
  · obtain ⟨acts, a', -, hinv⟩ := h.step hs
    rw [hinv.phase_waiting (by rw [hexpires.others t ht]; exact hw)] at hready
    cases hready

theorem Reachable.waits_step (h : Reachable config s) (hs : s.step e = some s') (hp : s.k.phase t = .waiting w left) :
    s.WaitGoes e s' t w left := by
  obtain ⟨a, htracks⟩ := h.tracks
  have hi := htracks.inv
  have hw := Kernel.waitList_of_phase hp
  have hidle : (s.k.tcb t).state ≠ .running := by
    intro hr
    rw [hi.rep.core_eq] at hr
    rw [hi.rep.phase_eq hi.wf, phase_running hi.wf hr] at hp
    cases hp
  have hnext := hi.phase_next hs t
  rw [hp] at hnext
  generalize hq : s'.k.phase t = q at hnext
  cases hnext with
  | stay p he => exact .on he hq
  | tick p he =>
    subst he
    by_cases hone : left = some 1
    · subst hone
      exact .expires rfl rfl hq (hi.flag_expires hs hw hq)
    · refine .counts rfl hone (hq.trans ?_)
      cases left with
      | none => rfl
      | some n => exact if_neg fun heq => hone (by rw [heq])
  | serve w left he hsv =>
    by_cases hr : s.Retires t e
    · rcases hi.phase_retires hs hr with hp' | hp'
      · cases hq.symm.trans hp'
      · cases hq.symm.trans hp'
    · exact .served he hr hq ((hi.keeps_flag hs hidle he hsv hr).trans (h.not_expired hw))
  | suspend p hp hdoes =>
    have hr : s.Retires t e := ⟨hdoes.1, .inl hdoes.2⟩
    exact .retires hr (.inl hq) (hi.flag_retires hs hr hw)
  | delete p hp hdoes =>
    have hr : s.Retires t e := ⟨hdoes.1, .inr hdoes.2⟩
    exact .retires hr (.inr hq) (hi.flag_retires hs hr hw)

theorem Reachable.waits_run (h : Reachable config s) (hp : s.k.phase t = .waiting w left) (hrun : s.run es = some s')
    (hwaits : s.Throughout (fun s => (s.k.tcb t).waitList ≠ none) es) :
    s'.k.phase t = .waiting w (left.map (· - es.count .tick)) := by
  induction es generalizing s left with
  | nil =>
    cases hrun
    simpa using hp
  | cons e es ih =>
    obtain ⟨s₁, hs, hrun₁⟩ := Sys.run_cons hrun
    have hrest := hwaits.2 s₁ hs
    have hr₁ := h.step e hs
    obtain ⟨w₁, hw₁⟩ := Option.ne_none_iff_exists'.mp hrest.head
    obtain ⟨a₁, htracks⟩ := hr₁.tracks
    have hp₁ := htracks.inv.phase_waiting hw₁
    cases h.waits_step hs hp with
    | on he hon =>
      rw [List.count_cons_of_ne he]
      exact ih hr₁ hon hrun₁ hrest
    | counts he hleft hcounts =>
      subst he
      rw [List.count_cons_self, ih hr₁ hcounts hrun₁ hrest, Option.map_map]
      congr 2
      funext n
      simp only [Function.comp_apply]
      omega
    | expires he hleft hready => cases hready.symm.trans hp₁
    | retires hr hstopped =>
      rcases hstopped with hq | hq
      · cases hq.symm.trans hp₁
      · cases hq.symm.trans hp₁
    | served he hr hready => cases hready.symm.trans hp₁

theorem Inv.waits_begin (h : Inv s a) (hs : s.step e = some s') (hcur : s.k.currentTask = some t) {W : Wait}
    (hasks : s.waitsFor e = some (W, left)) (hw : (s'.k.tcb t).waitList ≠ none) :
    s'.k.phase t = .waiting W.list left := by
  obtain ⟨w, hw⟩ := Option.ne_none_iff_exists'.mp hw
  obtain ⟨acts, a', -, hinv⟩ := h.step hs
  have hwaiting := hinv.phase_waiting hw
  have hnext := h.phase_next hs t
  generalize hp : s.k.phase t = p at hnext
  generalize hq : s'.k.phase t = q at hnext
  cases hnext with
  | stay p he =>
    -- who waits already is in the middle of its call
    have hparked := Kernel.waitList_of_phase (hp.trans (hq.symm.trans hwaiting))
    rw [h.rep.core_eq] at hparked
    obtain ⟨W', -, hpc⟩ := h.control.parked t w hparked
    have hself : s.k.self = .task t := by rw [Core.self, hcur]
    rw [← hself] at hpc
    cases e with
    | call y =>
      obtain ⟨-, -, huser, -⟩ := Sys.step_call.mp hs
      rcases hpc with hpc | hpc
      · cases huser.symm.trans hpc
      · cases huser.symm.trans hpc
    | advance =>
      rw [Sys.waitsFor] at hasks
      rcases hpc with hpc | hpc
      · rw [hpc] at hasks
        cases hasks
      · rw [hpc] at hasks
        cases hasks
    | _ => cases hasks
  | tick p he =>
    subst he
    cases hasks
  | wait W' left' hcur' hasks' =>
    rw [hasks] at hasks'
    cases hasks'
    rfl
  | _ => cases hq.symm.trans hwaiting

/-- A blocking call waits for as long as it was told: all the ticks of its timeout and no more; and when the wait ends
before, the flag says why. -/
theorem timed_wait {s₂ : Sys} {e₀ : Event} {W : Wait} (h : Reachable config s) (hbegin : s.step e₀ = some s₀)
    (hcur : s.k.currentTask = some t) (hasks : s.waitsFor e₀ = some (W, left)) (hrun : s₀.run es = some s₁)
    (hwaits : s₀.Throughout (fun s => (s.k.tcb t).waitList ≠ none) es) (hs : s₁.step e = some s₂) :
    s₁.k.phase t = .waiting W.list (left.map (· - es.count .tick)) ∧ (∀ n ∈ left, es.count .tick < n) ∧
      s₁.WaitGoes e s₂ t W.list (left.map (· - es.count .tick)) := by
  obtain ⟨a, htracks⟩ := h.tracks
  have h₀ := h.step e₀ hbegin
  have h₁ := h₀.run hrun
  have hwaiting := h₀.waits_run (htracks.inv.waits_begin hbegin hcur hasks hwaits.head) hrun hwaits
  refine ⟨hwaiting, fun n hn => ?_, h₁.waits_step hs hwaiting⟩
  obtain ⟨a₁, htracks₁⟩ := h₁.tracks
  rw [hn, Option.map_some] at hwaiting
  have hpos := htracks₁.inv.left_pos hwaiting
  omega

end

/-- A task waits for an item for two ticks; after the first one it has one to go. -/
theorem timed_wait_receive :
    ∃ s s₀ s₁ s₂, (Sys.init .small).run (Sys.createRun 1 2 ++ Sys.startRun) = some s ∧
    s.step (.call (.receive 0 2)) = some s₀ ∧ s₀.run [.advance, .tick] = some s₁ ∧
      s₁.step .tick = some s₂ ∧
    s₁.k.phase 0 = .waiting (.receivers 0) (some 1) ∧ s₁.WaitGoes .tick s₂ 0 (.receivers 0) (some 1) := by
  have hrun : ((Sys.init .small).run (Sys.createRun 1 2 ++ Sys.startRun)).bind (fun s =>
      (s.step (.call (.receive 0 2))).bind fun s₀ =>
        (s₀.step .advance).bind fun s' => (s'.step .tick).bind fun s₁ =>
        (s₁.step .tick).map fun _ => (s.k.currentTask, Rep.timeoutTicks s.k.config 2, (s₀.k.tcb 0).waitList,
          (s'.k.tcb 0).waitList, (s₁.k.tcb 0).waitList)) =
      some (some 0, some 2, some (.receivers 0), some (.receivers 0), some (.receivers 0)) := by
    decide +kernel
  obtain ⟨s, hs, hrun⟩ := Option.bind_eq_some_iff.mp hrun
  obtain ⟨s₀, hs₀, hrun⟩ := Option.bind_eq_some_iff.mp hrun
  obtain ⟨s', hs', hrun⟩ := Option.bind_eq_some_iff.mp hrun
  obtain ⟨s₁, hs₁, hrun⟩ := Option.bind_eq_some_iff.mp hrun
  obtain ⟨s₂, hs₂, hstate⟩ := Option.map_eq_some_iff.mp hrun
  simp only [Prod.mk.injEq] at hstate
  obtain ⟨hcur, htimeout, hw₀, hw', hw₁⟩ := hstate
  have hasks : s.waitsFor (.call (.receive 0 2)) = some (.receive 0, some 2) := by rw [Sys.waitsFor, htimeout]
  have hes : s₀.run [.advance, .tick] = some s₁ := by simp only [Sys.run, hs', hs₁]
  have hwaits : s₀.Throughout (fun s => (s.k.tcb 0).waitList ≠ none) [.advance, .tick] := by
    refine ⟨by simp [hw₀], fun r hr => ?_⟩
    obtain rfl : s' = r := Option.some.inj (hs'.symm.trans hr)
    refine ⟨by simp [hw'], fun r hr => ?_⟩
    obtain rfl : s₁ = r := Option.some.inj (hs₁.symm.trans hr)
    exact fun hnone => by simp [hw₁] at hnone
  obtain ⟨hphase, -, hgoes⟩ := timed_wait (Reachable.run .init hs) hs₀ hcur hasks hes hwaits hs₂
  exact ⟨s, s₀, s₁, s₂, hs, hs₀, hes, hs₂, hphase, hgoes⟩

end AcRtos
