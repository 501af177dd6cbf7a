import AcRtos.DelayUntil
import AcRtos.QueueWaits
import AcRtos.Told

/-!
# `delay_ms` between two ticks

SysTick fires every `kTickRateMs` milliseconds, and a call may come at any time between two ticks. `delay_ms` rounds
its argument up to whole ticks and puts that many on the countdown, and the tick that ends the running period
already counts. So the part of this period that lies behind the call is missing from the delay, and it is not
missed only where the round-up covers it.
-/

namespace AcRtos

open Lib Abs

/-! ### Time -/

/-- The time of the `n`-th SysTick, in units of which a millisecond has `unit`. -/
def sysTickTime (config : Config) (unit n : Nat) : Nat := n * (config.kTickRateMs * unit)

/-- The milliseconds that rounding up to whole ticks adds. -/
def roundUp (config : Config) (ms : TickType) : Nat :=
  (config.kTickRateMs - ms.toNat % config.kTickRateMs) % config.kTickRateMs

theorem msToTicks_mul (config : Config) {ms : TickType} (hms : ms ≠ 0) :
    (msToTicks config ms).toNat * config.kTickRateMs = ms.toNat + roundUp config ms := by
  have hdiv := Nat.div_add_mod ms.toNat config.kTickRateMs
  have hlt := Nat.mod_lt ms.toNat config.kTickRateMs_pos
  rw [msToTicks_toNat config hms, roundUp]
  by_cases hmod : ms.toNat % config.kTickRateMs = 0
  · rw [if_neg (by simp [hmod]), hmod, Nat.sub_zero, Nat.mod_self, Nat.add_zero, Nat.mul_comm]
    omega
  · rw [if_pos hmod, Nat.mod_eq_of_lt (Nat.sub_lt config.kTickRateMs_pos (by omega)), Nat.add_mul, Nat.one_mul,
      Nat.mul_comm]
    omega

/-- A delay of that many ticks lasts long enough if the call comes early enough in its period. -/
theorem delay_lasts_iff {config : Config} {unit time c : Nat} {ms : TickType} (hms : ms ≠ 0)
    (hc : sysTickTime config unit c ≤ time) :
    time + ms.toNat * unit ≤ sysTickTime config unit (c + (msToTicks config ms).toNat) ↔
      time - sysTickTime config unit c ≤ roundUp config ms * unit := by
  have hsum : sysTickTime config unit (c + (msToTicks config ms).toNat) =
      sysTickTime config unit c + (ms.toNat * unit + roundUp config ms * unit) := by
    rw [sysTickTime, sysTickTime, Nat.add_mul, ← Nat.mul_assoc (msToTicks config ms).toNat, msToTicks_mul config hms,
      Nat.add_mul]
  rw [hsum]
  omega

/-! ### The call -/

theorem Rep.delayMs {k : Kernel} {a : Abs} {t : Tid} {ms : TickType} (h : Rep k a) (hwf : a.WF)
    (ht : k.currentTask = some t) (hrun : (a.tcb t).state = .running) (hms : ms ≠ 0) :
    ∃ b, Rep (Scheduler.delayMs ms k).2 b ∧ b.WF ∧ b.started = a.started ∧ b.fault = a.fault ∧
      b.SleepsUntil t (msToTicks k.config ms).toNat (k.tickCount + msToTicks k.config ms) := by
  have hnone := hwf.waitList_none (t := t) (by simp [hrun])
  have hpos := msToTicks_pos k.config hms
  have hne : msToTicks k.config ms ≠ 0 := by
    intro hz
    simp [hz] at hpos
  have heq : Scheduler.delayMs ms k = (.ret .unit true,
      Scheduler.delayInsert t (msToTicks k.config ms) (k.setTask t fun c => { c with state := .blocked })) := by
    unfold Scheduler.delayMs
    rw [ht]
    exact if_neg hne
  rw [heq]
  refine ⟨_, h.sleep hwf hrun (msToTicks k.config ms), hwf.sleep (hwf.lt_of_state (by simp [hrun])) hrun, rfl, rfl,
    ?_, ?_, ?_⟩
  · rw [Abs.sleep, move_tcb, if_pos rfl]
    exact hnone
  · exact mem_insertWhile.mpr (Or.inl rfl)
  · show a.tickCount + _ = _
    rw [← h.core_eq, BitVec.ofNat_toNat, BitVec.setWidth_eq]

/-- SysTick can come: interrupts are on, the scheduler has started, and no fault has stopped the machine. -/
structure Sys.Live (s : Sys) : Prop where
  unmasked : s.cs = 0
  started : s.k.started = true
  running : s.k.fault = none

namespace Abs

variable {a : Abs} {ts : List Tid}

theorem expireAll_started : (a.expireAll ts).started = a.started := by
  induction ts generalizing a with
  | nil => rfl
  | cons t ts ih => rw [expireAll_cons, ih]; rfl

theorem expireAll_fault : (a.expireAll ts).fault = a.fault := by
  induction ts generalizing a with
  | nil => rfl
  | cons t ts ih => rw [expireAll_cons, ih]; rfl

end Abs

namespace Inv

variable {s s' : Sys} {a : Abs} {t : Tid} {n : Nat} {w ms : TickType} {e : Event} {es : List Event}

theorem delayMs (h : Inv s a) (hs : s.step (.call (.delayMs ms)) = some s') (ht : s.k.currentTask = some t)
    (hms : ms ≠ 0) :
    s'.Live ∧ ∃ a', Inv s' a' ∧
      a'.SleepsUntil t (msToTicks s.k.config ms).toNat (s.k.tickCount + msToTicks s.k.config ms) := by
  obtain ⟨acts, a', -, hinv⟩ := h.step hs
  obtain ⟨-, rfl, hentered⟩ := h.call_begins hs
  have hfault : s.k.fault = none ∧ s.cs = 0 := by
    obtain ⟨hfault, -, -, -, hadm, -⟩ := Sys.step_call.mp hs
    refine ⟨hfault, ?_⟩
    simpa [Call.admissible, Call.mayBlock] using hadm
  have hcur : a.currentTask = some t := by rw [← h.rep.core_eq]; exact ht
  rw [← h.self_eq] at hentered
  obtain ⟨b, hrep, hwf, hstarted, hsame, hsleeps⟩ := (h.rep.core (·.emit (.call s.k.self (.delayMs ms)))).delayMs
    hentered.wf ht (hentered.running t hcur) hms
  refine ⟨⟨hfault.2, ?_, ?_⟩, a', hinv, hsleeps.of_rep hrep hwf hinv.rep hinv.wf⟩
  · rw [show (s.beginCall s.k.self (.delayMs ms)).k.toCore = b.toCore from hrep.core_eq, hstarted]
    exact (h.control.current t hcur).1
  · rw [show (s.beginCall s.k.self (.delayMs ms)).k.toCore = b.toCore from hrep.core_eq, hsame]
    rw [h.rep.core_eq] at hfault
    exact hfault.1

theorem live_tick (h : Inv s a) (hl : s.Live) : ∃ s₁, s.step .tick = some s₁ ∧ s₁.Live := by
  obtain ⟨hcs, hstarted, hfault⟩ := hl
  have hs : s.step .tick =
      some { s.setK (Scheduler.tick s.k).2 with pend := s.pend || (Scheduler.tick s.k).1 } :=
    Sys.step_tick.mpr ⟨hfault, hcs, hstarted, rfl⟩
  obtain ⟨hrep, -⟩ := h.ticked hs
  refine ⟨_, hs, hcs, ?_, ?_⟩
  · rw [hrep.core_eq, expireAll_started]
    rw [h.rep.core_eq] at hstarted
    exact hstarted
  · rw [hrep.core_eq, expireAll_fault]
    rw [h.rep.core_eq] at hfault
    exact hfault

theorem live_ticks (h : Inv s a) (hl : s.Live) (n : Nat) :
    ∃ s₁, s.run (List.replicate n .tick) = some s₁ ∧ s₁.Live := by
  induction n generalizing s a with
  | zero => exact ⟨s, rfl, hl⟩
  | succ n ih =>
    obtain ⟨s₁, hs, hl₁⟩ := h.live_tick hl
    obtain ⟨-, a₁, -, hinv⟩ := h.step hs
    obtain ⟨s₂, hrun, hl₂⟩ := ih hinv hl₁
    refine ⟨s₂, ?_, hl₂⟩
    rw [List.replicate_succ, Sys.run, hs]
    exact hrun

theorem sleepsUntil_blocked (h : Inv s a) (hsl : a.SleepsUntil t n w) (hspared : s.Each (Sys.Spares t) es)
    (hcount : es.count .tick < n) : s.Throughout (fun s => (s.k.tcb t).state = .blocked) es := by
  induction es generalizing s a n with
  | nil => exact h.blocked hsl
  | cons e es ih =>
    refine ⟨h.blocked hsl, fun s₁ hs => ?_⟩
    by_cases he : e = .tick
    · subst he
      rw [List.count_cons_self] at hcount
      obtain ⟨a₁, hinv, -, hnext⟩ := h.sleepsUntil_tick hsl hs
      exact ih hinv (hnext (by omega)) (hspared.2 s₁ hs) (by omega)
    · rw [List.count_cons_of_ne he] at hcount
      obtain ⟨a₁, hinv, hsl₁⟩ := h.sleepsUntil_step hsl hs hspared.1 he
      exact ih hinv hsl₁ (hspared.2 s₁ hs) hcount

end Inv

/-! ### The delay -/

/-- After the events `pre` from the start the task `t` calls `delay_ms(ms)` at `time`, between two ticks. -/
structure DelayCall (config : Config) (unit time : Nat) (t : Tid) (ms : TickType) (pre : List Event) (s s' : Sys) :
    Prop where
  before : Sys.run (Sys.init config) pre = some s
  current : s.k.currentTask = some t
  call : s.step (.call (.delayMs ms)) = some s'
  positive : ms ≠ 0
  after_tick : sysTickTime config unit (pre.count .tick) ≤ time
  before_tick : time < sysTickTime config unit (pre.count .tick + 1)

/-- The events `es` pass while `t` is blocked, and `e` makes it ready; nobody suspends or deletes it. -/
structure DelayEnd (t : Tid) (s' : Sys) (es : List Event) (e : Event) : Prop where
  spared : s'.Each (Sys.Spares t) (es ++ [e])
  blocked : s'.Throughout (fun s => (s.k.tcb t).state = .blocked) es
  ready : ∃ s₁ s₂, s'.run es = some s₁ ∧ s₁.step e = some s₂ ∧ (s₂.k.tcb t).state = .ready

/-- The delay ends, and it always ends with a tick, which comes late enough exactly if the call came early enough in
its period. -/
theorem DelayCall.ends {config : Config} {unit time : Nat} {t : Tid} {ms : TickType} {pre : List Event} {s s' : Sys}
    (h : DelayCall config unit time t ms pre s s') :
    (∃ es, DelayEnd t s' es .tick) ∧
    ∀ es e, DelayEnd t s' es e → e = .tick ∧
      (time + ms.toNat * unit ≤ sysTickTime config unit (pre.count .tick + (es.count .tick + 1)) ↔
        time - sysTickTime config unit (pre.count .tick) ≤ roundUp config ms * unit) := by
  have hreach : Reachable config s := Reachable.run .init h.before
  obtain ⟨a, htracks⟩ := hreach.tracks
  have hconfig : s.k.config = config := by
    rw [htracks.inv.rep.core_eq]
    exact htracks.config_eq
  obtain ⟨hlive, a', hinv, hsl⟩ := htracks.inv.delayMs h.call h.current h.positive
  have hpos := msToTicks_pos config h.positive
  rw [hconfig] at hsl
  generalize hn : (msToTicks config ms).toNat = n at hsl hpos
  refine ⟨?_, fun es e hend => ?_⟩
  · -- the ticks alone
    have hcount : (List.replicate (n - 1) Event.tick).count .tick = n - 1 := List.count_replicate_self
    have hspares : ∀ m (s : Sys), s.Each (Sys.Spares t) (List.replicate m .tick) := by
      intro m
      induction m with
      | zero => exact fun _ => trivial
      | succ m ih => exact fun s => ⟨nofun, fun s₁ _ => ih s₁⟩
    obtain ⟨s₁, hrun, hlive₁⟩ := hinv.live_ticks hlive (n - 1)
    obtain ⟨a₁, hinv₁, hsl₁⟩ := hinv.sleepsUntil_run hsl hrun (hspares _ _) (by omega)
    obtain ⟨s₂, hs, -⟩ := hinv₁.live_tick hlive₁
    obtain ⟨-, -, hwake, -⟩ := hinv₁.sleepsUntil_tick hsl₁ hs
    refine ⟨List.replicate (n - 1) .tick, ?_, hinv.sleepsUntil_blocked hsl (hspares _ _) (by omega), s₁, s₂,
      hrun, hs,
      (hwake (by omega)).1⟩
    rw [← List.replicate_succ']
    exact hspares _ _
  · obtain ⟨s₁, s₂, hrun, hs, hready⟩ := hend.ready
    obtain ⟨hspared, hlast⟩ := hend.spared.append hrun
    obtain ⟨a₁, hinv₁, hcount, hsl₁⟩ := hinv.sleepsUntil_throughout hsl hrun hspared hend.blocked
    obtain ⟨he, hone, -⟩ := hinv₁.sleepsUntil_wake hsl₁ hs hlast.1 hready
    rw [show es.count .tick + 1 = (msToTicks config ms).toNat by omega]
    exact ⟨he, delay_lasts_iff h.positive h.after_tick⟩

/-- A delay lasts at least the requested time, in every run in which nobody suspends or deletes the task, if and
only if the time from the last tick to the call is no longer than what the round-up has added. -/
theorem delay_ms_lasts {config : Config} {unit time : Nat} {t : Tid} {ms : TickType} {pre : List Event} {s s' : Sys}
    (h : DelayCall config unit time t ms pre s s') :
    (∃ es, DelayEnd t s' es .tick) ∧
    ((∀ es e, DelayEnd t s' es e → e = .tick ∧
        time + ms.toNat * unit ≤ sysTickTime config unit (pre.count .tick + (es.count .tick + 1))) ↔
      time - sysTickTime config unit (pre.count .tick) ≤ roundUp config ms * unit) := by
  obtain ⟨⟨es, hend⟩, hall⟩ := h.ends
  refine ⟨⟨es, hend⟩, fun hlasts => ?_, fun hearly es' e hend' => ?_⟩
  · exact (hall es .tick hend).2.mp (hlasts es .tick hend).2
  · obtain ⟨he, hiff⟩ := hall es' e hend'
    exact ⟨he, hiff.mpr hearly⟩

theorem delay_call_one {time : Nat} (ht : time < 2) : ∃ s s', DelayCall .small 2 time 0 1 Sys.untilRun s s' ∧
    DelayEnd 0 s' [] .tick := by
  have hrun : ((Sys.run (Sys.init .small) Sys.untilRun).bind fun s => (s.step (.call (.delayMs 1))).bind fun s' =>
      (s'.step .tick).map fun s₂ => (s.k.currentTask, (s'.k.tcb 0).state, (s₂.k.tcb 0).state)) =
      some (some 0, .blocked, .ready) := by decide +kernel
  obtain ⟨s, hs, hbind⟩ := Option.bind_eq_some_iff.mp hrun
  obtain ⟨s', hs', hbind⟩ := Option.bind_eq_some_iff.mp hbind
  obtain ⟨s₂, hs₂, heq⟩ := Option.map_eq_some_iff.mp hbind
  simp only [Prod.mk.injEq] at heq
  obtain ⟨hcur, hblocked, hready⟩ := heq
  have hticks : Sys.untilRun.count .tick = 0 := by decide
  refine ⟨s, s', ⟨hs, hcur, hs', by decide, ?_, ?_⟩, ⟨nofun, fun _ _ => trivial⟩, hblocked, s', s₂, rfl,
    hs₂, hready⟩
  · rw [hticks, sysTickTime, Nat.zero_mul]
    exact Nat.zero_le _
  · rw [hticks]
    exact ht

/-- Right after a tick, the delay lasts long enough. -/
theorem delay_ms_lasts_one : ∃ s s', DelayCall .small 2 0 0 1 Sys.untilRun s s' ∧
    ∀ es e, DelayEnd 0 s' es e → e = .tick ∧
      0 + (1 : TickType).toNat * 2 ≤ sysTickTime .small 2 (Sys.untilRun.count .tick + (es.count .tick + 1)) := by
  obtain ⟨s, s', hcall, -⟩ := delay_call_one (show 0 < 2 by omega)
  exact ⟨s, s', hcall, (delay_ms_lasts hcall).2.mpr (by simp)⟩

/-- Half a millisecond after a tick the delay of one millisecond ends with the next tick. -/
theorem delay_ms_short : ∃ s s', DelayCall .small 2 1 0 1 Sys.untilRun s s' ∧ DelayEnd 0 s' [] .tick ∧
    ¬ 1 + (1 : TickType).toNat * 2 ≤ sysTickTime .small 2 (Sys.untilRun.count .tick + 1) := by
  obtain ⟨s, s', hcall, hend⟩ := delay_call_one (show 1 < 2 by omega)
  exact ⟨s, s', hcall, hend, by decide⟩

end AcRtos
