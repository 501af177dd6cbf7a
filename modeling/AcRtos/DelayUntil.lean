import AcRtos.Countdowns

/-!
# `delay_until` across a wrap of the tick counter

A task that sleeps outside all wait lists has a countdown, and the tick count plus the countdown is the time at
which it wakes (`Abs.SleepsUntil`). A tick moves one unit from the countdown to the tick count, modulo `2^32`,
and no other step touches the countdown as long as nobody suspends or deletes the task. The signed test of
`delay_until` separates the distances below `2^31` from the rest.
-/

namespace AcRtos

open Lib Abs

/-- `static_cast<int32_t>(d) > 0` -/
theorem toInt_pos_iff {d : TickType} : ¬ d.toInt ≤ 0 ↔ 1 ≤ d.toNat ∧ d.toNat < 2 ^ 31 := by
  have hlt := d.isLt
  rw [BitVec.toInt_eq_toNat_cond]
  split <;> omega

/-- The step is not the critical section of a `suspend` or `terminate` of `t`. -/
def Sys.Spares (t : Tid) (s : Sys) (e : Event) : Prop :=
  e = .advance → s.pc s.k.self ≠ .suspendBody t ∧ s.pc s.k.self ≠ .deleteBody t

namespace Scheduler

variable {k : Kernel} {t : Tid} {w : TickType}

theorem delayUntil_returns
    (h : k.currentTask = none ∨ ¬ (1 ≤ (w - k.tickCount).toNat ∧ (w - k.tickCount).toNat < 2 ^ 31)) :
    delayUntil w k = (.ret .unit false, k) := by
  unfold delayUntil
  cases hcur : k.currentTask with
  | none => rfl
  | some t =>
    rw [hcur] at h
    exact if_pos (not_not.mp (mt toInt_pos_iff.mp (h.resolve_left (by simp))))

theorem delayUntil_sleeps (ht : k.currentTask = some t)
    (h : 1 ≤ (w - k.tickCount).toNat ∧ (w - k.tickCount).toNat < 2 ^ 31) :
    delayUntil w k =
      (.ret .unit true, delayInsert t (w - k.tickCount) (k.setTask t fun c => { c with state := .blocked })) := by
  unfold delayUntil
  rw [ht]
  exact if_neg (toInt_pos_iff.mpr h)

end Scheduler

theorem Rep.sleepers_unique {k : Kernel} {a b : Abs} (h : Rep k a) (hwf : a.WF) (h' : Rep k b) (hwf' : b.WF) :
    b.sleepers = a.sleepers :=
  h'.delay.deltas.unique h.delay.deltas (by rw [← h.sleeping_eq hwf, ← h'.sleeping_eq hwf'])

namespace Abs

/-- `t` sleeps in no wait list for `n` more ticks, and wakes at the time `w`. -/
structure SleepsUntil (a : Abs) (t : Tid) (n : Nat) (w : TickType) : Prop where
  waits : (a.tcb t).waitList = none
  mem : (t, n) ∈ a.sleepers
  time : a.tickCount + BitVec.ofNat 32 n = w

namespace SleepsUntil

variable {a : Abs} {t : Tid} {n : Nat} {w : TickType} {v : Visit} {act : Action}

theorem sleeps (h : a.SleepsUntil t n w) : a.Sleeps t := List.mem_map_of_mem h.mem

theorem apply (h : a.SleepsUntil t n w) (hwf : a.WF) (he : act.Enabled a) (hf : act.Fits v a)
    (hv : v.entry ≠ .sysTick) (hsuspend : v.before ≠ .suspendBody t) (hdelete : v.before ≠ .deleteBody t) :
    (act.apply a).SleepsUntil t n w := by
  have hblocked := hwf.state_of_sleeps h.sleeps
  have hkeep : ∀ u, u ≠ t → (t, n) ∈ Countdown.cancel u a.sleepers := fun u hu =>
    List.mem_filter.mpr ⟨h.mem, by simpa using hu.symm⟩
  have hother : ∀ {u w'}, (a.tcb u).waitList = some w' → u ≠ t := by
    rintro u w' hw rfl
    rw [h.waits] at hw
    cases hw
  refine ⟨?_, ?_, ?_⟩
  · rw [← Option.not_isSome_iff_eq_none, Option.isSome_iff_exists]
    rintro ⟨w', hw⟩
    rcases waitList_apply hwf he hw with hw | ⟨W, timeout, rfl, -⟩
    · exact hother hw rfl
    · rw [he.2.1] at hblocked
      cases hblocked
  · cases act with
    | countDown => exact absurd hf hv
    | expire u => exact absurd hf hv
    | sleep u m => exact mem_insertWhile.mpr (Or.inr h.mem)
    | retire u st =>
      refine hkeep u ?_
      rintro rfl
      rcases hf.1 with ⟨hb, -⟩ | ⟨hb, -⟩
      · exact hsuspend hb
      · exact hdelete hb
    | hand hd u => exact hkeep u (hother (hwf.mem_wait.mp (Handing.Enabled.mem he)).2)
    | park W u timeout =>
      have hmem : (t, n) ∈ (a.boost W u).sleepers := by rw [boost_sleepers]; exact h.mem
      cases timeout with
      | none => exact hmem
      | some m => exact mem_insertWhile.mpr (Or.inr hmem)
    | release m u =>
      rw [Action.apply, restore_sleepers]
      exact h.mem
    | pass m u next =>
      rw [Action.apply, restore_sleepers]
      exact hkeep next (hother (hwf.mem_wait.mp (List.mem_of_mem_head? he.2.2)).2)
    | _ => exact h.mem
  · rw [apply_tickCount he]
    split
    · exact absurd hf hv
    · exact h.time

theorem runs {a' : Abs} {acts : List Action} (h : a.SleepsUntil t n w) (hruns : Runs v a acts a') (hwf : a.WF)
    (hv : v.entry ≠ .sysTick) (hsuspend : v.before ≠ .suspendBody t) (hdelete : v.before ≠ .deleteBody t) :
    a'.SleepsUntil t n w :=
  hruns.keeps (P := fun b => b.SleepsUntil t n w) hwf h fun _ _ hwf hsl he hf => hsl.apply hwf he hf hv hsuspend hdelete

end SleepsUntil

theorem expireAll_sleepers {a : Abs} {ts : List Tid} :
    (a.expireAll ts).sleepers = a.sleepers.filter fun e => decide (e.1 ∉ ts) := by
  induction ts generalizing a with
  | nil => simp [expireAll]
  | cons t ts ih =>
    rw [expireAll_cons, ih]
    show (Countdown.cancel t a.sleepers).filter _ = _
    rw [Countdown.cancel, List.filter_filter]
    refine List.filter_congr fun e _ => ?_
    by_cases he : e.1 = t <;> simp [he]

theorem expireAll_tickCount {a : Abs} {ts : List Tid} : (a.expireAll ts).tickCount = a.tickCount := by
  induction ts generalizing a with
  | nil => rfl
  | cons t ts ih => rw [expireAll_cons, ih]; rfl

theorem mem_expired_iff {a : Abs} {t : Tid} {n : Nat} (h : a.WF) (hpos : a.Positive) (hmem : (t, n) ∈ a.sleepers) :
    t ∈ a.lowered.expired ↔ n = 1 := by
  have hwf : a.lowered.WF := (h.core (DataOp.alike (show DataOp.Enabled a .tick from trivial))).countDown
  have hsorts : Sorts a.lowered.sleepers a.lowered.sleepers := ⟨hwf.sleepers_sorted, fun _ => rfl⟩
  have hin : (t, n - 1) ∈ a.lowered.sleepers := List.mem_map.mpr ⟨(t, n), hmem, rfl⟩
  have hnames : (a.lowered.sleepers.map Prod.fst).Nodup := by
    rw [lowered_names]
    exact h.sleepers_nodup
  have := hpos _ hmem
  rw [expired, hsorts.takeWhile_zero.1]
  constructor
  · intro ht
    obtain ⟨e, he, heq⟩ := List.mem_map.mp ht
    obtain ⟨he, hz⟩ := List.mem_filter.mp he
    rw [← List.inj_on_of_nodup_map hnames hin he heq.symm] at hz
    simp only [beq_iff_eq] at hz this
    omega
  · rintro rfl
    exact List.mem_map.mpr ⟨(t, 0), List.mem_filter.mpr ⟨hin, rfl⟩, rfl⟩

end Abs

namespace Inv

variable {s s' : Sys} {a : Abs} {t : Tid} {n : Nat} {w : TickType} {e : Event}

theorem sleepsUntil_step (h : Inv s a) (hsl : a.SleepsUntil t n w) (hs : s.step e = some s') (hspared : s.Spares t e)
    (hne : e ≠ .tick) : ∃ a', Inv s' a' ∧ a'.SleepsUntil t n w := by
  obtain ⟨acts, a', hruns, hinv⟩ := h.step hs
  refine ⟨a', hinv, ?_⟩
  cases e with
  | tick => exact absurd rfl hne
  | call c =>
    obtain ⟨-, -, huser, -⟩ := Sys.step_call.mp hs
    refine hsl.runs hruns h.wf (by simp [Sys.visit, Visit.call]) ?_ ?_ <;>
      simp [Sys.visit, Visit.call, huser]
  | advance => exact hsl.runs hruns h.wf (by simp [Sys.visit, Visit.call]) (hspared rfl).1 (hspared rfl).2
  | isr c yield =>
    refine hsl.runs hruns h.wf (by simp [Sys.visit, Visit.handler]) ?_ ?_ <;>
      · intro heq
        cases heq
  | pendSV psp =>
    refine hsl.runs hruns h.wf (by simp [Sys.visit, Visit.pendSV]) ?_ ?_ <;>
      · intro heq
        cases heq

theorem sleepsUntil_tick (h : Inv s a) (hsl : a.SleepsUntil t n w) (hs : s.step .tick = some s') :
    ∃ a', Inv s' a' ∧ (n = 1 → (s'.k.tcb t).state = .ready ∧ s'.k.tickCount = w) ∧
      (n ≠ 1 → a'.SleepsUntil t (n - 1) w) := by
  obtain ⟨acts, a', -, hinv⟩ := h.step hs
  obtain ⟨hrep, hwf⟩ := h.ticked hs
  have hsleepers := hrep.sleepers_unique hwf hinv.rep hinv.wf
  have hcore := hinv.rep.core_eq.symm.trans hrep.core_eq
  have htcb : ∀ u, s'.k.tcb u =
      if u ∈ a.lowered.expired then { (a.tcb u).unparked with state := .ready } else a.tcb u := fun u => by
    rw [hrep.core_eq, expireAll_tcb (nodup_expired h.wf)]
    rfl
  have htime : s'.k.tickCount = a.tickCount + 1 := by
    rw [hrep.core_eq, expireAll_tickCount]
    rfl
  have hmem : (t, n - 1) ∈ a.lowered.sleepers := List.mem_map.mpr ⟨(t, n), hsl.mem, rfl⟩
  have hexpired := mem_expired_iff h.wf h.positive hsl.mem
  have hpos := h.positive _ hsl.mem
  refine ⟨a', hinv, ?_, fun hne => ⟨?_, ?_, ?_⟩⟩
  · rintro rfl
    rw [htcb, if_pos (hexpired.mpr rfl), htime, ← hsl.time]
    exact ⟨rfl, rfl⟩
  · rw [← hinv.rep.core_eq, htcb, if_neg (mt hexpired.mp hne)]
    exact hsl.waits
  · rw [hsleepers, expireAll_sleepers]
    refine List.mem_filter.mpr ⟨List.mem_map.mpr ⟨(t, n), hsl.mem, rfl⟩, ?_⟩
    simpa using mt hexpired.mp hne
  · rw [← hinv.rep.core_eq, htime, ← hsl.time, BitVec.add_assoc]
    congr 1
    refine BitVec.eq_of_toNat_eq ?_
    have hone : (1 : TickType).toNat = 1 := rfl
    simp only [BitVec.toNat_add, BitVec.toNat_ofNat, hone]
    simp only at hpos
    omega

end Inv

theorem Rep.delayUntil {k : Kernel} {a : Abs} {t : Tid} {w : TickType} (h : Rep k a) (hwf : a.WF)
    (ht : k.currentTask = some t) (hrun : (a.tcb t).state = .running)
    (hd : 1 ≤ (w - k.tickCount).toNat ∧ (w - k.tickCount).toNat < 2 ^ 31) :
    ∃ b, Rep (Scheduler.delayUntil w k).2 b ∧ b.WF ∧ b.SleepsUntil t (w - k.tickCount).toNat w := by
  have hnone := hwf.waitList_none (t := t) (by simp [hrun])
  rw [Scheduler.delayUntil_sleeps ht hd]
  refine ⟨_, h.sleep hwf hrun (w - k.tickCount), hwf.sleep (hwf.lt_of_state (by simp [hrun])) hrun, ?_, ?_, ?_⟩
  · rw [Abs.sleep, move_tcb, if_pos rfl]
    exact hnone
  · exact mem_insertWhile.mpr (Or.inl rfl)
  · show a.tickCount + _ = w
    rw [← h.core_eq, BitVec.ofNat_toNat, BitVec.setWidth_eq, BitVec.add_comm, BitVec.sub_add_cancel]

theorem Abs.SleepsUntil.of_rep {k : Kernel} {a b : Abs} {t : Tid} {n : Nat} {w : TickType} (h : a.SleepsUntil t n w)
    (hrep : Rep k a) (hwf : a.WF) (hrep' : Rep k b) (hwf' : b.WF) : b.SleepsUntil t n w := by
  have hcore := hrep'.core_eq.symm.trans hrep.core_eq
  refine ⟨?_, ?_, ?_⟩
  · rw [hcore]
    exact h.waits
  · rw [hrep.sleepers_unique hwf hrep' hwf']
    exact h.mem
  · rw [hcore]
    exact h.time

theorem Inv.delayUntil {s s' : Sys} {a : Abs} {w : TickType} (h : Inv s a)
    (hs : s.step (.call (.delayUntil w)) = some s') :
    (∀ t, s.k.currentTask = some t → 1 ≤ (w - s.k.tickCount).toNat ∧ (w - s.k.tickCount).toNat < 2 ^ 31 →
      ∃ a', Inv s' a' ∧ a'.SleepsUntil t (w - s.k.tickCount).toNat w) ∧
    (s.k.currentTask = none ∨ ¬ (1 ≤ (w - s.k.tickCount).toNat ∧ (w - s.k.tickCount).toNat < 2 ^ 31) →
      s' = (s.setK (s.k.emit (.call s.k.self (.delayUntil w)))).setPc s.k.self (.ret .unit)) := by
  obtain ⟨acts, a', -, hinv⟩ := h.step hs
  obtain ⟨-, hcan, huser, -, -, rfl⟩ := Sys.step_call.mp hs
  refine ⟨fun t ht hd => ⟨a', hinv, ?_⟩, fun hno => ?_⟩
  · have hcall : (Action.data (.mark (.call s.k.self (.delayUntil w)))).Enabled a := rfl
    have hrun := (h.entered hcan (by rw [← h.self_eq, huser]; rfl)).running t (by rw [← h.rep.core_eq]; exact ht)
    obtain ⟨b, hrep, hwf, hsleeps⟩ := (h.rep.core (·.emit (.call s.k.self (.delayUntil w)))).delayUntil
      (h.wf.apply hcall) ht hrun hd
    exact hsleeps.of_rep hrep hwf hinv.rep hinv.wf
  · rw [Sys.beginCall, Scheduler.delayUntil_returns (by exact hno)]
    rfl

/-! ### Runs -/

namespace Inv

variable {s s' : Sys} {a : Abs} {t : Tid} {n : Nat} {w : TickType} {e : Event} {es : List Event}

theorem blocked (h : Inv s a) (hsl : a.SleepsUntil t n w) : (s.k.tcb t).state = .blocked := by
  rw [h.rep.core_eq]
  exact h.wf.state_of_sleeps hsl.sleeps

theorem tickCount_step (h : Inv s a) (hs : s.step e = some s') :
    s'.k.tickCount = if e = .tick then s.k.tickCount + 1 else s.k.tickCount := by
  obtain ⟨acts, a', hruns, hinv⟩ := h.step hs
  by_cases he : e = .tick
  · subst he
    obtain ⟨hrep, -⟩ := h.ticked hs
    rw [if_pos rfl, hrep.core_eq, expireAll_tickCount, h.rep.core_eq]
    rfl
  · have hv : (s.visit e s').entry ≠ .sysTick := by
      cases e with
      | tick => exact absurd rfl he
      | _ => simp [Sys.visit, Visit.call, Visit.handler, Visit.pendSV]
    rw [if_neg he, h.rep.core_eq, hinv.rep.core_eq]
    refine hruns.invariant (P := fun b => b.tickCount = a.tickCount) rfl fun act _ b hb hen hf => ?_
    rw [apply_tickCount hen]
    split
    · exact absurd hf hv
    · exact hb

theorem tickCount_run (h : Inv s a) (hrun : s.run es = some s') :
    s'.k.tickCount = s.k.tickCount + BitVec.ofNat 32 (es.count .tick) := by
  induction es generalizing s a with
  | nil =>
    cases hrun
    simp
  | cons e es ih =>
    obtain ⟨s₁, hs, hrun⟩ := Sys.run_cons hrun
    obtain ⟨acts, a₁, -, hinv⟩ := h.step hs
    rw [ih hinv hrun, h.tickCount_step hs]
    by_cases he : e = .tick
    · subst he
      rw [if_pos rfl, List.count_cons_self, Nat.add_comm, BitVec.ofNat_add, BitVec.add_assoc]
      rfl
    · rw [if_neg he, List.count_cons_of_ne he]

theorem sleepsUntil_run (h : Inv s a) (hsl : a.SleepsUntil t n w) (hrun : s.run es = some s')
    (hspared : s.Each (Sys.Spares t) es) (hcount : es.count .tick < n) :
    ∃ a', Inv s' a' ∧ a'.SleepsUntil t (n - es.count .tick) w := by
  induction es generalizing s a n with
  | nil =>
    cases hrun
    exact ⟨a, h, by simpa using hsl⟩
  | cons e es ih =>
    obtain ⟨s₁, hs, hrun'⟩ := Sys.run_cons hrun
    by_cases he : e = .tick
    · subst he
      rw [List.count_cons_self] at hcount ⊢
      obtain ⟨a₁, hinv, -, hnext⟩ := h.sleepsUntil_tick hsl hs
      obtain ⟨a', hinv', hsl'⟩ := ih hinv (hnext (by omega)) hrun' (hspared.2 s₁ hs) (by omega)
      rw [show n - 1 - es.count .tick = n - (es.count .tick + 1) by omega] at hsl'
      exact ⟨a', hinv', hsl'⟩
    · rw [List.count_cons_of_ne he] at hcount ⊢
      obtain ⟨a₁, hinv, hsl₁⟩ := h.sleepsUntil_step hsl hs hspared.1 he
      exact ih hinv hsl₁ hrun' (hspared.2 s₁ hs) hcount

/-- As long as the task is blocked it sleeps until the same time, and fewer ticks have come than its countdown had. -/
theorem sleepsUntil_throughout (h : Inv s a) (hsl : a.SleepsUntil t n w) (hrun : s.run es = some s')
    (hspared : s.Each (Sys.Spares t) es) (hblocked : s.Throughout (fun s => (s.k.tcb t).state = .blocked) es) :
    ∃ a', Inv s' a' ∧ es.count .tick < n ∧ a'.SleepsUntil t (n - es.count .tick) w := by
  induction es generalizing s a n with
  | nil =>
    cases hrun
    have hpos := h.positive _ hsl.mem
    exact ⟨a, h, hpos, hsl⟩
  | cons e es ih =>
    obtain ⟨s₁, hs, hrun'⟩ := Sys.run_cons hrun
    have hrest := hblocked.2 s₁ hs
    by_cases he : e = .tick
    · subst he
      obtain ⟨a₁, hinv, hwake, hnext⟩ := h.sleepsUntil_tick hsl hs
      have hne : n ≠ 1 := fun hone => by
        have hready := (hwake hone).1
        rw [hrest.head] at hready
        cases hready
      obtain ⟨a', hinv', hcount, hsl'⟩ := ih hinv (hnext hne) hrun' (hspared.2 s₁ hs) hrest
      rw [List.count_cons_self]
      rw [show n - 1 - es.count .tick = n - (es.count .tick + 1) by omega] at hsl'
      exact ⟨a', hinv', by omega, hsl'⟩
    · obtain ⟨a₁, hinv, hsl₁⟩ := h.sleepsUntil_step hsl hs hspared.1 he
      rw [List.count_cons_of_ne he]
      exact ih hinv hsl₁ hrun' (hspared.2 s₁ hs) hrest

theorem sleepsUntil_wake (h : Inv s a) (hsl : a.SleepsUntil t n w) (hs : s.step e = some s') (hspared : s.Spares t e)
    (hready : (s'.k.tcb t).state = .ready) : e = .tick ∧ n = 1 ∧ s'.k.tickCount = w := by
  have hasleep : ∀ {a' m}, Inv s' a' → a'.SleepsUntil t m w → False := fun hinv hsl' => by
    rw [hinv.blocked hsl'] at hready
    cases hready
  by_cases he : e = .tick
  · subst he
    obtain ⟨a', hinv, hwake, hnext⟩ := h.sleepsUntil_tick hsl hs
    by_cases hone : n = 1
    · exact ⟨rfl, hone, (hwake hone).2⟩
    · exact (hasleep hinv (hnext hone)).elim
  · obtain ⟨a', hinv, hsl'⟩ := h.sleepsUntil_step hsl hs hspared he
    exact (hasleep hinv hsl').elim

end Inv

/-- `k` iterations of `t += p; delay_until(t)` by the task `task`, from the time `t₀` on, each with a body of fewer
than `p` ticks; the state is the one right after the `k`-th wake-up. -/
inductive Iterates (config : Config) (task : Tid) (t₀ p : TickType) : Nat → Sys → Prop
  | start {s : Sys} (h : Reachable config s) (ht : s.k.tickCount = t₀) : Iterates config task t₀ p 0 s
  | next {k : Nat} {s s₁ s₂ s₃ s₄ : Sys} {body sleep : List Event} {e : Event}
      (h : Iterates config task t₀ p k s)
      (hbody : s.run body = some s₁) (hfast : body.count .tick < p.toNat) (hcur : s₁.k.currentTask = some task)
      (hcall : s₁.step (.call (.delayUntil (t₀ + BitVec.ofNat 32 (k + 1) * p))) = some s₂)
      (hsleep : s₂.run sleep = some s₃) (hspared : s₂.Each (Sys.Spares task) (sleep ++ [e]))
      (hblocked : s₂.Throughout (fun s => (s.k.tcb task).state = .blocked) sleep) (hwake : s₃.step e = some s₄)
      (hready : (s₄.k.tcb task).state = .ready) : Iterates config task t₀ p (k + 1) s₄

theorem next_deadline {t₀ p : TickType} {k j : Nat} (hj : j < p.toNat) :
    (t₀ + BitVec.ofNat 32 (k + 1) * p - (t₀ + BitVec.ofNat 32 k * p + BitVec.ofNat 32 j)).toNat = p.toNat - j := by
  have hlt := p.isLt
  have heq : t₀ + BitVec.ofNat 32 (k + 1) * p - (t₀ + BitVec.ofNat 32 k * p + BitVec.ofNat 32 j) =
      p - BitVec.ofNat 32 j := by
    rw [BitVec.ofNat_add]
    grind
  rw [heq, BitVec.toNat_sub_of_le]
  · rw [BitVec.toNat_ofNat, Nat.mod_eq_of_lt (by omega)]
  · rw [BitVec.le_def, BitVec.toNat_ofNat, Nat.mod_eq_of_lt (by omega)]
    omega

theorem Iterates.time {config : Config} {task : Tid} {t₀ p : TickType} {k : Nat} {s : Sys}
    (hlt : p.toNat < 2 ^ 31) (h : Iterates config task t₀ p k s) :
    Reachable config s ∧ s.k.tickCount = t₀ + BitVec.ofNat 32 k * p := by
  induction h with
  | start h ht => exact ⟨h, by simp [ht]⟩
  | @next k s s₁ s₂ s₃ s₄ body sleep e h hbody hfast hcur hcall hsleep hspared hblocked hwake hready ih =>
    obtain ⟨hreach, htime⟩ := ih
    have hreach₁ := hreach.run hbody
    obtain ⟨a, htracks⟩ := hreach.tracks
    obtain ⟨a₁, htracks₁⟩ := hreach₁.tracks
    have htime₁ := htracks.inv.tickCount_run hbody
    rw [htime] at htime₁
    have hd : (t₀ + BitVec.ofNat 32 (k + 1) * p - s₁.k.tickCount).toNat = p.toNat - body.count .tick := by
      rw [htime₁]
      exact next_deadline hfast
    obtain ⟨a₂, hinv₂, hsl⟩ := (htracks₁.inv.delayUntil hcall).1 task hcur (by omega)
    obtain ⟨hspared, hlast⟩ := hspared.append hsleep
    obtain ⟨a₃, hinv₃, -, hsl₃⟩ := hinv₂.sleepsUntil_throughout hsl hsleep hspared hblocked
    exact ⟨((hreach₁.step _ hcall).run hsleep).step _ hwake,
      (hinv₃.sleepsUntil_wake hsl₃ hwake hlast.1 hready).2.2⟩

/-- `delay_until(w)` at the tick count `c`: for a distance of 1 to `2^31 - 1` ticks the caller sleeps and is readied
in exactly the tick that makes the count `w`, unless somebody suspends or deletes it; for any other distance the
call returns and changes nothing. So the wake-ups of a loop with the period `p` come at the multiples of `p`. -/
theorem delay_until {config : Config} {s s' : Sys} {w : TickType} (h : Reachable config s)
    (hs : s.step (.call (.delayUntil w)) = some s') :
    (∀ t, s.k.currentTask = some t → 1 ≤ (w - s.k.tickCount).toNat ∧ (w - s.k.tickCount).toNat < 2 ^ 31 →
      ∀ es s₁, s'.run es = some s₁ → s'.Each (Sys.Spares t) es →
        es.count .tick < (w - s.k.tickCount).toNat →
        (s₁.k.tcb t).state = .blocked ∧ ∀ s₂, s₁.step .tick = some s₂ →
          ((s₂.k.tcb t).state = .ready ↔ s₂.k.tickCount = w) ∧
          (s₂.k.tickCount = w ↔ es.count .tick + 1 = (w - s.k.tickCount).toNat)) ∧
    (s.k.currentTask = none ∨ ¬ (1 ≤ (w - s.k.tickCount).toNat ∧ (w - s.k.tickCount).toNat < 2 ^ 31) →
      s' = (s.setK (s.k.emit (.call s.k.self (.delayUntil w)))).setPc s.k.self (.ret .unit)) ∧
    ∀ task t₀ p k s₁, 1 ≤ p.toNat → p.toNat < 2 ^ 31 → Iterates config task t₀ p k s₁ →
      s₁.k.tickCount = t₀ + BitVec.ofNat 32 k * p := by
  obtain ⟨a, htracks⟩ := h.tracks
  obtain ⟨hsleeps, hreturns⟩ := htracks.inv.delayUntil hs
  refine ⟨fun t ht hd es s₁ hrun hspared hcount => ?_, hreturns,
    fun task t₀ p k s₁ _ hlt hk => (hk.time hlt).2⟩
  obtain ⟨a', hinv, hsl⟩ := hsleeps t ht hd
  obtain ⟨a₁, hinv₁, hsl₁⟩ := hinv.sleepsUntil_run hsl hrun hspared hcount
  refine ⟨hinv₁.blocked hsl₁, fun s₂ hs₂ => ?_⟩
  generalize hn : (w - s.k.tickCount).toNat - es.count .tick = n at hsl₁
  obtain ⟨a₂, hinv₂, hwake, hnext⟩ := hinv₁.sleepsUntil_tick hsl₁ hs₂
  by_cases hone : n = 1
  · obtain ⟨hready, htime⟩ := hwake hone
    exact ⟨⟨fun _ => htime, fun _ => hready⟩, ⟨fun _ => by omega, fun _ => htime⟩⟩
  · have hsl₂ := hnext hone
    have htime : s₂.k.tickCount ≠ w := fun heq => by
      have hzero := hsl₂.time
      rw [← hinv₂.rep.core_eq, heq] at hzero
      have hz := congrArg BitVec.toNat (BitVec.add_right_eq_self.mp hzero)
      rw [BitVec.toNat_ofNat, Nat.mod_eq_of_lt (by omega)] at hz
      have hpos := hinv₂.positive _ hsl₂.mem
      simp only [BitVec.toNat_zero] at hz hpos
      omega
    refine ⟨⟨fun hready => ?_, fun heq => absurd heq htime⟩,
      ⟨fun heq => absurd heq htime, fun _ => by omega⟩⟩
    rw [hinv₂.blocked hsl₂] at hready
    cases hready

/-- A task waits for the time 2 from the time 0 on. -/
def Sys.untilRun : List Event := createRun 1 2 ++ startRun

theorem delay_until_two : ∃ s s', Sys.run (Sys.init .small) Sys.untilRun = some s ∧
    s.step (.call (.delayUntil 2)) = some s' ∧ ∃ s₁, s'.run [.advance, .tick] = some s₁ ∧
      (s₁.k.tcb 0).state = .blocked ∧ ∀ s₂, s₁.step .tick = some s₂ → (s₂.k.tcb 0).state = .ready := by
  have hrun : ((Sys.run (Sys.init .small) Sys.untilRun).bind fun s => (s.step (.call (.delayUntil 2))).bind fun s' =>
      (s'.run [.advance, .tick]).map fun _ => (s.k.currentTask, s.k.tickCount, s'.pc s'.k.self)) =
      some (some 0, 0, .yield .unit) := by decide +kernel
  obtain ⟨s, hs, hbind⟩ := Option.bind_eq_some_iff.mp hrun
  obtain ⟨s', hs', hbind⟩ := Option.bind_eq_some_iff.mp hbind
  obtain ⟨s₁, hs₁, heq⟩ := Option.map_eq_some_iff.mp hbind
  simp only [Prod.mk.injEq] at heq
  obtain ⟨hcur, htime, hpc⟩ := heq
  have hspared : s'.Each (Sys.Spares 0) [.advance, .tick] :=
    ⟨fun _ => by rw [hpc]; exact ⟨nofun, nofun⟩, fun _ _ => ⟨nofun, fun _ _ => trivial⟩⟩
  have hd : ((2 : TickType) - s.k.tickCount).toNat = 2 := by rw [htime]; rfl
  obtain ⟨hblocked, hnext⟩ :=
    (delay_until (Reachable.run .init hs) hs').1 0 hcur (by rw [hd]; decide) _ _ hs₁ hspared
    (by rw [hd]; decide)
  refine ⟨s, s', hs, hs', s₁, hs₁, hblocked, fun s₂ hs₂ => ?_⟩
  obtain ⟨hready, hcount⟩ := hnext s₂ hs₂
  exact hready.mpr (hcount.mpr (by rw [hd]; rfl))

end AcRtos
