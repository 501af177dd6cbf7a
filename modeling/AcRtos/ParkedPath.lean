import AcRtos.SetBits

/-!
# Waiting before or after a set

A task waits for bits and another context sets them. If the task parks first, it stands at the end of the list,
because no waiter is of lower priority, and the pass over the waiters comes to it last: with the bits that the
others have left, which are the bits that `wait_bits` finds when the set comes first. So `Pass.along_concat` makes
one visit of the difference between the two orders, and what this visit does with the control block of the task
(`Pass.visit`) is what `wait_bits` does with its arguments. Between the two calls anything may happen that leaves
the group, its waiters and the priorities alone, such as the context switch that the parked task has asked for.
-/

namespace AcRtos

open Abs AcRtos.Core EventGroup Lib

namespace Kernel

/-- The bits of the group, its waiters with their requests and the priorities are the same. -/
structure SameGroup (g : EventId) (k k' : Kernel) : Prop where
  bits : k'.currentBits g = k.currentBits g
  waiters : k'.waiters g = k.waiters g
  priority : ∀ t, (k'.tcb t).priority = (k.tcb t).priority

theorem SameGroup.refl (g : EventId) (k : Kernel) : k.SameGroup g k := ⟨rfl, rfl, fun _ => rfl⟩

theorem mem_waiters {k : Kernel} {g : EventId} {t : Tid} :
    t ∈ (k.waiters g).map Waiter.task ↔ t ∈ k.members (.wait (.waiters g)) := by
  simp [Kernel.waiters, Core.waiter]

end Kernel

section
variable {k k' : Kernel} {a : Abs} {g : EventId} {mask m : BitVec 32} {all clear : Bool} {ms : TickType} {W : Tid}

/-! ### The parked path -/

theorem block_waiters (hwf : a.WF) (hrun : (a.tcb W).state = .running) {timeout : Option Nat}
    (hlow : ∀ t ∈ a.seq (.wait (.waiters g)), (a.tcb W).priority ≤ (a.tcb t).priority) :
    ((a.block (.bits g mask all clear) W timeout).seq (.wait (.waiters g))).map
        (a.block (.bits g mask all clear) W timeout).waiter =
      (a.seq (.wait (.waiters g))).map a.waiter ++ [⟨W, mask, all, clear⟩] := by
  have hnot : W ∉ a.seq (.wait (.waiters g)) := hwf.fresh_of_state (by simp [hrun]) (by simp [hrun]) _
  have hseq : (a.block (.bits g mask all clear) W timeout).seq (.wait (.waiters g)) =
      a.seq (.wait (.waiters g)) ++ [W] := by
    simp only [block, move, Wait.list, Function.update_self, List.erase_of_not_mem hnot]
    exact insertWhile_of_all fun t ht => by simpa using hlow t ht
  rw [hseq, List.map_append]
  refine congr_arg₂ _ (List.map_congr_left fun t ht => ?_) ?_
  · have hne : t ≠ W := fun heq => hnot (heq ▸ ht)
    refine Core.waiter_congr ?_
    rw [block, move_tcb, if_neg hne]
  · simp [Core.waiter, block, Wait.request]

theorem waitBits_parks (mask : BitVec 32) (all clear : Bool) (h : k.Sound) (hrun : (k.tcb W).state = .running)
    (hms : ms ≠ 0) (hunmet : bitsSatisfy (k.currentBits g) mask all = false)
    (hlow : ∀ t ∈ k.members (.wait (.waiters g)), (k.tcb W).priority ≤ (k.tcb t).priority) :
    ∃ k₁, waitBits g mask all clear ms W k = (.wait (.bits g mask all clear), k₁) ∧ k₁.Sound ∧
      k₁.waiters g = k.waiters g ++ [⟨W, mask, all, clear⟩] ∧ k₁.currentBits g = k.currentBits g ∧
      ∀ t, (k₁.tcb t).priority = (k.tcb t).priority := by
  obtain ⟨a, hrep, hwf, hs, hstarted, hexpired⟩ := h
  rw [hrep.core_eq] at hrun hunmet
  rw [hrep.members_eq hwf, hrep.core_eq] at hlow
  have hcur : a.currentTask = some W := (hwf.ok W).running hrun
  let act := Action.park (.bits g mask all clear) W (Rep.timeoutTicks a.config ms)
  have he : act.Enabled a := by
    refine ⟨hwf.current_lt W hcur, hrun, fun n hn => ?_, hunmet⟩
    unfold Rep.timeoutTicks at hn
    split at hn
    · cases hn
    · cases hn
      exact ⟨msToTicks_pos a.config hms, by simp⟩
  have hrep' := hrep.block hwf hrun (.bits g mask all clear) ms
  have hwf' : (a.block (.bits g mask all clear) W (Rep.timeoutTicks a.config ms)).WF := hwf.apply he
  have htcb : ∀ t, (a.block (.bits g mask all clear) W (Rep.timeoutTicks a.config ms)).tcb t =
      if t = W then _ else a.tcb t := fun t => move_tcb
  refine ⟨_, ?_, ⟨_, hrep', hwf', hs.apply hwf he, hstarted, fun t x ht => ?_⟩, ?_, ?_, fun t => ?_⟩
  · rw [waitBits, hrep.core_eq, if_neg (by simp [hunmet]), if_neg hms]
    rfl
  · by_cases ht' : t = W
    · subst ht'
      rw [htcb, if_pos rfl]
      rfl
    · have hsame := htcb t
      rw [if_neg ht'] at hsame
      rw [Core.WaitsOn, hsame] at ht
      rw [hsame]
      exact hexpired t x ht
  · rw [hrep'.waiters_eq hwf', hrep.waiters_eq hwf]
    exact block_waiters hwf hrun hlow
  · rw [hrep'.core_eq, hrep.core_eq]
    rfl
  · rw [hrep'.core_eq, hrep.core_eq, htcb]
    split
    · rfl
    · rfl

/-! ### The immediate path -/

theorem waitBits_returns (clear : Bool) (ms : TickType) (W : Tid)
    (hmet : bitsSatisfy (k.currentBits g) mask all = true) :
    ∃ k₁, waitBits g mask all clear ms W k = (.ret (.bits (k.currentBits g)) false, k₁) ∧
      k₁.waiters g = k.waiters g ∧
      k₁.currentBits g = if clear then k.currentBits g &&& ~~~mask else k.currentBits g := by
  refine ⟨_, if_pos hmet, ?_, ?_⟩
  · have halike := alike_consume g (.task W) mask clear k.toCore
    simp only [Kernel.waiters, Kernel.members, Kernel.core_links, Kernel.core_toCore, halike.config]
    exact List.map_congr_left fun t _ => Core.waiter_congr (congrFun halike.tcb t)
  · show (consume g (.task W) mask clear k.toCore).currentBits g = _
    rw [consume_bits, Function.update_self]

/-! ### The set -/

/-- The waiters of `ws` that the pass has not served. -/
def Pass.rest (r : Pass) (ws : List Waiter) : List Waiter := ws.filter fun w => decide (w.task ∉ r.names)

theorem Kernel.Passed.priority {r : Pass} {y : Bool} (h : k.Passed g r y k') (t : Tid) :
    (k'.tcb t).priority = (k.tcb t).priority := by
  rw [h.tcb]
  split <;> rfl

theorem Kernel.Passed.tcb_of_not_mem {bits : BitVec 32} {y : Bool} {t : Tid}
    (h : k.Passed g (Pass.along bits (k.waiters g)) y k') (ht : t ∉ k.members (.wait (.waiters g))) :
    k'.tcb t = k.tcb t := by
  rw [h.tcb, if_neg]
  intro hin
  exact ht (Kernel.mem_waiters.mp ((Pass.names_sublist _ _).subset hin))

theorem Kernel.Passed.waiters {bits : BitVec 32} {y : Bool} (h : k.Passed g (Pass.along bits (k.waiters g)) y k')
    (hs : k.Sound) : k'.waiters g = (Pass.along bits (k.waiters g)).rest (k.waiters g) := by
  obtain ⟨a, hrep, hwf, -, -, -⟩ := hs
  have htasks := hrep.waiters_task hwf g
  have hleft := Pass.left_eq bits (by rw [htasks]; exact hwf.nodup _)
  have hmembers : (k.waiters g).map Waiter.task = k.members (.wait (.waiters g)) := by
    rw [htasks, hrep.members_eq hwf]
  generalize Pass.along bits (k.waiters g) = r at *
  rw [Pass.rest, Kernel.waiters, h.left, hleft, hmembers, Kernel.waiters, List.filter_map]
  refine List.map_congr_left fun t ht => Core.waiter_congr ?_
  have hnot := (List.mem_filter.mp ht).2
  rw [decide_eq_true_eq] at hnot
  rw [h.tcb, if_neg hnot]

theorem setBits_sound (h : k.Sound) (g : EventId) (m : BitVec 32) : (setBits g m k).2.Sound := by
  obtain ⟨a, hrep, hwf, hs, hstarted, hexpired⟩ := h
  obtain ⟨b, hrep', hwf', hs', hserved, -, -⟩ := setBitsLocked_served hrep hwf hs g m
  refine ⟨b, hrep', hwf', hs', fun t ht => ?_, fun t x ht => ?_⟩
  · rw [hserved.started]
    exact hstarted t (hserved.currentTask ▸ ht)
  · have htcb := hserved.tcb t
    by_cases hin : t ∈ (Pass.along (k.currentBits g ||| m) (k.waiters g)).served.map Prod.fst
    · rw [Core.WaitsOn, htcb, if_pos hin] at ht
      cases ht
    · rw [if_neg hin] at htcb
      rw [Core.WaitsOn, htcb] at ht
      rw [htcb]
      exact hexpired t x ht

/-! ### Both orders -/

namespace Pass

variable {r : Pass} {w : Waiter}

theorem visit_met (ws : List Waiter) (h : bitsSatisfy r.bits w.mask w.all = true) (hw : w.task ∉ ws.map Waiter.task) :
    (r.visit w).bits = (if w.clear then r.bits &&& ~~~w.mask else r.bits) ∧
      (r.visit w).rest (ws ++ [w]) = r.rest ws ∧ (r.visit w).served = r.served ++ [(w.task, r.bits)] := by
  have hvisit : r.visit w = { r with
      bits := if w.clear then r.bits &&& ~~~w.mask else r.bits
      served := r.served ++ [(w.task, r.bits)] } := if_pos h
  rw [hvisit]
  refine ⟨rfl, ?_, rfl⟩
  rw [rest, List.filter_append, List.filter_cons_of_neg (by simp [names]), List.filter_nil, List.append_nil]
  refine List.filter_congr fun u hu => ?_
  have hne : u.task ≠ w.task := fun heq => hw (heq ▸ List.mem_map_of_mem hu)
  simp [names, hne]

theorem visit_unmet (ws : List Waiter) (h : bitsSatisfy r.bits w.mask w.all = false) (hw : w.task ∉ r.names) :
    (r.visit w).bits = r.bits ∧ (r.visit w).rest (ws ++ [w]) = r.rest ws ++ [w] ∧
      (r.visit w).served = r.served := by
  have hvisit : r.visit w = { r with left := r.left ++ [w.task] } := if_neg (by simp [h])
  rw [hvisit]
  refine ⟨rfl, ?_, rfl⟩
  rw [rest, List.filter_append, List.filter_cons_of_pos (by simpa [names] using hw), List.filter_nil]
  rfl

end Pass

/-- The waiter `t` of `g` is served by the set from `k` to `k'`, and its call returns `v`. -/
def Kernel.Wakes (g : EventId) (t : Tid) (v : BitVec 32) (k k' : Kernel) : Prop :=
  t ∈ k.members (.wait (.waiters g)) ∧ t ∉ k'.members (.wait (.waiters g)) ∧
    ∀ mask all clear, Sys.afterWait t (.bits g mask all clear) k' = .ret (.bits v)

theorem Kernel.Passed.wakes_iff {bits v : BitVec 32} {y : Bool} {t : Tid}
    (h : k.Passed g (Pass.along bits (k.waiters g)) y k') (hs : k.Sound) :
    k.Wakes g t v k' ↔ (t, v) ∈ (Pass.along bits (k.waiters g)).served := by
  have hwaiters := h.waiters hs
  have hmem : ∀ t, t ∈ k'.members (.wait (.waiters g)) ↔
      t ∈ k.members (.wait (.waiters g)) ∧ t ∉ (Pass.along bits (k.waiters g)).names := by
    intro t
    rw [← Kernel.mem_waiters, ← Kernel.mem_waiters, hwaiters]
    simp only [Pass.rest, List.mem_map, List.mem_filter, decide_eq_true_eq]
    constructor
    · rintro ⟨w, ⟨hw, hnot⟩, rfl⟩
      exact ⟨⟨w, hw, rfl⟩, hnot⟩
    · rintro ⟨⟨w, hw, rfl⟩, hnot⟩
      exact ⟨w, ⟨hw, hnot⟩, rfl⟩
  constructor
  · rintro ⟨hin, hout, hreturns⟩
    have hnames : t ∈ (Pass.along bits (k.waiters g)).names := by
      by_contra hnot
      exact hout ((hmem t).mpr ⟨hin, hnot⟩)
    obtain ⟨⟨u, x⟩, hserved, rfl⟩ := List.mem_map.mp hnames
    have hx := h.delivered u x hserved 0 false false
    rw [hreturns] at hx
    cases hx
    exact hserved
  · intro hserved
    have hnames : t ∈ (Pass.along bits (k.waiters g)).names := List.mem_map_of_mem hserved
    refine ⟨?_, fun hout => ((hmem t).mp hout).2 hnames,
      fun mask all clear => h.delivered t v hserved mask all clear⟩
    rw [← Kernel.mem_waiters]
    exact (Pass.names_sublist _ _).subset hnames

end

/-- A task `W` of no higher priority than any waiter parks on `g` and then `m` is set, or `m` is set first and `W`
calls after it: the bits and the waiting tasks with their requests are the same afterwards, the set serves the same
other waiters with the same values, and `W` is left waiting in both orders or gets the same value in both. In
between other things may happen that leave the group, its waiters and the priorities alone. -/
theorem parked_path_agrees {k k' j j' : Kernel} {g : EventId} {W : Tid} {mask m : BitVec 32} {all clear : Bool}
    {ms : TickType} (hk : k.Sound) (hk' : k'.Sound) (hj : j.Sound) (hj' : j'.Sound)
    (hrun : (k.tcb W).state = .running) (hrun' : (j'.tcb W).state = .running)
    (hlow : ∀ t ∈ k.members (.wait (.waiters g)), (k.tcb W).priority ≤ (k.tcb t).priority)
    (hunmet : bitsSatisfy (k.currentBits g) mask all = false) (hms : ms ≠ 0)
    (hparked : (waitBits g mask all clear ms W k).2.SameGroup g k') (hsame : k.SameGroup g j)
    (hset : (setBits g m j).2.SameGroup g j') :
    (setBits g m k').2.currentBits g = (waitBits g mask all clear ms W j').2.currentBits g ∧
    (setBits g m k').2.waiters g = (waitBits g mask all clear ms W j').2.waiters g ∧
    (∀ t v, t ≠ W → (k'.Wakes g t v (setBits g m k').2 ↔ j.Wakes g t v (setBits g m j).2)) ∧
    ((waitBits g mask all clear ms W j').1 = .wait (.bits g mask all clear) ∧
        W ∈ (setBits g m k').2.members (.wait (.waiters g)) ∨
      ∃ v, (waitBits g mask all clear ms W j').1 = .ret (.bits v) false ∧
        k'.Wakes g W v (setBits g m k').2) := by
  obtain ⟨k₁, hpark, -, hwaiters₁, hbits₁, -⟩ := waitBits_parks mask all clear hk hrun hms hunmet hlow
  rw [hpark] at hparked
  have hout : W ∉ (k.waiters g).map Waiter.task := by
    obtain ⟨a, hrep, hwf, -, -, -⟩ := hk
    rw [hrep.core_eq] at hrun
    rw [hrep.waiters_task hwf]
    exact hwf.fresh_of_state (by simp [hrun]) (by simp [hrun]) _
  -- the pass of the second order, and that of the first with one more visit
  have hj₁ := setBitsLocked_passed hj g m
  have hk₂ := setBitsLocked_passed hk' g m
  have hjw := hj₁.waiters hj
  have hkw := hk₂.waiters hk'
  have hwakes := fun t v => hj₁.wakes_iff (t := t) (v := v) hj
  have hwakes' := fun t v => hk₂.wakes_iff (t := t) (v := v) hk'
  rw [hparked.bits, hparked.waiters, hbits₁, hwaiters₁, Pass.along_concat] at hk₂ hkw
  simp only [hparked.bits, hparked.waiters, hbits₁, hwaiters₁, Pass.along_concat] at hwakes'
  rw [hsame.bits, hsame.waiters] at hj₁ hjw
  simp only [hsame.bits, hsame.waiters] at hwakes
  have hnames : W ∉ (Pass.along (k.currentBits g ||| m) (k.waiters g)).names := fun hin =>
    hout ((Pass.names_sublist _ _).subset hin)
  generalize Pass.along (k.currentBits g ||| m) (k.waiters g) = r at *
  have hjbits : j'.currentBits g = r.bits := by
    rw [hset.bits]
    exact (congrFun hj₁.bits g).trans (Function.update_self _ _ _)
  have hkbits : (setBits g m k').2.currentBits g = (r.visit ⟨W, mask, all, clear⟩).bits :=
    (congrFun hk₂.bits g).trans (Function.update_self _ _ _)
  have hjrest : j'.waiters g = r.rest (k.waiters g) := hset.waiters.trans hjw
  cases hmet : bitsSatisfy r.bits mask all with
  | true =>
    obtain ⟨hvb, hvr, hvs⟩ := Pass.visit_met (w := ⟨W, mask, all, clear⟩) (k.waiters g) hmet hout
    obtain ⟨j₂, hreturn, hjw₂, hjb₂⟩ := waitBits_returns clear ms W (hjbits ▸ hmet)
    rw [hreturn]
    rw [hjbits] at hjb₂
    refine ⟨hkbits.trans (hvb.trans hjb₂.symm), ?_, fun t v ht => ?_, Or.inr ⟨_, rfl, ?_⟩⟩
    · exact hkw.trans (hvr.trans (hjrest.symm.trans hjw₂.symm))
    · refine (hwakes' t v).trans (Iff.trans ?_ (hwakes t v).symm)
      rw [hvs]
      simp [ht]
    · refine (hwakes' W _).mpr ?_
      rw [hvs, hjbits]
      simp
  | false =>
    obtain ⟨hvb, hvr, hvs⟩ := Pass.visit_unmet (w := ⟨W, mask, all, clear⟩) (k.waiters g) hmet hnames
    have hlow' : ∀ t ∈ j'.members (.wait (.waiters g)), (j'.tcb W).priority ≤ (j'.tcb t).priority := by
      intro t ht
      have hprio : ∀ u, (j'.tcb u).priority = (k.tcb u).priority := fun u =>
        (hset.priority u).trans ((hj₁.priority u).trans (hsame.priority u))
      rw [← Kernel.mem_waiters, hjrest] at ht
      obtain ⟨w, hw, rfl⟩ := List.mem_map.mp ht
      have hin : w.task ∈ (k.waiters g).map Waiter.task := List.mem_map_of_mem (List.mem_filter.mp hw).1
      rw [hprio, hprio]
      exact hlow _ (Kernel.mem_waiters.mp hin)
    obtain ⟨j₂, hpark', -, hjw₂, hjb₂, -⟩ :=
      waitBits_parks mask all clear hj' hrun' hms (hjbits ▸ hmet) hlow'
    rw [hpark']
    rw [hjrest] at hjw₂
    refine ⟨hkbits.trans (hvb.trans (hjbits.symm.trans hjb₂.symm)), hkw.trans (hvr.trans hjw₂.symm),
      fun t v _ => ?_, Or.inl ⟨rfl, ?_⟩⟩
    · refine (hwakes' t v).trans (Iff.trans ?_ (hwakes t v).symm)
      rw [hvs]
    · rw [← Kernel.mem_waiters, show (setBits g m k').2.waiters g = _ from hkw.trans hvr]
      simp

/-- A task waits for a bit that it clears, and one of lower priority is about to wait for one of two bits. -/
def Sys.lateWaiterRun : List Event :=
  createRun 1 2 ++ createRun 2 3 ++ startRun ++
    [.call (.waitBits 0 1 false true kWaitForever), .advance, .advance, .pendSV 0,
      .call (.waitBits 0 3 false false kWaitForever)]

/-- Both bits are set, right after the task has parked or right before it calls. -/
theorem parked_path_agrees_two : ∃ s, Sys.run (Sys.init .small) Sys.lateWaiterRun = some s ∧
    s.k.members (.wait (.waiters 0)) = [1] ∧
    (setBits 0 3 (waitBits 0 3 false false kWaitForever 0 s.k).2).2.currentBits 0 =
      (waitBits 0 3 false false kWaitForever 0 (setBits 0 3 s.k).2).2.currentBits 0 := by
  have hrun : ((Sys.run (Sys.init .small) Sys.lateWaiterRun).map fun s => (s.k.members (.wait (.waiters 0)),
      (s.k.tcb 0).state, (s.k.tcb 0).priority, (s.k.tcb 1).priority, s.k.currentBits 0)) =
      some ([1], .running, 2, 3, 0) := by decide +kernel
  obtain ⟨s, hs, hstate⟩ := Option.map_eq_some_iff.mp hrun
  simp only [Prod.mk.injEq] at hstate
  obtain ⟨hmembers, hrunning, hlow, hhigh, hbits⟩ := hstate
  have hk := (Reachable.run .init hs).sound
  have hrunning' : ((setBits 0 3 s.k).2.tcb 0).state = .running := by
    have hout : 0 ∉ s.k.members (.wait (.waiters 0)) := by simp [hmembers]
    have hpassed := setBitsLocked_passed hk 0 3
    exact (congrArg TaskControlBlock.state (hpassed.tcb_of_not_mem hout)).trans hrunning
  have hms : kWaitForever ≠ 0 := by decide
  have hunmet : bitsSatisfy (s.k.currentBits 0) 3 false = false := by rw [hbits]; rfl
  have hle : ∀ t ∈ s.k.members (.wait (.waiters 0)), (s.k.tcb 0).priority ≤ (s.k.tcb t).priority := by
    intro t ht
    rw [hmembers] at ht
    rw [List.mem_singleton.mp ht, hlow, hhigh]
    omega
  obtain ⟨k₁, hpark, hk₁, -⟩ := waitBits_parks 3 false false hk hrunning hms hunmet hle
  have hagrees := parked_path_agrees hk (by rw [hpark]; exact hk₁) hk (setBits_sound hk 0 3) hrunning hrunning' hle
    hunmet hms (.refl 0 (waitBits 0 3 false false kWaitForever 0 s.k).2) (.refl 0 s.k) (.refl 0 _)
  exact ⟨s, hs, hmembers, hagrees.1⟩

end AcRtos
