import AcRtos.Lib.Stable
import AcRtos.ListMembership

/-!
# The delay list counts every sleeper down

The delay list against the naive model with one counter for each sleeping task (`Counters`, in the order of
insertion): after any sequence of inserts, removals and ticks the deltas from the head up to a task sum up to
its counter, no 32-bit addition or subtraction wraps, and a tick takes off exactly the tasks whose counter
reaches 0, in the order of their insertion. `Kernel.Expires` is what a tick does to the tasks it takes off.
-/

namespace AcRtos

open Lib Abs

/-! ### Operations of the list -/

inductive DelayOp
  | insert (t : Tid) (ticks : TickType)
  | remove (t : Tid)
  | tick
  deriving DecidableEq

namespace DelayList

/-- The loop of `tick`, without what it does to the tasks it takes off the list. -/
def expireLoop : Nat → DelayLinks → Option (List Tid × DelayLinks)
  | fuel, s =>
      match s.head with
      | none => some ([], s)
      | some t =>
          if s.delayTicks t = 0 then
            match fuel with
            | 0 => none
            | fuel + 1 => (expireLoop fuel (unlinkHead t s)).map fun r => (t :: r.1, r.2)
          else some ([], s)

/-- `tick`: the tasks that it takes off, and the list after it. -/
def tick (fuel : Nat) (s : DelayLinks) : Option (List Tid × DelayLinks) := expireLoop fuel (decrementHead s)

def apply (fuel : Nat) (s : DelayLinks) : DelayOp → Option (List Tid × DelayLinks)
  | .insert t ticks => (insert fuel t ticks s).map fun s' => ([], s')
  | .remove t => some ([], remove t s)
  | .tick => tick fuel s

/-- What each operation takes off, and the list after all of them. -/
def run (fuel : Nat) (s : DelayLinks) : List DelayOp → Option (List (List Tid) × DelayLinks)
  | [] => some ([], s)
  | op :: ops => (apply fuel s op).bind fun r => (run fuel r.2 ops).map fun r' => (r.1 :: r'.1, r'.2)

end DelayList

/-- The list before any task sleeps. -/
def DelayLinks.empty : DelayLinks := ⟨none, fun _ => none, fun _ => none, fun _ => 0, fun _ => false⟩

/-! ### The naive model -/

/-- A counter for each sleeping task. -/
abbrev Counters := List (Tid × Nat)

namespace Counters

def step (c : Counters) : DelayOp → List Tid × Counters
  | .insert t ticks => ([], c ++ [(t, ticks.toNat)])
  | .remove t => ([], c.filter fun e => e.1 ≠ t)
  | .tick => ((c.filter fun e => e.2 == 1).map Prod.fst,
      (c.filter fun e => e.2 != 1).map fun e => (e.1, e.2 - 1))

def run (c : Counters) : List DelayOp → List (List Tid) × Counters
  | [] => ([], c)
  | op :: ops => ((c.step op).1 :: (run (c.step op).2 ops).1, (run (c.step op).2 ops).2)

/-- A task of the table that does not sleep may be inserted, with at least one tick to go. -/
def Legal (tasks : Nat) (c : Counters) : DelayOp → Prop
  | .insert t ticks => t < tasks ∧ ticks ≠ 0 ∧ t ∉ c.map Prod.fst
  | _ => True

def LegalRun (tasks : Nat) (c : Counters) : List DelayOp → Prop
  | [] => True
  | op :: ops => c.Legal tasks op ∧ LegalRun tasks (c.step op).2 ops

end Counters

/-! ### The simulation -/

/-- The delay list shows the counters `c`. -/
structure DelayLinks.Shows (s : DelayLinks) (tasks : Nat) (c : Counters) : Prop where
  mem_iff : ∀ t, s.inDelayList t = true ↔ t ∈ c.map Prod.fst
  walk_iff : ∀ t, t ∈ walk s.delayNext tasks s.head ↔ s.inDelayList t = true
  nodup : (walk s.delayNext tasks s.head).Nodup
  /-- The deltas up to a task sum up to its counter. -/
  sum : ∀ l t r, walk s.delayNext tasks s.head = l ++ t :: r → (t, ((l ++ [t]).map s.delta).sum) ∈ c
  head_pos : ∀ t, s.head = some t → 1 ≤ s.delta t
  /-- `task->delay_next->delay_ticks += task->delay_ticks` does not wrap. -/
  add : ∀ t n, s.inDelayList t = true → s.delayNext t = some n → s.delta n + s.delta t < 2 ^ 32
  /-- `current->delay_ticks -= ticks` does not wrap; the subtraction in the loop is guarded. -/
  sub : ∀ ticks rest prev n, DelayList.findSlot s tasks ticks none s.head = some (rest, prev, some n) →
    rest.toNat ≤ s.delta n

namespace DelayList

variable {s : DelayLinks} {sl : List (Tid × Nat)} {c : Counters} {tasks : Nat}

/-- The list behind the counters. -/
structure Holds (s : DelayLinks) (tasks : Nat) (sl : List (Tid × Nat)) (c : Counters) : Prop where
  rep : s.Represents sl
  sorts : Sorts sl c
  pos : ∀ e ∈ sl, 1 ≤ e.2
  lt : ∀ e ∈ sl, e.1 < tasks

theorem findSlot_lt {s : DelayLinks} {fuel : Nat} {ticks rest : TickType} {before at' prev : Option Tid} {n : Tid}
    (h : findSlot s fuel ticks before at' = some (rest, prev, some n)) : rest.toNat ≤ s.delta n := by
  induction fuel generalizing ticks before at' with
  | zero =>
    cases at' with
    | none => simp [findSlot] at h
    | some t => simp [findSlot] at h
  | succ fuel ih =>
    cases at' with
    | none => simp [findSlot] at h
    | some t =>
      rw [findSlot] at h
      split at h
      · exact ih h
      · rename_i hlt
        simp only [Option.some.injEq, Prod.mk.injEq] at h
        obtain ⟨rfl, -, rfl⟩ := h
        rw [ge_iff_le, BitVec.le_def] at hlt
        unfold DelayLinks.delta
        omega

theorem Holds.length_le (h : Holds s tasks sl c) : sl.length ≤ tasks := by
  have hsub : sl.map Prod.fst ⊆ List.range tasks := fun t ht => by
    obtain ⟨e, he, rfl⟩ := List.mem_map.mp ht
    exact List.mem_range.mpr (h.lt e he)
  have hle := (List.subperm_of_subset (h.rep.linked.nodup ()) hsub).length_le
  rwa [List.length_range, List.length_map] at hle

theorem Holds.walk_eq (h : Holds s tasks sl c) : walk s.delayNext tasks s.head = sl.map Prod.fst := by
  rw [show s.head = (sl.map Prod.fst).head? from h.rep.linked.head_eq ()]
  exact (h.rep.linked.seg ()).walk_eq (by rw [List.length_map]; exact h.length_le)

theorem Holds.mem_map (h : Holds s tasks sl c) (t : Tid) : t ∈ sl.map Prod.fst ↔ t ∈ c.map Prod.fst := by
  simp only [List.mem_map, h.sorts.mem_iff]

theorem Holds.shows (h : Holds s tasks sl c) : s.Shows tasks c where
  mem_iff t := by rw [h.rep.mem_iff, h.mem_map]
  walk_iff t := by rw [h.walk_eq, h.rep.mem_iff]
  nodup := by
    rw [h.walk_eq]
    exact h.rep.linked.nodup ()
  sum l t r hwalk := by
    rw [h.walk_eq] at hwalk
    obtain ⟨left, right, rfl, hl, hr⟩ := List.map_eq_append_iff.mp hwalk
    obtain ⟨e, right, rfl, rfl, rfl⟩ := List.map_eq_cons_iff.mp hr
    have hsum := (deltas_append.mp (show Deltas s.delta 0 ((left ++ [e]) ++ right) by
      simpa using h.rep.deltas)).1.sum_eq
    have hend : endOf 0 (left ++ [e]) = e.2 := by simp [endOf]
    have hmem : e ∈ c := h.sorts.mem_iff.mp (by simp)
    rw [← hl]
    rw [hend, Nat.zero_add] at hsum
    have heq : ((left.map Prod.fst ++ [e.1]).map s.delta).sum = e.2 := by
      rw [← hsum]
      simp [Function.comp_def]
    rw [heq]
    exact hmem
  head_pos t ht := by
    cases sl with
    | nil =>
      rw [show s.head = none from h.rep.linked.head_eq ()] at ht
      cases ht
    | cons e sl =>
      rw [show s.head = some e.1 from h.rep.linked.head_eq ()] at ht
      obtain rfl := Option.some.inj ht
      have hd := h.rep.deltas.1
      have := h.pos e (by simp)
      omega
  add t n hin hn := by
    obtain ⟨left, right, m, rfl, -⟩ := exists_split h.rep ((h.rep.mem_iff t).mp hin)
    obtain ⟨-, hnext⟩ := h.rep.linked.links_of_split (i := ()) (l := left.map Prod.fst) (x := t)
      (r := right.map Prod.fst) (by simp)
    rw [hn] at hnext
    cases right with
    | nil => cases hnext
    | cons e right =>
      obtain rfl : n = e.1 := by simpa using hnext
      have hd := (deltas_append.mp h.rep.deltas).2
      have h1 := hd.1
      have h2 := hd.2.1
      have hbound := h.rep.bound e (by simp)
      simp only at h1 h2
      omega
  sub ticks rest prev n hslot := findSlot_lt hslot

theorem filter_ended {xs : Counters} (hxs : ∀ e ∈ xs, 1 ≤ e.2) :
    (xs.map fun e => (e.1, e.2 - 1)).filter (fun e => e.2 == 0) =
      (xs.filter fun e => e.2 == 1).map fun e => (e.1, e.2 - 1) := by
  rw [List.filter_map]
  congr 1
  refine List.filter_congr fun e he => Bool.eq_iff_iff.mpr ?_
  have := hxs e he
  simp only [Function.comp_apply, beq_iff_eq]
  omega

theorem filter_left {xs : Counters} (hxs : ∀ e ∈ xs, 1 ≤ e.2) :
    (xs.map fun e => (e.1, e.2 - 1)).filter (fun e => !(e.2 == 0)) =
      (xs.filter fun e => e.2 != 1).map fun e => (e.1, e.2 - 1) := by
  rw [List.filter_map]
  congr 1
  refine List.filter_congr fun e he => Bool.eq_iff_iff.mpr ?_
  have := hxs e he
  simp only [Function.comp_apply, Bool.not_eq_true', beq_eq_false_iff_ne, bne_iff_ne]
  omega

theorem holds_empty : Holds .empty tasks [] [] :=
  ⟨⟨⟨fun _ => rfl, fun _ => rfl, fun _ => trivial, fun _ => List.nodup_nil,
    fun _ _ _ hx => absurd hx List.not_mem_nil⟩,
    trivial, fun t => by simp [DelayLinks.empty], nofun⟩, .nil, nofun, nofun⟩

/-- The loop of `tick` takes off the countdowns that have run out. -/
theorem expireLoop_represents {fuel : Nat} (h : s.Represents sl) (hfuel : sl.length ≤ fuel) :
    ∃ s', expireLoop fuel s = some ((sl.takeWhile fun e => e.2 == 0).map Prod.fst, s') ∧
      s'.Represents (sl.dropWhile fun e => e.2 == 0) := by
  induction fuel generalizing s sl with
  | zero =>
    obtain rfl := List.eq_nil_of_length_eq_zero (Nat.le_zero.mp hfuel)
    have hhead : s.head = none := h.linked.head_eq ()
    exact ⟨s, by rw [expireLoop, hhead]; rfl, h⟩
  | succ fuel ih =>
    cases sl with
    | nil =>
      have hhead : s.head = none := h.linked.head_eq ()
      exact ⟨s, by rw [expireLoop, hhead]; rfl, h⟩
    | cons e sl =>
      obtain ⟨t, n⟩ := e
      obtain ⟨hhead, hzero⟩ := head_expired h
      rw [expireLoop]
      simp only [hhead]
      by_cases hn : n = 0
      · subst hn
        obtain ⟨s', hs', hrep⟩ := ih (unlinkHead_represents h) (by simpa using hfuel)
        rw [if_pos (hzero.mpr rfl), hs']
        exact ⟨s', by simp, by simpa using hrep⟩
      · rw [if_neg fun hz => hn (hzero.mp hz)]
        exact ⟨s, by simp [hn], by simpa [hn] using h⟩

theorem Holds.apply (h : Holds s tasks sl c) {op : DelayOp} (hlegal : c.Legal tasks op) :
    ∃ s' sl', DelayList.apply tasks s op = some ((c.step op).1, s') ∧ Holds s' tasks sl' (c.step op).2 := by
  cases op with
  | insert t ticks =>
    obtain ⟨hlt, hne, hnot⟩ := hlegal
    obtain ⟨s', hs', hrep⟩ := insert_represents ticks h.rep (fun hm => hnot ((h.mem_map t).mp hm)) h.length_le
    refine ⟨s', _, by rw [DelayList.apply, hs']; rfl, hrep, h.sorts.insert t ticks.toNat, fun e he => ?_,
      fun e he => ?_⟩
    · rcases mem_insertWhile.mp he with rfl | he
      · have : ticks.toNat ≠ 0 := fun hz => hne (BitVec.eq_of_toNat_eq (by simpa using hz))
        show 1 ≤ ticks.toNat
        omega
      · exact h.pos e he
    · rcases mem_insertWhile.mp he with rfl | he
      · exact hlt
      · exact h.lt e he
  | remove t =>
    refine ⟨_, _, rfl, remove_represents h.rep, h.sorts.filter _, fun e he => ?_, fun e he => ?_⟩
    · exact h.pos e (List.mem_filter.mp he).1
    · exact h.lt e (List.mem_filter.mp he).1
  | tick =>
    have hdown := decrementHead_represents h.rep h.pos
    have hsorts := h.sorts.pred h.pos
    obtain ⟨hzero, hrest⟩ := hsorts.takeWhile_zero
    obtain ⟨s', hs', hrep⟩ := expireLoop_represents hdown (by simpa using h.length_le)
    have hcpos : ∀ e ∈ c, 1 ≤ e.2 := fun e he => h.pos e (h.sorts.mem_iff.mpr he)
    rw [hzero, filter_ended hcpos] at hs'
    rw [hrest] at hrep
    refine ⟨s', _, ?_, hrep, ?_, fun e he => ?_, fun e he => ?_⟩
    · rw [DelayList.apply, DelayList.tick, hs']
      simp [Counters.step, Function.comp_def]
    · have := hsorts.filter fun e => !(e.2 == 0)
      rwa [filter_left hcpos] at this
    · have hne := (List.mem_filter.mp he).2
      simp only [Bool.not_eq_true', beq_eq_false_iff_ne] at hne
      omega
    · obtain ⟨e', he', rfl⟩ := List.mem_map.mp (List.mem_filter.mp he).1
      exact h.lt e' he'

theorem Holds.run (h : Holds s tasks sl c) {ops : List DelayOp} (hlegal : c.LegalRun tasks ops) :
    ∃ s' sl', DelayList.run tasks s ops = some ((c.run ops).1, s') ∧ Holds s' tasks sl' (c.run ops).2 := by
  induction ops generalizing s sl c with
  | nil => exact ⟨s, sl, rfl, h⟩
  | cons op ops ih =>
    obtain ⟨s₁, sl₁, hs₁, h₁⟩ := h.apply hlegal.1
    obtain ⟨s₂, sl₂, hs₂, h₂⟩ := ih h₁ hlegal.2
    exact ⟨s₂, sl₂, by rw [DelayList.run, hs₁, Option.bind_some, hs₂]; rfl, h₂⟩

end DelayList

/-! ### When a countdown ends -/

namespace Counters

variable {c : Counters} {tasks : Nat} {op : DelayOp} {ops ops' : List DelayOp} {t : Tid} {n : Nat}

theorem run_append : c.run (ops ++ ops') =
    ((c.run ops).1 ++ ((c.run ops).2.run ops').1, ((c.run ops).2.run ops').2) := by
  induction ops generalizing c with
  | nil => rfl
  | cons op ops ih => simp only [List.cons_append, run, ih]

theorem legalRun_append : c.LegalRun tasks (ops ++ ops') ↔
    c.LegalRun tasks ops ∧ (c.run ops).2.LegalRun tasks ops' := by
  induction ops generalizing c with
  | nil => simp [LegalRun, run]
  | cons op ops ih => simp only [List.cons_append, LegalRun, run, ih, and_assoc]

theorem nodup_step (h : (c.map Prod.fst).Nodup) (hlegal : c.Legal tasks op) : ((c.step op).2.map Prod.fst).Nodup := by
  cases op with
  | insert t ticks =>
    simp only [step, List.map_append, List.map_cons, List.map_nil]
    exact ((List.perm_append_singleton t _).nodup_iff).mpr (List.nodup_cons.mpr ⟨hlegal.2.2, h⟩)
  | remove t => exact (List.filter_sublist.map _).nodup h
  | tick =>
    simp only [step, List.map_map, Function.comp_def]
    exact (List.filter_sublist.map _).nodup h

theorem nodup_run (h : (c.map Prod.fst).Nodup) (hlegal : c.LegalRun tasks ops) :
    ((c.run ops).2.map Prod.fst).Nodup := by
  induction ops generalizing c with
  | nil => exact h
  | cons op ops ih => exact ih (nodup_step h hlegal.1) hlegal.2

theorem mem_run (h : (t, n) ∈ c) (hkeep : DelayOp.remove t ∉ ops) (hcount : ops.count .tick < n) :
    (t, n - ops.count .tick) ∈ (c.run ops).2 := by
  induction ops generalizing c n with
  | nil => simpa [run] using h
  | cons op ops ih =>
    rw [List.mem_cons, not_or] at hkeep
    cases op with
    | insert u ticks =>
      rw [List.count_cons_of_ne (by simp)] at hcount ⊢
      exact ih (List.mem_append_left _ h) hkeep.2 hcount
    | remove u =>
      rw [List.count_cons_of_ne (by simp)] at hcount ⊢
      refine ih (List.mem_filter.mpr ⟨h, ?_⟩) hkeep.2 hcount
      have : t ≠ u := fun heq => hkeep.1 (by rw [heq])
      simpa using this
    | tick =>
      rw [List.count_cons_self] at hcount ⊢
      have hstep : (t, n - 1) ∈ (c.step .tick).2 := by
        refine List.mem_map.mpr ⟨(t, n), List.mem_filter.mpr ⟨h, ?_⟩, rfl⟩
        simp only [bne_iff_ne]
        omega
      have hrun := ih hstep hkeep.2 (by omega)
      rwa [show n - 1 - ops.count .tick = n - (ops.count .tick + 1) by omega] at hrun

theorem mem_step_iff (hnodup : (c.map Prod.fst).Nodup) (h : (t, n) ∈ c) :
    t ∈ (c.step op).1 ↔ op = .tick ∧ n = 1 := by
  cases op with
  | tick =>
    simp only [step, List.mem_map, List.mem_filter, beq_iff_eq, true_and]
    constructor
    · rintro ⟨e, ⟨he, hone⟩, rfl⟩
      have heq : (e.1, n) = e := List.inj_on_of_nodup_map hnodup h he rfl
      rw [← heq] at hone
      exact hone
    · rintro rfl
      exact ⟨(t, 1), ⟨h, rfl⟩, rfl⟩
  | _ => simp [step]

end Counters

/-! ### What the kernel does in a tick -/

theorem Scheduler.expire_delay (t : Tid) (k : Kernel) :
    (Scheduler.expire t k).delay = DelayList.unlinkHead t k.delay := by
  simp only [Scheduler.expire, ReadyManager.add]
  split <;> rfl

/-- The loop of the kernel takes off the same tasks and expires each of them. -/
theorem Scheduler.expireLoop_delay {fuel : Nat} {k : Kernel} {ts : List Tid} {d : DelayLinks}
    (h : DelayList.expireLoop fuel k.delay = some (ts, d)) : (Scheduler.expireLoop fuel k).delay = d := by
  induction fuel generalizing k ts with
  | zero =>
    rw [DelayList.expireLoop] at h
    rw [Scheduler.expireLoop]
    cases hhead : k.delay.head with
    | none =>
      rw [hhead] at h
      cases h
      rfl
    | some t =>
      rw [hhead] at h
      by_cases hz : k.delay.delayTicks t = 0
      · simp only [if_pos hz] at h
        cases h
      · simp only [if_neg hz] at h ⊢
        cases h
        rfl
  | succ fuel ih =>
    rw [DelayList.expireLoop] at h
    rw [Scheduler.expireLoop]
    cases hhead : k.delay.head with
    | none =>
      rw [hhead] at h
      cases h
      rfl
    | some t =>
      rw [hhead] at h
      by_cases hz : k.delay.delayTicks t = 0
      · simp only [if_pos hz] at h ⊢
        obtain ⟨r, hr, heq⟩ := Option.map_eq_some_iff.mp h
        cases heq
        rw [← Scheduler.expire_delay] at hr
        exact ih hr
      · simp only [if_neg hz] at h ⊢
        cases h
        rfl

namespace Abs

variable {a : Abs} {t u : Tid} {ts : List Tid}

theorem expire_ready (hnot : ∀ q, t ∉ a.seq (.ready q)) (p : Nat) :
    (a.expire t).seq (.ready p) = a.seq (.ready p) ++ [t].filter fun u => decide ((a.tcb u).priority = p) :=
  move_ready hnot p

theorem expire_wait (w : WaitId) : (a.expire t).seq (.wait w) = (a.seq (.wait w)).erase t := move_wait w

theorem expire_tcb : (a.expire t).tcb u = if u = t then { (a.tcb u).unparked with state := .ready } else a.tcb u :=
  move_tcb

theorem expireAll_cons : a.expireAll (t :: ts) = (a.expire t).expireAll ts := rfl

theorem expireAll_tcb (hnodup : ts.Nodup) :
    (a.expireAll ts).tcb u = if u ∈ ts then { (a.tcb u).unparked with state := .ready } else a.tcb u := by
  induction ts generalizing a with
  | nil => simp [expireAll]
  | cons t ts ih =>
    obtain ⟨hnot, hnodup⟩ := List.nodup_cons.mp hnodup
    rw [expireAll_cons, ih hnodup, expire_tcb]
    by_cases hu : u = t
    · subst hu
      simp [hnot]
    · simp [hu]

theorem expireAll_wait (w : WaitId) (h : (a.seq (.wait w)).Nodup) :
    (a.expireAll ts).seq (.wait w) = (a.seq (.wait w)).filter fun u => decide (u ∉ ts) := by
  induction ts generalizing a with
  | nil => simp [expireAll]
  | cons t ts ih =>
    rw [expireAll_cons, ih (by rw [expire_wait]; exact h.erase t), expire_wait, h.erase_eq_filter, List.filter_filter]
    refine List.filter_congr fun u _ => ?_
    by_cases hu : u = t <;> simp [hu]

theorem expireAll_ready (hnodup : ts.Nodup) (hnot : ∀ t ∈ ts, ∀ q, t ∉ a.seq (.ready q)) (p : Nat) :
    (a.expireAll ts).seq (.ready p) = a.seq (.ready p) ++ ts.filter fun u => decide ((a.tcb u).priority = p) := by
  induction ts generalizing a with
  | nil => simp [expireAll]
  | cons t ts ih =>
    obtain ⟨hmem, hnodup⟩ := List.nodup_cons.mp hnodup
    have hprio : ∀ u, ((a.expire t).tcb u).priority = (a.tcb u).priority := fun u => by
      rw [expire_tcb]
      split
      · exact unparked_priority _
      · rfl
    have hfirst := expire_ready (hnot t (by simp))
    have hrest : ∀ u ∈ ts, ∀ q, u ∉ (a.expire t).seq (.ready q) := fun u hu q hin => by
      rw [hfirst, List.mem_append] at hin
      rcases hin with hin | hin
      · exact hnot u (by simp [hu]) q hin
      · obtain rfl := List.mem_singleton.mp (List.mem_filter.mp hin).1
        exact hmem hu
    rw [expireAll_cons, ih hnodup hrest, hfirst, List.append_assoc]
    simp only [hprio]
    rw [← List.filter_append]
    rfl

end Abs

/-- The tasks `ts` have expired: each is at the end of its ready list, in order, and out of the list it was parked
on, with `timeout_expired` set. -/
structure Kernel.Expires (ts : List Tid) (k k' : Kernel) : Prop where
  ready : ∀ p, k'.members (.ready p) = k.members (.ready p) ++ ts.filter fun t => decide ((k.tcb t).priority = p)
  wait : ∀ w, k'.members (.wait w) = (k.members (.wait w)).filter fun t => decide (t ∉ ts)
  state : ∀ t, (k'.tcb t).state = if t ∈ ts then .ready else (k.tcb t).state
  parked : ∀ t ∈ ts, (k.tcb t).waitList ≠ none → (k'.tcb t).waitList = none ∧ (k'.tcb t).timeoutExpired = true
  others : ∀ t, t ∉ ts → k'.tcb t = k.tcb t

theorem TaskControlBlock.unparked_expired {c : TaskControlBlock} (h : c.waitList ≠ none) :
    c.unparked.waitList = none ∧ c.unparked.timeoutExpired = true := by
  obtain ⟨w, hw⟩ := Option.ne_none_iff_exists'.mp h
  rw [TaskControlBlock.unparked, hw]
  exact ⟨rfl, rfl⟩

/-- SysTick before it takes anything off the delay list: the time has moved, the countdowns are one lower. -/
def Abs.lowered (a : Abs) : Abs := (a.core DataOp.tick.run).countDown

namespace Abs

variable {a : Abs}

theorem lowered_names : a.lowered.sleepers.map Prod.fst = a.sleepers.map Prod.fst := by
  simp [lowered, Abs.countDown, Function.comp_def]

theorem expired_sublist : a.expired.Sublist (a.sleepers.map Prod.fst) := (List.takeWhile_sublist _).map _

theorem nodup_expired (h : a.WF) : a.lowered.expired.Nodup :=
  expired_sublist.nodup (by rw [lowered_names]; exact h.sleepers_nodup)

end Abs

section
variable {s s' : Sys} {k' : Kernel} {a : Abs}

theorem Inv.ticked (h : Inv s a) (hs : s.step .tick = some s') :
    Rep s'.k (a.lowered.expireAll a.lowered.expired) ∧ (a.lowered.expireAll a.lowered.expired).WF := by
  have hen : (Action.data .tick).Enabled a := trivial
  have hwf := h.wf.apply hen
  obtain ⟨hrep, -, hruns⟩ := (h.rep.core fun e => { e with tickCount := e.tickCount + 1 }).delayTick hwf h.positive
  obtain ⟨-, -, -, rfl⟩ := Sys.step_tick.mp hs
  exact ⟨hrep, hruns.wf hwf⟩

theorem Rep.expires {k : Kernel} (h : Rep k a) (hwf : a.WF) (h' : Rep k' (a.lowered.expireAll a.lowered.expired))
    (hwf' : (a.lowered.expireAll a.lowered.expired).WF) : k.Expires a.lowered.expired k' := by
  have hnodup := nodup_expired hwf
  have hnot : ∀ t ∈ a.lowered.expired, ∀ q, t ∉ a.lowered.seq (.ready q) := fun t ht q hq => by
    have hsleeps : a.Sleeps t := by
      rw [Abs.Sleeps, ← lowered_names]
      exact expired_sublist.subset ht
    have hr := (hwf.mem_ready.mp hq).2.1
    rw [hwf.state_of_sleeps hsleeps] at hr
    cases hr
  have htcb : ∀ t, k'.tcb t =
      if t ∈ a.lowered.expired then { (k.tcb t).unparked with state := .ready } else k.tcb t := fun t => by
    rw [h'.core_eq, expireAll_tcb hnodup, h.core_eq]
    rfl
  refine ⟨fun p => ?_, fun w => ?_, fun t => ?_, fun t ht hw => ?_, fun t ht => ?_⟩
  · rw [h'.members_eq hwf', h.members_eq hwf, expireAll_ready hnodup hnot, h.core_eq]
    rfl
  · rw [h'.members_eq hwf', h.members_eq hwf, expireAll_wait w (show (a.lowered.seq (.wait w)).Nodup from hwf.nodup _)]
    rfl
  · rw [htcb]
    split <;> rfl
  · rw [htcb, if_pos ht]
    exact TaskControlBlock.unparked_expired hw
  · rw [htcb, if_neg ht]

theorem Inv.expires (h : Inv s a) (hs : s.step .tick = some s') :
    ∃ c ts, s.k.delay.Shows s.k.config.kMaxTasks c ∧ ts = (Counters.step c .tick).1 ∧
      DelayList.tick s.k.config.kMaxTasks s.k.delay = some (ts, s'.k.delay) ∧ s.k.Expires ts s'.k := by
  have hholds : DelayList.Holds s.k.delay s.k.config.kMaxTasks a.sleepers a.sleepers := by
    refine ⟨h.rep.delay, ⟨h.wf.sleepers_sorted, fun _ => rfl⟩, h.positive, fun e he => ?_⟩
    rw [h.rep.core_eq]
    exact Nat.lt_of_lt_of_le (h.wf.lt_of_sleeps (List.mem_map_of_mem he)) h.wf.count_le
  -- the list on its own
  obtain ⟨d, sl, htick, -⟩ := hholds.apply (show Counters.Legal _ _ .tick from trivial)
  have hlen : (a.sleepers.map fun e => (e.1, e.2 - 1)).length ≤ s.k.config.kMaxTasks := by
    simpa using hholds.length_le
  obtain ⟨d', hloop, -⟩ :=
    DelayList.expireLoop_represents (DelayList.decrementHead_represents h.rep.delay h.positive) hlen
  have hdelay : s'.k.delay = d := by
    obtain ⟨-, -, -, rfl⟩ := Sys.step_tick.mp hs
    exact Scheduler.expireLoop_delay htick
  have hts : (Counters.step a.sleepers .tick).1 = a.lowered.expired :=
    congrArg Prod.fst (Option.some.inj (htick.symm.trans hloop))
  -- the kernel around it
  obtain ⟨hrep, hwf⟩ := h.ticked hs
  refine ⟨a.sleepers, _, hholds.shows, rfl, by rw [hdelay]; exact htick, ?_⟩
  rw [hts]
  exact h.rep.expires h.wf hrep hwf

end

/-- The delay list against the counters: after any sequence of legal operations its deltas sum up to the counters
without a wrap and it has taken off what the naive model takes off; a task leaves in the tick that makes as many
as it was inserted with, unless it is removed; and in every run of the kernel SysTick takes these tasks off and
readies them, those that were parked without touching the other waiters. -/
theorem countdowns {config : Config} {s s' : Sys} (h : Reachable config s) (hs : s.step .tick = some s') :
    (∀ tasks ops, Counters.LegalRun tasks [] ops →
      ∃ d, DelayList.run tasks .empty ops = some ((Counters.run [] ops).1, d) ∧
        d.Shows tasks (Counters.run [] ops).2) ∧
    (∀ tasks pre t n mid op, Counters.LegalRun tasks [] (pre ++ .insert t n :: (mid ++ [op])) →
      .remove t ∉ mid → mid.count .tick < n.toNat →
      ∃ rs ts d, DelayList.run tasks .empty (pre ++ .insert t n :: (mid ++ [op])) = some (rs ++ [ts], d) ∧
        (t ∈ ts ↔ op = .tick ∧ mid.count .tick + 1 = n.toNat)) ∧
    ∃ c ts, s.k.delay.Shows s.k.config.kMaxTasks c ∧ ts = (Counters.step c .tick).1 ∧
      DelayList.tick s.k.config.kMaxTasks s.k.delay = some (ts, s'.k.delay) ∧ s.k.Expires ts s'.k := by
  have hall : ∀ tasks ops, Counters.LegalRun tasks [] ops →
      ∃ d, DelayList.run tasks .empty ops = some ((Counters.run [] ops).1, d) ∧
        d.Shows tasks (Counters.run [] ops).2 := fun tasks ops hops => by
    obtain ⟨d, sl, hd, hholds⟩ := DelayList.holds_empty.run hops
    exact ⟨d, hd, hholds.shows⟩
  refine ⟨hall, fun tasks pre t n mid op hops hkeep hcount => ?_, ?_⟩
  · obtain ⟨d, hd, -⟩ := hall tasks _ hops
    have hsnoc : pre ++ .insert t n :: (mid ++ [op]) = (pre ++ .insert t n :: mid) ++ [op] := by simp
    rw [hsnoc] at hops hd ⊢
    obtain ⟨hbefore, -⟩ := Counters.legalRun_append.mp hops
    have hin : (t, n.toNat) ∈ ((Counters.run [] pre).2.step (.insert t n)).2 :=
      List.mem_append_right _ (List.mem_singleton.mpr rfl)
    have hmem : (t, n.toNat - mid.count .tick) ∈ (Counters.run [] (pre ++ .insert t n :: mid)).2 := by
      rw [Counters.run_append, Counters.run]
      exact Counters.mem_run hin hkeep hcount
    have htaken : t ∈ ((Counters.run [] (pre ++ .insert t n :: mid)).2.step op).1 ↔ _ :=
      Counters.mem_step_iff (Counters.nodup_run List.nodup_nil hbefore) hmem
    rw [Counters.run_append] at hd
    refine ⟨_, _, d, hd, htaken.trans (and_congr_right fun _ => ?_)⟩
    omega
  · obtain ⟨a, htracks⟩ := h.tracks
    exact htracks.inv.expires hs

/-- Two tasks fall due in the same tick, one of them parked on a queue, while a third one sleeps on. -/
def Sys.timeoutRun : List Event :=
  createRun 1 3 ++ createRun 2 2 ++ createRun 3 1 ++ startRun ++
    [.call (.receive 0 2), .advance, .pendSV 0, .call (.delayMs 2), .advance, .pendSV 0, .call (.delayMs 5),
      .advance, .pendSV 0, .tick]

theorem countdowns_timeout : ∃ s s', Sys.run (Sys.init .small) Sys.timeoutRun = some s ∧
    s.step .tick = some s' ∧ s.k.members (.wait (.receivers 0)) = [0] ∧ s'.k.members (.wait (.receivers 0)) = [] ∧
    s'.k.delay.inDelayList 2 = true ∧
    ∃ c, s.k.delay.Shows s.k.config.kMaxTasks c ∧ (Counters.step c .tick).1 = [0, 1] ∧ s.k.Expires [0, 1] s'.k := by
  have hrun : ((Sys.run (Sys.init .small) Sys.timeoutRun).bind fun s => (s.step .tick).map fun s' =>
      (s.k.members (.wait (.receivers 0)), s'.k.members (.wait (.receivers 0)), s'.k.delay.inDelayList 2,
        (DelayList.tick s.k.config.kMaxTasks s.k.delay).map Prod.fst)) = some ([0], [], true, some [0, 1]) := by
    decide +kernel
  obtain ⟨s, hs, hbind⟩ := Option.bind_eq_some_iff.mp hrun
  obtain ⟨s', hs', hstate⟩ := Option.map_eq_some_iff.mp hbind
  simp only [Prod.mk.injEq] at hstate
  obtain ⟨hparked, hleft, hasleep, hdue⟩ := hstate
  obtain ⟨c, ts, hshows, hts, htick, hexpires⟩ := (countdowns (Reachable.run .init hs) hs').2.2
  obtain rfl : ts = [0, 1] := by
    rw [htick] at hdue
    exact Option.some.inj hdue
  exact ⟨s, s', hs, hs', hparked, hleft, hasleep, c, hshows, hts.symm, hexpires⟩

end AcRtos
