import AcRtos.EventBits
import AcRtos.ListMembership

/-!
# `set_bits` as a fold over the waiters

`Pass.along bits ws` is the sequential reference: it visits the waiters `ws` once each, in order, with the running
bits, and knows no list, no delay list and no other task. The pointer loop of `scan_and_wake_locked` takes the
visited node out of the list it walks and puts it into a ready list by the same two links; that this goes unnoticed
is `scanLoop_runs`, by which the loop ends where `Abs.scan` does. `Abs.Served` is what a pass has done to an
abstract kernel. One waiter that is woken is `Served` by itself, `Served.cons` puts another one in front, and the
induction over the waiters to come (`scan_served`) makes the fold of it.
-/

namespace AcRtos

open Abs AcRtos.Core EventGroup Lib

/-! ### The reference -/

/-- A parked waiter with what it asked for. -/
structure Waiter where
  task : Tid
  mask : BitVec 32
  all : Bool
  clear : Bool
  deriving DecidableEq

/-- A pass over waiters: the running bits, the waiters served so far with what each of them got, and the waiters
left behind. -/
structure Pass where
  bits : BitVec 32
  served : List (Tid × BitVec 32)
  left : List Tid

namespace Pass

/-- A waiter whose condition holds gets the running bits, and clears its mask if it asked for that. -/
def visit (r : Pass) (w : Waiter) : Pass :=
  if bitsSatisfy r.bits w.mask w.all then
    { r with
      bits := if w.clear then r.bits &&& ~~~w.mask else r.bits
      served := r.served ++ [(w.task, r.bits)] }
  else { r with left := r.left ++ [w.task] }

/-- Every waiter once, in order. -/
def along (bits : BitVec 32) (ws : List Waiter) : Pass := ws.foldl visit ⟨bits, [], []⟩

/-- The waiters served. -/
def names (r : Pass) : List Tid := r.served.map Prod.fst

variable {r : Pass} {bits : BitVec 32} {w : Waiter} {ws : List Waiter}

/-- What has been served before does not matter to what comes. -/
theorem foldl_visit : ws.foldl visit r =
    ⟨(along r.bits ws).bits, r.served ++ (along r.bits ws).served, r.left ++ (along r.bits ws).left⟩ := by
  induction ws using List.reverseRecOn with
  | nil => simp [along]
  | append_singleton ws w ih =>
    have hlast : along r.bits (ws ++ [w]) = (along r.bits ws).visit w := by simp [along]
    rw [List.foldl_append, ih, hlast, List.foldl_cons, List.foldl_nil, visit, visit]
    split
    · simp
    · simp

theorem along_concat : along bits (ws ++ [w]) = (along bits ws).visit w := by
  rw [along, List.foldl_append]
  rfl

theorem along_cons_met (h : bitsSatisfy bits w.mask w.all = true) : along bits (w :: ws) =
    { along (if w.clear then bits &&& ~~~w.mask else bits) ws with
      served := (w.task, bits) :: (along (if w.clear then bits &&& ~~~w.mask else bits) ws).served } := by
  rw [along, List.foldl_cons, foldl_visit, visit, if_pos h]
  rfl

theorem along_cons_unmet (h : bitsSatisfy bits w.mask w.all = false) : along bits (w :: ws) =
    { along bits ws with left := w.task :: (along bits ws).left } := by
  rw [along, List.foldl_cons, foldl_visit, visit, if_neg (by simp [h])]
  rfl

theorem names_sublist (bits : BitVec 32) (ws : List Waiter) : (along bits ws).names.Sublist (ws.map Waiter.task) := by
  induction ws generalizing bits with
  | nil => exact .slnil
  | cons w ws ih =>
    cases hw : bitsSatisfy bits w.mask w.all with
    | true =>
      rw [along_cons_met hw]
      exact (ih _).cons_cons w.task
    | false =>
      rw [along_cons_unmet hw]
      exact (ih bits).cons w.task

theorem left_eq (bits : BitVec 32) {ws : List Waiter} (hnodup : (ws.map Waiter.task).Nodup) :
    (along bits ws).left = (ws.map Waiter.task).filter fun t => decide (t ∉ (along bits ws).names) := by
  induction ws generalizing bits with
  | nil => rfl
  | cons w ws ih =>
    obtain ⟨hnot, hnodup⟩ := List.nodup_cons.mp hnodup
    cases hw : bitsSatisfy bits w.mask w.all with
    | true =>
      rw [along_cons_met hw, List.map_cons, List.filter_cons_of_neg (by simp [names])]
      refine (ih _ hnodup).trans (List.filter_congr fun t ht => ?_)
      have hne : t ≠ w.task := fun heq => hnot (heq ▸ ht)
      simp [names, hne]
    | false =>
      have hout : w.task ∉ (along bits ws).names := fun hin => hnot ((names_sublist bits ws).subset hin)
      have hsame : (along bits (w :: ws)).names = (along bits ws).names := by
        rw [along_cons_unmet hw]
        rfl
      rw [hsame, along_cons_unmet hw, List.map_cons, List.filter_cons_of_pos (by simpa using hout), ← ih bits hnodup]

end Pass

/-- What the control block of a waiter asks for. -/
def Core.waiter (e : Core) (t : Tid) : Waiter :=
  ⟨t, (e.tcb t).eventWaitMask, (e.tcb t).eventWaitAll, (e.tcb t).eventClearOnExit⟩

theorem Core.waiter_congr {e e' : Core} {t : Tid} (h : e'.tcb t = e.tcb t) : e'.waiter t = e.waiter t := by
  rw [Core.waiter, Core.waiter, h]

/-! ### What a pass does to the kernel -/

/-- The waiters of `ws` have been served in this order, each with its value. -/
structure Abs.Served (a : Abs) (ws : List (Tid × BitVec 32)) (b : Abs) : Prop where
  tcb : ∀ t, b.tcb t =
    if t ∈ ws.map Prod.fst then { a.tcb t with state := .ready, waitList := none } else a.tcb t
  wait : ∀ w, b.seq (.wait w) = (a.seq (.wait w)).filter fun t => decide (t ∉ ws.map Prod.fst)
  ready : ∀ p, b.seq (.ready p) =
    a.seq (.ready p) ++ (ws.map Prod.fst).filter fun t => decide ((a.tcb t).priority = p)
  sleepers : b.sleepers = a.sleepers.filter fun e => decide (e.1 ∉ ws.map Prod.fst)
  delivered : ∀ t v, (t, v) ∈ ws → b.frame (.task t) = { a.frame (.task t) with bits := v }
  frame : ∀ c, (∀ t ∈ ws.map Prod.fst, c ≠ .task t) → b.frame c = a.frame c
  currentTask : b.currentTask = a.currentTask
  started : b.started = a.started
  fault : b.fault = a.fault

namespace Abs.Served

variable {a b c : Abs} {ws : List (Tid × BitVec 32)} {t : Tid} {v : BitVec 32} {g : EventId}

theorem refl (a : Abs) : a.Served [] a := by
  refine ⟨fun t => rfl, fun w => ?_, fun p => ?_, ?_, ?_, fun c _ => rfl, rfl, rfl, rfl⟩
  · simp
  · simp
  · simp
  · intro t v h
    cases h

theorem priority (h : a.Served ws b) (u : Tid) : (b.tcb u).priority = (a.tcb u).priority := by
  rw [h.tcb]
  split <;> rfl

theorem cons (h : a.Served [(t, v)] b) (h' : b.Served ws c) (ht : t ∉ ws.map Prod.fst) :
    a.Served ((t, v) :: ws) c := by
  refine ⟨fun u => ?_, fun w => ?_, fun p => ?_, ?_, fun u x hu => ?_, fun y hy => ?_, ?_, ?_, ?_⟩
  · rw [h'.tcb, h.tcb]
    by_cases hu : u = t
    · subst hu
      simp [ht]
    · simp [hu]
  · rw [h'.wait, h.wait, List.filter_filter]
    refine List.filter_congr fun u _ => ?_
    by_cases hu : u = t <;> simp [hu]
  · rw [h'.ready, h.ready, List.append_assoc]
    simp only [h.priority]
    rw [← List.filter_append]
    rfl
  · rw [h'.sleepers, h.sleepers, List.filter_filter]
    refine List.filter_congr fun e _ => ?_
    by_cases he : e.1 = t <;> simp [he]
  · rcases List.mem_cons.mp hu with heq | hin
    · cases heq
      rw [h'.frame _ fun u hu => by rintro ⟨⟩; exact ht hu]
      exact h.delivered t v (by simp)
    · have hmem : u ∈ ws.map Prod.fst := List.mem_map_of_mem hin
      rw [h'.delivered u x hin, h.frame]
      intro y hy
      obtain rfl := List.mem_singleton.mp hy
      rintro ⟨⟩
      exact ht hmem
  · rw [h'.frame y fun u hu => hy u (by simp [hu])]
    exact h.frame y fun u hu => hy u (by simpa using Or.inl (List.mem_singleton.mp hu))
  · rw [h'.currentTask, h.currentTask]
  · rw [h'.started, h.started]
  · rw [h'.fault, h.fault]

theorem hand (hwf : a.WF) (hs : a.Starved) (he : (Action.hand (.bits g) t).Enabled a) :
    a.Served [(t, a.currentBits g)] ((Action.hand (.bits g) t).apply a) := by
  obtain ⟨hmem, -⟩ := he
  have hx : (a.tcb t).xferPtr = some (.task t) := hs.xfer t _ (hwf.mem_wait.mp hmem).2 rfl
  have hrun := Handing.run_bits (g := g) hx
  have htcb : ((Handing.bits g).run t a.toCore).tcb = a.tcb := ((Handing.bits g).alike t a.toCore).tcb
  have hready : ∀ q, t ∉ (a.core ((Handing.bits g).run t)).seq (.ready q) := fun q hq => by
    have hstate := (hwf.mem_ready.mp hq).2.1
    rw [(hwf.mem_wait.mp hmem).1] at hstate
    cases hstate
  show a.Served [(t, a.currentBits g)] ((a.core ((Handing.bits g).run t)).wake t)
  refine ⟨fun u => ?_, fun w => ?_, fun p => ?_, ?_, fun u v hu => ?_, fun c hc => ?_, ?_, ?_, ?_⟩
  · rw [wake, move_tcb, core_toCore, htcb]
    simp
  · rw [wake, move_wait]
    simp only [core_seq, (hwf.nodup _).erase_eq_filter]
    refine List.filter_congr fun u _ => ?_
    by_cases hu : u = t <;> simp [hu]
  · rw [wake, move_ready hready, core_toCore, htcb]
    rfl
  · show Countdown.cancel t a.sleepers = _
    refine List.filter_congr fun e _ => ?_
    simp
  · cases List.mem_singleton.mp hu
    show ((Handing.bits g).run t a.toCore).frame (.task t) = _
    rw [hrun]
    simp [(Handing.consume_trace g (.task t) _ _ a.toCore).2]
  · have hne : c ≠ .task t := hc t (by simp)
    show ((Handing.bits g).run t a.toCore).frame c = _
    rw [hrun]
    simp [(Handing.consume_trace g (.task t) _ _ a.toCore).2, Function.update_of_ne hne]
  · exact ((Handing.bits g).alike t a.toCore).currentTask
  · show ((Handing.bits g).run t a.toCore).started = _
    rw [hrun]
    cases (a.tcb t).eventClearOnExit <;> rfl
  · show ((Handing.bits g).run t a.toCore).fault = _
    rw [hrun]
    cases (a.tcb t).eventClearOnExit <;> rfl

end Abs.Served

section
variable {k k' : Kernel} {a : Abs} {g : EventId} {t : Tid} {ts : List Tid}

theorem hand_currentBits (hwf : a.WF) (hs : a.Starved) (he : (Action.hand (.bits g) t).Enabled a) :
    ((Action.hand (.bits g) t).apply a).currentBits = Function.update a.currentBits g
      (if (a.tcb t).eventClearOnExit then a.currentBits g &&& ~~~(a.tcb t).eventWaitMask else a.currentBits g) := by
  have hx : (a.tcb t).xferPtr = some (.task t) := hs.xfer t _ (hwf.mem_wait.mp he.1).2 rfl
  show ((Handing.bits g).run t a.toCore).currentBits = _
  rw [Handing.run_bits hx]
  exact consume_bits g (.task t) _ _ a.toCore

theorem hand_waiters (hwf : a.WF) (hs : a.Starved) (he : (Action.hand (.bits g) t).Enabled a) (ht : t ∉ ts) :
    ts.map ((Action.hand (.bits g) t).apply a).waiter = ts.map a.waiter := by
  refine List.map_congr_left fun u hu => ?_
  have hne : u ≠ t := fun heq => ht (heq ▸ hu)
  refine Core.waiter_congr ?_
  rw [(Served.hand hwf hs he).tcb]
  simp [hne]

theorem scan_served (hwf : a.WF) (hs : a.Starved) (hnodup : ts.Nodup)
    (hsub : ∀ t ∈ ts, t ∈ a.seq (.wait (.waiters g))) :
    a.Served (Pass.along (a.currentBits g) (ts.map a.waiter)).served (a.scan g ts) ∧
      (a.scan g ts).currentBits =
        Function.update a.currentBits g (Pass.along (a.currentBits g) (ts.map a.waiter)).bits := by
  induction ts generalizing a with
  | nil => exact ⟨.refl a, (Function.update_eq_self g a.currentBits).symm⟩
  | cons t ts ih =>
    obtain ⟨hnot, hnodup⟩ := List.nodup_cons.mp hnodup
    cases hmet : conditionMet (a.tcb t) (a.currentBits g) with
    | true =>
      have he : (Action.hand (.bits g) t).Enabled a := ⟨hsub t (by simp), hmet⟩
      have hbits := hand_currentBits hwf hs he
      have hrest : ∀ u ∈ ts, u ∈ ((Action.hand (.bits g) t).apply a).seq (.wait (.waiters g)) := fun u hu => by
        have hne : u ≠ t := fun heq => hnot (heq ▸ hu)
        rw [(Served.hand hwf hs he).wait, List.mem_filter]
        exact ⟨hsub u (by simp [hu]), by simpa using hne⟩
      obtain ⟨hserved, hend⟩ := ih (hwf.apply he) (hs.apply hwf he) hnodup hrest
      rw [hand_waiters hwf hs he hnot, hbits, Function.update_self] at hserved hend
      rw [List.map_cons, Pass.along_cons_met (show bitsSatisfy _ (a.waiter t).mask _ = true from hmet),
        show a.scan g (t :: ts) = ((Action.hand (.bits g) t).apply a).scan g ts from if_pos hmet]
      refine ⟨(Served.hand hwf hs he).cons hserved fun hin => ?_, ?_⟩
      · have hmem := (Pass.names_sublist _ _).subset hin
        rw [List.map_map] at hmem
        exact hnot (by simpa [Core.waiter] using hmem)
      · rw [hend, Function.update_idem]
        rfl
    | false =>
      rw [List.map_cons, Pass.along_cons_unmet (show bitsSatisfy _ (a.waiter t).mask _ = false from hmet),
        show a.scan g (t :: ts) = a.scan g ts from if_neg (by simp [hmet])]
      exact ih hwf hs hnodup fun u hu => hsub u (by simp [hu])

theorem scan_starved (hwf : a.WF) (hs : a.Starved) (hnodup : ts.Nodup)
    (hsub : ∀ t ∈ ts, t ∈ a.seq (.wait (.waiters g))) : (a.scan g ts).Starved :=
  Abs.scan_induction hwf hs hnodup hsub hs fun _ _ hwf hs he _ => hs.apply hwf he

theorem scanLoop_flag (kept : List Tid) (acc : Bool) {fuel : Nat} (h : Rep k a) (hwf : a.WF) (hs : a.Starved)
    (hseq : a.seq (.wait (.waiters g)) = kept ++ ts) (hfuel : ts.length ≤ fuel) :
    (scanLoop g fuel ts.head? acc k).1 =
      (acc || (Pass.along (a.currentBits g) (ts.map a.waiter)).names.any fun t => a.preempts t) := by
  induction ts generalizing kept fuel acc k a with
  | nil =>
    have hend : scanLoop g fuel none acc k = (acc, k) := by cases fuel <;> rfl
    rw [List.head?_nil, hend]
    simp [Pass.along, Pass.names]
  | cons t ts ih =>
    obtain ⟨fuel, rfl⟩ : ∃ n, fuel = n + 1 := ⟨fuel - 1, by simp at hfuel; omega⟩
    obtain ⟨-, hnext⟩ := h.links.links_of_split hseq
    have hlen : ts.length ≤ fuel := by simpa using hfuel
    have hnodup := hwf.nodup (.wait (.waiters g))
    rw [hseq, List.nodup_append, List.nodup_cons] at hnodup
    simp only [List.head?_cons, scanLoop, hnext, h.core_eq, List.map_cons]
    cases hmet : conditionMet (a.tcb t) (a.currentBits g) with
    | true =>
      have he : (Action.hand (.bits g) t).Enabled a := ⟨by rw [hseq]; simp, hmet⟩
      have hone := Served.hand hwf hs he
      obtain ⟨hflag, hrep⟩ := wakeWaiter_serves h hwf he
      have hsame : ∀ u, ((Action.hand (.bits g) t).apply a).preempts u = a.preempts u := fun u =>
        preempts_congr hone.started hone.currentTask hone.priority
      rw [Pass.along_cons_met (show bitsSatisfy _ (a.waiter t).mask _ = true from hmet), if_pos rfl,
        ih kept _ hrep (hwf.apply he) (hs.apply hwf he) (seq_hand_bits hwf hseq) hlen,
        hand_waiters hwf hs he hnodup.2.1.1, hand_currentBits hwf hs he, Function.update_self, hflag]
      simp only [hsame, Bool.or_assoc]
      rfl
    | false =>
      rw [Pass.along_cons_unmet (show bitsSatisfy _ (a.waiter t).mask _ = false from hmet), if_neg (by simp)]
      exact ih (kept ++ [t]) acc h hwf hs (by rw [hseq, List.append_assoc]; rfl) hlen

end

/-! ### The pointers -/

/-- The deltas from the head up to each task, summed up. -/
def DelayLinks.sums (s : DelayLinks) : Nat → List Tid → List (Tid × Nat)
  | _, [] => []
  | base, t :: ts => (t, base + s.delta t) :: s.sums (base + s.delta t) ts

theorem DelayLinks.sums_eq {s : DelayLinks} {base : Nat} {sl : List (Tid × Nat)} (h : Deltas s.delta base sl) :
    s.sums base (sl.map Prod.fst) = sl := by
  induction sl generalizing base with
  | nil => rfl
  | cons e sl ih =>
    obtain ⟨hend, hrest⟩ := h
    rw [List.map_cons, DelayLinks.sums, ← hend, ih hrest]

namespace Kernel

/-- The waiters of a group, in the order of the list. -/
def waiters (k : Kernel) (g : EventId) : List Waiter := (k.members (.wait (.waiters g))).map k.waiter

/-- The sleepers with their remaining ticks, in the order of the delay list. -/
def remaining (k : Kernel) : List (Tid × Nat) := k.delay.sums 0 k.sleeping

/-- The kernel holds an abstract kernel with its invariants; a task is current only after the start; and nobody
who is parked on an event group has timed out. -/
def Sound (k : Kernel) : Prop :=
  ∃ a, Rep k a ∧ a.WF ∧ a.Starved ∧ (∀ t, a.currentTask = some t → a.started = true) ∧
    ∀ t g, a.WaitsOn t (.waiters g) → (a.tcb t).timeoutExpired = false

/-- `k'` is `k` after the pass `r` over the waiters of `g`; `yield` is what the pass asks for. -/
structure Passed (g : EventId) (r : Pass) (k : Kernel) (yield : Bool) (k' : Kernel) : Prop where
  bits : k'.currentBits = Function.update k.currentBits g r.bits
  left : k'.members (.wait (.waiters g)) = r.left
  waiting : ∀ w, w ≠ .waiters g → k'.members (.wait w) = k.members (.wait w)
  ready : ∀ p, k'.members (.ready p) =
    k.members (.ready p) ++ r.names.filter fun t => decide ((k.tcb t).priority = p)
  remaining : k'.remaining = k.remaining.filter fun e => decide (e.1 ∉ r.names)
  tcb : ∀ t, k'.tcb t = if t ∈ r.names then { k.tcb t with state := .ready, waitList := none } else k.tcb t
  /-- What the `wait_bits` call of a woken task returns. -/
  delivered : ∀ t v, (t, v) ∈ r.served → ∀ mask all clear,
    Sys.afterWait t (.bits g mask all clear) k' = .ret (.bits v)
  frame : ∀ c, (∀ t ∈ r.names, c ≠ .task t) → k'.frame c = k.frame c
  yield : yield = true ↔ ∃ c t, k.currentTask = some c ∧ t ∈ r.names ∧ (k.tcb c).priority < (k.tcb t).priority
  currentTask : k'.currentTask = k.currentTask
  fault : k'.fault = k.fault

end Kernel

section
variable {k k' : Kernel} {a : Abs} {g : EventId} {mask : BitVec 32}

theorem Rep.remaining_eq (h : Rep k a) (hwf : a.WF) : k.remaining = a.sleepers := by
  rw [Kernel.remaining, h.sleeping_eq hwf, DelayLinks.sums_eq h.delay.deltas]

theorem Rep.waiters_eq (h : Rep k a) (hwf : a.WF) (g : EventId) :
    k.waiters g = (a.seq (.wait (.waiters g))).map a.waiter := by
  rw [Kernel.waiters, h.members_eq hwf, h.core_eq]

theorem Rep.waiters_task (h : Rep k a) (hwf : a.WF) (g : EventId) :
    (k.waiters g).map Waiter.task = a.seq (.wait (.waiters g)) := by
  rw [h.waiters_eq hwf, List.map_map]
  exact List.map_id _

theorem Reachable.not_expired {config : Config} {s : Sys} {t : Tid} {w : WaitId} (h : Reachable config s)
    (hw : (s.k.tcb t).waitList = some w) : (s.k.tcb t).timeoutExpired = false := by
  obtain ⟨a, htracks⟩ := h.tracks
  have hi := htracks.inv
  have hsaid := htracks.told.1 (.task t)
  have hparked : (a.tcb t).waitList = some w := by rw [← hi.rep.core_eq]; exact hw
  obtain ⟨W, -, hpc⟩ := hi.control.parked t w hparked
  have hwaits : ∃ u x, Ctx.task t = .task u ∧ s.k.Waits (Sys.slips fun _ _ => True) u x W := by
    rcases hpc with hpc | hpc
    · rwa [hpc] at hsaid
    · rwa [hpc] at hsaid
  obtain ⟨u, x, ⟨⟩, -, hwaiting | hfailed | hserved⟩ := hwaits
  · exact hwaiting.expired
  · rw [hfailed.list] at hw
    cases hw
  · rw [hserved.list] at hw
    cases hw

theorem Reachable.sound {config : Config} {s : Sys} (h : Reachable config s) : s.k.Sound := by
  obtain ⟨a, htracks⟩ := h.tracks
  have hi := htracks.inv
  refine ⟨a, hi.rep, hi.wf, hi.starved, fun t ht => (hi.control.current t ht).1, fun t g ht => ?_⟩
  rw [Core.WaitsOn, ← hi.rep.core_eq] at ht
  rw [← hi.rep.core_eq]
  exact h.not_expired ht

theorem setBitsLocked_served (h : Rep k a) (hwf : a.WF) (hs : a.Starved) (g : EventId) (mask : BitVec 32) :
    ∃ b, Rep (setBitsLocked g mask k).2 b ∧ b.WF ∧ b.Starved ∧
      a.Served (Pass.along (k.currentBits g ||| mask) (k.waiters g)).served b ∧
      b.currentBits = Function.update a.currentBits g (Pass.along (k.currentBits g ||| mask) (k.waiters g)).bits ∧
      (setBitsLocked g mask k).1 =
        (Pass.along (k.currentBits g ||| mask) (k.waiters g)).names.any fun t => a.preempts t := by
  have he : (Action.data (.addBits g mask)).Enabled a := trivial
  have hwf₁ : (a.core (addBits g mask)).WF := hwf.apply he
  have hs₁ : (a.core (addBits g mask)).Starved := hs.apply hwf he
  have hrep₁ : Rep (k.core (addBits g mask)) (a.core (addBits g mask)) := h.core (addBits g mask)
  have hbits : (a.core (addBits g mask)).currentBits g = k.currentBits g ||| mask := by
    rw [h.core_eq]
    exact Function.update_self _ _ _
  have hwaiters : (a.seq (.wait (.waiters g))).map (a.core (addBits g mask)).waiter = k.waiters g :=
    (h.waiters_eq hwf g).symm
  have hhead : ((k.core (addBits g mask)).links.list (.wait (.waiters g))).head =
      (a.seq (.wait (.waiters g))).head? := h.links.head_eq _
  have hfuel : (a.seq (.wait (.waiters g))).length ≤ (k.core (addBits g mask)).config.kMaxTasks := by
    rw [hrep₁.core_eq]
    exact hwf₁.length_seq_le _
  have hflag := scanLoop_flag [] false hrep₁ hwf₁ hs₁ rfl hfuel
  obtain ⟨⟨acts, hruns⟩, hrep, -⟩ :=
    setBitsLocked_runs (v := .handler true) h hwf (Prod.eta (setBitsLocked g mask k)).symm fun _ => rfl
  obtain ⟨hserved, hcurrent⟩ := scan_served hwf₁ hs₁ (hwf.nodup (.wait (.waiters g))) fun t ht => ht
  rw [hbits, hwaiters] at hserved hcurrent hflag
  refine ⟨_, hrep, hruns.wf hwf₁, scan_starved hwf₁ hs₁ (hwf.nodup _) fun t ht => ht, ?_, ?_, ?_⟩
  · exact ⟨hserved.tcb, hserved.wait, hserved.ready, hserved.sleepers, hserved.delivered, hserved.frame,
      hserved.currentTask, hserved.started, hserved.fault⟩
  · rw [hcurrent]
    exact Function.update_idem _ _ _
  · rw [setBitsLocked, scanAndWakeLocked, hhead]
    exact hflag

theorem waiter_of_served (h : Rep k a) (hwf : a.WF) {bits : BitVec 32} {t : Tid}
    (ht : t ∈ (Pass.along bits (k.waiters g)).names) : a.WaitsOn t (.waiters g) := by
  have hmem := (Pass.names_sublist _ _).subset ht
  rw [h.waiters_task hwf] at hmem
  exact (hwf.mem_wait.mp hmem).2

theorem setBitsLocked_passed (h : k.Sound) (g : EventId) (mask : BitVec 32) :
    k.Passed g (Pass.along (k.currentBits g ||| mask) (k.waiters g)) (setBitsLocked g mask k).1
      (setBitsLocked g mask k).2 := by
  obtain ⟨a, hrep, hwf, hs, hstarted, hexpired⟩ := h
  obtain ⟨b, hrep', hwf', -, hserved, hbits, hflag⟩ := setBitsLocked_served hrep hwf hs g mask
  have htasks := hrep.waiters_task hwf g
  have hleft := Pass.left_eq (k.currentBits g ||| mask) (by rw [htasks]; exact hwf.nodup _)
  have hnames : ∀ t ∈ (Pass.along (k.currentBits g ||| mask) (k.waiters g)).names, a.WaitsOn t (.waiters g) :=
    fun t => waiter_of_served hrep hwf
  rw [htasks] at hleft
  generalize Pass.along (k.currentBits g ||| mask) (k.waiters g) = r at *
  refine ⟨?_, ?_, fun w hw => ?_, fun p => ?_, ?_, fun t => ?_, fun t v ht mask all clear => ?_, fun c hc => ?_, ?_,
    ?_, ?_⟩
  · rw [hrep'.core_eq, hbits, hrep.core_eq]
  · rw [hrep'.members_eq hwf', hserved.wait, hleft]
    rfl
  · rw [hrep'.members_eq hwf', hserved.wait, hrep.members_eq hwf]
    refine List.filter_eq_self.mpr fun t ht => ?_
    simp only [decide_eq_true_eq]
    intro hin
    have hwaits := hnames t hin
    rw [Core.WaitsOn, (hwf.mem_wait.mp ht).2] at hwaits
    exact hw (Option.some.inj hwaits)
  · rw [hrep'.members_eq hwf', hserved.ready, hrep.members_eq hwf, hrep.core_eq]
    rfl
  · rw [hrep'.remaining_eq hwf', hserved.sleepers, hrep.remaining_eq hwf]
    rfl
  · rw [hrep'.core_eq, hserved.tcb, hrep.core_eq]
    rfl
  · have hin : t ∈ r.served.map Prod.fst := List.mem_map_of_mem ht
    have hnot : (b.tcb t).timeoutExpired = false := by
      rw [hserved.tcb, if_pos hin]
      exact hexpired t g (hnames t hin)
    have hframe : (b.frame (.task t)).bits = v := by rw [hserved.delivered t v ht]
    rw [Sys.afterWait, hrep'.core_eq, hnot, hframe]
    rfl
  · rw [hrep'.core_eq, hserved.frame c hc, hrep.core_eq]
  · rw [hflag, List.any_eq_true, hrep.core_eq]
    constructor
    · rintro ⟨t, ht, hp⟩
      cases hc : a.currentTask with
      | none => simp [Core.preempts, hc] at hp
      | some c => exact ⟨c, t, rfl, ht, by simpa [Core.preempts, hstarted c hc, hc] using hp⟩
    · rintro ⟨c, t, hc, ht, hlt⟩
      refine ⟨t, ht, ?_⟩
      simpa [Core.preempts, hstarted c hc, hc] using hlt
  · rw [hrep'.core_eq, hserved.currentTask, hrep.core_eq]
  · rw [hrep'.core_eq, hserved.fault, hrep.core_eq]

end

/-- Both set operations have the effect of the sequential pass over the waiters, from the bits with the mask
added. -/
theorem set_bits_is_fold {k : Kernel} (h : k.Sound) (g : EventId) (mask : BitVec 32) :
    ∃ yield k', EventGroup.setBits g mask k =
        (.ret (.bits (Pass.along (k.currentBits g ||| mask) (k.waiters g)).bits) yield, k') ∧
      Sys.isrCall (.setBitsFromIsr g mask) k =
        ((.bits (Pass.along (k.currentBits g ||| mask) (k.waiters g)).bits, yield), k') ∧
      k.Passed g (Pass.along (k.currentBits g ||| mask) (k.waiters g)) yield k' := by
  have hpassed := setBitsLocked_passed h g mask
  have hbits : (setBitsLocked g mask k).2.currentBits g =
      (Pass.along (k.currentBits g ||| mask) (k.waiters g)).bits := by
    rw [hpassed.bits, Function.update_self]
  refine ⟨_, _, ?_, ?_, hpassed⟩
  · rw [EventGroup.setBits, hbits]
  · rw [← hbits]
    rfl

/-- Two tasks wait for bits of one group, the first one with clear on exit. -/
def Sys.twoWaitersRun : List Event :=
  createRun 1 2 ++ createRun 2 3 ++ startRun ++
    [.call (.waitBits 0 1 false true kWaitForever), .advance, .advance, .pendSV 0,
      .call (.waitBits 0 3 false false kWaitForever), .advance, .advance, .pendSV 0]

theorem set_bits_is_fold_two : ∃ s y k', Sys.run (Sys.init .small) Sys.twoWaitersRun = some s ∧
    s.k.waiters 0 = [⟨1, 1, false, true⟩, ⟨0, 3, false, false⟩] ∧
    EventGroup.setBits 0 3 s.k = (.ret (.bits 2) y, k') ∧ k'.members (.wait (.waiters 0)) = [] ∧
    Sys.afterWait 1 (.bits 0 1 false true) k' = .ret (.bits 3) ∧
    Sys.afterWait 0 (.bits 0 3 false false) k' = .ret (.bits 2) := by
  have hrun : ((Sys.run (Sys.init .small) Sys.twoWaitersRun).map fun s => (s.k.waiters 0, s.k.currentBits 0)) =
      some ([⟨1, 1, false, true⟩, ⟨0, 3, false, false⟩], 0) := by decide +kernel
  obtain ⟨s, hs, hstate⟩ := Option.map_eq_some_iff.mp hrun
  rw [Prod.mk.injEq] at hstate
  obtain ⟨hwaiters, hbits⟩ := hstate
  obtain ⟨y, k', hset, -, hpassed⟩ := set_bits_is_fold (Reachable.run .init hs).sound 0 3
  rw [hwaiters, hbits] at hset hpassed
  exact ⟨s, y, k', hs, hwaiters, hset, hpassed.left, hpassed.delivered 1 3 (by decide) 1 false true,
    hpassed.delivered 0 2 (by decide) 3 false false⟩

end AcRtos
