import AcRtos.Lib.Precedes
import AcRtos.ListMembership

/-!
# The ready lists are queues

`ReadyManager` against a map from priorities to queues (`Levels`): the bitmask and `clz` find what a linear search
from the highest priority down finds. In a run the order of two tasks in one ready list never turns round: a task
enters a ready list at its end, and the one in front leaves it only by being dispatched, suspended, deleted or
raised (`Abs.Ahead`, `Abs.Gone`).
-/

namespace AcRtos

open Lib Abs

/-! ### `ReadyManager` on its own -/

/-- Calls of `ReadyManager`; between them the priority of a task outside the lists may be set. -/
inductive ReadyOp
  | assign (t : Tid) (priority : Nat)
  | add (t : Tid)
  | remove (t : Tid)
  | getHighest

namespace ReadyManager

def apply (k : Kernel) : ReadyOp → Option Tid × Kernel
  | .assign t p => (none, k.setTask t fun c => { c with priority := p })
  | .add t => (none, add t k)
  | .remove t => (none, remove t k)
  | .getHighest => getHighestPriorityTask k

/-- What the calls return, and the kernel after them. -/
def run (k : Kernel) : List ReadyOp → List (Option Tid) × Kernel
  | [] => ([], k)
  | op :: ops => ((apply k op).1 :: (run (apply k op).2 ops).1, (run (apply k op).2 ops).2)

end ReadyManager

/-- A queue for each priority. -/
structure Levels where
  priority : Tid → Nat
  queue : Nat → List Tid

namespace Levels

def empty : Levels := ⟨fun _ => 0, fun _ => []⟩

/-- The highest priority below `n` with a queue that is not empty. -/
def search (l : Levels) : Nat → Option Nat
  | 0 => none
  | n + 1 => if l.queue n ≠ [] then some n else l.search n

@[simps -fullyApplied] def setQueue (p : Nat) (xs : List Tid) (l : Levels) : Levels :=
  { l with queue := Function.update l.queue p xs }

def step (l : Levels) : ReadyOp → Option Tid × Levels
  | .assign t p => (none, { l with priority := Function.update l.priority t p })
  | .add t => (none, l.setQueue (l.priority t) (l.queue (l.priority t) ++ [t]))
  | .remove t => (none, l.setQueue (l.priority t) ((l.queue (l.priority t)).erase t))
  | .getHighest =>
      match l.search kMaxPriorities with
      | none => (none, l)
      | some p => ((l.queue p).head?, l.setQueue p (l.queue p).tail)

def run (l : Levels) : List ReadyOp → List (Option Tid) × Levels
  | [] => ([], l)
  | op :: ops => ((l.step op).1 :: (run (l.step op).2 ops).1, (run (l.step op).2 ops).2)

/-- Only a task outside the lists is added or gets another priority, only a member is removed. -/
def Legal (l : Levels) : ReadyOp → Prop
  | .assign t p => p < kMaxPriorities ∧ ∀ q, t ∉ l.queue q
  | .add t => ∀ q, t ∉ l.queue q
  | .remove t => t ∈ l.queue (l.priority t)
  | .getHighest => True

def LegalRun (l : Levels) : List ReadyOp → Prop
  | [] => True
  | op :: ops => l.Legal op ∧ LegalRun (l.step op).2 ops

theorem search_eq {l : Levels} {n p : Nat} (hp : p < n) (hne : l.queue p ≠ [])
    (habove : ∀ q, p < q → q < n → l.queue q = []) : l.search n = some p := by
  induction n with
  | zero => omega
  | succ n ih =>
    rw [search]
    by_cases hpn : p = n
    · subst hpn
      rw [if_pos hne]
    · rw [if_neg (not_not.mpr (habove n (by omega) (by omega)))]
      exact ih (by omega) fun q hq hqn => habove q hq (by omega)

theorem search_none {l : Levels} (n : Nat) (h : ∀ p, l.queue p = []) : l.search n = none := by
  induction n with
  | zero => rfl
  | succ n ih => rw [search, if_neg (not_not.mpr (h n)), ih]

end Levels

/-- The ready lists of `k`, its bitmask and the priorities of its tasks are those of `l`. -/
structure Kernel.ShowsLevels (k : Kernel) (l : Levels) : Prop where
  priority : ∀ t, (k.tcb t).priority = l.priority t
  lists : ∃ seq, k.links.Represents seq ∧ ∀ p, seq (.ready p) = l.queue p
  mask : ∀ p < kMaxPriorities, k.readyBitmask.getLsbD p = true ↔ l.queue p ≠ []

/-- The state behind the queues. -/
structure Levels.Holds (l : Levels) (k : Kernel) (a : Abs) : Prop where
  rep : Rep k a
  priority : ∀ t, (a.tcb t).priority = l.priority t
  priority_lt : ∀ t, l.priority t < kMaxPriorities
  queue : ∀ p, a.seq (.ready p) = l.queue p
  wait : ∀ w, a.seq (.wait w) = []
  level : ∀ p, ∀ t ∈ l.queue p, l.priority t = p

namespace Levels.Holds

variable {l : Levels} {k : Kernel} {a : Abs}

theorem shows (h : l.Holds k a) : k.ShowsLevels l where
  priority t := by rw [h.rep.core_eq, h.priority]
  lists := ⟨a.seq, h.rep.links, h.queue⟩
  mask p hp := by rw [← h.queue, h.rep.mask p hp]

theorem high (h : l.Holds k a) (p : Nat) (hp : kMaxPriorities ≤ p) : a.seq (.ready p) = [] := by
  rw [h.queue]
  by_contra hne
  obtain ⟨t, ht⟩ := List.exists_mem_of_ne_nil _ hne
  have := h.level p t ht
  have := h.priority_lt t
  omega

theorem fresh (h : l.Holds k a) {t : Tid} (ht : ∀ q, t ∉ l.queue q) (j : ListId) : t ∉ a.seq j := by
  cases j with
  | ready p => rw [h.queue]; exact ht p
  | wait w => rw [h.wait]; exact List.not_mem_nil

theorem leave (h : l.Holds k a) {t : Tid} {k' : Kernel} (hrep : Rep k' (a.leave t)) :
    (l.setQueue (l.priority t) ((l.queue (l.priority t)).erase t)).Holds k' (a.leave t) := by
  refine ⟨hrep, h.priority, h.priority_lt, fun p => ?_, fun w => ?_, fun p u hu => ?_⟩
  · show (a.seq (.ready p)).erase t = _
    rw [h.queue, setQueue_queue]
    by_cases hp : p = l.priority t
    · subst hp
      rw [Function.update_self]
    · rw [Function.update_of_ne hp, List.erase_of_not_mem fun hm => hp (h.level p t hm).symm]
  · show (a.seq (.wait w)).erase t = []
    rw [h.wait]
    rfl
  · by_cases hp : p = l.priority t
    · subst hp
      rw [setQueue_queue, Function.update_self] at hu
      exact h.level _ u (List.mem_of_mem_erase hu)
    · rw [setQueue_queue, Function.update_of_ne hp] at hu
      exact h.level p u hu

theorem apply (h : l.Holds k a) {op : ReadyOp} (hlegal : l.Legal op) :
    (ReadyManager.apply k op).1 = (l.step op).1 ∧ ∃ a', (l.step op).2.Holds (ReadyManager.apply k op).2 a' := by
  cases op with
  | assign t p =>
    refine ⟨rfl, _, h.rep.core (·.setTask t fun c => { c with priority := p }), fun u => ?_, fun u => ?_, h.queue,
      h.wait, fun q u hu => ?_⟩
    · by_cases hu : u = t
      · subst hu
        simp [Levels.step]
      · simpa [Levels.step, Function.update_of_ne hu] using h.priority u
    · by_cases hu : u = t
      · subst hu
        simpa [Levels.step] using hlegal.1
      · simpa [Levels.step, Function.update_of_ne hu] using h.priority_lt u
    · have hne : u ≠ t := fun heq => hlegal.2 q (heq ▸ hu)
      simpa [Levels.step, Function.update_of_ne hne] using h.level q u hu
  | add t =>
    have hrep := h.rep.add (h.fresh hlegal) (by rw [h.priority]; exact h.priority_lt t)
    refine ⟨rfl, _, hrep, h.priority, h.priority_lt, fun p => ?_, fun w => ?_, fun p u hu => ?_⟩
    · rw [h.priority]
      by_cases hp : p = l.priority t
      · subst hp
        simp [Levels.step, Abs.enter, h.queue]
      · have hne : ListId.ready p ≠ .ready (l.priority t) := by simpa using hp
        simp [Levels.step, Abs.enter, Function.update_of_ne hne, Function.update_of_ne hp, h.queue]
    · simp [Abs.enter, h.wait]
    · by_cases hp : p = l.priority t
      · subst hp
        simp only [Levels.step, setQueue_queue, Function.update_self, List.mem_append, List.mem_singleton] at hu
        rcases hu with hu | rfl
        · exact h.level _ u hu
        · rfl
      · simp only [Levels.step, setQueue_queue, Function.update_of_ne hp] at hu
        exact h.level p u hu
  | remove t =>
    refine ⟨rfl, _, h.leave (h.rep.remove_ready ?_)⟩
    rw [h.queue, h.priority]
    exact hlegal
  | getHighest =>
    by_cases hne : ∃ p, a.seq (.ready p) ≠ []
    · obtain ⟨t, p, htop, hhead, hfst, hrep⟩ := h.rep.getHighest h.high hne
      have hsearch : l.search kMaxPriorities = some p := by
        refine Levels.search_eq ?_ (by rw [← h.queue]; exact htop.1)
          fun q hq _ => by rw [← h.queue]; exact htop.2 q hq
        by_contra hp
        exact htop.1 (h.high p (Nat.not_lt.mp hp))
      obtain ⟨rest, hq⟩ := List.head?_eq_some_iff.mp hhead
      rw [h.queue] at hq
      have hmem : t ∈ l.queue p := by rw [hq]; exact List.mem_cons_self
      have hlevel := h.level p t hmem
      subst hlevel
      simp only [ReadyManager.apply, Levels.step, hsearch]
      have hleave := h.leave hrep
      rw [hq, List.erase_cons_head] at hleave
      rw [hfst, hq]
      exact ⟨rfl, _, hleave⟩
    · have hnil : ∀ p, a.seq (.ready p) = [] := fun p => not_not.mp fun hp => hne ⟨p, hp⟩
      have hsearch := l.search_none kMaxPriorities fun p => by rw [← h.queue]; exact hnil p
      simp only [ReadyManager.apply, Levels.step, hsearch, h.rep.getHighest_none h.high hnil]
      exact ⟨trivial, a, h⟩

theorem run (h : l.Holds k a) {ops : List ReadyOp} (hlegal : l.LegalRun ops) :
    (ReadyManager.run k ops).1 = (l.run ops).1 ∧ (ReadyManager.run k ops).2.ShowsLevels (l.run ops).2 := by
  induction ops generalizing l k a with
  | nil => exact ⟨rfl, h.shows⟩
  | cons op ops ih =>
    obtain ⟨hfst, a', h'⟩ := h.apply hlegal.1
    obtain ⟨hrest, hshows⟩ := ih h' hlegal.2
    exact ⟨by rw [ReadyManager.run, Levels.run, hfst, hrest], hshows⟩

end Levels.Holds

theorem Levels.holds_empty (config : Config) : Levels.empty.Holds (Kernel.init config) (Abs.init config) where
  rep := Rep.init config
  priority _ := rfl
  priority_lt _ := Nat.zero_lt_succ 31
  queue _ := rfl
  wait _ := rfl
  level _ _ ht := absurd ht List.not_mem_nil

/-! ### The order of a ready list along a run -/

namespace Abs

/-- `t` is ready at the priority `p`, and `u` is not in front of it in the ready list. -/
structure Ahead (a : Abs) (p : Nat) (t u : Tid) : Prop where
  mem : t ∈ a.seq (.ready p)
  before : u ∈ a.seq (.ready p) → Precedes t u (a.seq (.ready p))

/-- `t` has left the ready list of the priority `p` in a visit that does not bring it back. -/
def Gone (a : Abs) (v : Visit) (p : Nat) (t : Tid) : Prop :=
  t < a.taskCount ∧ ((a.tcb t).state = .ready ∧ p < (a.tcb t).priority ∨
    ((a.tcb t).state = .suspended ∨ (a.tcb t).state = .deleted) ∧
      (v.before = .suspendBody t ∨ v.before = .deleteBody t))

variable {a : Abs} {p : Nat} {t u x : Tid} {v : Visit} {act : Action}

theorem Ahead.state (h : a.Ahead p t u) (hwf : a.WF) :
    t < a.taskCount ∧ (a.tcb t).state = .ready ∧ (a.tcb t).priority = p := hwf.mem_ready.mp h.mem

theorem Ahead.move (h : a.Ahead p t u) (hnodup : ∀ l, (a.seq l).Nodup) {f : TaskControlBlock → TaskControlBlock}
    {dest : Option ListId} {ins : List Tid → List Tid} {alarm : Alarm} (hx : x ≠ t)
    (hins : dest = some (.ready p) → ins = (· ++ [x])) : (a.move x f dest ins alarm).Ahead p t u := by
  have hleft : t ∈ (a.seq (.ready p)).erase x := (List.mem_erase_of_ne hx.symm).mpr h.mem
  have hkeep : u ∈ (a.seq (.ready p)).erase x → Precedes t u ((a.seq (.ready p)).erase x) := fun hu =>
    (h.before (List.mem_of_mem_erase hu)).of_sublist (hnodup _) List.erase_sublist hleft hu
  by_cases hd : dest = some (.ready p)
  · have hseq : (a.move x f dest ins alarm).seq (.ready p) = (a.seq (.ready p)).erase x ++ [x] := by
      simp [Abs.move, hd, hins hd]
    refine ⟨by rw [hseq]; exact List.mem_append_left _ hleft, fun hu => ?_⟩
    rw [hseq, List.mem_append, List.mem_singleton] at hu
    rw [hseq]
    rcases hu with hu | rfl
    · exact (hkeep hu).mono (List.sublist_append_left _ _)
    · exact Precedes.append hleft (List.mem_singleton.mpr rfl)
  · have hseq : (a.move x f dest ins alarm).seq (.ready p) = (a.seq (.ready p)).erase x := by
      unfold Abs.move
      cases dest with
      | none => rfl
      | some d =>
        have hne : ListId.ready p ≠ d := fun heq => hd (by rw [heq])
        simp only [Function.update_of_ne hne]
    exact ⟨by rw [hseq]; exact hleft, by rw [hseq]; exact hkeep⟩

theorem Ahead.setPriority (h : a.Ahead p t u) (hwf : a.WF) (hx : x ≠ t) (q : Nat) :
    (a.setPriority x q).Ahead p t u := by
  refine h.move hwf.nodup hx fun hd => if_pos ?_
  unfold placeOf at hd
  cases hs : (a.tcb x).state with
  | ready => rfl
  | blocked => simp [hs] at hd
  | running => simp [hs] at hd
  | suspended => simp [hs] at hd
  | deleted => simp [hs] at hd

theorem Ahead.restore (h : a.Ahead p t u) (hwf : a.WF) (hx : x ≠ t) : (a.restore x).Ahead p t u := by
  unfold Abs.restore
  split
  · exact h.setPriority hwf hx _
  · exact h

theorem Ahead.wake (h : a.Ahead p t u) (hwf : a.WF) (hx : x ≠ t) : (a.wake x).Ahead p t u := by
  refine h.move hwf.nodup hx ?_
  simp

/-- An action outside PendSV keeps `t` ahead of `u`, or takes it off the list for the rest of the visit. -/
theorem Ahead.apply (h : a.Ahead p t u) (hwf : a.WF) (he : act.Enabled a) (hf : act.Fits v a)
    (hv : v.entry ≠ .pendSV) : (act.apply a).Ahead p t u ∨ (act.apply a).Gone v p t := by
  obtain ⟨hlt, hready, hprio⟩ := h.state hwf
  have hne : ∀ {x st}, (a.tcb x).state = st → st ≠ .ready → x ≠ t := by
    rintro x st hx hst rfl
    exact hst (hx.symm.trans hready)
  cases act with
  | data d => exact Or.inl ⟨h.mem, h.before⟩
  | save x => exact Or.inl ⟨h.mem, h.before⟩
  | alloc => exact Or.inl ⟨h.mem, h.before⟩
  | initTcb x site q => exact Or.inl ⟨h.mem, h.before⟩
  | countDown => exact Or.inl ⟨h.mem, h.before⟩
  | acquire m x => exact Or.inl ⟨h.mem, h.before⟩
  | switch x => exact absurd (congrArg Visit.entry hf) hv
  | ready x =>
    have hx : x ≠ t := by rcases he.2 with hs | hs <;> exact hne hs (by simp)
    left
    show (a.ready x).Ahead p t u
    refine h.move hwf.nodup hx ?_
    simp
  | sleep x n =>
    left
    show (a.sleep x n).Ahead p t u
    refine h.move hwf.nodup (hne he.2.1 (by simp)) ?_
    simp
  | expire x =>
    obtain ⟨rest, hsl⟩ := he
    have hs := hwf.state_of_sleeps (t := x) (by simp [Sleeps, hsl])
    left
    show (a.expire x).Ahead p t u
    refine h.move hwf.nodup (hne hs (by simp)) ?_
    simp
  | retire x st =>
    by_cases hx : x = t
    · subst hx
      right
      have hst : st = .suspended ∨ st = .deleted := by
        rcases he with ⟨-, -, hst⟩ | ⟨-, hst⟩
        · exact Or.inl hst
        · exact Or.inr hst
      refine ⟨hlt, Or.inr ⟨?_, ?_⟩⟩
      · rw [apply_tcb hwf he]
        simpa [Action.tcb] using hst
      · exact hf.1.imp And.left And.left
    · left
      show (a.retire x st).Ahead p t u
      refine h.move hwf.nodup hx ?_
      simp
  | park w x timeout =>
    have hx := hne he.2.1 (by simp)
    have hwf' : (a.boost w x).WF := hwf.boost fun m hm o ho => by
      subst hm
      obtain ⟨o', ho', -, hlt'⟩ := he.2.2.2
      rw [ho] at ho'
      cases ho'
      exact hlt'
    -- a ready owner of a lower priority is raised and goes to another list
    by_cases hraise : ∃ m, w = .lock m ∧ a.owner m = some t ∧ (a.tcb t).priority < (a.tcb x).priority
    · obtain ⟨m, rfl, ho, hlow⟩ := hraise
      refine Or.inr ⟨?_, Or.inl ?_⟩
      · rw [apply_taskCount he]
        exact hlt
      · rw [apply_tcb hwf he]
        simp only [Action.tcb, if_neg hx.symm, boosted, ho, hlow, and_self, if_true]
        exact ⟨hready, by omega⟩
    · have hboost : (a.boost w x).Ahead p t u := by
        unfold Abs.boost
        split
        · rename_i m
          split
          · rename_i o ho
            split
            · rename_i hlow
              exact h.setPriority hwf (fun heq => hraise ⟨m, rfl, heq ▸ ho, heq ▸ hlow⟩) _
            · exact h
          · exact h
        · exact h
      left
      show ((a.boost w x).block w x timeout).Ahead p t u
      refine hboost.move hwf'.nodup hx ?_
      simp
  | hand hd x =>
    have hs := (hwf.mem_wait.mp (Handing.Enabled.mem he)).1
    have hcore : (a.core (hd.run x)).Ahead p t u := ⟨h.mem, h.before⟩
    exact Or.inl (hcore.wake (hwf.core (hd.alike x a.toCore)) (hne hs (by simp)))
  | release m x =>
    have hdrop : (a.drop m x).Ahead p t u := ⟨h.mem, h.before⟩
    exact Or.inl (hdrop.restore (hwf.drop m) (hne he.2.1 (by simp)))
  | pass m x next =>
    have hs := (hwf.mem_wait.mp (List.mem_of_mem_head? he.2.2)).1
    have hgive : ((a.drop m x).acquire m next).Ahead p t u := ⟨h.mem, h.before⟩
    exact Or.inl ((hgive.wake ((hwf.drop m).acquire m) (hne hs (by simp))).restore
      (((hwf.drop m).acquire m).wake (hwf.lt_of_state (by simp [hs]))) (hne he.2.1 (by simp)))

theorem le_boosted (w : Wait) : (a.tcb t).priority ≤ a.boosted w x t := by
  unfold boosted
  split
  · split
    · rename_i h
      exact Nat.le_of_lt h.2
    · exact Nat.le_refl _
  · exact Nat.le_refl _

theorem priority_le_apply (hwf : a.WF) (he : act.Enabled a) (hready : (a.tcb t).state = .ready) :
    (a.tcb t).priority ≤ ((act.apply a).tcb t).priority := by
  have hne : ∀ {x st}, (a.tcb x).state = st → st ≠ .ready → t ≠ x := by
    rintro x st hx hst rfl
    exact hst (hx.symm.trans hready)
  rw [apply_tcb hwf he]
  cases act with
  | initTcb x site q => rw [Action.tcb, if_neg (hne he.2.1 (by simp))]
  | release m x => rw [Action.tcb, if_neg (hne he.2.1 (by simp))]
  | pass m x next =>
    rw [Action.tcb, if_neg (hne he.2.1 (by simp))]
    split <;> exact Nat.le_refl _
  | park w x timeout =>
    rw [Action.tcb, if_neg (hne he.2.1 (by simp))]
    exact le_boosted w
  | _ =>
    simp only [Action.tcb]
    first
      | exact Nat.le_refl _
      | (split <;> simp)

theorem Gone.apply (h : a.Gone v p t) (hwf : a.WF) (he : act.Enabled a) (hf : act.Fits v a) (hv : v.entry ≠ .pendSV) :
    (act.apply a).Gone v p t := by
  obtain ⟨hlt, hcase⟩ := h
  refine ⟨Nat.lt_of_lt_of_le hlt (taskCount_le_apply he), ?_⟩
  rcases shift hwf he t with hsame | hshift
  · rw [hsame]
    rcases hcase with ⟨hready, hprio⟩ | hout
    · exact Or.inl ⟨hready, Nat.lt_of_lt_of_le hprio (priority_le_apply hwf he hready)⟩
    · exact Or.inr hout
  · generalize ((act.apply a).tcb t).state = st at hshift ⊢
    -- a task that is neither running nor blocked
    have hidle : (a.tcb t).state ≠ .running ∧ (a.tcb t).state ≠ .blocked := by
      rcases hcase with ⟨hs, -⟩ | ⟨hs | hs, -⟩ <;> simp [hs]
    cases hshift with
    | alloc heq => exact absurd hlt (by rw [heq]; exact Nat.lt_irrefl _)
    | switch hst => exact absurd (congrArg Visit.entry hf) hv
    | ready hst =>
      rcases hf.1 with ⟨hb, hsus⟩ | ⟨hp, -⟩
      · rcases hcase with ⟨hs, -⟩ | ⟨-, hb'⟩
        · rw [hs] at hsus
          cases hsus
        · rcases hb with hb | ⟨site, f, q, hb⟩ <;> rcases hb' with hb' | hb' <;> rw [hb] at hb' <;> cases hb'
      · exact absurd hp hv
    | sleep n hst => exact absurd hst hidle.1
    | park w timeout hst => exact absurd hst hidle.1
    | expire hst => exact absurd hst hidle.2
    | hand hd hw => exact absurd ((hwf.ok t).waits (by simp [hw])) hidle.2
    | pass m x hw => exact absurd ((hwf.ok t).waits (by simp [hw])) hidle.2
    | retire st hst =>
      refine Or.inr ⟨?_, hf.1.imp And.left And.left⟩
      rcases hst with ⟨hst, -⟩ | hst
      · exact Or.inl hst
      · exact Or.inr hst

theorem Gone.not_mem (h : a.Gone v p t) (hwf : a.WF) : t ∉ a.seq (.ready p) := by
  intro hm
  obtain ⟨-, hready, hprio⟩ := hwf.mem_ready.mp hm
  rcases h.2 with ⟨-, hlt⟩ | ⟨hs | hs, -⟩
  · omega
  · rw [hready] at hs
    cases hs
  · rw [hready] at hs
    cases hs

theorem Ahead.runs {a' : Abs} {acts : List Action} (h : a.Ahead p t u) (hruns : Runs v a acts a') (hwf : a.WF)
    (hv : v.entry ≠ .pendSV) (hstay : t ∈ a'.seq (.ready p)) : a'.Ahead p t u := by
  have hall : a'.Ahead p t u ∨ a'.Gone v p t :=
    hruns.keeps (P := fun b => b.Ahead p t u ∨ b.Gone v p t) hwf (Or.inl h) fun _ _ hwf hb he hf =>
      hb.elim (fun h => h.apply hwf he hf hv) fun h => Or.inr (h.apply hwf he hf hv)
  exact hall.resolve_right fun hgone => hgone.not_mem (hruns.wf hwf) hstay

theorem Ahead.putBack (h : a.Ahead p t u) (hwf : a.WF) : a.putBack.Ahead p t u := by
  obtain ⟨-, hready, -⟩ := h.state hwf
  unfold Abs.putBack
  split
  · exact h
  · rename_i c _
    split
    · rename_i hrun
      have hc : c ≠ t := by
        rintro rfl
        rw [hready] at hrun
        cases hrun
      have hsave : (a.saveSp c).Ahead p t u := ⟨h.mem, h.before⟩
      refine hsave.move (show ∀ l, ((a.saveSp c).seq l).Nodup from hwf.nodup) hc ?_
      simp
    · exact ⟨h.mem, h.before⟩

theorem Ahead.storeSp (h : a.Ahead p t u) (psp : Nat) : (a.storeSp psp).Ahead p t u := by
  unfold Abs.storeSp
  split
  · exact h
  · exact ⟨h.mem, h.before⟩

theorem Ahead.head_ne (h : a.Ahead p t u) (hwf : a.WF) (hhead : (a.seq (.ready p)).head? = some u) : t = u := by
  obtain ⟨rest, hseq⟩ := List.head?_eq_some_iff.mp hhead
  have hnodup := hwf.nodup (.ready p)
  have hprec := h.before (by rw [hseq]; exact List.mem_cons_self)
  rw [hseq] at hprec hnodup
  rcases Precedes.cons_iff.mp hprec with ⟨heq, -⟩ | hprec
  · exact heq
  · exact absurd hprec.mem_right (List.nodup_cons.mp hnodup).1

end Abs

section
variable {s s' : Sys} {a : Abs} {p : Nat} {t u : Tid} {e : Event}

/-- PendSV does not dispatch `u` from the list in which `t` is ahead, and keeps `t` ahead unless it dispatches it. -/
theorem Inv.ahead_pendSV (h : Inv s a) (hahead : a.Ahead p t u) {psp : Nat} (hs : s.step (.pendSV psp) = some s') :
    (s'.k.currentTask = some u → t ≠ u → (s'.k.tcb u).priority ≠ p) ∧
      (t ∈ s'.k.members (.ready p) → ∃ a', Inv s' a' ∧ a'.Ahead p t u) := by
  obtain ⟨acts, a', -, hinv⟩ := h.step hs
  obtain ⟨-, hpend, -, hs'⟩ := Sys.step_pendSV.mp hs
  obtain ⟨next, q, acts', hruns, -, hhead, hen, hrep⟩ := h.dispatch hpend psp
  have hwf := hruns.wf h.wf
  have hwf' := hwf.apply hen
  obtain ⟨_, hstore⟩ := Rep.storeSp_runs (a := a) psp
  have hb := (hahead.storeSp psp).putBack (hstore.wf h.wf)
  generalize (a.storeSp psp).putBack = b at hwf hwf' hb hhead hrep hen
  replace hrep : Rep s'.k (b.switch next) := by
    rw [hs']
    exact hrep
  have hnext := hwf.mem_ready.mp (List.mem_of_mem_head? hhead)
  refine ⟨fun hcur hne hprio => ?_, fun hstay => ⟨a', hinv, ?_⟩⟩
  · rw [hrep.core_eq] at hcur hprio
    obtain rfl : next = u := Option.some.inj hcur
    rw [Abs.switch, move_tcb, if_pos rfl] at hprio
    have hq : q = p := hnext.2.2.symm.trans hprio
    subst hq
    exact hne (hb.head_ne hwf hhead)
  · rw [hrep.members_eq hwf'] at hstay
    have hne : next ≠ t := by
      rintro rfl
      have hready := (hwf'.mem_ready.mp hstay).2.1
      rw [Action.apply, Abs.switch, move_tcb, if_pos rfl] at hready
      cases hready
    have hcore : (b.core fun e => { e with currentTask := some next, currentSp := (e.tcb next).sp }).Ahead p t u :=
      ⟨hb.mem, hb.before⟩
    have hswitch : (b.switch next).Ahead p t u := by
      refine hcore.move hwf.nodup hne ?_
      simp
    have hseq : a'.seq = (b.switch next).seq := by
      rw [← hinv.rep.members_eq hinv.wf, hrep.members_eq hwf']
    exact ⟨by rw [hseq]; exact hswitch.mem, by rw [hseq]; exact hswitch.before⟩

theorem Inv.ahead_step (h : Inv s a) (hahead : a.Ahead p t u) (hs : s.step e = some s')
    (hstay : t ∈ s'.k.members (.ready p)) : ∃ a', Inv s' a' ∧ a'.Ahead p t u := by
  obtain ⟨acts, a', hruns, hinv⟩ := h.step hs
  have hrest : (s.visit e s').entry ≠ .pendSV → ∃ a', Inv s' a' ∧ a'.Ahead p t u := fun hv =>
    ⟨a', hinv, hahead.runs hruns h.wf hv (by rw [← hinv.rep.members_eq hinv.wf]; exact hstay)⟩
  cases e with
  | pendSV psp => exact (h.ahead_pendSV hahead hs).2 hstay
  | call c => exact hrest (by simp [Sys.visit, Visit.call])
  | advance => exact hrest (by simp [Sys.visit, Visit.call])
  | tick => exact hrest (by simp [Sys.visit, Visit.sysTick])
  | isr c yield => exact hrest (by simp [Sys.visit, Visit.handler])

theorem Inv.ahead_run {es : List Event} (h : Inv s a) (hahead : a.Ahead p t u) (hrun : s.run es = some s')
    (hstay : s.Throughout (fun s => t ∈ s.k.members (.ready p)) es) : ∃ a', Inv s' a' ∧ a'.Ahead p t u := by
  induction es generalizing s a with
  | nil =>
    cases hrun
    exact ⟨a, h, hahead⟩
  | cons e es ih =>
    obtain ⟨s₁, hs, hrest⟩ := Sys.run_cons hrun
    have hstay₁ := hstay.2 s₁ hs
    obtain ⟨a₁, hinv, hahead₁⟩ := h.ahead_step hahead hs hstay₁.head
    exact ih hinv hahead₁ hrest hstay₁

end

/-- `ReadyManager` serves each priority first in, first out: its calls return what queues return, and its lists and
its bitmask are those of the queues. In a run, a task that is ready at a priority before another one and stays so
is dispatched before it. -/
theorem ready_order {config : Config} :
    (∀ ops, Levels.empty.LegalRun ops →
      (ReadyManager.run (Kernel.init config) ops).1 = (Levels.empty.run ops).1 ∧
      (ReadyManager.run (Kernel.init config) ops).2.ShowsLevels (Levels.empty.run ops).2) ∧
    ∀ s s' s'' es p t u psp, Reachable config s → t ∈ s.k.members (.ready p) → u ∉ s.k.members (.ready p) →
      s.run es = some s' → s.Throughout (fun s => t ∈ s.k.members (.ready p)) es →
      s'.step (.pendSV psp) = some s'' → s''.k.currentTask = some u → (s''.k.tcb u).priority ≠ p := by
  refine ⟨fun ops hops => (Levels.holds_empty config).run hops, ?_⟩
  intro s s' s'' es p t u psp h ht hu hrun hstay hs hcur
  obtain ⟨a, htracks⟩ := h.tracks
  have hinv := htracks.inv
  rw [hinv.rep.members_eq hinv.wf] at ht hu
  obtain ⟨a', hinv', hahead⟩ := hinv.ahead_run ⟨ht, fun hin => absurd hin hu⟩ hrun hstay
  refine (hinv'.ahead_pendSV hahead hs).1 hcur ?_
  rintro rfl
  exact hu ht

/-- Two tasks of one priority; the first one runs and yields. -/
def Sys.yieldRun : List Event := createRun 1 1 ++ createRun 2 1 ++ startRun ++ [.call .yield, .advance]

theorem ready_order_yield : ∃ s s', Sys.run (Sys.init .small) Sys.yieldRun = some s ∧
    s.k.currentTask = some 0 ∧ s.step (.pendSV 0) = some s' ∧ s'.k.currentTask ≠ some 0 := by
  have hrun : ((Sys.run (Sys.init .small) Sys.yieldRun).bind fun s => (s.step (.pendSV 0)).map fun s' =>
      (s.k.currentTask, s.k.members (.ready 1), (s'.k.tcb 0).priority)) = some (some 0, [1], 1) := by decide +kernel
  obtain ⟨s, hs, hbind⟩ := Option.bind_eq_some_iff.mp hrun
  obtain ⟨s', hs', heq⟩ := Option.map_eq_some_iff.mp hbind
  simp only [Prod.mk.injEq] at heq
  obtain ⟨hcur, hready, hprio⟩ := heq
  refine ⟨s, s', hs, hcur, hs', fun hcur' => ?_⟩
  exact ready_order.2 s s s' [] 1 1 0 0 (Reachable.run .init hs) (by simp [hready]) (by simp [hready]) rfl
    (show 1 ∈ s.k.members (.ready 1) by simp [hready]) hs' hcur' hprio

end AcRtos
