import AcRtos.Kernel
import AcRtos.Lib.Insert

/-!
# The abstract kernel

What the lists are for, without pointers: every `TaskList` is a sequence of tasks, the delay list is a
sequence of countdowns in the order of their ends, and every task has the sequence of mutexes it holds.
`Abs.WF` is the membership invariant: where a task is linked is a function of its control block.

Every operation of the kernel moves one task at a time. `Abs.move` is the general move: the task leaves all
task lists, its control block changes, and it enters at most one list.
-/

namespace AcRtos

open Lib

structure Abs extends Core where
  seq : ListId → List Tid
  sleepers : List (Tid × Nat)
  heldBy : Tid → List MutexId

/-! ### Countdowns -/

namespace Countdown

def cancel (t : Tid) (sl : List (Tid × Nat)) : List (Tid × Nat) := sl.filter fun e => e.1 ≠ t

/-- A countdown goes behind those that end no later. -/
def schedule (t : Tid) (n : Nat) (sl : List (Tid × Nat)) : List (Tid × Nat) :=
  insertWhile (fun e => decide (e.2 ≤ n)) (t, n) sl

variable {t u : Tid} {n : Nat} {sl : List (Tid × Nat)}

theorem mem_cancel : u ∈ (cancel t sl).map Prod.fst ↔ u ≠ t ∧ u ∈ sl.map Prod.fst := by
  simp only [cancel, List.mem_map, List.mem_filter, decide_eq_true_eq]
  constructor
  · rintro ⟨e, ⟨he, hne⟩, rfl⟩
    exact ⟨hne, e, he, rfl⟩
  · rintro ⟨hne, e, he, rfl⟩
    exact ⟨e, ⟨he, hne⟩, rfl⟩

theorem mem_schedule : u ∈ (schedule t n sl).map Prod.fst ↔ u = t ∨ u ∈ sl.map Prod.fst := by
  rw [schedule, ((insertWhile_perm _ (t, n) sl).map Prod.fst).mem_iff]
  simp

theorem cancel_of_not_mem (h : t ∉ sl.map Prod.fst) : cancel t sl = sl :=
  List.filter_eq_self.mpr fun e he => by
    have : e.1 ≠ t := fun heq => h (heq ▸ List.mem_map_of_mem he)
    simpa using this

theorem cancel_sublist : (cancel t sl).Sublist sl := List.filter_sublist

theorem nodup_schedule (h : (sl.map Prod.fst).Nodup) (ht : t ∉ sl.map Prod.fst) :
    ((schedule t n sl).map Prod.fst).Nodup := by
  rw [schedule, ((insertWhile_perm _ (t, n) sl).map Prod.fst).nodup_iff]
  exact List.nodup_cons.mpr ⟨ht, h⟩

theorem sorted_schedule (h : sl.Pairwise fun e e' => e.2 ≤ e'.2) :
    (schedule t n sl).Pairwise fun e e' => e.2 ≤ e'.2 := by
  refine pairwise_insertWhile h ?_ ?_ ?_
  · intro e _ he
    simpa using he
  · intro e _ he
    simp only [decide_eq_false_iff_not] at he
    show n ≤ e.2
    omega
  · intro e e' he hle
    simp only [decide_eq_false_iff_not] at he ⊢
    omega

end Countdown

open Countdown

/-- What a move does to the task's countdown. -/
inductive Alarm
  | keep
  | cancel
  | set (n : Nat)

namespace Alarm

def apply (t : Tid) : Alarm → List (Tid × Nat) → List (Tid × Nat)
  | .keep, sl => sl
  | .cancel, sl => Countdown.cancel t sl
  | .set n, sl => Countdown.schedule t n sl

/-- Whether a task sleeps after its move. -/
def sleeps (before : Prop) : Alarm → Prop
  | .keep => before
  | .cancel => False
  | .set _ => True

variable {t u : Tid}

theorem mem_apply_self (alarm : Alarm) (sl : List (Tid × Nat)) :
    t ∈ (alarm.apply t sl).map Prod.fst ↔ alarm.sleeps (t ∈ sl.map Prod.fst) := by
  cases alarm with
  | keep => rfl
  | cancel => simp [apply, sleeps, mem_cancel]
  | set n => simp [apply, sleeps, mem_schedule]

theorem mem_apply_of_ne (alarm : Alarm) (sl : List (Tid × Nat)) (hu : u ≠ t) :
    u ∈ (alarm.apply t sl).map Prod.fst ↔ u ∈ sl.map Prod.fst := by
  cases alarm with
  | keep => rfl
  | cancel => simp [apply, mem_cancel, hu]
  | set n => rw [apply, mem_schedule]; simp [hu]

end Alarm

/-! ### The state and its invariant -/

namespace Abs

@[simps -fullyApplied toCore seq sleepers heldBy] def core (f : Core → Core) (a : Abs) : Abs :=
  { a with toCore := f a.toCore }

theorem ext_core {a b : Abs} (hcore : a.toCore = b.toCore) (hseq : a.seq = b.seq)
    (hsleepers : a.sleepers = b.sleepers) (hheld : a.heldBy = b.heldBy) : a = b := by
  cases a
  cases b
  cases hcore
  cases hseq
  cases hsleepers
  cases hheld
  rfl

/-- The task has a countdown. -/
def Sleeps (a : Abs) (t : Tid) : Prop := t ∈ a.sleepers.map Prod.fst

instance (a : Abs) (t : Tid) : Decidable (a.Sleeps t) := inferInstanceAs (Decidable (_ ∈ _))

/-- `t` leaves all task lists, its control block changes by `f`, it enters `dest` as `ins` says. -/
def move (t : Tid) (f : TaskControlBlock → TaskControlBlock) (dest : Option ListId)
    (ins : List Tid → List Tid) (alarm : Alarm) (a : Abs) : Abs :=
  let left := fun l => (a.seq l).erase t
  { a with
    toCore := a.toCore.setTask t f
    seq := match dest with
      | none => left
      | some d => Function.update left d (ins (left d))
    sleepers := alarm.apply t a.sleepers }

/-- The list a control block says its task is in. -/
def placeOf (c : TaskControlBlock) : Option ListId :=
  match c.state with
  | .ready => some (.ready c.priority)
  | .blocked => c.waitList.map .wait
  | _ => none

/-- The list task `t` has to be in. -/
def place (a : Abs) (t : Tid) : Option ListId :=
  if t < a.taskCount then placeOf (a.tcb t) else none

/-- The links and the control block of `t` agree. -/
structure Ok (a : Abs) (t : Tid) : Prop where
  mem_seq : ∀ l, t ∈ a.seq l ↔ a.place t = some l
  sleeps : a.Sleeps t → (a.tcb t).state = .blocked
  blocked : (a.tcb t).state = .blocked → (a.tcb t).waitList ≠ none ∨ a.Sleeps t
  waits : (a.tcb t).waitList ≠ none → (a.tcb t).state = .blocked
  running : (a.tcb t).state = .running → a.currentTask = some t
  priority_lt : (a.tcb t).priority < kMaxPriorities
  base_lt : (a.tcb t).basePriority < kMaxPriorities
  fresh : a.taskCount ≤ t → (a.tcb t).state = .ready ∧ (a.tcb t).waitList = none

/-- No countdown has run out: what holds between two ticks. -/
def Positive (a : Abs) : Prop := ∀ e ∈ a.sleepers, 1 ≤ e.2

/-- The membership invariant. -/
structure WF (a : Abs) : Prop where
  ok : ∀ t, a.Ok t
  nodup : ∀ l, (a.seq l).Nodup
  sleepers_nodup : (a.sleepers.map Prod.fst).Nodup
  sleepers_sorted : a.sleepers.Pairwise fun e e' => e.2 ≤ e'.2
  count_le : a.taskCount ≤ a.config.kMaxTasks
  current_lt : ∀ t, a.currentTask = some t → t < a.taskCount

section
variable {a a' : Abs} {t u : Tid} {l : ListId}

theorem Ok.congr (h : a.Ok t) (hseq : ∀ l, t ∈ a'.seq l ↔ t ∈ a.seq l) (htcb : a'.tcb t = a.tcb t)
    (hsleep : a'.Sleeps t ↔ a.Sleeps t) (hcount : a'.taskCount = a.taskCount)
    (hrun : (a.tcb t).state = .running → a'.currentTask = some t) : a'.Ok t where
  mem_seq l := by rw [hseq, h.mem_seq, place, place, hcount, htcb]
  sleeps hs := by rw [htcb]; exact h.sleeps (hsleep.mp hs)
  blocked hb := by rw [htcb] at hb ⊢; rw [hsleep]; exact h.blocked hb
  waits hw := by rw [htcb] at hw ⊢; exact h.waits hw
  running hr := by rw [htcb] at hr; exact hrun hr
  priority_lt := by rw [htcb]; exact h.priority_lt
  base_lt := by rw [htcb]; exact h.base_lt
  fresh hf := by rw [htcb]; exact h.fresh (hcount ▸ hf)

/-! ### Moves -/

section move
variable {f : TaskControlBlock → TaskControlBlock} {dest : Option ListId} {ins : List Tid → List Tid}
  {alarm : Alarm}

@[simp] theorem move_toCore : (a.move t f dest ins alarm).toCore = a.toCore.setTask t f := rfl

@[simp] theorem move_heldBy : (a.move t f dest ins alarm).heldBy = a.heldBy := rfl

@[simp] theorem move_sleepers : (a.move t f dest ins alarm).sleepers = alarm.apply t a.sleepers := rfl

theorem move_tcb_self : ((a.move t f dest ins alarm).tcb t) = f (a.tcb t) := by simp

theorem move_tcb_of_ne (hu : u ≠ t) : ((a.move t f dest ins alarm).tcb u) = a.tcb u := by
  simp [Function.update_of_ne hu]

theorem mem_move_of_ne (hins : ∀ xs, (ins xs).Perm (t :: xs)) (hu : u ≠ t) :
    u ∈ (a.move t f dest ins alarm).seq l ↔ u ∈ a.seq l := by
  unfold move
  cases dest with
  | none => exact List.mem_erase_of_ne hu
  | some d =>
    by_cases hl : l = d
    · subst hl
      simp only [Function.update_self]
      rw [(hins _).mem_iff, List.mem_cons, List.mem_erase_of_ne hu]
      simp [hu]
    · simp only [Function.update_of_ne hl]
      exact List.mem_erase_of_ne hu

theorem mem_move_self (h : ∀ l, (a.seq l).Nodup) (hins : ∀ xs, (ins xs).Perm (t :: xs)) :
    t ∈ (a.move t f dest ins alarm).seq l ↔ dest = some l := by
  have hnot : t ∉ (a.seq l).erase t := fun hm => ((h l).mem_erase_iff.mp hm).1 rfl
  unfold move
  cases dest with
  | none => simpa using hnot
  | some d =>
    by_cases hl : l = d
    · subst hl
      simp only [Function.update_self]
      rw [(hins _).mem_iff]
      simp
    · simp only [Function.update_of_ne hl, Option.some.injEq]
      exact ⟨fun hm => absurd hm hnot, fun heq => absurd heq.symm hl⟩

theorem nodup_move (h : ∀ l, (a.seq l).Nodup) (hins : ∀ xs, (ins xs).Perm (t :: xs)) :
    ((a.move t f dest ins alarm).seq l).Nodup := by
  unfold move
  cases dest with
  | none => exact (h l).erase t
  | some d =>
    by_cases hl : l = d
    · subst hl
      simp only [Function.update_self]
      rw [(hins _).nodup_iff]
      exact List.nodup_cons.mpr ⟨fun hm => ((h l).mem_erase_iff.mp hm).1 rfl, (h l).erase t⟩
    · simp only [Function.update_of_ne hl]
      exact (h l).erase t

theorem WF.move (h : a.WF) (ht : t < a.taskCount) (hins : ∀ xs, (ins xs).Perm (t :: xs))
    (hdest : placeOf (f (a.tcb t)) = dest)
    (hsleeps : alarm.sleeps (a.Sleeps t) → (f (a.tcb t)).state = .blocked)
    (hblocked : (f (a.tcb t)).state = .blocked →
      (f (a.tcb t)).waitList ≠ none ∨ alarm.sleeps (a.Sleeps t))
    (hwaits : (f (a.tcb t)).waitList ≠ none → (f (a.tcb t)).state = .blocked)
    (hrunning : (f (a.tcb t)).state = .running → a.currentTask = some t)
    (hpriority : (f (a.tcb t)).priority < kMaxPriorities)
    (hbase : (f (a.tcb t)).basePriority = (a.tcb t).basePriority)
    (halarm : ∀ n, alarm = .set n → ¬ a.Sleeps t) :
    (a.move t f dest ins alarm).WF where
  ok u := by
    by_cases hu : u = t
    · subst hu
      refine ⟨fun l => ?_, fun hs => ?_, fun hb => ?_, fun hw => ?_, fun hr => ?_, ?_, ?_, fun hf => ?_⟩
      · rw [mem_move_self h.nodup hins, place, if_pos (by exact ht), move_tcb_self, hdest]
      · rw [move_tcb_self]
        exact hsleeps ((alarm.mem_apply_self a.sleepers).mp hs)
      · rw [move_tcb_self] at hb ⊢
        exact (hblocked hb).imp_right (alarm.mem_apply_self a.sleepers).mpr
      · rw [move_tcb_self] at hw ⊢
        exact hwaits hw
      · rw [move_tcb_self] at hr
        exact hrunning hr
      · rw [move_tcb_self]
        exact hpriority
      · rw [move_tcb_self, hbase]
        exact (h.ok u).base_lt
      · exact absurd hf (Nat.not_le.mpr ht)
    · exact (h.ok u).congr (fun l => mem_move_of_ne hins hu) (move_tcb_of_ne hu)
        (alarm.mem_apply_of_ne a.sleepers hu) rfl (h.ok u).running
  nodup _ := nodup_move h.nodup hins
  sleepers_nodup := by
    show ((alarm.apply t a.sleepers).map Prod.fst).Nodup
    cases alarm with
    | keep => exact h.sleepers_nodup
    | cancel => exact (cancel_sublist.map _).nodup h.sleepers_nodup
    | set n => exact nodup_schedule h.sleepers_nodup (halarm n rfl)
  sleepers_sorted := by
    show (alarm.apply t a.sleepers).Pairwise _
    cases alarm with
    | keep => exact h.sleepers_sorted
    | cancel => exact h.sleepers_sorted.sublist cancel_sublist
    | set n => exact sorted_schedule h.sleepers_sorted
  count_le := h.count_le
  current_lt := h.current_lt

end move

end

end Abs

end AcRtos
