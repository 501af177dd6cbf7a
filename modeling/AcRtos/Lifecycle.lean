import AcRtos.DelayUntil
import AcRtos.Flow
import AcRtos.Parking
import AcRtos.SetBits
import AcRtos.StalePriority
import AcRtos.StrictPriority

/-!
# The life of a task

What a task does, with the ticks it has to go, is its `Phase`; the kernel spreads it over the state, the wait list and
the delay list. `Phase.Next` is the state machine of one task, an edge for each reason the kernel has to take a task
from one phase to another. Every step of the machine takes every task along an edge or leaves it where it is
(`task_lifecycle`): the actions of a visit one by one (`takes_apply`), the sections that park, delay or retire their
task by what they leave behind.
-/

namespace AcRtos

open Lib Abs

/-- What a task does; `left` counts the ticks to its wake-up or timeout. -/
inductive Phase
  | unborn
  | suspended
  | ready
  | running
  | asleep (left : Nat)
  | waiting (w : WaitId) (left : Option Nat)
  | deleted
  deriving DecidableEq, Repr

namespace Phase

/-- What a tick does to it. -/
def tick : Phase → Phase
  | .asleep n => if n = 1 then .ready else .asleep (n - 1)
  | .waiting w (some n) => if n = 1 then .ready else .waiting w (some (n - 1))
  | p => p

end Phase

namespace Countdown

def left (t : Tid) (sl : List (Tid × Nat)) : Option Nat := (sl.find? fun e => e.1 == t).map Prod.snd

variable {t : Tid} {n : Nat} {sl sl' : List (Tid × Nat)}

theorem left_eq_some (h : (sl.map Prod.fst).Nodup) : left t sl = some n ↔ (t, n) ∈ sl := by
  rw [left, Option.map_eq_some_iff]
  constructor
  · rintro ⟨e, he, rfl⟩
    have ht : e.1 = t := by simpa using List.find?_some he
    rw [← ht]
    exact List.mem_of_find?_eq_some he
  · intro hmem
    cases hfind : sl.find? fun e => e.1 == t with
    | none => simpa using List.find?_eq_none.mp hfind (t, n) hmem
    | some e =>
      have ht : e.1 = t := by simpa using List.find?_some hfind
      have heq : e = (t, n) := List.inj_on_of_nodup_map h (List.mem_of_find?_eq_some hfind) hmem ht
      exact ⟨e, rfl, by rw [heq]⟩

theorem left_eq_none : left t sl = none ↔ t ∉ sl.map Prod.fst := by
  rw [left, Option.map_eq_none_iff, List.find?_eq_none]
  simp only [beq_iff_eq, List.mem_map, not_exists, not_and]

theorem left_congr (h : (sl.map Prod.fst).Nodup) (h' : (sl'.map Prod.fst).Nodup)
    (hmem : ∀ n, (t, n) ∈ sl' ↔ (t, n) ∈ sl) : left t sl' = left t sl := by
  refine Option.ext fun n => ?_
  rw [left_eq_some h', left_eq_some h, hmem]

end Countdown

/-- The phase that a control block stands for, with `left` ticks on the delay list. -/
def TaskControlBlock.phase (left : Option Nat) (c : TaskControlBlock) : Phase :=
  match c.state with
  | .ready => .ready
  | .running => .running
  | .suspended => .suspended
  | .deleted => .deleted
  | .blocked =>
    match c.waitList with
    | some w => .waiting w left
    | none => .asleep (left.getD 0)

theorem TaskControlBlock.phase_ne_unborn (left : Option Nat) (c : TaskControlBlock) : c.phase left ≠ .unborn := by
  unfold TaskControlBlock.phase
  split
  case h_5 => split <;> exact nofun
  all_goals exact nofun

def Kernel.phase (k : Kernel) (t : Tid) : Phase :=
  if t < k.taskCount then (k.tcb t).phase (Countdown.left t k.remaining) else .unborn

/-! ### The state machine of a task -/

namespace Sys

/-- The running context executes what stands at `p`. -/
def Does (s : Sys) (e : Event) (p : Pc) : Prop := e = .advance ∧ s.pc s.k.self = p

/-- For how long a call of a delay puts its caller to sleep. -/
def naps (s : Sys) : Event → Option TickType
  | .call (.delayMs ms) => some (msToTicks s.k.config ms)
  | .call (.delayUntil w) => some (w - s.k.tickCount)
  | _ => none

/-- The wait that a step may begin, and for how many ticks. -/
def waitsFor (s : Sys) : Event → Option (Wait × Option Nat)
  | .call (.take x ms) => some (.take x, Rep.timeoutTicks s.k.config ms)
  | .call (.lock m) => some (.lock m, none)
  | .call (.send q _ ms) => some (.send q, Rep.timeoutTicks s.k.config ms)
  | .call (.receive q ms) => some (.receive q, Rep.timeoutTicks s.k.config ms)
  | .advance =>
    match s.pc s.k.self with
    | .waitBody g mask all clear ms => some (.bits g mask all clear, Rep.timeoutTicks s.k.config ms)
    | _ => none
  | _ => none

end Sys

/-- From one phase of the task `t` to the next, in the step `e`. -/
inductive Phase.Next (s : Sys) (e : Event) (t : Tid) : Phase → Phase → Prop
  | stay (p : Phase) (h : e ≠ .tick) : Next s e t p p
  | tick (p : Phase) (h : e = .tick) : Next s e t p p.tick
  | create (x : Site) (f : Callable) (n : Nat) (h : s.Does e (.create .alloc x f n)) : Next s e t .unborn .suspended
  | start (x : Site) (f : Callable) (n : Nat) (h : s.Does e (.create (.ready t) x f n)) : Next s e t .suspended .ready
  | resume (h : s.Does e (.resumeBody t)) : Next s e t .suspended .ready
  | dispatch (psp : Nat) (h : e = .pendSV psp) : Next s e t .ready .running
  | preempt (psp : Nat) (h : e = .pendSV psp) : Next s e t .running .ready
  | delay (n : TickType) (hcur : s.k.currentTask = some t) (h : s.naps e = some n) :
      Next s e t .running (.asleep n.toNat)
  | wait (w : Wait) (left : Option Nat) (hcur : s.k.currentTask = some t) (h : s.waitsFor e = some (w, left)) :
      Next s e t .running (.waiting w.list left)
  | serve (w : WaitId) (left : Option Nat) (htick : e ≠ .tick) (hsv : ∀ psp, e ≠ .pendSV psp) :
      Next s e t (.waiting w left) .ready
  | suspend (p : Phase) (hp : p ≠ .unborn) (h : s.Does e (.suspendBody t)) : Next s e t p .suspended
  | delete (p : Phase) (hp : p ≠ .unborn) (h : s.Does e (.deleteBody t)) : Next s e t p .deleted

/-! ### Phases of the abstract kernel -/

namespace Abs

def phase (a : Abs) (t : Tid) : Phase :=
  if t < a.taskCount then (a.tcb t).phase (Countdown.left t a.sleepers) else .unborn

variable {a b : Abs} {act : Action} {t : Tid} {n : Nat} {v : Visit}

theorem phase_of_lt (hlt : t < a.taskCount) : a.phase t = (a.tcb t).phase (Countdown.left t a.sleepers) := if_pos hlt

theorem phase_waiting {w : WaitId} (hwf : a.WF) (hw : (a.tcb t).waitList = some w) :
    a.phase t = .waiting w (Countdown.left t a.sleepers) := by
  have hb : (a.tcb t).state = .blocked := (hwf.ok t).waits (by rw [hw]; exact Option.some_ne_none w)
  rw [phase_of_lt (hwf.lt_of_state (by simp [hb])), TaskControlBlock.phase, hb, hw]

theorem phase_congr (hcount : t < b.taskCount ↔ t < a.taskCount) (hstate : (b.tcb t).state = (a.tcb t).state)
    (hwait : (b.tcb t).waitList = (a.tcb t).waitList)
    (hleft : Countdown.left t b.sleepers = Countdown.left t a.sleepers) : b.phase t = a.phase t := by
  simp only [phase, TaskControlBlock.phase, hcount, hstate, hwait, hleft]

end Abs

theorem Rep.phase_eq {k : Kernel} {a : Abs} (h : Rep k a) (hwf : a.WF) (t : Tid) : k.phase t = a.phase t := by
  rw [Kernel.phase, Abs.phase, h.remaining_eq hwf, h.core_eq]

/-- The task that an action takes from one state to another. -/
def Action.mover (a : Abs) : Action → Option Tid
  | .alloc => some a.taskCount
  | .ready t | .switch t | .sleep t _ | .expire t | .retire t _ | .park _ t _ | .hand _ t | .pass _ _ t => some t
  | _ => none

namespace Abs

variable {a b : Abs} {act : Action} {t : Tid} {n : Nat} {v : Visit}

theorem mem_sleepers_apply (hne : act.mover a ≠ some t) (hcount : act ≠ .countDown) :
    (t, n) ∈ (act.apply a).sleepers ↔ (t, n) ∈ a.sleepers := by
  have hcancel : ∀ {u sl}, u ≠ t → ((t, n) ∈ Countdown.cancel u sl ↔ (t, n) ∈ sl) := fun hu => by
    simp [Countdown.cancel, Ne.symm hu]
  have hset : ∀ {u m sl}, u ≠ t → ((t, n) ∈ Countdown.schedule u m sl ↔ (t, n) ∈ sl) := fun hu => by
    rw [Countdown.schedule, mem_insertWhile]
    simp [Ne.symm hu]
  have hmoves : ∀ {u}, act.mover a = some u → u ≠ t := fun hu heq => hne (by rw [hu, heq])
  cases act with
  | countDown => exact absurd rfl hcount
  | sleep u m => exact hset (hmoves rfl)
  | expire u => exact hcancel (hmoves rfl)
  | retire u st => exact hcancel (hmoves rfl)
  | hand hd u => exact hcancel (hmoves rfl)
  | park w u timeout =>
    have hboost : (t, n) ∈ (a.boost w u).sleepers ↔ (t, n) ∈ a.sleepers := by rw [boost_sleepers]
    cases timeout with
    | none => exact hboost
    | some m => exact (hset (hmoves rfl)).trans hboost
  | release m u =>
    rw [Action.apply, restore_sleepers]
    rfl
  | pass m u next =>
    rw [Action.apply, restore_sleepers]
    exact hcancel (hmoves rfl)
  | _ => exact Iff.rfl

theorem expireAll_taskCount {ts : List Tid} : (a.expireAll ts).taskCount = a.taskCount := by
  induction ts generalizing a with
  | nil => rfl
  | cons t ts ih => rw [expireAll_cons, ih]; rfl

theorem phase_of_not_mover (hwf : a.WF) (he : act.Enabled a) (hne : act.mover a ≠ some t)
    (hcount : act ≠ .countDown) :
    (act.apply a).phase t = a.phase t := by
  have hleft := Countdown.left_congr hwf.sleepers_nodup (hwf.apply he).sleepers_nodup fun n =>
    mem_sleepers_apply (n := n) hne hcount
  have htcb := apply_tcb (u := t) hwf he
  have hother : ∀ {u}, act.mover a = some u → t ≠ u := fun hu heq => hne (by rw [hu, heq])
  refine phase_congr ?_ ?_ ?_ hleft
  · rw [apply_taskCount he]
    cases act with
    | alloc =>
      have hfresh : t ≠ a.taskCount := hother rfl
      exact ⟨fun hlt => Nat.lt_of_le_of_ne (Nat.le_of_lt_succ hlt) hfresh, Nat.lt_succ_of_lt⟩
    | _ => exact Iff.rfl
  · rcases shift hwf he t with hsame | hshift
    · exact hsame
    · generalize ((act.apply a).tcb t).state = st at hshift
      cases hshift with
      | alloc heq => exact absurd heq (hother rfl)
      | _ => exact absurd rfl hne
  · rw [htcb]
    cases act with
    | alloc => rw [Action.tcb, if_neg (hother rfl)]
    | hand hd u => rw [Action.tcb, if_neg (hother rfl)]
    | expire u => rw [Action.tcb, if_neg (hother rfl)]
    | retire u st => rw [Action.tcb, if_neg (hother rfl)]
    | park w u timeout => rw [Action.tcb, if_neg (hother rfl)]
    | pass m u next =>
      rw [Action.tcb]
      split
      · rfl
      · rw [if_neg (hother rfl)]
    | data d => rfl
    | countDown => rfl
    | acquire m u => rfl
    | _ =>
      rw [Action.tcb]
      split <;> rfl

end Abs

namespace Abs

variable {a : Abs} {t : Tid}

theorem putBack_phase (a : Abs) (hwf : a.WF) (t : Tid) :
    a.putBack.phase t = if (a.tcb t).state = .running then .ready else a.phase t := by
  have hstate := (putBack_tcb (u := t) hwf).2
  have hrest : a.putBack.taskCount = a.taskCount ∧ a.putBack.sleepers = a.sleepers ∧
      (a.putBack.tcb t).waitList = (a.tcb t).waitList := by
    have hquiet := fun c => Rep.quiet_check .stackOverflow (Scheduler.stackIntact c a.toCore) a.toCore
    have hsave : ∀ c, (a.saveSp c).taskCount = a.taskCount ∧
        ((a.saveSp c).tcb t).waitList = (a.tcb t).waitList := fun c => by
      refine ⟨(hquiet c).taskCount, ?_⟩
      simp only [saveSp, core_toCore, Core.setTask_tcb, Function.update_apply, (hquiet c).tcb]
      split
      · rename_i ht
        rw [ht]
      · rfl
    unfold putBack
    split
    · exact ⟨rfl, rfl, rfl⟩
    · rename_i c hcur
      split
      · refine ⟨(hsave c).1, rfl, ?_⟩
        rw [Abs.ready, move_tcb]
        split <;> exact (hsave c).2
      · exact ⟨(hsave c).1, rfl, (hsave c).2⟩
  by_cases hr : (a.tcb t).state = .running
  · rw [if_pos hr] at hstate ⊢
    rw [phase_of_lt (hrest.1 ▸ hwf.lt_of_state (by simp [hr])), TaskControlBlock.phase, hstate]
  · rw [if_neg hr] at hstate ⊢
    exact phase_congr (by rw [hrest.1]) hstate hrest.2.2 (by rw [hrest.2.1])

end Abs

/-! ### Visits that neither stop their task nor take one out of the scheduler -/

/-- No delay and no wait ends here. -/
def Pc.sits : Pc → Bool
  | .yield .unit | .yieldWait _ => false
  | _ => true

namespace Visit

/-- The visit neither retires `t` nor makes it block. -/
structure Lets (v : Visit) (t : Tid) : Prop where
  entry : v.entry = .call ∨ v.entry = .handler
  suspend : v.before ≠ .suspendBody t
  delete : v.before ≠ .deleteBody t
  blocks : v.ctx = .task t → v.after.sits = true

/-- What such a visit does to `t`. -/
inductive Takes (v : Visit) (t : Tid) : Phase → Phase → Prop
  | stay (p : Phase) : Takes v t p p
  | create (x : Site) (f : Callable) (n : Nat) (h : v.before = .create .alloc x f n) : Takes v t .unborn .suspended
  | start (x : Site) (f : Callable) (n : Nat) (h : v.before = .create (.ready t) x f n) : Takes v t .suspended .ready
  | resume (h : v.before = .resumeBody t) : Takes v t .suspended .ready
  | serve (w : WaitId) (left : Option Nat) : Takes v t (.waiting w left) .ready

variable {v : Visit} {t : Tid} {p q r : Phase}

theorem lets_main {pc pc' : Pc} {y : Bool} (hsuspend : pc ≠ .suspendBody t) (hdelete : pc ≠ .deleteBody t) :
    Lets ⟨.call, .main, false, pc, pc', y⟩ t :=
  ⟨.inl rfl, hsuspend, hdelete, by simp⟩

theorem Takes.trans (h : v.Takes t p q) (h' : v.Takes t q r) : v.Takes t p r := by
  cases h with
  | stay p => exact h'
  | create x f n h =>
    cases h' with
    | stay p => exact .create x f n h
    | start x' f' n' h' =>
      rw [h] at h'
      cases h'
    | resume h' =>
      rw [h] at h'
      cases h'
  | start x f n h =>
    cases h' with
    | stay p => exact .start x f n h
  | resume h =>
    cases h' with
    | stay p => exact .resume h
  | serve w left =>
    cases h' with
    | stay p => exact .serve w left

end Visit

namespace Abs

variable {a a' : Abs} {act : Action} {acts : List Action} {t : Tid} {v : Visit}

theorem takes_apply (hv : v.Lets t) (hwf : a.WF) (he : act.Enabled a) (hf : act.Fits v a) :
    v.Takes t (a.phase t) ((act.apply a).phase t) := by
  have hcount : act ≠ .countDown := by
    rintro rfl
    have hentry : v.entry = .sysTick := hf
    rcases hv.entry with h | h <;> cases h.symm.trans hentry
  by_cases hmover : act.mover a = some t
  case neg =>
    rw [phase_of_not_mover hwf he hmover hcount]
    exact .stay _
  have htcb := apply_tcb (u := t) hwf he
  have hready : t < (act.apply a).taskCount → ((act.apply a).tcb t).state = .ready →
      (act.apply a).phase t = .ready :=
    fun hlt hs => by rw [phase_of_lt hlt, TaskControlBlock.phase, hs]
  have hborn : t < a.taskCount → t < (act.apply a).taskCount := fun hlt =>
    Nat.lt_of_lt_of_le hlt (taskCount_le_apply he)
  cases act with
  | alloc =>
    obtain rfl : a.taskCount = t := Option.some.inj hmover
    obtain ⟨x, f, n, hb, -⟩ := hf
    have hp : a.phase a.taskCount = .unborn := if_neg (Nat.lt_irrefl _)
    have hst : ((Action.alloc.apply a).tcb a.taskCount).state = .suspended := by
      rw [htcb, Action.tcb, if_pos rfl]
    have hp' : (Action.alloc.apply a).phase a.taskCount = .suspended := by
      rw [phase_of_lt (by rw [apply_taskCount he]; exact Nat.lt_succ_self _), TaskControlBlock.phase, hst]
    rw [hp, hp']
    exact .create x f n hb
  | ready u =>
    obtain rfl : u = t := Option.some.inj hmover
    obtain ⟨hlt, -⟩ := he
    rw [hready (hborn hlt) (by rw [htcb, Action.tcb, if_pos rfl])]
    rcases hf.1 with ⟨hb, hst⟩ | ⟨hentry, -⟩
    · rw [phase_of_lt hlt, TaskControlBlock.phase, hst]
      rcases hb with hb | ⟨x, f, n, hb⟩
      · exact .resume hb
      · exact .start x f n hb
    · rcases hv.entry with h | h <;> cases h.symm.trans hentry
  | switch u =>
    have hentry := congrArg Visit.entry (show v = Visit.pendSV from hf)
    rcases hv.entry with h | h <;> cases h.symm.trans hentry
  | sleep u n =>
    obtain rfl : u = t := Option.some.inj hmover
    have hsits := hv.blocks hf.1
    rw [hf.2.2.1] at hsits
    cases hsits
  | expire u =>
    have hentry : v.entry = .sysTick := hf
    rcases hv.entry with h | h <;> cases h.symm.trans hentry
  | retire u st =>
    obtain rfl : u = t := Option.some.inj hmover
    rcases hf.1 with ⟨hb, -⟩ | ⟨hb, -⟩
    · exact absurd hb hv.suspend
    · exact absurd hb hv.delete
  | park w u timeout =>
    obtain rfl : u = t := Option.some.inj hmover
    have hsits := hv.blocks hf.1
    rw [hf.2.2.1] at hsits
    cases hsits
  | hand hd u =>
    obtain rfl : u = t := Option.some.inj hmover
    obtain ⟨hst, hw⟩ := hwf.mem_wait.mp (Handing.Enabled.mem he)
    rw [phase_waiting hwf hw, hready (hborn (hwf.lt_of_state (by simp [hst])))
      (by rw [htcb, Action.tcb, if_pos rfl])]
    exact .serve _ _
  | pass m u next =>
    obtain rfl : next = t := Option.some.inj hmover
    obtain ⟨hst, hw⟩ := hwf.mem_wait.mp (List.mem_of_mem_head? he.2.2)
    have hne : next ≠ u := by
      rintro rfl
      rw [he.2.1] at hst
      cases hst
    rw [phase_waiting hwf hw, hready (hborn (hwf.lt_of_state (by simp [hst])))
      (by rw [htcb, Action.tcb, if_neg hne, if_pos rfl])]
    exact .serve _ _
  | _ => cases hmover

theorem takes_runs (hv : v.Lets t) (hruns : Runs v a acts a') (hwf : a.WF) : v.Takes t (a.phase t) (a'.phase t) :=
  hruns.keeps (P := fun b => v.Takes t (a.phase t) (b.phase t)) hwf (.stay _) fun _ _ hwf hb he hf =>
    hb.trans (takes_apply hv hwf he hf)

end Abs

/-! ### Sections that stop their task -/

namespace Abs

variable {a : Abs} {t : Tid} {n : Nat}

theorem phase_park {w : Wait} {timeout : Option Nat} (hwf : a.WF) (he : (Action.park w t timeout).Enabled a) :
    ((Action.park w t timeout).apply a).phase t = .waiting w.list timeout := by
  have hwf' := hwf.apply he
  have hnone : Countdown.left t a.sleepers = none :=
    Countdown.left_eq_none.mpr (hwf.not_sleeps (by simp [he.2.1]))
  rw [phase_waiting hwf' (by rw [apply_tcb hwf he, Action.tcb, if_pos rfl])]
  cases timeout with
  | none =>
    have hsleepers : ((Action.park w t none).apply a).sleepers = a.sleepers := boost_sleepers w
    rw [hsleepers, hnone]
  | some n =>
    rw [(Countdown.left_eq_some hwf'.sleepers_nodup).mpr (mem_insertWhile.mpr (.inl rfl))]

theorem phase_sleep (hwf : a.WF) (he : (Action.sleep t n).Enabled a) :
    ((Action.sleep t n).apply a).phase t = .asleep n := by
  have hwf' := hwf.apply he
  have hlt : t < ((Action.sleep t n).apply a).taskCount := he.1
  have hnone : (a.tcb t).waitList = none := hwf.waitList_none (by simp [he.2.1])
  rw [phase_of_lt hlt, apply_tcb hwf he,
    (Countdown.left_eq_some hwf'.sleepers_nodup).mpr (mem_insertWhile.mpr (.inl rfl)),
    Action.tcb, if_pos rfl]
  simp only [TaskControlBlock.phase, hnone, Option.getD_some]

theorem phase_retire {st : TaskState} (hlt : t < a.taskCount) (hst : st = .suspended ∨ st = .deleted) :
    (a.retire t st).phase t = match st with | .suspended => .suspended | _ => .deleted := by
  have htcb : ((a.retire t st).tcb t).state = st := by rw [Abs.retire, move_tcb, if_pos rfl]
  rw [phase_of_lt (show t < (a.retire t st).taskCount from hlt), TaskControlBlock.phase, htcb]
  rcases hst with rfl | rfl <;> rfl

theorem phase_running (hwf : a.WF) (hr : (a.tcb t).state = .running) : a.phase t = .running := by
  rw [phase_of_lt (hwf.lt_of_state (by simp [hr])), TaskControlBlock.phase, hr]

end Abs

/-- The section puts its caller to sleep, or has it yield as if it did. -/
def Outcome.naps : Outcome → Bool
  | .ret .unit true => true
  | _ => false

theorem Sys.settle_sits {s : Sys} {c : Ctx} {r : Outcome × Kernel} (hnaps : r.1.naps = false)
    (hwaits : r.1.waits = none) :
    ((s.settle c r).pc c).sits = true := by
  rw [settle, setPc_pc]
  obtain ⟨o, k⟩ := r
  cases o with
  | ret x y =>
    cases y with
    | false => rfl
    | true => cases x <;> first | rfl | cases hnaps
  | wait w => cases hwaits

section
variable {k : Kernel}

theorem take_naps (x : SemId) (ms : TickType) : (Semaphore.take x ms k).1.naps = false := by
  unfold Semaphore.take
  split
  · rfl
  · split
    · rfl
    · split <;> rfl

theorem lock_naps (m : MutexId) : (Mutex.lock m k).1.naps = false := by
  unfold Mutex.lock
  split
  · rfl
  · split
    · rfl
    · split <;> rfl

theorem unlock_naps (m : MutexId) : (Mutex.unlock m k).1.naps = false := by
  unfold Mutex.unlock
  split
  · rfl
  · split <;> rfl

theorem sendOrBlock_naps (w : Wait) (ms : TickType) (r : (Bool × Bool) × Kernel) :
    (QueueCore.sendOrBlock w ms r).1.naps = false := by
  unfold QueueCore.sendOrBlock
  split
  · rfl
  · split
    · rfl
    · simp only
      split <;> rfl

theorem suspendTask_naps {t : Tid} (h : k.currentTask ≠ some t) : (Scheduler.suspendTask t k).1.naps = false := by
  unfold Scheduler.suspendTask
  split
  · rfl
  · simp only [(unlink_core t k).1, beq_eq_false_iff_ne.mpr h, Bool.false_and]
    rfl

theorem deleteTask_naps {t : Tid} (h : k.currentTask ≠ some t) : (Scheduler.deleteTask t k).1.naps = false := by
  unfold Scheduler.deleteTask
  simp only [(unlink_core t k).1, beq_eq_false_iff_ne.mpr h, Bool.false_and]
  rfl

theorem waitBits_naps (g : EventId) (mask : BitVec 32) (all clear : Bool) (ms : TickType) (t : Tid) :
    (EventGroup.waitBits g mask all clear ms t k).1.naps = false := by
  unfold EventGroup.waitBits
  split
  · rfl
  · split <;> rfl

end

namespace Rep

variable {k : Kernel} {a : Abs} {t : Tid}

theorem sleep_phase (h : Rep k a) (hi : a.Entered) (ht : a.currentTask = some t) {n : TickType} (hn : n ≠ 0) :
    (Scheduler.delayInsert t n (k.setTask t fun c => { c with state := .blocked })).phase t = .asleep n.toNat := by
  have hpos : 1 ≤ n.toNat := Nat.one_le_iff_ne_zero.mpr fun hz => hn (BitVec.eq_of_toNat_eq (by simpa using hz))
  have he : (Action.sleep t n.toNat).Enabled a := ⟨hi.wf.current_lt t ht, hi.running t ht, hpos⟩
  rw [(h.sleep hi.wf (hi.running t ht) n).phase_eq (hi.wf.apply he)]
  exact phase_sleep hi.wf he

theorem parks_phase {w : Wait} {ms : TickType} {k' : Kernel} (hwf : a.WF) (hp : a.Parks t w ms k') :
    k'.phase t = .waiting w.list (timeoutTicks a.config ms) := by
  rw [hp.rep.phase_eq (hp.apply_eq ▸ hwf.apply hp.enabled), ← hp.apply_eq]
  exact phase_park hwf hp.enabled

theorem suspend_phase (h : Rep k a) (hwf : a.WF) (hlt : t < a.taskCount) :
    (Scheduler.suspendTask t k).2.phase t = .suspended := by
  unfold Scheduler.suspendTask
  split
  · rename_i hst
    rw [h.core_eq] at hst
    rw [h.phase_eq hwf, phase_of_lt hlt, TaskControlBlock.phase, hst]
  · rw [(h.retire hwf hlt .suspended).phase_eq (hwf.retire hlt (.inl rfl))]
    exact phase_retire hlt (.inl rfl)

theorem delete_phase (h : Rep k a) (hwf : a.WF) (hlt : t < a.taskCount) :
    (Scheduler.deleteTask t k).2.phase t = .deleted :=
  ((h.retire hwf hlt .deleted).phase_eq (hwf.retire hlt (.inr rfl)) t).trans (phase_retire hlt (.inr rfl))

theorem lock_phase (h : Rep k a) (hi : a.Entered) (ht : a.currentTask = some t) {m : MutexId}
    (hwait : (Mutex.lock m k).1.waits = some (.lock m)) : (Mutex.lock m k).2.phase t = .waiting (.mutex m) none := by
  have hrun := hi.running t ht
  unfold Mutex.lock at hwait ⊢
  rw [h.core_eq] at hwait ⊢
  simp only [ht] at hwait ⊢
  cases howner : a.owner m with
  | none =>
    simp only [howner] at hwait
    cases hwait
  | some u =>
    simp only [howner] at hwait ⊢
    split at hwait
    · cases hwait
    · rename_i hne
      rw [if_neg hne]
      have he : (Action.park (.lock m) t none).Enabled a :=
        ⟨hi.wf.current_lt t ht, hrun, by simp, u, howner, hne, (hi.owned.owner_lt m u howner).1⟩
      have hrep := park_lock_rep h hi.wf hi.owned howner hrun
      exact (hrep.phase_eq (hi.wf.apply he) t).trans (phase_park hi.wf he)

end Rep

/-! ### Steps -/

namespace Scheduler

variable {k : Kernel} {t : Tid}

theorem delayMs_cases (ht : k.currentTask = some t) (ms : TickType) :
    delayMs ms k = (.ret .unit false, k) ∨ msToTicks k.config ms ≠ 0 ∧ delayMs ms k =
      (.ret .unit true, delayInsert t (msToTicks k.config ms) (k.setTask t fun c => { c with state := .blocked })) := by
  unfold delayMs
  rw [ht]
  by_cases hz : msToTicks k.config ms = 0
  · exact .inl (if_pos hz)
  · exact .inr ⟨hz, if_neg hz⟩

theorem delayUntil_cases (ht : k.currentTask = some t) (w : TickType) :
    delayUntil w k = (.ret .unit false, k) ∨ w - k.tickCount ≠ 0 ∧ delayUntil w k =
      (.ret .unit true, delayInsert t (w - k.tickCount) (k.setTask t fun c => { c with state := .blocked })) := by
  by_cases hd : 1 ≤ (w - k.tickCount).toNat ∧ (w - k.tickCount).toNat < 2 ^ 31
  · refine .inr ⟨fun hz => ?_, delayUntil_sleeps ht hd⟩
    rw [hz] at hd
    cases hd.1
  · exact .inl (delayUntil_returns (.inr hd))

end Scheduler

theorem Outcome.waits_eq {o : Outcome} {w : Wait} (h : o.waits = some w) : o = .wait w := by
  cases o with
  | ret r y => cases h
  | wait w' =>
    cases h
    rfl

section
variable {s s' : Sys} {a : Abs} {e : Event} {t : Tid} {v : Visit} {p q : Phase}

theorem Visit.Takes.next (h : v.Takes t p q) (he : e ≠ .tick) (hsv : ∀ psp, e ≠ .pendSV psp)
    (hb : v.before ≠ .user → s.Does e v.before) : Phase.Next s e t p q := by
  have hdoes : ∀ {pc}, v.before = pc → pc ≠ .user → s.Does e pc := fun hpc hne => by
    subst hpc
    exact hb hne
  cases h with
  | stay p => exact .stay p he
  | create x f n h => exact .create x f n (hdoes h (by simp))
  | start x f n h => exact .start x f n (hdoes h (by simp))
  | resume h => exact .resume (hdoes h (by simp))
  | serve w left => exact .serve w left he hsv

theorem Inv.phase_lets (h : Inv s a) (hs : s.step e = some s') (he : e ≠ .tick) (hsv : ∀ psp, e ≠ .pendSV psp)
    (hv : (s.visit e s').Lets t) : Phase.Next s e t (s.k.phase t) (s'.k.phase t) := by
  obtain ⟨acts, a', hruns, hinv⟩ := h.step hs
  rw [h.rep.phase_eq h.wf, hinv.rep.phase_eq hinv.wf]
  refine (takes_runs hv hruns h.wf).next he hsv fun hne => ?_
  cases e with
  | advance => exact ⟨rfl, rfl⟩
  | call y =>
    obtain ⟨-, -, huser, -⟩ := Sys.step_call.mp hs
    exact absurd huser hne
  | tick => exact absurd rfl he
  | isr c yield => exact absurd rfl hne
  | pendSV psp => exact absurd rfl (hsv psp)

theorem Visit.Leads.takes {b : Abs} {k' : Kernel} (h : v.Leads b k') (hwf : b.WF) (hv : v.Lets t) :
    v.Takes t (b.phase t) (k'.phase t) := by
  obtain ⟨acts, a', hruns, hrep⟩ := h
  rw [hrep.phase_eq (hruns.wf hwf)]
  exact takes_runs hv hruns hwf

/-- A section may be seen as one of a visit that only serves; then it leaves the running task running. -/
theorem Visit.Leads.running_phase {b : Abs} {k' : Kernel} (h : v.Leads b k') (hwf : b.WF) (hv : v.Lets t)
    (hr : (b.tcb t).state = .running) : k'.phase t = .running := by
  have htakes := h.takes hwf hv
  rw [phase_running hwf hr] at htakes
  generalize k'.phase t = p at htakes ⊢
  cases htakes
  rfl

theorem Inv.phase_call {y : Call} (h : Inv s a) (hs : s.step (.call y) = some s') :
    Phase.Next s (.call y) t (s.k.phase t) (s'.k.phase t) := by
  obtain ⟨-, hcan, huser, -, -, hs'⟩ := Sys.step_call.mp hs
  have hlets : (s.k.self = .task t → (s'.pc s.k.self).sits = true) →
      Phase.Next s (.call y) t (s.k.phase t) (s'.k.phase t) := fun hsits =>
    h.phase_lets hs (by simp) (by simp)
      ⟨.inl rfl, by simp [Sys.visit, Visit.call, huser], by simp [Sys.visit, Visit.call, huser], hsits⟩
  by_cases hself : s.k.self = .task t
  case neg => exact hlets fun heq => absurd heq hself
  replace hlets := fun hsits => hlets fun _ => hsits
  have he := h.entered hcan (by rw [← h.self_eq, huser]; rfl)
  have hcur : a.currentTask = some t := Core.self_task (h.self_eq.symm.trans hself)
  have hmark : (DataOp.mark (.call s.k.self y)).Enabled a := rfl
  have hrep := h.rep.core (·.emit (.call s.k.self y))
  have he' := he.data hmark rfl
  have hrun : s.k.phase t = .running := by
    rw [h.rep.phase_eq h.wf]
    exact phase_running h.wf (he.running t hcur)
  have hcur' : s.k.currentTask = some t := by rw [h.rep.core_eq, hcur]
  have htime : ∀ {w ms}, s.waitsFor (.call y) = some (w, Rep.timeoutTicks s.k.config ms) →
      s.waitsFor (.call y) = some (w, Rep.timeoutTicks a.config ms) := fun hw => by
    rw [hw, show s.k.config = a.config by rw [h.rep.core_eq]]
  subst hs'
  have hgo : ∀ {k p}, p.sits = true → ((((s.setK k).setPc s.k.self p).pc s.k.self).sits = true) := fun hp => by
    rw [Sys.setPc_pc]
    exact hp
  cases y with
  | delayMs ms =>
    rcases Scheduler.delayMs_cases (k := s.k.emit (.call s.k.self (.delayMs ms))) hcur' ms with heq | ⟨hn, heq⟩
    · exact hlets (by rw [Sys.beginCall, heq]; exact Sys.settle_sits rfl rfl)
    · rw [hrun, Sys.beginCall, heq]
      exact hrep.sleep_phase he' hcur hn ▸ .delay _ hcur' rfl
  | delayUntil w =>
    rcases Scheduler.delayUntil_cases (k := s.k.emit (.call s.k.self (.delayUntil w))) hcur' w with heq | ⟨hn, heq⟩
    · exact hlets (by rw [Sys.beginCall, heq]; exact Sys.settle_sits rfl rfl)
    · rw [hrun, Sys.beginCall, heq]
      exact hrep.sleep_phase he' hcur hn ▸ .delay _ hcur' rfl
  | give x =>
    have hleads := (giveLocked_leads (v := ⟨.call, .main, false, .user, .user, true⟩) (s := x) hrep he'.wf rfl
      fun _ => rfl).1
    rw [hrun]
    exact hleads.running_phase he'.wf (Visit.lets_main (by simp) (by simp)) (he'.running t hcur) ▸ .stay _ (by simp)
  | yield => exact .stay _ (by simp)
  | take x ms =>
    rcases take_waits x ms with hwaits | hwaits
    · exact hlets (Sys.settle_sits (take_naps x ms) hwaits)
    · have hp := hrep.take_parks he'.wf hcur (he'.running t hcur) (Outcome.waits_eq hwaits)
      rw [hrun]
      exact Rep.parks_phase he'.wf hp ▸ .wait _ _ hcur' (htime rfl)
  | lock m =>
    rcases lock_waits m with hwaits | hwaits
    · exact hlets (Sys.settle_sits (lock_naps m) hwaits)
    · rw [hrun]
      exact hrep.lock_phase he' hcur hwaits ▸ .wait (.lock m) none hcur' rfl
  | send q item ms =>
    rcases sendOrBlock_waits _ ms _ with hwaits | hwaits
    · exact hlets (Sys.settle_sits (sendOrBlock_naps ..) hwaits)
    · have hframe : (DataOp.frame s.k.self fun f => { f with item := item }).Enabled
        (a.core (·.emit (.call s.k.self (.send q item ms)))) := trivial
      have hsend := he'.data hframe rfl
      have hp :=
        (hrep.core (·.setFrame s.k.self fun f => { f with item := item })).send_parks hsend.wf hsend.starved hcur
        (hsend.running t hcur) (Outcome.waits_eq hwaits)
      rw [hrun]
      exact Rep.parks_phase hsend.wf hp ▸ .wait _ _ hcur' (htime rfl)
  | receive q ms =>
    rcases sendOrBlock_waits _ ms _ with hwaits | hwaits
    · exact hlets (Sys.settle_sits (sendOrBlock_naps ..) hwaits)
    · have hp := hrep.receive_parks he'.wf hcur (he'.running t hcur) (Outcome.waits_eq hwaits)
      rw [hrun]
      exact Rep.parks_phase he'.wf hp ▸ .wait _ _ hcur' (htime rfl)
  | createTask x f p => exact hlets (hgo rfl)
  | start =>
    refine hlets ?_
    simp only [Sys.beginCall]
    split
    · exact hgo rfl
    · exact hgo rfl
  | suspend u =>
    cases u with
    | none => exact hlets (hgo rfl)
    | some u =>
      refine hlets (hgo ?_)
      split <;> rfl
  | resume u => cases u <;> exact hlets (hgo rfl)
  | terminate u =>
    cases u with
    | none => exact hlets (hgo rfl)
    | some u =>
      refine hlets (hgo ?_)
      split <;> rfl
  | waitBits g mask all clear ms =>
    refine hlets ?_
    simp only [Sys.beginCall]
    split
    · exact Sys.settle_sits rfl rfl
    · split
      · exact Sys.settle_sits rfl rfl
      · exact hgo rfl
  | unlock m => exact hlets (Sys.settle_sits (unlock_naps m) (unlock_waits m))
  | enterCritical => exact hlets (hgo rfl)
  | exitCritical => exact hlets (hgo rfl)
  | _ => exact hlets (Sys.settle_sits rfl rfl)

/-- Between its sections a call blocks nobody. -/
theorem Pc.Goes.sits {p q : Pc} (h : p.Goes q) (hp : p.inBody = false) : q.sits = true := by
  cases h with
  | body p q hb hq =>
    rw [hp] at hb
    cases hb
  | _ => rfl

theorem Inv.phase_advance (h : Inv s a) (hs : s.step .advance = some s') :
    Phase.Next s .advance t (s.k.phase t) (s'.k.phase t) := by
  obtain ⟨-, hcan, hadv⟩ := Sys.step_advance.mp hs
  have hlets : s.pc s.k.self ≠ .suspendBody t → s.pc s.k.self ≠ .deleteBody t →
      (s.k.self = .task t → (s'.pc s.k.self).sits = true) → Phase.Next s .advance t (s.k.phase t) (s'.k.phase t) :=
    fun hsuspend hdelete hsits => h.phase_lets hs (by simp) (by simp) ⟨.inl rfl, hsuspend, hdelete, hsits⟩
  cases hbody : (s.pc s.k.self).inBody with
  | false =>
    refine hlets ?_ ?_ fun _ => (Sys.advance_goes hadv).sits hbody
    · intro hpc
      rw [hpc] at hbody
      cases hbody
    · intro hpc
      rw [hpc] at hbody
      cases hbody
  | true =>
    have hok := h.control.ok a.self
    rw [← h.self_eq] at hok
    have hcur : s.k.self = .task t → s.k.currentTask = some t := Core.self_task
    have hborn : t < a.taskCount → s.k.phase t ≠ .unborn := fun hlt => by
      rw [h.rep.phase_eq h.wf, phase_of_lt hlt]
      exact TaskControlBlock.phase_ne_unborn _ _
    simp only [Sys.advance] at hadv
    cases hpc : s.pc s.k.self with
    | suspendBody u =>
      rw [hpc] at hadv hok
      cases hadv
      have hlt := h.control.handles u hok.1
      by_cases hu : u = t
      · subst hu
        exact h.rep.suspend_phase h.wf hlt ▸ .suspend _ (hborn hlt) ⟨rfl, hpc⟩
      · refine hlets (fun heq => hu (by rw [hpc] at heq; cases heq; rfl)) (by simp [hpc]) fun hself => ?_
        refine Sys.settle_sits (suspendTask_naps ?_) (suspendTask_waits u)
        rw [hcur hself]
        exact fun heq => hu (Option.some.inj heq).symm
    | deleteBody u =>
      rw [hpc] at hadv hok
      cases hadv
      have hlt := h.control.handles u hok.1
      by_cases hu : u = t
      · subst hu
        exact h.rep.delete_phase h.wf hlt ▸ .delete _ (hborn hlt) ⟨rfl, hpc⟩
      · refine hlets (by simp [hpc]) (fun heq => hu (by rw [hpc] at heq; cases heq; rfl)) fun hself => ?_
        refine Sys.settle_sits (deleteTask_naps ?_) rfl
        rw [hcur hself]
        exact fun heq => hu (Option.some.inj heq).symm
    | resumeBody u =>
      rw [hpc] at hadv
      cases hadv
      have hleads : (⟨.call, .main, false, .resumeBody u, .user, true⟩ : Visit).Leads a
          (Scheduler.resumeTask u s.k).2 := by
        unfold Scheduler.resumeTask
        split
        · exact Visit.leads_refl h.rep
        · rename_i hst
          rw [h.rep.core_eq, not_not] at hst
          exact Visit.leads_of_action (.ready u) ⟨h.wf.lt_of_state (by simp [hst]), .inl hst⟩
            ⟨.inl ⟨.inl rfl, hst⟩, fun _ => rfl⟩ (h.rep.ready h.wf (.inl hst))
      rw [h.rep.phase_eq h.wf]
      exact (hleads.takes h.wf (Visit.lets_main (by simp) (by simp))).next (by simp) (by simp) fun _ => ⟨rfl, hpc⟩
    | waitBody g mask all clear ms =>
      rw [hpc] at hadv
      simp only at hadv
      split at hadv
      · cases hadv
      · rename_i u hu
        cases hadv
        by_cases hself : s.k.self = .task t
        case neg => exact hlets (by simp [hpc]) (by simp [hpc]) fun heq => absurd heq hself
        obtain rfl : t = u := Option.some.inj ((hcur hself).symm.trans hu)
        rcases waitBits_waits g mask all clear ms t with hwaits | hwaits
        · exact hlets (by simp [hpc]) (by simp [hpc]) fun _ =>
            Sys.settle_sits (waitBits_naps ..) hwaits
        · have he := h.entered hcan (by rw [← h.self_eq, hpc]; rfl)
          have ht : a.currentTask = some t := by rw [← hu, h.rep.core_eq]
          have hp := h.rep.waitBits_parks h.wf ht (he.running t ht) (Outcome.waits_eq hwaits)
          rw [h.rep.phase_eq h.wf, phase_running h.wf (he.running t ht)]
          refine Rep.parks_phase h.wf hp ▸ .wait _ _ hu ?_
          rw [Sys.waitsFor, hpc, h.rep.core_eq]
    | _ =>
      rw [hpc] at hbody
      cases hbody

theorem Inv.phase_tick (h : Inv s a) (hs : s.step .tick = some s') : s'.k.phase t = (s.k.phase t).tick := by
  obtain ⟨hrep, hwf⟩ := h.ticked hs
  rw [hrep.phase_eq hwf, h.rep.phase_eq h.wf]
  have htcb : ((a.lowered.expireAll a.lowered.expired).tcb t) =
      if t ∈ a.lowered.expired then { (a.tcb t).unparked with state := .ready } else a.tcb t :=
    expireAll_tcb (nodup_expired h.wf)
  have hmem : ∀ m, (t, m) ∈ (a.lowered.expireAll a.lowered.expired).sleepers ↔
      (t, m) ∈ a.lowered.sleepers ∧ t ∉ a.lowered.expired := fun m => by
    rw [expireAll_sleepers, List.mem_filter, decide_eq_true_eq]
  have hcount : (a.lowered.expireAll a.lowered.expired).taskCount = a.taskCount := expireAll_taskCount
  by_cases hsl : a.Sleeps t
  case pos =>
    obtain ⟨⟨u, n⟩, hin, rfl⟩ := List.mem_map.mp hsl
    have hlt := h.wf.lt_of_sleeps hsl
    have hexpired := mem_expired_iff h.wf h.positive hin
    rw [phase_of_lt hlt, phase_of_lt (hcount.symm ▸ hlt), htcb, (Countdown.left_eq_some h.wf.sleepers_nodup).mpr hin]
    simp only [TaskControlBlock.phase, h.wf.state_of_sleeps hsl]
    by_cases hone : n = 1
    · rw [if_pos (hexpired.mpr hone)]
      cases (a.tcb u).waitList <;> simp [Phase.tick, hone]
    · have hleft : Countdown.left u (a.lowered.expireAll a.lowered.expired).sleepers = some (n - 1) :=
        (Countdown.left_eq_some hwf.sleepers_nodup).mpr
          ((hmem _).mpr ⟨List.mem_map.mpr ⟨(u, n), hin, rfl⟩, mt hexpired.mp hone⟩)
      rw [if_neg (mt hexpired.mp hone), hleft]
      simp only [h.wf.state_of_sleeps hsl]
      cases (a.tcb u).waitList <;> simp [Phase.tick, hone]
  case neg =>
    have hnot : t ∉ a.lowered.expired := fun hin => hsl (by
      rw [Abs.Sleeps, ← lowered_names]
      exact expired_sublist.subset hin)
    have hnames : t ∉ (a.lowered.expireAll a.lowered.expired).sleepers.map Prod.fst := fun hin => by
      obtain ⟨⟨u, m⟩, hin', rfl⟩ := List.mem_map.mp hin
      refine hsl ?_
      rw [Abs.Sleeps, ← lowered_names]
      exact List.mem_map_of_mem ((hmem m).mp hin').1
    have hsame : (a.lowered.expireAll a.lowered.expired).phase t = a.phase t := by
      refine phase_congr (by rw [hcount]) ?_ ?_ ?_
      · rw [htcb, if_neg hnot]
      · rw [htcb, if_neg hnot]
      · rw [Countdown.left_eq_none.mpr hnames, Countdown.left_eq_none.mpr hsl]
    rw [hsame, Abs.phase]
    split
    · rw [Countdown.left_eq_none.mpr hsl, TaskControlBlock.phase]
      split
      case h_5 hb =>
        obtain ⟨w, hw⟩ := Option.ne_none_iff_exists'.mp (((h.wf.ok t).blocked hb).resolve_right hsl)
        rw [hw]
        rfl
      all_goals rfl
    · rfl

theorem Inv.phase_pendSV (h : Inv s a) {psp : Nat} (hs : s.step (.pendSV psp) = some s') :
    Phase.Next s (.pendSV psp) t (s.k.phase t) (s'.k.phase t) := by
  obtain ⟨-, hpend, -, hs'⟩ := Sys.step_pendSV.mp hs
  obtain ⟨c, p, acts, hruns, -, hhead, hen, hrep⟩ := h.dispatch hpend psp
  obtain ⟨acts₁, hstore⟩ := Rep.storeSp_runs (a := a) psp
  have hback := (a.storeSp psp).putBack_phase (hstore.wf h.wf) t
  have hsame : (a.storeSp psp).phase t = a.phase t ∧ ((a.storeSp psp).tcb t).state = (a.tcb t).state := by
    unfold Abs.storeSp
    split <;> exact ⟨rfl, rfl⟩
  rw [hsame.1, hsame.2] at hback
  have hwf := hruns.wf h.wf
  generalize (a.storeSp psp).putBack = b at hwf hhead hen hrep hback
  have hphase : s'.k.phase t = (b.switch c).phase t := by
    rw [hs']
    exact hrep.phase_eq (hwf.apply hen) t
  rw [hphase, h.rep.phase_eq h.wf]
  have hrunning := fun hr => phase_running h.wf (t := t) hr
  by_cases ht : t = c
  · subst ht
    have hready := hwf.ready_of_head hhead
    have hlt := hwf.mem_ready.mp (List.mem_of_mem_head? hhead)
    have hbready : b.phase t = .ready := by rw [phase_of_lt hlt.1, TaskControlBlock.phase, hready]
    have hdispatched : (b.switch t).phase t = .running := by
      refine phase_running (hwf.apply hen) ?_
      show ((b.switch t).tcb t).state = .running
      rw [Abs.switch, move_tcb, if_pos rfl]
    rw [hdispatched]
    by_cases hr : (a.tcb t).state = .running
    · rw [hrunning hr]
      exact .stay _ (by simp)
    · rw [if_neg hr] at hback
      rw [← hback, hbready]
      exact .dispatch psp rfl
  · rw [show (b.switch c).phase t = b.phase t from phase_of_not_mover hwf hen
      (fun heq => ht (Option.some.inj heq).symm) (by simp), hback]
    split
    · rename_i hr
      rw [hrunning hr]
      exact .preempt psp rfl
    · exact .stay _ (by simp)

theorem Inv.phase_next (h : Inv s a) (hs : s.step e = some s') (t : Tid) :
    Phase.Next s e t (s.k.phase t) (s'.k.phase t) := by
  cases e with
  | call y => exact h.phase_call hs
  | advance => exact h.phase_advance hs
  | tick =>
    rw [h.phase_tick hs]
    exact .tick _ rfl
  | isr y yield =>
    refine h.phase_lets hs (by simp) (by simp) ⟨.inr rfl, ?_, ?_, ?_⟩ <;> simp [Sys.visit, Visit.handler]
  | pendSV psp => exact h.phase_pendSV hs

end

/-- The running task is the current one; and every step of the machine, whoever makes it, takes every task along an edge
of its state machine. -/
theorem task_lifecycle {config : Config} {s : Sys} (h : Reachable config s) (t : Tid) :
    (s.k.phase t = .running → s.k.currentTask = some t) ∧
      ∀ e s', s.step e = some s' → Phase.Next s e t (s.k.phase t) (s'.k.phase t) := by
  obtain ⟨a, htracks⟩ := h.tracks
  have hi := htracks.inv
  refine ⟨fun hr => ?_, fun e s' hs => hi.phase_next hs t⟩
  rw [hi.rep.phase_eq hi.wf, Abs.phase] at hr
  rw [hi.rep.core_eq]
  split at hr
  · refine (hi.wf.ok t).running ?_
    generalize Countdown.left t a.sleepers = left at hr
    unfold TaskControlBlock.phase at hr
    split at hr
    case h_2 hst => exact hst
    case h_5 => split at hr <;> cases hr
    all_goals cases hr
  · cases hr

/-- A sleeping task sleeps one tick less after a tick. -/
theorem task_lifecycle_sleep : ∃ s s', (Sys.init .small).run Sys.sleepRun = some s ∧ s.step .tick = some s' ∧
    s.k.phase 0 = .asleep 5 ∧ s'.k.phase 0 = .asleep 4 ∧ Phase.Next s .tick 0 (.asleep 5) (.asleep 4) := by
  have hrun : ((Sys.init .small).run Sys.sleepRun).bind (fun s => (s.step .tick).map fun s' =>
      (s.k.phase 0, s'.k.phase 0)) = some (.asleep 5, .asleep 4) := by decide +kernel
  obtain ⟨s, hs, hbind⟩ := Option.bind_eq_some_iff.mp hrun
  obtain ⟨s', hs', heq⟩ := Option.map_eq_some_iff.mp hbind
  simp only [Prod.mk.injEq] at heq
  obtain ⟨hbefore, hafter⟩ := heq
  have hnext := (task_lifecycle (Reachable.run .init hs) 0).2 _ _ hs'
  rw [hbefore, hafter] at hnext
  exact ⟨s, s', hs, hs', hbefore, hafter, hnext⟩

end AcRtos
