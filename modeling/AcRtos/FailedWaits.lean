import AcRtos.Inheritance
import AcRtos.Replay
import AcRtos.SetBits

/-!
# A failed wait leaves no trace

A call of `W` that parks and is not served ends by itself: its timeout runs out, or `W` is suspended in its wait.
The steps of such a call, and the suspension, are taken out of the run; what is left are the operations of all others,
in their order, with the task of every context switch as the run had it. They are performed again from the state in
which the call began. `Kernel.Twin` is what holds between the two kernels all along: one step of the machine either is
performed in both (`Twins.perform`) or is a step of the call and moves the first kernel alone, out of sight of the
second one.
-/

namespace AcRtos

open Abs

namespace Pc

/-- The call has not parked yet. -/
def decides : Pc → Bool
  | .user | .waitBody .. => true
  | _ => false

/-- The call is about to park or has just parked. -/
def waits : Pc → Bool
  | .waitBody .. | .yieldWait _ => true
  | _ => false

/-- Inside a call that can wait. -/
def inWait : Pc → Bool
  | .waitBody .. | .yieldWait _ | .finish _ | .reread _ | .ret _ => true
  | _ => false

end Pc

/-- The calls that wait on an object of the application and may time out. -/
def Call.timed : Call → Bool
  | .take .. | .send .. | .receive .. | .waitBits .. => true
  | _ => false

namespace Sys

/-- `W` itself makes the step. -/
def own (W : Tid) (s : Sys) : Event → Bool
  | .call _ | .advance => s.k.self == .task W
  | _ => false

/-- The step belongs to the call that `W` is in: it is one of its steps, or the suspension that ends its wait. -/
def partOf (W : Tid) (s : Sys) (e : Event) : Bool :=
  s.own W e || (e == .advance && s.pc s.k.self == .suspendBody W && (s.k.tcb W).waitList.isSome)

/-- The step does not serve `W`: its call goes on to wait, and its wait ends with a tick or with a suspension. -/
def Unserved (W : Tid) (s : Sys) (e : Event) (s' : Sys) : Prop :=
  (s.own W e = true → (s.pc (.task W)).decides = true → (s'.pc (.task W)).waits = true) ∧
    ((s.k.tcb W).waitList ≠ none → (s'.k.tcb W).waitList = none → e = .tick ∨ s.partOf W e = true)

instance (W : Tid) (s : Sys) (e : Event) (s' : Sys) : Decidable (s.Unserved W e s') :=
  inferInstanceAs (Decidable (_ ∧ _))

/-- No step serves `W` before the call that it is in has returned. -/
def fruitless (W : Tid) : Bool → Sys → List Event → Bool
  | _, _, [] => true
  | during, s, e :: es =>
      match s.step e with
      | none => true
      | some s' => (!during || decide (s.Unserved W e s')) && fruitless W (during && s'.pc (.task W) != .user) s' es

/-- The operations of a run. Those that belong to the call that `W` is in are not to be kept. -/
def trace (W : Tid) : Bool → Sys → List Event → List (Bool × Op)
  | _, _, [] => []
  | during, s, e :: es =>
      match s.step e with
      | none => []
      | some s' => (!(during && s.partOf W e), s.op e) :: trace W (during && s'.pc (.task W) != .user) s' es

end Sys

namespace Kernel

/-- The operations in turn, with the reports of those that are to be kept. -/
def replay (W : Tid) : List (Bool × Op) → Kernel → Option (List Report × Kernel)
  | [], k => some ([], k)
  | (kept, op) :: ops, k =>
      match op.perform k with
      | none => none
      | some (p, k') =>
          match replay W ops k' with
          | none => none
          | some (rs, k'') => some (if kept then op.report W k p k' :: rs else rs, k'')

/-- The two kernels agree but for `W`: in the objects, in all other tasks and their buffers, in the order of the
waiters and in the ticks that the other sleepers have left. -/
structure SameBut (W : Tid) (k k' : Kernel) : Prop where
  count : k'.count = k.count
  ring : k'.ring = k.ring
  currentBits : k'.currentBits = k.currentBits
  owner : k'.owner = k.owner
  tickCount : k'.tickCount = k.tickCount
  currentTask : k'.currentTask = k.currentTask
  tcb : ∀ t, t ≠ W → k'.tcb t = k.tcb t
  frame : ∀ c, c ≠ .task W → k'.frame c = k.frame c
  waits : ∀ w, (k'.members (.wait w)).filter (· != W) = (k.members (.wait w)).filter (· != W)
  sleepers : k'.remaining.filter (·.1 != W) = k.remaining.filter (·.1 != W)

variable {W : Tid} {away : Bool} {k k' : Kernel}

theorem replay_cons {kept : Bool} {op : Op} {ops : List (Bool × Op)} {r : Pc × Kernel} {rs : List Report}
    (hop : op.perform k = some r) (hrest : replay W ops r.2 = some (rs, k')) :
    replay W ((kept, op) :: ops) k = some (if kept then op.report W k r.1 r.2 :: rs else rs, k') := by
  simp only [replay, hop, hrest]

theorem Twin.sameBut (h : Twin W away k k') : k.SameBut W k' := by
  obtain ⟨a, b, h⟩ := h
  have hcore := h.rep.core_eq
  have hcore' := h.rep'.core_eq
  refine ⟨?_, ?_, ?_, ?_, ?_, ?_, fun t ht => ?_, fun c hc => ?_, fun w => ?_, ?_⟩
  · rw [hcore, hcore', h.veiled.count]
  · rw [hcore, hcore', h.veiled.ring]
  · rw [hcore, hcore', h.veiled.currentBits]
  · rw [hcore, hcore', h.veiled.owner]
  · rw [hcore, hcore', h.veiled.tickCount]
  · rw [hcore, hcore', h.veiled.currentTask]
  · rw [hcore, hcore', h.veiled.tcb t ht]
  · rw [hcore, hcore', h.veiled.frame c hc]
  · rw [h.rep.members_eq h.sound.wf, h.rep'.members_eq h.sound'.wf, h.veiled.waits, List.filter_filter]
    exact List.filter_congr fun t _ => by by_cases ht : t = W <;> simp [shown, ht]
  · rw [h.rep.remaining_eq h.sound.wf, h.rep'.remaining_eq h.sound'.wf, h.veiled.sleepers, List.filter_filter]
    exact List.filter_congr fun e _ => by by_cases he : e.1 = W <;> simp [shown, he]

end Kernel

/-! ### The steps of the call -/

section
variable {W : Tid} {away : Bool} {s s' : Sys} {k' : Kernel} {a : Abs} {e : Event}

/-- What is known of the call while it is left out. -/
structure Sys.LeftOut (W : Tid) (away : Bool) (s : Sys) : Prop where
  inWait : (s.pc (.task W)).inWait = true
  listed : away = false → (s.k.tcb W).waitList = none

theorem waitList_of_away (h : Kernel.Twin W true s.k k') : ∃ w, (s.k.tcb W).waitList = some w := by
  obtain ⟨a, b, h⟩ := h
  obtain ⟨⟨w, hw, -⟩, -⟩ := h.veiled.peers.parked rfl
  rw [h.rep.core_eq]
  exact ⟨w, hw⟩

theorem Inv.not_away (h : Inv s a) (htwin : Kernel.Twin W away s.k k') (hself : s.k.self = .task W)
    (hcan : s.canRun = true) (hg : (s.pc (.task W)).gives = false) : away = false ∧ (s.k.tcb W).state = .running := by
  have he := h.entered hcan (by rw [← h.self_eq, hself]; exact hg)
  have hr : (s.k.tcb W).state = .running := by
    rw [h.rep.core_eq]
    exact he.running W (Core.self_task (h.self_eq.symm.trans hself))
  refine ⟨?_, hr⟩
  cases haway : away with
  | false => rfl
  | true =>
    rw [haway] at htwin
    obtain ⟨w, hw⟩ := waitList_of_away htwin
    rw [h.rep.core_eq] at hw hr
    rw [h.wf.waitList_none (by simp [hr])] at hw
    cases hw

theorem parks (r : Outcome × Kernel) (hw : ((s.settle (.task W) r).pc (.task W)).waits = true)
    (hpark : ∀ w, r.1 = .wait w → Kernel.Twin W true r.2 k') :
    Kernel.Twin W true (s.settle (.task W) r).k k' ∧ (s.settle (.task W) r).LeftOut W true := by
  have hafter : (s.settle (.task W) r).pc (.task W) = Sys.afterSection r.1 := congrArg Prod.fst (Sys.look_settle r)
  rw [hafter] at hw
  cases ho : r.1 with
  | ret x y => cases y <;> simp [ho, Sys.afterSection, Pc.waits] at hw
  | wait w =>
    refine ⟨hpark w ho, ?_, by simp⟩
    rw [hafter, ho]
    rfl

/-- The call begins in `s` alone, and is about to park or parks. -/
theorem Inv.begins (h : Inv s a) (htwin : Kernel.Twin W false s.k k') (hself : s.k.self = .task W) {c : Call}
    (hc : c.timed = true) (hs : s.step (.call c) = some s') (hwaits : (s'.pc (.task W)).waits = true) :
    ∃ away', Kernel.Twin W away' s'.k k' ∧ s'.LeftOut W away' := by
  obtain ⟨-, hcan, hpc, -, -, rfl⟩ := Sys.step_call.mp hs
  rw [hself] at hpc hwaits ⊢
  obtain ⟨-, hr⟩ := h.not_away htwin hself hcan (by rw [hpc]; rfl)
  obtain ⟨b, d, htwin⟩ := htwin
  have hmark := htwin.emit_left (o := .call (.task W) c) rfl
  have hcur : b.currentTask = some W := by rw [← htwin.rep.core_eq]; exact Core.self_task hself
  have hrb : (b.tcb W).state = .running := by rw [← htwin.rep.core_eq]; exact hr
  have hidle := htwin.sound.wf.waitList_none (t := W) (by simp [hrb])
  cases c with
  | take x ms =>
    exact ⟨true, parks _ hwaits fun w hw => hmark.park_left hrb (hmark.rep.take_parks hmark.sound.wf hcur hrb hw)⟩
  | receive q ms =>
    exact ⟨true, parks _ hwaits
      fun w hw => hmark.park_left hrb (hmark.rep.receive_parks hmark.sound.wf hcur hrb hw)⟩
  | send q item ms =>
    have hframe := hmark.setFrame_left hidle fun f => { f with item := item }
    exact ⟨true, parks _ hwaits fun w hw =>
      hframe.park_left hrb (hframe.rep.send_parks hframe.sound.wf hframe.sound.starved hcur hrb hw)⟩
  | waitBits g mask waitAll clear ms =>
    have hframe := hmark.setFrame_left hidle fun f => { f with bits := 0 }
    have hcur' : (s.k.emit (.call (.task W) (.waitBits g mask waitAll clear ms))).currentTask = some W :=
      Core.self_task hself
    by_cases hmask : mask = 0
    · simp only [Sys.beginCall, if_pos hmask] at hwaits ⊢
      exact ⟨true, parks _ hwaits fun w hw => by cases hw⟩
    · simp only [Sys.beginCall, if_neg hmask, hcur']
      refine ⟨false, hframe.same, ?_, fun _ => ?_⟩
      · exact congrArg (fun r => r.1.inWait) (Sys.look_setPc _)
      · show (s.k.tcb W).waitList = none
        rw [htwin.rep.core_eq]
        exact hidle
  | _ => cases hc

theorem Inv.goesOn (h : Inv s a) (htwin : Kernel.Twin W away s.k k') (hout : s.LeftOut W away)
    (hself : s.k.self = .task W) (hs : s.step .advance = some s')
    (hwaits : (s.pc (.task W)).decides = true → (s'.pc (.task W)).waits = true) :
    ∃ away', Kernel.Twin W away' s'.k k' ∧ (s'.pc (.task W) ≠ .user → s'.LeftOut W away') ∧
      (s'.pc (.task W) = .user → away' = false) := by
  obtain ⟨-, hcan, hadv⟩ := Sys.step_advance.mp hs
  rw [hself] at hadv
  have hin := hout.inWait
  have hset : ∀ {s : Sys} {p : Pc}, (s.setPc (.task W) p).pc (.task W) = p := Function.update_self _ _ _
  unfold Sys.advance at hadv
  cases hpc : s.pc (.task W) with
  | waitBody g mask waitAll clear ms =>
    obtain ⟨rfl, hr⟩ := h.not_away htwin hself hcan (by rw [hpc]; rfl)
    obtain ⟨b, d, htwin⟩ := htwin
    simp only [hpc, Core.self_task hself, Option.some.injEq] at hadv
    subst hadv
    have hcur : b.currentTask = some W := by rw [← htwin.rep.core_eq]; exact Core.self_task hself
    obtain ⟨hpark, hnext⟩ := parks _ (hwaits (by rw [hpc]; rfl)) fun w hw =>
      have hrb : (b.tcb W).state = .running := by rw [← htwin.rep.core_eq]; exact hr
      htwin.park_left hrb (htwin.rep.waitBits_parks htwin.sound.wf hcur hrb hw)
    refine ⟨true, hpark, fun _ => hnext, fun hu => ?_⟩
    have hin' := hnext.inWait
    rw [hu] at hin'
    cases hin'
  | yieldWait w =>
    simp only [hpc, Option.some.injEq] at hadv
    subst hadv
    exact ⟨away, htwin, fun _ => ⟨by rw [hset]; rfl, hout.listed⟩, fun hu => by rw [hset] at hu; cases hu⟩
  | finish w =>
    obtain ⟨rfl, hr⟩ := h.not_away htwin hself hcan (by rw [hpc]; rfl)
    simp only [hpc, Core.self_task hself, Option.some.injEq] at hadv
    subst hadv
    refine ⟨false, htwin, fun _ => ⟨?_, hout.listed⟩, fun _ => rfl⟩
    rw [hset]
    unfold Sys.afterWait
    cases w with
    | bits g mask all clear =>
      simp only
      split <;> rfl
    | _ => rfl
  | reread g =>
    obtain ⟨rfl, hr⟩ := h.not_away htwin hself hcan (by rw [hpc]; rfl)
    simp only [hpc, Option.some.injEq] at hadv
    subst hadv
    obtain ⟨b, d, htwin⟩ := htwin
    exact ⟨false, htwin.readBits_left g, fun _ => ⟨by rw [Sys.settle, hset]; rfl, hout.listed⟩, fun _ => rfl⟩
  | ret r =>
    obtain ⟨rfl, hr⟩ := h.not_away htwin hself hcan (by rw [hpc]; rfl)
    simp only [hpc, Option.some.injEq] at hadv
    subst hadv
    obtain ⟨b, d, htwin⟩ := htwin
    exact ⟨false, (htwin.emit_left rfl).same, fun hu => absurd hset hu, fun _ => rfl⟩
  | _ =>
    rw [hpc] at hin
    cases hin

theorem suspends (htwin : Kernel.Twin W away s.k k') (hout : s.LeftOut W away)
    (hself : s.k.self ≠ .task W) (hs : s.step .advance = some s') (hpc : s.pc s.k.self = .suspendBody W)
    (hparked : (s.k.tcb W).waitList ≠ none) : Kernel.Twin W false s'.k k' ∧ s'.LeftOut W false := by
  obtain ⟨-, -, hadv⟩ := Sys.step_advance.mp hs
  unfold Sys.advance at hadv
  simp only [hpc, Option.some.injEq] at hadv
  subst hadv
  obtain rfl : away = true := by
    by_contra haway
    exact hparked (hout.listed (by simpa using haway))
  obtain ⟨b, d, htwin⟩ := htwin
  have hcur : b.currentTask ≠ some W := fun hcur => hself (by
    rw [← htwin.rep.core_eq] at hcur
    simp [Core.self, hcur])
  refine ⟨htwin.suspend_left hcur, ?_, fun _ => ?_⟩
  · show (Function.update s.pc s.k.self _ (.task W)).inWait = true
    rw [Function.update_of_ne (Ne.symm hself)]
    exact hout.inWait
  · have hblocked := (htwin.sound.wf.ok W).waits (by rw [← htwin.rep.core_eq]; exact hparked)
    have hne : (s.k.tcb W).state ≠ .suspended := by rw [htwin.rep.core_eq]; simp [hblocked]
    show ((Scheduler.suspendTask W s.k).2.tcb W).waitList = none
    rw [Scheduler.suspendTask, if_neg hne]
    exact htwin.retired (htwin.sound.wf.lt_of_state (t := W) (by simp [hblocked])) .suspended

/-! ### The steps of the others -/

section
variable (c : Ctx)

@[simp] theorem Sys.setPc_handles (p : Pc) : (s.setPc c p).handles = s.handles := rfl

@[simp] theorem Sys.setK_handles (k : Kernel) : (s.setK k).handles = s.handles := rfl

@[simp] theorem Sys.settle_handles (r : Outcome × Kernel) : (s.settle c r).handles = s.handles := rfl

@[simp] theorem Sys.created_handles (site : Site) (x : Option Tid) (k : Kernel) :
    (s.created c site x k).handles = s.handles := by
  unfold Sys.created
  split <;> rfl

theorem Sys.beginCall_handles (x : Call) : (s.beginCall c x).handles = s.handles := by
  unfold Sys.beginCall
  cases x with
  | suspend h => cases h <;> rfl
  | resume h => cases h <;> rfl
  | terminate h => cases h <;> rfl
  | start => simp only; split <;> simp
  | waitBits =>
    simp only
    split
    · simp
    · split <;> simp
  | _ => rfl

theorem Sys.advanceCreate_handles {phase : CreatePhase} (site : Site) (f : Callable) (p : Nat) :
    s.handles ⊆ (s.advanceCreate c phase site f p).handles := by
  unfold Sys.advanceCreate
  cases phase with
  | testFlag => simp only; split <;> simp
  | alloc => simp only; split <;> simp
  | ready t => simp only; split <;> simp
  | preempt t => simp only; split <;> simp
  | _ => simp

end

theorem Sys.handles_step (hs : s.step e = some s') : s.handles ⊆ s'.handles := by
  cases e with
  | call c =>
    obtain ⟨-, -, -, -, -, rfl⟩ := Sys.step_call.mp hs
    rw [Sys.beginCall_handles]
    exact fun _ => id
  | advance =>
    obtain ⟨-, -, hadv⟩ := Sys.step_advance.mp hs
    unfold Sys.advance at hadv
    split at hadv
    · cases hadv
    · cases hadv
    · cases hadv
      exact Sys.advanceCreate_handles _ _ _ _
    all_goals first
      | (cases hadv; exact fun _ => id)
      | (split at hadv <;> cases hadv; exact fun _ => id)
  | tick =>
    obtain ⟨-, -, -, rfl⟩ := Sys.step_tick.mp hs
    exact fun _ => id
  | isr c yield =>
    obtain ⟨-, -, -, -, rfl⟩ := Sys.step_isr.mp hs
    exact fun _ => id
  | pendSV psp =>
    obtain ⟨-, -, -, rfl⟩ := Sys.step_pendSV.mp hs
    exact fun _ => id

theorem Inv.pc_of_not_own (h : Inv s a) (hs : s.step e = some s') (hown : s.own W e = false) :
    s'.pc (.task W) = s.pc (.task W) := by
  have hself := h.self_eq
  have hmoves : s.k.self ≠ .task W → Inv.Moves s a s' → s'.pc (.task W) = s.pc (.task W) := by
    rintro hne ⟨p', acts, a', hpc, -⟩
    rw [hpc, Function.update_of_ne (by rw [← hself]; exact Ne.symm hne)]
  cases e with
  | call c =>
    obtain ⟨-, hcan, hpc, hawake, hadm, rfl⟩ := Sys.step_call.mp hs
    rw [hself] at hpc hawake
    have hmove := h.beginCall hcan hpc (fun i hi heq => hawake (by rw [hi, heq]; rfl)) hadm
    rw [← hself] at hmove
    exact hmoves (by simpa [Sys.own] using hown) hmove
  | advance =>
    obtain ⟨-, hcan, hadv⟩ := Sys.step_advance.mp hs
    rw [hself] at hadv
    exact hmoves (by simpa [Sys.own] using hown) (h.advances hcan hadv)
  | tick =>
    obtain ⟨-, -, -, rfl⟩ := Sys.step_tick.mp hs
    rfl
  | isr c yield =>
    obtain ⟨-, -, -, -, rfl⟩ := Sys.step_isr.mp hs
    rfl
  | pendSV psp =>
    obtain ⟨-, -, -, rfl⟩ := Sys.step_pendSV.mp hs
    rfl

theorem Inv.waitList_of_not_own (h : Inv s a) (hs : s.step e = some s') (hown : s.own W e = false)
    (hnone : (s.k.tcb W).waitList = none) : (s'.k.tcb W).waitList = none := by
  obtain ⟨acts, a', hruns, hinv⟩ := h.step hs
  rw [h.rep.core_eq] at hnone
  rw [hinv.rep.core_eq]
  cases hw : (a'.tcb W).waitList with
  | none => rfl
  | some w =>
    rcases (hruns.passes h.wf).parked W w hw with hold | ⟨hctx, -⟩
    · rw [hnone] at hold
      cases hold
    · cases e with
      | call c => simp [Sys.own, show s.k.self = .task W from hctx] at hown
      | advance => simp [Sys.own, show s.k.self = .task W from hctx] at hown
      | _ => cases hctx

/-- What the machine does for the others, the twin can do, too. -/
theorem Inv.keeps (h : Inv s a) (hW : W ∈ s.handles) (htwin : Kernel.Twin W away s.k k') (hs : s.step e = some s')
    (hserved : away = true → e ≠ .tick → (s'.k.tcb W).waitList ≠ none) :
    ∃ r r' away', (s.op e).perform s.k = some (r, s'.k) ∧ (s.op e).perform k' = some r' ∧
      (s.op e).report W k' r'.1 r'.2 = (s.op e).report W s.k r s'.k ∧ Kernel.Twin W away' s'.k r'.2 ∧
      (away' = true → away = true) ∧ (away = true → away' = false → (s'.k.tcb W).waitList = none) := by
  obtain ⟨p, hop, -⟩ := h.performs hs
  obtain ⟨b, d, htwins⟩ := htwin
  have hfits := h.fits hs hW
  rw [htwins.rep.core_eq] at hfits
  have htick : s.op e ≠ .tick → e ≠ .tick := by
    rintro hne rfl
    exact hne rfl
  obtain ⟨r', away', hop', hreport, hnext, hmono, hback⟩ := htwins.perform hfits hop fun hne haway =>
    hserved haway (htick hne)
  exact ⟨p, r', away', hop, hop', hreport, hnext, hmono, hback⟩

/-! ### The run -/

/-- One step, by the part it has in the call of `W`. -/
theorem Inv.shadow {during : Bool} (h : Inv s a) (hW : W ∈ s.handles) (htwin : Kernel.Twin W away s.k k')
    (hout : during = true → s.LeftOut W away) (hback : during = false → away = false) (hs : s.step e = some s')
    (hunserved : during = true → s.Unserved W e s') :
    ∃ r k₁ away', (s.op e).perform s.k = some (r, s'.k) ∧ Kernel.Twin W away' s'.k k₁ ∧
      ((during && s'.pc (.task W) != .user) = true → s'.LeftOut W away') ∧
      ((during && s'.pc (.task W) != .user) = false → away' = false) ∧
      (if during && s.partOf W e then k₁ = k'
      else ∃ p, (s.op e).perform k' = some (p, k₁) ∧
        (s.op e).report W k' p k₁ = (s.op e).report W s.k r s'.k) := by
  obtain ⟨r, hop, -⟩ := h.performs hs
  by_cases hpart : (during && s.partOf W e) = true
  · simp only [if_pos hpart]
    obtain ⟨rfl, hpart⟩ := Bool.and_eq_true_iff.mp hpart
    have hout := hout rfl
    have hwaits := (hunserved rfl).1
    by_cases hown : s.own W e = true
    · -- a step of the call itself
      cases e with
      | call c =>
        obtain ⟨-, -, hpc, -⟩ := Sys.step_call.mp hs
        have hin := hout.inWait
        rw [← show s.k.self = .task W by simpa [Sys.own] using hown, hpc] at hin
        cases hin
      | advance =>
        obtain ⟨away', hnext, hleft, hend⟩ := h.goesOn htwin hout (by simpa [Sys.own] using hown) hs (hwaits hown)
        exact ⟨r, k', away', hop, hnext, fun hd => hleft (by simpa using hd), fun hd => hend (by simpa using hd),
          rfl⟩
      | _ => cases hown
    · -- the suspension that ends it
      have hsuspend : (e = .advance ∧ s.pc s.k.self = .suspendBody W) ∧ (s.k.tcb W).waitList.isSome = true := by
        simpa [Sys.partOf, hown] using hpart
      obtain ⟨⟨rfl, hpc⟩, hparked⟩ := hsuspend
      obtain ⟨hnext, hleft⟩ := suspends htwin hout (by simpa [Sys.own] using hown) hs hpc
        (by simpa [Option.isSome_iff_ne_none] using hparked)
      exact ⟨r, k', false, hop, hnext, fun _ => hleft, fun _ => rfl, rfl⟩
  · simp only [if_neg hpart]
    have hserved : away = true → e ≠ .tick → (s'.k.tcb W).waitList ≠ none := by
      rintro rfl hne hnone
      have hd : during = true := by
        by_contra hd
        cases hback (by simpa using hd)
      obtain ⟨w, hw⟩ := waitList_of_away htwin
      rcases (hunserved hd).2 (by simp [hw]) hnone with heq | hp
      · exact hne heq
      · exact hpart (by rw [hd, hp]; rfl)
    obtain ⟨r', p, away', hop', hp, hreport, hnext, hmono, hend⟩ := h.keeps hW htwin hs hserved
    obtain rfl : r = r' := congrArg Prod.fst (Option.some.inj (hop.symm.trans hop'))
    refine ⟨r, p.2, away', hop, hnext, fun hd => ?_, fun hd => ?_, p.1, hp, hreport⟩
    · obtain ⟨rfl, -⟩ := Bool.and_eq_true_iff.mp hd
      have hown : s.own W e = false := by
        by_contra hown
        exact hpart (by simp [Sys.partOf, hown])
      refine ⟨?_, fun haway' => ?_⟩
      · rw [h.pc_of_not_own hs hown]
        exact (hout rfl).inWait
      · cases haway : away with
        | true => exact hend haway haway'
        | false => exact h.waitList_of_not_own hs hown ((hout rfl).listed haway)
    · cases hd' : during with
      | false =>
        by_contra haway'
        cases (hback hd').symm.trans (hmono (by simpa using haway'))
      | true =>
        -- a step of the others does not end the call
        subst hd'
        have hown : s.own W e = false := by
          by_contra hown
          exact hpart (by simp [Sys.partOf, hown])
        have hin := (hout rfl).inWait
        rw [← h.pc_of_not_own hs hown, show s'.pc (.task W) = .user by simpa using hd] at hin
        cases hin

/-- The whole run, next to what is left of it. -/
theorem Reachable.shadows {config : Config} {es : List Event} {during : Bool} (h : Reachable config s)
    (hW : W ∈ s.handles)
    (htwin : Kernel.Twin W away s.k k') (hout : during = true → s.LeftOut W away)
    (hback : during = false → away = false)
    (hfruit : s.fruitless W during es = true) (hrun : s.run es = some s') :
    ∃ rs k₁ away', Kernel.replay W (s.trace W during es) s.k = some (rs, s'.k) ∧
      Kernel.replay W ((s.trace W during es).filter Prod.fst) k' = some (rs, k₁) ∧
        Kernel.Twin W away' s'.k k₁ := by
  induction es generalizing s k' away during with
  | nil =>
    cases hrun
    exact ⟨[], k', away, rfl, rfl, htwin⟩
  | cons e es ih =>
    obtain ⟨s₁, hs, hrun⟩ := Sys.run_cons hrun
    obtain ⟨a, htracks⟩ := h.tracks
    simp only [Sys.fruitless, hs, Bool.and_eq_true, Bool.or_eq_true, Bool.not_eq_true', decide_eq_true_eq] at hfruit
    obtain ⟨r, k₁, away₁, hop, hnext, hleft, hend, hstep⟩ := htracks.inv.shadow hW htwin hout hback hs
      fun hd => hfruit.1.resolve_left (by simp [hd])
    obtain ⟨rs, k₂, away₂, hfull, hkept, hlast⟩ :=
      ih (h.step e hs) (Sys.handles_step hs hW) hnext hleft hend hfruit.2 hrun
    rw [Sys.trace, hs]
    cases hpart : during && s.partOf W e with
    | true =>
      rw [if_pos hpart] at hstep
      subst hstep
      exact ⟨rs, k₂, away₂, Kernel.replay_cons hop hfull, by simpa using hkept, hlast⟩
    | false =>
      rw [if_neg (by simp [hpart])] at hstep
      obtain ⟨p, hp, hreport⟩ := hstep
      refine ⟨(s.op e).report W s.k r s₁.k :: rs, k₂, away₂, Kernel.replay_cons hop hfull, ?_, hlast⟩
      rw [← hreport]
      exact Kernel.replay_cons hp hkept

theorem Tracks.twin {config : Config} {good : Sys → Event → Prop} (h : Tracks config good s a) (W : Tid) :
    Kernel.Twin W false s.k s.k := by
  have hi := h.inv
  have hsound : a.Sound := ⟨hi.wf, hi.owned, hi.starved, h.sorted.1, hi.positive⟩
  exact ⟨a, a, hi.rep, hi.rep, hsound, hsound, .refl W a⟩

end

/-- What a call leaves behind that waits and is not served: nothing. The run is performed again without it, from the
state in which the call began. All others are told the same and wake the same tasks in the same steps, and in the end
the two kernels agree but for `W`. -/
theorem failed_wait_leaves_no_trace {config : Config} {s s' : Sys} {W : Tid} {c : Call} {es : List Event}
    (h : Reachable config s) (hself : s.k.self = .task W) (hc : c.timed = true)
    (hrun : s.run (.call c :: es) = some s') (hfruit : s.fruitless W true (.call c :: es) = true) :
    ∃ rs k, Kernel.replay W (s.trace W true (.call c :: es)) s.k = some (rs, s'.k) ∧
      Kernel.replay W ((s.trace W true (.call c :: es)).filter Prod.fst) s.k = some (rs, k) ∧ s'.k.SameBut W k := by
  obtain ⟨s₁, hs, hrun⟩ := Sys.run_cons hrun
  obtain ⟨a, htracks⟩ := h.tracks
  have hi := htracks.inv
  obtain ⟨-, -, hpc, hawake, -, -⟩ := Sys.step_call.mp hs
  rw [hself] at hpc hawake
  have hown : s.own W (.call c) = true := by simp [Sys.own, hself]
  have hpart : s.partOf W (.call c) = true := by simp [Sys.partOf, hown]
  have hW : W ∈ s.handles := by
    have hcur : a.currentTask = some W := Core.self_task (hi.self_eq.symm.trans hself)
    refine (hi.control.current W hcur).2.resolve_right fun hidle => hawake ?_
    rw [hidle]
    rfl
  simp only [Sys.fruitless, hs, Bool.not_true, Bool.false_or, Bool.true_and, Bool.and_eq_true,
    decide_eq_true_eq] at hfruit
  have hwaits := hfruit.1.1 hown (by rw [hpc]; rfl)
  obtain ⟨away, htwin, hout⟩ := hi.begins (htracks.twin W) hself hc hs hwaits
  have hduring : (s₁.pc (.task W) != .user) = true := by
    cases hp : s₁.pc (.task W) with
    | user => rw [hp] at hwaits; cases hwaits
    | _ => rfl
  obtain ⟨r, hop, -⟩ := hi.performs hs
  obtain ⟨rs, k, _, hfull, hkept, hlast⟩ := (h.step _ hs).shadows (Sys.handles_step hs hW) htwin (fun _ => hout)
    (fun hd => absurd hd (by simp)) (hduring ▸ hfruit.2) hrun
  rw [Sys.trace, hs]
  simp only [hpart, hduring, Bool.and_true, Bool.not_true]
  exact ⟨rs, k, Kernel.replay_cons hop hfull, hkept, hlast.sameBut⟩

/-- One task times out on a semaphore while another one gives a second semaphore. -/
def Sys.failedTakeRun : List Event :=
  [.call (.take 0 1), .advance, .pendSV 0, .call (.give 1), .advance, .tick, .pendSV 0, .advance, .advance]

theorem failed_wait_leaves_no_trace_timeout :
    ∃ s s' rs k, Sys.run (Sys.init .small) (Sys.createRun 1 2 ++ Sys.createRun 2 1 ++ Sys.startRun) = some s ∧
      s.run Sys.failedTakeRun = some s' ∧ s'.k.count 1 = 1 ∧
      Kernel.replay 0 ((s.trace 0 true Sys.failedTakeRun).filter Prod.fst) s.k = some (rs, k) ∧ s'.k.SameBut 0 k := by
  have hrun : ((Sys.run (Sys.init .small) (Sys.createRun 1 2 ++ Sys.createRun 2 1 ++ Sys.startRun)).bind fun s =>
      (s.run Sys.failedTakeRun).map fun s' => (s.k.currentTask, s.fruitless 0 true Sys.failedTakeRun, s'.k.count 1)) =
      some (some 0, true, 1) := by decide +kernel
  obtain ⟨s, hs, hbind⟩ := Option.bind_eq_some_iff.mp hrun
  obtain ⟨s', hs', heq⟩ := Option.map_eq_some_iff.mp hbind
  simp only [Prod.mk.injEq] at heq
  obtain ⟨hcur, hfruit, hcount⟩ := heq
  obtain ⟨rs, k, -, hkept, hsame⟩ := failed_wait_leaves_no_trace (Reachable.run .init hs)
    (show s.k.self = .task 0 by simp [Core.self, hcur]) rfl hs' hfruit
  exact ⟨s, s', rs, k, hs, hs', hcount, hkept, hsame⟩

end AcRtos
