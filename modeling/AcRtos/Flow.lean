import AcRtos.Told

/-!
# Flow

The control flow of the calls: where a call begins (`Sys.Begins`) and where each of its steps leads (`Pc.Goes`). Every
edge takes a call nearer to its end, so a call is over after at most ten steps of its own; and a context in a call is
never stuck, so whoever waits for the CPU waits for a context switch and not for the kernel (`calls_end`).
-/

namespace AcRtos

namespace CreatePhase

/-- The phases of `create_task` that are left. -/
def left : CreatePhase → Nat
  | .assertFlag => 7
  | .testFlag => 6
  | .setFlag => 5
  | .copy => 4
  | .alloc => 3
  | .init _ => 2
  | .ready _ => 1
  | .preempt _ => 0

end CreatePhase

/-- The wait in which a critical section leaves its caller. -/
def Outcome.waits : Outcome → Option Wait
  | .ret _ _ => none
  | .wait w => some w

namespace Pc

/-- What may follow a critical section that can only leave its caller in the wait `ws`. -/
inductive Settled (ws : Option Wait) : Pc → Prop
  | ret (r : Ret) : Settled ws (.ret r)
  | yield (r : Ret) : Settled ws (.yield r)
  | wait (w : Wait) (h : ws = some w) : Settled ws (.yieldWait w)

/-- A context before its critical section of `suspend`, `resume`, `terminate` or `wait_bits`. -/
def inBody : Pc → Bool
  | .suspendBody _ | .resumeBody _ | .deleteBody _ | .waitBody .. => true
  | _ => false

/-- The wait in which this section may end. -/
def bodyWait : Pc → Option Wait
  | .waitBody g mask waitAll clear _ => some (.bits g mask waitAll clear)
  | _ => none

/-- From one point of a call to the next. -/
inductive Goes : Pc → Pc → Prop
  | phase (φ ψ : CreatePhase) (x : Site) (f : Callable) (p : Nat) (h : φ.left = ψ.left + 1) :
      Goes (.create φ x f p) (.create ψ x f p)
  | created (φ : CreatePhase) (x : Site) (f : Callable) (p : Nat) (t : Option Tid) (hx : x ≠ idleSite) :
      Goes (.create φ x f p) (.ret (.task t))
  | idleCreated (φ : CreatePhase) (f : Callable) (p : Nat) : Goes (.create φ idleSite f p) .startRun
  | startRun : Goes .startRun .startYield
  | startYield : Goes .startYield .halted
  | body (p q : Pc) (hp : p.inBody = true) (hq : q.Settled p.bodyWait) : Goes p q
  | yield (r : Ret) : Goes (.yield r) (.ret r)
  | yieldWait (w : Wait) : Goes (.yieldWait w) (.finish w)
  | finish (w : Wait) (r : Ret) : Goes (.finish w) (.ret r)
  | expired (w : Wait) (g : EventId) : Goes (.finish w) (.reread g)
  | reread (g : EventId) (r : Ret) : Goes (.reread g) (.ret r)
  | ret (r : Ret) : Goes (.ret r) .user

/-- A bound on the steps that a call still makes. -/
def left : Pc → Nat
  | .user | .halted => 0
  | .ret _ | .startYield => 1
  | .yield _ | .reread _ | .startRun => 2
  | .finish _ => 3
  | .yieldWait _ => 4
  | .suspendBody _ | .resumeBody _ | .deleteBody _ | .waitBody .. => 5
  | .create φ _ _ _ => φ.left + 3

variable {p q : Pc} {ws : Option Wait}

theorem Settled.left_le (h : p.Settled ws) : p.left ≤ 4 := by
  cases h <;> simp [left]

theorem Goes.left_lt (h : p.Goes q) : q.left < p.left := by
  cases h with
  | phase φ ψ x f n h =>
    show ψ.left + 3 < φ.left + 3
    omega
  | created φ x f n t hx =>
    show 1 < φ.left + 3
    omega
  | idleCreated φ f n =>
    show 2 < φ.left + 3
    omega
  | body p q hp hq =>
    have := hq.left_le
    cases p <;> cases hp <;> exact Nat.lt_succ_of_le this
  | _ => simp [left]

theorem Goes.not_body (h : p.Goes q) : q.inBody = false := by
  cases h with
  | body p q hp hq => cases hq <;> rfl
  | _ => rfl

theorem Goes.wait {w : Wait} (h : p.Goes (.yieldWait w)) : p.inBody = true ∧ p.bodyWait = some w := by
  cases h with
  | body p q hp hq =>
    cases hq with
    | wait w h => exact ⟨hp, h⟩

end Pc

namespace Sys

/-- Where the call `y` may begin. -/
inductive Begins (s : Sys) (y : Call) : Pc → Prop
  | settled (p : Pc) (h : p.Settled y.waits) : Begins s y p
  | create (x : Site) (f : Callable) (p : Nat) : Begins s y (.create .assertFlag x f p)
  | startedTwice (h : s.k.started = true) : Begins s y .halted
  | suspendBody (t : Tid) : Begins s y (.suspendBody t)
  | resumeBody (t : Tid) : Begins s y (.resumeBody t)
  | deleteBody (t : Tid) : Begins s y (.deleteBody t)
  | waitBody (g : EventId) (mask : BitVec 32) (all clear : Bool) (ms : TickType) (h : s.k.currentTask ≠ none)
      (hy : y = .waitBits g mask all clear ms) : Begins s y (.waitBody g mask all clear ms)

variable {s s' : Sys} {c : Ctx} {y : Call} {p : Pc}

theorem Begins.left_le (h : s.Begins y p) : p.left ≤ 10 := by
  cases h with
  | settled p h => exact h.left_le.trans (by decide)
  | _ => simp [Pc.left, CreatePhase.left]

theorem Begins.wait {w : Wait} (h : s.Begins y (.yieldWait w)) : y.waits = some w := by
  cases h with
  | settled p h =>
    cases h with
    | wait w h => exact h

theorem setPc_pc (s : Sys) (c : Ctx) (p : Pc) : (s.setPc c p).pc c = p := Function.update_self ..

theorem settle_settled {r : Outcome × Kernel} {ws : Option Wait} (h : r.1.waits = none ∨ r.1.waits = ws) :
    ((s.settle c r).pc c).Settled ws := by
  rw [settle, setPc_pc]
  obtain ⟨o, k⟩ := r
  cases o with
  | ret r y =>
    cases y
    · exact .ret r
    · exact .yield r
  | wait w => exact .wait w ((h.resolve_left (Option.some_ne_none w)).symm)

end Sys

/-! ### What the critical sections leave their caller in -/

section
variable {k : Kernel}

theorem delayMs_waits (ms : TickType) : (Scheduler.delayMs ms k).1.waits = none := by
  unfold Scheduler.delayMs
  simp only
  split
  · rfl
  · split <;> rfl

theorem delayUntil_waits (w : TickType) : (Scheduler.delayUntil w k).1.waits = none := by
  unfold Scheduler.delayUntil
  split
  · rfl
  · simp only
    split <;> rfl

theorem suspendTask_waits (t : Tid) : (Scheduler.suspendTask t k).1.waits = none := by
  unfold Scheduler.suspendTask
  split <;> rfl

theorem resumeTask_waits (t : Tid) : (Scheduler.resumeTask t k).1.waits = none := by
  unfold Scheduler.resumeTask
  split <;> rfl

theorem take_waits (x : SemId) (ms : TickType) :
    (Semaphore.take x ms k).1.waits = none ∨ (Semaphore.take x ms k).1.waits = some (.take x) := by
  unfold Semaphore.take
  split
  · exact .inl rfl
  · split
    · exact .inl rfl
    · split
      · exact .inl rfl
      · exact .inr rfl

theorem lock_waits (m : MutexId) :
    (Mutex.lock m k).1.waits = none ∨ (Mutex.lock m k).1.waits = some (.lock m) := by
  unfold Mutex.lock
  split
  · exact .inl rfl
  · split
    · exact .inl rfl
    · split
      · exact .inl rfl
      · exact .inr rfl

theorem unlock_waits (m : MutexId) : (Mutex.unlock m k).1.waits = none := by
  unfold Mutex.unlock
  split
  · rfl
  · split <;> rfl

theorem sendOrBlock_waits (w : Wait) (ms : TickType) (r : (Bool × Bool) × Kernel) :
    (QueueCore.sendOrBlock w ms r).1.waits = none ∨ (QueueCore.sendOrBlock w ms r).1.waits = some w := by
  unfold QueueCore.sendOrBlock
  split
  · exact .inl rfl
  · split
    · exact .inl rfl
    · simp only
      split
      · exact .inl rfl
      · exact .inr rfl

theorem waitBits_waits (g : EventId) (mask : BitVec 32) (all clear : Bool) (ms : TickType) (t : Tid) :
    (EventGroup.waitBits g mask all clear ms t k).1.waits = none ∨
      (EventGroup.waitBits g mask all clear ms t k).1.waits = some (.bits g mask all clear) := by
  unfold EventGroup.waitBits
  split
  · exact .inl rfl
  · split
    · exact .inl rfl
    · exact .inr rfl

end

/-! ### The edges -/

namespace Sys

variable {s s' : Sys} {c : Ctx}

theorem beginCall_begins (y : Call) : s.Begins y ((s.beginCall c y).pc c) := by
  have hsettle : ∀ r : Outcome × Kernel, r.1.waits = none ∨ r.1.waits = y.waits →
      s.Begins y ((s.settle c r).pc c) :=
    fun r hr => .settled _ (settle_settled hr)
  have hgo : ∀ (k : Kernel) (q : Pc), s.Begins y q → s.Begins y (((s.setK k).setPc c q).pc c) := fun k q hq => by
    rw [setPc_pc]
    exact hq
  have hunit : s.Begins y (.ret .unit) := .settled _ (.ret _)
  cases y with
  | createTask x f p => exact hgo _ _ (.create x f p)
  | start =>
    simp only [beginCall]
    split
    · rename_i hstarted
      exact hgo _ _ (.startedTwice hstarted)
    · exact hgo _ _ (.create ..)
  | delayMs ms => exact hsettle _ (.inl (delayMs_waits ms))
  | delayUntil w => exact hsettle _ (.inl (delayUntil_waits w))
  | suspend t =>
    cases t with
    | none => exact hgo _ _ hunit
    | some t =>
      refine hgo _ _ ?_
      split
      · exact hunit
      · exact .suspendBody t
  | resume t =>
    cases t with
    | none => exact hgo _ _ hunit
    | some t => exact hgo _ _ (.resumeBody t)
  | terminate t =>
    cases t with
    | none => exact hgo _ _ hunit
    | some t =>
      refine hgo _ _ ?_
      split
      · exact hunit
      · exact .deleteBody t
  | yield => exact hgo _ _ (.settled _ (.yield _))
  | take x ms => exact hsettle _ (take_waits x ms)
  | lock m => exact hsettle _ (lock_waits m)
  | unlock m => exact hsettle _ (.inl (unlock_waits m))
  | send q item ms => exact hsettle _ (sendOrBlock_waits ..)
  | receive q ms => exact hsettle _ (sendOrBlock_waits ..)
  | enterCritical => exact hgo _ _ hunit
  | exitCritical => exact hgo _ _ hunit
  | waitBits g mask all clear ms =>
    simp only [beginCall]
    split
    · exact hsettle _ (.inl rfl)
    · split
      · exact hsettle _ (.inl rfl)
      · rename_i t hcur
        have hcur : s.k.currentTask = some t := hcur
        refine hgo _ _ (.waitBody _ _ _ _ _ ?_ rfl)
        rw [hcur]
        exact Option.some_ne_none t
  | _ => exact hsettle _ (.inl rfl)

theorem created_goes (φ : CreatePhase) (x : Site) (f : Callable) (p : Nat) (t : Option Tid) (k : Kernel) :
    (Pc.create φ x f p).Goes ((s.created c x t k).pc c) := by
  unfold created
  split
  · rename_i hx
    subst hx
    rw [setPc_pc]
    exact .idleCreated φ f p
  · rename_i hx
    rw [setPc_pc]
    exact .created φ x f p t hx

theorem advanceCreate_goes (φ : CreatePhase) (x : Site) (f : Callable) (p : Nat) :
    (Pc.create φ x f p).Goes ((s.advanceCreate c φ x f p).pc c) := by
  have hgo : ∀ (s₁ : Sys) (ψ : CreatePhase), φ.left = ψ.left + 1 →
      (Pc.create φ x f p).Goes ((s₁.setPc c (.create ψ x f p)).pc c) := fun s₁ ψ hψ => by
    rw [setPc_pc]
    exact .phase φ ψ x f p hψ
  cases φ with
  | assertFlag => exact hgo _ .testFlag rfl
  | testFlag =>
    simp only [advanceCreate]
    split
    · exact created_goes ..
    · exact hgo _ .setFlag rfl
  | setFlag => exact hgo _ .copy rfl
  | copy => exact hgo _ .alloc rfl
  | alloc =>
    simp only [advanceCreate]
    split
    · exact created_goes ..
    · exact hgo _ (.init _) rfl
  | init t => exact hgo _ (.ready t) rfl
  | ready t =>
    simp only [advanceCreate]
    split <;> exact hgo (s.setK _) (.preempt t) rfl
  | preempt t =>
    simp only [advanceCreate]
    split <;> exact created_goes ..

theorem afterWait_goes (t : Tid) (w : Wait) (k : Kernel) : (Pc.finish w).Goes (afterWait t w k) := by
  unfold afterWait
  cases w with
  | bits g mask all clear =>
    simp only
    split
    · exact .expired _ g
    · exact .finish _ _
  | _ => exact .finish _ _

theorem advance_goes (h : s.advance c = some s') : (s.pc c).Goes (s'.pc c) := by
  unfold advance at h
  cases hpc : s.pc c with
  | user => simp [hpc] at h
  | halted => simp [hpc] at h
  | create φ x f p =>
    simp only [hpc] at h
    cases h
    exact advanceCreate_goes φ x f p
  | startRun =>
    simp only [hpc] at h
    cases h
    rw [setPc_pc]
    exact .startRun
  | startYield =>
    simp only [hpc] at h
    cases h
    exact (setPc_pc s c _).symm ▸ .startYield
  | suspendBody t =>
    simp only [hpc] at h
    cases h
    exact .body _ _ rfl (settle_settled (.inl (suspendTask_waits t)))
  | resumeBody t =>
    simp only [hpc] at h
    cases h
    exact .body _ _ rfl (settle_settled (.inl (resumeTask_waits t)))
  | deleteBody t =>
    simp only [hpc] at h
    cases h
    exact .body _ _ rfl (settle_settled (.inl rfl))
  | waitBody g mask all clear ms =>
    simp only [hpc] at h
    split at h <;> cases h
    exact .body _ _ rfl (settle_settled (waitBits_waits g mask all clear ms _))
  | finish w =>
    simp only [hpc] at h
    split at h <;> cases h
    rw [setPc_pc]
    exact afterWait_goes _ w s.k
  | yield r =>
    simp only [hpc] at h
    cases h
    exact (setPc_pc s c _).symm ▸ .yield r
  | yieldWait w =>
    simp only [hpc] at h
    cases h
    exact (setPc_pc s c _).symm ▸ .yieldWait w
  | reread g =>
    simp only [hpc] at h
    cases h
    rw [settle, setPc_pc]
    exact .reread g _
  | ret r =>
    simp only [hpc] at h
    cases h
    rw [setPc_pc]
    exact .ret r

theorem advance_isSome (huser : s.pc c ≠ .user) (hhalt : s.pc c ≠ .halted)
    (htask : (∃ g mask all clear ms, s.pc c = .waitBody g mask all clear ms) ∨ (∃ w, s.pc c = .finish w) →
      s.k.currentTask ≠ none) : (s.advance c).isSome = true := by
  unfold advance
  cases hpc : s.pc c with
  | user => exact absurd hpc huser
  | halted => exact absurd hpc hhalt
  | waitBody g mask all clear ms =>
    obtain ⟨t, ht⟩ := Option.ne_none_iff_exists'.mp (htask (.inl ⟨g, mask, all, clear, ms, hpc⟩))
    simp only [ht, Option.isSome_some]
  | finish w =>
    obtain ⟨t, ht⟩ := Option.ne_none_iff_exists'.mp (htask (.inr ⟨w, hpc⟩))
    simp only [ht, Option.isSome_some]
  | _ => rfl

/-! ### Runs -/

/-- How many steps of the events are as `what` says. -/
def count (what : Sys → Event → Bool) (s : Sys) : List Event → Nat
  | [] => 0
  | e :: es =>
      (what s e).toNat + match s.step e with
        | some s' => count what s' es
        | none => 0

theorem count_cons {what : Sys → Event → Bool} {e : Event} {es : List Event} (hs : s.step e = some s') :
    s.count what (e :: es) = (what s e).toNat + s'.count what es := by
  rw [count, hs]

/-- A step of `c` inside a call. -/
def advances (c : Ctx) (s : Sys) (e : Event) : Bool := e == .advance && s.k.self == c

/-- A call that `c` makes. -/
def begins (c : Ctx) (s : Sys) : Event → Bool
  | .call _ => s.k.self == c
  | _ => false

end Sys

section
variable {config : Config} {s s' : Sys} {a : Abs} {e : Event} {c : Ctx}

/-- The steps of a call use up what is left of it. -/
theorem Inv.left_step (h : Inv s a) (hs : s.step e = some s') :
    (s.advances c e).toNat + (s'.pc c).left ≤ (s.pc c).left + 10 * (s.begins c e).toNat := by
  by_cases hc : c = (s.visit e s').ctx
  case neg =>
    have hnot : s.advances c e = false := by
      cases e with
      | advance => exact beq_eq_false_iff_ne.mpr fun heq => hc heq.symm
      | _ => rfl
    rw [h.pc_step hs hc, hnot]
    exact (Nat.zero_add _).symm ▸ Nat.le_add_right _ _
  case pos =>
    cases e with
    | call y =>
      obtain ⟨-, -, -, -, -, rfl⟩ := Sys.step_call.mp hs
      have hself : c = s.k.self := hc
      have hbegins : s.begins c (.call y) = true := beq_iff_eq.mpr hself.symm
      have hleft := (Sys.beginCall_begins (s := s) (c := c) y).left_le
      have hnot : s.advances c (.call y) = false := rfl
      rw [hbegins, hnot, ← hself, Bool.toNat_true, Bool.toNat_false]
      omega
    | advance =>
      obtain ⟨-, -, hadv⟩ := Sys.step_advance.mp hs
      have hself : c = s.k.self := hc
      rw [← hself] at hadv
      have hleft := (Sys.advance_goes hadv).left_lt
      have := Bool.toNat_le (s.advances c .advance)
      omega
    | tick =>
      obtain ⟨-, -, -, rfl⟩ := Sys.step_tick.mp hs
      exact (Nat.zero_add _).le
    | isr y z =>
      obtain ⟨-, -, -, -, rfl⟩ := Sys.step_isr.mp hs
      exact (Nat.zero_add _).le
    | pendSV psp =>
      obtain ⟨-, -, -, rfl⟩ := Sys.step_pendSV.mp hs
      exact (Nat.zero_add _).le

theorem Reachable.left_run {es : List Event} (h : Reachable config s) (hrun : s.run es = some s') (c : Ctx) :
    s.count (Sys.advances c) es + (s'.pc c).left ≤ (s.pc c).left + 10 * s.count (Sys.begins c) es := by
  induction es generalizing s with
  | nil =>
    cases hrun
    exact (Nat.zero_add _).le
  | cons e es ih =>
    obtain ⟨s₁, hs, hrun⟩ := Sys.run_cons hrun
    obtain ⟨a, htracks⟩ := h.tracks
    have hstep := htracks.inv.left_step (c := c) hs
    have hrest := ih (h.step e hs) hrun
    rw [Sys.count_cons hs, Sys.count_cons hs]
    omega

/-- `main()` does not wait for bits: before `start()` the call is refused. -/
theorem Reachable.main_waits_not (h : Reachable config s) (g : EventId) (mask : BitVec 32) (all clear : Bool)
    (ms : TickType) : s.pc .main ≠ .waitBody g mask all clear ms := by
  induction h with
  | init => exact Pc.noConfusion
  | step e hr hs ih =>
    rename_i s s'
    intro hpc
    obtain ⟨a, htracks⟩ := hr.tracks
    by_cases hc : .main = (s.visit e s').ctx
    case neg => exact ih ((htracks.inv.pc_step hs hc).symm.trans hpc)
    case pos =>
      cases e with
      | call y =>
        obtain ⟨-, -, -, -, -, rfl⟩ := Sys.step_call.mp hs
        have hself : .main = s.k.self := hc
        rw [← hself] at hpc
        have hbegins := Sys.beginCall_begins (s := s) (c := .main) y
        rw [hpc] at hbegins
        cases hbegins with
        | settled p h => cases h
        | waitBody g mask all clear ms hcur hy =>
          obtain ⟨t, ht⟩ := Option.ne_none_iff_exists'.mp hcur
          rw [Core.self, ht] at hself
          cases hself
      | advance =>
        obtain ⟨-, -, hadv⟩ := Sys.step_advance.mp hs
        have hself : .main = s.k.self := hc
        have hgoes := (Sys.advance_goes hadv).not_body
        rw [← hself, hpc] at hgoes
        cases hgoes
      | _ => cases hc

theorem Reachable.goes_on (h : Reachable config s) (hfault : s.k.fault = none) (hcan : s.canRun = true)
    (huser : s.pc s.k.self ≠ .user) (hhalt : s.pc s.k.self ≠ .halted) : ∃ s', s.step .advance = some s' := by
  obtain ⟨a, htracks⟩ := h.tracks
  have htask : (∃ g mask all clear ms, s.pc s.k.self = .waitBody g mask all clear ms) ∨
      (∃ w, s.pc s.k.self = .finish w) → s.k.currentTask ≠ none := by
    intro hpc hcur
    have hself : s.k.self = .main := by rw [Core.self, hcur]
    rcases hpc with ⟨g, mask, all, clear, ms, hpc⟩ | ⟨w, hpc⟩
    · exact h.main_waits_not g mask all clear ms (hself ▸ hpc)
    · have hsaid := htracks.told.1 s.k.self
      rw [hpc, hself] at hsaid
      obtain ⟨t, -, ht, -⟩ := hsaid
      cases ht
  obtain ⟨s', hadv⟩ := Option.isSome_iff_exists.mp (Sys.advance_isSome huser hhalt htask)
  exact ⟨s', Sys.step_advance.mpr ⟨hfault, hcan, hadv⟩⟩

/-- A call ends after at most ten steps of its own, whatever happens in between; and as long as the kernel has not
stopped, the running context can make its next step, unless a context switch comes first, it is in user code, or it
sleeps for ever behind `start()`. -/
theorem calls_end {es : List Event} (h : Reachable config s) (hrun : s.run es = some s') (c : Ctx) :
    s.count (Sys.advances c) es + (s'.pc c).left ≤ (s.pc c).left + 10 * s.count (Sys.begins c) es ∧
      (s'.k.fault = none → (∀ psp, ∃ s₁, s'.step (.pendSV psp) = some s₁) ∨ s'.pc s'.k.self = .user ∨
        s'.pc s'.k.self = .halted ∨ ∃ s₁, s'.step .advance = some s₁) := by
  refine ⟨h.left_run hrun c, fun hfault => ?_⟩
  by_cases hcan : s'.canRun = true
  case neg =>
    have hpend : s'.cs = 0 ∧ s'.pend = true := by simpa [Sys.canRun] using hcan
    exact .inl fun psp => ⟨_, Sys.step_pendSV.mpr ⟨hfault, hpend.2, hpend.1, rfl⟩⟩
  case pos =>
    by_cases huser : s'.pc s'.k.self = .user
    · exact .inr (.inl huser)
    · by_cases hhalt : s'.pc s'.k.self = .halted
      · exact .inr (.inr (.inl hhalt))
      · exact .inr (.inr (.inr ((h.run hrun).goes_on hfault hcan huser hhalt)))

/-- The task that delays itself has made one step of its call, and gives up the CPU next. -/
theorem calls_end_sleep : ∃ s, (Sys.init .small).run Sys.sleepRun = some s ∧
    (Sys.init .small).count (Sys.advances (.task 0)) Sys.sleepRun = 1 ∧ (s.pc (.task 0)).left ≤ 9 ∧
    ∀ psp, ∃ s₁, s.step (.pendSV psp) = some s₁ := by
  have hrun : ((Sys.init .small).run Sys.sleepRun).map
      (fun s => (s.k.fault, s.k.currentTask, s.pc (.task 0), s.canRun)) =
      some (none, some 0, .ret .unit, false) := by decide +kernel
  have hcount : (Sys.init .small).count (Sys.advances (.task 0)) Sys.sleepRun = 1 ∧
      (Sys.init .small).count (Sys.begins (.task 0)) Sys.sleepRun = 1 := by decide +kernel
  obtain ⟨s, hs, hstate⟩ := Option.map_eq_some_iff.mp hrun
  simp only [Prod.mk.injEq] at hstate
  obtain ⟨hfault, hcur, hpc, hcan⟩ := hstate
  have hself : s.k.self = .task 0 := by rw [Core.self, hcur]
  obtain ⟨hleft, hgo⟩ := calls_end Reachable.init hs (.task 0)
  rw [hcount.1, hcount.2] at hleft
  have hzero : ((Sys.init .small).pc (.task 0)).left = 0 := rfl
  refine ⟨s, hs, hcount.1, by omega, ?_⟩
  rcases hgo hfault with hpend | hpc' | hpc' | ⟨s₁, hs₁⟩
  · exact hpend
  · rw [hself, hpc] at hpc'
    cases hpc'
  · rw [hself, hpc] at hpc'
    cases hpc'
  · rw [(Sys.step_advance.mp hs₁).2.1] at hcan
    cases hcan

end

end AcRtos
