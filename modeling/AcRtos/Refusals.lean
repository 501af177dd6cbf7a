import AcRtos.QueueWaits

/-!
# Refused calls

A call that is refused without waiting returns failure and changes nothing of the kernel: the history and the
caller's own buffer apart, the kernel after it is the kernel before it, and with the assertions compiled in it
may stop there. The one exception is `unlock()` of a free mutex by a context that is no task: null equals null,
so the call passes the owner test and dereferences the null task.
-/

namespace AcRtos

open Abs

namespace Call

/-- The IPC call of the running context from its entry to the end of its first critical section. -/
def enter (k : Kernel) : Call → Outcome × Kernel
  | .take s timeoutMs => Semaphore.take s timeoutMs k
  | .tryTake s =>
      let r := Semaphore.tryTake s k.self k
      (.ret (.bool r.1) false, r.2)
  | .lock m => Mutex.lock m k
  | .unlock m => Mutex.unlock m k
  | .send q item timeoutMs =>
      QueueCore.send q timeoutMs (k.core (·.setFrame k.self fun f => { f with item := item }))
  | .receive q timeoutMs => QueueCore.receive q timeoutMs k
  | .waitBits g mask waitAll clearOnExit timeoutMs =>
      if mask = 0 then EventGroup.readBits g k
      else
        match k.currentTask with
        | none => EventGroup.readBits g (k.check .waitBitsBeforeStart false)
        | some t => EventGroup.waitBits g mask waitAll clearOnExit timeoutMs t
            (k.core (·.setFrame k.self fun f => { f with bits := 0 }))
  | _ => (.ret .unit false, k)

/-- The call finds nothing to take and may not wait, or its caller may not make it. -/
def Refused (k : Kernel) : Call → Prop
  | .take s timeoutMs => k.count s = 0 ∧ (timeoutMs = 0 ∨ k.currentTask = none)
  | .tryTake s => k.count s = 0
  | .lock m => k.currentTask = none ∨ k.owner m = k.currentTask
  | .unlock m => k.currentTask = none ∨ k.owner m ≠ k.currentTask
  | .send q _ timeoutMs => (k.ring q).count = k.config.capacity q ∧ (timeoutMs = 0 ∨ k.currentTask = none)
  | .receive q timeoutMs => (k.ring q).count = 0 ∧ (timeoutMs = 0 ∨ k.currentTask = none)
  | .waitBits g mask waitAll _ timeoutMs =>
      EventGroup.bitsSatisfy (k.currentBits g) mask waitAll = false ∧ (timeoutMs = 0 ∨ k.currentTask = none)
  | _ => False

/-- What a refused call returns. -/
def failure (k : Kernel) : Call → Ret
  | .waitBits g _ _ _ _ => .bits (k.currentBits g)
  | _ => .bool false

end Call

namespace IsrCall

def Refused (k : Kernel) : IsrCall → Prop
  | .tryTakeFromIsr s => k.count s = 0
  | .sendFromIsr q _ => (k.ring q).count = k.config.capacity q
  | .receiveFromIsr q => (k.ring q).count = 0
  | _ => False

end IsrCall

namespace Kernel

/-- The kernel without the history, the buffers of the callers and the fault. -/
def fields (k : Kernel) : Kernel := k.core fun e => { e with trace := [], frame := fun _ => {}, fault := none }

/-- Nothing has changed, though an assertion may have stopped the machine. -/
structure Unchanged (k k' : Kernel) : Prop where
  fields : k'.fields = k.fields
  fault : k'.fault = k.fault ∨ k.config.useAssert = true ∧ ∃ x, k'.fault = some (.assert x)

/-- The call returns failure and changes nothing. -/
def RefusesCleanly (k : Kernel) : Request → Prop
  | .inl c => (c.enter k).1 = .ret (c.failure k) false ∧ k.Unchanged (c.enter k).2
  | .inr c => (Sys.isrCall c k).1 = (.bool false, false) ∧ k.Unchanged (Sys.isrCall c k).2

variable {k k' k'' : Kernel}

theorem Unchanged.refl (k : Kernel) : k.Unchanged k := ⟨rfl, Or.inl rfl⟩

theorem Unchanged.check (h : k.Unchanged k') (hconfig : k'.config = k.config) (x : Assertion) (b : Bool) :
    k.Unchanged (k'.check x b) := by
  rw [check_eq]
  by_cases hfail : (k.config.useAssert && !b) = true
  · have hcheck : k'.toCore.check x b = k'.toCore.fail (.assert x) := by
      rw [Core.check, hconfig, if_pos hfail]
    refine ⟨?_, ?_⟩
    · rw [← h.fields]
      simp only [Kernel.fields, core, hcheck]
      rfl
    · rw [core_toCore, hcheck]
      cases hf : k'.fault with
      | none => exact Or.inr ⟨(Bool.and_eq_true_iff.mp hfail).1, x, by simp [hf]⟩
      | some y =>
        have hfault := h.fault
        rw [hf] at hfault
        simpa [Core.fail, hf] using hfault
  · have hcheck : k'.toCore.check x b = k'.toCore := by rw [Core.check, hconfig, if_neg hfail]
    refine ⟨?_, ?_⟩
    · rw [← h.fields]
      simp only [Kernel.fields, core, hcheck]
    · rw [core_toCore, hcheck]
      exact h.fault

theorem unchanged_setFrame (k : Kernel) (c : Ctx) (f : Frame → Frame) : k.Unchanged (k.core (·.setFrame c f)) :=
  ⟨rfl, Or.inl rfl⟩

theorem unchanged_read (h : k.Unchanged k') (g : EventId) (c : Ctx) :
    k.Unchanged (k'.core (EventGroup.consume g c 0 false)) :=
  ⟨h.fields, h.fault⟩

end Kernel

section
variable {k : Kernel} {a : Abs}

theorem sendOrBlock_refused {w : Wait} {ms : TickType} {k k' : Kernel} (hk : k.Unchanged k')
    (hconfig : k'.config = k.config) (hcur : k'.currentTask = k.currentTask)
    (hms : ms = 0 ∨ k.currentTask = none) :
    (QueueCore.sendOrBlock w ms ((false, false), k')).1 = .ret (.bool false) false ∧
      k.Unchanged (QueueCore.sendOrBlock w ms ((false, false), k')).2 := by
  unfold QueueCore.sendOrBlock
  by_cases hz : ms = 0
  · simpa [hz] using hk
  · have hnone := hcur.trans (hms.resolve_left hz)
    simp only [Bool.false_eq_true, if_false, if_neg hz, QueueCore.blockCurrentLocked, hnone]
    exact ⟨trivial, hk.check hconfig _ _⟩

theorem take_refused {s : SemId} {ms : TickType} (hz : k.count s = 0) (hms : ms = 0 ∨ k.currentTask = none) :
    k.RefusesCleanly (.inl (.take s ms)) := by
  show (Semaphore.take s ms k).1 = _ ∧ k.Unchanged (Semaphore.take s ms k).2
  unfold Semaphore.take
  by_cases hms0 : ms = 0
  · simp only [if_pos hms0, Semaphore.tryTake, if_pos hz]
    exact ⟨rfl, .refl k⟩
  · have hnone := hms.resolve_left hms0
    have hpos : ¬ k.count s > 0 := by rw [hz]; decide
    simp only [if_neg hms0, if_neg hpos, hnone]
    exact ⟨rfl, (Kernel.Unchanged.refl k).check rfl _ _⟩

theorem lock_refused {m : MutexId} (h : k.currentTask = none ∨ k.owner m = k.currentTask) :
    k.RefusesCleanly (.inl (.lock m)) := by
  show (Mutex.lock m k).1 = _ ∧ k.Unchanged (Mutex.lock m k).2
  unfold Mutex.lock
  cases hcur : k.currentTask with
  | none => exact ⟨rfl, (Kernel.Unchanged.refl k).check rfl _ _⟩
  | some t =>
    have howner := (h.resolve_left (by simp [hcur])).trans hcur
    simp only [howner, if_true]
    exact ⟨rfl, (Kernel.Unchanged.refl k).check rfl _ _⟩

theorem unlock_refused {m : MutexId} (h : k.owner m ≠ k.currentTask) : k.RefusesCleanly (.inl (.unlock m)) := by
  show (Mutex.unlock m k).1 = _ ∧ k.Unchanged (Mutex.unlock m k).2
  rw [Mutex.unlock, if_pos (Ne.symm h)]
  exact ⟨rfl, (Kernel.Unchanged.refl k).check rfl _ _⟩

theorem waitBits_refused {g : EventId} {mask : BitVec 32} {all clear : Bool} {ms : TickType}
    (hunmet : EventGroup.bitsSatisfy (k.currentBits g) mask all = false) (hms : ms = 0 ∨ k.currentTask = none) :
    k.RefusesCleanly (.inl (.waitBits g mask all clear ms)) := by
  show (Call.enter k (.waitBits g mask all clear ms)).1 = _ ∧
    k.Unchanged (Call.enter k (.waitBits g mask all clear ms)).2
  simp only [Call.enter]
  by_cases hmask : mask = 0
  · rw [if_pos hmask]
    exact ⟨rfl, Kernel.unchanged_read (.refl k) g _⟩
  · rw [if_neg hmask]
    cases hcur : k.currentTask with
    | none =>
      have hchecked := (Kernel.Unchanged.refl k).check rfl .waitBitsBeforeStart false
      have hbits : (k.check .waitBitsBeforeStart false).currentBits = k.currentBits :=
        (Rep.quiet_check .waitBitsBeforeStart false k.toCore).currentBits
      simp only [EventGroup.readBits, hbits]
      exact ⟨rfl, Kernel.unchanged_read hchecked g _⟩
    | some t =>
      have hz := hms.resolve_right (by simp [hcur])
      have hframe := Kernel.unchanged_setFrame k k.self fun f => { f with bits := 0 }
      simp only [EventGroup.waitBits, Kernel.core_toCore, Core.setFrame_currentBits, hunmet, hz, if_true,
        Bool.false_eq_true, if_false]
      exact ⟨rfl, Kernel.unchanged_read hframe g _⟩

theorem unlock_free {m : MutexId} (hcur : k.currentTask = none) (howner : k.owner m = none) :
    ¬ k.RefusesCleanly (.inl (.unlock m)) := by
  rintro ⟨hret, -⟩
  have hfree : (Call.enter k (.unlock m)).1 = .ret (.bool true) false := by
    show (Mutex.unlock m k).1 = _
    simp [Mutex.unlock, hcur, howner]
  rw [hfree] at hret
  cases hret

theorem Abs.Starved.receivers_nil (h : a.Starved) (hwf : a.WF) {q : QueueId}
    (hfull : (a.ring q).count = a.config.capacity q) : a.seq (.wait (.receivers q)) = [] := by
  by_contra hne
  obtain ⟨t, ht⟩ := List.exists_mem_of_ne_nil _ hne
  have hz := h.receivers q t (hwf.mem_wait.mp ht).2
  have := a.config.capacity_pos q
  omega

end

/-- The machine runs a refused call as `Call.enter` has it; `wait_bits` takes two steps. -/
theorem beginCall_eq_enter (s : Sys) {x : Call} (hx : x.Refused s.k)
    (hbits : ∀ g mask all clear ms, x ≠ .waitBits g mask all clear ms) :
    s.beginCall s.k.self x = s.settle s.k.self (x.enter (s.k.emit (.call s.k.self x))) := by
  cases x with
  | waitBits g mask all clear ms => exact absurd rfl (hbits g mask all clear ms)
  | take y ms => rfl
  | tryTake y => rfl
  | lock m => rfl
  | unlock m => rfl
  | send q item ms => rfl
  | receive q ms => rfl
  | _ => exact hx.elim

/-- A refused IPC call returns failure and leaves the kernel as it was, except an `unlock()` by a context that
is no task of a mutex that nobody owns. -/
theorem refused_calls {config : Config} {s : Sys} (h : Reachable config s) (x : Request)
    (hx : x.elim (Call.Refused s.k) (IsrCall.Refused s.k)) :
    s.k.RefusesCleanly x ↔ ∀ m, x = .inl (.unlock m) → s.k.currentTask = none → s.k.owner m ≠ none := by
  constructor
  · rintro hclean m rfl hcur howner
    exact unlock_free hcur howner hclean
  intro hfree
  obtain ⟨a, htracks⟩ := h.tracks
  have hi := htracks.inv
  have hcore := hi.rep.core_eq
  -- an attempt on a full or an empty queue
  have hfull : ∀ {k : Kernel} {b : Abs} {q : QueueId}, Rep k b → b.WF → b.Starved →
      (k.ring q).count = k.config.capacity q → ∀ p, QueueCore.trySendLocked q p k = ((false, false), k) := by
    intro k b q hrep hwf hs hq p
    rw [hrep.core_eq] at hq
    exact trySendLocked_full hrep (hs.receivers_nil hwf hq) hq p
  have hempty : ∀ {q : QueueId}, (s.k.ring q).count = 0 → ∀ p, QueueCore.tryReceiveLocked q p s.k =
      ((false, false), s.k) := fun hq p => tryReceiveLocked_empty hi.rep (by rwa [hcore] at hq) p
  have hframed : ∀ {c : Ctx} {f : Frame → Frame}, (a.core (·.setFrame c f)).WF ∧
      (a.core (·.setFrame c f)).Starved :=
    fun {c f} =>
      have hen : (Action.data (.frame c f)).Enabled a := trivial
      ⟨hi.wf.apply hen, hi.starved.apply hi.wf hen⟩
  cases x with
  | inl c =>
    cases c with
    | take y ms => exact take_refused hx.1 hx.2
    | tryTake y =>
      show (Call.enter s.k (.tryTake y)).1 = _ ∧ s.k.Unchanged (Call.enter s.k (.tryTake y)).2
      have hz : s.k.count y = 0 := hx
      simp only [Call.enter, Semaphore.tryTake, if_pos hz]
      exact ⟨rfl, .refl _⟩
    | lock m => exact lock_refused hx
    | unlock m =>
      refine unlock_refused fun howner => ?_
      rcases hx with hcur | hne
      · exact hfree m rfl hcur (howner.trans hcur)
      · exact hne howner
    | send q item ms =>
      show (Call.enter s.k (.send q item ms)).1 = _ ∧ s.k.Unchanged (Call.enter s.k (.send q item ms)).2
      simp only [Call.enter, QueueCore.send]
      rw [hfull (hi.rep.core (·.setFrame s.k.self fun f => { f with item := item })) hframed.1 hframed.2 hx.1]
      exact sendOrBlock_refused (Kernel.unchanged_setFrame _ _ _) rfl rfl hx.2
    | receive q ms =>
      show (Call.enter s.k (.receive q ms)).1 = _ ∧ s.k.Unchanged (Call.enter s.k (.receive q ms)).2
      simp only [Call.enter, QueueCore.receive]
      rw [hempty hx.1]
      exact sendOrBlock_refused (.refl _) rfl rfl hx.2
    | waitBits g mask all clear ms => exact waitBits_refused hx.1 hx.2
    | _ => exact hx.elim
  | inr c =>
    cases c with
    | tryTakeFromIsr y =>
      show (Sys.isrCall (.tryTakeFromIsr y) s.k).1 = _ ∧ s.k.Unchanged (Sys.isrCall (.tryTakeFromIsr y) s.k).2
      have hz : s.k.count y = 0 := hx
      simp only [Sys.isrCall, Semaphore.tryTakeFromIsr, Semaphore.tryTake, if_pos hz]
      exact ⟨trivial, .refl _⟩
    | sendFromIsr q item =>
      show (Sys.isrCall (.sendFromIsr q item) s.k).1 = _ ∧ s.k.Unchanged (Sys.isrCall (.sendFromIsr q item) s.k).2
      simp only [Sys.isrCall, QueueCore.sendFromIsr]
      rw [hfull (hi.rep.core (·.setFrame .isr fun f => { f with item := item })) hframed.1 hframed.2 hx]
      exact ⟨rfl, Kernel.unchanged_setFrame _ _ _⟩
    | receiveFromIsr q =>
      show (Sys.isrCall (.receiveFromIsr q) s.k).1 = _ ∧ s.k.Unchanged (Sys.isrCall (.receiveFromIsr q) s.k).2
      simp only [Sys.isrCall, QueueCore.receiveFromIsr]
      rw [hempty hx]
      exact ⟨rfl, .refl _⟩
    | _ => exact hx.elim

/-- Before `start()` there is no current task and every mutex is free. -/
theorem refused_unlock_fails : Reachable .small (Sys.init .small) ∧
    Call.Refused (Sys.init .small).k (.unlock 0) ∧
    (Call.enter (Sys.init .small).k (.unlock 0)).1 = .ret (.bool true) false ∧
    (Call.enter (Sys.init .small).k (.unlock 0)).2.fault = some .nullDeref ∧
    ¬ (Sys.init .small).k.RefusesCleanly (.inl (.unlock 0)) :=
  ⟨.init, Or.inl rfl, rfl, rfl, unlock_free rfl rfl⟩

/-- A task locks a mutex. -/
def Sys.ownerRun : List Event := createRun 1 2 ++ createRun 2 1 ++ startRun ++ [.call (.lock 0), .advance]

/-- The owner may not lock it again; while it sleeps, another task may not unlock it and finds a semaphore empty. -/
theorem refused_calls_owner : ∃ s s', Sys.run (Sys.init .small) Sys.ownerRun = some s ∧
    s.k.owner 0 = some 0 ∧ s.k.RefusesCleanly (.inl (.lock 0)) ∧
    s.run [.call (.delayMs 5), .advance, .pendSV 0] = some s' ∧ s'.k.currentTask = some 1 ∧
    s'.k.RefusesCleanly (.inl (.unlock 0)) ∧ s'.k.RefusesCleanly (.inl (.take 0 0)) := by
  have hrun : ((Sys.run (Sys.init .small) Sys.ownerRun).bind fun s =>
      (s.run [.call (.delayMs 5), .advance, .pendSV 0]).map fun s' =>
        (s.k.owner 0, s.k.currentTask, s'.k.owner 0, s'.k.currentTask, s'.k.count 0)) =
      some (some 0, some 0, some 0, some 1, 0) := by decide +kernel
  obtain ⟨s, hs, hbind⟩ := Option.bind_eq_some_iff.mp hrun
  obtain ⟨s', hs', hstate⟩ := Option.map_eq_some_iff.mp hbind
  simp only [Prod.mk.injEq] at hstate
  obtain ⟨howner, hcur, howner', hcur', hcount⟩ := hstate
  have hreach := Reachable.run .init hs
  have hreach' := hreach.run hs'
  have hlock : Call.Refused s.k (.lock 0) := Or.inr (howner.trans hcur.symm)
  have hunlock : Call.Refused s'.k (.unlock 0) := Or.inr (by rw [howner', hcur']; decide)
  have htake : Call.Refused s'.k (.take 0 0) := ⟨hcount, Or.inl rfl⟩
  refine ⟨s, s', hs, howner, (refused_calls hreach (.inl (.lock 0)) hlock).mpr nofun, hs', hcur',
    (refused_calls hreach' (.inl (.unlock 0)) hunlock).mpr fun _ _ hnone => ?_,
    (refused_calls hreach' (.inl (.take 0 0)) htake).mpr nofun⟩
  rw [hcur'] at hnone
  cases hnone

end AcRtos
