import AcRtos.Sections

/-!
# Parking

What a section leaves behind whose caller goes on to wait for a semaphore, a queue or event bits: the caller is parked
with its request, and its timeout runs unless it waits for ever.
-/

namespace AcRtos

open Abs

/-- The section that ended in `k'` has parked `t` on `w` with the timeout `ms`. -/
structure Abs.Parks (a : Abs) (t : Tid) (w : Wait) (ms : TickType) (k' : Kernel) : Prop where
  no_lock : ∀ m, w ≠ .lock m
  enabled : (Action.park w t (Rep.timeoutTicks a.config ms)).Enabled a
  rep : Rep k' (a.block w t (Rep.timeoutTicks a.config ms))

/-- Only a wait for a mutex lifts anybody. -/
theorem Abs.Parks.apply_eq {a : Abs} {t : Tid} {w : Wait} {ms : TickType} {k' : Kernel} (h : a.Parks t w ms k') :
    (Action.park w t (Rep.timeoutTicks a.config ms)).apply a = a.block w t (Rep.timeoutTicks a.config ms) := by
  have hboost : a.boost w t = a := by
    cases w with
    | lock m => exact absurd rfl (h.no_lock m)
    | _ => rfl
  rw [Action.apply, Abs.park, hboost]

namespace Rep

variable {k k' : Kernel} {a : Abs} {t : Tid} {w w' : Wait} {ms : TickType} {q : QueueId} {p : Ctx}

theorem parks (h : Rep k a) (hwf : a.WF) (ht : a.currentTask = some t) (hr : (a.tcb t).state = .running)
    (hw : ∀ m, w ≠ .lock m) (hblocks : w.Blocks a t) (hms : ms ≠ 0) :
    a.Parks t w ms (WaitQueue.startTimeout t ms (WaitQueue.park w.list t (k.core (·.setTask t (w.request t))))) :=
  ⟨hw, (park_acts h hwf ht hr w hw hblocks hms).1, h.block hwf hr w ms⟩

theorem take_parks (h : Rep k a) (hwf : a.WF) (ht : a.currentTask = some t) (hr : (a.tcb t).state = .running)
    {s : SemId} (hwait : (Semaphore.take s ms k).1 = .wait w) : a.Parks t w ms (Semaphore.take s ms k).2 := by
  unfold Semaphore.take at hwait ⊢
  rw [h.core_eq, ht] at hwait ⊢
  split at hwait
  · cases hwait
  · rename_i hms
    split at hwait
    · cases hwait
    · rename_i hcount
      cases hwait
      rw [if_neg hms, if_neg hcount]
      refine h.parks hwf ht hr (w := .take s) (by simp) ?_ hms
      show a.count s = 0
      bv_omega

theorem trySendLocked_fails (h : Rep k a) (hwf : a.WF) (hstarved : a.Starved)
    (hb : (QueueCore.trySendLocked q p k).1.1 = false) :
    (QueueCore.trySendLocked q p k).2 = k ∧ ∀ t, (Wait.send q).Blocks a t := by
  obtain ⟨hk, hnil, hfull⟩ := (trySendLocked_leads (v := ⟨.call, p, false, .user, .user, true⟩) _ h hwf hstarved
    rfl fun _ => rfl).2.2 hb
  exact ⟨hk, fun _ => ⟨hnil, hfull⟩⟩

theorem tryReceiveLocked_fails (h : Rep k a) (hwf : a.WF) (hb : (QueueCore.tryReceiveLocked q p k).1.1 = false) :
    (QueueCore.tryReceiveLocked q p k).2 = k ∧ ∀ t, (Wait.receive q).Blocks a t := by
  obtain ⟨hk, hz⟩ := (tryReceiveLocked_leads (v := ⟨.call, p, false, .user, .user, true⟩) _ h hwf rfl
    fun _ => rfl).2.2 hb
  exact ⟨hk, fun _ => hz⟩

theorem sendOrBlock_parks (h : Rep k a) (hwf : a.WF) (ht : a.currentTask = some t) (hr : (a.tcb t).state = .running)
    (hw : ∀ m, w ≠ .lock m)
    (hreq : ∀ t c, w.request t c = { c with xferPtr := some (.task t), timeoutExpired := false })
    {r : (Bool × Bool) × Kernel} (hfail : r.1.1 = false → r.2 = k ∧ ∀ t, w.Blocks a t)
    (hwait : (QueueCore.sendOrBlock w ms r).1 = .wait w') :
    w' = w ∧ a.Parks t w ms (QueueCore.sendOrBlock w ms r).2 := by
  unfold QueueCore.sendOrBlock at hwait ⊢
  split at hwait
  · cases hwait
  · rename_i hb
    obtain ⟨hk, hblocks⟩ := hfail (by simpa using hb)
    split at hwait
    · cases hwait
    · rename_i hms
      have hself : a.self = .task t := by simp [Core.self, ht]
      have hpark := h.parks hwf ht hr hw (hblocks t) hms
      rw [show w.request t = fun c => { c with xferPtr := some (.task t), timeoutExpired := false } from
        funext (hreq t)] at hpark
      rw [if_neg hb, if_neg hms, hk]
      rw [hk] at hwait
      unfold QueueCore.blockCurrentLocked at hwait ⊢
      rw [h.core_eq] at hwait ⊢
      simp only [ht, hself, Outcome.wait.injEq] at hwait ⊢
      exact ⟨hwait.symm, hpark⟩

theorem send_parks (h : Rep k a) (hwf : a.WF) (hstarved : a.Starved) (ht : a.currentTask = some t)
    (hr : (a.tcb t).state = .running) (hwait : (QueueCore.send q ms k).1 = .wait w) :
    a.Parks t w ms (QueueCore.send q ms k).2 := by
  obtain ⟨rfl, hp⟩ := h.sendOrBlock_parks hwf ht hr (w := .send q) (by simp) (fun _ _ => rfl)
    (h.trySendLocked_fails hwf hstarved) hwait
  exact hp

theorem receive_parks (h : Rep k a) (hwf : a.WF) (ht : a.currentTask = some t) (hr : (a.tcb t).state = .running)
    (hwait : (QueueCore.receive q ms k).1 = .wait w) : a.Parks t w ms (QueueCore.receive q ms k).2 := by
  obtain ⟨rfl, hp⟩ := h.sendOrBlock_parks hwf ht hr (w := .receive q) (by simp) (fun _ _ => rfl)
    (h.tryReceiveLocked_fails hwf) hwait
  exact hp

theorem waitBits_parks (h : Rep k a) (hwf : a.WF) (ht : a.currentTask = some t) (hr : (a.tcb t).state = .running)
    {g : EventId} {mask : BitVec 32} {waitAll clear : Bool}
    (hwait : (EventGroup.waitBits g mask waitAll clear ms t k).1 = .wait w) :
    a.Parks t w ms (EventGroup.waitBits g mask waitAll clear ms t k).2 := by
  unfold EventGroup.waitBits at hwait ⊢
  rw [h.core_eq] at hwait ⊢
  split at hwait
  · cases hwait
  · rename_i hblocks
    split at hwait
    · cases hwait
    · rename_i hms
      cases hwait
      rw [if_neg hblocks, if_neg hms]
      exact h.parks hwf ht hr (w := .bits g mask waitAll clear) (by simp) (by simpa [Wait.Blocks] using hblocks) hms

end Rep

end AcRtos
