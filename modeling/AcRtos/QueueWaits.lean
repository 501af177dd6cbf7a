import AcRtos.WaitTurns

/-!
# Who waits at a queue

`Abs.Starved` on the machine: a queue with a parked receiver is empty, and one with a parked sender is full.
Both the hand-off in `try_send_locked` and the back-fill in `try_receive_locked` rest on this, and it leaves a
newcomer nothing to take in front of a parked task: its attempt fails, and if it parks it goes behind all
waiters of at least its priority.
-/

namespace AcRtos

open Lib Abs

section
variable {config : Config} {good : Sys → Event → Prop} {s s' : Sys} {a a' : Abs}

theorem Tracks.config_eq (h : Tracks config good s a) : a.config = config := by
  induction h with
  | init => rfl
  | step e h hg hs hruns hinv ih => exact (hruns.passes h.inv.wf).config.trans ih

theorem Runs.sane {v : Visit} {acts : List Action} (h : Runs v a acts a') (hwf : a.WF) (hs : a.Starved)
    (hsane : a.Sane) : a'.Sane :=
  h.keeps_starved hwf hs hsane fun _ _ hwf hs hsane he _ => hsane.apply hwf hs he

theorem Tracks.sane (h : Tracks config good s a) : a.Sane := by
  induction h with
  | init => exact nofun
  | step e h hg hs hruns hinv ih => exact hruns.sane h.inv.wf h.inv.starved ih

/-- What stops the machine is never an assertion about the kernel's own lists. -/
theorem Reachable.fault_expected (h : Reachable config s) {x : Fault} (hx : s.k.fault = some x) :
    x.expected = true := by
  obtain ⟨a, htracks⟩ := h.tracks
  exact htracks.sane x (by rw [← hx, htracks.inv.rep.core_eq])

theorem wakeHighest_ring (w : WaitId) (k : Kernel) :
    (WaitQueue.wakeHighest w k).2.ring = k.ring ∧ (WaitQueue.wakeHighest w k).2.config = k.config := by
  unfold WaitQueue.wakeHighest
  simp only
  split <;> exact ⟨rfl, rfl⟩

theorem trySendLocked_full {k : Kernel} (h : Rep k a) {q : QueueId} (hnil : a.seq (.wait (.receivers q)) = [])
    (hfull : (a.ring q).count = a.config.capacity q) (p : Ctx) :
    QueueCore.trySendLocked q p k = ((false, false), k) := by
  unfold QueueCore.trySendLocked
  rw [h.wakeHighest_nil hnil]
  simp only
  rw [if_neg]
  rw [h.core_eq, hfull]
  exact Nat.lt_irrefl _

theorem tryReceiveLocked_empty {k : Kernel} (h : Rep k a) {q : QueueId} (hz : (a.ring q).count = 0) (p : Ctx) :
    QueueCore.tryReceiveLocked q p k = ((false, false), k) := by
  unfold QueueCore.tryReceiveLocked
  rw [if_pos]
  rw [h.core_eq]
  exact hz

/-- A task that comes to its place in a wait list goes behind those that keep theirs at no lower priority. -/
theorem Runs.arrives_behind {v : Visit} {acts : List Action} (h : Runs v a acts a') (hwf : a.WF) (howned : a.Owned)
    (halien : a.Alien) (hs : a.Sorted) (hs' : a'.Sorted) {w : WaitId} {u t : Tid} (hu : a.Stays a'.toCore w u)
    (ht : ¬ a.Stays a'.toCore w t) (ht' : a'.WaitsOn t w) (hle : (a'.tcb t).priority ≤ (a'.tcb u).priority) :
    Precedes u t (a'.seq (.wait w)) := by
  have hwf' := h.wf hwf
  rcases Nat.lt_or_eq_of_le hle with hlt | heq
  · have hne : u ≠ t := by
      rintro rfl
      exact Nat.lt_irrefl _ hlt
    rcases Precedes.total (hwf'.mem_of_waits hu.after) (hwf'.mem_of_waits ht') hne with hp | hp
    · exact hp
    · have hback := List.pairwise_pair.mp (List.Pairwise.sublist (show [t, u].Sublist _ from hp) (hs' w))
      omega
  · exact h.precedes_new hwf howned halien hs hu ht ht' heq.symm

end

/-- The waiting discipline of a queue: with a parked receiver it is empty and with a parked sender full, so one
of the two lists is empty, the hand-off finds an empty ring and the back-fill a free slot; a new send or receive
cannot go before a parked one. -/
theorem queue_waits {config : Config} {s : Sys} (h : Reachable config s) (q : QueueId) :
    (∀ t, s.k.WaitsOn t (.receivers q) → (s.k.ring q).count = 0) ∧
    (∀ t, s.k.WaitsOn t (.senders q) → (s.k.ring q).count = config.capacity q) ∧
    (s.k.members (.wait (.receivers q)) = [] ∨ s.k.members (.wait (.senders q)) = []) ∧
    s.k.fault ≠ some (.assert .handoffNotEmpty) ∧
    (∀ t, (WaitQueue.wakeHighest (.receivers q) s.k).1 = some t →
      ((WaitQueue.wakeHighest (.receivers q) s.k).2.ring q).count = 0) ∧
    (s.k.ring q).count ≤ config.capacity q ∧
    (∀ p, (s.k.ring q).count ≠ 0 →
      ((WaitQueue.wakeHighest (.senders q) (s.k.core (QueueCore.popTo q p))).2.ring q).count <
        config.capacity q) ∧
    (∀ p, s.k.members (.wait (.senders q)) ≠ [] → QueueCore.trySendLocked q p s.k = ((false, false), s.k)) ∧
    (∀ p, s.k.members (.wait (.receivers q)) ≠ [] →
      QueueCore.tryReceiveLocked q p s.k = ((false, false), s.k)) ∧
    ∀ w, w = .senders q ∨ w = .receivers q → ∀ e s' u t, s.step e = some s' → s.k.Stays s'.k.toCore w u →
      ¬ s.k.Stays s'.k.toCore w t → s'.k.WaitsOn t w → (s'.k.tcb t).priority ≤ (s'.k.tcb u).priority →
      Precedes u t (s'.k.members (.wait w)) := by
  obtain ⟨a, htracks⟩ := h.tracks
  have hi := htracks.inv
  have hcore := hi.rep.core_eq
  have hconfig := htracks.config_eq
  have hreceivers : ∀ t, a.WaitsOn t (.receivers q) → (a.ring q).count = 0 := fun t => hi.starved.receivers q t
  have hsenders : ∀ t, a.WaitsOn t (.senders q) → (a.ring q).count = a.config.capacity q :=
    fun t => hi.starved.senders q t
  have hring := hi.starved.ring q
  have hpos : 0 < a.config.capacity q := a.config.capacity_pos q
  have hwaits : ∀ {w}, a.seq (.wait w) ≠ [] → ∃ t, a.WaitsOn t w := fun {w} hne => by
    obtain ⟨t, ht⟩ := List.exists_mem_of_ne_nil _ hne
    exact ⟨t, (hi.wf.mem_wait.mp ht).2⟩
  rw [hi.rep.members_eq hi.wf, ← hconfig]
  refine ⟨fun t ht => ?_, fun t ht => ?_, ?_, fun hf => ?_, fun t ht => ?_, ?_, fun p hne => ?_, fun p hne => ?_,
    fun p hne => ?_, fun w _ e s' u t hs hu ht ht' hle => ?_⟩
  · rw [hcore] at ht ⊢
    exact hreceivers t ht
  · rw [hcore] at ht ⊢
    exact hsenders t ht
  · by_contra hboth
    rw [not_or] at hboth
    obtain ⟨t, ht⟩ := hwaits hboth.1
    obtain ⟨u, hu⟩ := hwaits hboth.2
    have hz := hreceivers t ht
    rw [hsenders u hu] at hz
    omega
  · have := h.fault_expected hf
    cases this
  · rw [(wakeHighest_ring _ _).1, hcore]
    cases hseq : a.seq (.wait (.receivers q)) with
    | nil => rw [hi.rep.wakeHighest_nil hseq] at ht; cases ht
    | cons u xs =>
      obtain ⟨r, hr⟩ := hwaits (w := .receivers q) (by rw [hseq]; simp)
      exact hreceivers r hr
  · rw [hcore]
    exact hring.count_le
  · rw [hcore] at hne
    rw [(wakeHighest_ring _ _).1]
    have hpop : ((s.k.core (QueueCore.popTo q p)).ring q).count = (a.ring q).count - 1 := by
      rw [Kernel.core_toCore, hcore]
      simp [QueueCore.popTo, Ring.popRaw]
    rw [hpop]
    have := hring.count_le
    omega
  · obtain ⟨u, hu⟩ := hwaits hne
    refine trySendLocked_full hi.rep ?_ (hsenders u hu) p
    by_contra hne'
    obtain ⟨t, ht⟩ := hwaits hne'
    have hz := hreceivers t ht
    rw [hsenders u hu] at hz
    omega
  · obtain ⟨t, ht⟩ := hwaits hne
    exact tryReceiveLocked_empty hi.rep (hreceivers t ht) p
  · obtain ⟨acts, a', hruns, hinv⟩ := hi.step hs
    have htracks' : Tracks config (fun _ _ => True) s' a' := .step e htracks trivial hs hruns hinv
    rw [hinv.rep.members_eq hinv.wf]
    rw [hcore, hinv.rep.core_eq] at hu ht
    rw [hinv.rep.core_eq] at ht' hle
    exact hruns.arrives_behind hi.wf hi.owned htracks.alien htracks.sorted.1 htracks'.sorted.1 hu ht ht' hle

/-- Two tasks park on a full queue, a third one on an empty queue. -/
def Sys.queuesRun : List Event :=
  createRun 1 3 ++ createRun 2 2 ++ createRun 3 1 ++ startRun ++
    [.call (.send 0 [1] 0), .advance, .call (.send 0 [2] 0), .advance, .call (.send 0 [3] kWaitForever), .advance,
      .pendSV 0, .call (.send 0 [4] kWaitForever), .advance, .pendSV 0, .call (.receive 1 kWaitForever)]

theorem queue_waits_both : ∃ s, Sys.run (Sys.init .small) Sys.queuesRun = some s ∧
    s.k.members (.wait (.senders 0)) = [0, 1] ∧ (s.k.ring 0).count = 2 ∧
    s.k.members (.wait (.receivers 0)) = [] ∧ s.k.WaitsOn 2 (.receivers 1) ∧ (s.k.ring 1).count = 0 := by
  have hrun : ((Sys.run (Sys.init .small) Sys.queuesRun).map fun s =>
      (s.k.members (.wait (.senders 0)), (s.k.tcb 1).waitList, (s.k.tcb 2).waitList)) =
      some ([0, 1], some (.senders 0), some (.receivers 1)) := by decide +kernel
  obtain ⟨s, hs, hstate⟩ := Option.map_eq_some_iff.mp hrun
  simp only [Prod.mk.injEq] at hstate
  obtain ⟨hsenders, hsends, hreceives⟩ := hstate
  have hreach := Reachable.run .init hs
  obtain ⟨-, hfull, hone, -⟩ := queue_waits hreach 0
  refine ⟨s, hs, hsenders, hfull 1 hsends, hone.resolve_right ?_, hreceives, (queue_waits hreach 1).1 2 hreceives⟩
  rw [hsenders]
  exact List.cons_ne_nil _ _

end AcRtos
