import AcRtos.Effects

/-!
# The order of the wait lists

Every wait list is sorted by the current priorities of its waiters, highest first. A waiter whose priority
changes leaves its list and enters it again at its place, so a list never depends on a priority that is out of
date. An action moves tasks one at a time, and a move keeps the order (`Sorted.move`).
-/

namespace AcRtos

open Lib

namespace Abs

def Sorted (a : Abs) : Prop :=
  ∀ w, (a.seq (.wait w)).Pairwise fun u v => (a.tcb v).priority ≤ (a.tcb u).priority

variable {a b : Abs} {t u : Tid}

theorem Sorted.le_head (h : a.Sorted) {w : WaitId} (ht : (a.seq (.wait w)).head? = some t)
    (hu : u ∈ a.seq (.wait w)) : (a.tcb u).priority ≤ (a.tcb t).priority := by
  have hw := h w
  obtain ⟨rest, hseq⟩ := List.head?_eq_some_iff.mp ht
  rw [hseq] at hw hu
  rcases List.mem_cons.mp hu with rfl | hu
  · exact Nat.le_refl _
  · exact (List.pairwise_cons.mp hw).1 u hu

theorem Sorted.congr (h : a.Sorted) (hseq : ∀ w, b.seq (.wait w) = a.seq (.wait w))
    (hprio : ∀ w, ∀ u ∈ a.seq (.wait w), (b.tcb u).priority = (a.tcb u).priority) : b.Sorted := by
  intro w
  rw [hseq]
  refine (h w).imp_of_mem fun hu hv hle => ?_
  rw [hprio w _ hu, hprio w _ hv]
  exact hle

theorem Sorted.move (h : a.Sorted) (hnodup : ∀ l, (a.seq l).Nodup) {f : TaskControlBlock → TaskControlBlock}
    {dest : Option ListId} {ins : List Tid → List Tid} {alarm : Alarm}
    (hins : ∀ w, dest = some (.wait w) → ins = a.byPriority (f (a.tcb t)).priority t) :
    (a.move t f dest ins alarm).Sorted := by
  intro w
  have hne : ∀ {u}, u ∈ (a.seq (.wait w)).erase t → u ≠ t := fun hu heq =>
    ((hnodup _).mem_erase_iff.mp hu).1 heq
  have hleft : ((a.seq (.wait w)).erase t).Pairwise fun u v =>
      ((a.move t f dest ins alarm).tcb v).priority ≤ ((a.move t f dest ins alarm).tcb u).priority := by
    refine ((h w).sublist List.erase_sublist).imp_of_mem fun hu hv hle => ?_
    rw [move_tcb_of_ne (hne hu), move_tcb_of_ne (hne hv)]
    exact hle
  by_cases hd : dest = some (.wait w)
  · have hseq : (a.move t f dest ins alarm).seq (.wait w) = ins ((a.seq (.wait w)).erase t) := by
      simp [Abs.move, hd]
    have hplace := hins w hd
    subst hplace
    rw [hseq, byPriority]
    -- the others' priorities are the same before and after the move
    rw [insertWhile_congr (q := fun y =>
      decide (((a.move t f dest (a.byPriority (f (a.tcb t)).priority t) alarm).tcb y).priority ≥
        (f (a.tcb t)).priority)) fun y hy => by rw [move_tcb_of_ne (hne hy)]]
    refine pairwise_insertWhile hleft (fun y _ hy => ?_) (fun y _ hy => ?_) fun y z hy hle => ?_
    · rw [move_tcb_self]
      simpa using hy
    · rw [move_tcb_self]
      simp only [decide_eq_false_iff_not] at hy
      omega
    · simp only [decide_eq_false_iff_not] at hy ⊢
      omega
  · have hseq : (a.move t f dest ins alarm).seq (.wait w) = (a.seq (.wait w)).erase t := by
      unfold Abs.move
      cases dest with
      | none => rfl
      | some d =>
        have hne' : ListId.wait w ≠ d := fun heq => hd (by rw [heq])
        simp only [Function.update_of_ne hne']
    rw [hseq]
    exact hleft

theorem Sorted.setPriority (h : a.Sorted) (hnodup : ∀ l, (a.seq l).Nodup) (p : Nat) :
    (a.setPriority t p).Sorted := by
  refine h.move hnodup fun w hd => if_neg fun hr => ?_
  simp only [placeOf, hr] at hd
  cases hd

theorem Sorted.boost (h : a.Sorted) (hnodup : ∀ l, (a.seq l).Nodup) (w : Wait) : (a.boost w t).Sorted := by
  unfold Abs.boost
  split
  · split
    · split
      · exact h.setPriority hnodup _
      · exact h
    · exact h
  · exact h

theorem Sorted.restore (h : a.Sorted) (hnodup : ∀ l, (a.seq l).Nodup) : (a.restore t).Sorted := by
  unfold Abs.restore
  split
  · exact h.setPriority hnodup _
  · exact h

theorem Sorted.wake (h : a.Sorted) (hnodup : ∀ l, (a.seq l).Nodup) : (a.wake t).Sorted :=
  h.move hnodup (by simp)

theorem nodup_wake (hnodup : ∀ l, (a.seq l).Nodup) (l : ListId) : ((a.wake t).seq l).Nodup :=
  nodup_move hnodup fun xs => perm_atEnd t xs

theorem Sorted.apply (h : a.Sorted) (hwf : a.WF) {act : Action} (he : act.Enabled a) :
    (act.apply a).Sorted := by
  have hkeep : (∀ u, ((act.apply a).tcb u).priority = (a.tcb u).priority) →
      (∀ w, (act.apply a).seq (.wait w) = a.seq (.wait w)) → (act.apply a).Sorted :=
    fun hprio hseq => h.congr hseq fun _ u _ => hprio u
  cases act with
  | data d => exact hkeep (fun u => by rw [apply_tcb hwf he]; rfl) fun _ => rfl
  | countDown => exact hkeep (fun _ => rfl) fun _ => rfl
  | acquire m t => exact hkeep (fun _ => rfl) fun _ => rfl
  | save t =>
    refine hkeep (fun u => ?_) fun _ => rfl
    rw [apply_tcb hwf he]
    simp only [Action.tcb]
    split <;> rfl
  | alloc =>
    refine hkeep (fun u => ?_) fun _ => rfl
    rw [apply_tcb hwf he]
    simp only [Action.tcb]
    split <;> rfl
  | initTcb t site p =>
    refine h.congr (fun _ => rfl) fun w u hu => ?_
    -- a task under construction waits nowhere
    have hne : u ≠ t := by
      rintro rfl
      have := (hwf.mem_wait.mp hu).1
      rw [he.2.1] at this
      cases this
    rw [apply_tcb hwf he]
    simp only [Action.tcb, if_neg hne]
  | ready t => exact h.move hwf.nodup (by simp)
  | switch t =>
    have hcore : (a.core fun e => { e with currentTask := some t, currentSp := (e.tcb t).sp }).Sorted := h
    exact hcore.move hwf.nodup (by simp)
  | sleep t n => exact h.move hwf.nodup (by simp)
  | expire t => exact h.move hwf.nodup (by simp)
  | retire t st => exact h.move hwf.nodup (by simp)
  | park w t timeout =>
    have hboost : (a.boost w t).Sorted := h.boost hwf.nodup w
    have hnodup : ∀ l, ((a.boost w t).seq l).Nodup := by
      refine (hwf.boost (w := w) fun m hm o ho => ?_).nodup
      subst hm
      obtain ⟨-, -, -, o', ho', -, hlt⟩ := he
      rw [ho] at ho'
      cases ho'
      exact hlt
    refine hboost.move hnodup fun w' _ => ?_
    show _ = (a.boost w t).byPriority (w.request t ((a.boost w t).tcb t)).priority t
    rw [request_priority]
  | hand hd t =>
    have htcb := (hd.alike t a.toCore).tcb
    have hcore : (a.core (hd.run t)).Sorted := h.congr (fun _ => rfl) fun _ u _ => by
      show ((hd.run t a.toCore).tcb u).priority = _
      rw [htcb]
    exact hcore.wake hwf.nodup
  | release m t => exact Sorted.restore (a := a.drop m t) h hwf.nodup
  | pass m t next =>
    have hgive : ((a.drop m t).give m next).Sorted :=
      Sorted.wake (a := (a.drop m t).acquire m next) h hwf.nodup
    exact hgive.restore (nodup_wake (a := (a.drop m t).acquire m next) hwf.nodup)

end Abs

end AcRtos
