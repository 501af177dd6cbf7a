import AcRtos.Inheritance

/-!
# Stale inherited priorities

A task should be no higher than its base priority and the tasks that wait for its mutexes ask for. `lock` lifts
the owner and `unlock` takes the caller back to exactly that; a timeout cannot end a wait for a mutex. But
`suspend_task` and `delete_task` unlink a waiter without a look at the mutex it waits for: the owner keeps the
priority of a task that has left. In a run every priority is justified in every state exactly when no such
section takes away a waiter that its mutex's owner still needs (`no_stale_priority`).
-/

namespace AcRtos

open Abs

namespace Core

/-- The base priority of `t`, or a task of `ws` that waits for one of its mutexes, asks for its priority. -/
def LiftedBy (e : Core) (ws : Tid → Prop) (t : Tid) : Prop :=
  (e.tcb t).priority ≤ (e.tcb t).basePriority ∨
    ∃ w m, ws w ∧ e.owner m = some t ∧ e.Parked w m ∧ (e.tcb t).priority ≤ (e.tcb w).priority

/-- The priority of `t` is justified by those that wait for its mutexes now. -/
def Justified (e : Core) (t : Tid) : Prop := e.LiftedBy (fun _ => True) t

end Core

namespace Sys

/-- The next step is the critical section that suspends or deletes `w`. -/
def Retires (w : Tid) (s : Sys) (e : Event) : Prop :=
  e = .advance ∧ (s.pc s.k.self = .suspendBody w ∨ s.pc s.k.self = .deleteBody w)

/-- If the next step takes a waiter away from a mutex, the priority of the mutex's owner is justified without
that waiter. -/
def Dispensable (s : Sys) (e : Event) : Prop :=
  ∀ w m o, s.Retires w e → s.k.Parked w m → s.k.owner m = some o → s.k.LiftedBy (· ≠ w) o

end Sys

namespace Abs

variable {a : Abs} {act : Action} {t u w : Tid} {m : MutexId}

/-- No task has a countdown while it waits for a mutex. -/
def Untimed (a : Abs) : Prop := ∀ t m, a.Parked t m → ¬ a.Sleeps t

theorem Untimed.apply (h : a.Untimed) (hwf : a.WF) (he : act.Enabled a) : (act.apply a).Untimed := by
  intro t m hw hs
  rcases parked_apply hwf he hw with hb | rfl
  · have hblocked := hwf.blocked_of_parked hb
    rcases sleeps_apply hs with hs | ⟨n, rfl⟩ | ⟨W, n, rfl⟩
    · exact h t m hb hs
    · have := he.2.1
      rw [hblocked] at this
      cases this
    · have := he.2.1
      rw [hblocked] at this
      cases this
  · have hidle := hwf.not_sleeps (t := t) (by simp [he.2.1])
    rcases sleeps_apply hs with hs | ⟨n, hn⟩ | ⟨W, n, hn⟩
    · exact hidle hs
    · cases hn
    · cases hn

theorem parked_keep (hwf : a.WF) (huntimed : a.Untimed) (he : act.Enabled a) (hw : a.Parked w m)
    (hretire : ∀ st, act ≠ .retire w st) (hpass : ∀ t, act ≠ .pass m t w) : (act.apply a).Parked w m := by
  have hblocked := hwf.blocked_of_parked hw
  have hother : ∀ {t}, (a.tcb t).state ≠ .blocked → w ≠ t := by
    rintro t hs rfl
    exact hs hblocked
  rw [Core.Parked, apply_tcb hwf he]
  cases act with
  | expire t =>
    have hwt : w ≠ t := by
      rintro rfl
      obtain ⟨rest, hsl⟩ := he
      exact huntimed w m hw (by simp [Sleeps, hsl])
    simp only [Action.tcb, if_neg hwt]
    exact hw
  | retire t st =>
    have hwt : w ≠ t := fun heq => hretire st (by rw [heq])
    simp only [Action.tcb, if_neg hwt]
    exact hw
  | hand hd t =>
    have hwt : w ≠ t := by
      rintro rfl
      have hlist := (hwf.mem_wait.mp (Handing.Enabled.mem he)).2
      rw [show (a.tcb w).waitList = _ from hw] at hlist
      cases hd <;> cases hlist
    simp only [Action.tcb, if_neg hwt]
    exact hw
  | pass x t next =>
    have hwn : w ≠ next := by
      rintro rfl
      have hlist := (hwf.mem_wait.mp (List.mem_of_mem_head? he.2.2)).2
      rw [show (a.tcb w).waitList = _ from hw] at hlist
      cases hlist
      exact hpass t rfl
    simp only [Action.tcb, if_neg hwn]
    split <;> exact hw
  | park W t timeout =>
    simp only [Action.tcb, if_neg (hother (by simp [he.2.1]) : w ≠ t)]
    exact hw
  | alloc =>
    have hwt : w ≠ a.taskCount := by
      rintro rfl
      exact absurd (hwf.lt_of_state (by simp [hblocked])) (Nat.lt_irrefl _)
    simp only [Action.tcb, if_neg hwt]
    exact hw
  | _ =>
    simp only [Action.tcb]
    first
      | exact hw
      | (split <;> exact hw)

/-- What justifies a priority goes on to do so when the task's priorities and mutexes stay, and its waiter
waits on at no lower priority. -/
theorem lifted_of_same {b : Abs} {ws : Tid → Prop} (h : a.LiftedBy ws u)
    (hprio : (b.tcb u).priority = (a.tcb u).priority) (hbase : (b.tcb u).basePriority = (a.tcb u).basePriority)
    (hkeep : ∀ w m, ws w → a.owner m = some u → a.Parked w m →
      b.owner m = some u ∧ b.Parked w m ∧ (a.tcb w).priority ≤ (b.tcb w).priority) : b.Justified u := by
  rcases h with hle | ⟨w, m, hws, ho, hw, hle⟩
  · left
    rwa [hprio, hbase]
  · obtain ⟨ho', hw', hle'⟩ := hkeep w m hws ho hw
    right
    refine ⟨w, m, trivial, ho', hw', ?_⟩
    rw [hprio]
    exact Nat.le_trans hle hle'

theorem justified_restore {b : Abs} (hwf : b.WF) (hheld : ∀ m ∈ b.heldBy t, b.owner m = some t)
    (hs : (b.tcb t).state = .running) : (b.restore t).Justified t := by
  have hcaller : (b.restore t).tcb t = { b.tcb t with priority := b.recompute t } := by
    rw [restore_tcb, if_pos rfl]
  rcases b.recompute_cases (t := t) with heq | ⟨m, first, hm, hfirst, heq⟩
  · left
    rw [hcaller]
    exact Nat.le_of_eq heq
  · right
    obtain ⟨hblocked, hw⟩ := hwf.mem_wait.mp (List.mem_of_mem_head? hfirst)
    have hne : first ≠ t := by
      rintro rfl
      rw [hs] at hblocked
      cases hblocked
    have hfirst' : (b.restore t).tcb first = b.tcb first := by rw [restore_tcb, if_neg hne]
    refine ⟨first, m, trivial, ?_, ?_, ?_⟩
    · rw [SameRest.restore.owner]
      exact hheld m hm
    · rw [Core.Parked, hfirst']
      exact hw
    · rw [hcaller, hfirst']
      exact Nat.le_of_eq heq

theorem justified_apply (h : ∀ t, a.Justified t) (hwf : a.WF) (howned : a.Owned) (huntimed : a.Untimed)
    (he : act.Enabled a) (hretire : ∀ t st, act ≠ .retire t st) (u : Tid) : (act.apply a).Justified u := by
  have howner := apply_owner he
  -- most actions change no priority and no owner
  have hsame : (∀ u, ((act.apply a).tcb u).priority = (a.tcb u).priority ∧
      ((act.apply a).tcb u).basePriority = (a.tcb u).basePriority) → act.owner a = a.owner →
      (∀ m t next, act ≠ .pass m t next) → (act.apply a).Justified u := by
    intro hprio ho hpass
    refine lifted_of_same (h u) (hprio u).1 (hprio u).2 fun w m _ hm hw => ⟨?_, ?_, ?_⟩
    · rw [howner, ho]
      exact hm
    · exact parked_keep hwf huntimed he hw (hretire w) fun t => hpass m t w
    · exact Nat.le_of_eq (hprio w).1.symm
  cases act with
  | retire t st => exact absurd rfl (hretire t st)
  | initTcb t site p =>
    by_cases hu : u = t
    · subst hu
      left
      rw [apply_tcb hwf he]
      simp [Action.tcb]
    · have htcb : ∀ {u}, u ≠ t → ((Action.initTcb t site p).apply a).tcb u = a.tcb u := fun hu => by
        rw [apply_tcb hwf he]
        simp only [Action.tcb, if_neg hu]
      refine lifted_of_same (h u) (by rw [htcb hu]) (by rw [htcb hu]) fun w m _ hm hw => ?_
      have hwt : w ≠ t := by
        rintro rfl
        have := hwf.blocked_of_parked hw
        rw [he.2.1] at this
        cases this
      refine ⟨by rw [howner]; exact hm, ?_, by rw [htcb hwt]⟩
      rw [Core.Parked, htcb hwt]
      exact hw
  | acquire x t =>
    refine lifted_of_same (h u) rfl rfl fun w m _ hm hw => ⟨?_, hw, Nat.le_refl _⟩
    have hne : m ≠ x := by
      rintro rfl
      rw [he.1] at hm
      cases hm
    rw [howner]
    exact (Function.update_of_ne hne _ _).trans hm
  | park W t timeout =>
    have hmono : ∀ w, (a.tcb w).priority ≤ (((Action.park W t timeout).apply a).tcb w).priority := by
      intro w
      rw [apply_tcb hwf he]
      simp only [Action.tcb]
      split
      · simp
      · unfold boosted
        split
        · split
          · rename_i hlt
            exact Nat.le_of_lt hlt.2
          · exact Nat.le_refl _
        · exact Nat.le_refl _
    have hbase : (((Action.park W t timeout).apply a).tcb u).basePriority = (a.tcb u).basePriority := by
      rw [apply_tcb hwf he]
      simp only [Action.tcb]
      split <;> simp
    by_cases hp : (((Action.park W t timeout).apply a).tcb u).priority = (a.tcb u).priority
    · refine lifted_of_same (h u) hp hbase fun w m _ hm hw => ⟨by rw [howner]; exact hm, ?_, hmono w⟩
      exact parked_keep hwf huntimed he hw (by simp) (by simp)
    · -- the owner is lifted by the task that parks
      right
      have hut : u ≠ t := by
        rintro rfl
        rw [apply_tcb hwf he] at hp
        simp [Action.tcb] at hp
      rw [apply_tcb hwf he] at hp
      simp only [Action.tcb, if_neg hut, boosted] at hp
      split at hp
      · rename_i m
        split at hp
        · rename_i hlt
          refine ⟨t, m, trivial, by rw [howner]; exact hlt.1, ?_, ?_⟩
          · rw [Core.Parked, apply_tcb hwf he]
            simp [Action.tcb, Wait.list]
          · rw [apply_tcb hwf he, apply_tcb hwf he]
            simp [Action.tcb, hut, boosted, hlt]
        · exact absurd rfl hp
      · exact absurd rfl hp
  | release x t =>
    by_cases hu : u = t
    · subst hu
      refine justified_restore (b := a.drop x u) (hwf.drop x) (fun m hm => ?_) he.2.1
      have hall := (howned.apply hwf he).held_iff m u
      rw [apply_heldBy, howner] at hall
      exact hall.mp hm
    · refine lifted_of_same (h u) ?_ ?_ fun w m _ hm hw => ⟨?_, ?_, ?_⟩
      · rw [apply_tcb hwf he]
        simp only [Action.tcb, if_neg hu]
      · rw [apply_tcb hwf he]
        simp only [Action.tcb, if_neg hu]
      · have hne : m ≠ x := by
          rintro rfl
          rw [he.1] at hm
          exact hu (Option.some.inj hm).symm
        rw [howner]
        exact (Function.update_of_ne hne _ _).trans hm
      · exact parked_keep hwf huntimed he hw (by simp) (by simp)
      · have hwt : w ≠ t := by
          rintro rfl
          have := hwf.blocked_of_parked hw
          rw [he.2.1] at this
          cases this
        rw [apply_tcb hwf he]
        simp only [Action.tcb, if_neg hwt]
        exact Nat.le_refl _
  | pass x t next =>
    have hnext := hwf.mem_wait.mp (List.mem_of_mem_head? he.2.2)
    have hne : next ≠ t := by
      rintro rfl
      rw [he.2.1] at hnext
      cases hnext.1
    by_cases hu : u = t
    · subst hu
      refine justified_restore (b := (a.drop x u).give x next)
        (((hwf.drop x).acquire x).wake (hwf.lt_of_mem (List.mem_of_mem_head? he.2.2))) (fun m hm => ?_) ?_
      · have hall := (howned.apply hwf he).held_iff m u
        rw [apply_heldBy, howner] at hall
        have ho : ((a.drop x u).give x next).owner = Function.update a.owner x (some next) := by
          simp [give, wake, acquire, drop]
        rw [ho]
        exact hall.mp hm
      · rw [give, wake, move_tcb, if_neg hne.symm]
        exact he.2.1
    · refine lifted_of_same (h u) ?_ ?_ fun w m _ hm hw => ?_
      · rw [apply_tcb hwf he]
        simp only [Action.tcb, if_neg hu]
        split <;> rfl
      · rw [apply_tcb hwf he]
        simp only [Action.tcb, if_neg hu]
        split <;> rfl
      · have hmx : m ≠ x := by
          rintro rfl
          rw [he.1] at hm
          exact hu (Option.some.inj hm).symm
        have hwt : w ≠ t := by
          rintro rfl
          have := hwf.blocked_of_parked hw
          rw [he.2.1] at this
          cases this
        refine ⟨?_, ?_, ?_⟩
        · rw [howner]
          exact (Function.update_of_ne hmx _ _).trans hm
        · exact parked_keep hwf huntimed he hw (by simp) fun t' heq => by
            cases heq
            exact hmx rfl
        · rw [apply_tcb hwf he]
          simp only [Action.tcb, if_neg hwt]
          split <;> exact Nat.le_refl _
  | _ =>
    refine hsame (fun u => ?_) rfl (by simp)
    rw [apply_tcb hwf he]
    simp only [Action.tcb]
    first
      | exact ⟨trivial, trivial⟩
      | (split <;> simp)

end Abs

/-! ### Steps -/

section
variable {s s' : Sys} {a a' : Abs} {e : Event} {w : Tid}

theorem Inv.retires (h : Inv s a) (hs : s.step e = some s') (hr : s.Retires w e) :
    (a.tcb w).state = .suspended ∧ s'.k = s.k ∨ ∃ st, Rep s'.k (a.retire w st) := by
  obtain ⟨rfl, hpc⟩ := hr
  have hok := h.control.ok a.self
  rw [← h.self_eq] at hok
  obtain ⟨-, -, hadv⟩ := Sys.step_advance.mp hs
  simp only [Sys.advance] at hadv
  rcases hpc with hpc | hpc
  · rw [hpc] at hadv hok
    cases hadv
    have hlt := h.control.handles w hok.1
    show _ ∧ (Scheduler.suspendTask w s.k).2 = s.k ∨ ∃ st, Rep (Scheduler.suspendTask w s.k).2 _
    unfold Scheduler.suspendTask
    split
    · rename_i hsus
      rw [h.rep.core_eq] at hsus
      exact Or.inl ⟨hsus, rfl⟩
    · exact Or.inr ⟨.suspended, h.rep.retire h.wf hlt .suspended⟩
  · rw [hpc] at hadv hok
    cases hadv
    exact Or.inr ⟨.deleted, h.rep.retire h.wf (h.control.handles w hok.1) .deleted⟩

theorem retires_of_mem {v : Visit} (hv : v = s.visit e s') (hs : s.step e = some s') {st : TaskState}
    (hf : (Action.retire w st).Fits v a) : s.Retires w e := by
  subst hv
  have hb : (s.visit e s').before = .suspendBody w ∨ (s.visit e s').before = .deleteBody w :=
    hf.1.imp And.left And.left
  cases e with
  | advance => exact ⟨rfl, hb⟩
  | call c =>
    have hpc : s.pc s.k.self = .suspendBody w ∨ s.pc s.k.self = .deleteBody w := hb
    obtain ⟨-, -, huser, -⟩ := Sys.step_call.mp hs
    rcases hpc with hpc | hpc <;> cases huser.symm.trans hpc
  | tick => rcases hb with hb | hb <;> cases hb
  | isr c yield => rcases hb with hb | hb <;> cases hb
  | pendSV psp => rcases hb with hb | hb <;> cases hb

theorem Runs.untimed {v : Visit} {acts : List Action} (h : Runs v a acts a') (hwf : a.WF) (hu : a.Untimed) :
    a'.Untimed :=
  h.keeps hwf hu fun _ _ hwf hu he _ => hu.apply hwf he

theorem Runs.justified {v : Visit} {acts : List Action} (h : Runs v a acts a') (hwf : a.WF) (howned : a.Owned)
    (hu : a.Untimed) (hnot : ∀ b w st, ¬ (Action.retire w st).Fits v b) (hj : ∀ t, a.Justified t) :
    ∀ t, a'.Justified t := by
  have hall : a'.Untimed ∧ ∀ t, a'.Justified t := by
    refine h.keeps_owned (P := fun b => b.Untimed ∧ ∀ t, b.Justified t) hwf howned ⟨hu, hj⟩ ?_
    rintro act b hwf howned ⟨hu, hj⟩ he hf
    refine ⟨hu.apply hwf he, justified_apply hj hwf howned hu he fun t st heq => ?_⟩
    subst heq
    exact hnot b t st hf
  exact hall.2

theorem justified_retire {st : TaskState} (hj : ∀ t, a.Justified t) :
    (∀ t, (a.retire w st).Justified t) ↔
      ∀ m o, a.Parked w m → a.owner m = some o → a.LiftedBy (· ≠ w) o := by
  have hprio : ∀ u, ((a.retire w st).tcb u).priority = (a.tcb u).priority ∧
      ((a.retire w st).tcb u).basePriority = (a.tcb u).basePriority := fun u => by
    rw [Abs.retire, move_tcb]
    split <;> simp
  have hparked : ∀ u m, (a.retire w st).Parked u m ↔ u ≠ w ∧ a.Parked u m := fun u m => by
    rw [Core.Parked, Abs.retire, move_tcb]
    by_cases hu : u = w
    · simp [hu]
    · simp [hu, Core.Parked]
  have howner : (a.retire w st).owner = a.owner := rfl
  constructor
  · intro hall m o _ _
    rcases hall o with hle | ⟨x, m', -, ho, hx, hle⟩
    · left
      rwa [(hprio o).1, (hprio o).2] at hle
    · obtain ⟨hne, hx⟩ := (hparked x m').mp hx
      rw [(hprio o).1, (hprio x).1] at hle
      exact Or.inr ⟨x, m', hne, ho, hx, hle⟩
  · intro hall t
    have hrest : a.LiftedBy (· ≠ w) t → (a.retire w st).Justified t := fun hl =>
      lifted_of_same hl (hprio t).1 (hprio t).2 fun x m hne ho hx =>
        ⟨ho, (hparked x m).mpr ⟨hne, hx⟩, Nat.le_of_eq (hprio x).1.symm⟩
    rcases hj t with hle | ⟨x, m, -, ho, hx, hle⟩
    · exact hrest (Or.inl hle)
    · by_cases hne : x = w
      · subst hne
        exact hrest (hall m t hx ho)
      · exact hrest (Or.inr ⟨x, m, hne, ho, hx, hle⟩)

/-- A step keeps all priorities justified exactly when it takes no needed waiter away. -/
theorem Inv.justified_step (h : Inv s a) (hs : s.step e = some s') (hu : a.Untimed)
    (hj : ∀ t, s.k.Justified t) : (∀ t, s'.k.Justified t) ↔ s.Dispensable e := by
  rw [h.rep.core_eq] at hj
  by_cases hret : ∃ w, s.Retires w e
  · obtain ⟨w, hret⟩ := hret
    have hwho : ∀ {w'}, s.Retires w' e → w' = w := by
      rintro w' ⟨-, hpc'⟩
      obtain ⟨-, hpc⟩ := hret
      rcases hpc with hpc | hpc <;> rcases hpc' with hpc' | hpc' <;>
        · rw [hpc] at hpc'
          first
            | exact (Pc.suspendBody.inj hpc').symm
            | exact (Pc.deleteBody.inj hpc').symm
            | cases hpc'
    have hdisp : s.Dispensable e ↔ ∀ m o, a.Parked w m → a.owner m = some o → a.LiftedBy (· ≠ w) o := by
      unfold Sys.Dispensable
      rw [h.rep.core_eq]
      refine ⟨fun hd m o => hd w m o hret, fun hd w' m o hret' => ?_⟩
      rw [hwho hret']
      exact hd m o
    rw [hdisp]
    rcases h.retires hs hret with ⟨hsus, hk⟩ | ⟨st, hrep⟩
    · rw [hk, h.rep.core_eq]
      refine ⟨fun _ m o hw _ => ?_, fun _ => hj⟩
      have := h.wf.blocked_of_parked hw
      rw [hsus] at this
      cases this
    · rw [hrep.core_eq]
      exact justified_retire hj
  · have hnone : s.Dispensable e := fun w m o hr => absurd ⟨w, hr⟩ hret
    obtain ⟨acts, a', hruns, hinv⟩ := h.step hs
    rw [hinv.rep.core_eq]
    refine ⟨fun _ => hnone, fun _ => ?_⟩
    exact hruns.justified h.wf h.owned hu (fun b w st hf => hret ⟨w, retires_of_mem rfl hs hf⟩) hj

end

theorem Tracks.untimed {config : Config} {good : Sys → Event → Prop} {s : Sys} {a : Abs}
    (h : Tracks config good s a) : a.Untimed := by
  induction h with
  | init => exact fun _ _ hw => nomatch hw
  | step e h hg hs hruns hinv ih => exact hruns.untimed h.inv.wf ih

/-- In a run from the initial state all priorities are justified in every state exactly when no step takes
away a waiter that the owner of its mutex still needs. -/
theorem no_stale_priority {config : Config} {s' : Sys} {es : List Event}
    (hrun : (Sys.init config).run es = some s') :
    (Sys.init config).Throughout (fun s => ∀ t, s.k.Justified t) es ↔
      (Sys.init config).Each Sys.Dispensable es := by
  refine Reachable.throughout_iff .init hrun (fun t => Or.inl (Nat.le_refl _)) fun s e s₁ h hj hs => ?_
  obtain ⟨a, htracks⟩ := h.tracks
  exact htracks.inv.justified_step hs htracks.untimed hj

/-- The owner of the mutex deletes the task that waits for it. -/
def Sys.staleRun : List Event :=
  contendRun ++ [.advance, .pendSV 0, .call (.terminate (some 1)), .advance]

theorem no_stale_priority_contend : ∃ s, Sys.run (Sys.init .small) Sys.contendRun = some s ∧
    (Sys.Throughout (fun s => ∀ t, s.k.Justified t) (Sys.init .small) Sys.contendRun ↔
      Sys.Each Sys.Dispensable (Sys.init .small) Sys.contendRun) := by
  have hrun : (Sys.run (Sys.init .small) Sys.contendRun).isSome = true := by decide +kernel
  obtain ⟨s, hs⟩ := Option.isSome_iff_exists.mp hrun
  exact ⟨s, hs, no_stale_priority hs⟩

/-- After the deletion the owner of base priority 1 still runs at priority 3, and nobody waits. -/
theorem stale_priority : ¬ ∀ (config : Config) (s : Sys), Reachable config s → ∀ t, s.k.Justified t := by
  intro hall
  have hrun : ((Sys.run (Sys.init .small) Sys.staleRun).map fun s => ((s.k.tcb 0).priority,
      (s.k.tcb 0).basePriority, s.k.taskCount, (List.range 3).map fun t => (s.k.tcb t).waitList)) =
      some (3, 1, 3, [none, none, none]) := by decide +kernel
  obtain ⟨s, hs, hstate⟩ := Option.map_eq_some_iff.mp hrun
  simp only [Prod.mk.injEq] at hstate
  obtain ⟨hprio, hbase, hcount, hwaits⟩ := hstate
  have hreach := Reachable.run .init hs
  obtain ⟨a, htracks⟩ := hreach.tracks
  rcases hall .small s hreach 0 with hle | ⟨w, m, -, -, hw, -⟩
  · rw [hprio, hbase] at hle
    omega
  · -- only the three tasks could wait
    have hlt : w < s.k.taskCount := by
      rw [htracks.inv.rep.core_eq] at hw ⊢
      exact htracks.inv.wf.lt_of_state (by simp [htracks.inv.wf.blocked_of_parked hw])
    rw [hcount] at hlt
    have hnone : (s.k.tcb w).waitList = none := by
      have := congrArg (fun xs => xs[w]?) hwaits
      interval_cases w <;> simpa using this
    rw [show (s.k.tcb w).waitList = _ from hw] at hnone
    cases hnone

end AcRtos
