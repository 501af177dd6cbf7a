import AcRtos.Steps
import AcRtos.WaitOrder

/-!
# Priority inheritance

A task that parks on a mutex lifts the owner to its own priority. From then on three facts keep the owner high
enough (`floor_apply`): a parked task never loses priority, a mutex with waiters is handed to the first of them,
which is one of the highest, and a task that unlocks a mutex falls back to what the first waiters on its other
mutexes ask for. The wait lists are sorted by current priorities, so the first waiter speaks for all.

`ParkedSince` records the priority with which a task parked, as long as it stays parked.
-/

namespace AcRtos

/-- `w` waits for the mutex `m`. -/
def Core.Parked (e : Core) (w : Tid) (m : MutexId) : Prop := (e.tcb w).waitList = some (.mutex m)

namespace Abs

variable {a : Abs} {act : Action} {t u w : Tid} {m : MutexId}

theorem WF.blocked_of_parked (h : a.WF) (hw : a.Parked w m) : (a.tcb w).state = .blocked :=
  (h.ok w).waits (by rw [show (a.tcb w).waitList = _ from hw]; simp)

theorem WF.mem_of_parked (h : a.WF) (hw : a.Parked w m) : w ∈ a.seq (.wait (.mutex m)) :=
  h.mem_wait.mpr ⟨h.blocked_of_parked hw, hw⟩

theorem Sorted.le_recompute (h : a.Sorted) (hm : m ∈ a.heldBy t) (hu : u ∈ a.seq (.wait (.mutex m))) :
    (a.tcb u).priority ≤ a.recompute t := by
  obtain ⟨first, hfirst⟩ : ∃ first, (a.seq (.wait (.mutex m))).head? = some first := by
    cases hseq : a.seq (.wait (.mutex m)) with
    | nil => rw [hseq] at hu; cases hu
    | cons x xs => exact ⟨x, rfl⟩
  have hmem : (a.tcb first).priority ∈ (a.tcb t).basePriority :: (a.heldBy t).filterMap a.waiterPriority := by
    refine List.mem_cons_of_mem _ (List.mem_filterMap.mpr ⟨m, hm, ?_⟩)
    rw [waiterPriority, hfirst]
    rfl
  exact Nat.le_trans (h.le_head hfirst hu) (List.le_max_of_mem hmem)

theorem parked_apply (h : a.WF) (he : act.Enabled a) (hw : (act.apply a).Parked w m) :
    a.Parked w m ∨ act = .park (.lock m) w none := by
  rcases waitList_apply h he hw with hw | ⟨W, timeout, rfl, hW⟩
  · exact Or.inl hw
  · obtain rfl : W = .lock m := by
      cases W <;> cases hW
      rfl
    cases timeout with
    | none => exact Or.inr rfl
    | some n => exact absurd rfl ((he.2.2.1 n rfl).2 m)

/-! ### The lower bound -/

/-- The mutex `m` asks for at most the priority of its owner, and `w` for at most its own: `n` is a floor. -/
structure Floor (a : Abs) (n : Nat) (w : Tid) (m : MutexId) : Prop where
  waiter : n ≤ (a.tcb w).priority
  owner : ∀ o, a.owner m = some o → n ≤ (a.tcb o).priority

/-- After an unlock that leaves the waiter `w` on `m`, the tasks that own `m` are high enough. -/
theorem Floor.restore {b : Abs} {n : Nat} (h : b.Floor n w m) (hsorted : b.Sorted) (hwf : b.WF)
    (hheld : ∀ o, b.owner m = some o → m ∈ b.heldBy o) (hw : b.Parked w m) (hne : w ≠ t) :
    (b.restore t).Floor n w m := by
  have hle : ∀ o, b.owner m = some o → n ≤ b.recompute o := fun o ho =>
    Nat.le_trans h.waiter (hsorted.le_recompute (hheld o ho) (hwf.mem_of_parked hw))
  refine ⟨?_, fun o ho => ?_⟩
  · rw [restore_tcb, if_neg hne]
    exact h.waiter
  · rw [SameRest.restore.owner] at ho
    rw [restore_tcb]
    split
    · rename_i heq
      subst heq
      exact hle o ho
    · exact h.owner o ho

theorem Floor.apply {n : Nat} (h : a.Floor n w m) (hwf : a.WF) (howned : a.Owned) (hsorted : a.Sorted)
    (he : act.Enabled a) (hw : a.Parked w m) (hw' : (act.apply a).Parked w m) :
    (act.apply a).Floor n w m := by
  have hblocked := hwf.blocked_of_parked hw
  have hrunner : ∀ {t}, (a.tcb t).state = .running → w ≠ t := by
    rintro t hr rfl
    rw [hblocked] at hr
    cases hr
  -- no action but an unlock lowers a priority or changes the owner of `m`
  have hkeep : (∀ u, (∀ m, a.owner m ≠ some u) ∧ (a.tcb u).state = .suspended ∨
      (a.tcb u).priority ≤ ((act.apply a).tcb u).priority) → (act.apply a).owner m = a.owner m →
      (act.apply a).Floor n w m := by
    intro hprio howner
    refine ⟨?_, fun o ho => ?_⟩
    · rcases hprio w with ⟨-, hs⟩ | hle
      · rw [hblocked] at hs
        cases hs
      · exact Nat.le_trans h.waiter hle
    · rw [howner] at ho
      rcases hprio o with ⟨hfree, -⟩ | hle
      · exact absurd ho (hfree m)
      · exact Nat.le_trans (h.owner o ho) hle
  cases act with
  | initTcb t site p =>
    refine hkeep (fun u => ?_) (by rw [apply_owner he]; rfl)
    by_cases hu : u = t
    · subst hu
      exact Or.inl ⟨he.2.2.2, he.2.1⟩
    · right
      rw [apply_tcb hwf he]
      simp only [Action.tcb, if_neg hu]
      exact Nat.le_refl _
  | park W t timeout =>
    refine hkeep (fun u => Or.inr ?_) (by rw [apply_owner he]; rfl)
    rw [apply_tcb hwf he]
    simp only [Action.tcb]
    split
    · simp
    · unfold boosted
      split
      · split
        · rename_i hlt
          exact Nat.le_of_lt hlt.2
        · exact Nat.le_refl _
      · exact Nat.le_refl _
  | acquire x t =>
    refine hkeep (fun u => Or.inr (Nat.le_refl _)) ?_
    have hne : m ≠ x := by
      rintro rfl
      exact howned.waited m w hw he.1
    rw [apply_owner he]
    exact Function.update_of_ne hne _ _
  | release x t =>
    -- nobody waits for `x`
    have hne : m ≠ x := by
      rintro rfl
      have hmem := hwf.mem_of_parked hw
      rw [he.2.2] at hmem
      cases hmem
    have hdrop : (a.drop x t).Floor n w m := by
      refine ⟨h.waiter, fun o ho => h.owner o ?_⟩
      have hsame : (a.drop x t).owner m = a.owner m := Function.update_of_ne hne _ _
      rwa [hsame] at ho
    refine Floor.restore (b := a.drop x t) hdrop hsorted (hwf.drop x) (fun o ho => ?_) hw (hrunner he.2.1)
    have hsame : (a.drop x t).owner m = a.owner m := Function.update_of_ne hne _ _
    rw [hsame, ← howned.held_iff] at ho
    show m ∈ Function.update a.heldBy t ((a.heldBy t).erase x) o
    by_cases hot : o = t
    · subst hot
      rw [Function.update_self]
      exact (List.mem_erase_of_ne hne).mpr ho
    · rw [Function.update_of_ne hot]
      exact ho
  | pass x t next =>
    have hnext := hwf.mem_wait.mp (List.mem_of_mem_head? he.2.2)
    have hwnext : w ≠ next := by
      rintro rfl
      rw [Core.Parked, apply_tcb hwf he] at hw'
      simp only [Action.tcb, if_neg (hrunner he.2.1), if_true] at hw'
      cases hw'
    have hnext' : next ≠ t := by
      rintro rfl
      rw [he.2.1] at hnext
      cases hnext.1
    have htcb : ∀ u, u ≠ next → ((a.drop x t).give x next).tcb u = a.tcb u := fun u hu => by
      rw [give, wake, move_tcb, if_neg hu]
      rfl
    have hprio : ∀ u, (((a.drop x t).give x next).tcb u).priority = (a.tcb u).priority := fun u => by
      rw [give, wake, move_tcb]
      split <;> rfl
    have howner : ((a.drop x t).give x next).owner = Function.update a.owner x (some next) := by
      simp [give, wake, acquire, drop]
    have hheld : ((a.drop x t).give x next).heldBy = Action.heldBy a (.pass x t next) := rfl
    have hgive : ((a.drop x t).give x next).Sorted :=
      Sorted.wake (a := (a.drop x t).acquire x next) hsorted hwf.nodup
    have hwf' : ((a.drop x t).give x next).WF :=
      ((hwf.drop x).acquire x).wake (hwf.lt_of_mem (List.mem_of_mem_head? he.2.2))
    refine Floor.restore (b := (a.drop x t).give x next) ⟨?_, fun o ho => ?_⟩ hgive hwf' (fun o ho => ?_) ?_
      (hrunner he.2.1)
    · rw [hprio]
      exact h.waiter
    · rw [hprio]
      rw [howner] at ho
      by_cases hm : m = x
      · subst hm
        -- the mutex goes to a waiter of the highest priority
        rw [Function.update_self] at ho
        cases ho
        exact Nat.le_trans h.waiter (hsorted.le_head he.2.2 (hwf.mem_of_parked hw))
      · rw [Function.update_of_ne hm] at ho
        exact h.owner o ho
    · have hall := (howned.apply hwf he).held_iff m o
      rw [apply_heldBy, apply_owner he] at hall
      rw [hheld]
      refine hall.mpr ?_
      rw [howner] at ho
      exact ho
    · rw [Core.Parked, htcb w hwnext]
      exact hw
  | _ =>
    refine hkeep (fun u => Or.inr ?_) (by rw [apply_owner he]; rfl)
    rw [apply_tcb hwf he]
    simp only [Action.tcb]
    first
      | exact Nat.le_refl _
      | (split <;> simp)

/-! ### Tasks without a mutex -/

/-- A task that owns no mutex runs at its base priority. -/
def Plain (a : Abs) : Prop :=
  ∀ t, (∀ m, a.owner m ≠ some t) → (a.tcb t).priority = (a.tcb t).basePriority

theorem recompute_free (h : a.heldBy t = []) : a.recompute t = (a.tcb t).basePriority := by
  simp [recompute, h]

theorem Plain.apply (h : a.Plain) (hwf : a.WF) (howned : a.Owned) (he : act.Enabled a) :
    (act.apply a).Plain := by
  intro u hfree
  -- the task owned nothing before, and its priorities are the same
  have hkeep : (∀ m, (act.apply a).owner m ≠ some u → a.owner m ≠ some u) →
      (((act.apply a).tcb u).priority = (a.tcb u).priority ∧
        ((act.apply a).tcb u).basePriority = (a.tcb u).basePriority) →
      ((act.apply a).tcb u).priority = ((act.apply a).tcb u).basePriority := by
    rintro howner ⟨hp, hb⟩
    rw [hp, hb]
    exact h u fun m => howner m (hfree m)
  -- a task that has just dropped its last mutex
  have hdropped : (act.apply a).heldBy u = [] := by
    refine List.eq_nil_iff_forall_not_mem.mpr fun m hm => ?_
    rw [(howned.apply hwf he).held_iff] at hm
    exact hfree m hm
  rw [apply_heldBy] at hdropped
  have howner := apply_owner he
  cases act with
  | initTcb t site p =>
    by_cases hu : u = t
    · subst hu
      rw [apply_tcb hwf he]
      simp [Action.tcb]
    · refine hkeep (fun m hm => by rwa [howner] at hm) ?_
      rw [apply_tcb hwf he]
      simp only [Action.tcb, if_neg hu, and_self]
  | park W t timeout =>
    refine hkeep (fun m hm => by rwa [howner] at hm) ?_
    rw [apply_tcb hwf he]
    simp only [Action.tcb]
    split
    · simp
    · refine ⟨?_, rfl⟩
      unfold boosted
      split
      · rename_i m
        rw [if_neg fun hlt => hfree m (by rw [howner]; exact hlt.1)]
      · rfl
  | acquire x t =>
    refine hkeep (fun m hm ho => ?_) ⟨rfl, rfl⟩
    rw [howner, Action.owner] at hm
    by_cases hmx : m = x
    · subst hmx
      rw [he.1] at ho
      cases ho
    · rw [Function.update_of_ne hmx] at hm
      exact hm ho
  | release x t =>
    by_cases hu : u = t
    · subst hu
      rw [apply_tcb hwf he]
      simp only [Action.tcb, if_true]
      exact recompute_free (a := a.drop x u) hdropped
    · refine hkeep (fun m hm ho => ?_) ?_
      · rw [howner, Action.owner] at hm
        by_cases hmx : m = x
        · subst hmx
          rw [he.1] at ho
          exact hu (Option.some.inj ho).symm
        · rw [Function.update_of_ne hmx] at hm
          exact hm ho
      · rw [apply_tcb hwf he]
        simp only [Action.tcb, if_neg hu, and_self]
  | pass x t next =>
    by_cases hu : u = t
    · subst hu
      have hne : next ≠ u := by
        rintro rfl
        have := (hwf.mem_wait.mp (List.mem_of_mem_head? he.2.2)).1
        rw [he.2.1] at this
        cases this
      rw [apply_tcb hwf he]
      simp only [Action.tcb, if_true]
      rw [recompute_free (a := (a.drop x u).give x next) hdropped, give, wake, move_tcb, if_neg hne.symm]
      rfl
    · refine hkeep (fun m hm ho => ?_) ?_
      · rw [howner, Action.owner] at hm
        by_cases hmx : m = x
        · subst hmx
          rw [he.1] at ho
          exact hu (Option.some.inj ho).symm
        · rw [Function.update_of_ne hmx] at hm
          exact hm ho
      · rw [apply_tcb hwf he]
        simp only [Action.tcb, if_neg hu]
        split <;> exact ⟨rfl, rfl⟩
  | _ =>
    refine hkeep (fun m hm => by rwa [howner] at hm) ?_
    rw [apply_tcb hwf he]
    simp only [Action.tcb]
    first
      | exact ⟨trivial, trivial⟩
      | (split <;> simp)

end Abs

/-! ### Visits -/

open Abs

section
variable {v : Visit} {a a' : Abs} {acts : List Action} {w : Tid} {m : MutexId}

theorem Runs.sorted (h : Runs v a acts a') (hwf : a.WF) (hs : a.Sorted) : a'.Sorted :=
  h.keeps hwf hs fun _ _ hwf hs he _ => hs.apply hwf he

theorem Runs.plain (h : Runs v a acts a') (hwf : a.WF) (howned : a.Owned) (hp : a.Plain) : a'.Plain :=
  h.keeps_owned hwf howned hp fun _ _ hwf howned hp he _ => hp.apply hwf howned he

theorem Abs.running_apply {act : Action} (hwf : a.WF) (he : act.Enabled a) (hf : act.Fits v a)
    (hr : ((act.apply a).tcb w).state = .running) : (a.tcb w).state = .running ∨ v = .pendSV := by
  rcases shift hwf he w with hsame | hshift
  · exact Or.inl (hsame.symm.trans hr)
  · rw [hr] at hshift
    cases hshift with
    | switch h => exact Or.inr hf
    | retire st h => rcases h with ⟨h, -⟩ | h <;> cases h

theorem Runs.floor (h : Runs v a acts a') (hwf : a.WF) (howned : a.Owned) (hs : a.Sorted) {n : Nat}
    (hw : a.Parked w m) (hn : a.Floor n w m) (hw' : a'.Parked w m) : a'.Floor n w m := by
  have hrun : (a.tcb w).state = .running → v = .pendSV := fun hr => by
    rw [hwf.blocked_of_parked hw] at hr
    cases hr
  have hall : a'.Sorted ∧ ((a'.tcb w).state = .running → v = .pendSV) ∧ (a'.Parked w m → a'.Floor n w m) :=
    h.keeps_owned (P := fun b => b.Sorted ∧ ((b.tcb w).state = .running → v = .pendSV) ∧
      (b.Parked w m → b.Floor n w m)) hwf howned ⟨hs, hrun, fun _ => hn⟩ fun act b hwf howned hb he hf => by
      obtain ⟨hs, hrun, hfloor⟩ := hb
      refine ⟨hs.apply hwf he, fun hr => ?_, fun hpark => ?_⟩
      · exact (running_apply hwf he hf hr).elim hrun id
      · rcases parked_apply hwf he hpark with hb | rfl
        · exact (hfloor hb).apply hwf howned hs he hb hpark
        · -- the visitor of a context switch parks nobody
          have hctx := hf.1
          rw [hrun he.2.1] at hctx
          cases hctx
  exact hall.2.2 hw'

/-- A task that a visit has parked on a mutex has lifted the owner to its priority. -/
theorem Runs.lifts (h : Runs v a acts a') (hwf : a.WF) (hw : ¬ a.Parked w m) (hw' : a'.Parked w m) :
    a'.Floor (a'.tcb w).priority w m := by
  have hall : a'.Parked w m → v.ctx = .task w ∧ a'.Floor (a'.tcb w).priority w m :=
    h.keeps (P := fun b => b.Parked w m → v.ctx = .task w ∧ b.Floor (b.tcb w).priority w m) hwf
      (fun hp => absurd hp hw) fun act b hwf hb he hf hpark => by
      rcases parked_apply hwf he hpark with hp | rfl
      · obtain ⟨hctx, hfloor⟩ := hb hp
        have hblocked := hwf.blocked_of_parked hp
        -- the visitor is parked, so no action of its own follows
        have hidle : ∀ {t}, v.ctx = .task t → (b.tcb t).state ≠ .running := by
          intro t ht hr
          obtain rfl : w = t := by simpa using hctx.symm.trans ht
          rw [hblocked] at hr
          cases hr
        have hsame : (∀ u, (∀ m, b.owner m ≠ some u) ∧ (b.tcb u).state = .suspended ∨
            ((act.apply b).tcb u).priority = (b.tcb u).priority) → (act.apply b).owner = b.owner →
            (act.apply b).Floor ((act.apply b).tcb w).priority w m := by
          intro hprio howner
          refine ⟨Nat.le_refl _, fun o ho => ?_⟩
          have hwp : ((act.apply b).tcb w).priority = (b.tcb w).priority :=
            (hprio w).resolve_left fun hsus => by
              rw [hblocked] at hsus
              cases hsus.2
          rw [howner] at ho
          rcases hprio o with ⟨hfree, -⟩ | hop
          · exact absurd ho (hfree m)
          · rw [hwp, hop]
            exact hfloor.owner o ho
        refine ⟨hctx, ?_⟩
        cases act with
        | park W t timeout => exact absurd he.2.1 (hidle hf.1)
        | acquire x t => exact absurd he.2.1 (hidle hf.1)
        | release x t => exact absurd he.2.1 (hidle hf.1)
        | pass x t next => exact absurd he.2.1 (hidle hf.1)
        | initTcb t site p =>
          refine hsame (fun u => ?_) (by rw [apply_owner he]; rfl)
          by_cases hu : u = t
          · subst hu
            exact Or.inl ⟨he.2.2.2, he.2.1⟩
          · right
            rw [apply_tcb hwf he]
            simp only [Action.tcb, if_neg hu]
        | _ =>
          refine hsame (fun u => Or.inr ?_) (by rw [apply_owner he]; rfl)
          rw [apply_tcb hwf he]
          simp only [Action.tcb]
          try split <;> simp
      · refine ⟨hf.1, Nat.le_refl _, fun o ho => ?_⟩
        rw [apply_owner he] at ho
        have hne : o ≠ w := by
          obtain ⟨-, -, -, o', ho', hne, -⟩ := he
          rw [show b.owner m = some o from ho] at ho'
          cases ho'
          exact hne
        rw [apply_tcb hwf he, apply_tcb hwf he]
        simp only [Action.tcb, if_true, if_neg hne, request_priority, boosted,
          show b.owner m = some o from ho, true_and]
        split <;> omega
  exact (hall hw').2

end

/-! ### Runs -/

/-- `w` parked on `m` with priority `p` and has been parked there since. -/
inductive ParkedSince (config : Config) (w : Tid) (m : MutexId) (p : Nat) : Sys → Prop
  | park {s s' : Sys} (e : Event) (h : Reachable config s) (hs : s.step e = some s')
      (hbefore : ¬ s.k.Parked w m) (hafter : s'.k.Parked w m) (hp : (s'.k.tcb w).priority = p) :
      ParkedSince config w m p s'
  | stay {s s' : Sys} (e : Event) (h : ParkedSince config w m p s) (hs : s.step e = some s')
      (hafter : s'.k.Parked w m) : ParkedSince config w m p s'

namespace ParkedSince

variable {config : Config} {s : Sys} {w : Tid} {m : MutexId} {p : Nat}

theorem parked (h : ParkedSince config w m p s) : s.k.Parked w m := by
  cases h with
  | park e h hs hbefore hafter hp => exact hafter
  | stay e h hs hafter => exact hafter

end ParkedSince

theorem Tracks.sorted {config : Config} {good : Sys → Event → Prop} {s : Sys} {a : Abs}
    (h : Tracks config good s a) : a.Sorted ∧ a.Plain := by
  induction h with
  | init => exact ⟨fun _ => List.Pairwise.nil, fun _ _ => rfl⟩
  | step e h hg hs hruns hinv ih =>
    exact ⟨hruns.sorted h.inv.wf ih.1, hruns.plain h.inv.wf h.inv.owned ih.2⟩

theorem ParkedSince.floor {config : Config} {s : Sys} {w : Tid} {m : MutexId} {p : Nat}
    (h : ParkedSince config w m p s) : ∃ a, Tracks config (fun _ _ => True) s a ∧ a.Floor p w m := by
  have hpark : ∀ {s : Sys} {a : Abs}, Tracks config (fun _ _ => True) s a → (s.k.Parked w m ↔ a.Parked w m) :=
    fun ht => by rw [ht.inv.rep.core_eq]
  induction h with
  | park e h hs hbefore hafter hp =>
    obtain ⟨a, ht⟩ := h.tracks
    obtain ⟨acts, a', hruns, hinv⟩ := ht.inv.step hs
    have ht' := ht.step e trivial hs hruns hinv
    refine ⟨a', ht', ?_⟩
    rw [← hp, hinv.rep.core_eq]
    exact hruns.lifts ht.inv.wf (fun hw => hbefore ((hpark ht).mpr hw)) ((hpark ht').mp hafter)
  | stay e h hs hafter ih =>
    obtain ⟨a, ht, hfloor⟩ := ih
    obtain ⟨acts, a', hruns, hinv⟩ := ht.inv.step hs
    have ht' := ht.step e trivial hs hruns hinv
    exact ⟨a', ht', hruns.floor ht.inv.wf ht.inv.owned ht.sorted.1 ((hpark ht).mp h.parked) hfloor
      ((hpark ht').mp hafter)⟩

theorem Reachable.exists_parkedSince {config : Config} {s : Sys} {w : Tid} {m : MutexId}
    (h : Reachable config s) (hw : s.k.Parked w m) : ∃ p, ParkedSince config w m p s := by
  induction h with
  | init => cases hw
  | step e h hs ih =>
    rename_i s s'
    by_cases hbefore : s.k.Parked w m
    · obtain ⟨p, hp⟩ := ih hbefore
      exact ⟨p, hp.stay e hs hw⟩
    · exact ⟨_, .park e h hs hbefore hw rfl⟩

/-- A task that is parked on a mutex keeps its owner, whoever that is by now, at the priority with which it
parked, and a task without a mutex runs at its base priority. -/
theorem inherited_priority {config : Config} {s : Sys} (h : Reachable config s) :
    (∀ w m, s.k.Parked w m → ∃ o, s.k.owner m = some o ∧ (∃ p, ParkedSince config w m p s) ∧
      ∀ p, ParkedSince config w m p s → p ≤ (s.k.tcb o).priority) ∧
    ∀ t, (∀ m, s.k.owner m ≠ some t) → (s.k.tcb t).priority = (s.k.tcb t).basePriority := by
  obtain ⟨a, ht⟩ := h.tracks
  refine ⟨fun w m hw => ?_, ?_⟩
  · have howned : s.k.owner m ≠ none := by
      have := ht.inv.owned.waited m w (by rw [← ht.inv.rep.core_eq]; exact hw)
      rwa [← ht.inv.rep.core_eq] at this
    obtain ⟨o, ho⟩ := Option.ne_none_iff_exists'.mp howned
    refine ⟨o, ho, h.exists_parkedSince hw, fun p hp => ?_⟩
    obtain ⟨b, hb, hfloor⟩ := hp.floor
    rw [hb.inv.rep.core_eq] at ho ⊢
    exact hfloor.owner o ho
  · rw [ht.inv.rep.core_eq]
    exact ht.sorted.2

/-- A task of priority 1 locks a mutex while one of priority 3 is delayed, which then wakes and locks it too. -/
def Sys.contendRun : List Event :=
  createRun 1 1 ++ createRun 2 3 ++ startRun ++
    [.call (.delayMs 1), .advance, .pendSV 0, .call (.lock 0), .advance, .tick, .pendSV 0, .advance,
      .call (.lock 0)]

/-- The owner runs at the priority of the task that waits. -/
theorem inherited_priority_contend : ∃ s, Sys.run (Sys.init .small) Sys.contendRun = some s ∧
    s.k.owner 0 = some 0 ∧ (s.k.tcb 0).basePriority = 1 ∧ (s.k.tcb 0).priority = 3 ∧
    ∀ p, ParkedSince .small 1 0 p s → p ≤ (s.k.tcb 0).priority := by
  have hrun : ((Sys.run (Sys.init .small) Sys.contendRun).map fun s => (s.k.owner 0,
      (s.k.tcb 0).basePriority, (s.k.tcb 0).priority, (s.k.tcb 1).waitList)) =
      some (some 0, 1, 3, some (.mutex 0)) := by decide +kernel
  obtain ⟨s, hs, hstate⟩ := Option.map_eq_some_iff.mp hrun
  simp only [Prod.mk.injEq] at hstate
  obtain ⟨howner, hbase, hprio, hwait⟩ := hstate
  obtain ⟨o, ho, -, hfloor⟩ := (inherited_priority (Reachable.run .init hs)).1 1 0 hwait
  obtain rfl : 0 = o := Option.some.inj (howner.symm.trans ho)
  exact ⟨s, hs, howner, hbase, hprio, hfloor⟩

end AcRtos
