import AcRtos.Flow
import AcRtos.Inheritance

/-!
# Mutexes taken in rising order

A mutex never times out, so tasks that wait for each other's mutexes wait for ever. The kernel does not prevent this;
the application does, if it ranks its mutexes and every task locks only above all the mutexes it owns (`Sys.Rises`).
Then a task that waits for a mutex owns only mutexes below it (`Core.Climbs`), whatever owner the mutexes are passed
to, and following the owners from a waiter one climbs the ranks up to a task that waits for no mutex (`ordered_locks`).
-/

namespace AcRtos

open Abs Relation

namespace Core

/-- `t` waits for a mutex that `o` owns. -/
def Awaits (e : Core) (t o : Tid) : Prop := ∃ m, e.Parked t m ∧ e.owner m = some o

/-- All mutexes of `t` are below `m`. -/
def Under (rank : MutexId → Nat) (e : Core) (t : Tid) (m : MutexId) : Prop :=
  ∀ x, e.owner x = some t → rank x < rank m

/-- Who waits for a mutex owns mutexes below it only. -/
def Climbs (rank : MutexId → Nat) (e : Core) : Prop := ∀ t m, e.Parked t m → e.Under rank t m

end Core

/-- The mutex that a call asks for. -/
def Call.locks : Call → Option MutexId
  | .lock m => some m
  | _ => none

/-- The application locks a mutex above those that the caller owns. -/
def Sys.Rises (rank : MutexId → Nat) (s : Sys) : Event → Prop
  | .call y => ∀ m ∈ y.locks, ∀ x < s.k.config.mutexes, s.k.owner x ≠ none → s.k.owner x = s.k.currentTask →
      rank x < rank m
  | _ => True

instance (rank : MutexId → Nat) (s : Sys) (e : Event) : Decidable (s.Rises rank e) := by
  unfold Sys.Rises
  split <;> infer_instance

/-! ### Chains of owners -/

namespace Core.Climbs

variable {rank : MutexId → Nat} {e : Core} {t o : Tid} {m m' : MutexId}

theorem lt_of_awaits (h : e.Climbs rank) (hawaits : e.Awaits t o) (ht : e.Parked t m) (ho : e.Parked o m') :
    rank m < rank m' := by
  obtain ⟨x, hx, howner⟩ := hawaits
  obtain rfl : x = m := by
    cases hx.symm.trans ht
    rfl
  exact h o m' ho x howner

theorem lt_of_chain (h : e.Climbs rank) (hchain : TransGen e.Awaits t o) (ht : e.Parked t m) (ho : e.Parked o m') :
    rank m < rank m' := by
  induction hchain generalizing m' with
  | single hawaits => exact h.lt_of_awaits hawaits ht ho
  | tail _ hawaits ih =>
    obtain ⟨x, hx, -⟩ := id hawaits
    exact (ih hx).trans (h.lt_of_awaits hawaits hx ho)

theorem acyclic (h : e.Climbs rank) (t : Tid) : ¬ TransGen e.Awaits t t := by
  intro hchain
  have hparked : ∃ m, e.Parked t m := by
    obtain ⟨o, ⟨m, hm, -⟩, -⟩ := TransGen.head'_iff.mp hchain
    exact ⟨m, hm⟩
  obtain ⟨m, hm⟩ := hparked
  exact Nat.lt_irrefl _ (h.lt_of_chain hchain hm hm)

/-- The ranks end, and so do the chains. -/
theorem exists_last (h : e.Climbs rank) (howned : ∀ t m, e.Parked t m → ∃ o, e.owner m = some o) {bound : Nat}
    (hbound : ∀ m o, e.owner m = some o → rank m < bound) (ht : e.Parked t m) :
    ∃ o, TransGen e.Awaits t o ∧ ∀ m', ¬ e.Parked o m' := by
  obtain ⟨n, hn⟩ : ∃ n, bound - rank m = n := ⟨_, rfl⟩
  induction n using Nat.strongRecOn generalizing t m with
  | ind n ih =>
    obtain ⟨o, ho⟩ := howned t m ht
    have hfirst : e.Awaits t o := ⟨m, ht, ho⟩
    by_cases hwaits : ∃ m', e.Parked o m'
    · obtain ⟨m', hm'⟩ := hwaits
      have hlt := h.lt_of_awaits hfirst ht hm'
      have := hbound m o ho
      obtain ⟨last, hchain, hlast⟩ := ih (bound - rank m') (by omega) hm' rfl
      exact ⟨last, .head hfirst hchain, hlast⟩
    · exact ⟨o, .single hfirst, fun m' hm' => hwaits ⟨m', hm'⟩⟩

end Core.Climbs

/-! ### The order along a run -/

namespace Abs

variable {rank : MutexId → Nat} {a : Abs} {act : Action} {v : Visit} {t : Tid} {m : MutexId}

theorem owner_from (he : act.Enabled a) (ho : (act.apply a).owner m = some t) :
    a.owner m = some t ∨ act = .acquire m t ∨ ∃ o, act = .pass m o t := by
  rw [apply_owner he] at ho
  cases act with
  | acquire x u =>
    by_cases hm : m = x
    · subst hm
      rw [Action.owner, Function.update_self] at ho
      cases ho
      exact .inr (.inl rfl)
    · exact .inl (by rwa [Action.owner, Function.update_of_ne hm] at ho)
  | release x u =>
    by_cases hm : m = x
    · subst hm
      rw [Action.owner, Function.update_self] at ho
      cases ho
    · exact .inl (by rwa [Action.owner, Function.update_of_ne hm] at ho)
  | pass x u next =>
    by_cases hm : m = x
    · subst hm
      rw [Action.owner, Function.update_self] at ho
      cases ho
      exact .inr (.inr ⟨u, rfl⟩)
    · exact .inl (by rwa [Action.owner, Function.update_of_ne hm] at ho)
  | _ => exact .inl ho

/-- The task that begins to wait for `m` owns mutexes below it only. -/
def Begun (rank : MutexId → Nat) (v : Visit) (a : Abs) : Prop :=
  ∀ t m, v.ctx = .task t → v.after = .yieldWait (.lock m) → a.Under rank t m

theorem Begun.apply (h : a.Begun rank v) (hwf : a.WF) (he : act.Enabled a) (hf : act.Fits v a) :
    (act.apply a).Begun rank v := by
  intro t m hctx hafter x hx
  rcases owner_from he hx with hx | rfl | ⟨o, rfl⟩
  · exact h t m hctx hafter x hx
  · rw [hf.2.1] at hafter
    cases hafter
  · -- the caller passes a mutex on, and runs
    rw [hf.1] at hctx
    cases hctx
    have hblocked := (hwf.mem_wait.mp (List.mem_of_mem_head? he.2.2)).1
    rw [he.2.1] at hblocked
    cases hblocked

theorem climbs_apply (h : a.Climbs rank) (hbegun : a.Begun rank v) (hwf : a.WF) (he : act.Enabled a)
    (hf : act.Fits v a) : (act.apply a).Climbs rank := by
  intro t m hparked x hx
  rcases parked_apply hwf he hparked with hold | rfl
  case inr =>
    rw [apply_owner he] at hx
    exact hbegun t m hf.1 hf.2.2.1 x hx
  case inl =>
    have hblocked := hwf.blocked_of_parked hold
    rcases owner_from he hx with hx | rfl | ⟨o, rfl⟩
    · exact h t m hold x hx
    · rw [he.2.1] at hblocked
      cases hblocked
    · -- the new owner waits no longer
      have hne : t ≠ o := by
        rintro rfl
        rw [he.2.1] at hblocked
        cases hblocked
      rw [Core.Parked, apply_tcb hwf he] at hparked
      simp [Action.tcb, hne] at hparked

theorem climbs_runs {a' : Abs} {acts : List Action} (hruns : Runs v a acts a') (hwf : a.WF) (h : a.Climbs rank)
    (hbegun : a.Begun rank v) : a'.Climbs rank := by
  have hall : a'.Climbs rank ∧ a'.Begun rank v := by
    refine hruns.keeps (P := fun b => b.Climbs rank ∧ b.Begun rank v) hwf ⟨h, hbegun⟩ ?_
    rintro act b hwf ⟨hc, hb⟩ he hf
    exact ⟨climbs_apply hc hb hwf he hf, hb.apply hwf he hf⟩
  exact hall.1

end Abs

section
variable {config : Config} {rank : MutexId → Nat} {s s' : Sys} {a : Abs} {e : Event}

theorem Inv.begun (h : Inv s a) (hs : s.step e = some s') (hrises : s.Rises rank e) : a.Begun rank (s.visit e s') := by
  intro t m hctx hafter x hx
  cases e with
  | call y =>
    obtain ⟨-, -, -, -, -, rfl⟩ := Sys.step_call.mp hs
    have hafter : (s.beginCall s.k.self y).pc s.k.self = .yieldWait (.lock m) := hafter
    have hbegins := Sys.beginCall_begins (s := s) (c := s.k.self) y
    rw [hafter] at hbegins
    have hwaits := hbegins.wait
    cases y with
    | lock m' =>
      cases hwaits
      have hcur := Core.self_task (show s.k.self = .task t from hctx)
      have hlt := (h.owned.owner_lt x t hx).2
      rw [h.rep.core_eq] at hcur
      unfold Sys.Rises at hrises
      rw [h.rep.core_eq, hcur] at hrises
      exact hrises m rfl x hlt (by rw [hx]; exact Option.some_ne_none t) hx
    | _ => cases hwaits
  | advance =>
    obtain ⟨-, -, hadv⟩ := Sys.step_advance.mp hs
    have hafter : s'.pc s.k.self = .yieldWait (.lock m) := hafter
    have hgoes := Sys.advance_goes hadv
    rw [hafter] at hgoes
    obtain ⟨hbody, hwait⟩ := hgoes.wait
    cases hpc : s.pc s.k.self <;> rw [hpc] at hwait <;> cases hwait
  | _ => cases hafter

theorem Tracks.climbs (h : Tracks config (Sys.Rises rank) s a) : a.Climbs rank := by
  induction h with
  | init => exact fun t m hparked => by cases hparked
  | step e htracks hrises hs hruns hinv ih =>
    exact climbs_runs hruns htracks.inv.wf ih (htracks.inv.begun hs hrises)

/-- If the tasks lock mutexes in the order of their ranks only, no task waits for itself in a circle of owners, and
behind every task that waits for a mutex there is an owner that waits for none. -/
theorem ordered_locks {es : List Event} (hrun : (Sys.init config).run es = some s)
    (hes : (Sys.init config).Each (Sys.Rises rank) es) :
    (∀ t, ¬ TransGen s.k.Awaits t t) ∧
      ∀ t m, s.k.Parked t m → ∃ o, TransGen s.k.Awaits t o ∧ ∀ m', ¬ s.k.Parked o m' := by
  obtain ⟨a, htracks⟩ := Tracks.run .init hrun hes
  have hclimbs := htracks.climbs
  have howned := htracks.inv.owned
  rw [htracks.inv.rep.core_eq]
  have hbound : ∀ m o, a.owner m = some o → rank m < (Finset.range a.config.mutexes).sup rank + 1 := by
    intro m o ho
    have hmem : m ∈ Finset.range a.config.mutexes := Finset.mem_range.mpr (howned.owner_lt m o ho).2
    exact Nat.lt_succ_of_le (Finset.le_sup hmem)
  refine ⟨hclimbs.acyclic, fun t m ht => ?_⟩
  exact hclimbs.exists_last (fun t m hm => Option.ne_none_iff_exists'.mp (howned.waited m t hm)) hbound ht

/-- Task 2 waits for a mutex of task 1, which waits for one of task 0. -/
def Sys.chainRun : List Event :=
  createRun 1 1 ++ createRun 2 2 ++ createRun 3 3 ++ startRun ++
    [.call (.delayMs 3), .advance, .pendSV 0, .call (.lock 0), .advance, .call (.delayMs 2), .advance, .pendSV 0,
      .call (.lock 1), .advance, .tick, .tick, .pendSV 0, .advance, .call (.lock 1), .advance, .pendSV 0, .tick,
      .pendSV 0, .advance, .call (.lock 0)]

theorem ordered_locks_chain :
    ∃ s, (Sys.init .small).run Sys.chainRun = some s ∧ s.k.Parked 2 0 ∧ s.k.Awaits 2 1 ∧
    s.k.Awaits 1 0 ∧ ¬ TransGen s.k.Awaits 2 2 ∧
    ∃ o, TransGen s.k.Awaits 2 o ∧ ∀ m', ¬ s.k.Parked o m' := by
  have hrun : ((Sys.init .small).run Sys.chainRun).map
      (fun s => ((s.k.tcb 2).waitList, s.k.owner 0, (s.k.tcb 1).waitList,
      s.k.owner 1)) = some (some (.mutex 0), some 1, some (.mutex 1), some 0) := by decide +kernel
  have hrises : (Sys.init .small).Each (Sys.Rises id) Sys.chainRun := by decide +kernel
  obtain ⟨s, hs, hstate⟩ := Option.map_eq_some_iff.mp hrun
  simp only [Prod.mk.injEq] at hstate
  obtain ⟨hw₂, ho₀, hw₁, ho₁⟩ := hstate
  obtain ⟨hacyclic, hlast⟩ := ordered_locks hs hrises
  exact ⟨s, hs, hw₂, ⟨0, hw₂, ho₀⟩, ⟨1, hw₁, ho₁⟩, hacyclic 2, hlast 2 0 hw₂⟩

end

end AcRtos
