import AcRtos.QueueWaits
import AcRtos.Told

/-!
# Mutual exclusion

A task is `Locked` in a mutex from the return of a `lock()` with true until it calls `unlock()`. The return finds
it the owner (`Call.Leaves`), and from then on only its own `unlock()` can make somebody else the owner: the
actions that take a mutex away are those of a task inside that call (`Action.Fits`). The held lists are those of
`Abs.Owned`, represented by the links of the mutexes.
-/

namespace AcRtos

open Abs AcRtos.Core

section
variable {m : MutexId} {t : Tid} {tr os : List Obs}

/-- `t` is between a `lock()` of `m` that returned true and its next `unlock()` of `m`. -/
def Locked (m : MutexId) (t : Tid) (tr : List Obs) : Prop :=
  ∃ pre post, tr = pre ++ .ret (.task t) (.bool true) :: post ∧
    (talk (.task t) pre).asked = some (.inl (.lock m)) ∧ Obs.call (.task t) (.unlock m) ∉ post

theorem Locked.of_append (h : Locked m t (tr ++ os)) (hos : Obs.ret (.task t) (.bool true) ∉ os) :
    Locked m t tr ∧ Obs.call (.task t) (.unlock m) ∉ os := by
  obtain ⟨pre, post, heq, hasked, hno⟩ := h
  obtain ⟨post', htr, rfl⟩ := split_append heq hos
  rw [List.mem_append, not_or] at hno
  exact ⟨⟨pre, post', htr, hasked, hno.1⟩, hno.2⟩

theorem Locked.not_asked (h : Locked m t tr) : (talk (.task t) tr).asked ≠ some (.inl (.unlock m)) := by
  obtain ⟨pre, post, rfl, -, hno⟩ := h
  exact fun hasked => hno (call_mem_of_asked hasked)

end

/-! ### The owner -/

section
variable {v : Visit} {a a' : Abs} {act : Action} {acts : List Action} {m : MutexId} {t : Tid}

theorem owner_kept_apply (he : act.Enabled a) (hf : act.Fits v a) (ho : a.owner m = some t)
    (hasked : (talk (.task t) a.trace).asked ≠ some (.inl (.unlock m))) : (act.apply a).owner m = some t := by
  rw [apply_owner he]
  have hkeep : ∀ {x u new}, a.owner x = some u → (talk (.task u) a.trace).asked = some (.inl (.unlock x)) →
      Function.update a.owner x new m = some t := by
    intro x u new hx hin
    by_cases hm : m = x
    · subst hm
      rw [ho] at hx
      cases hx
      exact absurd hin hasked
    · rw [Function.update_of_ne hm, ho]
  cases act with
  | acquire x u =>
    by_cases hm : m = x
    · subst hm
      rw [he.1] at ho
      cases ho
    · simp only [Action.owner, Function.update_of_ne hm, ho]
  | release x u => exact hkeep he.1 hf.2.1
  | pass x u next => exact hkeep he.1 hf.2.1
  | _ => exact ho

theorem Runs.owner_kept (h : Runs v a acts a') (hwf : a.WF) (hs : a.Starved) (ho : a.owner m = some t)
    (hasked : (talk (.task t) a.trace).asked ≠ some (.inl (.unlock m)))
    (hno : ∀ os, a'.trace = a.trace ++ os → Obs.call (.task t) (.unlock m) ∉ os) : a'.owner m = some t := by
  have hall : ∃ os, a'.trace = a.trace ++ os ∧ (Obs.call (.task t) (.unlock m) ∉ os → a'.owner m = some t) := by
    refine h.traced (Q := fun os b => Obs.call (.task t) (.unlock m) ∉ os → b.owner m = some t)
      hwf hs (fun _ => ho) ?_
    intro act b os _ _ htrace hkept he hf hnot
    rw [List.mem_append, not_or] at hnot
    refine owner_kept_apply he hf (hkept hnot.1) fun hin => ?_
    rw [htrace] at hin
    exact (talk_asked_call hin).elim hnot.1 hasked
  obtain ⟨os, htrace, hkept⟩ := hall
  exact hkept (hno os htrace)

end

namespace Inv

variable {σ : Slips} {s s' : Sys} {a : Abs} {e : Event} {m : MutexId} {t : Tid}

theorem locked_step (h : Inv s a) (hs : s.step e = some s') (hσ : s.Admits σ e) (htold : s.Told σ)
    (hold : Locked m t s.k.trace → s.k.owner m = some t) (hlocked : Locked m t s'.k.trace) :
    s'.k.owner m = some t := by
  have hkept : ∀ os, s'.k.trace = s.k.trace ++ os → Obs.ret (.task t) (.bool true) ∉ os →
      s'.k.owner m = some t := by
    intro os htrace hos
    rw [htrace] at hlocked
    obtain ⟨hbefore, hno⟩ := hlocked.of_append hos
    have ho := hold hbefore
    obtain ⟨acts, a', hruns, hinv⟩ := h.step hs
    have hnot := hbefore.not_asked
    rw [hinv.rep.core_eq, h.rep.core_eq] at htrace
    rw [h.rep.core_eq] at ho hnot
    rw [hinv.rep.core_eq]
    refine hruns.owner_kept h.wf h.starved ho hnot fun os' htrace' => ?_
    rw [List.append_cancel_left (htrace'.symm.trans htrace)]
    exact hno
  cases h.speaks hs hσ htold (c := .task t) (by simp) with
  | nothing os htrace hos =>
    exact hkept os htrace fun hmem => by cases hos _ hmem rfl
  | call x os he hself htrace hos =>
    refine hkept _ htrace fun hmem => ?_
    rcases List.mem_cons.mp hmem with hmem | hmem
    · cases hmem
    · cases hos _ hmem
  | ret r he hself hpc hk =>
    -- the return of `lock()` itself, or of a later call
    have hsaid := htold (.task t)
    rw [hpc] at hsaid
    obtain ⟨x, os, htalk, -, hleaves⟩ := hsaid
    rw [hk] at hlocked ⊢
    obtain ⟨pre, post, heq, hasked, hno⟩ := hlocked
    rcases List.eq_nil_or_concat post with rfl | ⟨post', o, rfl⟩
    · obtain ⟨hpre, hlast⟩ := List.append_inj' (show s.k.trace ++ [_] = _ from heq) rfl
      cases List.singleton_inj.mp hlast
      rw [← hpre, htalk] at hasked
      cases hasked
      rcases hleaves t rfl with ⟨-, ho⟩ | ⟨hr, -⟩
      · exact ho
      · cases hr
    · rw [List.concat_eq_append, ← List.cons_append, ← List.append_assoc] at heq
      obtain ⟨hpre, -⟩ := List.append_inj' (show s.k.trace ++ [_] = _ from heq) rfl
      exact hold ⟨pre, post', hpre, hasked, fun hmem => hno (by simp [hmem])⟩

end Inv

theorem Tracks.locked {config : Config} {good : Sys → Event → Prop} {s : Sys} {a : Abs}
    (h : Tracks config good s a) {m : MutexId} {t : Tid} (hlocked : Locked m t s.k.trace) : s.k.owner m = some t := by
  induction h with
  | init =>
    obtain ⟨pre, post, heq, -⟩ := hlocked
    simp [Sys.init, Kernel.init] at heq
  | step e h hg hs hruns hinv ih => exact h.inv.locked_step hs (Sys.admits_slips hg) h.told.1 ih hlocked

/-- Mutual exclusion and the bookkeeping of owners: who is between a `lock()` that returned true and its `unlock()`
is the owner, so nobody else is; the held list of every task is finite, has each of its mutexes once and no other,
and the loops over it end; and tasks are parked only on a mutex with an owner. -/
theorem mutual_exclusion {config : Config} {s : Sys} (h : Reachable config s) :
    (∀ m t, Locked m t s.k.trace → s.k.owner m = some t) ∧
    (∀ m t u, Locked m t s.k.trace → Locked m u s.k.trace → t = u) ∧
    (∀ t, ∃ ms, Path s.k.held.nextHeld (s.k.held.heldMutexes t) ms ∧
      ∀ m, ms.count m = if s.k.owner m = some t then 1 else 0) ∧
    (∀ t, Mutex.recomputePriority t s.k ≠ none) ∧
    (∀ m t, s.k.owner m = some t → HeldList.removeHeld config.mutexes m t s.k.held ≠ none) ∧
    s.k.fault ≠ some .endlessLoop ∧
    ∀ m t, s.k.WaitsOn t (.mutex m) → s.k.owner m ≠ none := by
  obtain ⟨a, htracks⟩ := h.tracks
  have hi := htracks.inv
  have hcore := hi.rep.core_eq
  have hlocked : ∀ m t, Locked m t s.k.trace → s.k.owner m = some t := fun m t => htracks.locked
  refine ⟨hlocked, fun m t u ht hu => ?_, fun t => ⟨a.heldBy t, hi.rep.held.path t, fun m => ?_⟩, fun t hn => ?_,
    fun m t ho hn => ?_, fun hf => ?_, fun m t hw => ?_⟩
  · exact Option.some.inj ((hlocked m t ht).symm.trans (hlocked m u hu))
  · rw [hcore]
    split
    · exact List.count_eq_one_of_mem (hi.owned.nodup t) ((hi.owned.held_iff m t).mpr ‹_›)
    · exact List.count_eq_zero_of_not_mem fun hm => ‹¬ _› ((hi.owned.held_iff m t).mp hm)
  · unfold Mutex.recomputePriority at hn
    rw [hcore, HeldList.maxWaiter_eq (hi.rep.held.path t) (hi.owned.length_le t)] at hn
    cases hn
  · rw [hcore] at ho
    have hlen := hi.owned.length_le t
    rw [htracks.config_eq] at hlen
    obtain ⟨s', hs', -⟩ := HeldList.removeHeld_represents hi.rep.held ((hi.owned.held_iff m t).mpr ho) hlen
    rw [hs'] at hn
    cases hn
  · cases h.fault_expected hf
  · rw [hcore] at hw ⊢
    exact hi.owned.waited m t hw

/-- A task locks a mutex. -/
def Sys.lockRun : List Event := createRun 1 2 ++ startRun ++ [.call (.lock 0), .advance]

theorem mutual_exclusion_lock : ∃ s, Sys.run (Sys.init .small) Sys.lockRun = some s ∧
    s.k.trace.getLast? = some (.ret (.task 0) (.bool true)) ∧ s.k.owner 0 = some 0 := by
  have hrun : ((Sys.run (Sys.init .small) Sys.lockRun).map fun s =>
      (s.k.trace.getLast?, (talk (.task 0) s.k.trace.dropLast).asked)) =
      some (some (.ret (.task 0) (.bool true)), some (.inl (.lock 0))) := by decide +kernel
  obtain ⟨s, hs, hends⟩ := Option.map_eq_some_iff.mp hrun
  obtain ⟨hlast, hasked⟩ := Prod.mk.inj hends
  refine ⟨s, hs, hlast, (mutual_exclusion (Reachable.run .init hs)).1 0 0 ?_⟩
  exact ⟨s.k.trace.dropLast, [], (List.dropLast_append_getLast? _ hlast).symm, hasked, List.not_mem_nil⟩

end AcRtos
