import AcRtos.MutualExclusion

/-!
# Lock guards

The constructor of a `LockGuard` calls `lock()` and its destructor `unlock()`; nothing remembers whether the
`lock()` succeeded. `guards t` reads the guards of a task off the history: one is put on the stack when its
`lock()` returns, with the result, and taken off when its `unlock()` begins. `Guarded` ties the stack to the
owners: the mutexes of the guards that obtained one are exactly those the task owns, and no other guard stands
above such a guard on the same mutex. The last is what a second guard of the owner on its mutex would break: it
fails, and its destructor gives away what the first one obtained.
-/

namespace AcRtos

open Abs AcRtos.Core

/-- `LockGuard(m)` with the assertion compiled out. -/
def LockGuard.constructor (m : MutexId) : Call := .lock m

/-- `~LockGuard()` -/
def LockGuard.destructor (m : MutexId) : Call := .unlock m

/-! ### The guards of a task -/

/-- A guard: its mutex, and whether its `lock()` returned true. -/
abbrev Guard := MutexId × Bool

/-- Where a task is in its call, and its guards, the innermost first. -/
structure Scope where
  talk : Talk := {}
  guards : List Guard := []

namespace Scope

/-- A guard whose `lock()` returns is constructed. -/
def returns (k : Scope) (r : Ret) : List Guard :=
  match k.talk.asked, r with
  | some (.inl (.lock m)), .bool b => (m, b) :: k.guards
  | _, _ => k.guards

/-- A guard whose `unlock()` is called is no more. -/
def calls (k : Scope) (x : Call) : List Guard :=
  match x with
  | .unlock _ => k.guards.tail
  | _ => k.guards

def step (t : Tid) (k : Scope) (o : Obs) : Scope where
  talk := k.talk.step (.task t) o
  guards :=
    match o with
    | .ret c r => if c = .task t then k.returns r else k.guards
    | .call c x => if c = .task t then k.calls x else k.guards
    | _ => k.guards

end Scope

def scope (t : Tid) (tr : List Obs) : Scope := tr.foldl (Scope.step t) {}

def guards (t : Tid) (tr : List Obs) : List Guard := (scope t tr).guards

section
variable {t : Tid} {tr os : List Obs} {m : MutexId} {r : Ret} {x : Call}

theorem scope_append : scope t (tr ++ os) = os.foldl (Scope.step t) (scope t tr) := List.foldl_append

@[simp] theorem scope_talk (t : Tid) (tr : List Obs) : (scope t tr).talk = talk (.task t) tr := by
  induction tr using List.reverseRecOn with
  | nil => rfl
  | append_singleton tr o ih =>
    rw [scope_append, talk_concat, ← ih]
    rfl

theorem guards_append (h : ∀ o ∈ os, o.ctx = some (.task t) → o.isMark = false) :
    guards t (tr ++ os) = guards t tr := by
  induction os generalizing tr with
  | nil => rw [List.append_nil]
  | cons o os ih =>
    have hstep : guards t (tr ++ [o]) = guards t tr := by
      unfold guards
      rw [scope_append]
      have ho := h o (by simp)
      cases o with
      | call c x =>
        by_cases hc : c = .task t
        · subst hc
          cases ho rfl
        · simp [Scope.step, hc]
      | ret c r =>
        by_cases hc : c = .task t
        · subst hc
          cases ho rfl
        · simp [Scope.step, hc]
      | _ => rfl
    rw [List.append_cons, ih fun o ho => h o (by simp [ho]), hstep]

theorem guards_call : guards t (tr ++ [.call (.task t) x]) = (scope t tr).calls x := by
  unfold guards
  rw [scope_append]
  simp [Scope.step]

theorem guards_ret : guards t (tr ++ [.ret (.task t) r]) = (scope t tr).returns r := by
  unfold guards
  rw [scope_append]
  simp [Scope.step]

end

namespace Sys

/-- The innermost guard of the running task. -/
def innermost (s : Sys) : Option Guard := s.k.currentTask.bind fun t => (guards t s.k.trace).head?

/-- `unlock()` is called by the destructor of the innermost guard only. -/
def Nests (s : Sys) : Event → Prop
  | .call (.unlock m) => s.innermost.map Prod.fst = some m
  | _ => True

/-- No guard is constructed over a mutex that its task owns already. -/
def Fresh (s : Sys) : Event → Prop
  | .call (.lock m) => s.k.currentTask = none ∨ s.k.owner m ≠ s.k.currentTask
  | _ => True

instance (s : Sys) (e : Event) : Decidable (s.Nests e) := by
  unfold Nests
  split <;> infer_instance

instance (s : Sys) (e : Event) : Decidable (s.Fresh e) := by
  unfold Fresh
  split <;> infer_instance

variable {s : Sys} {m : MutexId} {t : Tid}

theorem Nests.top (h : s.Nests (.call (LockGuard.destructor m))) (ht : s.k.currentTask = some t) :
    ∃ b rest, guards t s.k.trace = (m, b) :: rest := by
  have hinner : s.innermost.map Prod.fst = some m := h
  rw [innermost, ht, Option.bind_some] at hinner
  cases hguards : guards t s.k.trace with
  | nil =>
    rw [hguards] at hinner
    cases hinner
  | cons g rest =>
    rw [hguards] at hinner
    obtain rfl : g.1 = m := Option.some.inj hinner
    exact ⟨g.2, rest, rfl⟩

theorem Fresh.alien (h : s.Fresh (.call (LockGuard.constructor m))) (ht : s.k.currentTask = some t) :
    s.k.owner m ≠ some t := by
  rcases h with hnone | hne
  · rw [ht] at hnone
    cases hnone
  · rwa [ht] at hne

theorem Fresh.not_relocks {e : Event} (h : s.Fresh e) : ¬ s.Relocks e := by
  rintro ⟨m, t, rfl, ht, ho⟩
  exact h.alien ht ho

end Sys

/-! ### Who gets a mutex -/

section
variable {v : Visit} {a a' : Abs} {act : Action} {acts : List Action} {m : MutexId} {t : Tid}

theorem owner_gained_apply (he : act.Enabled a) (hf : act.Fits v a) (ho : a.owner m ≠ some t)
    (ho' : (act.apply a).owner m = some t) :
    (talk (.task t) a.trace).asked = some (.inl (.lock m)) ∨ ∃ o, act = .pass m o t := by
  rw [apply_owner he] at ho'
  cases act with
  | acquire x u =>
    by_cases hm : m = x
    · subst hm
      simp only [Action.owner, Function.update_self, Option.some.injEq] at ho'
      subst ho'
      exact Or.inl hf.2.2
    · simp only [Action.owner, Function.update_of_ne hm] at ho'
      exact absurd ho' ho
  | release x u =>
    by_cases hm : m = x
    · subst hm
      simp [Action.owner] at ho'
    · simp only [Action.owner, Function.update_of_ne hm] at ho'
      exact absurd ho' ho
  | pass x u next =>
    by_cases hm : m = x
    · subst hm
      simp only [Action.owner, Function.update_self, Option.some.injEq] at ho'
      subst ho'
      exact Or.inr ⟨u, rfl⟩
    · simp only [Action.owner, Function.update_of_ne hm] at ho'
      exact absurd ho' ho
  | _ => exact absurd ho' ho

theorem asked_of_pass {σ : Slips} {p : Pc} {o : Tid} (hwf : a.WF) (he : (Action.pass m o t).Enabled a)
    (hfree : p.wait = none → a.Free (.task t)) (hsaid : p.Said σ a.toCore (.task t)) :
    (talk (.task t) a.trace).asked = some (.inl (.lock m)) := by
  have hwaits := (hwf.mem_wait.mp (List.mem_of_mem_head? he.2.2)).2
  have hcall : ∀ {u x W}, Ctx.task t = .task u → a.Waits σ u x W →
      (talk (.task t) a.trace).asked = some (.inl (.lock m)) := by
    rintro u x W ⟨⟩ ⟨hx, hw | hw | hw⟩
    · have hlist := hw.list
      rw [hwaits] at hlist
      cases W <;> cases hlist
      cases x <;> cases hx
      rw [hw.asks]
    · rw [hw.list] at hwaits
      cases hwaits
    · rw [hw.list] at hwaits
      cases hwaits
  cases p with
  | yieldWait W =>
    obtain ⟨u, x, hu, hw⟩ := hsaid
    exact hcall hu hw
  | finish W =>
    obtain ⟨u, x, hu, hw⟩ := hsaid
    exact hcall hu hw
  | _ => exact absurd rfl ((hfree rfl).ne hwaits)

theorem Runs.owner_gained {σ : Slips} {p : Pc} (h : Runs v a acts a') (hwf : a.WF) (hs : a.Starved)
    (hsaid : v.ctx = .task t ∨ (p.wait = none → a.Free (.task t)) ∧ p.Said σ a.toCore (.task t))
    (hasked : (talk (.task t) a.trace).asked ≠ some (.inl (.lock m)))
    (hno : ∀ os, a'.trace = a.trace ++ os → Obs.call (.task t) (.lock m) ∉ os) (ho' : a'.owner m = some t) :
    a.owner m = some t := by
  let Q : List Obs → Abs → Prop := fun os b =>
    (v.ctx = .task t ∨ (p.wait = none → b.Free (.task t)) ∧ p.Said σ b.toCore (.task t)) ∧
    (b.owner m = some t → a.owner m = some t ∨ Obs.call (.task t) (.lock m) ∈ os)
  have hall : ∃ os, a'.trace = a.trace ++ os ∧ Q os a' := by
    refine h.traced (Q := Q) hwf hs ⟨hsaid, Or.inl⟩ ?_
    rintro act b os hwf hs htrace ⟨hsaid, hgained⟩ he hf
    refine ⟨?_, fun ho => ?_⟩
    · by_cases hc : v.ctx = .task t
      · exact Or.inl hc
      · obtain ⟨hfree, hsaid⟩ := hsaid.resolve_left hc
        have hruns : Runs v b [act] (act.apply b) := ⟨he, hf, rfl⟩
        exact Or.inr ⟨fun hp => free_apply hwf he hf (Ne.symm hc) (hfree hp),
          hruns.said hwf hs (Ne.symm hc) hfree hsaid⟩
    · by_cases hwas : b.owner m = some t
      · exact (hgained hwas).imp_right fun hm => List.mem_append_left _ hm
      · have hin : (talk (.task t) b.trace).asked = some (.inl (.lock m)) := by
          rcases owner_gained_apply he hf hwas ho with hin | ⟨o, rfl⟩
          · exact hin
          · rcases hsaid with hc | ⟨hfree, hsaid⟩
            · rw [hf.1] at hc
              cases hc
              exact absurd he.1 hwas
            · exact asked_of_pass hwf he hfree hsaid
        rw [htrace] at hin
        exact Or.inr (List.mem_append_left _ ((talk_asked_call hin).resolve_right hasked))
  obtain ⟨os, htrace, -, hgained⟩ := hall
  exact (hgained ho').resolve_right (hno os htrace)

end

/-! ### What `unlock()` does to the owners -/

section
variable {k : Kernel} {a : Abs} {m : MutexId} {t : Tid}

theorem unlock_owner_refused (h : k.currentTask ≠ k.owner m) : (Mutex.unlock m k).2.owner = k.owner := by
  unfold Mutex.unlock
  rw [if_pos h]
  exact (check_keeps _ _ _).2

theorem restorePriority_owner (t : Tid) (b : Bool) (k : Kernel) :
    (Mutex.restorePriority t b k).2.owner = k.owner := by
  unfold Mutex.restorePriority
  split
  · rfl
  · split
    · exact setTaskPriority_owner _ _ _
    · rfl

theorem makeTaskReady_owner (t : Tid) (k : Kernel) : (Scheduler.makeTaskReady t k).2.owner = k.owner := by
  unfold Scheduler.makeTaskReady
  split
  · rfl
  · exact (check_keeps _ _ _).2

theorem handOff_owner (m : MutexId) (k : Kernel) :
    (Mutex.handOff m k).2.owner m = (WaitQueue.wakeHighest (.mutex m) k).1 := by
  unfold Mutex.handOff
  simp only
  split
  · rename_i next hnext
    rw [makeTaskReady_owner, hnext]
    exact Function.update_self _ _ _
  · rename_i hnone
    rw [hnone]
    exact Function.update_self _ _ _

theorem unlock_lets_go (h : Rep k a) (hi : a.Entered) (hcur : k.currentTask = some t) :
    (Mutex.unlock m k).2.owner m ≠ some t := by
  by_cases howner : k.currentTask = k.owner m
  · unfold Mutex.unlock
    rw [if_neg (not_not.mpr howner)]
    simp only [hcur]
    -- the held list does not matter to the wait list
    have hfirst : ∀ k' : Kernel, k'.links = k.links → (WaitQueue.wakeHighest (.mutex m) k').1 =
        (WaitQueue.wakeHighest (.mutex m) k).1 := by
      intro k' hlinks
      unfold WaitQueue.wakeHighest
      rw [hlinks]
      simp only
      split <;> rfl
    rw [restorePriority_owner, handOff_owner, hfirst _ (by split <;> rfl)]
    cases hseq : a.seq (.wait (.mutex m)) with
    | nil =>
      rw [h.wakeHighest_nil hseq]
      exact nofun
    | cons u xs =>
      rw [(h.wakeHighest hseq).1]
      rintro ⟨⟩
      have hrun := hi.running t (h.core_eq ▸ hcur)
      rw [(hi.wf.mem_wait.mp (by rw [hseq]; exact List.mem_cons_self)).1] at hrun
      cases hrun
  · rw [unlock_owner_refused howner, ← hcur]
    exact Ne.symm howner

end

/-! ### The invariant -/

/-- The mutexes of the guards of `t` that obtained one are those that `t` owns. -/
structure Guarded (e : Core) (t : Tid) : Prop where
  owns : ∀ m, (m, true) ∈ guards t e.trace → e.owner m = some t
  owned : ∀ m, e.owner m = some t →
    (m, true) ∈ guards t e.trace ∨ (talk (.task t) e.trace).asked = some (.inl (.lock m))
  outside : ∀ m, (talk (.task t) e.trace).asked = some (.inl (.lock m)) ∨
    (talk (.task t) e.trace).asked = some (.inl (.unlock m)) → (m, true) ∉ guards t e.trace
  apart : (guards t e.trace).Pairwise fun x y => y.2 = true → x.1 ≠ y.1

section
variable {σ : Slips} {s s' : Sys} {a : Abs} {e : Event} {t : Tid} {m : MutexId}

theorem Guarded.not_under {e : Core} {b : Bool} {rest : List Guard} (h : Guarded e t)
    (hguards : guards t e.trace = (m, b) :: rest) : (m, true) ∉ rest := by
  have hapart := h.apart
  rw [hguards] at hapart
  exact fun hmem => (List.pairwise_cons.mp hapart).1 _ hmem rfl rfl

theorem Inv.unlocked (h : Inv s a) (hs : s.step (.call (.unlock m)) = some s') (ht : s.k.currentTask = some t) :
    s'.k.owner m ≠ some t := by
  obtain ⟨-, rfl, he⟩ := h.call_begins hs
  have hrep := h.rep.core (·.emit (.call s.k.self (.unlock m)))
  rw [h.self_eq] at hrep
  rw [h.self_eq]
  exact unlock_lets_go hrep he ht

/-- In a step a task loses a mutex by its own `unlock()` only, and gets one in its own `lock()` only. -/
theorem Inv.owner_moves (h : Inv s a) (hs : s.step e = some s') (htold : s.Told σ) {os : List Obs}
    (htrace : s'.k.trace = s.k.trace ++ os) (m : MutexId) (t : Tid) :
    ((talk (.task t) s.k.trace).asked ≠ some (.inl (.unlock m)) → Obs.call (.task t) (.unlock m) ∉ os →
      s.k.owner m = some t → s'.k.owner m = some t) ∧
    ((talk (.task t) s.k.trace).asked ≠ some (.inl (.lock m)) → Obs.call (.task t) (.lock m) ∉ os →
      s'.k.owner m = some t → s.k.owner m = some t) := by
  obtain ⟨acts, a', hruns, hinv⟩ := h.step hs
  rw [h.rep.core_eq, hinv.rep.core_eq] at htrace ⊢
  have hos : ∀ os', a'.trace = a.trace ++ os' → os' = os := fun os' htrace' =>
    List.append_cancel_left (htrace'.symm.trans htrace)
  refine ⟨fun hasked hno ho => ?_, fun hasked hno ho => ?_⟩
  · exact hruns.owner_kept h.wf h.starved ho hasked fun os' htrace' => hos os' htrace' ▸ hno
  · refine hruns.owner_gained (σ := σ) (p := s.pc (.task t)) h.wf h.starved ?_ hasked
      (fun os' htrace' => hos os' htrace' ▸ hno) ho
    by_cases hc : (s.visit e s').ctx = .task t
    · exact Or.inl hc
    · exact Or.inr ⟨h.free, h.rep.core_eq ▸ htold (.task t)⟩

theorem Guarded.nothing (hg : Guarded s.k.toCore t) (h : Inv s a) (hs : s.step e = some s') (htold : s.Told σ)
    {os : List Obs} (htrace : s'.k.trace = s.k.trace ++ os)
    (hos : ∀ o ∈ os, o.ctx = some (.task t) → o.isMark = false) : Guarded s'.k.toCore t := by
  have hguards : guards t s'.k.trace = guards t s.k.trace := by rw [htrace, guards_append hos]
  have hasked : (talk (.task t) s'.k.trace).asked = (talk (.task t) s.k.trace).asked := by
    rw [htrace]
    exact talk_asked_append hos
  have hno : ∀ x, Obs.call (.task t) x ∉ os := fun x hmem => by cases hos _ hmem rfl
  refine ⟨fun m hm => ?_, fun m ho => ?_, fun m => ?_, ?_⟩
  · rw [hguards] at hm
    exact (h.owner_moves hs htold htrace m t).1 (fun hin => hg.outside m (Or.inr hin) hm) (hno _) (hg.owns m hm)
  · rw [hguards, hasked]
    by_cases hin : (talk (.task t) s.k.trace).asked = some (.inl (.lock m))
    · exact Or.inr hin
    · exact hg.owned m ((h.owner_moves hs htold htrace m t).2 hin (hno _) ho)
  · rw [hguards, hasked]
    exact hg.outside m
  · rw [hguards]
    exact hg.apart

theorem Guarded.call {x : Call} (hg : Guarded s.k.toCore t) (h : Inv s a) (hs : s.step (.call x) = some s')
    (htold : s.Told σ) (hself : s.k.self = .task t) (hnests : s.Nests (.call x)) (hfresh : s.Fresh (.call x))
    {os : List Obs} (htrace : s'.k.trace = s.k.trace ++ .call (.task t) x :: os)
    (hos : ∀ o ∈ os, o.isMark = false) : Guarded s'.k.toCore t := by
  have hcur : s.k.currentTask = some t := self_task hself
  have htalk : talk (.task t) s.k.trace = {} := by
    have hsaid := htold (.task t)
    rw [← hself, (h.call_begins hs).1] at hsaid
    rw [← hself]
    exact hsaid
  have hasked : (talk (.task t) s'.k.trace).asked = some (.inl x) := by
    rw [htrace, List.append_cons, talk_asked_append fun o ho _ => hos o ho, talk_call]
  have hguards : guards t s'.k.trace = (scope t s.k.trace).calls x := by
    rw [htrace, List.append_cons, guards_append fun o ho _ => hos o ho, guards_call]
  have hno : ∀ y, y ≠ x → Obs.call (.task t) y ∉ .call (.task t) x :: os := by
    intro y hne hmem
    rcases List.mem_cons.mp hmem with hmem | hmem
    · cases hmem
      exact hne rfl
    · cases hos _ hmem
  have hkept : ∀ m, x ≠ .unlock m → s.k.owner m = some t → s'.k.owner m = some t := fun m hne =>
    (h.owner_moves hs htold htrace m t).1 (by rw [htalk]; exact nofun) (hno _ (Ne.symm hne))
  have hgained : ∀ m, x ≠ .lock m → s'.k.owner m = some t → s.k.owner m = some t := fun m hne =>
    (h.owner_moves hs htold htrace m t).2 (by rw [htalk]; exact nofun) (hno _ (Ne.symm hne))
  have hin : ∀ m, s.k.owner m = some t → (m, true) ∈ guards t s.k.trace := fun m ho =>
    (hg.owned m ho).resolve_right (by rw [htalk]; exact nofun)
  by_cases hunlock : ∃ m, x = .unlock m
  · -- the innermost guard is destroyed
    obtain ⟨m, rfl⟩ := hunlock
    obtain ⟨b, rest, htop⟩ := hnests.top hcur
    have hrest : guards t s'.k.trace = rest := by
      rw [hguards]
      show (guards t s.k.trace).tail = rest
      rw [htop]
      rfl
    have hunder := hg.not_under htop
    refine ⟨fun m' hm => ?_, fun m' ho => ?_, fun m' hm => ?_, ?_⟩
    · rw [hrest] at hm
      have hne : m' ≠ m := fun heq => hunder (heq ▸ hm)
      exact hkept m' (by simpa using hne.symm) (hg.owns m' (by rw [htop]; exact List.mem_cons_of_mem _ hm))
    · have hne : m' ≠ m := fun heq => h.unlocked hs hcur (heq ▸ ho)
      rw [hrest]
      have hmem := hin m' (hgained m' (by simp) ho)
      rw [htop] at hmem
      rcases List.mem_cons.mp hmem with heq | hmem
      · cases heq
        exact absurd rfl hne
      · exact Or.inl hmem
    · rw [hasked] at hm
      rw [hrest]
      rcases hm with hm | hm <;> cases hm
      exact hunder
    · rw [hrest]
      have hapart := hg.apart
      rw [htop] at hapart
      exact (List.pairwise_cons.mp hapart).2
  · have hsame : guards t s'.k.trace = guards t s.k.trace := by
      rw [hguards]
      cases x with
      | unlock m => exact absurd ⟨m, rfl⟩ hunlock
      | _ => rfl
    refine ⟨fun m hm => ?_, fun m ho => ?_, fun m hm => ?_, ?_⟩
    · rw [hsame] at hm
      exact hkept m (fun heq => hunlock ⟨m, heq⟩) (hg.owns m hm)
    · rw [hsame, hasked]
      by_cases hlock : x = .lock m
      · exact Or.inr (by rw [hlock])
      · exact Or.inl (hin m (hgained m hlock ho))
    · rw [hasked] at hm
      rw [hsame]
      intro hmem
      rcases hm with hm | hm <;> cases hm
      · exact hfresh.alien hcur (hg.owns m hmem)
      · exact hunlock ⟨m, rfl⟩
    · rw [hsame]
      exact hg.apart

theorem Guarded.ret {r : Ret} (hg : Guarded s.k.toCore t) (htold : s.Told σ) (hσ : ¬ σ.relock)
    (hpc : s.pc (.task t) = .ret r) (hk : s'.k = s.k.emit (.ret (.task t) r)) : Guarded s'.k.toCore t := by
  have hsaid := htold (.task t)
  rw [hpc] at hsaid
  obtain ⟨x, os, htalk, hanswer, hleaves⟩ := hsaid
  have hasked : (talk (.task t) s'.k.trace).asked = none := by
    rw [hk]
    show (talk (.task t) (s.k.trace ++ [.ret (.task t) r])).asked = none
    rw [talk_ret]
  have hguards : guards t s'.k.trace = (scope t s.k.trace).returns r := by
    rw [hk]
    exact guards_ret
  have howner : s'.k.owner = s.k.owner := by
    rw [hk]
    rfl
  by_cases hlock : ∃ m, x = .lock m
  · obtain ⟨m, rfl⟩ := hlock
    obtain ⟨-, b, rfl⟩ := hanswer
    have hnew : guards t s'.k.trace = (m, b) :: guards t s.k.trace := by
      rw [hguards]
      unfold Scope.returns
      rw [scope_talk, htalk]
      rfl
    have hnot := hg.outside m (Or.inl (by rw [htalk]))
    refine ⟨fun m' hm => ?_, fun m' ho => ?_, fun m' hm => ?_, ?_⟩
    · rw [hnew] at hm
      rw [howner]
      rcases List.mem_cons.mp hm with heq | hm
      · cases heq
        rcases hleaves t rfl with ⟨-, ho⟩ | ⟨hr, -⟩
        · exact ho
        · cases hr
      · exact hg.owns m' hm
    · rw [howner] at ho
      rw [hnew]
      refine Or.inl ?_
      rcases hg.owned m' ho with hm | hin
      · exact List.mem_cons_of_mem _ hm
      · rw [htalk] at hin
        cases hin
        rcases hleaves t rfl with ⟨hr, -⟩ | ⟨-, hn | hslip⟩
        · cases hr
          exact List.mem_cons_self
        · exact absurd ho hn
        · exact absurd hslip hσ
    · rw [hasked] at hm
      rcases hm with hm | hm <;> cases hm
    · rw [hnew]
      refine List.pairwise_cons.mpr ⟨fun y hy htrue heq => hnot ?_, hg.apart⟩
      rw [show (m, true) = y from Prod.ext heq htrue.symm]
      exact hy
  · have hsame : guards t s'.k.trace = guards t s.k.trace := by
      rw [hguards]
      unfold Scope.returns
      rw [scope_talk, htalk]
      cases x with
      | lock m => exact absurd ⟨m, rfl⟩ hlock
      | _ => rfl
    refine ⟨fun m hm => ?_, fun m ho => ?_, fun m hm => ?_, ?_⟩
    · rw [howner]
      exact hg.owns m (hsame ▸ hm)
    · rw [howner] at ho
      rw [hsame]
      refine Or.inl ((hg.owned m ho).resolve_right fun hin => hlock ⟨m, ?_⟩)
      rw [htalk] at hin
      cases hin
      rfl
    · rw [hasked] at hm
      rcases hm with hm | hm <;> cases hm
    · rw [hsame]
      exact hg.apart

end

theorem Tracks.guarded {config : Config} {good : Sys → Event → Prop} {s : Sys} {a : Abs}
    (h : Tracks config good s a) (hgood : ∀ s e, good s e → s.Nests e ∧ s.Fresh e) (t : Tid) :
    Guarded s.k.toCore t := by
  have hσ : ¬ (Sys.slips good).relock := fun ⟨s, e, hg, hslip⟩ => (hgood s e hg).2.not_relocks hslip
  induction h with
  | init => exact ⟨(nofun), (nofun), fun _ _ => List.not_mem_nil, List.Pairwise.nil⟩
  | step e h hg hs hruns hinv ih =>
    have htold := h.told.1
    cases h.inv.speaks hs (Sys.admits_slips hg) htold (c := .task t) (by simp) with
    | nothing os htrace hos => exact ih.nothing h.inv hs htold htrace hos
    | call x os he hself htrace hos =>
      subst he
      exact ih.call h.inv hs htold hself (hgood _ _ hg).1 (hgood _ _ hg).2 htrace hos
    | ret r he hself hpc hk => exact ih.ret htold hσ hpc hk

/-- In a run in which the guards of every task are nested and none is constructed over a mutex of its own task,
a guard that obtained its mutex keeps it for its task until it is destroyed, and the destruction of a guard
changes an owner only if the guard obtained its mutex. -/
theorem guards_release {config : Config} {s : Sys} {es : List Event} (hrun : (Sys.init config).run es = some s)
    (hnests : (Sys.init config).Each Sys.Nests es) (hfresh : (Sys.init config).Each Sys.Fresh es) :
    (∀ t m, (m, true) ∈ guards t s.k.trace → s.k.owner m = some t) ∧
    ∀ t m b rest s', s.k.currentTask = some t → guards t s.k.trace = (m, b) :: rest →
      s.step (.call (LockGuard.destructor m)) = some s' → s'.k.owner ≠ s.k.owner → b = true := by
  have hstart : Tracks config (fun s e => s.Nests e ∧ s.Fresh e) (Sys.init config) (Abs.init config) := .init
  obtain ⟨a, htracks⟩ := hstart.run hrun (hnests.and hfresh)
  have hguarded := htracks.guarded (fun _ _ hg => hg)
  have hi := htracks.inv
  refine ⟨fun t => (hguarded t).owns, fun t m b rest s' hcur htop hs hchanged => ?_⟩
  -- an `unlock()` of a mutex that the task does not own is refused
  by_contra hb
  obtain ⟨hpc, rfl, he⟩ := hi.call_begins hs
  have hself : s.k.self = .task t := by simp [Core.self, hcur]
  have htalk : talk (.task t) s.k.trace = {} := by
    have hsaid := htracks.told.1 s.k.self
    rw [hpc, hself] at hsaid
    exact hsaid
  refine hchanged (unlock_owner_refused (k := s.k.emit (.call s.k.self (.unlock m))) fun howner => ?_)
  have hin := ((hguarded t).owned m (howner.symm.trans hcur)).resolve_right (by simp [htalk])
  rw [htop] at hin
  rcases List.mem_cons.mp hin with heq | hin
  · exact hb (Prod.mk.inj heq).2.symm
  · exact (hguarded t).not_under htop hin

/-- A task constructs a guard. -/
def Sys.guardRun : List Event :=
  createRun 1 2 ++ startRun ++ [.call (LockGuard.constructor 0), .advance]

/-- In the scope of its guard it constructs one over another mutex. -/
def Sys.nestedGuardsRun : List Event := guardRun ++ [.call (LockGuard.constructor 1), .advance]

/-- The inner guard is destroyed first; the outer one keeps its mutex. -/
theorem guards_release_nested : ∃ s s', Sys.run (Sys.init .unchecked) Sys.nestedGuardsRun = some s ∧
    guards 0 s.k.trace = [(1, true), (0, true)] ∧ s.k.owner 0 = some 0 ∧ s.k.owner 1 = some 0 ∧
    Sys.run (Sys.init .unchecked) (Sys.nestedGuardsRun ++ [.call (LockGuard.destructor 1), .advance]) = some s' ∧
    guards 0 s'.k.trace = [(0, true)] ∧ s'.k.owner 0 = some 0 ∧ s'.k.owner 1 = none := by
  have hrun : ((Sys.run (Sys.init .unchecked) Sys.nestedGuardsRun).map fun s => guards 0 s.k.trace) =
      some [(1, true), (0, true)] := by decide +kernel
  have hrun' : ((Sys.run (Sys.init .unchecked)
      (Sys.nestedGuardsRun ++ [.call (LockGuard.destructor 1), .advance])).map fun s =>
        (guards 0 s.k.trace, s.k.owner 1)) = some ([(0, true)], none) := by decide +kernel
  obtain ⟨s, hs, hguards⟩ := Option.map_eq_some_iff.mp hrun
  obtain ⟨s', hs', hstate⟩ := Option.map_eq_some_iff.mp hrun'
  rw [Prod.mk.injEq] at hstate
  obtain ⟨hguards', hfree⟩ := hstate
  have hnests : (Sys.init .unchecked).Each Sys.Nests
      (Sys.nestedGuardsRun ++ [.call (LockGuard.destructor 1), .advance]) := by decide +kernel
  have hfresh : (Sys.init .unchecked).Each Sys.Fresh
      (Sys.nestedGuardsRun ++ [.call (LockGuard.destructor 1), .advance]) := by decide +kernel
  have howns := (guards_release hs (hnests.append hs).1 (hfresh.append hs).1).1 0
  have howns' := (guards_release hs' hnests hfresh).1 0
  exact ⟨s, s', hs, hguards, howns 0 (by rw [hguards]; simp), howns 1 (by rw [hguards]; simp), hs', hguards',
    howns' 0 (by rw [hguards']; simp), hfree⟩

/-- In the scope of its guard the task constructs another one over the same mutex. -/
def Sys.innerGuardRun : List Event := guardRun ++ [.call (LockGuard.constructor 0), .advance]

/-- The destructor of the inner guard, which obtained nothing, releases the mutex of the outer one. -/
theorem inner_guard_releases : ¬ ∀ (config : Config) (s : Sys) (es : List Event), config.useAssert = false →
    (Sys.init config).run es = some s → (Sys.init config).Each Sys.Nests es →
    (∀ t m, (m, true) ∈ guards t s.k.trace → s.k.owner m = some t) ∧
    ∀ t m b rest s', s.k.currentTask = some t → guards t s.k.trace = (m, b) :: rest →
      s.step (.call (LockGuard.destructor m)) = some s' → s'.k.owner ≠ s.k.owner → b = true := by
  intro hall
  have hrun : ((Sys.run (Sys.init .unchecked) Sys.innerGuardRun).map fun s =>
      (s.k.currentTask, guards 0 s.k.trace, s.k.owner 0,
        (s.step (.call (LockGuard.destructor 0))).map fun s' => s'.k.owner 0)) =
      some (some 0, [(0, false), (0, true)], some 0, some none) := by decide +kernel
  obtain ⟨s, hs, hstate⟩ := Option.map_eq_some_iff.mp hrun
  simp only [Prod.mk.injEq] at hstate
  obtain ⟨hcur, hguards, howner, hstep⟩ := hstate
  obtain ⟨s', hs', howner'⟩ := Option.map_eq_some_iff.mp hstep
  have hnests : (Sys.init .unchecked).Each Sys.Nests Sys.innerGuardRun := by decide +kernel
  have hsame := (hall .unchecked s _ rfl hs hnests).2 0 0 false [(0, true)] s' hcur hguards hs'
  refine Bool.noConfusion (hsame fun heq => ?_)
  rw [heq, howner] at howner'
  cases howner'

end AcRtos
