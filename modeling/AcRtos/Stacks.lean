import AcRtos.Told

/-!
# One call for each stack

A call of `create_task` that sets the flag of its site is let through: it may write the storage, allocate a control
block and return a handle. `Sys.Inside` says that a context is in such a call. As long as nobody sets a flag that is
set (`Sys.Reflags`: the context tested the flag before another one set it), a site lets one call through in a whole
run. `Sited n s` gives this call a name, the place `n x` of its entry in the history, and says of a state that all
who are inside are in that call, that there is one of them, that all handles of the site were returned by that call,
and that the storage is nobody's stack until this context makes it the stack of its task.
-/

namespace AcRtos

open Abs AcRtos.Core

/-! ### Which call it was -/

/-- The place in the history of the last mark of `c`: inside a call, that of its start. -/
def began (c : Ctx) (tr : List Obs) : Nat :=
  (tr.reverse.dropWhile fun o => !(o.ctx == some c && o.isMark)).length

theorem began_append {c : Ctx} {tr os : List Obs} (h : ∀ o ∈ os, o.ctx = some c → o.isMark = false) :
    began c (tr ++ os) = began c tr := by
  unfold began
  rw [List.reverse_append, List.dropWhile_append_of_pos]
  intro o ho
  by_cases hctx : o.ctx = some c
  · simp [h o (List.mem_reverse.mp ho) hctx]
  · simp [hctx]

/-! ### Behind the flag -/

/-- The control block has no stack yet. -/
def CreatePhase.bare : CreatePhase → Bool
  | .copy | .alloc | .init _ => true
  | _ => false

theorem CreatePhase.not_beforeFlag {phase : CreatePhase} (h : phase.bare = true) : phase.beforeFlag = false := by
  cases phase <;> first | rfl | cases h

/-- `c` is in a call of `create_task` at `x` that has set the flag, or has a handle to return from one. -/
inductive Sys.Inside (s : Sys) (c : Ctx) (x : Site) : Prop
  | create (phase : CreatePhase) (f : Callable) (p : Nat) (hpc : s.pc c = .create phase x f p)
      (hflag : phase.beforeFlag = false)
  | back (t : Tid) (f : Callable) (p : Nat)
      (hpc : s.pc c = .yield (.task (some t)) ∨ s.pc c = .ret (.task (some t)))
      (hasked : (talk c s.k.trace).asked = some (.inl (.createTask x f p)))

/-- `c` is inside and its task has no stack yet. -/
def Sys.Bare (s : Sys) (c : Ctx) (x : Site) : Prop :=
  ∃ phase f p, s.pc c = .create phase x f p ∧ phase.bare = true

theorem Sys.Bare.inside {s : Sys} {c : Ctx} {x : Site} (h : s.Bare c x) : s.Inside c x := by
  obtain ⟨phase, f, p, hpc, hbare⟩ := h
  exact .create phase f p hpc (CreatePhase.not_beforeFlag hbare)

/-- The step writes the storage of `x`: it places the callable there, or the canary and the first frame. -/
def Sys.Stores (s : Sys) (e : Event) (x : Site) : Prop :=
  e = .advance ∧ ∃ phase f p, s.pc s.k.self = .create phase x f p ∧ (phase = .copy ∨ ∃ t, phase = .init t)

/-- The step sets the flag of a site that is set already. -/
def Sys.Reflags (s : Sys) : Event → Prop
  | .advance =>
    match s.pc s.k.self with
    | .create .setFlag x _ _ => s.k.isCreated x = true
    | _ => False
  | _ => False

instance (s : Sys) (e : Event) : Decidable (s.Reflags e) := by
  unfold Sys.Reflags
  split
  · split <;> infer_instance
  · infer_instance

theorem Sys.Stores.bare {s : Sys} {e : Event} {x : Site} (h : s.Stores e x) : s.Bare s.k.self x := by
  obtain ⟨-, phase, f, p, hpc, hphase⟩ := h
  refine ⟨phase, f, p, hpc, ?_⟩
  rcases hphase with rfl | ⟨t, rfl⟩ <;> rfl

/-! ### Steps that leave the sites alone -/

/-- No flag is set, no stack given, nobody comes inside, and who is inside is in the same call. -/
structure Sys.SameSites (s s' : Sys) : Prop where
  flag : s'.k.isCreated = s.k.isCreated
  stack : ∀ t, (s'.k.tcb t).stackBase = (s.k.tcb t).stackBase
  inside : ∀ c x, s'.Inside c x → s.Inside c x ∧ began c s'.k.trace = began c s.k.trace
  bare : ∀ c x, s'.Bare c x → s.Bare c x

section
variable {s s' : Sys} {c : Ctx} {x site : Site} {f : Callable} {p : Nat} {phase : CreatePhase}

theorem Sys.Inside.same (h : s'.Inside c x) (hpc : s'.pc c = s.pc c)
    (hasked : (talk c s'.k.trace).asked = (talk c s.k.trace).asked) : s.Inside c x := by
  cases h with
  | create phase f p hpc' hflag => exact .create phase f p (hpc ▸ hpc') hflag
  | back t f p hpc' hasked' => exact .back t f p (hpc ▸ hpc') (hasked ▸ hasked')

theorem Sys.Bare.same (h : s'.Bare c x) (hpc : s'.pc c = s.pc c) : s.Bare c x := by
  obtain ⟨phase, f, p, hpc', hbare⟩ := h
  exact ⟨phase, f, p, hpc ▸ hpc', hbare⟩

theorem Sys.Inside.goto {q : CreatePhase} {d : Ctx} (h : s'.Inside d x)
    (hpc' : s'.pc = Function.update s.pc c (.create q site f p)) (htrace : s'.k.trace = s.k.trace) :
    d = c ∧ x = site ∧ q.beforeFlag = false ∨ d ≠ c ∧ s.Inside d x := by
  by_cases hd : d = c
  · subst hd
    have hnew : s'.pc d = .create q site f p := by rw [hpc', Function.update_self]
    cases h with
    | create phase f p hold hflag =>
      rw [hnew] at hold
      cases hold
      exact Or.inl ⟨rfl, rfl, hflag⟩
    | back t f p hold => simp [hnew] at hold
  · exact Or.inr ⟨hd, h.same (by rw [hpc', Function.update_of_ne hd]) (by rw [htrace])⟩

theorem Sys.Bare.goto {q : CreatePhase} {d : Ctx} (h : s'.Bare d x)
    (hpc' : s'.pc = Function.update s.pc c (.create q site f p)) :
    d = c ∧ x = site ∧ q.bare = true ∨ d ≠ c ∧ s.Bare d x := by
  by_cases hd : d = c
  · subst hd
    obtain ⟨phase, f, p, hold, hbare⟩ := h
    rw [hpc', Function.update_self] at hold
    cases hold
    exact Or.inl ⟨rfl, rfl, hbare⟩
  · exact Or.inr ⟨hd, h.same (by rw [hpc', Function.update_of_ne hd])⟩

theorem sameSites_goto {q : CreatePhase} (hpc : s.pc c = .create phase site f p)
    (hpc' : s'.pc = Function.update s.pc c (.create q site f p)) (htrace : s'.k.trace = s.k.trace)
    (hflag : s'.k.isCreated = s.k.isCreated) (hstack : ∀ t, (s'.k.tcb t).stackBase = (s.k.tcb t).stackBase)
    (hin : q.beforeFlag = false → phase.beforeFlag = false) (hbare : q.bare = true → phase.bare = true) :
    s.SameSites s' := by
  refine ⟨hflag, hstack, fun d x h => ⟨?_, by rw [htrace]⟩, fun d x h => ?_⟩
  · rcases h.goto hpc' htrace with ⟨rfl, rfl, hq⟩ | ⟨-, h⟩
    · exact .create phase f p hpc (hin hq)
    · exact h
  · rcases h.goto hpc' with ⟨rfl, rfl, hq⟩ | ⟨-, h⟩
    · exact ⟨phase, f, p, hpc, hbare hq⟩
    · exact h

theorem sameSites_created {h : Option Tid} {k' : Kernel} (hpc : s.pc c = .create phase site f p)
    (hasks : s.k.Asks c (if site = idleSite then .start else .createTask site f p)) (htrace : k'.trace = s.k.trace)
    (hflag : (s.created c site h k').k.isCreated = s.k.isCreated)
    (hstack : ∀ t, (k'.tcb t).stackBase = (s.k.tcb t).stackBase)
    (hin : h.isSome = true → phase.beforeFlag = false) : s.SameSites (s.created c site h k') := by
  have hstill := Still.check .noSlotForIdle h.isSome (.refl k'.toCore)
  have hother : ∀ d, d ≠ c → (s.created c site h k').pc d = s.pc d := fun d hd => by
    unfold Sys.created
    split <;> exact Function.update_of_ne hd _ _
  have htrace' : (s.created c site h k').k.trace = s.k.trace := by
    unfold Sys.created
    split
    · exact hstill.trace.trans htrace
    · exact htrace
  have hnew : (s.created c site h k').pc c = if site = idleSite then .startRun else .ret (.task h) := by
    unfold Sys.created
    split <;> exact Function.update_self _ _ _
  refine ⟨hflag, fun t => ?_, fun d x hd => ⟨?_, by rw [htrace']⟩, fun d x hd => ?_⟩
  · unfold Sys.created
    split
    · exact (hstill.stackBase t).trans (hstack t)
    · exact hstack t
  · by_cases hdc : d = c
    · subst hdc
      cases hd with
      | create phase' f' p' hold =>
        rw [hnew] at hold
        split at hold <;> cases hold
      | back t f' p' hold hasked =>
        rw [hnew] at hold
        by_cases hsite : site = idleSite
        · simp [hsite] at hold
        · rw [if_neg hsite] at hold hasks
          rw [htrace', hasks] at hasked
          cases hasked
          rcases hold with hold | hold
          · cases hold
          · cases hold
            exact .create phase f p hpc (hin rfl)
    · exact hd.same (hother d hdc) (by rw [htrace'])
  · by_cases hdc : d = c
    · subst hdc
      obtain ⟨phase', f', p', hold, -⟩ := hd
      rw [hnew] at hold
      split at hold <;> cases hold
    · exact hd.same (hother d hdc)

theorem Still.allocate {e : Core} {k : Kernel} (p : Nat) (h : e.Still k.toCore) :
    e.Still (Scheduler.allocate p k).2.toCore := by
  have hcheck := h.check .priorityRange (decide (p < kMaxPriorities))
  unfold Scheduler.allocate
  simp only
  split
  · exact hcheck
  · refine Still.check _ _ ?_
    unfold Scheduler.allocateTcb
    split
    · exact hcheck
    · exact Still.setLinks _ (Still.setTask rfl (hcheck.trans ⟨rfl, rfl, rfl, rfl, rfl, fun _ => rfl⟩))

theorem sameSites_create (hpc : s.pc c = .create phase site f p)
    (hasks : s.k.Asks c (if site = idleSite then .start else .createTask site f p))
    (hflag : (s.advanceCreate c phase site f p).k.isCreated = s.k.isCreated) (hset : phase ≠ .setFlag)
    (hinit : ∀ t, phase ≠ .init t) : s.SameSites (s.advanceCreate c phase site f p) := by
  cases phase with
  | assertFlag =>
    have hstill := Still.check .createdTwice (!s.k.isCreated site) (.refl s.k.toCore)
    exact sameSites_goto hpc rfl hstill.trace hflag hstill.stackBase (by simp [CreatePhase.beforeFlag])
      (by simp [CreatePhase.bare])
  | testFlag =>
    simp only [Sys.advanceCreate] at hflag ⊢
    split at hflag <;> rename_i hcreated
    · rw [if_pos hcreated]
      exact sameSites_created hpc hasks rfl hflag (fun _ => rfl) (by simp)
    · rw [if_neg hcreated]
      exact sameSites_goto hpc rfl rfl hflag (fun _ => rfl) (by simp [CreatePhase.beforeFlag])
        (by simp [CreatePhase.bare])
  | setFlag => exact absurd rfl hset
  | copy => exact sameSites_goto hpc rfl rfl hflag (fun _ => rfl) (fun _ => rfl) (fun _ => rfl)
  | alloc =>
    have hstill := Still.allocate p (.refl s.k.toCore)
    cases hslot : (Scheduler.allocate p s.k).1 with
    | none =>
      simp only [Sys.advanceCreate, hslot] at hflag ⊢
      exact sameSites_created hpc hasks hstill.trace hflag hstill.stackBase (by simp)
    | some t =>
      simp only [Sys.advanceCreate, hslot] at hflag ⊢
      exact sameSites_goto hpc rfl hstill.trace hflag hstill.stackBase (fun _ => rfl) (fun _ => rfl)
  | init t => exact absurd rfl (hinit t)
  | ready t =>
    have hstill : s.k.Still (Scheduler.addToReadyQueue t s.k).toCore := Still.add t (Still.setTask rfl (.refl _))
    by_cases hsite : site = idleSite
    · simp only [Sys.advanceCreate, if_pos hsite] at hflag ⊢
      exact sameSites_goto hpc rfl hstill.trace hflag hstill.stackBase (fun _ => rfl) (by simp [CreatePhase.bare])
    · simp only [Sys.advanceCreate, if_neg hsite] at hflag ⊢
      exact sameSites_goto hpc rfl hstill.trace hflag hstill.stackBase (fun _ => rfl) (by simp [CreatePhase.bare])
  | preempt t =>
    have hstep : (s.created c site (some t) s.k).k.isCreated = s.k.isCreated →
        s.SameSites (s.created c site (some t) s.k) := fun hflag =>
      sameSites_created hpc hasks rfl hflag (fun _ => rfl) (fun _ => rfl)
    simp only [Sys.advanceCreate] at hflag ⊢
    by_cases hpre : (s.created c site (some t) s.k).k.preempts t = true
    · rw [if_pos hpre] at hflag ⊢
      have hsame := hstep hflag
      exact ⟨hsame.flag, hsame.stack, fun d x h => hsame.inside d x (h.same rfl rfl),
        fun d x h => hsame.bare d x (h.same rfl)⟩
    · rw [if_neg hpre] at hflag ⊢
      exact hstep hflag

/-! ### All other steps -/

theorem afterSection_ne_create (o : Outcome) : Sys.afterSection o ≠ .create phase site f p := by
  cases o with
  | ret r y => cases y <;> simp [Sys.afterSection]
  | wait w => simp [Sys.afterSection]

theorem beginCall_create {y : Call} (h : (s.beginCall c y).pc c = .create phase site f p) :
    phase.beforeFlag = true := by
  have hsettle : ∀ r : Outcome × Kernel, (s.settle c r).pc c ≠ .create phase site f p := fun r hr =>
    afterSection_ne_create r.1 ((Function.update_self c _ s.pc).symm.trans hr)
  have hgo : ∀ (k : Kernel) (q : Pc), ((s.setK k).setPc c q).pc c = q := fun k q => by
    simp [Sys.setPc]
  cases y with
  | createTask site' f' p' =>
    rw [show (s.beginCall c (.createTask site' f' p')).pc c = .create .assertFlag site' f' p' from hgo _ _] at h
    cases h
    rfl
  | start =>
    simp only [Sys.beginCall] at h
    split at h
    · rw [hgo] at h
      cases h
    · rw [hgo] at h
      cases h
      rfl
  | suspend t =>
    cases t with
    | none => cases (hgo _ _).symm.trans h
    | some t =>
      have hpc := (hgo _ _).symm.trans h
      split at hpc <;> cases hpc
  | resume t => cases t <;> cases (hgo _ _).symm.trans h
  | terminate t =>
    cases t with
    | none => cases (hgo _ _).symm.trans h
    | some t =>
      have hpc := (hgo _ _).symm.trans h
      split at hpc <;> cases hpc
  | yield => cases (hgo _ _).symm.trans h
  | enterCritical => cases (hgo _ _).symm.trans h
  | exitCritical => cases (hgo _ _).symm.trans h
  | waitBits g mask all clear ms =>
    simp only [Sys.beginCall] at h
    split at h
    · exact absurd h (hsettle _)
    · split at h
      · exact absurd h (hsettle _)
      · cases (hgo _ _).symm.trans h
  | _ => exact absurd h (hsettle _)

theorem advance_create (h : s.advance c = some s') (hno : ∀ phase x f p, s.pc c ≠ .create phase x f p) :
    s'.pc c ≠ .create phase site f p := by
  have hsettle : ∀ r : Outcome × Kernel, (s.settle c r).pc c ≠ .create phase site f p := fun r hr =>
    afterSection_ne_create r.1 ((Function.update_self c _ s.pc).symm.trans hr)
  have hgo : ∀ (s₁ : Sys) (q : Pc), (s₁.setPc c q).pc c = q := fun s₁ q => by
    simp [Sys.setPc]
  intro hpc
  unfold Sys.advance at h
  cases hold : s.pc c with
  | create phase x f p => exact hno _ _ _ _ hold
  | finish w =>
    simp only [hold] at h
    split at h
    · cases h
    · cases h
      rw [hgo] at hpc
      unfold Sys.afterWait at hpc
      cases w with
      | bits g mask all clear =>
        simp only at hpc
        split at hpc <;> cases hpc
      | _ => cases hpc
  | waitBody g mask all clear ms =>
    simp only [hold] at h
    split at h
    · cases h
    · cases h
      exact hsettle _ hpc
  | user => simp [hold] at h
  | halted => simp [hold] at h
  | startRun | startYield | yield r | yieldWait w | ret r =>
    simp only [hold] at h
    cases h
    cases (hgo _ _).symm.trans hpc
  | _ =>
    simp only [hold] at h
    cases h
    exact hsettle _ hpc

end

section
variable {σ : Slips} {s s' : Sys} {a : Abs} {e : Event} {c : Ctx} {x : Site}

theorem Pc.Said.of_createTask {e : Core} {f : Callable} {n : Nat} {p : Pc} (h : p.Said σ e c)
    (hq : (talk c e.trace).asked = some (.inl (.createTask x f n))) :
    (∃ phase y g m, p = .create phase y g m) ∨ ∃ r, p = .yield r ∨ p = .ret r := by
  have hasks : ∀ {y : Call}, e.Asks c y → y = .createTask x f n := fun hy => by
    rw [hy] at hq
    cases hq
    rfl
  have hwaits : ∀ {w : Wait}, ¬ ∃ t y, c = .task t ∧ e.Waits σ t y w := by
    rintro w ⟨t, y, rfl, hy, hcases⟩
    obtain rfl : y = .createTask x f n := by
      rcases hcases with hcase | hcase | hcase
      · exact hasks hcase.asks
      · exact hasks hcase.asks
      · obtain ⟨os, htalk, -⟩ := hcase.answers
        rw [htalk] at hq
        cases hq
        rfl
    cases hy
  cases p with
  | create phase y g m => exact Or.inl ⟨phase, y, g, m, rfl⟩
  | yield r => exact Or.inr ⟨r, Or.inl rfl⟩
  | ret r => exact Or.inr ⟨r, Or.inr rfl⟩
  | user =>
    rw [show talk c e.trace = {} from h] at hq
    cases hq
  | yieldWait w => exact absurd h hwaits
  | finish w => exact absurd h hwaits
  | reread g =>
    obtain ⟨mask, all, clear, ms, h⟩ := h
    cases hasks h
  | _ => cases hasks h

namespace Inv

theorem flag_step (h : Inv s a) (hs : s.step e = some s') :
    s'.k.isCreated x = s.k.isCreated x ∨ e = .advance ∧ ∃ f p, s.pc s.k.self = .create .setFlag x f p := by
  obtain ⟨acts, a', hruns, hinv⟩ := h.step hs
  rw [h.rep.core_eq, hinv.rep.core_eq]
  refine ((hruns.passes h.wf).flag x).imp_right fun ⟨f, p, hbefore⟩ => ?_
  rw [← h.rep.core_eq]
  cases e with
  | advance => exact ⟨rfl, f, p, hbefore⟩
  | call y =>
    obtain ⟨hpc, -⟩ := h.call_begins hs
    cases hpc.symm.trans hbefore
  | _ => cases hbefore

theorem sameSites (h : Inv s a) (hs : s.step e = some s') (hσ : s.Admits σ e) (htold : s.Told σ)
    (hisr : s.pc .isr = .user) (hno : e = .advance → ∀ phase y f p, s.pc s.k.self ≠ .create phase y f p) :
    s.SameSites s' ∧ s'.k.storage = s.k.storage := by
  have hwrites : s'.k.storage = s.k.storage ∧ ∀ t, (s'.k.tcb t).stackBase = (s.k.tcb t).stackBase := by
    cases e with
    | call y =>
      obtain ⟨⟨own, hw⟩, -⟩ := h.call_said hs hσ (htold _)
      exact ⟨hw.storage, hw.stackBase⟩
    | advance =>
      obtain ⟨hnotes, -⟩ := h.advance_said hs hσ (htold _)
      cases hnotes with
      | writes own hw => exact ⟨hw.storage, hw.stackBase⟩
      | create phase site f p hpc => exact absurd hpc (hno rfl _ _ _ _)
      | ret r hpc hk =>
        rw [hk]
        exact ⟨rfl, fun _ => rfl⟩
    | tick =>
      have hw := (quiet_writes .isr hs (Or.inl rfl)).1
      exact ⟨hw.storage, hw.stackBase⟩
    | pendSV psp =>
      have hw := (quiet_writes .isr hs (Or.inr ⟨psp, rfl⟩)).1
      exact ⟨hw.storage, hw.stackBase⟩
    | isr y z =>
      obtain ⟨k', own, r, hw, -, -, hk, -⟩ := h.isr_writes hs
      rw [hk]
      exact ⟨hw.storage, hw.stackBase⟩
  have hflag : s'.k.isCreated = s.k.isCreated := funext fun y =>
    (h.flag_step hs).resolve_right fun ⟨he, f, p, hpc⟩ => hno he _ _ _ _ hpc
  have htold' := h.told_step hs hσ htold hisr
  have hisr' : s'.pc .isr = .user := by
    have hsaid := htold .isr
    rw [hisr] at hsaid
    exact (h.isr_said hs hisr hsaid).1
  -- where a context stands that the step does not let into `create_task`
  have hpcs : ∀ c, s'.pc c = s.pc c ∨ c = s.k.self ∧ (e = .advance ∨ ∃ y, e = .call y) := by
    intro c
    by_cases hctx : c = (s.visit e s').ctx
    · cases e with
      | call y => exact Or.inr ⟨hctx, Or.inr ⟨y, rfl⟩⟩
      | advance => exact Or.inr ⟨hctx, Or.inl rfl⟩
      | _ =>
        rw [show c = .isr from hctx]
        exact Or.inl (hisr'.trans hisr.symm)
    · exact Or.inl (h.pc_step hs hctx)
  have hcreate : ∀ {c phase y g m}, s'.pc c = .create phase y g m → phase.beforeFlag = false →
      s.pc c = .create phase y g m := by
    intro c phase y g m hpc hphase
    rcases hpcs c with hsame | ⟨rfl, rfl | ⟨x, rfl⟩⟩
    · rw [← hsame]
      exact hpc
    · exact absurd hpc (advance_create (Sys.step_advance.mp hs).2.2 (hno rfl))
    · obtain ⟨-, rfl, -⟩ := h.call_begins hs
      rw [beginCall_create hpc] at hphase
      cases hphase
  refine ⟨⟨hflag, hwrites.2, fun c x hin => ?_, fun c x ⟨phase, f, p, hpc, hbare⟩ =>
    ⟨phase, f, p, hcreate hpc (CreatePhase.not_beforeFlag hbare), hbare⟩⟩, hwrites.1⟩
  have hc : c ≠ .isr := by
    rintro rfl
    cases hin with
    | create phase f p hpc hphase => cases hisr'.symm.trans hpc
    | back t f p hpc hasked => rcases hpc with hpc | hpc <;> cases hisr'.symm.trans hpc
  cases h.speaks hs hσ htold hc with
  | nothing os htrace hos =>
    have hasked : (talk c s'.k.trace).asked = (talk c s.k.trace).asked := by rw [htrace, talk_asked_append hos]
    refine ⟨?_, by rw [htrace, began_append hos]⟩
    cases hin with
    | create phase f p hpc hphase => exact .create phase f p (hcreate hpc hphase) hphase
    | back t f p hpc hq =>
      rw [hasked] at hq
      rcases hpcs c with hsame | ⟨rfl, rfl | ⟨x, rfl⟩⟩
      · exact .back t f p (hsame ▸ hpc) hq
      · obtain ⟨-, -, hstep⟩ := Sys.step_advance.mp hs
        rcases (htold _).of_createTask hq with ⟨phase, y, g, m, hold⟩ | ⟨r, hold | hold⟩
        · exact absurd hold (hno rfl _ _ _ _)
        · -- the handle is on its way back already
          simp only [Sys.advance, hold] at hstep
          cases hstep
          simp only [Sys.setPc, Function.update_self] at hpc
          rcases hpc with hpc | hpc
          · cases hpc
          · cases hpc
            exact .back t f p (Or.inl hold) hq
        · simp only [Sys.advance, hold] at hstep
          cases hstep
          simp [Sys.setPc] at hpc
      · have hsaid := htold s.k.self
        rw [(h.call_begins hs).1] at hsaid
        rw [show talk s.k.self s.k.trace = {} from hsaid] at hq
        cases hq
  | call y os he hself htrace hos =>
    subst he hself
    obtain ⟨hpc, rfl, -⟩ := h.call_begins hs
    cases hin with
    | create phase f p hpc' hphase => cases hpc.symm.trans (hcreate hpc' hphase)
    | back t f p hpc' hq =>
      rw [htrace, List.append_cons, talk_asked_append fun o ho _ => hos o ho, talk_call] at hq
      cases hq
      simp [Sys.beginCall, Sys.setPc] at hpc'
  | ret r he hself hpc hk =>
    cases hin with
    | create phase f p hpc' hphase => cases hpc.symm.trans (hcreate hpc' hphase)
    | back t f p hpc' hq =>
      rw [hk] at hq
      have hdone : (talk c (s.k.trace ++ [.ret c r])).asked = some (.inl (.createTask x f p)) := hq
      rw [talk_ret] at hdone
      cases hdone

end Inv

end

/-! ### The invariant -/

/-- All that was done behind the flag of `x` was done by the call that began at `n x`; it is one context's, and its
storage is the stack of one task at most. -/
structure Sited (n : Site → Nat) (s : Sys) : Prop where
  inside : ∀ c x, s.Inside c x → s.k.isCreated x = true ∧ began c s.k.trace = n x
  alone : ∀ c d x, s.Inside c x → s.Inside d x → c = d
  bare : ∀ c x, s.Bare c x → ∀ t, (s.k.tcb t).stackBase ≠ some x
  stacked : ∀ t x, (s.k.tcb t).stackBase = some x → s.k.isCreated x = true
  apart : ∀ t u x, (s.k.tcb t).stackBase = some x → (s.k.tcb u).stackBase = some x → t = u
  returned : ∀ pre c t post x f p, s.k.trace = pre ++ .ret c (.task (some t)) :: post →
    (talk c pre).asked = some (.inl (.createTask x f p)) → s.k.isCreated x = true ∧ began c pre = n x

section
variable {σ : Slips} {s s' : Sys} {a : Abs} {e : Event} {c : Ctx} {x : Site} {f : Callable} {p : Nat}
    {n : Site → Nat}

theorem Sited.returned_step (h : Sited n s) (hi : Inv s a) (hs : s.step e = some s') (hσ : s.Admits σ e)
    (htold : s.Told σ) {pre post : List Obs} {t : Tid} (heq : s'.k.trace = pre ++ .ret c (.task (some t)) :: post)
    (hasked : (talk c pre).asked = some (.inl (.createTask x f p))) :
    s.k.isCreated x = true ∧ began c pre = n x := by
  rcases hi.returns_step hs hσ htold heq with ⟨post', hold⟩ | ⟨rfl, rfl, hpc⟩ | ⟨-, hr⟩
  · exact h.returned pre c t post' x f p hold hasked
  · exact h.inside _ x (.back t f p (Or.inr hpc) hasked)
  · exact absurd rfl (hr (some t))

theorem Sited.same (h : Sited n s) (hsame : s.SameSites s') (hi : Inv s a) (hs : s.step e = some s')
    (hσ : s.Admits σ e) (htold : s.Told σ) : Sited n s' where
  inside c x hin := by
    obtain ⟨hin, hbegan⟩ := hsame.inside c x hin
    rw [hsame.flag, hbegan]
    exact h.inside c x hin
  alone c d x hc hd := h.alone c d x (hsame.inside c x hc).1 (hsame.inside d x hd).1
  bare c x hb t := hsame.stack t ▸ h.bare c x (hsame.bare c x hb) t
  stacked t x ht := hsame.flag ▸ h.stacked t x (hsame.stack t ▸ ht)
  apart t u x ht hu := h.apart t u x (hsame.stack t ▸ ht) (hsame.stack u ▸ hu)
  returned _ _ _ _ _ _ _ heq hasked := hsame.flag ▸ h.returned_step hi hs hσ htold heq hasked

theorem Sited.setFlag (h : Sited n s) (hi : Inv s a) (hs : s.step e = some s') (hσ : s.Admits σ e) (htold : s.Told σ)
    (hflag : s.k.isCreated x = false) (hflag' : s'.k.isCreated = Function.update s.k.isCreated x true)
    (hpc' : s'.pc = Function.update s.pc c (.create .copy x f p)) (htrace : s'.k.trace = s.k.trace)
    (hstack : ∀ t, (s'.k.tcb t).stackBase = (s.k.tcb t).stackBase) :
    Sited (Function.update n x (began c s.k.trace)) s' := by
  have hother : ∀ {y}, s.k.isCreated y = true → y ≠ x := by
    rintro y hy rfl
    rw [hflag] at hy
    cases hy
  have hkept : ∀ {y}, s.k.isCreated y = true → s'.k.isCreated y = true := fun hy => by
    rw [hflag', Function.update_of_ne (hother hy)]
    exact hy
  refine ⟨fun d y hd => ?_, fun d d' y hd hd' => ?_, fun d y hd t => ?_, fun t y ht => ?_, fun t u y ht hu => ?_,
    fun pre d t post y g m heq hasked => ?_⟩
  · rcases hd.goto hpc' htrace with ⟨rfl, rfl, -⟩ | ⟨-, hd⟩
    · rw [hflag', Function.update_self, Function.update_self, htrace]
      exact ⟨rfl, rfl⟩
    · obtain ⟨hy, hbegan⟩ := h.inside d y hd
      rw [htrace, Function.update_of_ne (hother hy)]
      exact ⟨hkept hy, hbegan⟩
  · rcases hd.goto hpc' htrace with ⟨rfl, rfl, -⟩ | ⟨-, hd⟩ <;>
      rcases hd'.goto hpc' htrace with ⟨rfl, hx, -⟩ | ⟨-, hd'⟩
    · rfl
    · exact absurd rfl (hother (h.inside _ _ hd').1)
    · exact absurd hx (hother (h.inside _ _ hd).1)
    · exact h.alone d d' y hd hd'
  · rw [hstack]
    rcases hd.goto hpc' with ⟨rfl, rfl, -⟩ | ⟨-, hd⟩
    · exact fun ht => hother (h.stacked t y ht) rfl
    · exact h.bare d y hd t
  · exact hkept (h.stacked t y (hstack t ▸ ht))
  · exact h.apart t u y (hstack t ▸ ht) (hstack u ▸ hu)
  · obtain ⟨hy, hbegan⟩ := h.returned_step hi hs hσ htold heq hasked
    rw [Function.update_of_ne (hother hy)]
    exact ⟨hkept hy, hbegan⟩

theorem Sited.initTcb {t : Tid} (h : Sited n s) (hi : Inv s a) (hs : s.step e = some s') (hσ : s.Admits σ e)
    (htold : s.Told σ) (hpc : s.pc c = .create (.init t) x f p) (hflag : s'.k.isCreated = s.k.isCreated)
    (hpc' : s'.pc = Function.update s.pc c (.create (.ready t) x f p)) (htrace : s'.k.trace = s.k.trace)
    (hstack : (s'.k.tcb t).stackBase = some x)
    (hstacks : ∀ u, u ≠ t → (s'.k.tcb u).stackBase = (s.k.tcb u).stackBase) :
    Sited n s' := by
  have hbare : s.Bare c x := ⟨.init t, f, p, hpc, rfl⟩
  have hinside : ∀ {d y}, s'.Inside d y → s.Inside d y := fun hd => by
    rcases hd.goto hpc' htrace with ⟨rfl, rfl, -⟩ | ⟨-, hd⟩
    · exact hbare.inside
    · exact hd
  -- the storage was nobody's stack
  have hnew : ∀ {u y}, (s'.k.tcb u).stackBase = some y →
      u = t ∧ y = x ∨ u ≠ t ∧ y ≠ x ∧ (s.k.tcb u).stackBase = some y := by
    intro u y hu
    by_cases hut : u = t
    · subst hut
      rw [hstack] at hu
      exact Or.inl ⟨rfl, (Option.some.inj hu).symm⟩
    · rw [hstacks u hut] at hu
      refine Or.inr ⟨hut, ?_, hu⟩
      rintro rfl
      exact h.bare c y hbare u hu
  refine ⟨fun d y hd => ?_, fun d d' y hd hd' => h.alone d d' y (hinside hd) (hinside hd'), fun d y hd u hu => ?_,
    fun u y hu => ?_, fun u v y hu hv => ?_, fun pre d u post y g m heq hasked => ?_⟩
  · rw [hflag, htrace]
    exact h.inside d y (hinside hd)
  · rcases hd.goto hpc' with ⟨-, -, hready⟩ | ⟨hdc, hd⟩
    · cases hready
    · rcases hnew hu with ⟨rfl, rfl⟩ | ⟨-, -, hold⟩
      · exact hdc (h.alone d c y hd.inside hbare.inside)
      · exact h.bare d y hd u hold
  · rw [hflag]
    rcases hnew hu with ⟨rfl, rfl⟩ | ⟨-, -, hold⟩
    · exact (h.inside c y hbare.inside).1
    · exact h.stacked u y hold
  · rcases hnew hu with ⟨rfl, rfl⟩ | ⟨-, hne, hold⟩ <;>
      rcases hnew hv with ⟨rfl, hx⟩ | ⟨-, hne', hold'⟩
    · rfl
    · exact absurd rfl hne'
    · exact absurd hx hne
    · exact h.apart u v y hold hold'
  · rw [hflag]
    exact h.returned_step hi hs hσ htold heq hasked

/-- `create_task` writes the storage of its own site, and only where `Sys.Stores` says. -/
theorem create_storage {phase : CreatePhase} {site : Site}
    (h : x = site → phase ≠ .copy ∧ ∀ t, phase ≠ .init t) :
    (s.advanceCreate c phase site f p).k.storage x = s.k.storage x := by
  have hcreated : ∀ (y : Option Tid) (k : Kernel), (s.created c site y k).k.storage = k.storage := by
    intro y k
    unfold Sys.created
    split
    · exact (Still.check .noSlotForIdle y.isSome (.refl k.toCore)).storage
    · rfl
  cases phase with
  | assertFlag => exact congrFun (Still.check .createdTwice (!s.k.isCreated site) (.refl s.k.toCore)).storage x
  | testFlag =>
    simp only [Sys.advanceCreate]
    split
    · rw [hcreated]
    · rfl
  | setFlag => rfl
  | copy =>
    have hx : x ≠ site := fun hx => (h hx).1 rfl
    exact Function.update_of_ne hx _ _
  | alloc =>
    have hstill := Still.allocate p (.refl s.k.toCore)
    simp only [Sys.advanceCreate]
    split
    · rw [hcreated, hstill.storage]
    · exact congrFun hstill.storage x
  | init t =>
    have hx : x ≠ site := fun hx => (h hx).2 t rfl
    exact Function.update_of_ne hx _ _
  | ready t =>
    have hstill : s.k.Still (Scheduler.addToReadyQueue t s.k).toCore := Still.add t (Still.setTask rfl (.refl _))
    simp only [Sys.advanceCreate]
    split <;> exact congrFun hstill.storage x
  | preempt t =>
    simp only [Sys.advanceCreate]
    split <;> exact congrFun (hcreated (some t) s.k) x

theorem advance_of_create {phase : CreatePhase} {site : Site} (hs : s.step .advance = some s')
    (hpc : s.pc s.k.self = .create phase site f p) : s' = s.advanceCreate s.k.self phase site f p := by
  obtain ⟨-, -, hstep⟩ := Sys.step_advance.mp hs
  simp only [Sys.advance, hpc] at hstep
  exact (Option.some.inj hstep).symm

namespace Inv

theorem storage_step (h : Inv s a) (hs : s.step e = some s') (hσ : s.Admits σ e) (htold : s.Told σ)
    (hisr : s.pc .isr = .user) (hx : ¬ s.Stores e x) : s'.k.storage x = s.k.storage x := by
  by_cases hcreate : e = .advance ∧ ∃ phase y f p, s.pc s.k.self = .create phase y f p
  · obtain ⟨rfl, phase, y, f, p, hpc⟩ := hcreate
    rw [advance_of_create hs hpc]
    refine create_storage fun heq => ⟨fun hphase => ?_, fun t hphase => ?_⟩
    · exact hx ⟨rfl, phase, f, p, heq ▸ hpc, Or.inl hphase⟩
    · exact hx ⟨rfl, phase, f, p, heq ▸ hpc, Or.inr ⟨t, hphase⟩⟩
  · exact congrFun (h.sameSites hs hσ htold hisr fun he phase y f p hpc => hcreate ⟨he, phase, y, f, p, hpc⟩).2 x

theorem sited_step (h : Inv s a) (hs : s.step e = some s') (hσ : s.Admits σ e) (htold : s.Told σ)
    (hisr : s.pc .isr = .user) (hgood : ¬ s.Reflags e) (hn : Sited n s) :
    ∃ n', Sited n' s' ∧ ∀ x, s.k.isCreated x = true → n' x = n x := by
  by_cases hcreate : e = .advance ∧ ∃ phase y f p, s.pc s.k.self = .create phase y f p
  swap
  · have hsame := (h.sameSites hs hσ htold hisr fun he phase y f p hpc => hcreate ⟨he, phase, y, f, p, hpc⟩).1
    exact ⟨n, hn.same hsame h hs hσ htold, fun _ _ => rfl⟩
  obtain ⟨rfl, phase, y, f, p, hpc⟩ := hcreate
  have hs' := advance_of_create hs hpc
  have hasks := htold s.k.self
  rw [hpc] at hasks
  have hflag : phase ≠ .setFlag → s'.k.isCreated = s.k.isCreated := fun hphase => funext fun x =>
    (h.flag_step hs).resolve_right fun ⟨_, f', p', hset⟩ => by
      rw [hpc] at hset
      cases hset
      exact hphase rfl
  by_cases hset : phase = .setFlag
  · subst hset
    have hfree : s.k.isCreated y = false := by
      simpa [Sys.Reflags, hpc] using hgood
    have hpc' : s'.pc = Function.update s.pc s.k.self (.create .copy y f p) := by rw [hs']; rfl
    refine ⟨_, hn.setFlag h hs hσ htold hfree (by rw [hs']; rfl) hpc' (by rw [hs']; rfl) fun t => by rw [hs']; rfl,
      fun x hx => Function.update_of_ne ?_ _ _⟩
    rintro rfl
    rw [hfree] at hx
    cases hx
  by_cases hinit : ∃ t, phase = .init t
  · obtain ⟨t, rfl⟩ := hinit
    have hpc' : s'.pc = Function.update s.pc s.k.self (.create (.ready t) y f p) := by rw [hs']; rfl
    refine ⟨n, hn.initTcb h hs hσ htold hpc (hflag hset) hpc' (by rw [hs']; rfl) ?_ ?_, fun _ _ => rfl⟩
    · rw [hs']
      simp [Sys.advanceCreate, Scheduler.initTcb, Sys.setPc, Sys.setK]
    · intro u hu
      rw [hs']
      simp [Sys.advanceCreate, Scheduler.initTcb, Sys.setPc, Sys.setK, Function.update_of_ne hu]
  · have hsame := sameSites_create hpc hasks (hs' ▸ hflag hset) hset fun t ht => hinit ⟨t, ht⟩
    rw [← hs'] at hsame
    exact ⟨n, hn.same hsame h hs hσ htold, fun _ _ => rfl⟩

theorem flag_mono (h : Inv s a) (hs : s.step e = some s') (hx : s.k.isCreated x = true) :
    s'.k.isCreated x = true := by
  obtain ⟨acts, a', hruns, hinv⟩ := h.step hs
  rw [hinv.rep.core_eq]
  refine hruns.invariant (P := fun b => b.isCreated x = true) (by rw [← h.rep.core_eq]; exact hx) ?_
  rintro act - b hb he -
  rw [apply_isCreated he]
  split
  · rename_i y _
    by_cases hxy : x = y
    · rw [hxy, Function.update_self]
    · rw [Function.update_of_ne hxy]
      exact hb
  · exact hb

end Inv

end

/-! ### Runs -/

/-- One call of each site did all that was done behind its flag in a run that sets no flag twice. -/
theorem Sited.run {config : Config} {s : Sys} {es : List Event} (hrun : (Sys.init config).run es = some s)
    (hgood : (Sys.init config).Each (fun s e => ¬ s.Reflags e) es) :
    ∃ n, Sited n s ∧ ∀ es₁ e es₂ s₁ c x, es = es₁ ++ e :: es₂ →
      (Sys.init config).run es₁ = some s₁ →
      s₁.Inside c x → s.k.isCreated x = true ∧ began c s₁.k.trace = n x := by
  induction es using List.reverseRecOn generalizing s with
  | nil =>
    cases hrun
    refine ⟨fun _ => 0, ⟨fun c x hc => ?_, fun c d x hc => ?_, fun c x hb => ?_, fun t x hb => ?_,
      fun t u x hb => ?_, ?_⟩, by simp⟩
    · cases hc with
      | create phase f p hpc => cases hpc
      | back t f p hpc => rcases hpc with hpc | hpc <;> cases hpc
    · cases hc with
      | create phase f p hpc => cases hpc
      | back t f p hpc => rcases hpc with hpc | hpc <;> cases hpc
    · obtain ⟨phase, f, p, hpc, -⟩ := hb
      cases hpc
    · cases hb
    · cases hb
    · intro pre c t post x f p heq
      simp [Sys.init, Kernel.init] at heq
  | append_singleton es e ih =>
    obtain ⟨s₀, hs₀, hs⟩ := Sys.run_concat hrun
    obtain ⟨hes, he, -⟩ := hgood.append hs₀
    obtain ⟨n, hn, hpast⟩ := ih hs₀ hes
    obtain ⟨a, htracks⟩ := Tracks.init.run hs₀ hes
    obtain ⟨htold, hisr, -⟩ := htracks.told
    obtain ⟨n', hn', hsame⟩ := htracks.inv.sited_step hs (Sys.admits_slips he) htold hisr he hn
    refine ⟨n', hn', fun es₁ e₁ es₂ s₁ c x heq hrun₁ hin => ?_⟩
    have hthen : s₀.k.isCreated x = true ∧ began c s₁.k.trace = n x →
        s.k.isCreated x = true ∧ began c s₁.k.trace = n' x := by
      rintro ⟨hflag, hbegan⟩
      exact ⟨htracks.inv.flag_mono hs hflag, by rw [hsame x hflag, hbegan]⟩
    rcases List.eq_nil_or_concat es₂ with rfl | ⟨es₂, e₂, rfl⟩
    · obtain ⟨rfl, -⟩ := List.append_inj' heq rfl
      obtain rfl : s₀ = s₁ := Option.some.inj (hs₀.symm.trans hrun₁)
      exact hthen (hn.inside c x hin)
    · rw [List.concat_eq_append, ← List.cons_append, ← List.append_assoc] at heq
      exact hthen (hpast es₁ e₁ es₂ s₁ c x (List.append_inj' heq rfl).1 hrun₁ hin)

/-- No two tasks share a stack in a run that sets no flag twice. Each site has one call, the one that began at `n x`,
such that all others that are complete returned the invalid handle, only this call writes the storage, and it
does so while the storage is nobody's stack. -/
theorem stacks_apart {config : Config} {s : Sys} {es : List Event} (hrun : (Sys.init config).run es = some s)
    (hgood : (Sys.init config).Each (fun s e => ¬ s.Reflags e) es) :
    (∃ n : Site → Nat,
      (∀ pre c r post x f p, s.k.trace = pre ++ .ret c r :: post →
        (talk c pre).asked = some (.inl (.createTask x f p)) → r = .task none ∨ began c pre = n x) ∧
      ∀ es₁ e es₂ s₁ s₂ x, es = es₁ ++ e :: es₂ → (Sys.init config).run es₁ = some s₁ →
        s₁.step e = some s₂ →
        (s₂.k.storage x ≠ s₁.k.storage x → s₁.Stores e x) ∧
        (s₁.Stores e x → began s₁.k.self s₁.k.trace = n x ∧ ∀ t, (s₁.k.tcb t).stackBase ≠ some x)) ∧
    ∀ t u x, (s.k.tcb t).stackBase = some x → (s.k.tcb u).stackBase = some x → t = u := by
  obtain ⟨n, hn, hpast⟩ := Sited.run hrun hgood
  obtain ⟨a, htracks⟩ := Tracks.init.run hrun hgood
  refine ⟨⟨n, fun pre c r post x f p heq hasked => ?_, fun es₁ e es₂ s₁ s₂ x hes hrun₁ hs => ?_⟩,
    hn.apart⟩
  · obtain ⟨-, h, rfl⟩ := htracks.told.2.2 c pre r post heq _ hasked
    cases h with
    | none => exact Or.inl rfl
    | some t => exact Or.inr (hn.returned pre c t post x f p heq hasked).2
  · subst hes
    obtain ⟨hes₁, hrest⟩ := hgood.append hrun₁
    obtain ⟨a₁, htracks₁⟩ := Tracks.init.run hrun₁ hes₁
    obtain ⟨htold, hisr, -⟩ := htracks₁.told
    obtain ⟨n₁, hn₁, -⟩ := Sited.run hrun₁ hes₁
    refine ⟨fun hne => ?_, fun hstores => ⟨?_, hn₁.bare _ x hstores.bare⟩⟩
    · by_contra hno
      exact hne (htracks₁.inv.storage_step hs (Sys.admits_slips hrest.1) htold hisr hno)
    · exact (hpast es₁ e es₂ s₁ _ x rfl hrun₁ hstores.bare.inside).2

/-- One call of `create_task` is reached twice. -/
def Sys.againRun : List Event := createRun 5 1 ++ .call (.createTask 5 5 1) :: List.replicate 3 .advance

/-- The second call is refused; the first one is the one call of its site. -/
theorem stacks_apart_again : ∃ s, Sys.run (Sys.init .unchecked) Sys.againRun = some s ∧
    s.k.trace = [.call .main (.createTask 5 5 1), .ret .main (.task (some 0)), .call .main (.createTask 5 5 1),
      .ret .main (.task none)] ∧
    (∀ t, (s.k.tcb t).stackBase = some 5 → t = 0) ∧
    ∀ es₁ e es₂ s₁ s₂, Sys.againRun = es₁ ++ e :: es₂ → Sys.run (Sys.init .unchecked) es₁ = some s₁ →
      s₁.step e = some s₂ → s₂.k.storage 5 ≠ s₁.k.storage 5 → began s₁.k.self s₁.k.trace = 1 := by
  have hrun : ((Sys.run (Sys.init .unchecked) Sys.againRun).map fun s => (s.k.trace, (s.k.tcb 0).stackBase)) =
      some ([.call .main (.createTask 5 5 1), .ret .main (.task (some 0)), .call .main (.createTask 5 5 1),
        .ret .main (.task none)], some 5) := by decide +kernel
  obtain ⟨s, hs, hstate⟩ := Option.map_eq_some_iff.mp hrun
  rw [Prod.mk.injEq] at hstate
  obtain ⟨htrace, hbase⟩ := hstate
  have hgood : (Sys.init .unchecked).Each (fun s e => ¬ s.Reflags e) Sys.againRun := by decide +kernel
  obtain ⟨⟨n, hreturned, hwrites⟩, hapart⟩ := stacks_apart hs hgood
  have hfirst : 1 = n 5 := (hreturned [.call .main (.createTask 5 5 1)] .main (.task (some 0)) _ 5 5 1 htrace
    (by decide)).resolve_left (by decide)
  refine ⟨s, hs, htrace, fun t ht => hapart t 0 5 ht hbase, fun es₁ e es₂ s₁ s₂ hes hs₁ hs₂ hne => ?_⟩
  obtain ⟨hstores, hbegan⟩ := hwrites es₁ e es₂ s₁ s₂ 5 hes hs₁ hs₂
  exact (hbegan (hstores hne)).1.trans hfirst.symm

/-- A build with room for eight tasks. -/
def Config.roomy : Config :=
  { Config.small with kMaxTasks := 8, kMaxTasks_pos := by decide, kMaxTasks_le := by decide }

/-- Two tasks reach one call: the first has tested the flag when the second one wakes up and makes the whole call. -/
def Sys.raceRun : List Event :=
  createRun 1 1 ++ createRun 2 2 ++ startRun ++ [.call (.delayMs 1), .advance, .pendSV 0,
    .call (.createTask 5 5 1), .advance, .advance, .tick, .pendSV 0, .advance] ++ createRun 5 1 ++
  [.call (.delayMs 9), .advance, .pendSV 0] ++ List.replicate 7 .advance

/-- Both calls return a task, and the two tasks run on the same stack. -/
theorem stack_shared : ¬ ∀ (config : Config) (s : Sys) (es : List Event), (Sys.init config).run es = some s →
    ∀ t u x, (s.k.tcb t).stackBase = some x → (s.k.tcb u).stackBase = some x → t = u := by
  intro hall
  have hrun : ((Sys.run (Sys.init .roomy) Sys.raceRun).map fun s =>
      ((s.k.tcb 3).stackBase, (s.k.tcb 4).stackBase)) = some (some 5, some 5) := by decide +kernel
  obtain ⟨s, hs, hstate⟩ := Option.map_eq_some_iff.mp hrun
  rw [Prod.mk.injEq] at hstate
  cases hall .roomy s _ hs 3 4 5 hstate.1 hstate.2

end AcRtos
