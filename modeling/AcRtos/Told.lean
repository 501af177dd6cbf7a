import AcRtos.Answers

/-!
# What every context has been told

`Pc.Said` relates what a context does next to what the history has of its call: in user code it has no call,
inside a call there is no entry yet, and a call that only has to return has its answer (`Core.Answers`). The
context that takes a step sees to its own part (`Outcome.Tells`, section by section); for all others the visit
is somebody else's, and the only thing that can happen to them is that their wait ends (`Abs.WaitStep`).
-/

namespace AcRtos

open Abs AcRtos.Core

namespace Pc

/-- The wait of a parked call. -/
def wait : Pc → Option Wait
  | .yieldWait w | .finish w => some w
  | _ => none

/-- What the history has of the call of `c`. -/
def Said (σ : Slips) (e : Core) (c : Ctx) : Pc → Prop
  | .user => talk c e.trace = {}
  | .create _ site f p => e.Asks c (if site = idleSite then .start else .createTask site f p)
  | .startRun | .startYield | .halted => e.Asks c .start
  | .suspendBody t => e.Asks c (.suspend (some t))
  | .resumeBody t => e.Asks c (.resume (some t))
  | .deleteBody t => e.Asks c (.terminate (some t))
  | .waitBody g mask waitAll clear ms => e.Asks c (.waitBits g mask waitAll clear ms)
  | .yieldWait w | .finish w => ∃ t x, c = .task t ∧ e.Waits σ t x w
  | .reread g => ∃ mask waitAll clear ms, e.Asks c (.waitBits g mask waitAll clear ms)
  | .yield r | .ret r => ∃ x, e.Answers σ c x r

end Pc

/-! ### Bystanders -/

/-- For `c`, nothing has happened. -/
structure Core.SameFor (e e' : Core) (c : Ctx) : Prop where
  talk : talk c e'.trace = talk c e.trace
  frame : e'.frame c = e.frame c
  owner : ∀ t m, c = .task t → (e'.owner m = some t ↔ e.owner m = some t)

section
variable {σ : Slips} {v : Visit} {a : Abs} {act : Action} {c : Ctx} {t : Tid}

theorem Core.Asks.same {e e' : Core} {x : Call} (h : e.Asks c x) (hsame : e.SameFor e' c) : e'.Asks c x := by
  rw [Asks, hsame.talk]
  exact h

theorem Core.Answers.same {e e' : Core} {x : Call} {r : Ret} (h : e.Answers σ c x r) (hsame : e.SameFor e' c) :
    e'.Answers σ c x r := by
  obtain ⟨os, htalk, hanswer, hleaves⟩ := h
  refine ⟨os, hsame.talk.trans htalk, hanswer, ?_⟩
  cases x with
  | receive q ms =>
    intro y hy
    rw [hsame.frame]
    exact hleaves y hy
  | lock m =>
    intro t ht
    have howner := hsame.owner t m ht
    rcases hleaves t ht with ⟨hr, ho⟩ | ⟨hr, ho⟩
    · exact Or.inl ⟨hr, howner.mpr ho⟩
    · exact Or.inr ⟨hr, ho.imp_left fun ho hn => ho (howner.mp hn)⟩
  | _ => trivial

theorem Pc.Said.same {e e' : Core} {p : Pc} (h : p.Said σ e c) (hp : p.wait = none) (hsame : e.SameFor e' c) :
    p.Said σ e' c := by
  cases p with
  | user => exact hsame.talk.trans h
  | yieldWait w => cases hp
  | finish w => cases hp
  | reread g =>
    obtain ⟨mask, all, clear, ms, h⟩ := h
    exact ⟨mask, all, clear, ms, h.same hsame⟩
  | yield r =>
    obtain ⟨x, h⟩ := h
    exact ⟨x, h.same hsame⟩
  | ret r =>
    obtain ⟨x, h⟩ := h
    exact ⟨x, h.same hsame⟩
  | _ => exact Asks.same h hsame

theorem Abs.same_apply (hwf : a.WF) (hs : a.Starved) (he : act.Enabled a) (hf : act.Fits v a) (hc : c ≠ v.ctx)
    (hserved : ∀ hd t, act = .hand hd t → c ≠ .task t) (hpass : ∀ m o t, act = .pass m o t → c ≠ .task t) :
    a.SameFor (act.apply a).toCore c where
  talk := talk_apply hwf hs he hf hc hserved
  frame := frame_apply hwf hs he hf hc hserved
  owner t m ht := by
    subst ht
    refine ⟨fun ho => ?_, fun ho => owner_apply_of_eq he hf ho (Ne.symm hc)⟩
    by_contra hno
    exact owner_apply_of_ne he hf hno (Ne.symm hc) (fun o heq => hpass m o t heq rfl) ho

theorem Abs.same_of_free (hwf : a.WF) (hs : a.Starved) (he : act.Enabled a) (hf : act.Fits v a) (hc : c ≠ v.ctx)
    (hfree : a.Free c) : a.SameFor (act.apply a).toCore c := by
  refine same_apply hwf hs he hf hc ?_ ?_
  · rintro hd t rfl
    exact (hfree.ne (hwf.mem_wait.mp (Handing.Enabled.mem he)).2).symm
  · rintro m o t rfl
    exact (hfree.ne (hwf.mem_wait.mp (List.mem_of_mem_head? he.2.2)).2).symm

theorem Core.Waiting.hand {x : Call} {w : Wait} {hd : Handing} (h : a.Waiting t x w) (hw : x.waits = some w)
    (hwf : a.WF) (hs : a.Starved) (he : (Action.hand hd t).Enabled a) (hf : (Action.hand hd t).Fits v a)
    (ht : v.ctx ≠ .task t) (hlist : (((Action.hand hd t).apply a).tcb t).waitList = none)
    (hexpired : (((Action.hand hd t).apply a).tcb t).timeoutExpired = (a.tcb t).timeoutExpired) :
    ((Action.hand hd t).apply a).Served σ t x w := by
  have hwaits := (hwf.mem_wait.mp (Handing.Enabled.mem he)).2
  have hx : hd.list.transfers = true → (a.tcb t).xferPtr = some (.task t) := hs.handed hwf he
  have htalk := talk_hand hwf hs he hf ht
  rw [h.asks] at htalk
  rw [h.list] at hwaits
  refine ⟨hlist, hexpired.trans h.expired, [hd.gift t a.toCore], htalk, ?_, ?_⟩
  · cases hd with
    | token s =>
      cases w <;> cases hwaits
      cases x <;> cases hw
      exact Or.inl ⟨rfl, Or.inr ⟨t, rfl, rfl⟩⟩
    | item q p =>
      cases w <;> cases hwaits
      cases x <;> cases hw
      exact Or.inl ⟨_, rfl, rfl⟩
    | slot q p =>
      cases w <;> cases hwaits
      cases x <;> cases hw
      refine Or.inl ⟨rfl, ?_⟩
      have hp : p = v.ctx := hf.1
      have hframe : (QueueCore.popTo q p a.toCore).frame (.task t) = a.frame (.task t) := by
        rw [hp]
        exact Function.update_of_ne ht.symm _ _
      simp only [Handing.gift, hframe]
      rw [h.item q _ _ rfl]
    | bits g =>
      cases w <;> cases hwaits
      cases x <;> cases hw
      rename_i mask all clear ms
      obtain ⟨hmask, hall, hclear⟩ := h.request
      refine ⟨_, _, ?_, rfl, Or.inl fun _ => ?_⟩
      · show Ret.bits ((((Handing.bits g).run t a.toCore).frame (.task t)).bits) = _
        rw [Handing.run_bits (hx rfl)]
        simp
      · rw [hmask, hclear]
  · cases x with
    | receive q ms =>
      intro y hy
      obtain rfl : Wait.receive q = w := Option.some.inj hw
      cases hd with
      | item q' p =>
        rw [List.cons.injEq] at hy
        show ((((Handing.item q' p).run t a.toCore).frame (.task t)).item) = y
        rw [Handing.run_item (hx rfl)]
        have heq := hy.1
        simp only [Handing.gift, Obs.deliver.injEq] at heq
        simpa using heq.2.2
      | _ => cases hwaits
    | lock m =>
      obtain rfl : Wait.lock m = w := Option.some.inj hw
      cases hd <;> cases hwaits
    | _ => trivial

/-- A parked call goes on waiting, fails or is served. -/
theorem Core.Waits.apply {x : Call} {w : Wait} (h : a.Waits σ t x w) (hwf : a.WF) (hs : a.Starved)
    (he : act.Enabled a) (hf : act.Fits v a) (ht : v.ctx ≠ .task t) : (act.apply a).Waits σ t x w := by
  obtain ⟨hw, hcases⟩ := h
  refine ⟨hw, ?_⟩
  have hstep := waitStep hwf he hf ht
  have hpark : ∀ W timeout, act ≠ .park W t timeout := by
    rintro W timeout rfl
    exact ht hf.1
  have hsame : (∀ hd, act ≠ .hand hd t) → (∀ m o, act ≠ .pass m o t) →
      a.SameFor (act.apply a).toCore (.task t) := by
    intro hhand hpass
    refine same_apply hwf hs he hf ht.symm ?_ ?_
    · rintro hd u rfl heq
      cases heq
      exact hhand hd rfl
    · rintro m o u rfl heq
      cases heq
      exact hpass m o rfl
  have halien : ∀ {m}, (∀ o, act ≠ .pass m o t) → a.owner m ≠ some t → (act.apply a).owner m ≠ some t :=
    fun hpass ho => owner_apply_of_ne he hf ho ht hpass
  rcases hcases with h | h | h
  · cases hstep with
    | same hlist hexpired hhand hpass =>
      have hsame := hsame hhand hpass
      have hreq := sameRequest_tcb (a := a) (u := t) hpark
      rw [← apply_tcb hwf he] at hreq
      refine Or.inl ⟨h.asks.same hsame, hlist.trans h.list, hexpired.trans h.expired, ?_, fun q item ms hx => ?_,
        fun m hx => halien (hpass m) (h.alien m hx)⟩
      · have hold := h.request
        cases w with
        | bits g mask all clear =>
          exact ⟨hreq.eventWaitMask.trans hold.1, hreq.eventWaitAll.trans hold.2.1,
            hreq.eventClearOnExit.trans hold.2.2⟩
        | _ => trivial
      · rw [hsame.frame, apply_config he]
        exact h.item q item ms hx
    | fail hwas hlist hexpired hhand hpass =>
      exact Or.inr (Or.inl ⟨h.asks.same (hsame hhand hpass), hlist, hexpired,
        fun m hx => halien (hpass m) (h.alien m hx)⟩)
    | hand hd hact hlist hexpired =>
      subst hact
      exact Or.inr (Or.inr (h.hand hw hwf hs he hf ht hlist hexpired))
    | pass m o hact hlist hexpired =>
      subst hact
      have hlist' := (hwf.mem_wait.mp (List.mem_of_mem_head? he.2.2)).2
      rw [h.list] at hlist'
      cases w <;> cases hlist'
      cases x <;> cases hw
      have htalk := talk_apply (u := .task t) hwf hs he hf ht.symm (by simp)
      refine Or.inr (Or.inr ⟨hlist, hexpired.trans h.expired, [], htalk.trans h.asks, ⟨rfl, _, rfl⟩, ?_⟩)
      rintro u ⟨⟩
      refine Or.inl ⟨rfl, ?_⟩
      rw [apply_owner he]
      exact Function.update_self _ _ _
  · have hfree : a.Free (.task t) := by
      rintro u ⟨⟩
      exact h.list
    have hsame := same_of_free hwf hs he hf ht.symm hfree
    cases hstep with
    | same hlist hexpired hhand hpass =>
      exact Or.inr (Or.inl ⟨h.asks.same hsame, hlist.trans h.list, hexpired.trans h.expired,
        fun m hx => halien (hpass m) (h.alien m hx)⟩)
    | fail hwas hlist hexpired hhand hpass => exact absurd h.list hwas
    | hand hd hact hlist hexpired =>
      subst hact
      exact absurd rfl (hfree.ne (hwf.mem_wait.mp (Handing.Enabled.mem he)).2)
    | pass m o hact hlist hexpired =>
      subst hact
      exact absurd rfl (hfree.ne (hwf.mem_wait.mp (List.mem_of_mem_head? he.2.2)).2)
  · have hfree : a.Free (.task t) := by
      rintro u ⟨⟩
      exact h.list
    have hsame := same_of_free hwf hs he hf ht.symm hfree
    cases hstep with
    | same hlist hexpired hhand hpass =>
      refine Or.inr (Or.inr ⟨hlist.trans h.list, hexpired.trans h.expired, ?_⟩)
      rw [hsame.frame]
      exact h.answers.same hsame
    | fail hwas hlist hexpired hhand hpass => exact absurd h.list hwas
    | hand hd hact hlist hexpired =>
      subst hact
      exact absurd rfl (hfree.ne (hwf.mem_wait.mp (Handing.Enabled.mem he)).2)
    | pass m o hact hlist hexpired =>
      subst hact
      exact absurd rfl (hfree.ne (hwf.mem_wait.mp (List.mem_of_mem_head? he.2.2)).2)

theorem Runs.said {a' : Abs} {acts : List Action} {p : Pc} (h : Runs v a acts a') (hwf : a.WF) (hs : a.Starved)
    (hc : c ≠ v.ctx) (hfree : p.wait = none → a.Free c) (hsaid : p.Said σ a.toCore c) : p.Said σ a'.toCore c := by
  have hall : (p.wait = none → a'.Free c) ∧ p.Said σ a'.toCore c := by
    refine h.keeps_starved (P := fun b => (p.wait = none → b.Free c) ∧ p.Said σ b.toCore c) hwf hs
      ⟨hfree, hsaid⟩ ?_
    rintro act b hwf hs ⟨hfree, hsaid⟩ he hf
    refine ⟨fun hp => free_apply hwf he hf hc (hfree hp), ?_⟩
    by_cases hp : p.wait = none
    · exact hsaid.same hp (same_of_free hwf hs he hf hc (hfree hp))
    · cases p with
      | yieldWait w =>
        obtain ⟨t, x, rfl, hwaits⟩ := hsaid
        exact ⟨t, x, rfl, hwaits.apply hwf hs he hf hc.symm⟩
      | finish w =>
        obtain ⟨t, x, rfl, hwaits⟩ := hsaid
        exact ⟨t, x, rfl, hwaits.apply hwf hs he hf hc.symm⟩
      | _ => exact absurd rfl hp
  exact hall.2

end

/-! ### The running context -/

namespace Sys

/-- The step reads the bits of a failed wait again, or those for a context that cannot wait, and they match. -/
def StaleRead (s : Sys) (e : Event) : Prop :=
  ∃ g mask all ms, mask ≠ 0 ∧ EventGroup.bitsSatisfy (s.k.currentBits g) mask all = true ∧
    (e = .advance ∧ s.pc s.k.self = .reread g ∧
        (talk s.k.self s.k.trace).asked = some (.inl (.waitBits g mask all true ms)) ∨
      e = .call (.waitBits g mask all true ms) ∧ s.k.currentTask = none)

/-- The step is a `lock()` of the owner. -/
def Relocks (s : Sys) (e : Event) : Prop :=
  ∃ m t, e = .call (.lock m) ∧ s.k.currentTask = some t ∧ s.k.owner m = some t

/-- The step is no slip that `σ` does not have. -/
def Admits (σ : Slips) (s : Sys) (e : Event) : Prop :=
  (s.StaleRead e → σ.stale) ∧ (s.Relocks e → σ.relock)

/-- What a step of the running context `c` writes: marks apart, only the steps of `create_task` touch a stack. -/
inductive Notes (c : Ctx) (s s' : Sys) : Prop
  | writes (own : List Obs) (h : s.k.Writes c own s'.k.toCore)
  | ret (r : Ret) (hpc : s.pc c = .ret r) (hk : s'.k = s.k.emit (.ret c r))
  | create (phase : CreatePhase) (site : Site) (f : Callable) (p : Nat) (hpc : s.pc c = .create phase site f p)
      (htrace : s'.k.trace = s.k.trace)

end Sys

theorem copyBytes_self {item : Item} {n : Nat} (h : item.length = n) : copyBytes n item = item := by
  subst h
  refine List.ext_getElem (by simp [copyBytes]) fun i hi hi' => ?_
  simp [copyBytes, hi']

theorem consumes_or {mask : BitVec 32} {all clear : Bool} {v : BitVec 32} {q : Prop}
    (h : mask ≠ 0 → EventGroup.bitsSatisfy v mask all = true → clear = true → q) :
    EventGroup.Consumes mask all clear v v ∨ q := by
  by_cases hq : q
  · exact Or.inr hq
  · refine Or.inl fun hmet => ?_
    cases clear with
    | false => rfl
    | true =>
      by_cases hmask : mask = 0
      · subst hmask
        rw [if_pos rfl, show ~~~(0 : BitVec 32) = BitVec.allOnes 32 from rfl, BitVec.and_allOnes]
      · exact absurd (h hmask hmet rfl) hq

section
variable {σ : Slips} {k : Kernel} {c : Ctx} {x : Call}

theorem delayMs_tells {ms : TickType} (h : k.Asks c (.delayMs ms)) :
    (Scheduler.delayMs ms k).1.Tells σ k.toCore (Scheduler.delayMs ms k).2.toCore c (.delayMs ms) := by
  have hstill : k.Still (Scheduler.delayMs ms k).2.toCore := Still.delayMs ms (.refl _)
  have hret : ∃ y, (Scheduler.delayMs ms k).1 = .ret .unit y := by
    unfold Scheduler.delayMs
    simp only
    split
    · exact ⟨_, rfl⟩
    · split <;> exact ⟨_, rfl⟩
  obtain ⟨y, hret⟩ := hret
  rw [hret]
  exact h.returns hstill ⟨rfl, rfl⟩ trivial

theorem delayUntil_tells {wakeTime : TickType} (h : k.Asks c (.delayUntil wakeTime)) :
    (Scheduler.delayUntil wakeTime k).1.Tells σ k.toCore (Scheduler.delayUntil wakeTime k).2.toCore c
      (.delayUntil wakeTime) := by
  have hstill : k.Still (Scheduler.delayUntil wakeTime k).2.toCore := Still.delayUntil wakeTime (.refl _)
  have hret : ∃ y, (Scheduler.delayUntil wakeTime k).1 = .ret .unit y := by
    unfold Scheduler.delayUntil
    simp only
    split
    · exact ⟨_, rfl⟩
    · split <;> exact ⟨_, rfl⟩
  obtain ⟨y, hret⟩ := hret
  rw [hret]
  exact h.returns hstill ⟨rfl, rfl⟩ trivial

theorem suspendTask_tells {t : Tid} (h : k.Asks c (.suspend (some t))) :
    (Scheduler.suspendTask t k).1.Tells σ k.toCore (Scheduler.suspendTask t k).2.toCore c (.suspend (some t)) := by
  have hstill : k.Still (Scheduler.suspendTask t k).2.toCore := Still.suspendTask t (.refl _)
  have hret : ∃ y, (Scheduler.suspendTask t k).1 = .ret .unit y := by
    unfold Scheduler.suspendTask
    split <;> exact ⟨_, rfl⟩
  obtain ⟨y, hret⟩ := hret
  rw [hret]
  exact h.returns hstill ⟨rfl, rfl⟩ trivial

theorem resumeTask_tells {t : Tid} (h : k.Asks c (.resume (some t))) :
    (Scheduler.resumeTask t k).1.Tells σ k.toCore (Scheduler.resumeTask t k).2.toCore c (.resume (some t)) := by
  have hstill : k.Still (Scheduler.resumeTask t k).2.toCore := Still.resumeTask t (.refl _)
  have hret : ∃ y, (Scheduler.resumeTask t k).1 = .ret .unit y := by
    unfold Scheduler.resumeTask
    split <;> exact ⟨_, rfl⟩
  obtain ⟨y, hret⟩ := hret
  rw [hret]
  exact h.returns hstill ⟨rfl, rfl⟩ trivial

theorem deleteTask_tells {t : Tid} (h : k.Asks c (.terminate (some t))) :
    (Scheduler.deleteTask t k).1.Tells σ k.toCore (Scheduler.deleteTask t k).2.toCore c (.terminate (some t)) :=
  h.returns (Still.deleteTask t (.refl _)) ⟨rfl, rfl⟩ trivial

theorem Outcome.Tells.settle {s : Sys} {e : Core} {r : Outcome × Kernel} (h : r.1.Tells σ e r.2.toCore c x) :
    (∃ own, e.Writes c own (s.settle c r).k.toCore) ∧ ((s.settle c r).pc c).Said σ (s.settle c r).k.toCore c := by
  obtain ⟨hw, hsaid⟩ := h
  obtain ⟨o, k'⟩ := r
  refine ⟨hw, ?_⟩
  show (Function.update s.pc c (Sys.afterSection o) c).Said σ k'.toCore c
  rw [Function.update_self]
  cases o with
  | ret r y => cases y <;> exact ⟨x, hsaid⟩
  | wait w =>
    obtain ⟨hw, t, ht, hwaiting⟩ := hsaid
    exact ⟨t, x, ht, hw, Or.inl hwaiting⟩

end

namespace Inv

variable {σ : Slips} {s s' : Sys} {a : Abs} {e : Event}

theorem call_said {x : Call} (h : Inv s a) (hs : s.step (.call x) = some s') (hσ : s.Admits σ (.call x))
    (hsaid : (s.pc s.k.self).Said σ s.k.toCore s.k.self) :
    (∃ own, (s.k.emit (.call s.k.self x)).Writes s.k.self own s'.k.toCore) ∧
      (s'.pc s.k.self).Said σ s'.k.toCore s.k.self := by
  have hself := h.self_eq
  obtain ⟨-, hcan, hpc, -, hadm, rfl⟩ := Sys.step_call.mp hs
  rw [hpc] at hsaid
  have he := h.entered hcan (by rw [← hself, hpc]; rfl)
  have hrep := h.rep.core (·.emit (.call s.k.self x))
  have he' := he.data (d := .mark (.call s.k.self x)) rfl rfl
  have hasks : (s.k.emit (.call s.k.self x)).Asks s.k.self x := by
    show talk s.k.self (s.k.trace ++ [.call s.k.self x]) = _
    rw [talk_concat, show talk s.k.self s.k.trace = {} from hsaid]
    simp [Talk.step, Talk.own, Obs.ctx, Obs.isMark, Obs.asks]
  -- a call that only goes to its next step
  have hgo : ∀ (p' : Pc) (n : Nat), p'.Said σ (s.k.emit (.call s.k.self x)).toCore s.k.self →
      (∃ own, (s.k.emit (.call s.k.self x)).Writes s.k.self own
        (({ (s.setK (s.k.emit (.call s.k.self x))).setPc s.k.self p' with cs := n } : Sys)).k.toCore) ∧
      (({ (s.setK (s.k.emit (.call s.k.self x))).setPc s.k.self p' with cs := n } : Sys).pc s.k.self).Said σ
        (({ (s.setK (s.k.emit (.call s.k.self x))).setPc s.k.self p' with cs := n } : Sys)).k.toCore s.k.self := by
    intro p' n hp
    refine ⟨⟨[], (Still.refl _).writes _⟩, ?_⟩
    show (Function.update s.pc s.k.self p' s.k.self).Said σ _ _
    rw [Function.update_self]
    exact hp
  have hdone : x.Answer σ s.k.self [] .unit → x.Leaves σ (s.k.emit (.call s.k.self x)).toCore s.k.self [] .unit →
      (Pc.ret .unit).Said σ (s.k.emit (.call s.k.self x)).toCore s.k.self :=
    fun hanswer hleaves => ⟨x, [], hasks, hanswer, hleaves⟩
  have hrules := hadm
  unfold Call.admissible at hrules
  rw [Bool.and_eq_true] at hrules
  replace hrules := hrules.2
  cases x with
  | createTask site f priority =>
    refine hgo _ s.cs ?_
    simp only [bne_iff_ne, ne_eq] at hrules
    show Core.Asks _ _ (if site = idleSite then _ else _)
    rw [if_neg hrules]
    exact hasks
  | start =>
    simp only [Sys.beginCall]
    split
    · have hchecked : (s.k.emit (.call s.k.self .start)).Still
          ((s.k.emit (.call s.k.self .start)).check .startedTwice false).toCore := Still.check _ _ (.refl _)
      refine ⟨⟨[], hchecked.writes _⟩, ?_⟩
      show (Function.update s.pc s.k.self Pc.halted s.k.self).Said σ _ _
      rw [Function.update_self]
      exact hasks.still hchecked
    · exact hgo _ s.cs hasks
  | delayMs ms => exact (delayMs_tells hasks).settle
  | delayUntil wakeTime => exact (delayUntil_tells hasks).settle
  | suspend y =>
    cases y with
    | none => exact hgo _ s.cs (hdone ⟨rfl, rfl⟩ trivial)
    | some t =>
      simp only [Sys.beginCall]
      split
      · exact hgo _ s.cs (hdone ⟨rfl, rfl⟩ trivial)
      · exact hgo (.suspendBody t) s.cs hasks
  | resume y =>
    cases y with
    | none => exact hgo _ s.cs (hdone ⟨rfl, rfl⟩ trivial)
    | some t =>
      have hchecked : (s.k.emit (.call s.k.self (.resume (some t)))).Still
          ((s.k.emit (.call s.k.self (.resume (some t)))).check .resumeInDelayList
            (!(s.k.emit (.call s.k.self (.resume (some t)))).delay.inDelayList t)).toCore := Still.check _ _ (.refl _)
      refine ⟨⟨[], hchecked.writes _⟩, ?_⟩
      show (Function.update s.pc s.k.self (Pc.resumeBody t) s.k.self).Said σ _ _
      rw [Function.update_self]
      exact hasks.still hchecked
  | terminate y =>
    cases y with
    | none => exact hgo _ s.cs (hdone ⟨rfl, rfl⟩ trivial)
    | some t =>
      simp only [Sys.beginCall]
      split
      · exact hgo _ s.cs (hdone ⟨rfl, rfl⟩ trivial)
      · exact hgo (.deleteBody t) s.cs hasks
  | yield => exact hgo (.yield .unit) s.cs ⟨_, [], hasks, ⟨rfl, rfl⟩, trivial⟩
  | take y ms => exact (take_tells hasks).settle
  | tryTake y =>
    refine Outcome.Tells.settle (x := .tryTake y) ?_
    have hw := tryTake_writes y s.k.self (s.k.emit (.call s.k.self (.tryTake y)))
    cases hb : (Semaphore.tryTake y s.k.self (s.k.emit (.call s.k.self (.tryTake y)))).1 with
    | true =>
      rw [hb, if_pos rfl] at hw
      exact hasks.answers hw (Or.inl ⟨rfl, rfl⟩) trivial
    | false =>
      rw [hb, if_neg (by simp)] at hw
      exact hasks.answers hw (Or.inr ⟨rfl, rfl⟩) trivial
  | give y => exact (give_tells hrep he' hasks).settle
  | lock m =>
    refine (lock_tells hasks fun t hcur howner => hσ.2 ⟨m, t, rfl, hcur, howner⟩).settle
  | unlock m => exact (unlock_tells hasks).settle
  | send q item ms =>
    have hlen : item.length = s.k.config.itemSize q := by simpa using hrules
    have hrep'' := hrep.core (·.setFrame s.k.self fun f => { f with item := item })
    have he'' := he'.data (d := .frame s.k.self fun f => { f with item := item }) trivial rfl
    have hfilled : copyBytes (s.k.config.itemSize q) ((Function.update s.k.frame s.k.self
        { s.k.frame s.k.self with item := item }) s.k.self).item = item := by
      rw [Function.update_self]
      exact copyBytes_self hlen
    obtain ⟨⟨own, hw⟩, hsaid'⟩ := (send_tells (σ := σ) hrep'' he'' hasks hfilled).settle (s := s)
    refine ⟨⟨own, ?_⟩, hsaid'⟩
    exact ⟨hw.trace, hw.storage, hw.stackBase⟩
  | receive q ms => exact (receive_tells hrep he' hasks).settle
  | waitBits g mask all clear ms =>
    simp only [Sys.beginCall]
    split
    · rename_i hz
      subst hz
      exact (readBits_tells hasks (consumes_or fun hne => absurd rfl hne)).settle
    · rename_i hne
      split
      · rename_i hcur
        have hchecked : (s.k.emit (.call s.k.self (.waitBits g mask all clear ms))).Still
          ((s.k.emit (.call s.k.self (.waitBits g mask all clear ms))).check .waitBitsBeforeStart false).toCore :=
          Still.check _ _ (.refl _)
        have hbits : ((s.k.emit (.call s.k.self (.waitBits g mask all clear ms))).check .waitBitsBeforeStart
            false).currentBits = s.k.currentBits := by
          simp only [Kernel.check_eq, Kernel.core_toCore, Core.check]
          split <;> rfl
        have hself' := hchecked.self
        have htells := readBits_tells (σ := σ) (g := g) (k := (s.k.emit (.call s.k.self
          (.waitBits g mask all clear ms))).check .waitBitsBeforeStart false)
          (by rw [hself']; exact hasks.still hchecked) (consumes_or fun hmask hmet hclear => by
            subst hclear
            rw [hbits] at hmet
            exact hσ.1 ⟨g, mask, all, ms, hmask, hmet, Or.inr ⟨rfl, hcur⟩⟩)
        rw [hself'] at htells
        obtain ⟨⟨own, hw⟩, hsaid'⟩ := htells.settle (s := s)
        exact ⟨⟨own, hchecked.writes_trans hw⟩, hsaid'⟩
      · refine ⟨⟨[], ⟨[], (List.append_nil _).symm, by simp, rfl⟩, rfl, fun _ => rfl⟩, ?_⟩
        show (Function.update s.pc s.k.self (Pc.waitBody g mask all clear ms) s.k.self).Said σ _ _
        rw [Function.update_self]
        exact hasks
  | setBits g mask => exact (setBits_tells hrep he' hasks).settle
  | clearBits g mask => exact (clearBits_tells hasks).settle
  | getBits g => exact (getBits_tells hasks).settle
  | enterCritical => exact hgo _ _ (hdone ⟨rfl, rfl⟩ trivial)
  | exitCritical => exact hgo _ _ (hdone ⟨rfl, rfl⟩ trivial)

theorem create_said (phase : CreatePhase) {site : Site} {f : Callable} {p : Nat} {c : Ctx}
    (hsaid : s.k.Asks c (if site = idleSite then .start else .createTask site f p)) :
    (s.advanceCreate c phase site f p).k.trace = s.k.trace ∧
      ((s.advanceCreate c phase site f p).pc c).Said σ (s.advanceCreate c phase site f p).k.toCore c := by
  have hgo : ∀ (q : CreatePhase) (k' : Kernel), k'.trace = s.k.trace →
      ((s.setK k').setPc c (.create q site f p)).k.trace = s.k.trace ∧
      (((s.setK k').setPc c (.create q site f p)).pc c).Said σ
        ((s.setK k').setPc c (.create q site f p)).k.toCore c := by
    intro q k' htrace
    refine ⟨htrace, ?_⟩
    show (Function.update s.pc c (Pc.create q site f p) c).Said σ k'.toCore c
    rw [Function.update_self]
    show talk c k'.trace = _
    rw [htrace]
    exact hsaid
  have hback : ∀ (h : Option Tid) (k' : Kernel), k'.trace = s.k.trace →
      (s.created c site h k').k.trace = s.k.trace ∧
      ((s.created c site h k').pc c).Said σ (s.created c site h k').k.toCore c := by
    intro h k' htrace
    unfold Sys.created
    by_cases hsite : site = idleSite
    · rw [if_pos hsite] at hsaid ⊢
      have hchecked := (Still.check .noSlotForIdle h.isSome (.refl k'.toCore)).trace
      refine ⟨hchecked.trans htrace, ?_⟩
      show (Function.update s.pc c Pc.startRun c).Said σ (k'.check .noSlotForIdle h.isSome).toCore c
      rw [Function.update_self]
      show talk c _ = _
      rw [hchecked, htrace]
      exact hsaid
    · rw [if_neg hsite] at hsaid ⊢
      refine ⟨htrace, ?_⟩
      show (Function.update s.pc c (Pc.ret (.task h)) c).Said σ k'.toCore c
      rw [Function.update_self]
      exact ⟨.createTask site f p, [], by rw [htrace]; exact hsaid, ⟨rfl, h, rfl⟩, trivial⟩
  have hready : ∀ t, (Scheduler.addToReadyQueue t s.k).trace = s.k.trace := fun t =>
    (Still.add t (Still.setTask rfl (.refl _))).trace
  cases phase with
  | assertFlag => exact hgo _ _ (Still.check _ _ (.refl _)).trace
  | testFlag =>
    simp only [Sys.advanceCreate]
    split
    · exact hback none s.k rfl
    · exact hgo .setFlag s.k rfl
  | setFlag => exact hgo _ _ rfl
  | copy => exact hgo _ _ rfl
  | alloc =>
    have htrace : (Scheduler.allocate p s.k).2.trace = s.k.trace := by
      have hchecked := (Still.check .priorityRange (decide (p < kMaxPriorities)) (.refl s.k.toCore)).trace
      unfold Scheduler.allocate
      simp only
      split
      · exact hchecked
      · refine (Still.check _ _ (.refl _)).trace.trans ?_
        unfold Scheduler.allocateTcb
        split
        · exact hchecked
        · exact hchecked
    simp only [Sys.advanceCreate]
    split
    · exact hback none _ htrace
    · exact hgo _ _ htrace
  | init t => exact hgo _ _ rfl
  | ready t =>
    have hstep := hgo (.preempt t) _ (hready t)
    simp only [Sys.advanceCreate]
    split <;> exact hstep
  | preempt t =>
    have hstep := hback (some t) s.k rfl
    simp only [Sys.advanceCreate]
    split <;> exact hstep

theorem advance_said (h : Inv s a) (hs : s.step .advance = some s') (hσ : s.Admits σ .advance)
    (hsaid : (s.pc s.k.self).Said σ s.k.toCore s.k.self) :
    s.Notes s.k.self s' ∧ (s'.pc s.k.self).Said σ s'.k.toCore s.k.self := by
  have hself := h.self_eq
  obtain ⟨-, hcan, hs⟩ := Sys.step_advance.mp hs
  have hentered : (s.pc s.k.self).gives = false → a.Entered := fun hg => h.entered hcan (by rw [← hself]; exact hg)
  -- a step that only goes on
  have hgo : ∀ p' : Pc, p'.Said σ s.k.toCore s.k.self → ∀ s₁ : Sys, s₁.k = s.k →
      s₁.pc = Function.update s.pc s.k.self p' →
      s.Notes s.k.self s₁ ∧ (s₁.pc s.k.self).Said σ s₁.k.toCore s.k.self := by
    intro p' hp s₁ hk hpc
    rw [hk, hpc, Function.update_self]
    exact ⟨.writes [] (by rw [hk]; exact (Still.refl _).writes _), hp⟩
  have hsection : ∀ {r : Outcome × Kernel} {x : Call}, r.1.Tells σ s.k.toCore r.2.toCore s.k.self x →
      s.Notes s.k.self (s.settle s.k.self r) ∧
        ((s.settle s.k.self r).pc s.k.self).Said σ (s.settle s.k.self r).k.toCore s.k.self := by
    intro r x htells
    obtain ⟨⟨own, hw⟩, hsaid'⟩ := htells.settle (s := s)
    exact ⟨.writes own hw, hsaid'⟩
  unfold Sys.advance at hs
  cases hpc : s.pc s.k.self with
  | user => simp [hpc] at hs
  | halted => simp [hpc] at hs
  | create phase site f p =>
    rw [hpc] at hs hsaid
    cases hs
    obtain ⟨htrace, hsaid'⟩ := create_said (σ := σ) phase hsaid
    exact ⟨.create phase site f p hpc htrace, hsaid'⟩
  | startRun =>
    rw [hpc] at hs hsaid
    cases hs
    refine ⟨.writes [] ⟨⟨[], (List.append_nil _).symm, by simp, rfl⟩, rfl, fun _ => rfl⟩, ?_⟩
    show (Function.update s.pc s.k.self Pc.startYield s.k.self).Said σ _ _
    rw [Function.update_self]
    exact hsaid
  | startYield =>
    rw [hpc] at hs hsaid
    cases hs
    exact hgo .halted hsaid _ rfl rfl
  | yield r =>
    rw [hpc] at hs hsaid
    cases hs
    exact hgo (.ret r) hsaid _ rfl rfl
  | yieldWait w =>
    rw [hpc] at hs hsaid
    cases hs
    exact hgo (.finish w) hsaid _ rfl rfl
  | suspendBody t =>
    rw [hpc] at hs hsaid
    cases hs
    exact hsection (suspendTask_tells hsaid)
  | resumeBody t =>
    rw [hpc] at hs hsaid
    cases hs
    exact hsection (resumeTask_tells hsaid)
  | deleteBody t =>
    rw [hpc] at hs hsaid
    cases hs
    exact hsection (deleteTask_tells hsaid)
  | waitBody g mask all clear ms =>
    rw [hpc] at hs hsaid
    simp only at hs
    split at hs
    · cases hs
    · rename_i t hcur
      cases hs
      exact hsection (waitBits_tells hcur hsaid)
  | reread g =>
    rw [hpc] at hs hsaid
    cases hs
    obtain ⟨mask, all, clear, ms, hasks⟩ := hsaid
    refine hsection (readBits_tells hasks (consumes_or fun hmask hmet hclear => ?_))
    subst hclear
    exact hσ.1 ⟨g, mask, all, ms, hmask, hmet, Or.inl ⟨rfl, hpc, by rw [hasks]⟩⟩
  | ret r =>
    rw [hpc] at hs hsaid
    cases hs
    refine ⟨.ret r hpc rfl, ?_⟩
    show (Function.update s.pc s.k.self Pc.user s.k.self).Said σ _ _
    rw [Function.update_self]
    show talk s.k.self (s.k.trace ++ [.ret s.k.self r]) = {}
    rw [talk_concat]
    simp [Talk.step, Talk.own, Obs.ctx, Obs.isMark, Obs.asks]
  | finish w =>
    have he := hentered (by rw [hpc]; rfl)
    rw [hpc] at hs hsaid
    simp only at hs
    split at hs
    · cases hs
    rename_i t hcur
    cases hs
    have hself' : s.k.self = .task t := by simp [Core.self, hcur]
    refine hgo (Sys.afterWait t w s.k) ?_ _ rfl rfl
    obtain ⟨u, x, hu, hw, hwaits⟩ := hsaid
    obtain rfl : t = u := by
      rw [hself'] at hu
      exact Ctx.task.inj hu
    rw [hself']
    rcases hwaits with hwaits | hwaits | hwaits
    · -- a task that runs waits no longer
      rw [h.rep.core_eq] at hcur
      have hnone := he.free t (by simp [Core.self, hcur])
      have hlist := hwaits.list
      rw [h.rep.core_eq, hnone] at hlist
      cases hlist
    · have hasks := hwaits.asks
      unfold Sys.afterWait
      rw [hwaits.expired]
      cases w <;> cases x <;> cases hw
      · exact ⟨_, [], hasks, Or.inr ⟨rfl, rfl⟩, trivial⟩
      · refine ⟨_, [], hasks, ⟨rfl, _, rfl⟩, ?_⟩
        rintro u ⟨⟩
        exact Or.inr ⟨rfl, Or.inl (hwaits.alien _ rfl)⟩
      · exact ⟨_, [], hasks, Or.inr ⟨rfl, rfl⟩, trivial⟩
      · refine ⟨_, [], hasks, Or.inr ⟨rfl, rfl⟩, ?_⟩
        rintro u ⟨⟩
      · exact ⟨_, _, _, _, hasks⟩
    · have hanswers := hwaits.answers
      unfold Sys.afterWait
      rw [hwaits.expired]
      cases w <;> exact ⟨x, hanswers⟩

end Inv

/-! ### Interrupt handlers -/

/-- The entries that the history has of a handler's call. -/
def IsrCall.Answer (os : List Obs) (r : Ret) : IsrCall → Prop
  | .tryTakeFromIsr s => r = .bool true ∧ os = [.semTake s .isr] ∨ r = .bool false ∧ os = []
  | .giveFromIsr _ => os = [] ∧ ∃ b, r = .bool b
  | .sendFromIsr q item => r = .bool true ∧ os = [.accept q .isr item] ∨ r = .bool false ∧ os = []
  | .receiveFromIsr q => (∃ x, r = .bool true ∧ os = [.deliver q .isr x]) ∨ r = .bool false ∧ os = []
  | .setBitsFromIsr _ _ => os = [] ∧ ∃ v, r = .bits v

/-- The entries that the history has of a completed call of `c`. -/
def Request.Answer (σ : Slips) (c : Ctx) (q : Request) (os : List Obs) (r : Ret) : Prop :=
  q.elim (Call.Answer σ c os r) (IsrCall.Answer os r)

theorem isrCall_writes {k : Kernel} {a : Abs} {x : IsrCall} (h : Rep k a) (hwf : a.WF) (hs : a.Starved)
    (hadm : Sys.isrAdmissible k x = true) :
    ∃ own, k.Writes .isr own (Sys.isrCall x k).2.toCore ∧ x.Answer own (Sys.isrCall x k).1.1 ∧
      ∀ q y, own = [.deliver q .isr y] → ((Sys.isrCall x k).2.frame .isr).item = y := by
  have hfree : ∀ {b : Abs}, b.Free .isr := fun t ht => by cases ht
  cases x with
  | tryTakeFromIsr y =>
    refine ⟨_, tryTake_writes y .isr k, ?_, ?_⟩
    · cases hb : (Semaphore.tryTake y .isr k).1 with
      | true => exact Or.inl ⟨congrArg Ret.bool hb, rfl⟩
      | false => exact Or.inr ⟨congrArg Ret.bool hb, rfl⟩
    · intro q z heq
      split at heq <;> cases heq
  | giveFromIsr y => exact ⟨[], giveLocked_writes h hwf hfree y, ⟨rfl, _, rfl⟩, nofun⟩
  | sendFromIsr q item =>
    have hlen : item.length = k.config.itemSize q := by simpa [Sys.isrAdmissible] using hadm
    have hen : (Action.data (.frame .isr fun f => { f with item := item })).Enabled a := trivial
    have hfilled : copyBytes (a.config.itemSize q) ((Function.update a.frame .isr
        { a.frame .isr with item := item }) .isr).item = item := by
      rw [Function.update_self]
      exact copyBytes_self (by rw [hlen, h.core_eq])
    rcases trySendLocked_writes (h.core (·.setFrame .isr fun f => { f with item := item })) (hwf.apply hen)
      (hs.apply hwf hen) (p := .isr) hfree q with ⟨hb, hk⟩ | ⟨hb, hw⟩
    · refine ⟨[], ?_, Or.inr ⟨congrArg Ret.bool hb, rfl⟩, nofun⟩
      show k.Writes .isr [] (QueueCore.trySendLocked q .isr
        (k.core (·.setFrame .isr fun f => { f with item := item }))).2.toCore
      rw [hk]
      exact ⟨⟨[], (List.append_nil _).symm, by simp, rfl⟩, rfl, fun _ => rfl⟩
    · refine ⟨_, ⟨hw.trace, hw.storage, hw.stackBase⟩, Or.inl ⟨congrArg Ret.bool hb, ?_⟩, nofun⟩
      exact congrArg (fun y => [Obs.accept q .isr y]) hfilled
  | receiveFromIsr q =>
    rcases tryReceiveLocked_writes h hwf hs (p := .isr) hfree q with ⟨hb, hk⟩ | ⟨hb, y, hw, hframe⟩
    · refine ⟨[], ?_, Or.inr ⟨congrArg Ret.bool hb, rfl⟩, nofun⟩
      show k.Writes .isr [] (QueueCore.tryReceiveLocked q .isr k).2.toCore
      rw [hk]
      exact (Still.refl _).writes _
    · refine ⟨_, hw, Or.inl ⟨y, congrArg Ret.bool hb, rfl⟩, fun q' z heq => ?_⟩
      rw [List.cons.injEq, Obs.deliver.injEq] at heq
      rw [← heq.1.2.2]
      exact hframe
  | setBitsFromIsr g mask => exact ⟨[], setBitsLocked_writes h hwf hs hfree, ⟨rfl, _, rfl⟩, nofun⟩

namespace Inv

variable {σ : Slips} {s s' : Sys} {a : Abs} {e : Event} {c : Ctx}

theorem isr_writes {x : IsrCall} {y : Bool} (h : Inv s a) (hs : s.step (.isr x y) = some s') :
    ∃ (k' : Kernel) (own : List Obs) (r : Ret),
      (s.k.emit (.isrCall x)).Writes .isr own k'.toCore ∧ x.Answer own r ∧
      (∀ q z, own = [.deliver q .isr z] → (k'.frame .isr).item = z) ∧
      s'.k = k'.emit (.ret .isr r) ∧ s'.pc = s.pc := by
  obtain ⟨-, -, hadm, -, rfl⟩ := Sys.step_isr.mp hs
  have hen : (Action.data (.mark (.isrCall x))).Enabled a := rfl
  obtain ⟨own, hw, hanswer, hframe⟩ := isrCall_writes (x := x) (h.rep.core (·.emit (.isrCall x))) (h.wf.apply hen)
    (h.starved.apply h.wf hen) (by cases x <;> exact hadm)
  exact ⟨_, own, _, hw, hanswer, hframe, rfl, rfl⟩

theorem quiet_writes (c : Ctx) (hs : s.step e = some s') (he : e = .tick ∨ ∃ psp, e = .pendSV psp) :
    s.k.Writes c [] s'.k.toCore ∧ s'.pc = s.pc := by
  rcases he with rfl | ⟨psp, rfl⟩
  · obtain ⟨-, -, -, rfl⟩ := Sys.step_tick.mp hs
    exact ⟨(Still.tick (.refl _)).writes c, rfl⟩
  · obtain ⟨-, -, -, rfl⟩ := Sys.step_pendSV.mp hs
    exact ⟨pendSV_writes psp c s.k, rfl⟩

theorem pc_step (h : Inv s a) (hs : s.step e = some s') (hc : c ≠ (s.visit e s').ctx) : s'.pc c = s.pc c := by
  have hmoved : ∀ {s₁}, c ≠ s.k.self → Moves s a s₁ → s₁.pc c = s.pc c := by
    rintro s₁ hc ⟨p', acts, a', hpc, -, -⟩
    rw [hpc, Function.update_of_ne (by rw [← h.self_eq]; exact hc)]
  cases e with
  | call x =>
    obtain ⟨-, hcan, hpc, hawake, hadm, rfl⟩ := Sys.step_call.mp hs
    rw [h.self_eq] at hpc hawake ⊢
    exact hmoved hc (h.beginCall hcan hpc (fun i hi heq => hawake (by rw [hi, heq]; rfl)) hadm)
  | advance =>
    obtain ⟨-, hcan, hadv⟩ := Sys.step_advance.mp hs
    rw [h.self_eq] at hadv
    exact hmoved hc (h.advances hcan hadv)
  | tick => rw [(quiet_writes c hs (Or.inl rfl)).2]
  | isr x y =>
    obtain ⟨-, -, -, -, -, -, -, hpc⟩ := h.isr_writes hs
    rw [hpc]
  | pendSV psp => rw [(quiet_writes c hs (Or.inr ⟨psp, rfl⟩)).2]

theorem free (h : Inv s a) (hp : (s.pc c).wait = none) : a.Free c := by
  rintro t rfl
  by_contra hne
  obtain ⟨w, hw⟩ := Option.ne_none_iff_exists'.mp hne
  obtain ⟨W, -, hpc | hpc⟩ := h.control.parked t w hw
  · rw [hpc] at hp
    cases hp
  · rw [hpc] at hp
    cases hp

theorem other_said (h : Inv s a) (hs : s.step e = some s') (hc : c ≠ (s.visit e s').ctx)
    (hsaid : (s.pc c).Said σ s.k.toCore c) : (s'.pc c).Said σ s'.k.toCore c := by
  obtain ⟨acts, a', hruns, hinv⟩ := h.step hs
  rw [h.pc_step hs hc, hinv.rep.core_eq]
  rw [h.rep.core_eq] at hsaid
  exact hruns.said h.wf h.starved hc h.free hsaid

end Inv

/-- Every context knows where it is in its call. -/
def Sys.Told (σ : Slips) (s : Sys) : Prop := ∀ c, (s.pc c).Said σ s.k.toCore c

namespace Inv

variable {σ : Slips} {s s' : Sys} {a : Abs} {e : Event} {c : Ctx}

theorem self_ne_isr (s : Sys) : s.k.self ≠ .isr := by
  unfold Core.self
  split <;> simp

/-- The handlers make their calls in one step, so between two steps they have none. -/
theorem isr_said (h : Inv s a) (hs : s.step e = some s') (hpc : s.pc .isr = .user)
    (hsaid : talk .isr s.k.trace = {}) : s'.pc .isr = .user ∧ talk .isr s'.k.trace = {} := by
  have hquiet : (e = .tick ∨ ∃ psp, e = .pendSV psp) → s'.pc .isr = .user ∧ talk .isr s'.k.trace = {} := by
    intro he
    obtain ⟨hw, hpc'⟩ := quiet_writes .isr hs he
    rw [hpc', hw.talk, hsaid]
    exact ⟨hpc, rfl⟩
  have hother : .isr ≠ (s.visit e s').ctx → s'.pc .isr = .user ∧ talk .isr s'.k.trace = {} := by
    intro hc
    have hpc' := h.pc_step hs hc
    have hsaid' := h.other_said (σ := ⟨True, True⟩) hs hc (by rw [hpc]; exact hsaid)
    rw [hpc', hpc] at hsaid'
    exact ⟨hpc'.trans hpc, hsaid'⟩
  cases e with
  | call x => exact hother (self_ne_isr s).symm
  | advance => exact hother (self_ne_isr s).symm
  | tick => exact hquiet (Or.inl rfl)
  | pendSV psp => exact hquiet (Or.inr ⟨psp, rfl⟩)
  | isr x y =>
    obtain ⟨k', own, r, -, -, -, hk, hpc'⟩ := h.isr_writes hs
    rw [hpc', hk]
    refine ⟨hpc, ?_⟩
    show talk .isr (k'.trace ++ [.ret .isr r]) = {}
    rw [talk_concat]
    simp [Talk.step, Talk.own, Obs.ctx, Obs.isMark, Obs.asks]

theorem told_step (h : Inv s a) (hs : s.step e = some s') (hσ : s.Admits σ e) (htold : s.Told σ)
    (hisr : s.pc .isr = .user) : s'.Told σ := by
  intro c
  by_cases hc : c = (s.visit e s').ctx
  swap
  · exact h.other_said hs hc (htold c)
  have hhandler : c = .isr → (s'.pc c).Said σ s'.k.toCore c := by
    rintro rfl
    have hold := htold .isr
    rw [hisr] at hold
    obtain ⟨hpc, htalk⟩ := h.isr_said hs hisr hold
    rw [hpc]
    exact htalk
  cases e with
  | call x =>
    obtain rfl : c = s.k.self := hc
    exact (h.call_said hs hσ (htold _)).2
  | advance =>
    obtain rfl : c = s.k.self := hc
    exact (h.advance_said hs hσ (htold _)).2
  | _ => exact hhandler hc

/-- The entries of a step, and the return it makes at most. -/
theorem answered_step (h : Inv s a) (hs : s.step e = some s') (hσ : s.Admits σ e) (htold : s.Told σ)
    (hisr : talk .isr s.k.trace = {}) (hold : Answered (Request.Answer σ c) c s.k.trace) :
    Answered (Request.Answer σ c) c s'.k.trace := by
  -- entries that mark nothing return nothing
  have happend : ∀ {d : Ctx} {own : List Obs} {e e' : Core}, e.Writes d own e' →
      Answered (Request.Answer σ c) c e.trace → Answered (Request.Answer σ c) c e'.trace := by
    intro d own e e' hw hold
    obtain ⟨os, htrace, hmark, -⟩ := hw.trace
    rw [htrace]
    refine hold.append fun o ho r heq => ?_
    have := hmark o ho
    rw [heq] at this
    cases this
  cases e with
  | call x =>
    obtain ⟨⟨own, hw⟩, -⟩ := h.call_said hs hσ (htold _)
    exact happend hw (hold.concat fun r hr => by cases hr)
  | advance =>
    obtain ⟨hnotes, -⟩ := h.advance_said hs hσ (htold _)
    cases hnotes with
    | writes own hw => exact happend hw hold
    | create phase site f p hpc htrace =>
      rw [htrace]
      exact hold
    | ret r hpc hk =>
      rw [hk]
      refine hold.concat fun r' hr q hq => ?_
      cases hr
      have hsaid := htold s.k.self
      rw [hpc] at hsaid
      obtain ⟨x, os, htalk, hanswer, -⟩ := hsaid
      rw [htalk] at hq ⊢
      cases hq
      exact hanswer
  | tick => exact happend (quiet_writes c hs (Or.inl rfl)).1 hold
  | pendSV psp => exact happend (quiet_writes c hs (Or.inr ⟨psp, rfl⟩)).1 hold
  | isr x y =>
    obtain ⟨k', own, r, hw, hanswer, -, hk, -⟩ := h.isr_writes hs
    rw [hk]
    refine (happend hw (hold.concat fun r hr => by cases hr)).concat fun r' hr q hq => ?_
    cases hr
    have htalk : talk .isr k'.trace = ⟨some (.inr x), own⟩ := by
      rw [hw.talk]
      show (talk .isr (s.k.trace ++ [.isrCall x])).add own = _
      rw [talk_concat, hisr]
      simp [Talk.step, Talk.own, Obs.ctx, Obs.isMark, Obs.asks, Talk.add]
    rw [htalk] at hq ⊢
    cases hq
    exact hanswer

end Inv

/-- The slips that a run may meet whose steps are all good. -/
def Sys.slips (good : Sys → Event → Prop) : Slips :=
  ⟨∃ s e, good s e ∧ s.StaleRead e, ∃ s e, good s e ∧ s.Relocks e⟩

theorem Sys.admits_slips {good : Sys → Event → Prop} {s : Sys} {e : Event} (hg : good s e) :
    s.Admits (Sys.slips good) e :=
  ⟨fun hslip => ⟨s, e, hg, hslip⟩, fun hslip => ⟨s, e, hg, hslip⟩⟩

theorem Tracks.told {config : Config} {good : Sys → Event → Prop} {s : Sys} {a : Abs} (h : Tracks config good s a) :
    s.Told (Sys.slips good) ∧ s.pc .isr = .user ∧
      ∀ c, Answered (Request.Answer (Sys.slips good) c) c s.k.trace := by
  induction h with
  | init => exact ⟨fun _ => rfl, rfl, fun _ => .nil⟩
  | step e h hg hs hruns hinv ih =>
    obtain ⟨htold, hisr, hanswered⟩ := ih
    have htalk := htold .isr
    rw [hisr] at htalk
    have hσ := Sys.admits_slips hg
    exact ⟨h.inv.told_step hs hσ htold hisr, (h.inv.isr_said hs hisr htalk).1,
      fun c => h.inv.answered_step hs hσ htold htalk (hanswered c)⟩

theorem Inv.call_begins {s s' : Sys} {a : Abs} {x : Call} (h : Inv s a) (hs : s.step (.call x) = some s') :
    s.pc s.k.self = .user ∧ s' = s.beginCall s.k.self x ∧ (a.core (·.emit (.call a.self x))).Entered := by
  obtain ⟨-, hcan, hpc, -, -, rfl⟩ := Sys.step_call.mp hs
  have he := h.entered hcan (by rw [← h.self_eq, hpc]; rfl)
  exact ⟨hpc, rfl, he.data (d := .mark (.call a.self x)) rfl rfl⟩

/-- What a step writes into the history: entries that mark nothing, and the marks of one call at most. -/
inductive Sys.Marks (s : Sys) (e : Event) (s' : Sys) : Prop
  | nothing (os : List Obs) (htrace : s'.k.trace = s.k.trace ++ os) (hos : ∀ o ∈ os, o.isMark = false)
  | call (x : Call) (os : List Obs) (he : e = .call x) (htrace : s'.k.trace = s.k.trace ++ .call s.k.self x :: os)
      (hos : ∀ o ∈ os, o.isMark = false)
  | ret (r : Ret) (he : e = .advance) (hpc : s.pc s.k.self = .ret r) (hk : s'.k = s.k.emit (.ret s.k.self r))
  | isr (x : IsrCall) (y : Bool) (os own : List Obs) (r : Ret) (he : e = .isr x y)
      (htrace : s'.k.trace = s.k.trace ++ (.isrCall x :: os ++ [.ret .isr r])) (hos : ∀ o ∈ os, o.isMark = false)
      (hanswer : x.Answer own r)

theorem Inv.marks {σ : Slips} {s s' : Sys} {a : Abs} {e : Event} (h : Inv s a) (hs : s.step e = some s')
    (hσ : s.Admits σ e) (htold : s.Told σ) : s.Marks e s' := by
  have hwrites : ∀ {c : Ctx} {own : List Obs}, s.k.Writes c own s'.k.toCore → s.Marks e s' := by
    intro c own hw
    obtain ⟨os, htrace, hmark, -⟩ := hw.trace
    exact .nothing os htrace hmark
  cases e with
  | call x =>
    obtain ⟨⟨own, hw⟩, -⟩ := h.call_said hs hσ (htold _)
    obtain ⟨os, htrace, hmark, -⟩ := hw.trace
    exact .call x os rfl (htrace.trans (List.append_assoc _ _ _)) hmark
  | advance =>
    obtain ⟨hnotes, -⟩ := h.advance_said hs hσ (htold _)
    cases hnotes with
    | writes own hw => exact hwrites hw
    | create phase site f p hpc htrace => exact .nothing [] (htrace.trans (List.append_nil _).symm) (by simp)
    | ret r hpc hk => exact .ret r rfl hpc hk
  | tick => exact hwrites (quiet_writes .isr hs (Or.inl rfl)).1
  | pendSV psp => exact hwrites (quiet_writes .isr hs (Or.inr ⟨psp, rfl⟩)).1
  | isr x y =>
    obtain ⟨k', own, r, hw, hanswer, -, hk, -⟩ := h.isr_writes hs
    obtain ⟨os, htrace, hmark, -⟩ := hw.trace
    refine .isr x y os own r rfl ?_ hmark hanswer
    rw [hk]
    show k'.trace ++ [.ret .isr r] = _
    rw [htrace]
    simp

/-- What a step has to say about the calls of `c`: nothing, that one begins, or that one returns. -/
inductive Sys.Speaks (c : Ctx) (s : Sys) (e : Event) (s' : Sys) : Prop
  | nothing (os : List Obs) (htrace : s'.k.trace = s.k.trace ++ os)
      (hos : ∀ o ∈ os, o.ctx = some c → o.isMark = false)
  | call (x : Call) (os : List Obs) (he : e = .call x) (hself : s.k.self = c)
      (htrace : s'.k.trace = s.k.trace ++ .call c x :: os) (hos : ∀ o ∈ os, o.isMark = false)
  | ret (r : Ret) (he : e = .advance) (hself : s.k.self = c) (hpc : s.pc c = .ret r)
      (hk : s'.k = s.k.emit (.ret c r))

theorem Inv.speaks {σ : Slips} {s s' : Sys} {a : Abs} {e : Event} {c : Ctx} (h : Inv s a) (hs : s.step e = some s')
    (hσ : s.Admits σ e) (htold : s.Told σ) (hc : c ≠ .isr) : s.Speaks c e s' := by
  cases h.marks hs hσ htold with
  | nothing os htrace hos => exact .nothing os htrace fun o ho _ => hos o ho
  | call x os he htrace hos =>
    by_cases hself : s.k.self = c
    · subst hself
      exact .call x os he rfl htrace hos
    · refine .nothing _ htrace fun o ho hctx => ?_
      rcases List.mem_cons.mp ho with rfl | ho
      · exact absurd (Option.some.inj hctx) hself
      · exact hos o ho
  | ret r he hpc hk =>
    by_cases hself : s.k.self = c
    · subst hself
      exact .ret r he rfl hpc hk
    · refine .nothing [.ret s.k.self r] (by rw [hk]; rfl) fun o ho hctx => ?_
      rw [List.mem_singleton.mp ho] at hctx
      exact absurd (Option.some.inj hctx) hself
  | isr x y os own r he htrace hos hanswer =>
    refine .nothing _ htrace fun o ho hctx => ?_
    simp only [List.cons_append, List.mem_cons, List.mem_append, List.not_mem_nil, or_false] at ho
    rcases ho with rfl | ho | rfl
    · exact absurd (Option.some.inj hctx).symm hc
    · exact hos o ho
    · exact absurd (Option.some.inj hctx).symm hc

theorem Inv.asked_step {σ : Slips} {s s' : Sys} {a : Abs} {e : Event} {os : List Obs} {o : Obs} {q : Request}
    (h : Inv s a) (hs : s.step e = some s') (hσ : s.Admits σ e) (htold : s.Told σ)
    (htrace : s'.k.trace = s.k.trace ++ os) (ho : o ∈ os) (hq : o.asks = some q) :
    (∃ x, e = .call x ∧ q = .inl x) ∨ ∃ x y, e = .isr x y ∧ q = .inr x := by
  have hmarks : ∀ {os' : List Obs}, (∀ o ∈ os', o.isMark = false) → o ∉ os' := by
    intro os' hmark hmem
    have hnot := hmark o hmem
    cases o <;> simp [Obs.isMark, Obs.asks] at hnot hq
  have hnew : ∀ {os' : List Obs}, s'.k.trace = s.k.trace ++ os' → o ∈ os' := fun htrace' =>
    List.append_cancel_left (htrace.symm.trans htrace') ▸ ho
  cases h.marks hs hσ htold with
  | nothing os' htrace' hos => exact absurd (hnew htrace') (hmarks hos)
  | call x os' he htrace' hos =>
    rcases List.mem_cons.mp (hnew htrace') with rfl | ho
    · exact Or.inl ⟨x, he, (Option.some.inj hq).symm⟩
    · exact absurd ho (hmarks hos)
  | ret r he hpc hk =>
    have hret : s'.k.trace = s.k.trace ++ [.ret s.k.self r] := by rw [hk]; rfl
    rw [List.mem_singleton.mp (hnew hret)] at hq
    cases hq
  | isr x y os' own r he htrace' hos hanswer =>
    have ho := hnew htrace'
    simp only [List.cons_append, List.mem_cons, List.mem_append, List.not_mem_nil, or_false] at ho
    rcases ho with rfl | ho | rfl
    · exact Or.inr ⟨x, y, he, (Option.some.inj hq).symm⟩
    · exact absurd ho (hmarks hos)
    · cases hq

theorem Inv.returns_step {σ : Slips} {s s' : Sys} {a : Abs} {e : Event} {c : Ctx} {pre post : List Obs} {r : Ret}
    (h : Inv s a) (hs : s.step e = some s') (hσ : s.Admits σ e) (htold : s.Told σ)
    (heq : s'.k.trace = pre ++ .ret c r :: post) :
    (∃ post', s.k.trace = pre ++ .ret c r :: post') ∨ pre = s.k.trace ∧ c = s.k.self ∧ s.pc c = .ret r ∨
      c = .isr ∧ ∀ t, r ≠ .task t := by
  have hold : ∀ {os : List Obs}, s'.k.trace = s.k.trace ++ os → .ret c r ∉ os →
      ∃ post', s.k.trace = pre ++ .ret c r :: post' := fun htrace ho =>
    (split_append (htrace.symm.trans heq) ho).imp fun _ hsplit => hsplit.1
  have hmarks : ∀ {os : List Obs}, (∀ o ∈ os, o.isMark = false) → .ret c r ∉ os := fun hos ho =>
    Bool.noConfusion (hos _ ho)
  cases h.marks hs hσ htold with
  | nothing os htrace hos => exact Or.inl (hold htrace (hmarks hos))
  | call x os he htrace hos =>
    refine Or.inl (hold htrace fun ho => ?_)
    rcases List.mem_cons.mp ho with ho | ho
    · cases ho
    · exact hmarks hos ho
  | ret r' he hpc hk =>
    have htrace : s'.k.trace = s.k.trace ++ [.ret s.k.self r'] := by rw [hk]; rfl
    rcases List.eq_nil_or_concat post with rfl | ⟨post', o, rfl⟩
    · obtain ⟨rfl, hlast⟩ := List.append_inj' (htrace.symm.trans heq) rfl
      cases hlast
      exact Or.inr (Or.inl ⟨rfl, rfl, hpc⟩)
    · rw [htrace, List.concat_eq_append, ← List.cons_append, ← List.append_assoc] at heq
      exact Or.inl ⟨post', (List.append_inj' heq rfl).1⟩
  | isr x y os own r' he htrace hos hanswer =>
    by_cases hret : Obs.ret c r = .ret .isr r'
    · cases hret
      refine Or.inr (Or.inr ⟨rfl, fun t hr => ?_⟩)
      subst hr
      cases x <;> simp [IsrCall.Answer] at hanswer
    · refine Or.inl (hold htrace fun ho => ?_)
      simp only [List.cons_append, List.mem_cons, List.mem_append, List.not_mem_nil, or_false] at ho
      rcases ho with ho | ho | ho
      · cases ho
      · exact hmarks hos ho
      · exact hret ho

end AcRtos
