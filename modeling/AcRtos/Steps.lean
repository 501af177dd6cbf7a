import AcRtos.Control

/-!
# Every step of the machine keeps the invariant

`Sys.visit` is the visit that a step makes. `Inv.step`: from a state with the invariant, a step is a run of
actions of its visit to a state with the invariant. `Tracks` pairs the runs of the machine with the runs of
the abstract kernel; every reachable state is tracked.
-/

namespace AcRtos

open Abs Visit

namespace Pc

/-- Neither in `create_task` nor in `start()`. -/
def plain : Pc → Bool
  | .create .. | .startRun | .startYield => false
  | _ => true

theorem not_boots {p : Pc} (h : p.plain = true) : p.boots = false := by
  cases p <;> first | rfl | cases h

end Pc

/-- The running context makes the step to `s'`, and the invariant holds there. -/
def Inv.Moves (s : Sys) (a : Abs) (s' : Sys) : Prop :=
  ∃ p' acts a', s'.pc = Function.update s.pc a.self p' ∧
    Runs (Visit.call a.self (s.cs != 0) (s.pc a.self) p') a acts a' ∧ Inv s' a'

namespace Inv

variable {s s' : Sys} {a : Abs}

theorem self_eq (h : Inv s a) : s.k.self = a.self := AcRtos.self_eq h.rep

/-- A context that executes is `Running`, unless it has given up the CPU. -/
theorem entered (h : Inv s a) (hcan : s.canRun = true) (hg : (s.pc a.self).gives = false) : a.Entered := by
  refine ⟨h.wf, h.owned, h.starved, fun t ht => ?_, fun t ht => (h.control.current t ht).1⟩
  by_contra hr
  obtain ⟨hcs, hpend⟩ := h.control.running t ht hr
  have hself : a.self = .task t := by simp [Core.self, ht]
  rw [hself] at hg
  rcases hpend with hpend | hpend
  · simp [Sys.canRun, hcs, hpend] at hcan
  · rw [hg] at hpend
    cases hpend

theorem advance (p' : Pc) (h : Inv s a) (he : a.Entered) (hawake : ∀ i, s.idle = some i → a.self ≠ .task i)
    (hleads : (Visit.call a.self (s.cs != 0) (s.pc a.self) p').Leads a s'.k)
    (hpc : s'.pc = Function.update s.pc a.self p') (hhandles : s'.handles = s.handles)
    (hidle : s'.idle = s.idle) (hcs : p'.gives = true → s'.cs = s.cs)
    (hpend : s'.pend = true → s.pend = true ∨ a.started = true)
    (hready : ∀ t site f p, s.pc a.self ≠ .create (.ready t) site f p)
    (hbuilds : ∀ t, p'.builds = some t → (s.pc a.self).builds = some t ∨ a.taskCount ≤ t)
    (hok : ∀ a', Rep s'.k a' → (Visit.call a.self (s.cs != 0) (s.pc a.self) p').Passes a a' →
      p'.Ok s' a' a.self)
    (hboots : (s.pc a.self).boots = true → p'.boots = true ∨ s'.k.started = true) :
    Moves s a s' := by
  obtain ⟨acts, a', hruns, hrep⟩ := hleads
  have hpass := hruns.passes h.wf
  have hcur : a'.currentTask = a.currentTask := hpass.current (by simp [Visit.call])
  have hstarted : a.started = true → a'.started = true := fun hs => by
    rcases hpass.started with heq | ⟨-, hs'⟩
    · rw [heq, hs]
    · exact hs'
  refine ⟨p', acts, a', hpc, hruns,
    h.turn ⟨hruns, hrep, hpc, hawake, hok a' hrep hpass, hbuilds, .same hhandles hidle,
    fun t site f p hb => absurd hb (hready t site f p), fun t ht hr => ?_, fun hp => ?_, fun hns => ?_,
    fun t w ht hw => ?_⟩⟩
  · rcases hpass.running (by simp [Visit.call]) t ht (he.running t ht) with hr' | ⟨hm, hg⟩
    · exact absurd hr' hr
    · refine ⟨?_, Or.inr hg⟩
      rw [hcs hg]
      simpa [Visit.call] using hm
  · rcases hpend hp with hp | hs
    · exact hstarted (h.control.pend hp)
    · exact hstarted hs
  · have hns' : a.started = false := by
      cases hst : a.started with
      | false => rfl
      | true => rw [hstarted hst] at hns; cases hns
    by_cases hb : (s.pc a.self).boots = true
    · rcases hboots hb with hb' | hs
      · exact Or.inl hb'
      · rw [hrep.core_eq, hns] at hs
        cases hs
    · rcases h.control.booting hns' with hb' | ⟨hf, hi⟩
      · rw [← h.control.main_of_not_started hns'] at hb'
        exact absurd hb' hb
      · refine Or.inr ⟨?_, hidle.trans hi⟩
        rcases hpass.flag idleSite with heq | ⟨f, p, hset⟩
        · exact heq.trans hf
        · refine absurd ?_ hb
          rw [show s.pc a.self = _ from hset]
          rfl
  · rcases hpass.parked t w hw with hw | ⟨-, W, hafter, hW⟩
    · have := h.wf.waitList_none (t := t) (by simp [he.running t ht])
      rw [this] at hw
      cases hw
    · exact ⟨W, hW, Or.inl hafter⟩

theorem plain (cs' : Nat) (h : Inv s a) (he : a.Entered) (hawake : ∀ i, s.idle = some i → a.self ≠ .task i)
    {p' : Pc}
    {k' : Kernel} (hplain : (s.pc a.self).plain = true)
    (hleads : (Visit.call a.self (s.cs != 0) (s.pc a.self) p').Leads a k')
    (hcs : p'.gives = true → cs' = s.cs) (hbuilds : p'.builds = none)
    (hok : ∀ a', (Visit.call a.self (s.cs != 0) (s.pc a.self) p').Passes a a' →
      p'.Ok { (s.setK k').setPc a.self p' with cs := cs' } a' a.self) :
    Moves s a { (s.setK k').setPc a.self p' with cs := cs' } := by
  refine h.advance _ he hawake hleads rfl rfl rfl hcs Or.inl ?_ ?_ (fun a' _ => hok a') ?_
  · intro t site f p hb
    rw [hb] at hplain
    cases hplain
  · intro t hb
    rw [hbuilds] at hb
    cases hb
  · rw [Pc.not_boots hplain]
    simp

theorem settle (h : Inv s a) (he : a.Entered) (hawake : ∀ i, s.idle = some i → a.self ≠ .task i)
    (r : Outcome × Kernel) (hplain : (s.pc a.self).plain = true)
    (hen : a.Enters (s.cs != 0) (s.pc a.self) r.1 r.2) : Moves s a (s.settle a.self r) := by
  obtain ⟨o, k'⟩ := r
  refine h.plain s.cs he hawake hplain hen.1 (fun _ => rfl) ?_ fun a' hpass => ?_
  · cases o with
    | ret r y => cases y <;> rfl
    | wait w => rfl
  · have hyield : o.yields = true → a'.started = true := fun hy => by
      rcases hpass.started with heq | ⟨-, hs⟩
      · rw [heq, hen.2 hy]
      · exact hs
    cases o with
    | ret r y =>
      cases y with
      | true => exact hyield rfl
      | false => trivial
    | wait w => exact hyield rfl

end Inv

namespace Abs

variable {a : Abs} {masked : Bool} {before : Pc} {o : Outcome} {k' : Kernel}

theorem Entered.data (h : a.Entered) {d : DataOp} (he : d.Enabled a)
    (hstarted : (d.run a.toCore).started = a.started) : (a.core d.run).Entered := by
  have halike := d.alike he
  have hen : (Action.data d).Enabled a := he
  refine ⟨h.wf.apply hen, h.owned.apply h.wf hen, h.starved.apply h.wf hen, fun t ht => ?_, fun t ht => ?_⟩
  · show ((d.run a.toCore).tcb t).state = _
    rw [halike.tcb]
    exact h.running t (halike.currentTask ▸ ht)
  · exact hstarted.trans (h.started t (halike.currentTask ▸ ht))

theorem Enters.data {d : DataOp} (he : d.Enabled a) (hf : d.Fits (Visit.section a.self masked before o) a)
    (hstarted : (d.run a.toCore).started = a.started)
    (h : (a.core d.run).Enters masked before o k') : a.Enters masked before o k' := by
  have hself : (a.core d.run).self = a.self := by
    simp only [Core.self]
    rw [show (a.core d.run).currentTask = a.currentTask from (d.alike he).currentTask]
  refine ⟨leads_cons (.data d) he hf ?_, fun hy => hstarted.symm.trans (h.2 hy)⟩
  have := h.1
  rw [hself] at this
  exact this

end Abs

/-! ### Calls -/

namespace Inv

variable {s s' : Sys} {a : Abs}

theorem masked_of_mayBlock {c : Call} (h : Inv s a) (hadm : c.admissible s = true)
    (hb : c.mayBlock a.self = true) : (s.cs != 0) = false := by
  unfold Call.admissible at hadm
  rw [h.self_eq, hb] at hadm
  simp only [Bool.not_true, Bool.false_or, Bool.and_eq_true] at hadm
  simpa using hadm.1

theorem beginCall {c : Call} (h : Inv s a) (hcan : s.canRun = true) (hpc : s.pc a.self = .user)
    (hawake : ∀ i, s.idle = some i → a.self ≠ .task i) (hadm : c.admissible s = true) :
    Moves s a (s.beginCall a.self c) := by
  have he := h.entered hcan (by rw [hpc]; rfl)
  have hplain : (s.pc a.self).plain = true := by rw [hpc]; rfl
  have hmark : (DataOp.mark (.call a.self c)).Enabled a := rfl
  have hrep := h.rep.core (·.emit (.call a.self c))
  have he' := he.data hmark rfl
  have hmasked := h.masked_of_mayBlock hadm
  -- a call that is one section
  have hsection : ∀ r : Outcome × Kernel,
      (a.core (·.emit (.call a.self c))).Enters (s.cs != 0) (s.pc a.self) r.1 r.2 →
      Moves s a (s.settle a.self r) := fun r hen =>
    h.settle he hawake r hplain (Enters.data (d := .mark (.call a.self c)) hmark rfl rfl hen)
  -- a call that only goes to its next step
  have hgo : ∀ {p' : Pc} {cs' : Nat}, p'.gives = false → p'.builds = none →
      (∀ a', (Visit.call a.self (s.cs != 0) (s.pc a.self) p').Passes a a' →
        p'.Ok { (s.setK (s.k.emit (.call a.self c))).setPc a.self p' with cs := cs' } a' a.self) →
      Moves s a { (s.setK (s.k.emit (.call a.self c))).setPc a.self p' with cs := cs' } := fun hg hb hok =>
    h.plain _ he hawake hplain (leads_cons (.data (.mark (.call a.self c))) hmark rfl (leads_refl hrep))
      (fun hg' => by rw [hg] at hg'; cases hg') hb hok
  have hrules := hadm
  unfold Call.admissible at hrules
  rw [Bool.and_eq_true] at hrules
  replace hrules := hrules.2
  cases c with
  | createTask site f priority =>
    refine hgo rfl rfl fun a' _ => ⟨fun hs => ?_, nofun, nofun⟩
    simp [hs] at hrules
  | start =>
    simp only [Sys.beginCall]
    split
    · exact h.plain s.cs he hawake hplain (leads_cons (.data (.mark (.call a.self .start))) hmark
        rfl (leads_check hrep _ _)) (fun _ => rfl) rfl fun _ _ => trivial
    · rename_i hns
      have hns' : a.started = false := by
        have hsame : (s.k.emit (.call a.self .start)).started = a.started := by
          rw [Kernel.emit_eq, hrep.core_eq]
          rfl
        rw [hsame] at hns
        simpa using hns
      simp only [h.rep.core_eq, hns', Bool.false_or, Bool.and_eq_true, beq_iff_eq, decide_eq_true_eq] at hrules
      obtain ⟨hmain, hroom⟩ := hrules
      have hfresh : a.isCreated idleSite = false ∧ s.idle = none := by
        refine (h.control.booting hns').resolve_left ?_
        rw [show (Ctx.main) = a.self from hmain.symm, hpc]
        simp [Pc.boots]
      refine hgo rfl rfl fun a' hpass => ⟨fun _ => ⟨⟨hmain, ?_, fun _ => ?_, fun _ => ?_, ?_⟩, rfl⟩,
        nofun, nofun⟩
      · rcases hpass.started with heq | ⟨hb, -⟩
        · exact heq.trans hns'
        · rw [show s.pc a.self = _ from hb] at hpc
          cases hpc
      · rcases hpass.flag idleSite with heq | ⟨f, p, hb⟩
        · exact heq.trans hfresh.1
        · rw [show s.pc a.self = _ from hb] at hpc
          cases hpc
      · rcases hpass.count with heq | ⟨-, site, f, p, hb⟩
        · rw [heq, hpass.config]
          exact hroom
        · rw [show s.pc a.self = _ from hb] at hpc
          cases hpc
      · exact ⟨fun _ => rfl, fun _ => hfresh.2⟩
  | delayMs ms => exact hsection _ (delayMs_leads hrep he' (hmasked rfl) rfl)
  | delayUntil wakeTime => exact hsection _ (delayUntil_leads hrep he' (hmasked rfl) rfl)
  | suspend x =>
    cases x with
    | none => exact hgo rfl rfl fun _ _ => trivial
    | some t =>
      simp only [Sys.beginCall]
      split
      · exact hgo rfl rfl fun _ _ => trivial
      · have hin : t ∈ s.handles := by simpa using hrules
        refine hgo rfl rfl fun a' _ => ⟨hin, fun _ ht => ?_⟩
        show s.cs = 0
        simpa using hmasked (by simp [Call.mayBlock, ht])
  | resume x =>
    cases x with
    | none => exact hgo rfl rfl fun _ _ => trivial
    | some t =>
      refine h.plain s.cs he hawake hplain
        (leads_cons (.data (.mark (.call a.self (.resume (some t))))) hmark rfl (leads_check hrep _ _))
        (fun _ => rfl) rfl fun a' _ => ?_
      show t ∈ s.handles
      simpa using hrules
  | terminate x =>
    cases x with
    | none => exact hgo rfl rfl fun _ _ => trivial
    | some t =>
      simp only [Sys.beginCall]
      split
      · exact hgo rfl rfl fun _ _ => trivial
      · have hin : t ∈ s.handles := by simpa using hrules
        refine hgo rfl rfl fun a' _ => ⟨hin, fun _ ht => ?_⟩
        show s.cs = 0
        simpa using hmasked (by simp [Call.mayBlock, ht])
  | yield =>
    refine h.plain s.cs he hawake hplain
      (leads_cons (.data (.mark (.call a.self .yield))) hmark rfl (leads_refl hrep)) (fun _ => rfl) rfl
      fun a' hpass => ?_
    rw [h.rep.core_eq] at hrules
    rcases hpass.started with heq | ⟨-, hs⟩
    · exact heq.trans hrules
    · exact hs
  | take x ms => exact hsection _ (take_leads hrep he' (fun hms => hmasked (by simpa [Call.mayBlock] using hms)) rfl)
  | tryTake x =>
    exact hsection (.ret (.bool (Semaphore.tryTake x a.self _).1) false, (Semaphore.tryTake x a.self _).2)
      (Leads.enters (tryTake_leads (v := Visit.section (a.core (·.emit (.call a.self (.tryTake x)))).self _ _ _)
        (s := x) hrep rfl))
  | give x => exact hsection _ (give_leads hrep he' rfl)
  | lock m =>
    rw [h.rep.core_eq] at hrules
    refine hsection _ (lock_leads hrep he' (of_decide_eq_true hrules) (hmasked rfl) ?_ rfl)
    show (talk a.self (a.trace ++ [.call a.self (.lock m)])).asked = _
    rw [talk_call]
  | unlock m =>
    refine hsection _ (unlock_leads hrep he' ?_ rfl)
    show (talk a.self (a.trace ++ [.call a.self (.unlock m)])).asked = _
    rw [talk_call]
  | send q item ms =>
    have hframe : (DataOp.frame a.self fun f => { f with item := item }).Enabled
      (a.core (·.emit (.call a.self (.send q item ms)))) := trivial
    exact hsection _ (Enters.data (d := .frame a.self fun f => { f with item := item }) hframe rfl rfl
      (send_leads (hrep.core _) (he'.data hframe rfl)
        (fun hms => hmasked (by simpa [Call.mayBlock] using hms)) rfl))
  | receive q ms =>
    exact hsection _ (receive_leads hrep he' (fun hms => hmasked (by simpa [Call.mayBlock] using hms)) rfl)
  | waitBits g mask all clear ms =>
    simp only [Sys.beginCall]
    split
    · exact hsection _ (readBits_leads hrep rfl)
    · cases hcur : (s.k.emit (.call a.self (.waitBits g mask all clear ms))).currentTask with
      | none =>
        simp only
        have hquiet := Rep.quiet_check .waitBitsBeforeStart false
          (a.core (·.emit (.call a.self (.waitBits g mask all clear ms)))).toCore
        exact hsection _ (Enters.data (d := .quiet _) hquiet trivial hquiet.started
          (readBits_leads (hrep.core (·.check .waitBitsBeforeStart false)) rfl))
      | some t =>
        simp only
        refine h.plain s.cs he hawake hplain (leads_cons (.data (.mark _)) hmark rfl
          (leads_data (d := .frame a.self fun f => { f with bits := 0 }) hrep trivial rfl)) (fun _ => rfl) rfl
          fun a' _ _ hms => ?_
        show s.cs = 0
        simpa using hmasked (by simpa [Call.mayBlock] using hms)
  | setBits g mask =>
    refine hsection _ (setBits_leads hrep he' hpc ?_ rfl)
    show (talk a.self (a.trace ++ [.call a.self (.setBits g mask)])).asked = _
    rw [talk_call]
  | clearBits g mask => exact hsection _ (clearBits_leads hrep rfl)
  | getBits g => exact hsection _ (readBits_leads hrep rfl)
  | enterCritical => exact hgo rfl rfl fun _ _ => trivial
  | exitCritical => exact hgo rfl rfl fun _ _ => trivial

/-! ### Steps inside a call -/

theorem created_leads (h : Rep s.k a) {v : Visit} (site : Site) (x : Option Tid) :
    v.Leads a (s.created a.self site x s.k).k := by
  unfold Sys.created
  split
  · exact leads_check h _ _
  · exact leads_refl h

theorem creates (phase' : CreatePhase) (k' : Kernel) (h : Inv s a) (he : a.Entered)
    (hawake : ∀ i, s.idle = some i → a.self ≠ .task i)
    {phase : CreatePhase} {site : Site} {f : Callable} {p : Nat}
    (hpc : s.pc a.self = .create phase site f p)
    (hleads : (Visit.call a.self (s.cs != 0) (.create phase site f p) (.create phase' site f p)).Leads a k')
    (hready : ∀ t, phase ≠ .ready t)
    (hbuilds : ∀ t, (Pc.create phase' site f p).builds = some t →
      (Pc.create phase site f p).builds = some t ∨ a.taskCount ≤ t)
    (hok : ∀ a', Rep k' a' →
      (Visit.call a.self (s.cs != 0) (.create phase site f p) (.create phase' site f p)).Passes a a' →
      (Pc.create phase' site f p).Ok ((s.setK k').setPc a.self (.create phase' site f p)) a' a.self) :
    Moves s a ((s.setK k').setPc a.self (.create phase' site f p)) := by
  refine h.advance (.create phase' site f p) he hawake (by rw [hpc]; exact hleads) rfl rfl rfl
    (fun _ => rfl) Or.inl ?_ (by rw [hpc]; exact hbuilds) (by rw [hpc]; exact hok) ?_
  · intro t site' f' p' heq
    rw [hpc] at heq
    cases heq
    exact hready t rfl
  · rw [hpc]
    exact Or.inl

theorem createOk (phase' : CreatePhase) (h : Inv s a) {phase : CreatePhase} {site : Site} {f : Callable} {p : Nat}
    (hpc : s.pc a.self = .create phase site f p) {v : Visit} {a' : Abs} (hpass : v.Passes a a')
    (hbefore : v.before = .create phase site f p)
    (hflag : phase'.beforeFlag = true → phase.beforeFlag = true ∧ phase ≠ .setFlag)
    (halloc : phase'.beforeAlloc = true → phase.beforeAlloc = true ∧ phase ≠ .alloc)
    (hdone : phase'.done = phase.done) {s₁ : Sys} (hidle : s₁.idle = s.idle) (hsite : site = idleSite) :
    Boots s₁ a' a.self phase' ∧ p = 0 := by
  have hok := h.control.ok a.self
  rw [hpc] at hok
  obtain ⟨hb, hp⟩ := hok.1 hsite
  refine ⟨⟨hb.main, ?_, fun hf => ?_, fun ha => ?_, by rw [hidle, hdone]; exact hb.idle⟩, hp⟩
  · rcases hpass.started with heq | ⟨hr, -⟩
    · exact heq.trans hb.started
    · rw [hbefore] at hr
      cases hr
  · obtain ⟨hf, hne⟩ := hflag hf
    rcases hpass.flag idleSite with heq | ⟨f', p', hset⟩
    · exact heq.trans (hb.flag hf)
    · rw [hbefore] at hset
      cases hset
      exact absurd rfl hne
  · obtain ⟨ha, hne⟩ := halloc ha
    rcases hpass.count with heq | ⟨-, site', f', p', hal⟩
    · rw [heq, hpass.config]
      exact hb.room ha
    · rw [hbefore] at hal
      cases hal
      exact absurd rfl hne

theorem refused (h : Inv s a) (he : a.Entered) (hawake : ∀ i, s.idle = some i → a.self ≠ .task i)
    {phase : CreatePhase} {site : Site} {f : Callable} {p : Nat} {k' : Kernel}
    (hpc : s.pc a.self = .create phase site f p) (hready : ∀ t, phase ≠ .ready t) (hsite : site ≠ idleSite)
    (hleads : (Visit.call a.self (s.cs != 0) (.create phase site f p) (.ret (.task none))).Leads a k') :
    Moves s a (s.created a.self site none k') := by
  unfold Sys.created
  rw [if_neg hsite]
  refine h.advance (.ret (.task none)) he hawake (by rw [hpc]; exact hleads) rfl rfl rfl (fun _ => rfl)
    Or.inl ?_ nofun (fun _ _ _ => trivial) ?_
  · intro t site' f' p' heq
    rw [hpc] at heq
    cases heq
    exact hready t rfl
  · rw [hpc]
    intro hb
    exact absurd (by simpa [Pc.boots] using hb) hsite

theorem allocates (h : Inv s a) (he : a.Entered) (hawake : ∀ i, s.idle = some i → a.self ≠ .task i)
    {site : Site} {f : Callable} {p : Nat} (hpc : s.pc a.self = .create .alloc site f p) :
    Moves s a (s.advanceCreate a.self .alloc site f p) := by
  have hok := h.control.ok a.self
  rw [hpc] at hok
  have hquiet := Rep.quiet_check .priorityRange (decide (p < kMaxPriorities)) a.toCore
  have hrep := h.rep.core (·.check .priorityRange (decide (p < kMaxPriorities)))
  have hwf : (a.core (·.check .priorityRange (decide (p < kMaxPriorities)))).WF :=
    (he.data (d := .quiet _) hquiet hquiet.started).wf
  have halloc := hrep.allocateTcb hwf
  simp only [Sys.advanceCreate, Scheduler.allocate]
  by_cases hp : p ≥ kMaxPriorities
  · rw [if_pos hp]
    refine h.refused he hawake hpc (by simp) (fun hs => ?_) (leads_check h.rep _ _)
    have := (hok.1 hs).2
    unfold kMaxPriorities at hp
    omega
  rw [if_neg hp]
  split at halloc
  · rename_i hlt
    obtain ⟨hfst, hsnd⟩ := halloc
    have hcount : (a.core (·.check .priorityRange (decide (p < kMaxPriorities)))).taskCount = a.taskCount :=
      hquiet.taskCount
    rw [hcount] at hfst
    simp only [Kernel.check_eq, hfst]
    refine h.creates (.init a.taskCount) _ he hawake hpc (leads_cons (.data (.quiet _)) hquiet trivial
      (leads_cons .alloc hlt ⟨site, f, p, rfl, ?_⟩ (leads_check hsnd _ _))) (by simp)
      (fun u hu => Or.inr (Nat.le_of_eq (Option.some.inj hu))) fun a' hrep' hpass => ⟨?_, fun u hu => ?_, ?_⟩
    · exact congrArg (fun n => Pc.create (.init n) site f p) hcount.symm
    · exact h.createOk (.init a.taskCount) hpc hpass rfl (by simp [CreatePhase.beforeFlag])
        (by simp [CreatePhase.beforeAlloc]) rfl rfl
    · obtain rfl : a.taskCount = u := Option.some.inj hu
      have hend := Rep.quiet_check .kMaxTasksTooSmall (some a.taskCount).isSome
        (a.core (·.check .priorityRange (decide (p < kMaxPriorities)))).alloc.toCore
      have hcore := hrep'.core_eq.symm.trans (hsnd.core (·.check .kMaxTasksTooSmall (some a.taskCount).isSome)).core_eq
      have hfresh : a.taskCount ∉ s.handles := fun hin => Nat.lt_irrefl _ (h.control.handles _ hin)
      refine ⟨?_, ?_, hfresh, fun hi => Nat.lt_irrefl _ (h.control.idle _ hi).1⟩
      · rw [hcore]
        show a.taskCount < (Core.check _ _ _).taskCount
        rw [hend.taskCount]
        show a.taskCount < (a.core (·.check .priorityRange (decide (p < kMaxPriorities)))).taskCount + 1
        rw [hcount]
        exact Nat.lt_succ_self _
      · rw [hcore]
        show ((Core.check _ _ _).tcb a.taskCount).state = .suspended
        rw [hend.tcb, ← hcount]
        simp [alloc]
    · exact fun _ _ => Nat.not_le.mp hp
  · rename_i hfull
    simp only [Kernel.check_eq, halloc]
    refine h.refused he hawake hpc (by simp) (fun hs => hfull ?_)
      (leads_cons (.data (.quiet _)) hquiet trivial (leads_check hrep _ _))
    have hroom := (hok.1 hs).1.room rfl
    rw [← hquiet.taskCount, ← hquiet.config] at hroom
    exact hroom

theorem readies (h : Inv s a) (he : a.Entered) (hawake : ∀ i, s.idle = some i → a.self ≠ .task i)
    {t : Tid} {site : Site} {f : Callable} {p : Nat} (hpc : s.pc a.self = .create (.ready t) site f p) :
    Moves s a (s.advanceCreate a.self (.ready t) site f p) := by
  have hok := h.control.ok a.self
  rw [hpc] at hok
  have hb := hok.2.1 t rfl
  have hbuilds : (s.pc a.self).builds = some t := by rw [hpc]; rfl
  obtain ⟨acts, a', hruns, hrep⟩ := addToReadyQueue_leads (s.cs != 0) h.rep he hb.suspended site f p
  have hpass := hruns.passes h.wf
  have hcur : a'.currentTask = a.currentTask := hpass.current (by simp [Visit.call])
  have hstarted : a'.started = a.started := by
    rcases hpass.started with heq | ⟨hr, -⟩
    · exact heq
    · cases hr
  have hready : (a'.tcb t).state = .ready := by
    have hcore : a'.toCore = (a.ready t).toCore :=
      hrep.core_eq.symm.trans (h.rep.ready h.wf (Or.inl hb.suspended)).core_eq
    rw [hcore, Abs.ready, move_tcb, if_pos rfl]
  have hrunning : ∀ u, a.currentTask = some u → (a'.tcb u).state ≠ .running → False := by
    intro u hu hr
    rcases hpass.running (by simp [Visit.call]) u hu (he.running u hu) with hr' | ⟨-, hg⟩
    · exact hr hr'
    · cases hg
  have hparked : ∀ u w, a.currentTask = some u → (a'.tcb u).waitList = some w → False := by
    intro u w hu hw
    rcases hpass.parked u w hw with hw | ⟨-, W, hafter, -⟩
    · rw [h.wf.waitList_none (by simp [he.running u hu])] at hw
      cases hw
    · cases hafter
  have hturn : ∀ s' : Sys, s'.k = Scheduler.addToReadyQueue t s.k → s'.pend = s.pend →
      s'.pc = Function.update s.pc a.self (.create (.preempt t) site f p) →
      (site = idleSite → s'.idle = some t) → Names s s' a a' → (t ∈ s'.handles ∨ s'.idle = some t) →
      (site ≠ idleSite → s'.idle = s.idle) → Moves s a s' := by
    intro s' hk hpend hpc' hidle hnames hnamed hsame
    refine ⟨_, acts, a', hpc', by rw [hpc]; exact hruns,
      h.turn ⟨by rw [hpc]; exact hruns, hk ▸ hrep, hpc', hawake,
      ⟨fun hs => ?_, by simp [Pc.builds], by simp⟩, by simp [Pc.builds], hnames, fun u site' f' p' heq => ?_,
      fun u hu hr => (hrunning u hu hr).elim, fun hp => ?_, fun hns => ?_,
      fun u w hu hw => (hparked u w hu hw).elim⟩⟩
    · obtain ⟨hboots, hp⟩ := hok.1 hs
      exact ⟨⟨hboots.main, hstarted.trans hboots.started, by simp [CreatePhase.beforeFlag],
        by simp [CreatePhase.beforeAlloc],
        by simp [hidle hs, CreatePhase.done]⟩, hp⟩
    · rw [hpc] at heq
      cases heq
      exact hnamed
    · rw [hpend] at hp
      rw [hstarted]
      exact h.control.pend hp
    · rw [hstarted] at hns
      rcases h.control.booting hns with hb' | ⟨hf, hi⟩
      · rw [← h.control.main_of_not_started hns, hpc] at hb'
        exact Or.inl hb'
      · by_cases hs : site = idleSite
        · exact Or.inl (by simp [Pc.boots, hs])
        · refine Or.inr ⟨?_, (hsame hs).trans hi⟩
          rcases hpass.flag idleSite with heq | ⟨f', p', hset⟩
          · exact heq.trans hf
          · cases hset
  simp only [Sys.advanceCreate]
  by_cases hs : site = idleSite
  · rw [if_pos hs]
    have hnone : s.idle = none := (hok.1 hs).1.idle.mpr rfl
    exact hturn _ rfl rfl rfl (fun _ => rfl) (.idle t hbuilds hready rfl hnone rfl) (Or.inr rfl)
      (fun hne => absurd hs hne)
  · rw [if_neg hs]
    exact hturn _ rfl rfl rfl (fun he => absurd he hs) (.task t hbuilds hready rfl rfl)
      (Or.inl List.mem_cons_self) (fun _ => rfl)

theorem advanceCreate (h : Inv s a) (hcan : s.canRun = true)
    (hawake : ∀ i, s.idle = some i → a.self ≠ .task i) {phase : CreatePhase} {site : Site} {f : Callable}
    {p : Nat} (hpc : s.pc a.self = .create phase site f p) :
    Moves s a (s.advanceCreate a.self phase site f p) := by
  have he := h.entered hcan (by rw [hpc]; rfl)
  have hok := h.control.ok a.self
  rw [hpc] at hok
  cases phase with
  | assertFlag =>
    refine h.creates .testFlag _ he hawake hpc (leads_check h.rep _ _) (by simp) nofun fun a' _ hpass =>
      ⟨?_, nofun, nofun⟩
    exact h.createOk .testFlag hpc hpass rfl (by simp [CreatePhase.beforeFlag])
      (by simp [CreatePhase.beforeAlloc]) rfl rfl
  | testFlag =>
    simp only [Sys.advanceCreate]
    split
    · rename_i hset
      rw [h.rep.core_eq] at hset
      refine h.refused he hawake hpc (by simp) (fun hs => ?_) (leads_refl h.rep)
      subst hs
      rw [(hok.1 rfl).1.flag rfl] at hset
      cases hset
    · refine h.creates .setFlag s.k he hawake hpc (leads_refl h.rep) (by simp) nofun fun a' _ hpass =>
        ⟨?_, nofun, nofun⟩
      exact h.createOk .setFlag hpc hpass rfl (by simp [CreatePhase.beforeFlag])
        (by simp [CreatePhase.beforeAlloc]) rfl rfl
  | setFlag =>
    refine h.creates .copy _ he hawake hpc (leads_data (d := .setFlag site) h.rep trivial ⟨f, p, rfl⟩) (by simp)
      nofun fun a' _ hpass => ⟨?_, nofun, nofun⟩
    exact h.createOk .copy hpc hpass rfl (by simp [CreatePhase.beforeFlag])
      (by simp [CreatePhase.beforeAlloc]) rfl rfl
  | copy =>
    have hquiet : a.Quiet (a.setStorage site fun x => { x with callable := some f }) :=
      ⟨rfl, rfl, rfl, rfl, rfl, rfl, rfl, rfl, rfl, rfl, rfl, rfl, rfl, Or.inl rfl⟩
    refine h.creates .alloc _ he hawake hpc (leads_of_action (.data (.quiet _)) hquiet trivial
      (h.rep.core (·.setStorage site fun x => { x with callable := some f }))) (by simp) nofun
      fun a' _ hpass => ⟨?_, nofun, nofun⟩
    exact h.createOk .alloc hpc hpass rfl (by simp [CreatePhase.beforeFlag])
      (by simp [CreatePhase.beforeAlloc]) rfl rfl
  | alloc => exact h.allocates he hawake hpc
  | init t =>
    have hb := hok.2.1 t rfl
    have hfree : ∀ m, a.owner m ≠ some t := fun m ho =>
      (h.control.owners m t ho).elim hb.unnamed hb.not_idle
    refine h.creates (.ready t) _ he hawake hpc (leads_of_action (.initTcb t site p)
      ⟨hb.lt, hb.suspended, hok.2.2 t rfl, hfree⟩ ⟨f, rfl⟩ (h.rep.initTcb site p)) (by simp)
        (fun u hu => Or.inl hu)
      fun a' _ hpass => ⟨?_, fun u hu => ?_, nofun⟩
    · exact h.createOk (.ready t) hpc hpass rfl (by simp [CreatePhase.beforeFlag])
        (by simp [CreatePhase.beforeAlloc]) rfl rfl
    · obtain rfl : t = u := Option.some.inj hu
      refine ⟨Nat.lt_of_lt_of_le hb.lt hpass.count_le, ?_, hb.unnamed, hb.not_idle⟩
      by_contra hs
      rcases hpass.known t (Nat.lt_of_lt_of_le hb.lt hpass.count_le) hs with ⟨-, hs⟩ | hr | hr | ⟨_, _, _, hr⟩
      · exact hs hb.suspended
      · cases hr
      · cases hr
      · cases hr
  | ready t => exact h.readies he hawake hpc
  | preempt t =>
    -- the caller of `create_task` goes on; with assertions off the checks have no effect
    have hgo : ∀ p' : Pc, (s.created a.self site (some t) s.k).pc = Function.update s.pc a.self p' →
        (∀ a', Rep (s.created a.self site (some t) s.k).k a' →
          (Visit.call a.self (s.cs != 0) (s.pc a.self) p').Passes a a' →
          p'.Ok { s.created a.self site (some t) s.k with pend := true } a' a.self ∧
            p'.Ok (s.created a.self site (some t) s.k) a' a.self) →
        p'.gives = false → p'.builds = none → ((s.pc a.self).boots = true → p'.boots = true) →
        Moves s a (s.advanceCreate a.self (.preempt t) site f p) := by
      intro p' hpc' hok' hgives hbuilds hboots
      have hleads := created_leads (v := Visit.call a.self (s.cs != 0) (s.pc a.self) p') h.rep site (some t)
      have hready : ∀ u site' f' q, s.pc a.self ≠ .create (.ready u) site' f' q := by
        intro u site' f' q heq
        rw [hpc] at heq
        cases heq
      have hstarted : (s.created a.self site (some t) s.k).k.started = a.started := by
        unfold Sys.created
        rw [← congrArg Core.started h.rep.core_eq]
        split
        · exact (Rep.quiet_check _ _ _).started
        · rfl
      have hsame : (s.created a.self site (some t) s.k).handles = s.handles ∧
          (s.created a.self site (some t) s.k).idle = s.idle ∧
          (s.created a.self site (some t) s.k).pend = s.pend ∧
          (s.created a.self site (some t) s.k).cs = s.cs := by
        unfold Sys.created
        split <;> exact ⟨rfl, rfl, rfl, rfl⟩
      obtain ⟨hhandles, hidle, hpend, hcs⟩ := hsame
      simp only [Sys.advanceCreate]
      split
      · rename_i hpre
        refine h.advance p' he hawake hleads hpc' hhandles hidle (fun _ => hcs) (fun _ => Or.inr ?_) hready
          (by simp [hbuilds]) (fun a' hr hp => (hok' a' hr hp).1) (fun hb => Or.inl (hboots hb))
        exact hstarted.symm.trans (Core.started_of_preempts hpre)
      · exact h.advance p' he hawake hleads hpc' hhandles hidle (fun _ => hcs) (fun hp => Or.inl (hpend ▸ hp))
          hready (by simp [hbuilds]) (fun a' hr hp => (hok' a' hr hp).2) (fun hb => Or.inl (hboots hb))
    by_cases hs : site = idleSite
    · obtain ⟨hboots, -⟩ := hok.1 hs
      have hidle : s.idle ≠ none := fun hn => by
        have := hboots.idle.mp hn
        cases this
      refine hgo .startRun (by simp [Sys.created, hs, Sys.setPc, Sys.setK]) (fun a' hr hp => ?_) rfl rfl
        (fun _ => rfl)
      have hns : a'.started = false := by
        rcases hp.started with heq | ⟨hb, -⟩
        · exact heq.trans hboots.started
        · rw [show s.pc a.self = _ from hb] at hpc
          cases hpc
      have hidle' : (s.created a.self site (some t) s.k).idle ≠ none := by
        rw [Sys.created, if_pos hs]
        exact hidle
      exact ⟨⟨hboots.main, hns, hidle'⟩, hboots.main, hns, hidle'⟩
    · refine hgo (.ret (.task (some t))) (by simp [Sys.created, hs, Sys.setPc, Sys.setK])
        (fun _ _ _ => ⟨trivial, trivial⟩) rfl rfl fun hb => ?_
      rw [hpc] at hb
      exact absurd (by simpa [Pc.boots] using hb) hs

theorem yields (p' : Pc) (h : Inv s a) (hawake : ∀ i, s.idle = some i → a.self ≠ .task i)
    (hstarted : a.started = true) (hok : ∀ s₁, p'.Ok s₁ a a.self) (hbuilds : p'.builds = none)
    (hready : ∀ t site f p, s.pc a.self ≠ .create (.ready t) site f p)
    (hwait : ∀ W, s.pc a.self = .yieldWait W → p' = .finish W) (hfinish : ∀ W, s.pc a.self ≠ .finish W) :
    Moves s a { s.setPc a.self p' with pend := true } := by
  have hruns : Runs (Visit.call a.self (s.cs != 0) (s.pc a.self) p') a [] a := rfl
  refine ⟨p', [], a, rfl, hruns, h.turn ⟨hruns, h.rep, rfl, hawake, hok _, by simp [hbuilds], .same rfl rfl,
    fun t site f p hb => absurd hb (hready t site f p), fun t ht hr => ⟨(h.control.running t ht hr).1, Or.inl rfl⟩,
    fun _ => hstarted, fun hns => ?_, fun t w ht hw => ?_⟩⟩
  · rw [hstarted] at hns
    cases hns
  · obtain ⟨W, hW, hpc⟩ := h.control.parked t w hw
    rw [show Ctx.task t = a.self by simp [Core.self, ht]] at hpc
    rcases hpc with hpc | hpc
    · exact ⟨W, hW, Or.inr (hwait W hpc)⟩
    · exact absurd hpc (hfinish W)

theorem advances (h : Inv s a) (hcan : s.canRun = true) (hs : s.advance a.self = some s') : Moves s a s' := by
  have hawake : ∀ i, s.idle = some i → a.self ≠ .task i := by
    intro i hi hself
    have huser := h.control.stranger i (h.control.idle i hi).2.1
    rw [← hself] at huser
    simp [Sys.advance, huser] at hs
  have hok := h.control.ok a.self
  unfold Sys.advance at hs
  cases hpc : s.pc a.self with
  | user => simp [hpc] at hs
  | halted => simp [hpc] at hs
  | create phase site f p =>
    rw [hpc] at hs
    cases hs
    exact h.advanceCreate hcan hawake hpc
  | startRun =>
    rw [hpc] at hs hok
    cases hs
    refine h.advance .startYield (h.entered hcan (by rw [hpc]; rfl)) hawake
      (leads_data (d := .start) h.rep trivial hpc) rfl rfl rfl (fun _ => rfl) Or.inl (by simp [hpc]) nofun
      (fun a' hr _ => ?_) (fun _ => Or.inr rfl)
    show a'.started = true
    rw [← hr.core_eq]
    rfl
  | startYield =>
    rw [hpc] at hs hok
    cases hs
    exact h.yields .halted hawake hok (fun _ => trivial) rfl (by simp [hpc]) (by simp [hpc]) (by simp [hpc])
  | yield r =>
    rw [hpc] at hs hok
    cases hs
    exact h.yields (.ret r) hawake hok (fun _ => trivial) rfl (by simp [hpc]) (by simp [hpc]) (by simp [hpc])
  | yieldWait w =>
    rw [hpc] at hs hok
    cases hs
    exact h.yields (.finish w) hawake hok (fun _ => trivial) rfl (by simp [hpc]) (by simp [hpc]) (by simp [hpc])
  | suspendBody t =>
    rw [hpc] at hs hok
    cases hs
    refine h.settle (h.entered hcan (by rw [hpc]; rfl)) hawake _ (by rw [hpc]; rfl) ?_
    rw [hpc]
    exact suspendTask_leads h.rep (h.entered hcan (by rw [hpc]; rfl)) (h.control.handles t hok.1)
      (fun ht => by simpa using hok.2 rfl (by simp [Core.self, ht])) rfl
  | resumeBody t =>
    rw [hpc] at hs hok
    cases hs
    refine h.settle (h.entered hcan (by rw [hpc]; rfl)) hawake _ (by rw [hpc]; rfl) ?_
    rw [hpc]
    exact resumeTask_leads h.rep (h.entered hcan (by rw [hpc]; rfl)) rfl
  | deleteBody t =>
    rw [hpc] at hs hok
    cases hs
    refine h.settle (h.entered hcan (by rw [hpc]; rfl)) hawake _ (by rw [hpc]; rfl) ?_
    rw [hpc]
    exact deleteTask_leads h.rep (h.entered hcan (by rw [hpc]; rfl)) (h.control.handles t hok.1)
      (fun ht => by simpa using hok.2 rfl (by simp [Core.self, ht])) rfl
  | waitBody g mask all clear ms =>
    rw [hpc] at hs hok
    simp only at hs
    split at hs
    · cases hs
    · rename_i t hcur
      cases hs
      rw [h.rep.core_eq] at hcur
      refine h.settle (h.entered hcan (by rw [hpc]; rfl)) hawake _ (by rw [hpc]; rfl) ?_
      exact waitBits_leads h.rep (h.entered hcan (by rw [hpc]; rfl)) hcur
        (fun hms => by simpa using hok rfl hms) rfl
  | finish w =>
    rw [hpc] at hs
    simp only at hs
    split at hs
    · cases hs
    · rename_i t hcur
      cases hs
      have hgo : ∀ p' : Pc, p'.gives = false → p'.builds = none → (∀ s₁ a', p'.Ok s₁ a' a.self) →
          Moves s a (s.setPc a.self p') := fun p' hg hb hok' =>
        h.plain s.cs (h.entered hcan (by rw [hpc]; rfl)) hawake (by rw [hpc]; rfl) (leads_refl h.rep)
          (fun _ => rfl) hb fun a' _ => hok' _ a'
      unfold Sys.afterWait
      cases w <;> simp only
      all_goals try split
      all_goals exact hgo _ rfl rfl fun _ _ => trivial
  | reread g =>
    rw [hpc] at hs
    cases hs
    exact h.settle (h.entered hcan (by rw [hpc]; rfl)) hawake _ (by rw [hpc]; rfl) (readBits_leads h.rep rfl)
  | ret r =>
    rw [hpc] at hs
    cases hs
    exact h.plain s.cs (h.entered hcan (by rw [hpc]; rfl)) hawake (by rw [hpc]; rfl)
      (leads_data (d := .mark (.ret a.self r)) h.rep rfl rfl) (fun _ => rfl) rfl fun _ _ => trivial

end Inv

/-! ### Interrupts -/

namespace Inv

variable {s s' : Sys} {a a' : Abs}

theorem handler {k' : Kernel} {pend' : Bool} {v : Visit} {acts : List Action} (h : Inv s a)
    (hruns : Runs v a acts a') (hrep : Rep k' a') (hentry : v.entry ≠ .pendSV) (hbefore : v.before = .user)
    (hafter : v.after = .user) (hctx : v.ctx = .isr) (hcs : s.cs = 0) (hpos : a'.Positive)
    (hpend : pend' = true → a.started = true) (hkeep : s.pend = true → pend' = true) :
    Inv { s.setK k' with pend := pend' } a' := by
  have hpass := hruns.passes h.wf
  have hcur := hpass.current hentry
  refine h.interrupt hruns hrep hbefore hctx hcs hpos hpend (fun t ht => Or.inl (hcur ▸ ht)) fun t ht hr => ?_
  rw [hcur] at ht
  by_cases hrun : (a.tcb t).state = .running
  · rcases hpass.running hentry t ht hrun with hr' | ⟨-, hg⟩
    · exact absurd hr' hr
    · rw [hafter] at hg
      cases hg
  · exact (h.control.running t ht hrun).2.imp_left hkeep

theorem tick (h : Inv s a) (hcs : s.cs = 0) (hstarted : a.started = true) :
    ∃ acts a', Runs Visit.sysTick a acts a' ∧
      Inv { s.setK (Scheduler.tick s.k).2 with pend := s.pend || (Scheduler.tick s.k).1 } a' := by
  have hen : (Action.data .tick).Enabled a := trivial
  obtain ⟨hrep, hpos, hruns⟩ := (h.rep.core fun e => { e with tickCount := e.tickCount + 1 }).delayTick
    (h.wf.apply hen) h.positive
  have hall : Runs Visit.sysTick a (.data .tick :: _) _ := ⟨hen, rfl, hruns⟩
  exact ⟨_, _, hall, h.handler hall hrep (by simp [Visit.sysTick]) rfl rfl rfl hcs hpos (fun _ => hstarted)
    fun hp => by rw [hp]; rfl⟩

theorem isrCall_leads {k k' : Kernel} {a : Abs} {c : IsrCall} {r : Ret} {y : Bool} (h : Rep k a) (hwf : a.WF)
    (hs : a.Starved) (hasked : (talk .isr a.trace).asked = some (.inr c)) (heq : Sys.isrCall c k = ((r, y), k')) :
    (Visit.handler y).Leads a k' := by
  cases c with
  | tryTakeFromIsr x =>
    cases heq
    exact tryTake_leads (v := Visit.handler false) (s := x) h rfl
  | giveFromIsr x =>
    cases heq
    exact (giveLocked_leads (v := Visit.handler (Semaphore.giveLocked x k).1) (s := x) h hwf rfl id).1
  | sendFromIsr q item =>
    cases heq
    have hframe : (Action.data (.frame .isr fun f => { f with item := item })).Enabled a := trivial
    have hrep := h.core (·.setFrame .isr fun f => { f with item := item })
    refine leads_cons _ hframe rfl ?_
    exact (trySendLocked_leads _ (v := Visit.handler _) (q := q) hrep (hwf.apply hframe) (hs.apply hwf hframe) rfl
      id).1
  | receiveFromIsr q =>
    cases heq
    exact (tryReceiveLocked_leads _ (v := Visit.handler _) (q := q) h hwf rfl id).1
  | setBitsFromIsr g mask =>
    cases heq
    exact (setBitsLocked_leads (v := Visit.handler (EventGroup.setBitsLocked g mask k).1) h hwf
      ⟨rfl, Or.inr hasked⟩ rfl id).1

theorem isr {c : IsrCall} {yield : Bool} (h : Inv s a) (hcs : s.cs = 0)
    (hyield : yield = true → a.started = true) :
    ∃ acts a', Runs (Visit.handler (Sys.isrCall c (s.k.emit (.isrCall c))).1.2) a acts a' ∧
      Inv { s.setK ((Sys.isrCall c (s.k.emit (.isrCall c))).2.emit
        (.ret .isr (Sys.isrCall c (s.k.emit (.isrCall c))).1.1)) with pend := s.pend || yield } a' := by
  have hen : (Action.data (.mark (.isrCall c))).Enabled a := rfl
  generalize hcall : Sys.isrCall c (s.k.emit (.isrCall c)) = r
  obtain ⟨⟨r, y⟩, k'⟩ := r
  have hasked : (talk .isr (a.trace ++ [.isrCall c])).asked = some (.inr c) := by
    rw [talk_concat]
    simp [Talk.step, Talk.own, Obs.ctx, Obs.isMark, Obs.asks]
  obtain ⟨acts, a₁, hruns, hrep⟩ := isrCall_leads (h.rep.core (·.emit (.isrCall c))) (h.wf.apply hen)
    (h.starved.apply h.wf hen) hasked hcall
  have hcalled : Runs (Visit.handler y) a (.data (.mark (.isrCall c)) :: acts) a₁ := ⟨hen, rfl, hruns⟩
  have hret : (Action.data (.mark (.ret .isr r))).Enabled a₁ := rfl
  have hall := hcalled.append (Runs.single _ hret rfl)
  refine ⟨_, _, hall, h.handler hall (hrep.core (·.emit _)) (by simp [Visit.handler]) rfl rfl rfl hcs
    (hall.positive (by simp [Visit.handler]) h.positive) (fun hp => ?_) fun hp => by rw [hp]; rfl⟩
  rcases Bool.or_eq_true_iff.mp hp with hp | hp
  · exact h.control.pend hp
  · exact hyield hp

theorem putBack_running (hwf : a.WF) (hwf' : a.putBack.WF) (t : Tid) : (a.putBack.tcb t).state ≠ .running := by
  intro hr
  obtain ⟨acts, hruns⟩ := Rep.putBack_runs hwf
  have hcur : a.putBack.currentTask = some t := (hwf'.ok t).running hr
  have hsame : a.currentTask = some t := by
    unfold Abs.putBack at hcur
    cases hc : a.currentTask with
    | none => simp [hc] at hcur
    | some c =>
      have hquiet := Rep.quiet_check .stackOverflow (Scheduler.stackIntact c a.toCore) a.toCore
      have hsave : (a.saveSp c).currentTask = a.currentTask := hquiet.currentTask
      simp only [hc] at hcur
      split at hcur
      · exact hc.symm.trans (hsave.symm.trans hcur)
      · exact hc.symm.trans (hsave.symm.trans hcur)
  have hstate := (Rep.saveSp_tcb (a := a) t t).2
  unfold Abs.putBack at hr
  simp only [hsame] at hr
  split at hr
  · rw [Abs.ready, move_tcb, if_pos rfl] at hr
    cases hr
  · rename_i hnot
    exact hnot (hstate.symm.trans hr)

/-- The state that `schedule_next_task` picks from, and the task it picks. -/
theorem dispatch (h : Inv s a) (hpend : s.pend = true) (psp : Nat) :
    ∃ t p acts, Runs Visit.pendSV a acts (a.storeSp psp).putBack ∧ (a.storeSp psp).putBack.Top p ∧
      ((a.storeSp psp).putBack.seq (.ready p)).head? = some t ∧
      (Action.switch t).Enabled (a.storeSp psp).putBack ∧
      Rep (Scheduler.pendSV psp s.k) ((a.storeSp psp).putBack.switch t) := by
  obtain ⟨acts₁, hstore⟩ := Rep.storeSp_runs (a := a) psp
  have hwf₁ := hstore.wf h.wf
  obtain ⟨acts₂, hback⟩ := Rep.putBack_runs hwf₁
  have hruns := hstore.append hback
  have hwf₂ := hruns.wf h.wf
  have hpass := hruns.passes h.wf
  -- the idle task is in a ready list
  obtain ⟨i, hi⟩ := Option.ne_none_iff_exists'.mp (h.control.booted (h.control.pend hpend))
  obtain ⟨hlt, -, hs⟩ := h.control.idle i hi
  have hready : ((a.storeSp psp).putBack.tcb i).state = .ready := by
    rcases hpass.able i hlt hs with hs | hs | hs | hs | hs
    · exact hs
    · exact absurd hs (putBack_running hwf₁ hwf₂ i)
    · cases hs
    · cases hs
    · cases hs
  have hmem := hwf₂.mem_ready.mpr ⟨Nat.lt_of_lt_of_le hlt hpass.count_le, hready, rfl⟩
  obtain ⟨t, p, htop, hhead, hrep⟩ := h.rep.pendSV psp hwf₂ hwf₁ ⟨_, List.ne_nil_of_mem hmem⟩
  exact ⟨t, p, _, hruns, htop, hhead, ⟨fun c _ => putBack_running hwf₁ hwf₂ c, p, htop, hhead⟩, hrep⟩

theorem pendSV (h : Inv s a) (hcs : s.cs = 0) (hpend : s.pend = true) (psp : Nat) :
    ∃ acts a', Runs Visit.pendSV a acts a' ∧
      Inv { s.setK (Scheduler.pendSV psp s.k) with pend := false } a' := by
  obtain ⟨t, p, acts, hruns, -, -, hen, hrep⟩ := h.dispatch hpend psp
  have hall := hruns.append (Runs.single (.switch t) hen rfl)
  have hcur : ((a.storeSp psp).putBack.switch t).currentTask = some t := rfl
  have hstate : (((a.storeSp psp).putBack.switch t).tcb t).state = .running := by
    rw [Abs.switch, move_tcb, if_pos rfl]
  refine ⟨_, _, hall, h.interrupt hall hrep rfl rfl hcs (hall.positive (by simp [Visit.pendSV]) h.positive)
    (by simp) (fun u hu => Or.inr ⟨h.control.pend hpend, ?_⟩) fun u hu hr => ?_⟩
  · obtain rfl : t = u := Option.some.inj hu
    exact hstate
  · obtain rfl : t = u := Option.some.inj hu
    exact absurd hstate hr

end Inv

/-! ### All steps -/

namespace Sys

variable {s s' : Sys}

theorem step_call {c : Call} : s.step (.call c) = some s' ↔ s.k.fault = none ∧ s.canRun = true ∧
    s.pc s.k.self = .user ∧ s.idle.map Ctx.task ≠ some s.k.self ∧ c.admissible s = true ∧
    s' = s.beginCall s.k.self c := by
  cases hfault : s.k.fault with
  | some x => simp [Sys.step, hfault]
  | none => simp [Sys.step, hfault, and_assoc, eq_comm (a := s')]

theorem step_advance : s.step .advance = some s' ↔
    s.k.fault = none ∧ s.canRun = true ∧ s.advance s.k.self = some s' := by
  cases hfault : s.k.fault with
  | some x => simp [Sys.step, hfault]
  | none => simp [Sys.step, hfault]

theorem step_tick : s.step .tick = some s' ↔ s.k.fault = none ∧ s.cs = 0 ∧ s.k.started = true ∧
    s' = { s.setK (Scheduler.tick s.k).2 with pend := s.pend || (Scheduler.tick s.k).1 } := by
  cases hfault : s.k.fault with
  | some x => simp [Sys.step, hfault]
  | none => simp [Sys.step, hfault, and_assoc, eq_comm (a := s')]

theorem step_isr {c : IsrCall} {yield : Bool} : s.step (.isr c yield) = some s' ↔ s.k.fault = none ∧ s.cs = 0 ∧
    isrAdmissible s.k c = true ∧ (yield = true → s.k.started = true) ∧
    s' = { s.setK ((isrCall c (s.k.emit (.isrCall c))).2.emit (.ret .isr (isrCall c (s.k.emit (.isrCall c))).1.1)) with
      pend := s.pend || yield } := by
  cases hfault : s.k.fault with
  | some x => simp [Sys.step, hfault]
  | none =>
    cases yield with
    | false => simp [Sys.step, hfault, and_assoc, eq_comm (a := s')]
    | true => simp [Sys.step, hfault, and_assoc, eq_comm (a := s')]

theorem step_pendSV {psp : Nat} : s.step (.pendSV psp) = some s' ↔ s.k.fault = none ∧ s.pend = true ∧ s.cs = 0 ∧
    s' = { s.setK (Scheduler.pendSV psp s.k) with pend := false } := by
  cases hfault : s.k.fault with
  | some x => simp [Sys.step, hfault]
  | none => simp [Sys.step, hfault, and_assoc, eq_comm (a := s')]

end Sys

/-- The visit that a step makes. -/
def Sys.visit (s : Sys) (e : Event) (s' : Sys) : Visit :=
  match e with
  | .call _ | .advance => .call s.k.self (s.cs != 0) (s.pc s.k.self) (s'.pc s.k.self)
  | .isr c _ => .handler (isrCall c (s.k.emit (.isrCall c))).1.2
  | .tick => .sysTick
  | .pendSV _ => .pendSV

/-- A step is a run of its visit, and keeps the invariant. -/
theorem Inv.step {s s' : Sys} {a : Abs} {e : Event} (h : Inv s a) (hs : s.step e = some s') :
    ∃ acts a', Runs (s.visit e s') a acts a' ∧ Inv s' a' := by
  have hself := h.self_eq
  have hmoves : (∃ c, e = .call c) ∨ e = .advance → Inv.Moves s a s' →
      ∃ acts a', Runs (s.visit e s') a acts a' ∧ Inv s' a' := by
    rintro he ⟨p', acts, a', hpc, hruns, hinv⟩
    refine ⟨acts, a', ?_, hinv⟩
    have hp : s'.pc s.k.self = p' := by rw [hpc, hself, Function.update_self]
    rcases he with ⟨c, rfl⟩ | rfl
    · rw [Sys.visit, hp, hself]
      exact hruns
    · rw [Sys.visit, hp, hself]
      exact hruns
  cases e with
  | call c =>
    obtain ⟨-, hcan, hpc, hawake, hadm, rfl⟩ := Sys.step_call.mp hs
    rw [hself] at hpc hawake
    have hmove := h.beginCall hcan hpc (fun i hi heq => hawake (by rw [hi, heq]; rfl)) hadm
    rw [← hself] at hmove
    exact hmoves (Or.inl ⟨c, rfl⟩) hmove
  | advance =>
    obtain ⟨-, hcan, hadv⟩ := Sys.step_advance.mp hs
    rw [hself] at hadv
    exact hmoves (Or.inr rfl) (h.advances hcan hadv)
  | tick =>
    obtain ⟨-, hcs, hstarted, rfl⟩ := Sys.step_tick.mp hs
    rw [h.rep.core_eq] at hstarted
    exact h.tick hcs hstarted
  | isr c yield =>
    obtain ⟨-, hcs, -, hstarted, rfl⟩ := Sys.step_isr.mp hs
    rw [h.rep.core_eq] at hstarted
    exact h.isr hcs hstarted
  | pendSV psp =>
    obtain ⟨-, hpend, hcs, rfl⟩ := Sys.step_pendSV.mp hs
    exact h.pendSV hcs hpend psp

/-! ### Tracking -/

/-- The abstract kernel before `main()`. -/
def Abs.init (config : Config) : Abs where
  toCore := (Kernel.init config).toCore
  seq := fun _ => []
  sleepers := []
  heldBy := fun _ => []

theorem Rep.init (config : Config) : Rep (Kernel.init config) (Abs.init config) where
  core_eq := rfl
  links := ⟨fun _ => rfl, fun _ => rfl, fun _ => trivial, fun _ => List.nodup_nil,
    fun _ _ _ hx => absurd hx List.not_mem_nil⟩
  mask := fun p _ => by simp [Kernel.init, Abs.init]
  delay := ⟨⟨fun _ => rfl, fun _ => rfl, fun _ => trivial, fun _ => List.nodup_nil,
    fun _ _ _ hx => absurd hx List.not_mem_nil⟩,
    trivial, fun t => by simp [Kernel.init, Abs.init], fun e he => absurd he List.not_mem_nil⟩
  held := ⟨fun _ => rfl, fun _ => List.nodup_nil, fun _ _ _ hx => absurd hx List.not_mem_nil⟩

theorem Inv.init (config : Config) : Inv (Sys.init config) (Abs.init config) := by
  have hprio : 0 < kMaxPriorities := by decide
  refine ⟨Rep.init config, ?_, ?_, ?_, fun e he => absurd he List.not_mem_nil, ?_⟩
  · refine ⟨fun t => ?_, fun _ => List.nodup_nil, List.nodup_nil, List.Pairwise.nil, Nat.zero_le _, nofun⟩
    refine ⟨fun l => ?_, fun hs => absurd hs List.not_mem_nil, nofun, nofun, nofun, hprio, hprio,
      fun _ => ⟨rfl, rfl⟩⟩
    have hplace : (Abs.init config).place t = none := if_neg (Nat.not_lt_zero t)
    rw [hplace]
    exact ⟨fun hm => absurd hm List.not_mem_nil, nofun⟩
  · exact ⟨fun m t => ⟨fun hm => absurd hm List.not_mem_nil, nofun⟩, fun _ => List.nodup_nil, nofun, nofun⟩
  · exact ⟨nofun, nofun, nofun, nofun, fun q => ⟨config.capacity_pos q, Nat.zero_le _, by
      simp [Abs.init, Kernel.init]⟩⟩
  · exact ⟨fun _ => trivial, nofun, fun _ _ => rfl, nofun, nofun, nofun, nofun, nofun, nofun, nofun,
      fun _ => Or.inr ⟨rfl, rfl⟩, nofun, nofun⟩

/-- The runs of the machine whose steps all meet a condition, next to the runs of the abstract kernel. -/
inductive Tracks (config : Config) (good : Sys → Event → Prop) : Sys → Abs → Prop
  | init : Tracks config good (Sys.init config) (Abs.init config)
  | step {s s' : Sys} {a a' : Abs} {acts : List Action} (e : Event) (h : Tracks config good s a) (hg : good s e)
      (hs : s.step e = some s') (hruns : Runs (s.visit e s') a acts a') (hinv : Inv s' a') :
      Tracks config good s' a'

theorem Tracks.inv {config : Config} {good : Sys → Event → Prop} {s : Sys} {a : Abs}
    (h : Tracks config good s a) : Inv s a := by
  cases h with
  | init => exact Inv.init config
  | step e h hg hs hruns hinv => exact hinv

theorem Reachable.tracks {config : Config} {s : Sys} (h : Reachable config s) :
    ∃ a, Tracks config (fun _ _ => True) s a := by
  induction h with
  | init => exact ⟨_, .init⟩
  | step e h hs ih =>
    obtain ⟨a, htracks⟩ := ih
    obtain ⟨acts, a', hruns, hinv⟩ := htracks.inv.step hs
    exact ⟨a', .step e htracks trivial hs hruns hinv⟩

theorem Tracks.run {config : Config} {good : Sys → Event → Prop} {s s' : Sys} {a : Abs} {es : List Event}
    (h : Tracks config good s a) (hrun : s.run es = some s') (hes : s.Each good es) :
    ∃ a', Tracks config good s' a' := by
  induction es generalizing s a with
  | nil =>
    cases hrun
    exact ⟨a, h⟩
  | cons e es ih =>
    obtain ⟨s₁, hs, hrun⟩ := Sys.run_cons hrun
    obtain ⟨acts, a₁, hruns, hinv⟩ := h.inv.step hs
    exact ih (h.step e hes.1 hs hruns hinv) hrun (hes.2 s₁ hs)

end AcRtos
