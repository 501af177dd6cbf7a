import AcRtos.Passage
import AcRtos.Sections

/-!
# Control

Where every context is in its call, and what that says about the kernel. `Inv` is the invariant of the
machine: the kernel represents an abstract kernel that is well formed, and the pcs, the nesting of critical
sections, the pending bit and the handles agree with it. Two facts carry the rest. A context executes only
while its task is `Running`, unless it is about to yield (`Control.running`); and a task under construction
is known to nobody but the context that creates it (`Builds`).

`Turn` is one step of the running context as far as control is concerned; `Inv.turn`, `Inv.interrupt` and
`Inv.pendSV` keep the invariant.
-/

namespace AcRtos

open Abs

namespace CreatePhase

/-- The flag of the site is not set yet. -/
def beforeFlag : CreatePhase → Bool
  | .assertFlag | .testFlag | .setFlag => true
  | _ => false

/-- The control block is not allocated yet. -/
def beforeAlloc : CreatePhase → Bool
  | .assertFlag | .testFlag | .setFlag | .copy | .alloc => true
  | _ => false

/-- The task is in its ready list. -/
def done : CreatePhase → Bool
  | .preempt _ => true
  | _ => false

end CreatePhase

namespace Pc

/-- The task that a `create_task` call has allocated and not made ready yet. -/
def builds : Pc → Option Tid
  | .create (.init t) _ _ _ | .create (.ready t) _ _ _ => some t
  | _ => none

/-- `start()` before it sets `started_`. -/
def boots : Pc → Bool
  | .create _ site _ _ => site == idleSite
  | .startRun => true
  | _ => false

end Pc

/-- `t` is allocated and known only to its creator. -/
structure Builds (s : Sys) (a : Abs) (t : Tid) : Prop where
  lt : t < a.taskCount
  suspended : (a.tcb t).state = .suspended
  unnamed : t ∉ s.handles
  not_idle : s.idle ≠ some t

/-- The `create_task` call that `start()` makes: it is the first one of its site, and there is room. -/
structure Boots (s : Sys) (a : Abs) (c : Ctx) (phase : CreatePhase) : Prop where
  main : c = .main
  started : a.started = false
  flag : phase.beforeFlag = true → a.isCreated idleSite = false
  room : phase.beforeAlloc = true → a.taskCount < a.config.kMaxTasks
  idle : s.idle = none ↔ phase.done = false

/-- What holds of the context `c` while its next step is this one. -/
def Pc.Ok (s : Sys) (a : Abs) (c : Ctx) : Pc → Prop
  | .yield _ | .yieldWait _ | .startYield => a.started = true
  | .suspendBody t | .deleteBody t => t ∈ s.handles ∧ (a.self = c → c = .task t → s.cs = 0)
  | .resumeBody t => t ∈ s.handles
  | .waitBody _ _ _ _ ms => a.self = c → ms ≠ 0 → s.cs = 0
  | .create phase site f p =>
      (site = idleSite → Boots s a c phase ∧ p = 0) ∧
        (∀ t, (Pc.create phase site f p).builds = some t → Builds s a t) ∧
        ∀ t, phase = .init t → p < kMaxPriorities
  | .startRun => c = .main ∧ a.started = false ∧ s.idle ≠ none
  | _ => True

structure Control (s : Sys) (a : Abs) : Prop where
  ok : ∀ c, (s.pc c).Ok s a c
  builds : ∀ c d t, (s.pc c).builds = some t → (s.pc d).builds = some t → c = d
  stranger : ∀ t, t ∉ s.handles → s.pc (.task t) = .user
  running : ∀ t, a.currentTask = some t → (a.tcb t).state ≠ .running →
    s.cs = 0 ∧ (s.pend = true ∨ (s.pc (.task t)).gives = true)
  current : ∀ t, a.currentTask = some t → a.started = true ∧ (t ∈ s.handles ∨ s.idle = some t)
  pend : s.pend = true → a.started = true
  handles : ∀ t ∈ s.handles, t < a.taskCount
  idle : ∀ i, s.idle = some i →
    i < a.taskCount ∧ i ∉ s.handles ∧ ((a.tcb i).state = .ready ∨ (a.tcb i).state = .running)
  known : ∀ t < a.taskCount, (a.tcb t).state ≠ .suspended → t ∈ s.handles ∨ s.idle = some t
  booted : a.started = true → s.idle ≠ none
  booting : a.started = false → (s.pc .main).boots = true ∨ a.isCreated idleSite = false ∧ s.idle = none
  parked : ∀ t w, (a.tcb t).waitList = some w →
    ∃ W, W.list = w ∧ (s.pc (.task t) = .yieldWait W ∨ s.pc (.task t) = .finish W)
  owners : ∀ m t, a.owner m = some t → t ∈ s.handles ∨ s.idle = some t

/-- The invariant of the machine. -/
structure Inv (s : Sys) (a : Abs) : Prop where
  rep : Rep s.k a
  wf : a.WF
  owned : a.Owned
  starved : a.Starved
  positive : a.Positive
  control : Control s a

theorem Control.main_of_not_started {s : Sys} {a : Abs} (h : Control s a) (hs : a.started = false) :
    a.self = .main := by
  unfold Core.self
  cases hcur : a.currentTask with
  | none => rfl
  | some t =>
    rw [(h.current t hcur).1] at hs
    cases hs

theorem Control.building {s : Sys} {a : Abs} (h : Control s a) {c : Ctx} {t : Tid}
    (hb : (s.pc c).builds = some t) : Builds s a t := by
  have hok := h.ok c
  cases hpc : s.pc c with
  | create phase site f p =>
    rw [hpc] at hok hb
    exact hok.2.1 t hb
  | _ => rw [hpc] at hb; cases hb

theorem Core.self_task {e : Core} {t : Tid} (h : e.self = .task t) : e.currentTask = some t := by
  unfold Core.self at h
  split at h
  · rename_i u hcur
    cases h
    exact hcur
  · cases h

/-! ### Steps of the running context -/

/-- How handles appear: the task a context has built gets its name when it becomes ready. -/
inductive Names (s s' : Sys) (a a' : Abs) : Prop
  | same (hh : s'.handles = s.handles) (hi : s'.idle = s.idle)
  | task (t : Tid) (hb : (s.pc a.self).builds = some t) (hr : (a'.tcb t).state = .ready)
      (hh : s'.handles = t :: s.handles) (hi : s'.idle = s.idle)
  | idle (t : Tid) (hb : (s.pc a.self).builds = some t) (hr : (a'.tcb t).state = .ready)
      (hh : s'.handles = s.handles) (hnone : s.idle = none) (hi : s'.idle = some t)

/-- A step of the running context, which goes to `p'`. -/
structure Turn (s s' : Sys) (a : Abs) (p' : Pc) (acts : List Action) (a' : Abs) : Prop where
  runs : Runs (Visit.call a.self (s.cs != 0) (s.pc a.self) p') a acts a'
  rep : Rep s'.k a'
  pc : s'.pc = Function.update s.pc a.self p'
  awake : ∀ i, s.idle = some i → a.self ≠ .task i
  ok : p'.Ok s' a' a.self
  builds : ∀ t, p'.builds = some t → (s.pc a.self).builds = some t ∨ a.taskCount ≤ t
  names : Names s s' a a'
  named : ∀ t site f p, s.pc a.self = .create (.ready t) site f p → t ∈ s'.handles ∨ s'.idle = some t
  running : ∀ t, a.currentTask = some t → (a'.tcb t).state ≠ .running →
    s'.cs = 0 ∧ (s'.pend = true ∨ p'.gives = true)
  pend : s'.pend = true → a'.started = true
  booting : a'.started = false → p'.boots = true ∨ a'.isCreated idleSite = false ∧ s'.idle = none
  parked : ∀ t w, a.currentTask = some t → (a'.tcb t).waitList = some w →
    ∃ W, W.list = w ∧ (p' = .yieldWait W ∨ p' = .finish W)

namespace Names

variable {s s' : Sys} {a a' : Abs}

theorem handles_mono (h : Names s s' a a') {t : Tid} (ht : t ∈ s.handles) : t ∈ s'.handles := by
  cases h with
  | same hh hi => rwa [hh]
  | task u hb hr hh hi => rw [hh]; exact List.mem_cons_of_mem _ ht
  | idle u hb hr hh hnone hi => rwa [hh]

theorem idle_mono (h : Names s s' a a') {i : Tid} (hi : s.idle = some i) : s'.idle = some i := by
  cases h with
  | same hh hi' => rw [hi', hi]
  | task u hb hr hh hi' => rw [hi', hi]
  | idle u hb hr hh hnone hi' => rw [hnone] at hi; cases hi

theorem of_handles (h : Names s s' a a') {t : Tid} (ht : t ∈ s'.handles) :
    t ∈ s.handles ∨ (s.pc a.self).builds = some t := by
  cases h with
  | same hh hi => exact Or.inl (hh ▸ ht)
  | task u hb hr hh hi =>
    rw [hh] at ht
    rcases List.mem_cons.mp ht with rfl | ht
    · exact Or.inr hb
    · exact Or.inl ht
  | idle u hb hr hh hnone hi => exact Or.inl (hh ▸ ht)

theorem of_idle (h : Names s s' a a') {t : Tid} (ht : s'.idle = some t) :
    s.idle = some t ∨ (s.pc a.self).builds = some t ∧ (a'.tcb t).state = .ready ∧ s'.handles = s.handles := by
  cases h with
  | same hh hi => exact Or.inl (hi ▸ ht)
  | task u hb hr hh hi => exact Or.inl (hi ▸ ht)
  | idle u hb hr hh hnone hi =>
    rw [hi] at ht
    cases ht
    exact Or.inr ⟨hb, hr, hh⟩

end Names

theorem Pc.Ok.frame {s s' : Sys} {a a' : Abs} {c : Ctx} {p : Pc} (h : p.Ok s a c)
    (hself : a'.self = c → a.self = c ∧ s'.cs = s.cs ∨ s'.cs = 0)
    (hhandles : ∀ t ∈ s.handles, t ∈ s'.handles) (hstarted : a.started = true → a'.started = true)
    (hboots : ∀ phase, Boots s a c phase → Boots s' a' c phase)
    (hbuilds : ∀ t, p.builds = some t → Builds s a t → Builds s' a' t)
    (hrun : c = .main → a.started = false → a'.started = false ∧ (s.idle ≠ none → s'.idle ≠ none)) :
    p.Ok s' a' c := by
  have hcs : (a.self = c → s.cs = 0) → a'.self = c → s'.cs = 0 := by
    intro hold hc
    rcases hself hc with ⟨hc, heq⟩ | hz
    · exact heq.trans (hold hc)
    · exact hz
  cases p with
  | yield r => exact hstarted h
  | yieldWait w => exact hstarted h
  | startYield => exact hstarted h
  | suspendBody t =>
    exact ⟨hhandles t h.1, fun hc ht => hcs (fun hc => h.2 hc ht) hc⟩
  | deleteBody t =>
    exact ⟨hhandles t h.1, fun hc ht => hcs (fun hc => h.2 hc ht) hc⟩
  | resumeBody t => exact hhandles t h
  | waitBody g mask all clear ms => exact fun hc hms => hcs (fun hc => h hc hms) hc
  | create phase site f p =>
    obtain ⟨hidle, hb, hp⟩ := h
    exact ⟨fun hsite => ⟨hboots _ (hidle hsite).1, (hidle hsite).2⟩,
      fun t ht => hbuilds t ht (hb t ht), hp⟩
  | startRun =>
    obtain ⟨hmain, hns, hidle⟩ := h
    obtain ⟨hns', hidle'⟩ := hrun hmain hns
    exact ⟨hmain, hns', hidle' hidle⟩
  | _ => trivial

theorem Runs.kept {v : Visit} {a a' : Abs} {acts : List Action} (h : Runs v a acts a') (hwf : a.WF)
    (howned : a.Owned) (hstarved : a.Starved) : a'.Owned ∧ a'.Starved :=
  ⟨h.keeps hwf howned fun _ _ hwf howned he _ => howned.apply hwf he,
    h.keeps hwf hstarved fun _ _ hwf hstarved he _ => hstarved.apply hwf he⟩

theorem Runs.positive {v : Visit} {a a' : Abs} {acts : List Action} (h : Runs v a acts a')
    (hv : v.entry ≠ .sysTick) (hpos : a.Positive) : a'.Positive := by
  refine h.invariant hpos fun act _ b hb he hf => hb.apply he ?_
  rintro rfl
  exact hv hf

theorem Inv.turn {s s' : Sys} {a a' : Abs} {p' : Pc} {acts : List Action} (h : Inv s a)
    (ht : Turn s s' a p' acts a') : Inv s' a' := by
  have hc := h.control
  have hpass := ht.runs.passes h.wf
  have hwf' := ht.runs.wf h.wf
  have hcur : a'.currentTask = a.currentTask := hpass.current (by simp [Visit.call])
  have hself : a'.self = a.self := by simp only [Core.self, hcur]
  have hstarted : a.started = true → a'.started = true := fun hs => by
    rcases hpass.started with heq | ⟨-, hs'⟩
    · rw [heq, hs]
    · exact hs'
  have hother : ∀ {c}, c ≠ a.self → s'.pc c = s.pc c := fun hne => by
    rw [ht.pc, Function.update_of_ne hne]
  have hrunner : s'.pc a.self = p' := by rw [ht.pc, Function.update_self]
  have hmain : ∀ {c}, c ≠ a.self → c = .main → a.started = true := fun hne hm => by
    by_contra hns
    exact hne (hm.trans (hc.main_of_not_started (by simpa using hns)).symm)
  have hnamed : ∀ {t}, t ∈ s.handles ∨ s.idle = some t → t ∈ s'.handles ∨ s'.idle = some t :=
    fun hn => hn.imp ht.names.handles_mono ht.names.idle_mono
  have hraised : ∀ {t}, (Visit.call a.self (s.cs != 0) (s.pc a.self) p').Raises t →
      t ∈ s.handles ∨ ∃ site f p, s.pc a.self = .create (.ready t) site f p := by
    intro t hr
    have hok := hc.ok a.self
    rcases hr with hb | hb | hb
    · rw [show s.pc a.self = _ from hb] at hok
      exact Or.inl hok
    · rw [show s.pc a.self = _ from hb] at hok
      exact Or.inl hok.1
    · exact Or.inr hb
  -- a task under construction by another context stays so
  have hbuild : ∀ {c t}, c ≠ a.self → (s.pc c).builds = some t → Builds s a t → Builds s' a' t := by
    intro c t hne hb hbt
    have hnot : (s.pc a.self).builds ≠ some t := fun hb' => hne (hc.builds c a.self t hb hb')
    refine ⟨Nat.lt_of_lt_of_le hbt.lt hpass.count_le, ?_, fun hin => ?_, fun hi => ?_⟩
    · by_contra hs
      rcases hpass.known t (Nat.lt_of_lt_of_le hbt.lt hpass.count_le) hs with ⟨-, hs⟩ | hr
      · exact hs hbt.suspended
      · rcases hraised hr with hin | ⟨site, f, p, hcreate⟩
        · exact hbt.unnamed hin
        · exact hnot (by rw [hcreate]; rfl)
    · rcases ht.names.of_handles hin with hin | hb'
      · exact hbt.unnamed hin
      · exact hnot hb'
    · rcases ht.names.of_idle hi with hi | ⟨hb', -⟩
      · exact hbt.not_idle hi
      · exact hnot hb'
  obtain ⟨howned', hstarved'⟩ := ht.runs.kept h.wf h.owned h.starved
  refine ⟨ht.rep, hwf', howned', hstarved', ht.runs.positive (by simp [Visit.call]) h.positive, ?_⟩
  constructor
  case ok =>
    intro c
    by_cases hcs : c = a.self
    · subst hcs
      rw [hrunner]
      exact ht.ok
    · rw [hother hcs]
      refine (hc.ok c).frame (fun hc' => absurd (hself ▸ hc'.symm) hcs) (fun t => ht.names.handles_mono)
        hstarted (fun phase hb => ?_) (fun t => hbuild hcs) (fun hm hns => ?_)
      · exact absurd (hmain hcs hb.main) (by simp [hb.started])
      · exact absurd (hmain hcs hm) (by simp [hns])
  case builds =>
    -- only the running context can have a new task
    have hnew : ∀ {c t}, c ≠ a.self → (s.pc c).builds = some t → p'.builds ≠ some t := by
      intro c t hne hb hb'
      rcases ht.builds t hb' with hb' | hle
      · exact hne (hc.builds c a.self t hb hb')
      · exact absurd (hc.building hb).lt (Nat.not_lt.mpr hle)
    intro c d t hct hdt
    by_cases hcs : c = a.self
    · by_cases hds : d = a.self
      · rw [hcs, hds]
      · subst hcs
        rw [hrunner] at hct
        rw [hother hds] at hdt
        exact absurd hct (hnew hds hdt)
    · by_cases hds : d = a.self
      · subst hds
        rw [hrunner] at hdt
        rw [hother hcs] at hct
        exact absurd hdt (hnew hcs hct)
      · rw [hother hcs] at hct
        rw [hother hds] at hdt
        exact hc.builds c d t hct hdt
  case stranger =>
    intro t hnot
    have hnot' : t ∉ s.handles := fun hin => hnot (ht.names.handles_mono hin)
    by_cases hts : Ctx.task t = a.self
    · rcases (hc.current t (Core.self_task hts.symm)).2 with hin | hi
      · exact absurd hin hnot'
      · exact absurd hts.symm (ht.awake t hi)
    · rw [hother hts]
      exact hc.stranger t hnot'
  case running =>
    intro t htc hr
    rw [hcur] at htc
    have hts : Ctx.task t = a.self := by simp [Core.self, htc]
    rw [hts, hrunner]
    exact ht.running t htc hr
  case current =>
    intro t htc
    rw [hcur] at htc
    exact ⟨hstarted (hc.current t htc).1, hnamed (hc.current t htc).2⟩
  case pend => exact ht.pend
  case handles =>
    intro t hin
    rcases ht.names.of_handles hin with hin | hb
    · exact Nat.lt_of_lt_of_le (hc.handles t hin) hpass.count_le
    · exact Nat.lt_of_lt_of_le (hc.building hb).lt hpass.count_le
  case idle =>
    intro i hi
    rcases ht.names.of_idle hi with hi | ⟨hb, hr, hh⟩
    · obtain ⟨hlt, hnot, hs⟩ := hc.idle i hi
      refine ⟨Nat.lt_of_lt_of_le hlt hpass.count_le, fun hin => ?_, ?_⟩
      · rcases ht.names.of_handles hin with hin | hb
        · exact hnot hin
        · exact (hc.building hb).not_idle hi
      · have hok := hc.ok a.self
        rcases hpass.able i hlt hs with hs | hs | hs | hs | hs
        · exact Or.inl hs
        · exact Or.inr hs
        · exact absurd hs (ht.awake i hi)
        · rw [show s.pc a.self = _ from hs] at hok
          exact absurd hok.1 hnot
        · rw [show s.pc a.self = _ from hs] at hok
          exact absurd hok.1 hnot
    · refine ⟨Nat.lt_of_lt_of_le (hc.building hb).lt hpass.count_le, ?_, Or.inl hr⟩
      rw [hh]
      exact (hc.building hb).unnamed
  case known =>
    intro t hlt hs
    rcases hpass.known t hlt hs with ⟨hlt, hs⟩ | hr
    · exact hnamed (hc.known t hlt hs)
    · rcases hraised hr with hin | ⟨site, f, p, hcreate⟩
      · exact hnamed (Or.inl hin)
      · exact ht.named t site f p hcreate
  case booted =>
    intro hs
    have hsome : s.idle ≠ none → s'.idle ≠ none := by
      intro hne
      obtain ⟨i, hi⟩ := Option.ne_none_iff_exists'.mp hne
      rw [ht.names.idle_mono hi]
      simp
    rcases hpass.started with heq | ⟨hb, -⟩
    · exact hsome (hc.booted (heq ▸ hs))
    · have hok := hc.ok a.self
      rw [show s.pc a.self = _ from hb] at hok
      exact hsome hok.2.2
  case booting =>
    intro hs
    have hns : a.started = false := by
      cases hst : a.started with
      | false => rfl
      | true => rw [hstarted hst] at hs; cases hs
    rw [show s'.pc .main = p' from by rw [← hc.main_of_not_started hns]; exact hrunner]
    exact ht.booting hs
  case parked =>
    intro t w hw
    by_cases hts : Ctx.task t = a.self
    · rw [hts, hrunner]
      exact ht.parked t w (Core.self_task hts.symm) hw
    · rw [hother hts]
      rcases hpass.parked t w hw with hw | ⟨hctx, -⟩
      · exact hc.parked t w hw
      · exact absurd hctx.symm hts
  case owners =>
    intro m t ho
    rcases hpass.owner m t ho with ho | ⟨hlt, hs⟩ | hr
    · exact hnamed (hc.owners m t ho)
    · exact hnamed (hc.known t hlt hs)
    · rcases hraised hr with hin | ⟨site, f, p, hcreate⟩
      · exact hnamed (Or.inl hin)
      · exact ht.named t site f p hcreate

/-! ### Interrupts -/

/-- A visit of an interrupt: it finds no context in a user critical section and leaves all pcs alone. -/
theorem Inv.interrupt {s : Sys} {a a' : Abs} {k' : Kernel} {pend' : Bool} {v : Visit} {acts : List Action}
    (h : Inv s a) (hruns : Runs v a acts a') (hrep : Rep k' a') (hbefore : v.before = .user)
    (hctx : v.ctx = .isr) (hcs : s.cs = 0) (hpos : a'.Positive)
    (hpend : pend' = true → a.started = true)
    (hcurrent : ∀ t, a'.currentTask = some t →
      a.currentTask = some t ∨ a.started = true ∧ (a'.tcb t).state = .running)
    (hrunning : ∀ t, a'.currentTask = some t → (a'.tcb t).state ≠ .running →
      pend' = true ∨ (s.pc (.task t)).gives = true) :
    Inv { s.setK k' with pend := pend' } a' := by
  have hc := h.control
  have hpass := hruns.passes h.wf
  have hwf' := hruns.wf h.wf
  obtain ⟨howned', hstarved'⟩ := hruns.kept h.wf h.owned h.starved
  have hnoraise : ∀ t, ¬ v.Raises t := by
    rintro t (hb | hb | ⟨site, f, p, hb⟩) <;> · rw [hbefore] at hb; cases hb
  have hstarted : a'.started = a.started := by
    rcases hpass.started with heq | ⟨hb, -⟩
    · exact heq
    · rw [hbefore] at hb
      cases hb
  have hflag : ∀ x, a'.isCreated x = a.isCreated x := fun x => by
    rcases hpass.flag x with heq | ⟨f, p, hb⟩
    · exact heq
    · rw [hbefore] at hb
      cases hb
  have hcount : a'.taskCount = a.taskCount := by
    rcases hpass.count with heq | ⟨-, site, f, p, hb⟩
    · exact heq
    · rw [hbefore] at hb
      cases hb
  have hknown : ∀ t < a'.taskCount, (a'.tcb t).state ≠ .suspended →
      t < a.taskCount ∧ (a.tcb t).state ≠ .suspended := fun t hlt hs =>
    (hpass.known t hlt hs).resolve_right (hnoraise t)
  refine ⟨hrep, hwf', howned', hstarved', hpos, ?_⟩
  constructor
  case ok =>
    intro c
    refine (hc.ok c).frame (fun _ => Or.inr hcs) (fun t ht => ht) (fun hs => hstarted.trans hs)
      (fun phase hb => ?_) (fun t _ hbt => ?_) (fun _ hns => ⟨hstarted.trans hns, id⟩)
    · refine ⟨hb.main, hstarted.trans hb.started, fun hp => (hflag idleSite).trans (hb.flag hp),
        fun hp => ?_, hb.idle⟩
      rw [hcount, hpass.config]
      exact hb.room hp
    · refine ⟨hcount ▸ hbt.lt, ?_, hbt.unnamed, hbt.not_idle⟩
      by_contra hs
      exact (hknown t (hcount ▸ hbt.lt) hs).2 hbt.suspended
  case builds => exact hc.builds
  case stranger => exact hc.stranger
  case running =>
    intro t ht hr
    exact ⟨hcs, hrunning t ht hr⟩
  case current =>
    intro t ht
    rcases hcurrent t ht with ht | ⟨hs, hr⟩
    · exact ⟨hstarted.trans (hc.current t ht).1, (hc.current t ht).2⟩
    · obtain ⟨hlt, hs'⟩ := hknown t (hwf'.lt_of_state (by simp [hr])) (by simp [hr])
      exact ⟨hstarted.trans hs, hc.known t hlt hs'⟩
  case pend => exact fun hp => hstarted.trans (hpend hp)
  case handles => exact fun t ht => hcount ▸ hc.handles t ht
  case idle =>
    intro i hi
    obtain ⟨hlt, hnot, hs⟩ := hc.idle i hi
    refine ⟨hcount ▸ hlt, hnot, ?_⟩
    rcases hpass.able i hlt hs with hs | hs | hs | hs | hs
    · exact Or.inl hs
    · exact Or.inr hs
    · rw [hctx] at hs
      cases hs
    · rw [hbefore] at hs
      cases hs
    · rw [hbefore] at hs
      cases hs
  case known => exact fun t hlt hs => hc.known t (hknown t hlt hs).1 (hknown t hlt hs).2
  case booted => exact fun hs => hc.booted (hstarted ▸ hs)
  case booting =>
    intro hns
    rcases hc.booting (hstarted ▸ hns) with hb | ⟨hf, hi⟩
    · exact Or.inl hb
    · exact Or.inr ⟨(hflag idleSite).trans hf, hi⟩
  case parked =>
    intro t w hw
    rcases hpass.parked t w hw with hw | ⟨ht, -⟩
    · exact hc.parked t w hw
    · rw [hctx] at ht
      cases ht
  case owners =>
    intro m t ho
    rcases hpass.owner m t ho with ho | ⟨hlt, hs⟩ | hr
    · exact hc.owners m t ho
    · exact hc.known t hlt hs
    · exact absurd hr (hnoraise t)

end AcRtos
