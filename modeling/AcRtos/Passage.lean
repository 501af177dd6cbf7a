import AcRtos.Effects

/-!
# What a visit does to the tasks

`Abs.Shifts` lists the state changes of a task, one constructor for each kind of action that makes it.
`Visit.Passes` is what a whole visit can do to the scheduler's fields and to the states and waits of all
tasks; it composes, so one lemma about an action (`Passes.of_action`) gives it for every run of a visit.
-/

namespace AcRtos

open Abs

/-- The action takes `u` from one state to another. -/
inductive Abs.Shifts (a : Abs) (u : Tid) : Action → TaskState → Prop
  | alloc (h : u = a.taskCount) : a.Shifts u .alloc .suspended
  | ready (h : (a.tcb u).state = .suspended ∨ (a.tcb u).state = .running) : a.Shifts u (.ready u) .ready
  | switch (h : (a.tcb u).state = .ready) : a.Shifts u (.switch u) .running
  | sleep (n : Nat) (h : (a.tcb u).state = .running) : a.Shifts u (.sleep u n) .blocked
  | park (w : Wait) (timeout : Option Nat) (h : (a.tcb u).state = .running) :
      a.Shifts u (.park w u timeout) .blocked
  | expire (h : (a.tcb u).state = .blocked) : a.Shifts u (.expire u) .ready
  | hand (hd : Handing) (h : (a.tcb u).waitList = some hd.list) : a.Shifts u (.hand hd u) .ready
  | pass (m : MutexId) (t : Tid) (h : (a.tcb u).waitList = some (.mutex m)) :
      a.Shifts u (.pass m t u) .ready
  | retire (st : TaskState) (h : st = .suspended ∧ (a.tcb u).state ≠ .suspended ∨ st = .deleted) :
      a.Shifts u (.retire u st) st

theorem Abs.WF.ready_of_head {a : Abs} {t : Tid} {p : Nat} (h : a.WF)
    (hhead : (a.seq (.ready p)).head? = some t) : (a.tcb t).state = .ready :=
  (h.mem_ready.mp (List.mem_of_mem_head? hhead)).2.1

theorem Abs.shift {a : Abs} (h : a.WF) {act : Action} (he : act.Enabled a) (u : Tid) :
    ((act.apply a).tcb u).state = (a.tcb u).state ∨ a.Shifts u act ((act.apply a).tcb u).state := by
  rw [apply_tcb h he]
  cases act with
  | data d => exact Or.inl rfl
  | countDown => exact Or.inl rfl
  | acquire m t => exact Or.inl rfl
  | save t =>
    simp only [Action.tcb]
    split <;> exact Or.inl rfl
  | initTcb t site p =>
    simp only [Action.tcb]
    split <;> exact Or.inl rfl
  | release m t =>
    simp only [Action.tcb]
    split <;> exact Or.inl rfl
  | alloc =>
    simp only [Action.tcb]
    split
    · exact Or.inr (.alloc ‹_›)
    · exact Or.inl rfl
  | ready t =>
    simp only [Action.tcb]
    split
    · rename_i hu
      subst hu
      exact Or.inr (.ready he.2)
    · exact Or.inl rfl
  | switch t =>
    simp only [Action.tcb]
    split
    · rename_i hu
      subst hu
      obtain ⟨-, p, -, hhead⟩ := he
      exact Or.inr (.switch (h.ready_of_head hhead))
    · exact Or.inl rfl
  | sleep t n =>
    simp only [Action.tcb]
    split
    · rename_i hu
      subst hu
      exact Or.inr (.sleep n he.2.1)
    · exact Or.inl rfl
  | expire t =>
    simp only [Action.tcb]
    split
    · rename_i hu
      subst hu
      obtain ⟨rest, hsl⟩ := he
      exact Or.inr (.expire (h.state_of_sleeps (by simp [Sleeps, hsl])))
    · exact Or.inl rfl
  | retire t st =>
    simp only [Action.tcb]
    split
    · rename_i hu
      subst hu
      refine Or.inr (.retire st ?_)
      rcases he with ⟨-, hne, hst⟩ | ⟨-, hst⟩
      · exact Or.inl ⟨hst, hne⟩
      · exact Or.inr hst
    · exact Or.inl rfl
  | park w t timeout =>
    simp only [Action.tcb]
    split
    · rename_i hu
      subst hu
      exact Or.inr (.park w timeout he.2.1)
    · exact Or.inl rfl
  | hand hd t =>
    simp only [Action.tcb]
    split
    · rename_i hu
      subst hu
      exact Or.inr (.hand hd (h.mem_wait.mp (Handing.Enabled.mem he)).2)
    · exact Or.inl rfl
  | pass m t next =>
    simp only [Action.tcb]
    split
    · exact Or.inl rfl
    · split
      · rename_i hu
        subst hu
        exact Or.inr (.pass m t (h.mem_wait.mp (List.mem_of_mem_head? he.2.2)).2)
      · exact Or.inl rfl

/-! ### A whole visit -/

/-- The context has given up the CPU and its `task_yield()` is still to come. -/
def Pc.gives : Pc → Bool
  | .yield _ | .yieldWait _ => true
  | _ => false

namespace Visit

/-- The visit may take the suspended task `t` out of its state. -/
def Raises (v : Visit) (t : Tid) : Prop :=
  v.before = .resumeBody t ∨ v.before = .deleteBody t ∨
    ∃ site f p, v.before = .create (.ready t) site f p

/-- What a visit can do to the scheduler's fields and to the states and waits of the tasks. -/
structure Passes (v : Visit) (a a' : Abs) : Prop where
  config : a'.config = a.config
  count : a'.taskCount = a.taskCount ∨
    a.taskCount ≤ a'.taskCount ∧ ∃ site f p, v.before = .create .alloc site f p
  current : v.entry ≠ .pendSV → a'.currentTask = a.currentTask
  started : a'.started = a.started ∨ v.before = .startRun ∧ a'.started = true
  flag : ∀ x, a'.isCreated x = a.isCreated x ∨ ∃ f p, v.before = .create .setFlag x f p
  known : ∀ t < a'.taskCount, (a'.tcb t).state ≠ .suspended →
    t < a.taskCount ∧ (a.tcb t).state ≠ .suspended ∨ v.Raises t
  running : v.entry ≠ .pendSV → ∀ t, a.currentTask = some t → (a.tcb t).state = .running →
    (a'.tcb t).state = .running ∨ v.masked = false ∧ v.after.gives = true
  parked : ∀ t w, (a'.tcb t).waitList = some w →
    (a.tcb t).waitList = some w ∨ v.ctx = .task t ∧ ∃ W, v.after = .yieldWait W ∧ W.list = w
  able : ∀ t < a.taskCount, (a.tcb t).state = .ready ∨ (a.tcb t).state = .running →
    (a'.tcb t).state = .ready ∨ (a'.tcb t).state = .running ∨ v.ctx = .task t ∨
      v.before = .suspendBody t ∨ v.before = .deleteBody t
  owner : ∀ m t, a'.owner m = some t → a.owner m = some t ∨
    t < a.taskCount ∧ (a.tcb t).state ≠ .suspended ∨ v.Raises t

namespace Passes

variable {v : Visit} {a b c : Abs}

theorem refl (v : Visit) (a : Abs) : v.Passes a a where
  config := rfl
  count := Or.inl rfl
  current _ := rfl
  started := Or.inl rfl
  flag _ := Or.inl rfl
  known _ hlt hs := Or.inl ⟨hlt, hs⟩
  running _ _ _ hr := Or.inl hr
  parked _ _ hw := Or.inl hw
  able _ _ hs := hs.imp_right Or.inl
  owner _ _ ho := Or.inl ho

theorem count_le (h : v.Passes a b) : a.taskCount ≤ b.taskCount := by
  rcases h.count with heq | ⟨hle, -⟩
  · exact Nat.le_of_eq heq.symm
  · exact hle

theorem trans (h : v.Passes a b) (h' : v.Passes b c) : v.Passes a c where
  config := h'.config.trans h.config
  count := by
    rcases h.count with heq | ⟨hle, hb⟩
    · rw [← heq]
      exact h'.count
    · exact Or.inr ⟨Nat.le_trans hle h'.count_le, hb⟩
  current hv := (h'.current hv).trans (h.current hv)
  started := by
    rcases h'.started with heq | hstart
    · rw [heq]
      exact h.started
    · exact Or.inr hstart
  flag x := by
    rcases h'.flag x with heq | hset
    · rw [heq]
      exact h.flag x
    · exact Or.inr hset
  known t hlt hs := by
    rcases h'.known t hlt hs with ⟨hlt, hs⟩ | hr
    · exact h.known t hlt hs
    · exact Or.inr hr
  running hv t ht hr := by
    rcases h.running hv t ht hr with hr | hg
    · exact h'.running hv t ((h.current hv).trans ht) hr
    · exact Or.inr hg
  parked t w hw := by
    rcases h'.parked t w hw with hw | hp
    · exact h.parked t w hw
    · exact Or.inr hp
  able t hlt hs := by
    rcases h.able t hlt hs with hs | hs | hs
    · exact h'.able t (Nat.lt_of_lt_of_le hlt h.count_le) (Or.inl hs)
    · exact h'.able t (Nat.lt_of_lt_of_le hlt h.count_le) (Or.inr hs)
    · exact Or.inr (Or.inr hs)
  owner m t ho := by
    rcases h'.owner m t ho with ho | ⟨hlt, hs⟩ | hr
    · exact h.owner m t ho
    · exact Or.inr (h.known t hlt hs)
    · exact Or.inr (Or.inr hr)

theorem of_action (h : a.WF) {act : Action} (he : act.Enabled a) (hf : act.Fits v a) :
    v.Passes a (act.apply a) where
  config := apply_config he
  count := by
    rw [apply_taskCount he]
    split
    · obtain ⟨site, f, p, hb, -⟩ := hf
      exact Or.inr ⟨Nat.le_succ _, site, f, p, hb⟩
    · exact Or.inl rfl
  current hv := by
    rw [apply_currentTask he]
    split
    · exact absurd (congrArg Visit.entry hf) hv
    · rfl
  started := by
    rw [apply_started he]
    split
    · exact Or.inr ⟨hf, rfl⟩
    · exact Or.inl rfl
  flag x := by
    rw [apply_isCreated he]
    split
    · rename_i y _
      by_cases hx : x = y
      · subst hx
        exact Or.inr hf
      · exact Or.inl (Function.update_of_ne hx _ _)
    · exact Or.inl rfl
  known t hlt hs := by
    rcases shift h he t with hsame | hshift
    · rw [hsame] at hs
      refine Or.inl ⟨?_, hs⟩
      rw [apply_taskCount he] at hlt
      split at hlt
      · rcases Nat.lt_succ_iff_lt_or_eq.mp hlt with hlt | heq
        · exact hlt
        · -- the new control block is suspended
          subst heq
          rw [← hsame] at hs
          simp [Action.apply, alloc] at hs
      · exact hlt
    · generalize ((act.apply a).tcb t).state = st at hshift hs
      have hold : ∀ {st'}, (a.tcb t).state = st' → st' ≠ .ready → st' ≠ .suspended →
          t < a.taskCount ∧ (a.tcb t).state ≠ .suspended ∨ v.Raises t :=
        fun hst hr hns => Or.inl ⟨h.lt_of_state (by rw [hst]; exact hr), by rw [hst]; exact hns⟩
      cases hshift with
      | alloc heq => exact absurd rfl hs
      | ready hst =>
        rcases hf.1 with ⟨hb | hb, -⟩ | ⟨-, hrun⟩
        · exact Or.inr (Or.inl hb)
        · exact Or.inr (Or.inr (Or.inr hb))
        · exact hold hrun (by simp) (by simp)
      | switch hst =>
        obtain ⟨-, p, -, hhead⟩ := he
        exact Or.inl ⟨h.lt_of_mem (List.mem_of_mem_head? hhead), by simp [hst]⟩
      | sleep n hst => exact hold hst (by simp) (by simp)
      | park w timeout hst => exact hold hst (by simp) (by simp)
      | expire hst => exact hold hst (by simp) (by simp)
      | hand hd hw => exact hold ((h.ok t).waits (by simp [hw])) (by simp) (by simp)
      | pass m u hw => exact hold ((h.ok t).waits (by simp [hw])) (by simp) (by simp)
      | retire st hst =>
        rcases hst with ⟨rfl, hne⟩ | rfl
        · exact absurd rfl hs
        · rcases hf.1 with ⟨-, heq⟩ | ⟨hb, -⟩
          · cases heq
          · exact Or.inr (Or.inr (Or.inl hb))
  running hv t ht hr := by
    rcases shift h he t with hsame | hshift
    · exact Or.inl (hsame.trans hr)
    · generalize ((act.apply a).tcb t).state = st at hshift
      cases hshift with
      | alloc heq => exact absurd (h.current_lt t ht) (by rw [heq]; exact Nat.lt_irrefl _)
      | ready hst =>
        rcases hf.1 with ⟨-, hsus⟩ | ⟨hp, -⟩
        · rw [hr] at hsus
          cases hsus
        · exact absurd hp hv
      | switch hst => exact absurd (congrArg Visit.entry hf) hv
      | sleep n hst => exact Or.inr ⟨hf.2.1, by rw [hf.2.2.1]; rfl⟩
      | park w timeout hst => exact Or.inr ⟨hf.2.1, by rw [hf.2.2.1]; rfl⟩
      | expire hst => rw [hr] at hst; cases hst
      | hand hd hw => rw [(h.ok t).waits (by simp [hw])] at hr; cases hr
      | pass m u hw => rw [(h.ok t).waits (by simp [hw])] at hr; cases hr
      | retire st hst =>
        obtain ⟨hmasked, hafter, -⟩ := hf.2 ht
        exact Or.inr ⟨hmasked, by rw [hafter]; rfl⟩
  parked t w hw := by
    rcases waitList_apply h he hw with hw | ⟨W, timeout, rfl, hW⟩
    · exact Or.inl hw
    · exact Or.inr ⟨hf.1, W, hf.2.2.1, hW⟩
  able t hlt hs := by
    rcases shift h he t with hsame | hshift
    · rw [hsame]
      exact hs.imp_right Or.inl
    · generalize ((act.apply a).tcb t).state = st at hshift
      cases hshift with
      | alloc heq => exact absurd hlt (by rw [heq]; exact Nat.lt_irrefl _)
      | sleep n hst => exact Or.inr (Or.inr (Or.inl hf.1))
      | park w timeout hst => exact Or.inr (Or.inr (Or.inl hf.1))
      | switch hst => exact Or.inr (Or.inl rfl)
      | retire st hst =>
        rcases hf.1 with ⟨hb, -⟩ | ⟨hb, -⟩
        · exact Or.inr (Or.inr (Or.inr (Or.inl hb)))
        · exact Or.inr (Or.inr (Or.inr (Or.inr hb)))
      | _ => exact Or.inl rfl
  owner m t ho := by
    rw [apply_owner he] at ho
    -- the new owner of a mutex runs or waits for it
    have hnew : ∀ {x o u}, (u < a.taskCount ∧ (a.tcb u).state ≠ .suspended) → o = some u →
        Function.update a.owner x o m = some t → a.owner m = some t ∨
          t < a.taskCount ∧ (a.tcb t).state ≠ .suspended ∨ v.Raises t := by
      rintro x o u hu rfl heq
      by_cases hm : m = x
      · subst hm
        rw [Function.update_self] at heq
        cases heq
        exact Or.inr (Or.inl hu)
      · exact Or.inl (by rwa [Function.update_of_ne hm] at heq)
    cases act with
    | acquire x u => exact hnew ⟨h.lt_of_state (by simp [he.2.1]), by simp [he.2.1]⟩ rfl ho
    | release x u =>
      by_cases hm : m = x
      · subst hm
        simp [Action.owner] at ho
      · exact Or.inl (by simpa [Action.owner, Function.update_of_ne hm] using ho)
    | pass x u next =>
      have hmem := List.mem_of_mem_head? he.2.2
      exact hnew ⟨h.lt_of_mem hmem, by simp [(h.mem_wait.mp hmem).1]⟩ rfl ho
    | _ => exact Or.inl ho

end Passes

end Visit

theorem Runs.passes {v : Visit} {a a' : Abs} {acts : List Action} (h : Runs v a acts a') (ha : a.WF) :
    v.Passes a a' := by
  induction acts generalizing a with
  | nil => obtain rfl : a' = a := h; exact .refl v a'
  | cons act acts ih =>
    obtain ⟨he, hf, hrest⟩ := h
    exact (Visit.Passes.of_action ha he hf).trans (ih hrest (ha.apply he))

end AcRtos
