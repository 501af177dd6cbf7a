import AcRtos.StackPointers

/-!
# Contexts

What a task sees of the registers, `Board.context`: those of the CPU while it runs, and otherwise what PendSV will load
from its stack. `Board.Sound` is the invariant under which nothing but the task's own code changes it: the saved
registers lie on the task's own stack above the canary, and nobody writes there.
-/

namespace AcRtos

open Lib.Cortex

/-! ### The machine -/

/-- What is known of it when no call of `create_task` overtakes another one of its site. -/
structure Grounded (config : Config) (s : Sys) : Prop where
  tracks : ∃ a, Tracks config (fun s e => ¬ s.Reflags e) s a
  sited : ∃ n, Sited n s
  stacked : Stacked s

section
variable {config : Config} {s s' : Sys} {e : Event} {t u : Tid} {x : Site}

theorem Grounded.init (config : Config) : Grounded config (Sys.init config) where
  tracks := ⟨_, .init⟩
  sited := by
    have hrun : (Sys.init config).run [] = some (Sys.init config) := rfl
    obtain ⟨n, hn, -⟩ := Sited.run hrun trivial
    exact ⟨n, hn⟩
  stacked := Stacked.init config

theorem Grounded.step (h : Grounded config s) (hs : s.step e = some s') (hg : ¬ s.Reflags e) : Grounded config s' := by
  obtain ⟨⟨a, htracks⟩, ⟨n, hn⟩, hst⟩ := h
  obtain ⟨htold, hisr, -⟩ := htracks.told
  obtain ⟨acts, a', hruns, hinv⟩ := htracks.inv.step hs
  obtain ⟨n', hn', -⟩ := htracks.inv.sited_step hs (Sys.admits_slips hg) htold hisr hg hn
  exact ⟨⟨a', .step e htracks hg hs hruns hinv⟩, ⟨n', hn'⟩, htracks.inv.stacked_step hs hst⟩

theorem Grounded.inv (h : Grounded config s) : ∃ a, Inv s a := by
  obtain ⟨a, htracks⟩ := h.tracks
  exact ⟨a, htracks.inv⟩

theorem Grounded.apart (h : Grounded config s) (ht : (s.k.tcb t).stackBase = some x)
    (hu : (s.k.tcb u).stackBase = some x) : t = u := by
  obtain ⟨n, hn⟩ := h.sited
  exact hn.apart t u x ht hu

theorem Grounded.current_stack (h : Grounded config s) (hcur : s.k.currentTask = some t) :
    ∃ x, (s.k.tcb t).stackBase = some x := by
  obtain ⟨a, hinv⟩ := h.inv
  exact hinv.current_stack h.stacked hcur

end

section
variable {config : Config} {s s' : Sys} {e : Event} {t : Tid} {x : Site}

theorem Grounded.stack_from (h : Grounded config s) (hs : s.step e = some s') (hne : ∀ psp, e ≠ .pendSV psp)
    (hx : (s'.k.tcb t).stackBase = some x) :
    (s.k.tcb t).stackBase = some x ∧ (s'.k.tcb t).sp = (s.k.tcb t).sp ∨
    (e = .advance ∧ ∃ f p, s.pc s.k.self = .create (.init t) x f p) ∧ (s'.k.tcb t).sp = .initial x := by
  obtain ⟨a, hinv⟩ := h.inv
  by_cases hinit : e = .advance ∧ ∃ y f p, s.pc s.k.self = .create (.init t) y f p
  · obtain ⟨rfl, y, f, p, hpc⟩ := hinit
    obtain ⟨hsp, hbase, -⟩ := initTcb_step hs hpc
    obtain rfl : y = x := Option.some.inj (hbase.symm.trans hx)
    exact Or.inr ⟨⟨rfl, f, p, hpc⟩, hsp⟩
  · obtain ⟨hsp, hbase⟩ := hinv.stack_step (u := t) hs hne fun he y f p hpc => hinit ⟨he, y, f, p, hpc⟩
    exact Or.inl ⟨hbase ▸ hx, hsp⟩

theorem Grounded.stack_to (h : Grounded config s) (hs : s.step e = some s') (hne : ∀ psp, e ≠ .pendSV psp)
    (hx : (s.k.tcb t).stackBase = some x) :
    (s'.k.tcb t).stackBase = some x ∧ (s'.k.tcb t).sp = (s.k.tcb t).sp := by
  obtain ⟨a, hinv⟩ := h.inv
  obtain ⟨hsp, hbase⟩ := hinv.stack_step (u := t) hs hne fun _ y f p hpc => by
    rw [h.stacked.fresh _ _ _ _ _ hpc] at hx
    cases hx
  exact ⟨hbase.trans hx, hsp⟩

theorem Grounded.bare (h : Grounded config s) {phase : CreatePhase} {f : Callable} {p : Nat} {c : Ctx}
    (hpc : s.pc c = .create phase x f p) (hphase : phase.bare = true) (t : Tid) : (s.k.tcb t).stackBase ≠ some x := by
  obtain ⟨n, hn⟩ := h.sited
  exact hn.bare c x ⟨phase, f, p, hpc, hphase⟩ t

end

/-! ### Steps of the board -/

/-- The running code does this, and no handler. -/
def BoardEvent.own : BoardEvent → Bool
  | .exec .. | .call .. | .advance => true
  | .tick _ | .isr .. | .pendSV => false

namespace Board

section
variable {L : Layout} {b b' : Board} {c : Call} {i : IsrCall} {y : Bool} {cpu : Cpu} {ws : List (Nat × Word)}

theorem step_exec : b.step L (.exec cpu ws) = some b' ↔
    b.sys.k.fault = none ∧ { b with cpu, mem := b.mem.write ws } = b' := by
  unfold step
  cases b.sys.k.fault <;> simp

theorem step_call : b.step L (.call c ws) = some b' ↔
    ∃ s, b.sys.step (.call c) = some s ∧ { b.mask c with sys := s, mem := b.mem.write ws } = b' :=
  Option.map_eq_some_iff

theorem step_advance : b.step L .advance = some b' ↔
    ∃ s, b.sys.step .advance = some s ∧
      { b with
        sys := s
        cpu := if b.pc = .startYield then { b.cpu with sp := 0 } else b.cpu
        mem := L.place b.pc b.mem } = b' :=
  Option.map_eq_some_iff

theorem step_tick : b.step L (.tick ws) = some b' ↔
    b.primask = false ∧ ∃ s, b.sys.step .tick = some s ∧ b.interrupt ws s = b' := by
  unfold step
  cases b.primask <;> simp

theorem step_isr : b.step L (.isr i y ws) = some b' ↔
    b.primask = false ∧ ∃ s, b.sys.step (.isr i y) = some s ∧ b.interrupt ws s = b' := by
  unfold step
  cases b.primask <;> simp

theorem step_pendSV : b.step L .pendSV = some b' ↔
    b.primask = false ∧ ∃ s, b.sys.step (.pendSV b.outgoing.1) = some s ∧
      { b with
        sys := s
        cpu := resume (L.addr s.k.currentSp) { b.entry with mem := b.outgoing.2 }
        mem := b.outgoing.2
        primask := false } = b' := by
  unfold step
  cases b.primask <;> simp

theorem run_cons {e : BoardEvent} {es : List BoardEvent} (hrun : b.run L (e :: es) = some b') :
    ∃ b₁, b.step L e = some b₁ ∧ b₁.run L es = some b' := by
  rw [run] at hrun
  split at hrun
  · exact ⟨_, ‹_›, hrun⟩
  · cases hrun

end

variable (L : Layout) (b : Board)

/-- What `t` sees of the registers. -/
def context (t : Tid) : Thread := if b.sys.k.currentTask = some t then b.cpu.thread else b.thread L t

/-- The boards that good steps reach. -/
inductive Reached (config : Config) : Board → Prop
  | init (cpu : Cpu) (mem : Mem) : Reached config (Board.init config cpu mem)
  | step {b b' : Board} (e : BoardEvent) (h : Reached config b) (hg : b.Good L e) (hs : b.step L e = some b') :
      Reached config b'

/-- Every stack has its canary, and the registers of the tasks that do not run. -/
structure Sound : Prop where
  canary : ∀ t x, (b.sys.k.tcb t).stackBase = some x → b.mem (L.base x) = kStackCanary
  saved : ∀ t x, (b.sys.k.tcb t).stackBase = some x → b.sys.k.currentTask ≠ some t →
    L.base x < L.addr (b.sys.k.tcb t).sp ∧ (b.thread L t).sp ≤ L.top x
  bound : ∀ t x, (b.sys.k.tcb t).stackBase = some x → b.sys.k.currentTask = some t → b.cpu.sp ≤ L.top x

/-- The memory `m` has what the tasks left on their stacks. -/
def Preserved (m : Mem) : Prop := ∀ t x, (b.sys.k.tcb t).stackBase = some x → m (L.base x) = b.mem (L.base x) ∧
  (b.sys.k.currentTask ≠ some t → b.mem.Agree (L.base x) (b.thread L t).sp m)

/-! ### Writing -/

section
variable {L b}
variable {config : Config} {b' : Board} {m : Mem} {t : Tid} {x : Site} {ws : List (Nat × Word)}

theorem Preserved.refl : b.Preserved L b.mem := fun _ _ _ => ⟨rfl, fun _ _ _ _ => rfl⟩

theorem Preserved.write (h : b.Preserved L m) (hst : Stacked b.sys) (hws : ∀ w ∈ ws, b.Spares L w.1) :
    b.Preserved L (m.write ws) := by
  intro t x hx
  obtain ⟨hbase, hsaved⟩ := h t x hx
  have hspares := fun w hw => hws w hw t (hst.lt t x hx) x hx
  exact ⟨(Mem.write_of_ne fun w hw => (hspares w hw).1).trans hbase,
    fun ht => (hsaved ht).trans (Mem.agree_write fun w hw => (hspares w hw).2 ht)⟩

/-- Nobody but the running task is hurt when the storage of its site changes above the canary. -/
theorem Sound.preserved (h : b.Sound L) (hout : ∀ a, ¬ L.Inside x a → m a = b.mem a)
    (hx : ∀ t, (b.sys.k.tcb t).stackBase = some x → b.sys.k.currentTask = some t ∧
      m (L.base x) = b.mem (L.base x)) :
    b.Preserved L m := by
  intro t z hz
  by_cases hzx : z = x
  · subst hzx
    obtain ⟨hcur, hbase⟩ := hx t hz
    exact ⟨hbase, fun hne => absurd hcur hne⟩
  have hapart : ∀ a, L.Inside z a → m a = b.mem a := fun a ha => hout a fun hin => hzx (L.eq_of_inside z x ha hin)
  have hge := L.stackWords_ge z
  refine ⟨hapart _ ⟨le_refl _, ?_⟩, fun hne a hlo hhi => hapart a ⟨hlo, ?_⟩⟩
  · show L.base z < L.base z + L.stackWords z
    omega
  · have := (h.saved t z hz hne).2
    omega

theorem Preserved.thread (h : b.Preserved L b'.mem) (hs : b.Sound L) (hx : (b.sys.k.tcb t).stackBase = some x)
    (ht : b.sys.k.currentTask ≠ some t) (hsp : (b'.sys.k.tcb t).sp = (b.sys.k.tcb t).sp) :
    b'.thread L t = b.thread L t := by
  unfold Board.thread
  rw [hsp]
  have hlt := (hs.saved t x hx ht).1
  exact savedThread_congr (((h t x hx).2 ht).mono (by omega) (le_refl _))

theorem Sound.context_le (h : b.Sound L) (hx : (b.sys.k.tcb t).stackBase = some x) :
    (b.context L t).sp ≤ L.top x := by
  unfold context
  split
  · exact h.bound t x hx ‹_›
  · exact (h.saved t x hx ‹_›).2

/-! ### Steps that switch no task -/

/-- The stacks are as before, but for those that are new. -/
theorem Sound.stay (h : b.Sound L) (hmem : b.Preserved L b'.mem) (hcur : b'.sys.k.currentTask = b.sys.k.currentTask)
    (hold : ∀ t x, (b'.sys.k.tcb t).stackBase = some x →
      (b.sys.k.tcb t).stackBase = some x ∧ (b'.sys.k.tcb t).sp = (b.sys.k.tcb t).sp ∨
      b'.sys.k.currentTask ≠ some t ∧ b'.mem (L.base x) = kStackCanary ∧
        L.base x < L.addr (b'.sys.k.tcb t).sp ∧ (b'.thread L t).sp ≤ L.top x)
    (hbound : ∀ t x, (b.sys.k.tcb t).stackBase = some x → b.sys.k.currentTask = some t → b'.cpu.sp ≤ L.top x) :
    b'.Sound L where
  canary t x hx := by
    rcases hold t x hx with ⟨hx, -⟩ | ⟨-, hcanary, -⟩
    · exact (hmem t x hx).1.trans (h.canary t x hx)
    · exact hcanary
  saved t x hx ht := by
    rcases hold t x hx with ⟨hx, hsp⟩ | ⟨-, -, hsaved⟩
    · rw [hcur] at ht
      rw [hmem.thread h hx ht hsp, hsp]
      exact h.saved t x hx ht
    · exact hsaved
  bound t x hx ht := by
    rcases hold t x hx with ⟨hx, -⟩ | ⟨hne, -⟩
    · exact hbound t x hx (hcur ▸ ht)
    · exact absurd ht hne

theorem Sound.context_stay (h : b.Sound L) (hmem : b.Preserved L b'.mem)
    (hcur : b'.sys.k.currentTask = b.sys.k.currentTask) (hx : (b.sys.k.tcb t).stackBase = some x)
    (hsp : (b'.sys.k.tcb t).sp = (b.sys.k.tcb t).sp)
    (hcpu : b.sys.k.currentTask = some t → b'.cpu.thread = b.cpu.thread) : b'.context L t = b.context L t := by
  unfold context
  rw [hcur]
  split
  · exact hcpu ‹_›
  · exact hmem.thread h hx ‹_› hsp

/-! ### New tasks -/

theorem place_off {phase : CreatePhase} {f : Callable} {p : Nat} {a : Nat} (ha : ¬ L.Inside x a) :
    L.place (.create phase x f p) m a = m a := by
  obtain ⟨hbase, -, htop, hsize⟩ := L.stackTop_bounds x
  rw [L.callableAddr_eq] at hsize
  unfold Layout.Inside at ha
  cases phase with
  | copy => exact Mem.store_out (by omega)
  | init t =>
    have hne : a ≠ L.base x := by
      have := L.stackWords_ge x
      have htop : L.top x = L.base x + L.stackWords x := rfl
      omega
    show (initTaskStack _ _ _ _).2 a = m a
    rw [initTaskStack_eq _ _ _ (by omega)]
    simp only
    rw [Mem.store_out (by omega), Function.update_of_ne hne]
  | _ => rfl

theorem place_init {f : Callable} {p : Nat} : L.place (.create (.init t) x f p) m (L.base x) = kStackCanary ∧
    L.base x < L.addr (.initial x) ∧
    savedThread (L.addr (.initial x)) (L.place (.create (.init t) x f p) m) =
      initialThread (L.stackTop x) (L.trampoline x) (BitVec.ofNat 32 (L.callableAddr x)) := by
  obtain ⟨hbase, -⟩ := L.stackTop_bounds x
  have haddr : L.addr (.initial x) = L.stackTop x - 17 := rfl
  have htop : 17 ≤ L.stackTop x := by omega
  have hstack := initTaskStack_eq (L.trampoline x) (BitVec.ofNat 32 (L.callableAddr x))
    (Function.update m (L.base x) kStackCanary) htop
  refine ⟨?_, by omega, ?_⟩
  · show (initTaskStack _ _ _ _).2 (L.base x) = _
    rw [hstack]
    simp only
    rw [Mem.store_out (by omega), Function.update_self]
  · have hsaved := savedThread_initTaskStack (L.trampoline x)
      (BitVec.ofNat 32 (L.callableAddr x)) (Function.update m (L.base x) kStackCanary) htop
    rw [hstack] at hsaved
    show savedThread _ (initTaskStack _ _ _ _).2 = _
    rw [hstack]
    exact hsaved

theorem Sound.place_preserved (h : b.Sound L) (hm : Grounded config b.sys) : b.Preserved L (L.place b.pc b.mem) := by
  by_cases hbare : ∃ phase x f p, b.pc = .create phase x f p ∧ phase.bare = true
  · obtain ⟨phase, x, f, p, hpc, hphase⟩ := hbare
    rw [hpc]
    exact h.preserved (fun a ha => place_off ha) fun t hx => absurd hx (hm.bare hpc hphase t)
  · have hplace : L.place b.pc b.mem = b.mem := by
      unfold Layout.place
      split
      · exact absurd ⟨_, _, _, _, ‹_›, rfl⟩ hbare
      · exact absurd ⟨_, _, _, _, ‹_›, rfl⟩ hbare
      · rfl
    rw [hplace]
    exact .refl

/-! ### Interrupts -/

theorem entry_task (hcur : b.sys.k.currentTask = some t) : b.entry = exceptionEntry b.cpu b.mem := by
  rw [entry, hcur]
  rfl

theorem entry_off (hcur : b.sys.k.currentTask = some t) (hroom : L.base x + frameWords b.cpu.fpca + 2 ≤ b.cpu.sp)
    (hsp : b.cpu.sp ≤ L.top x) {a : Nat} (ha : a ≤ L.base x ∨ L.top x ≤ a) : b.entry.mem a = b.mem a := by
  have hadd := b.cpu.framePtr_add (by omega)
  rw [entry_task hcur]
  have hout : a + 1 ≤ b.cpu.framePtr ∨ b.cpu.sp ≤ a := by
    split at hadd <;> omega
  exact entry_agree (by omega) hout a (le_refl _) (Nat.lt_succ_self a)

theorem Sound.entry_preserved (h : b.Sound L) (hm : Grounded config b.sys) (hroom : b.Room L (frameWords b.cpu.fpca)) :
    b.Preserved L b.entry.mem := by
  cases hcur : b.sys.k.currentTask with
  | none =>
    have hmem : b.entry.mem = b.mem := by rw [entry, hcur]; rfl
    rw [hmem]
    exact .refl
  | some t =>
    obtain ⟨x, hx⟩ := hm.current_stack hcur
    have hoff := fun a => entry_off (a := a) hcur (hroom t hcur x hx) (h.bound t x hx hcur)
    refine h.preserved (x := x) (fun a ha => hoff a ?_) fun u hu => ⟨?_, hoff _ (Or.inl (le_refl _))⟩
    · unfold Layout.Inside at ha
      omega
    · rw [hcur, hm.apart hx hu]

theorem interrupt_thread (hm : Grounded config b.sys) (s : Sys) (hroom : b.Room L (frameWords b.cpu.fpca))
    (hws : ∀ w ∈ ws, b.Within fun x => w.1 < L.base x ∨ b.cpu.sp ≤ w.1) :
    (b.interrupt ws s).cpu.thread = b.cpu.thread := by
  cases hcur : b.sys.k.currentTask with
  | none =>
    have hcpu : (b.interrupt ws s).cpu = b.cpu := by
      unfold interrupt
      rw [hcur]
      rfl
    rw [hcpu]
  | some t =>
    obtain ⟨x, hx⟩ := hm.current_stack hcur
    have hroom : L.base x + frameWords b.cpu.fpca + 2 ≤ b.cpu.sp := hroom t hcur x hx
    have hlt := b.cpu.framePtr_lt (by omega)
    have hadd := b.cpu.framePtr_add (by omega)
    have hle := stackedWords_le b.cpu.fpca
    have hcpu : (b.interrupt ws s).cpu =
        exceptionReturn { exceptionEntry b.cpu b.mem with mem := (exceptionEntry b.cpu b.mem).mem.write ws } := by
      unfold interrupt
      rw [entry_task hcur, hcur]
      rfl
    rw [hcpu, ← exceptionReturn_entry b.cpu b.mem (by omega)]
    refine exceptionReturn_congr rfl rfl rfl (fun _ _ _ => rfl) (Mem.agree_write fun w hw => ?_)
    have hframe : (exceptionEntry b.cpu b.mem).psp = b.cpu.framePtr := rfl
    rw [extended_entry, hframe]
    rcases hws w hw t hcur x hx with hw | hw
    · left
      split at hadd <;> omega
    · right
      omega

/-! ### Context switches -/

/-- What PendSV makes of the running task: a block on its own stack, above the canary. -/
theorem outgoing_task (hcur : b.sys.k.currentTask = some t)
    (hroom : L.base x + (PendSV.switchWords b.cpu.fpca + frameWords b.cpu.fpca) + 2 ≤ b.cpu.sp)
    (hsp : b.cpu.sp ≤ L.top x) : L.base x < b.outgoing.1 ∧ savedThread b.outgoing.1 b.outgoing.2 = b.cpu.thread ∧
      ∀ a, a ≤ L.base x ∨ L.top x ≤ a → b.outgoing.2 a = b.mem a := by
  have hadd := b.cpu.framePtr_add (by omega)
  have hlt := b.cpu.framePtr_lt (by omega)
  have hptr : L.base x + PendSV.switchWords b.cpu.fpca < b.cpu.framePtr := by
    split at hadd <;> omega
  have hout : b.outgoing = PendSV.save (exceptionEntry b.cpu b.mem) := by
    have hne : (exceptionEntry b.cpu b.mem).psp ≠ 0 := by
      show b.cpu.framePtr ≠ 0
      omega
    rw [outgoing, entry_task hcur, if_neg hne]
  have hfst : b.outgoing.1 = b.cpu.framePtr - PendSV.switchWords b.cpu.fpca := by
    rw [hout, save_fst, extended_entry]
    rfl
  refine ⟨by omega, ?_, fun a ha => ?_⟩
  · rw [hout]
    exact resume_save b.cpu b.mem (by omega)
  · have hentry := entry_off (L := L) (x := x) (a := a) hcur (by omega) hsp ha
    rw [entry_task hcur] at hentry
    have hleft : PendSV.switchWords (exceptionEntry b.cpu b.mem).extended ≤ (exceptionEntry b.cpu b.mem).psp := by
      rw [extended_entry]
      show _ ≤ b.cpu.framePtr
      omega
    have hbeside : a + 1 ≤ (PendSV.save (exceptionEntry b.cpu b.mem)).1 ∨
        (exceptionEntry b.cpu b.mem).psp ≤ a := by
      rw [← hout, hfst]
      show _ ∨ b.cpu.framePtr ≤ a
      omega
    rw [← hentry, hout]
    exact save_agree hleft hbeside a (le_refl _) (Nat.lt_succ_self a)

theorem Sound.outgoing_preserved (h : b.Sound L) (hm : Grounded config b.sys)
    (hroom : b.Room L (PendSV.switchWords b.cpu.fpca + frameWords b.cpu.fpca))
    (hmain : b.sys.k.currentTask = none → b.cpu.sp = 0) : b.Preserved L b.outgoing.2 := by
  cases hcur : b.sys.k.currentTask with
  | none =>
    have hmem : b.outgoing.2 = b.mem := by
      rw [outgoing, entry, hcur]
      simp [hmain hcur]
    rw [hmem]
    exact .refl
  | some t =>
    obtain ⟨x, hx⟩ := hm.current_stack hcur
    have hoff := (outgoing_task hcur (hroom t hcur x hx) (h.bound t x hx hcur)).2.2
    refine h.preserved (x := x) (fun a ha => hoff a ?_) fun u hu => ⟨?_, hoff _ (Or.inl (le_refl _))⟩
    · unfold Layout.Inside at ha
      omega
    · rw [hcur, hm.apart hx hu]

theorem Sound.pendSV (h : b.Sound L) (hm : Grounded config b.sys) (hg : b.Behaves L .pendSV)
    (hmain : b.sys.k.currentTask = none → b.cpu.sp = 0) (hs : b.step L .pendSV = some b') :
    b'.Sound L ∧ ∀ t x, (b.sys.k.tcb t).stackBase = some x → b'.context L t = b.context L t := by
  obtain ⟨-, s, hstep, rfl⟩ := step_pendSV.mp hs
  obtain ⟨a, hinv⟩ := hm.inv
  obtain ⟨next, z, hnext, hz, hcsp, hothers, hown⟩ := hinv.switches hm.stacked hstep
  have hbase := (Inv.quiet_writes .isr hstep (Or.inr ⟨_, rfl⟩)).1.stackBase
  have hmem := h.outgoing_preserved hm hg.1 hmain
  -- what is on the stacks after the handler
  have hsaved : ∀ t x, (b.sys.k.tcb t).stackBase = some x →
      L.base x < L.addr (s.k.tcb t).sp ∧ savedThread (L.addr (s.k.tcb t).sp) b.outgoing.2 = b.context L t := by
    intro t x hx
    by_cases hcur : b.sys.k.currentTask = some t
    · obtain ⟨hlt, hthread, -⟩ := outgoing_task hcur (hg.1 t hcur x hx) (h.bound t x hx hcur)
      rw [hown t hcur (by omega), context, if_pos hcur]
      exact ⟨hlt, hthread⟩
    · rw [hothers t hcur, context, if_neg hcur]
      have hlt := (h.saved t x hx hcur).1
      exact ⟨hlt, savedThread_congr (((hmem t x hx).2 hcur).mono (by omega) (le_refl _))⟩
  have hcpu : (resume (L.addr s.k.currentSp) { b.entry with mem := b.outgoing.2 }).thread = b.context L next := by
    rw [resume_thread, hcsp]
    exact (hsaved next z hz).2
  refine ⟨⟨fun t x hx => ?_, fun t x hx ht => ?_, fun t x hx ht => ?_⟩, fun t x hx => ?_⟩
  · rw [hbase] at hx
    exact (hmem t x hx).1.trans (h.canary t x hx)
  · rw [hbase] at hx
    obtain ⟨hlt, hthread⟩ := hsaved t x hx
    exact ⟨hlt, (congrArg Thread.sp hthread).trans_le (h.context_le hx)⟩
  · rw [hbase] at hx
    obtain rfl : next = t := Option.some.inj (hnext.symm.trans ht)
    exact (congrArg Thread.sp hcpu).trans_le (h.context_le hx)
  · by_cases ht : next = t
    · subst ht
      exact (if_pos hnext).trans hcpu
    · exact (if_neg fun heq => ht (Option.some.inj (hnext.symm.trans heq))).trans (hsaved t x hx).2

/-! ### All steps -/

theorem Sound.plain {e : Event} (h : b.Sound L) (hm : Grounded config b.sys) (hmem : b.Preserved L b'.mem)
    (hs : b.sys.step e = some b'.sys) (hne : ∀ psp, e ≠ .pendSV psp)
    (hplace : e = .advance → b'.mem = L.place b.pc b.mem)
    (hbound : ∀ t x, (b.sys.k.tcb t).stackBase = some x → b.sys.k.currentTask = some t → b'.cpu.sp ≤ L.top x) :
    b'.Sound L ∧ ∀ t x, (b.sys.k.tcb t).stackBase = some x →
      (b.sys.k.currentTask = some t → b'.cpu.thread = b.cpu.thread) → b'.context L t = b.context L t := by
  obtain ⟨a, hinv⟩ := hm.inv
  have hcur := hinv.current_step hs hne
  refine ⟨h.stay hmem hcur (fun u y hy => ?_) hbound, fun t x hx hcpu => ?_⟩
  · rcases hm.stack_from hs hne hy with hold | ⟨⟨he, f, p, hpc⟩, hsp⟩
    · exact Or.inl hold
    · have hnew := hplace he
      rw [show b.pc = .create (.init u) y f p from hpc] at hnew
      obtain ⟨hcanary, hlt, hthread⟩ := place_init (L := L) (x := y) (t := u) (m := b.mem) (f := f) (p := p)
      rw [← hnew] at hcanary hthread
      refine Or.inr ⟨fun hu => ?_, hcanary, by rw [hsp]; exact hlt, ?_⟩
      · obtain ⟨z, hz⟩ := hm.current_stack (hcur.symm.trans hu)
        rw [hm.stacked.fresh _ _ _ _ _ hpc] at hz
        cases hz
      · unfold Board.thread
        rw [hsp, hthread]
        exact (L.stackTop_bounds y).2.2.1
  · exact h.context_stay hmem hcur hx (hm.stack_to hs hne hx).2 hcpu

theorem Sound.interrupt {e : Event} {s : Sys} (h : b.Sound L) (hm : Grounded config b.sys)
    (hg : b.Behaves L (.tick ws)) (hs : b.sys.step e = some s) (hne : ∀ psp, e ≠ .pendSV psp)
    (ha : e ≠ .advance) :
    (b.interrupt ws s).Sound L ∧
      ∀ t x, (b.sys.k.tcb t).stackBase = some x → (b.interrupt ws s).context L t = b.context L t := by
  obtain ⟨hroom, hws⟩ := hg
  have hthread := interrupt_thread hm s hroom fun w hw => (hws w hw).2
  have hmem : b.Preserved L (b.interrupt ws s).mem :=
    (h.entry_preserved hm hroom).write hm.stacked fun w hw => (hws w hw).1
  obtain ⟨hsound, hcontext⟩ := h.plain hm hmem hs hne (fun he => absurd he ha)
    fun u y hy hu => (congrArg Thread.sp hthread).trans_le (h.bound u y hy hu)
  exact ⟨hsound, fun t x hx => hcontext t x hx fun _ => hthread⟩

/-- Only its own code changes the context of a task. -/
theorem Sound.step {e : BoardEvent} (h : b.Sound L) (hm : Grounded config b.sys) (hg : b.Good L e)
    (hmain : e = .pendSV → b.sys.k.currentTask = none → b.cpu.sp = 0) (hs : b.step L e = some b') :
    b'.Sound L ∧ ∀ t x, (b.sys.k.tcb t).stackBase = some x →
      (b.sys.k.currentTask = some t → e.own = false) → b'.context L t = b.context L t := by
  have hst := hm.stacked
  cases e with
  | exec cpu ws =>
    obtain ⟨hws, hsp, -⟩ := hg.1
    obtain ⟨-, rfl⟩ := step_exec.mp hs
    have hmem := Preserved.refl.write hst hws
    exact ⟨h.stay hmem rfl (fun u y hy => Or.inl ⟨hy, rfl⟩) fun u y hy hu => hsp u hu y hy,
      fun t x hx hown => h.context_stay hmem rfl hx rfl fun hcur => by cases hown hcur⟩
  | call c ws =>
    obtain ⟨s, hstep, rfl⟩ := step_call.mp hs
    have hcpu : (b.mask c).cpu = b.cpu := by cases c <;> rfl
    have hmem : b.Preserved L ({ b.mask c with sys := s, mem := b.mem.write ws } : Board).mem :=
      Preserved.refl.write hst hg.1
    obtain ⟨hsound, hcontext⟩ := h.plain hm hmem hstep (by simp) (by simp) (by simp only [hcpu]; exact h.bound)
    exact ⟨hsound, fun t x hx hown => hcontext t x hx fun hcur => by cases hown hcur⟩
  | advance =>
    obtain ⟨s, hstep, rfl⟩ := step_advance.mp hs
    have hmem : b.Preserved L ({ b with
        sys := s
        cpu := if b.pc = .startYield then { b.cpu with sp := 0 } else b.cpu
        mem := L.place b.pc b.mem } : Board).mem := h.place_preserved hm
    obtain ⟨hsound, hcontext⟩ := h.plain hm hmem hstep (by simp) (fun _ => rfl) fun u y hy hu => by
      simp only
      split
      · exact Nat.zero_le _
      · exact h.bound u y hy hu
    exact ⟨hsound, fun t x hx hown => hcontext t x hx fun hcur => by cases hown hcur⟩
  | tick ws =>
    obtain ⟨-, s, hstep, rfl⟩ := step_tick.mp hs
    obtain ⟨hsound, hcontext⟩ := h.interrupt hm hg.1 hstep (by simp) (by simp)
    exact ⟨hsound, fun t x hx _ => hcontext t x hx⟩
  | isr i y ws =>
    obtain ⟨-, s, hstep, rfl⟩ := step_isr.mp hs
    obtain ⟨hsound, hcontext⟩ := h.interrupt hm hg.1 hstep (by simp) (by simp)
    exact ⟨hsound, fun t x hx _ => hcontext t x hx⟩
  | pendSV =>
    obtain ⟨hsound, hcontext⟩ := h.pendSV hm hg.1 (hmain rfl) hs
    exact ⟨hsound, fun t x hx _ => hcontext t x hx⟩

end

end Board

end AcRtos
