import AcRtos.Lib.Cortex
import AcRtos.Types

/-!
# The port

`init_task_stack` (`port_cm4.cpp`), `PendSV_Handler` (`port_asm.s`) and what `create_task` makes of a site's
`storage`. A task that does not run is a block of words on its stack: the frame that the hardware pushed when PendSV
came, and below it the registers that the handler saves. `resume` is the second half of the handler with the exception
return. It brings back what was saved (`resume_save`) and starts a new task at its trampoline
(`savedThread_initTaskStack`).
-/

namespace AcRtos

open Lib.Cortex

/-! ### Stacks -/

/-- What the compiler and the linker make of the `create_task` call sites: the address of `storage`, in words, the
template arguments and the trampoline, under the `static_assert`s and alignments of `create_task`. -/
structure Layout where
  base : Site → Nat
  stackWords : Site → Nat
  /-- `sizeof(DecayedF)`, in bytes. -/
  size : Site → Nat
  trampoline : Site → Word
  /-- The words of a callable. -/
  image : Callable → Nat → Word
  base_pos : ∀ x, 0 < base x
  base_even : ∀ x, base x % 2 = 0
  stackWords_ge : ∀ x, 64 ≤ stackWords x
  stackWords_even : ∀ x, stackWords x * 4 % 8 = 0
  size_lt : ∀ x, size x < stackWords x * 4 / 2
  apart : ∀ x y, x ≠ y → base x + stackWords x ≤ base y ∨ base y + stackWords y ≤ base x

namespace Layout

variable (L : Layout) (x y : Site)

def top : Nat := L.base x + L.stackWords x

/-- `stack_bytes`: where the callable is copied to. -/
def callableAddr : Nat :=
  let stackBytes := 4 * L.top x - L.size x
  stackBytes - stackBytes % 8

/-- `hw_stack_top`. -/
def stackTop : Nat := L.callableAddr x / 4

theorem callableAddr_eq : L.callableAddr x = 4 * L.stackTop x := by
  unfold stackTop callableAddr
  simp only
  omega

/-- The callable fits above the stack top, and the initial frame below it and above the canary. -/
theorem stackTop_bounds : L.base x + 17 < L.stackTop x ∧ L.stackTop x % 2 = 0 ∧ L.stackTop x ≤ L.top x ∧
    L.callableAddr x + L.size x ≤ 4 * L.top x := by
  have hge := L.stackWords_ge x
  have hlt := L.size_lt x
  have htop : L.top x = L.base x + L.stackWords x := rfl
  unfold stackTop callableAddr
  simp only
  omega

/-- A site's `storage` holds the address. -/
def Inside (a : Nat) : Prop := L.base x ≤ a ∧ a < L.top x

instance (a : Nat) : Decidable (L.Inside x a) := inferInstanceAs (Decidable (_ ∧ _))

theorem eq_of_inside {a : Nat} (hx : L.Inside x a) (hy : L.Inside y a) : x = y := by
  by_contra hne
  have hx' : L.base x ≤ a ∧ a < L.base x + L.stackWords x := hx
  have hy' : L.base y ≤ a ∧ a < L.base y + L.stackWords y := hy
  have := L.apart x y hne
  omega

end Layout

/-! ### `init_task_stack` -/

/-- `*(--sp) = w`. -/
def push (st : Nat × Mem) (w : Word) : Nat × Mem := (st.1 - 1, Function.update st.2 (st.1 - 1) w)

/-- xPSR with the Thumb bit, PC, LR, R12, R3 to R0, EXC_RETURN and R11 to R4. -/
def initialWords (taskFunc param : Word) : List Word :=
  [0x01000000#32, taskFunc ||| 1#32, 0#32, 0#32, 0#32, 0#32, 0#32, param, 0xFFFFFFFD#32] ++ List.replicate 8 0#32

/-- `init_task_stack`. -/
def initTaskStack (stackTop : Nat) (taskFunc param : Word) (m : Mem) : Nat × Mem :=
  (initialWords taskFunc param).foldl push (stackTop, m)

theorem foldl_push (ws : List Word) {a : Nat} (m : Mem) (ha : ws.length ≤ a) :
    ws.foldl push (a, m) =
      (a - ws.length, m.store (a - ws.length) ws.length fun i => ws.getD (ws.length - 1 - i) 0#32) := by
  induction ws generalizing a m with
  | nil =>
    refine Prod.ext rfl (funext fun x => ?_)
    have hnone : m.store a 0 (fun _ => 0#32) x = m x := Mem.store_out (by omega)
    exact hnone.symm
  | cons w ws ih =>
    rw [List.length_cons] at ha
    rw [List.foldl_cons, push, ih _ (by simp only; omega)]
    refine Prod.ext (by simp only [List.length_cons]; omega) (funext fun x => ?_)
    have hsub : a - 1 - ws.length = a - (ws.length + 1) := by omega
    simp only [List.length_cons, Mem.store, hsub]
    by_cases hx : x = a - 1
    · subst hx
      rw [if_neg (by omega), if_pos (by omega), Function.update_self]
      rw [show ws.length + 1 - 1 - (a - 1 - (a - (ws.length + 1))) = 0 by omega]
      rfl
    · rw [Function.update_of_ne hx]
      by_cases hin : a - (ws.length + 1) ≤ x ∧ x < a - (ws.length + 1) + ws.length
      · rw [if_pos hin, if_pos (by omega)]
        rw [show ws.length + 1 - 1 - (x - (a - (ws.length + 1))) =
          ws.length - 1 - (x - (a - (ws.length + 1))) + 1 by omega, List.getD_cons_succ]
      · rw [if_neg hin, if_neg (by omega)]

theorem initTaskStack_eq {stackTop : Nat} (taskFunc param : Word) (m : Mem) (htop : 17 ≤ stackTop) :
    initTaskStack stackTop taskFunc param m = (stackTop - 17, m.store (stackTop - 17) 17 fun i =>
      (initialWords taskFunc param).getD (16 - i) 0#32) :=
  foldl_push (initialWords taskFunc param) m htop

/-! ### `PendSV_Handler` -/

namespace PendSV

/-- What the handler stores, in words. -/
def switchWords (extended : Bool) : Nat := if extended then 25 else 9

/-- `{r4-r11, r14}`. -/
def low (h : Handler) (i : Nat) : Word := if hi : i < 8 then h.high ⟨i, hi⟩ else h.lr

/-- `tst lr, #0x10`, `vstmdbeq r0!, {s16-s31}`, `stmdb r0!, {r4-r11, r14}`: the value of `r0` that goes into
`current_sp`, and the memory. -/
def save (h : Handler) : Nat × Mem :=
  let st := if h.extended then
      (h.psp - 16, h.mem.store (h.psp - 16) 16 fun i => if hi : 16 + i < 32 then h.s ⟨16 + i, hi⟩ else 0#32)
    else (h.psp, h.mem)
  (st.1 - 9, st.2.store (st.1 - 9) 9 (low h))

/-- `ldmia r0!, {r4-r11, r14}`, `tst lr, #0x10`, `vldmiaeq r0!, {s16-s31}`, `msr psp, r0`. -/
def load (currentSp : Nat) (h : Handler) : Handler :=
  let h := { h with high := fun i => h.mem (currentSp + i), lr := h.mem (currentSp + 8) }
  if h.extended then
    { h with
      s := fun i => if 16 ≤ i.1 then h.mem (currentSp + 9 + (i - 16)) else h.s i
      psp := currentSp + 9 + 16 }
  else { h with psp := currentSp + 9 }

end PendSV

/-- The end of the handler, from the first `ldmia` to `bx lr`. -/
def resume (currentSp : Nat) (h : Handler) : Cpu := exceptionReturn (PendSV.load currentSp h)

/-- The thread that a saved stack pointer stands for. -/
def savedThread (currentSp : Nat) (m : Mem) : Thread :=
  (resume currentSp ⟨fun _ => 0, fun _ => 0, 0, 0, 0, m⟩).thread

section
variable {a : Nat} {m m' : Mem} {h : Handler}

theorem load_extended (a : Nat) (h : Handler) : (PendSV.load a h).extended = !(h.mem (a + 8)).getLsbD 4 := by
  unfold PendSV.load Handler.extended
  simp only
  split <;> rfl

theorem load_psp (a : Nat) (h : Handler) :
    (PendSV.load a h).psp = a + PendSV.switchWords (!(h.mem (a + 8)).getLsbD 4) := by
  unfold PendSV.load Handler.extended PendSV.switchWords
  simp only
  split <;> rfl

theorem load_mem (a : Nat) (h : Handler) : (PendSV.load a h).mem = h.mem := by
  unfold PendSV.load
  simp only
  split <;> rfl

theorem load_high (a : Nat) (h : Handler) (i : Fin 8) : (PendSV.load a h).high i = h.mem (a + i) := by
  unfold PendSV.load
  simp only
  split <;> rfl

theorem load_s (a : Nat) (h : Handler) {i : Fin 32} (hi : 16 ≤ i.1) (hx : (h.mem (a + 8)).getLsbD 4 = false) :
    (PendSV.load a h).s i = h.mem (a + 9 + (i - 16)) := by
  unfold PendSV.load Handler.extended
  simp only [hx, Bool.not_false, if_true]
  rw [if_pos hi]

theorem load_lr (a : Nat) (h : Handler) : (PendSV.load a h).lr = h.mem (a + 8) := by
  unfold PendSV.load
  simp only
  split <;> rfl

theorem switchWords_ge (extended : Bool) : 9 ≤ PendSV.switchWords extended := by cases extended <;> decide

theorem savedThread_sp : (savedThread a m).sp = a + PendSV.switchWords (!(m (a + 8)).getLsbD 4) +
    frameWords (!(m (a + 8)).getLsbD 4) +
      if (m (a + PendSV.switchWords (!(m (a + 8)).getLsbD 4) + 7)).getLsbD 9 then 1 else 0 := by
  show (exceptionReturn (PendSV.load a _)).sp = _
  unfold exceptionReturn
  simp only [load_psp, load_extended, load_mem]

/-- The thread is read from the words at its stack pointer, whatever the registers hold. -/
theorem resume_congr {h' : Handler} (hagree : h.mem.Agree a (savedThread a h.mem).sp h'.mem) :
    (resume a h').thread = (resume a h).thread := by
  rw [savedThread_sp] at hagree
  have hge := switchWords_ge (!(h.mem (a + 8)).getLsbD 4)
  have hlr : h'.mem (a + 8) = h.mem (a + 8) := hagree _ (by omega) (by omega)
  refine exceptionReturn_congr (funext fun i => ?_) ?_ ?_ (fun hx i hi => ?_) ?_
  · rw [load_high, load_high]
    exact hagree _ (by omega) (by omega)
  · rw [load_psp, load_psp, hlr]
  · rw [load_lr, load_lr, hlr]
  · rw [load_extended, Bool.not_eq_true'] at hx
    rw [load_s a h hi hx, load_s a h' hi (by rw [hlr]; exact hx)]
    have hwords : PendSV.switchWords (!(h.mem (a + 8)).getLsbD 4) = 25 := by rw [hx]; rfl
    exact hagree _ (by omega) (by omega)
  · rw [load_psp, load_extended, load_mem, load_mem]
    have hle := stackedWords_le (!(h.mem (a + 8)).getLsbD 4)
    exact hagree.mono (by omega) (by omega)

theorem resume_thread (a : Nat) (h : Handler) : (resume a h).thread = savedThread a h.mem := by
  have hsame : ∀ h' : Handler, h'.mem = h.mem → (resume a h).thread = (resume a h').thread := fun h' hmem =>
    resume_congr fun _ _ _ => by rw [hmem]
  exact hsame ⟨fun _ => 0, fun _ => 0, 0, 0, 0, h.mem⟩ rfl

theorem savedThread_congr (hagree : m.Agree a (savedThread a m).sp m') : savedThread a m' = savedThread a m :=
  resume_congr hagree

end

/-! ### What the handler saves comes back -/

section
variable {h : Handler}

theorem save_basic (hx : h.extended = false) :
    PendSV.save h = (h.psp - 9, h.mem.store (h.psp - 9) 9 (PendSV.low h)) := by
  simp [PendSV.save, hx]

theorem save_extended (hx : h.extended = true) : PendSV.save h = (h.psp - 25,
    (h.mem.store (h.psp - 16) 16 fun i => if hi : 16 + i < 32 then h.s ⟨16 + i, hi⟩ else 0#32).store
      (h.psp - 25) 9 (PendSV.low h)) := by
  simp only [PendSV.save, hx, if_true]
  rfl

theorem save_fst (h : Handler) : (PendSV.save h).1 = h.psp - PendSV.switchWords h.extended := by
  cases hx : h.extended with
  | false => rw [save_basic hx]; rfl
  | true => rw [save_extended hx]; rfl

theorem save_agree {lo hi : Nat} (hroom : PendSV.switchWords h.extended ≤ h.psp)
    (hout : hi ≤ (PendSV.save h).1 ∨ h.psp ≤ lo) : h.mem.Agree lo hi (PendSV.save h).2 := by
  intro x hlo hhi
  cases hx : h.extended with
  | false =>
    have hroom' : 9 ≤ h.psp := by rw [hx] at hroom; exact hroom
    rw [save_basic hx] at hout ⊢
    exact Mem.store_out (by omega)
  | true =>
    have hroom' : 25 ≤ h.psp := by rw [hx] at hroom; exact hroom
    rw [save_extended hx] at hout ⊢
    exact (Mem.store_out (by omega)).trans (Mem.store_out (by omega))

theorem save_low {i : Nat} (hi : i < 9) : (PendSV.save h).2 ((PendSV.save h).1 + i) = PendSV.low h i := by
  cases hx : h.extended with
  | false => rw [save_basic hx]; exact Mem.store_in hi
  | true => rw [save_extended hx]; exact Mem.store_in hi

theorem save_s (hx : h.extended = true) (hroom : 25 ≤ h.psp) {i : Nat} (hi : 16 + i < 32) :
    (PendSV.save h).2 ((PendSV.save h).1 + 9 + i) = h.s ⟨16 + i, hi⟩ := by
  rw [save_extended hx]
  simp only
  rw [Mem.store_out (by omega), show h.psp - 25 + 9 + i = h.psp - 16 + i by omega, Mem.store_in (by omega), dif_pos hi]

theorem resume_save (c : Cpu) (m : Mem) (hroom : PendSV.switchWords c.fpca + frameWords c.fpca + 1 ≤ c.sp) :
    savedThread (PendSV.save (exceptionEntry c m)).1 (PendSV.save (exceptionEntry c m)).2 = c.thread := by
  have hadd := c.framePtr_add (by omega)
  have hroom' : PendSV.switchWords c.fpca ≤ c.framePtr := by
    split at hadd <;> omega
  have hext := extended_entry c m
  have hback := exceptionReturn_entry c m (by omega)
  have hpsp : (exceptionEntry c m).psp = c.framePtr := rfl
  generalize exceptionEntry c m = h at hext hback hpsp
  rw [← hext, ← hpsp] at hroom'
  have hfst := save_fst h
  have hsnd : (PendSV.save h).1 + PendSV.switchWords h.extended = h.psp := by omega
  have hlr : (PendSV.save h).2 ((PendSV.save h).1 + 8) = h.lr := save_low (by omega)
  have hexth : (!h.lr.getLsbD 4) = h.extended := rfl
  rw [← hback]
  refine exceptionReturn_congr (funext fun i => ?_) ?_ ?_ (fun hx i hi => ?_) ?_
  · rw [load_high]
    have hlow := save_low (h := h) (i := i) (by omega)
    rw [PendSV.low, dif_pos i.2] at hlow
    exact hlow
  · rw [load_psp]
    simp only
    rw [hlr, hexth]
    exact hsnd
  · rw [load_lr]
    exact hlr
  · rw [load_s _ _ hi (by simp only; rw [hlr]; simpa [Handler.extended] using hx)]
    have hs := save_s hx (i := i - 16) (by rw [hx] at hroom'; exact hroom') (by omega)
    exact hs.trans (congrArg h.s (Fin.ext (by show 16 + (i.1 - 16) = i.1; omega)))
  · rw [load_mem]
    exact save_agree hroom' (Or.inr (le_refl _))

/-! ### New tasks -/

/-- The registers with which a task begins. -/
def initialThread (stackTop : Nat) (taskFunc param : Word) : Thread where
  r i := if i.1 = 0 then param else 0
  lr := 0
  pc := taskFunc ||| 1#32
  xpsr := 0x01000000#32
  sp := stackTop
  fp := none

theorem savedThread_initTaskStack {stackTop : Nat} (taskFunc param : Word) (m : Mem) (htop : 17 ≤ stackTop) :
    savedThread (initTaskStack stackTop taskFunc param m).1 (initTaskStack stackTop taskFunc param m).2 =
      initialThread stackTop taskFunc param := by
  rw [initTaskStack_eq taskFunc param m htop]
  simp only
  generalize hm : m.store (stackTop - 17) 17 (fun i => (initialWords taskFunc param).getD (16 - i) 0#32) = m₁
  have hword : ∀ i, i < 17 → m₁ (stackTop - 17 + i) = (initialWords taskFunc param).getD (16 - i) 0#32 := by
    intro i hi
    rw [← hm]
    exact Mem.store_in hi
  have hlr : m₁ (stackTop - 17 + 8) = 0xFFFFFFFD#32 := hword 8 (by omega)
  have hbasic : (PendSV.load (stackTop - 17) ⟨fun _ => 0, fun _ => 0, 0, 0, 0, m₁⟩).extended = false := by
    rw [load_extended]
    simp only
    rw [hlr]
    decide
  have hpsp : (PendSV.load (stackTop - 17) ⟨fun _ => 0, fun _ => 0, 0, 0, 0, m₁⟩).psp = stackTop - 17 + 9 := by
    rw [load_psp]
    simp only
    rw [hlr]
    rfl
  have hmem := load_mem (stackTop - 17) ⟨fun _ => 0, fun _ => 0, 0, 0, 0, m₁⟩
  have hhigh := load_high (stackTop - 17) ⟨fun _ => 0, fun _ => 0, 0, 0, 0, m₁⟩
  unfold savedThread resume
  generalize PendSV.load (stackTop - 17) ⟨fun _ => 0, fun _ => 0, 0, 0, 0, m₁⟩ = h at hbasic hpsp hmem hhigh
  have hframe : ∀ i, i < 8 → h.mem (h.psp + i) = (initialWords taskFunc param).getD (7 - i) 0#32 := by
    intro i hi
    rw [hpsp, hmem, Nat.add_assoc]
    exact (hword (9 + i) (by omega)).trans (by rw [show 16 - (9 + i) = 7 - i by omega])
  have hr : (exceptionReturn h).r = (initialThread stackTop taskFunc param).r := by
    funext i
    show (if 4 ≤ i.1 ∧ i.1 < 12 then h.high (Fin.ofNat 8 (i - 4)) else h.mem (h.psp + if i.1 < 4 then i.1 else 4)) =
      if i.1 = 0 then param else 0
    fin_cases i
    · exact hframe 0 (by omega)
    · exact hframe 1 (by omega)
    · exact hframe 2 (by omega)
    · exact hframe 3 (by omega)
    all_goals first
      | exact hframe 4 (by omega)
      | exact (hhigh _).trans (hword _ (by decide))
  have hpsr : h.mem (h.psp + 7) = 0x01000000#32 := hframe 7 (by omega)
  have hsp : (exceptionReturn h).sp = stackTop := by
    show h.psp + frameWords h.extended + (if (h.mem (h.psp + 7)).getLsbD 9 then 1 else 0) = stackTop
    rw [hpsr, hbasic, hpsp, if_neg (by decide)]
    show stackTop - 17 + 9 + 8 + 0 = stackTop
    omega
  have hxpsr : (exceptionReturn h).xpsr = 0x01000000#32 := by
    show h.mem (h.psp + 7) &&& ~~~0x200#32 = _
    rw [hpsr]
    decide
  have hlr' : (exceptionReturn h).lr = 0 := hframe 5 (by omega)
  have hpc : (exceptionReturn h).pc = taskFunc ||| 1#32 := hframe 6 (by omega)
  have hfpca : (exceptionReturn h).fpca = false := hbasic
  unfold Cpu.thread
  rw [hr, hlr', hpc, hxpsr, hsp, hfpca]
  rfl

end

end AcRtos
