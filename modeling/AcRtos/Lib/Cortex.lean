import Mathlib

/-!
# Exceptions of an ARMv7-M core with FPU

What the hardware does between a thread and a handler. On exception entry the core pushes a frame on the thread's
stack: eight words, or twenty-six if the thread has a floating-point context (FPCA); the frame is aligned to eight
bytes, and bit 9 of the stacked xPSR tells whether a word of padding lies above it. EXC_RETURN in `lr` tells the two
frames apart by its bit 4. The exception return undoes all this (`exceptionReturn_entry`), also after other code, as
long as the frame is still there and the registers are given back that it does not hold (`exceptionReturn_congr`).

Addresses count words: the stack pointer of such a core is always a multiple of four bytes.
-/

namespace AcRtos.Lib.Cortex

abbrev Word := BitVec 32

/-- Memory by words. -/
abbrev Mem := Nat → Word

/-- The `n` words from `a` on become `ws`. -/
def Mem.store (a n : Nat) (ws : Nat → Word) (m : Mem) : Mem :=
  fun x => if a ≤ x ∧ x < a + n then ws (x - a) else m x

section
variable {a n i x : Nat} {ws : Nat → Word} {ws' : List (Nat × Word)} {m m' : Mem}

theorem Mem.store_in (hi : i < n) : m.store a n ws (a + i) = ws i := by
  rw [Mem.store, if_pos (by omega), Nat.add_sub_cancel_left]

theorem Mem.store_out (hx : x < a ∨ a + n ≤ x) : m.store a n ws x = m x := by
  rw [Mem.store, if_neg (by omega)]

/-- Single words, in order. -/
def Mem.write (ws : List (Nat × Word)) (m : Mem) : Mem := ws.foldl (fun m w => Function.update m w.1 w.2) m

theorem Mem.write_of_ne (hx : ∀ w ∈ ws', w.1 ≠ x) : m.write ws' x = m x := by
  induction ws' generalizing m with
  | nil => rfl
  | cons w ws' ih =>
    have hrest := ih (m := Function.update m w.1 w.2) fun v hv => hx v (List.mem_cons_of_mem _ hv)
    exact hrest.trans (Function.update_of_ne (Ne.symm (hx w List.mem_cons_self)) _ _)

/-- The two memories hold the same words from `lo` up to `hi`. -/
def Mem.Agree (lo hi : Nat) (m m' : Mem) : Prop := ∀ x, lo ≤ x → x < hi → m' x = m x

theorem Mem.Agree.mono {lo hi lo' hi' : Nat} (h : m.Agree lo hi m') (hlo : lo ≤ lo') (hhi : hi' ≤ hi) :
    m.Agree lo' hi' m' :=
  fun x hx hx' => h x (by omega) (by omega)

theorem Mem.Agree.trans {lo hi : Nat} {m'' : Mem} (h : m.Agree lo hi m') (h' : m'.Agree lo hi m'') :
    m.Agree lo hi m'' :=
  fun x hx hx' => (h' x hx hx').trans (h x hx hx')

theorem Mem.agree_write {lo hi : Nat} (h : ∀ w ∈ ws', w.1 < lo ∨ hi ≤ w.1) : m.Agree lo hi (m.write ws') :=
  fun x hx hx' => Mem.write_of_ne fun w hw => by
    have := h w hw
    omega

theorem Mem.agree_store {lo hi : Nat} (h : hi ≤ a ∨ a + n ≤ lo) : m.Agree lo hi (m.store a n ws) :=
  fun _ _ _ => Mem.store_out (by omega)

end

/-! ### Threads -/

/-- The registers of a thread that runs on the process stack. Without FPCA the floating-point registers are nobody's. -/
structure Cpu where
  r : Fin 13 → Word
  lr : Word
  pc : Word
  xpsr : Word
  sp : Nat
  s : Fin 32 → Word
  fpscr : Word
  fpca : Bool
  /-- Bit 9 is no flag of the thread. -/
  xpsr_pad : xpsr.getLsbD 9 = false

/-- What a thread sees of the registers. -/
structure Thread where
  r : Fin 13 → Word
  lr : Word
  pc : Word
  xpsr : Word
  sp : Nat
  fp : Option ((Fin 32 → Word) × Word)

def Cpu.thread (c : Cpu) : Thread where
  r := c.r
  lr := c.lr
  pc := c.pc
  xpsr := c.xpsr
  sp := c.sp
  fp := if c.fpca then some (c.s, c.fpscr) else none

/-- The words of an exception frame. -/
def frameWords (fpca : Bool) : Nat := if fpca then 26 else 8

/-- Those that are written: the last word of the extended frame is reserved. -/
def stackedWords (fpca : Bool) : Nat := if fpca then 25 else 8

theorem stackedWords_le (fpca : Bool) : stackedWords fpca ≤ frameWords fpca := by cases fpca <;> decide

theorem eight_le_stackedWords (fpca : Bool) : 8 ≤ stackedWords fpca := by cases fpca <;> decide

namespace Cpu

variable (c : Cpu)

/-- The frame does not end at the stack pointer: both frames are an even number of words long. -/
def padded : Bool := c.sp % 2 == 1

/-- The new process stack pointer. -/
def framePtr : Nat := (c.sp - frameWords c.fpca) / 2 * 2

def frame : Nat → Word
  | 0 => c.r 0
  | 1 => c.r 1
  | 2 => c.r 2
  | 3 => c.r 3
  | 4 => c.r 12
  | 5 => c.lr
  | 6 => c.pc
  | 7 => if c.padded then c.xpsr ||| 0x200#32 else c.xpsr
  | i => if i < 24 then c.s (Fin.ofNat 32 (i - 8)) else c.fpscr

/-- EXC_RETURN of a thread on the process stack. -/
def excReturn (fpca : Bool) : Word := if fpca then 0xFFFFFFED#32 else 0xFFFFFFFD#32

end Cpu

/-- What a handler finds of the thread it interrupts. -/
structure Handler where
  /-- `r4` to `r11`. -/
  high : Fin 8 → Word
  s : Fin 32 → Word
  fpscr : Word
  lr : Word
  psp : Nat
  mem : Mem

/-- Bit 4 of EXC_RETURN is 0 if the frame is an extended one. -/
def Handler.extended (h : Handler) : Bool := !h.lr.getLsbD 4

def exceptionEntry (c : Cpu) (m : Mem) : Handler where
  high i := c.r (Fin.ofNat 13 (i + 4))
  s := c.s
  fpscr := c.fpscr
  lr := Cpu.excReturn c.fpca
  psp := c.framePtr
  mem := m.store c.framePtr (stackedWords c.fpca) c.frame

def exceptionReturn (h : Handler) : Cpu where
  r i := if 4 ≤ i.1 ∧ i.1 < 12 then h.high (Fin.ofNat 8 (i - 4)) else h.mem (h.psp + if i.1 < 4 then i.1 else 4)
  lr := h.mem (h.psp + 5)
  pc := h.mem (h.psp + 6)
  xpsr := h.mem (h.psp + 7) &&& ~~~0x200#32
  sp := h.psp + frameWords h.extended + if (h.mem (h.psp + 7)).getLsbD 9 then 1 else 0
  s i := if h.extended && decide (i.1 < 16) then h.mem (h.psp + 8 + i.1) else h.s i
  fpscr := if h.extended then h.mem (h.psp + 24) else h.fpscr
  fpca := h.extended
  xpsr_pad := by simp

/-! ### The round trip -/

section
variable {c : Cpu} {h : Handler}

@[simp] theorem extended_entry (c : Cpu) (m : Mem) : (exceptionEntry c m).extended = c.fpca := by
  show (!(Cpu.excReturn c.fpca).getLsbD 4) = c.fpca
  cases c.fpca <;> decide

theorem Cpu.framePtr_add (c : Cpu) (hroom : frameWords c.fpca ≤ c.sp) :
    c.framePtr + frameWords c.fpca + (if c.padded then 1 else 0) = c.sp := by
  have heven : frameWords c.fpca % 2 = 0 := by cases c.fpca <;> rfl
  unfold Cpu.framePtr Cpu.padded
  split <;> simp_all <;> omega

theorem Cpu.framePtr_lt (c : Cpu) (hroom : frameWords c.fpca ≤ c.sp) : c.framePtr + frameWords c.fpca ≤ c.sp := by
  have hadd := c.framePtr_add hroom
  omega

theorem entry_agree {lo hi : Nat} {m : Mem} (hroom : frameWords c.fpca ≤ c.sp)
    (hout : hi ≤ c.framePtr ∨ c.sp ≤ lo) :
    m.Agree lo hi (exceptionEntry c m).mem := by
  have hlt := c.framePtr_lt hroom
  have hle := stackedWords_le c.fpca
  exact Mem.agree_store (by omega)

theorem Cpu.frame_s (c : Cpu) (i : Fin 32) (hi : i.1 < 16) : c.frame (8 + i.1) = c.s i := by
  have heq : c.frame (8 + i.1) = if 8 + i.1 < 24 then c.s (Fin.ofNat 32 (8 + i.1 - 8)) else c.fpscr := by
    rw [Nat.add_comm 8 i.1]
    rfl
  rw [heq, if_pos (by omega), Nat.add_sub_cancel_left]
  exact congrArg c.s (Fin.ofNat_val_eq_self i)

theorem pad_bit {x : Word} (hx : x.getLsbD 9 = false) (p : Bool) :
    (if p then x ||| 0x200#32 else x).getLsbD 9 = p ∧ (if p then x ||| 0x200#32 else x) &&& ~~~0x200#32 = x := by
  have hbit : ∀ i < 32, i ≠ 9 → (0x200#32).getLsbD i = false := by decide
  have hclear : x &&& ~~~0x200#32 = x := by
    ext i hi
    rw [BitVec.getElem_and, BitVec.getElem_not]
    by_cases h9 : i = 9
    · subst h9
      simpa using hx.symm
    · rw [show (0x200#32)[i] = false from hbit i hi h9, Bool.not_false, Bool.and_true]
  cases p with
  | false => exact ⟨hx, hclear⟩
  | true =>
    refine ⟨by simp, ?_⟩
    rw [if_pos rfl, BitVec.and_comm, BitVec.and_or_distrib_left]
    rw [BitVec.and_comm _ x, hclear]
    simp

theorem exceptionReturn_congr {h' : Handler} (hhigh : h'.high = h.high) (hpsp : h'.psp = h.psp) (hlr : h'.lr = h.lr)
    (hs : h.extended = true → ∀ i : Fin 32, 16 ≤ i.1 → h'.s i = h.s i)
    (hmem : h.mem.Agree h.psp (h.psp + stackedWords h.extended) h'.mem) :
    (exceptionReturn h').thread = (exceptionReturn h).thread := by
  have hext : h'.extended = h.extended := by rw [Handler.extended, Handler.extended, hlr]
  have hword : ∀ i, i < stackedWords h.extended → h'.mem (h.psp + i) = h.mem (h.psp + i) := fun i hi =>
    hmem _ (by omega) (by omega)
  have hlow : ∀ i, i < 8 → h'.mem (h.psp + i) = h.mem (h.psp + i) := fun i hi =>
    hword i (lt_of_lt_of_le hi (eight_le_stackedWords _))
  have hr : (exceptionReturn h').r = (exceptionReturn h).r := by
    funext i
    show (if 4 ≤ i.1 ∧ i.1 < 12 then _ else _) = (if 4 ≤ i.1 ∧ i.1 < 12 then _ else _)
    rw [hhigh, hpsp, hlow _ (by split <;> omega)]
  have hfp : (if h'.extended then some ((exceptionReturn h').s, (exceptionReturn h').fpscr) else none) =
      if h.extended then some ((exceptionReturn h).s, (exceptionReturn h).fpscr) else none := by
    rw [hext]
    cases hx : h.extended with
    | false => rfl
    | true =>
      rw [hx] at hword hext
      have hsx : (exceptionReturn h').s = (exceptionReturn h).s := by
        funext i
        show (if h'.extended && decide (i.1 < 16) then h'.mem (h'.psp + 8 + i.1) else h'.s i) =
          if h.extended && decide (i.1 < 16) then h.mem (h.psp + 8 + i.1) else h.s i
        rw [hext, hx, hpsp]
        by_cases hi : i.1 < 16
        · rw [if_pos (by simp [hi]), if_pos (by simp [hi]), Nat.add_assoc]
          exact hword _ (by show 8 + i.1 < 25; omega)
        · rw [if_neg (by simp [hi]), if_neg (by simp [hi])]
          exact hs hx i (by omega)
      have hfpscr : (exceptionReturn h').fpscr = (exceptionReturn h).fpscr := by
        show (if h'.extended then h'.mem (h'.psp + 24) else _) = if h.extended then h.mem (h.psp + 24) else _
        rw [hext, hx, hpsp, if_pos rfl, if_pos rfl]
        exact hword 24 (by decide)
      rw [if_pos rfl, if_pos rfl, hsx, hfpscr]
  have hlr' : (exceptionReturn h').lr = (exceptionReturn h).lr := by
    show h'.mem (h'.psp + 5) = h.mem (h.psp + 5)
    rw [hpsp, hlow 5 (by omega)]
  have hpc : (exceptionReturn h').pc = (exceptionReturn h).pc := by
    show h'.mem (h'.psp + 6) = h.mem (h.psp + 6)
    rw [hpsp, hlow 6 (by omega)]
  have hxpsr : (exceptionReturn h').xpsr = (exceptionReturn h).xpsr := by
    show h'.mem (h'.psp + 7) &&& _ = h.mem (h.psp + 7) &&& _
    rw [hpsp, hlow 7 (by omega)]
  have hsp : (exceptionReturn h').sp = (exceptionReturn h).sp := by
    show h'.psp + frameWords h'.extended + (if (h'.mem (h'.psp + 7)).getLsbD 9 then 1 else 0) =
      h.psp + frameWords h.extended + if (h.mem (h.psp + 7)).getLsbD 9 then 1 else 0
    rw [hpsp, hext, hlow 7 (by omega)]
  unfold Cpu.thread
  rw [hr, hlr', hpc, hxpsr, hsp]
  exact congrArg (Thread.mk _ _ _ _ _) hfp

/-- A handler that touches nothing of the thread returns to the thread as it was. -/
theorem exceptionReturn_entry (c : Cpu) (m : Mem) (hroom : frameWords c.fpca ≤ c.sp) :
    (exceptionReturn (exceptionEntry c m)).thread = c.thread := by
  have hext := extended_entry c m
  have hframe : ∀ i, i < stackedWords c.fpca → (exceptionEntry c m).mem (c.framePtr + i) = c.frame i := fun _ hi =>
    Mem.store_in hi
  have hlow : ∀ i, i < 8 → (exceptionEntry c m).mem (c.framePtr + i) = c.frame i := fun i hi =>
    hframe i (lt_of_lt_of_le hi (eight_le_stackedWords _))
  generalize hh : exceptionEntry c m = h at hext hframe hlow
  have hpsp : h.psp = c.framePtr := by rw [← hh]; rfl
  have hhigh : ∀ i : Fin 8, h.high i = c.r (Fin.ofNat 13 (i + 4)) := by rw [← hh]; exact fun _ => rfl
  have hs : h.s = c.s := by rw [← hh]; rfl
  have hpad := pad_bit c.xpsr_pad c.padded
  have hpsr : h.mem (c.framePtr + 7) = if c.padded then c.xpsr ||| 0x200#32 else c.xpsr := hlow 7 (by omega)
  have hr : (exceptionReturn h).r = c.r := by
    funext i
    show (if 4 ≤ i.1 ∧ i.1 < 12 then h.high (Fin.ofNat 8 (i - 4))
        else h.mem (h.psp + if i.1 < 4 then i.1 else 4)) = c.r i
    rw [hpsp]
    split
    · rename_i hi
      rw [hhigh]
      refine congrArg c.r (Fin.ext ?_)
      simp only [Fin.val_ofNat]
      omega
    · rename_i hi
      rw [hlow _ (by split <;> omega)]
      have : i = 0 ∨ i = 1 ∨ i = 2 ∨ i = 3 ∨ i = 12 := by omega
      rcases this with rfl | rfl | rfl | rfl | rfl <;> rfl
  have hfp : (if h.extended then some ((exceptionReturn h).s, (exceptionReturn h).fpscr) else none) =
      if c.fpca then some (c.s, c.fpscr) else none := by
    rw [hext]
    cases hfpca : c.fpca with
    | false => rfl
    | true =>
      rw [hfpca] at hframe hext
      have hsx : (exceptionReturn h).s = c.s := by
        funext i
        show (if h.extended && decide (i.1 < 16) then h.mem (h.psp + 8 + i.1) else h.s i) = c.s i
        rw [hext, hpsp]
        by_cases hi : i.1 < 16
        · rw [if_pos (by simp [hi]), Nat.add_assoc, hframe _ (by show 8 + i.1 < 25; omega), c.frame_s i hi]
        · rw [if_neg (by simp [hi]), hs]
      have hfpscr : (exceptionReturn h).fpscr = c.fpscr := by
        show (if h.extended then h.mem (h.psp + 24) else h.fpscr) = c.fpscr
        rw [hext, hpsp, if_pos rfl]
        exact hframe 24 (by decide)
      rw [if_pos rfl, if_pos rfl, hsx, hfpscr]
  have hsp : (exceptionReturn h).sp = c.sp := by
    show h.psp + frameWords h.extended + (if (h.mem (h.psp + 7)).getLsbD 9 then 1 else 0) = c.sp
    rw [hpsp, hext, hpsr, hpad.1]
    exact c.framePtr_add hroom
  have hxpsr : (exceptionReturn h).xpsr = c.xpsr := by
    show h.mem (h.psp + 7) &&& ~~~0x200#32 = c.xpsr
    rw [hpsp, hpsr]
    exact hpad.2
  have hlr : (exceptionReturn h).lr = c.lr := by
    show h.mem (h.psp + 5) = c.lr
    rw [hpsp]
    exact hlow 5 (by omega)
  have hpc : (exceptionReturn h).pc = c.pc := by
    show h.mem (h.psp + 6) = c.pc
    rw [hpsp]
    exact hlow 6 (by omega)
  unfold Cpu.thread
  rw [hr, hlr, hpc, hxpsr, hsp]
  exact congrArg (Thread.mk _ _ _ _ _) hfp

end

end AcRtos.Lib.Cortex
