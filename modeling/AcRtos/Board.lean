import AcRtos.Port
import AcRtos.Replay
import AcRtos.Stacks

/-!
# The board

The machine with the registers of the CPU, the memory that holds the stacks, and PRIMASK. The running code may change
its registers and write memory as it likes (`BoardEvent.exec`); interrupts push a frame on the stack of the running
task; PendSV is the handler of `port_asm.s`, with `current_sp` as the only word between it and the kernel. While
`main()` runs, `cpu.sp` is the process stack pointer, which `main()` does not use.

`Board.Behaves` is what the port expects of the code around it: nobody writes below the stack pointer of a task that
does not run, or over a canary, the running task has room for the frames that an interrupt pushes, and no handler asks
for a context switch before `start()` has cleared the process stack pointer.
-/

namespace AcRtos

open Lib.Cortex

/-- `saved` are the `primask_` members of the open user critical sections, the innermost first. -/
structure Board where
  sys : Sys
  cpu : Cpu
  mem : Mem
  primask : Bool
  saved : List Bool

/-- What happens on the board; `ws` are the words that the code writes meanwhile. -/
inductive BoardEvent
  | exec (cpu : Cpu) (ws : List (Nat × Word))
  | call (c : Call) (ws : List (Nat × Word))
  | advance
  | tick (ws : List (Nat × Word))
  | isr (c : IsrCall) (yield : Bool) (ws : List (Nat × Word))
  | pendSV

/-- The address that a saved stack pointer stands for. -/
def Layout.addr (L : Layout) : Sp → Nat
  | .null => 0
  | .initial x => L.stackTop x - 17
  | .psp a => a

/-- What a step of `create_task` writes into the site's storage. -/
def Layout.place (L : Layout) : Pc → Mem → Mem
  | .create .copy x f _, m => m.store (L.stackTop x) ((L.size x + 3) / 4) (L.image f)
  | .create (.init _) x _ _, m =>
      (initTaskStack (L.stackTop x) (L.trampoline x) (BitVec.ofNat 32 (L.callableAddr x))
        (Function.update m (L.base x) kStackCanary)).2
  | _, m => m

namespace Board

variable (L : Layout) (b : Board)

/-- The next step of the running context. -/
def pc : Pc := b.sys.pc b.sys.k.self

/-- Exception entry. The frame of `main()` goes to the main stack. -/
def entry : Handler :=
  if b.sys.k.currentTask.isSome then exceptionEntry b.cpu b.mem
  else { exceptionEntry b.cpu b.mem with psp := b.cpu.sp, mem := b.mem }

/-- An interrupt handler, on the main stack, and its exception return. -/
def interrupt (ws : List (Nat × Word)) (sys : Sys) : Board :=
  let h := { b.entry with mem := b.entry.mem.write ws }
  { b with sys, cpu := if b.sys.k.currentTask.isSome then exceptionReturn h else b.cpu, mem := h.mem }

/-- `enter_critical()` and `exit_critical()` of a `CriticalSection` of the application. -/
def mask (c : Call) : Board :=
  match c with
  | .enterCritical => { b with primask := true, saved := b.primask :: b.saved }
  | .exitCritical => { b with primask := b.saved.headD b.primask, saved := b.saved.tail }
  | _ => b

/-- What PendSV leaves in `current_sp` and in memory; with PSP = 0 there is nothing to save. -/
def outgoing : Nat × Mem :=
  if b.entry.psp = 0 then (0, b.entry.mem) else PendSV.save b.entry

def step : BoardEvent → Option Board
  | .exec cpu ws => if b.sys.k.fault.isSome then none else some { b with cpu, mem := b.mem.write ws }
  | .call c ws => (b.sys.step (.call c)).map fun sys => { b.mask c with sys, mem := b.mem.write ws }
  | .advance => (b.sys.step .advance).map fun sys =>
      { b with
        sys
        -- `msr psp, r0` in `start_hardware_and_yield`
        cpu := if b.pc = .startYield then { b.cpu with sp := 0 } else b.cpu
        mem := L.place b.pc b.mem }
  | .tick ws => if b.primask then none else (b.sys.step .tick).map (b.interrupt ws)
  | .isr c yield ws => if b.primask then none else (b.sys.step (.isr c yield)).map (b.interrupt ws)
  | .pendSV =>
      if b.primask then none
      else (b.sys.step (.pendSV b.outgoing.1)).map fun sys =>
        { b with
          sys
          cpu := resume (L.addr sys.k.currentSp) { b.entry with mem := b.outgoing.2 }
          mem := b.outgoing.2
          primask := false }

def run : List BoardEvent → Board → Option Board
  | [], b => some b
  | e :: es, b =>
      match b.step L e with
      | some b' => run es b'
      | none => none

/-- Every step of the events is as `good` says. -/
def Each (good : Board → BoardEvent → Prop) : List BoardEvent → Board → Prop
  | [], _ => True
  | e :: es, b => good b e ∧ ∀ b', b.step L e = some b' → Each good es b'

def init (config : Config) (cpu : Cpu) (mem : Mem) : Board where
  sys := Sys.init config
  cpu := cpu
  mem := mem
  primask := false
  saved := []

/-! ### The rules -/

/-- The thread of a task that does not run. -/
def thread (t : Tid) : Thread := savedThread (L.addr (b.sys.k.tcb t).sp) b.mem

/-- The address is no canary, and no task that does not run needs what is there. -/
def Spares (a : Nat) : Prop := ∀ t < b.sys.k.taskCount, ∀ x ∈ (b.sys.k.tcb t).stackBase,
  a ≠ L.base x ∧ (b.sys.k.currentTask ≠ some t → a < L.base x ∨ (b.thread L t).sp ≤ a)

/-- The running task has the words that `P` asks for, counted from its stack. -/
def Within (P : Site → Prop) : Prop := ∀ t ∈ b.sys.k.currentTask, ∀ x ∈ (b.sys.k.tcb t).stackBase, P x

/-- Room for `n` words and the padding of a frame, above the canary. -/
def Room (n : Nat) : Prop := b.Within fun x => L.base x + n + 2 ≤ b.cpu.sp

def Behaves : BoardEvent → Prop
  | .exec cpu ws => (∀ w ∈ ws, b.Spares L w.1) ∧ (b.Within fun x => cpu.sp ≤ L.top x) ∧
      (b.sys.k.currentTask = none → cpu.sp = b.cpu.sp)
  | .call _ ws => ∀ w ∈ ws, b.Spares L w.1
  | .advance => True
  | .tick ws | .isr _ _ ws => b.Room L (frameWords b.cpu.fpca) ∧
      ∀ w ∈ ws, b.Spares L w.1 ∧ b.Within fun x => w.1 < L.base x ∨ b.cpu.sp ≤ w.1
  | .pendSV => b.Room L (PendSV.switchWords b.cpu.fpca + frameWords b.cpu.fpca) ∧
      (b.sys.k.currentTask = none → b.sys.pc .main = .halted)

/-- The running task keeps its stack pointer above the canary and below the callable. -/
def Keeps : BoardEvent → Prop
  | .exec cpu _ => b.Within fun x => L.base x < cpu.sp ∧ cpu.sp ≤ L.stackTop x
  | _ => True

/-- Nor does a call of `create_task` overtake another one of its site. -/
def Good (e : BoardEvent) : Prop := b.Behaves L e ∧ (e = .advance → ¬ b.sys.Reflags .advance)

instance (a : Nat) : Decidable (b.Spares L a) := inferInstanceAs (Decidable (∀ _ < _, _))

instance (P : Site → Prop) [DecidablePred P] : Decidable (b.Within P) :=
  inferInstanceAs (Decidable (∀ _ ∈ _, _))

instance (n : Nat) : Decidable (b.Room L n) := inferInstanceAs (Decidable (b.Within _))

instance (e : BoardEvent) : Decidable (b.Behaves L e) := by
  cases e <;> unfold Behaves <;> infer_instance

instance (e : BoardEvent) : Decidable (b.Keeps L e) := by
  cases e <;> unfold Keeps <;> infer_instance

instance (e : BoardEvent) : Decidable (b.Good L e) :=
  match e with
  | .advance => decidable_of_iff (b.Behaves L .advance ∧ ¬ b.sys.Reflags .advance) (and_congr_right' (by simp))
  | .exec cpu ws => decidable_of_iff (b.Behaves L (.exec cpu ws)) (by simp [Good])
  | .call c ws => decidable_of_iff (b.Behaves L (.call c ws)) (by simp [Good])
  | .tick ws => decidable_of_iff (b.Behaves L (.tick ws)) (by simp [Good])
  | .isr c yield ws => decidable_of_iff (b.Behaves L (.isr c yield ws)) (by simp [Good])
  | .pendSV => decidable_of_iff (b.Behaves L .pendSV) (by simp [Good])

/-- On a given run it can be decided whether every step is good. -/
instance decidableEach (good : Board → BoardEvent → Prop) [∀ b e, Decidable (good b e)] :
    (es : List BoardEvent) → (b : Board) → Decidable (b.Each L good es)
  | [], _ => isTrue trivial
  | e :: es, b =>
    match h : b.step L e with
    | none => decidable_of_iff (good b e) ⟨fun hg => ⟨hg, fun b' hs => by rw [h] at hs; cases hs⟩, And.left⟩
    | some b₁ =>
      have := decidableEach good es b₁
      decidable_of_iff (good b e ∧ b₁.Each L good es)
        ⟨fun hg => ⟨hg.1, fun b' hs => Option.some.inj (h.symm.trans hs) ▸ hg.2⟩,
          fun hg => ⟨hg.1, hg.2 b₁ h⟩⟩

end Board

end AcRtos
