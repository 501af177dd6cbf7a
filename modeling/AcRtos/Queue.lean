import AcRtos.Ipc

/-!
# Queues

The critical sections of `QueueCore` (`queue.cpp`). Items are byte strings; a `void*` to an item is the
context whose local buffer it points to (`Core.frame`), and the ring is flat byte storage indexed by
`item_size_ * index`.
-/

namespace AcRtos

open Scheduler WaitQueue

/-- `memcpy(storage + offset, src, size)`. -/
def storeBytes (storage : Nat → UInt8) (offset size : Nat) (src : Item) : Nat → UInt8 :=
  fun i => if offset ≤ i ∧ i < offset + size then src.getD (i - offset) 0 else storage i

/-- The bytes `memcpy(dst, storage + offset, size)` copies out. -/
def loadBytes (storage : Nat → UInt8) (offset size : Nat) : Item :=
  (List.range size).map fun i => storage (offset + i)

/-- `memcpy` between two item buffers. -/
def copyBytes (size : Nat) (src : Item) : Item := (List.range size).map fun i => src.getD i 0

namespace Ring

/-- `QueueCore::push_raw`. -/
def pushRaw (itemSize capacity : Nat) (item : Item) (r : Ring) : Ring :=
  { r with
    storage := storeBytes r.storage (itemSize * r.tail) itemSize item
    tail := if r.tail + 1 = capacity then 0 else r.tail + 1
    count := r.count + 1 }

/-- `QueueCore::pop_raw`: the item copied out and the ring. -/
def popRaw (itemSize capacity : Nat) (r : Ring) : Item × Ring :=
  (loadBytes r.storage (itemSize * r.head) itemSize,
    { r with
      head := if r.head + 1 = capacity then 0 else r.head + 1
      count := r.count - 1 })

end Ring

namespace QueueCore

/-- `push_raw(item)`, where `item` points to the buffer of `p`. -/
def pushFrom (q : QueueId) (p : Ctx) (e : Core) : Core :=
  let item := (e.frame p).item
  let e := e.setRing q ((e.ring q).pushRaw (e.config.itemSize q) (e.config.capacity q) item)
  e.emit (.accept q p (copyBytes (e.config.itemSize q) item))

/-- `pop_raw(out)`, where `out` points to the buffer of `p`. -/
def popTo (q : QueueId) (p : Ctx) (e : Core) : Core :=
  let r := (e.ring q).popRaw (e.config.itemSize q) (e.config.capacity q)
  ((e.setRing q r.2).setFrame p fun f => { f with item := r.1 }).emit (.deliver q p r.1)

/-- `memcpy(receiver->xfer_ptr, item, item_size_)`. -/
def handOver (q : QueueId) (p : Ctx) (receiver : Tid) (e : Core) : Core :=
  match (e.tcb receiver).xferPtr with
  | none => e.fail .nullDeref
  | some out =>
      let item := copyBytes (e.config.itemSize q) (e.frame p).item
      ((e.setFrame out fun f => { f with item := item }).emit (.accept q p item)).emit
        (.deliver q out item)

/-- `push_raw(sender->xfer_ptr)`. -/
def pushOf (q : QueueId) (sender : Tid) (e : Core) : Core :=
  match (e.tcb sender).xferPtr with
  | none => e.fail .nullDeref
  | some item => pushFrom q item e

/-- `QueueCore::try_send_locked`; `item` points to the buffer of `p`. The two results are the return value
and `should_yield`. -/
def trySendLocked (q : QueueId) (p : Ctx) (k : Kernel) : (Bool × Bool) × Kernel :=
  let r := wakeHighest (.receivers q) k
  let k := r.2
  match r.1 with
  | some receiver =>
      let k := k.check .handoffNotEmpty (decide ((k.ring q).count = 0))
      let m := makeTaskReady receiver (k.core (handOver q p receiver))
      ((true, m.1), m.2)
  | none =>
      if (k.ring q).count < k.config.capacity q then ((true, false), k.core (pushFrom q p))
      else ((false, false), k)

/-- The back-fill in `try_receive_locked`: the first parked sender's item enters the freed slot. -/
def backFill (q : QueueId) (k : Kernel) : Bool × Kernel :=
  let r := wakeHighest (.senders q) k
  let k := r.2
  match r.1 with
  | none => (false, k)
  | some sender => makeTaskReady sender (k.core (pushOf q sender))

/-- `QueueCore::try_receive_locked`. -/
def tryReceiveLocked (q : QueueId) (p : Ctx) (k : Kernel) : (Bool × Bool) × Kernel :=
  if (k.ring q).count = 0 then ((false, false), k)
  else
    let r := backFill q (k.core (popTo q p))
    ((true, r.1), r.2)

/-- `QueueCore::block_current_locked`: the parked task, or `none`. -/
def blockCurrentLocked (w : WaitId) (xfer : Ctx) (timeoutMs : TickType) (k : Kernel) :
    Option Tid × Kernel :=
  match k.currentTask with
  | none => (none, k.check .queueBeforeStart false)
  | some task =>
      let k := k.setTask task fun c => { c with xferPtr := some xfer, timeoutExpired := false }
      (some task, startTimeout task timeoutMs (park w task k))

/-- The part of `send` and `receive` after the attempt: return, or block on `wait`. -/
def sendOrBlock (wait : Wait) (timeoutMs : TickType) (r : (Bool × Bool) × Kernel) : Outcome × Kernel :=
  if r.1.1 then (.ret (.bool true) r.1.2, r.2)
  else if timeoutMs = 0 then (.ret (.bool false) false, r.2)
  else
    let b := blockCurrentLocked wait.list r.2.self timeoutMs r.2
    match b.1 with
    | none => (.ret (.bool false) false, b.2)
    | some _ => (.wait wait, b.2)

/-- `QueueCore::send`; the item is in the caller's buffer. -/
def send (q : QueueId) (timeoutMs : TickType) (k : Kernel) : Outcome × Kernel :=
  sendOrBlock (.send q) timeoutMs (trySendLocked q k.self k)

/-- `QueueCore::receive`; the item is copied to the caller's buffer. -/
def receive (q : QueueId) (timeoutMs : TickType) (k : Kernel) : Outcome × Kernel :=
  sendOrBlock (.receive q) timeoutMs (tryReceiveLocked q k.self k)

/-- `QueueCore::send_from_isr`. -/
def sendFromIsr (q : QueueId) (k : Kernel) : (Bool × Bool) × Kernel := trySendLocked q .isr k

/-- `QueueCore::receive_from_isr`. -/
def receiveFromIsr (q : QueueId) (k : Kernel) : (Bool × Bool) × Kernel := tryReceiveLocked q .isr k

end QueueCore

end AcRtos
