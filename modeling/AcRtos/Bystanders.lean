import AcRtos.Records

/-!
# What a visit does to the contexts it is not made for

A visit writes into the history for the context that makes it, and for the waiters that it serves; so a context
that neither makes the visit nor waits finds its part of the history, its buffer and its mutexes as they were.
A waiter may be served (`.hand`, `.pass`) or thrown out (`.expire`, `.retire`), and `WaitStep` says which.
-/

namespace AcRtos

open Abs AcRtos.Core

/-! ### Entries -/

/-- The entries that a data operation writes. -/
def DataOp.entries (e : Core) : DataOp → List Obs
  | .mark o => [o]
  | .takeToken s c => [.semTake s c]
  | .addToken s => [.semGive s]
  | .dropToken s => [.semDrop s]
  | .pushFrom q p => [.accept q p (copyBytes (e.config.itemSize q) (e.frame p).item)]
  | .popTo q p => [.deliver q p ((e.ring q).popRaw (e.config.itemSize q) (e.config.capacity q)).1]
  | .consume g c mask clear =>
      [.bitsRead g c (e.currentBits g) (if clear then e.currentBits g &&& ~~~mask else e.currentBits g)]
  | .addBits g mask => [.bitsSet g mask]
  | .dropBits g mask => [.bitsClear g mask]
  | _ => []

namespace Handing

/-- The entry of a handing that belongs to the waiter `t`. -/
def gift (t : Tid) (e : Core) : Handing → Obs
  | .token s => .semHand s t
  | .item q p => .deliver q (.task t) (copyBytes (e.config.itemSize q) (e.frame p).item)
  | .slot q p => .accept q (.task t)
      (copyBytes (e.config.itemSize q) ((QueueCore.popTo q p e).frame (.task t)).item)
  | .bits g => .bitsRead g (.task t) (e.currentBits g)
      (if (e.tcb t).eventClearOnExit then e.currentBits g &&& ~~~(e.tcb t).eventWaitMask else e.currentBits g)

/-- The entry of a handing that belongs to the context that serves. -/
def cost (e : Core) : Handing → List Obs
  | .item q p => [.accept q p (copyBytes (e.config.itemSize q) (e.frame p).item)]
  | .slot q p => [.deliver q p ((e.ring q).popRaw (e.config.itemSize q) (e.config.capacity q)).1]
  | _ => []

end Handing

def Action.entries (a : Abs) : Action → List Obs
  | .data d => d.entries a.toCore
  | .hand hd t => hd.cost a.toCore ++ [hd.gift t a.toCore]
  | _ => []

namespace Handing

variable {e : Core} {t : Tid} {q : QueueId} {p : Ctx} {g : EventId}

theorem run_item (hx : (e.tcb t).xferPtr = some (.task t)) : (Handing.item q p).run t e =
    ((e.setFrame (.task t) fun f =>
        { f with item := copyBytes (e.config.itemSize q) (e.frame p).item }).emit
      (.accept q p (copyBytes (e.config.itemSize q) (e.frame p).item))).emit
      (.deliver q (.task t) (copyBytes (e.config.itemSize q) (e.frame p).item)) := by
  simp only [Handing.run, QueueCore.handOver, hx]

theorem run_slot (hx : (e.tcb t).xferPtr = some (.task t)) :
    (Handing.slot q p).run t e = QueueCore.pushFrom q (.task t) (QueueCore.popTo q p e) := by
  have hx' : ((QueueCore.popTo q p e).tcb t).xferPtr = some (.task t) := hx
  simp only [Handing.run, QueueCore.pushOf, hx']

theorem run_bits (hx : (e.tcb t).xferPtr = some (.task t)) : (Handing.bits g).run t e =
    (EventGroup.consume g (.task t) (e.tcb t).eventWaitMask (e.tcb t).eventClearOnExit e).setFrame (.task t)
      fun f => { f with bits := e.currentBits g } := by
  have hx' : ((EventGroup.consume g (.task t) (e.tcb t).eventWaitMask (e.tcb t).eventClearOnExit e).tcb t).xferPtr =
      some (.task t) := by
    rw [(alike_consume g (.task t) _ _ e).tcb, hx]
  simp only [Handing.run, EventGroup.satisfy, EventGroup.report, hx']

theorem consume_trace (g : EventId) (c : Ctx) (mask : BitVec 32) (clear : Bool) (e : Core) :
    (EventGroup.consume g c mask clear e).trace = e.trace ++ [.bitsRead g c (e.currentBits g)
      (if clear then e.currentBits g &&& ~~~mask else e.currentBits g)] ∧
    (EventGroup.consume g c mask clear e).frame = e.frame := by
  cases clear with
  | true => exact ⟨by simp [EventGroup.consume], rfl⟩
  | false => exact ⟨rfl, rfl⟩

theorem run_trace (hd : Handing) (hx : hd.list.transfers = true → (e.tcb t).xferPtr = some (.task t)) :
    (hd.run t e).trace = e.trace ++ (hd.cost e ++ [hd.gift t e]) := by
  cases hd with
  | token s => rfl
  | item q p =>
    rw [run_item (hx rfl)]
    simp [cost, gift]
  | slot q p =>
    rw [run_slot (hx rfl)]
    exact List.append_assoc _ _ _
  | bits g =>
    rw [run_bits (hx rfl)]
    exact (consume_trace _ _ _ _ _).1

theorem run_frame (hd : Handing) (hx : hd.list.transfers = true → (e.tcb t).xferPtr = some (.task t)) {u c : Ctx}
    (hu : u ≠ .task t) (hc : u ≠ c) (hp : ∀ q p, hd = .slot q p → p = c) :
    (hd.run t e).frame u = e.frame u := by
  cases hd with
  | token s => rfl
  | item q p =>
    rw [run_item (hx rfl)]
    simp [Function.update_of_ne hu]
  | slot q p =>
    rw [run_slot (hx rfl), hp q p rfl]
    simp [QueueCore.pushFrom, QueueCore.popTo, Function.update_of_ne hc]
  | bits g =>
    rw [run_bits (hx rfl)]
    simp [(consume_trace g (.task t) _ _ e).2, Function.update_of_ne hu]

end Handing

namespace Abs

variable {v : Visit} {a : Abs} {act : Action} {u : Ctx} {t : Tid} {m : MutexId}

theorem Starved.handed (h : a.Starved) (hwf : a.WF) {hd : Handing} (he : hd.Enabled a t)
    (htr : hd.list.transfers = true) : (a.tcb t).xferPtr = some (.task t) :=
  h.xfer t _ (hwf.mem_wait.mp (Handing.Enabled.mem he)).2 htr

theorem apply_trace (hwf : a.WF) (hs : a.Starved) (he : act.Enabled a) :
    (act.apply a).trace = a.trace ++ act.entries a := by
  by_cases hdata : ∃ d, act = .data d
  · obtain ⟨d, rfl⟩ := hdata
    cases d with
    | quiet e => exact he.trace.trans (List.append_nil _).symm
    | consume g c mask clear => exact (Handing.consume_trace g c mask clear _).1
    | frame c f => exact (List.append_nil _).symm
    | tick => exact (List.append_nil _).symm
    | setFlag x => exact (List.append_nil _).symm
    | start => exact (List.append_nil _).symm
    | _ => rfl
  by_cases hhand : ∃ hd t, act = .hand hd t
  · obtain ⟨hd, t, rfl⟩ := hhand
    exact hd.run_trace (hs.handed hwf he)
  · have hsame := (apply_objects (a := a) act (fun d h => hdata ⟨d, h⟩) fun x y h => hhand ⟨x, y, h⟩).2.2.2.2
    rw [hsame]
    cases act with
    | data d => exact absurd ⟨d, rfl⟩ hdata
    | hand x y => exact absurd ⟨x, y, rfl⟩ hhand
    | _ => exact (List.append_nil _).symm

/-! ### The history and the buffer of a bystander -/

theorem entries_ctx {d : DataOp} (he : d.Enabled a) (hf : d.Fits v a) {o : Obs} (ho : o ∈ d.entries a.toCore)
    {c : Ctx} (hc : o.ctx = some c) : c = v.ctx := by
  have hone : ∀ {o' : Obs} {c' : Ctx}, o ∈ [o'] → o'.ctx = some c' → c' = v.ctx → c = v.ctx := by
    intro o' c' hmem hctx heq
    rw [List.mem_singleton.mp hmem, hctx] at hc
    exact (Option.some.inj hc).symm.trans heq
  have hnone : ∀ {o' : Obs}, o ∈ [o'] → o'.ctx = none → c = v.ctx := by
    intro o' hmem hctx
    rw [List.mem_singleton.mp hmem, hctx] at hc
    cases hc
  cases d with
  | mark o' =>
    cases o' with
    | call c' x => exact hone ho rfl hf
    | ret c' r => exact hone ho rfl hf
    | isrCall x => exact hone ho rfl (Eq.symm hf)
    | _ => cases he
  | takeToken s c' => exact hone ho rfl hf
  | pushFrom q p => exact hone ho rfl hf
  | popTo q p => exact hone ho rfl hf
  | consume g c' mask clear => exact hone ho rfl hf
  | addToken s => exact hnone ho rfl
  | dropToken s => exact hnone ho rfl
  | addBits g mask => exact hnone ho rfl
  | dropBits g mask => exact hnone ho rfl
  | _ => cases ho

theorem gift_ctx (hd : Handing) (t : Tid) (e : Core) :
    (hd.gift t e).ctx = some (.task t) ∧ (hd.gift t e).isMark = false := by
  cases hd <;> exact ⟨rfl, rfl⟩

theorem cost_ctx {hd : Handing} (hf : hd.Fits v) {e : Core} {o : Obs} (ho : o ∈ hd.cost e) :
    o.ctx = some v.ctx ∧ o.isMark = false := by
  cases hd with
  | item q p =>
    obtain rfl : p = v.ctx := hf
    rw [List.mem_singleton.mp ho]
    exact ⟨rfl, rfl⟩
  | slot q p =>
    obtain rfl : p = v.ctx := hf
    rw [List.mem_singleton.mp ho]
    exact ⟨rfl, rfl⟩
  | _ => cases ho

theorem talk_apply (hwf : a.WF) (hs : a.Starved) (he : act.Enabled a) (hf : act.Fits v a) (hu : u ≠ v.ctx)
    (hserved : ∀ hd t, act = .hand hd t → u ≠ .task t) : talk u (act.apply a).trace = talk u a.trace := by
  rw [apply_trace hwf hs he]
  refine talk_append_of_ne fun o ho hctx => ?_
  cases act with
  | data d => exact hu (entries_ctx he hf ho hctx)
  | hand hd t =>
    rcases List.mem_append.mp ho with ho | ho
    · rw [(cost_ctx hf.1 ho).1] at hctx
      exact hu (Option.some.inj hctx).symm
    · rw [List.mem_singleton.mp ho, (gift_ctx hd t a.toCore).1] at hctx
      exact hserved hd t rfl (Option.some.inj hctx).symm
  | _ => cases ho

theorem talk_hand (hwf : a.WF) (hs : a.Starved) {hd : Handing} (he : (Action.hand hd t).Enabled a)
    (hf : (Action.hand hd t).Fits v a) (hu : v.ctx ≠ .task t) :
    talk (.task t) ((Action.hand hd t).apply a).trace = (talk (.task t) a.trace).add [hd.gift t a.toCore] := by
  rw [apply_trace hwf hs he]
  show talk (.task t) (a.trace ++ (hd.cost a.toCore ++ [hd.gift t a.toCore])) = _
  rw [← List.append_assoc, talk_append_add, talk_append_of_ne]
  · simp [(gift_ctx hd t a.toCore).1]
  · intro o ho hctx
    rw [(cost_ctx hf.1 ho).1] at hctx
    exact hu (Option.some.inj hctx)
  · intro o ho _
    rw [List.mem_singleton.mp ho]
    exact (gift_ctx hd t a.toCore).2

theorem frame_apply (hwf : a.WF) (hs : a.Starved) (he : act.Enabled a) (hf : act.Fits v a) (hu : u ≠ v.ctx)
    (hserved : ∀ hd t, act = .hand hd t → u ≠ .task t) : (act.apply a).frame u = a.frame u := by
  by_cases hdata : ∃ d, act = .data d
  · obtain ⟨d, rfl⟩ := hdata
    cases d with
    | frame c f =>
      obtain rfl : c = v.ctx := hf
      exact Function.update_of_ne hu _ _
    | popTo q p =>
      obtain rfl : p = v.ctx := hf
      exact Function.update_of_ne hu _ _
    | quiet e => exact congrFun he.frame u
    | consume g c mask clear => exact congrFun (Handing.consume_trace g c mask clear a.toCore).2 u
    | _ => rfl
  by_cases hhand : ∃ hd t, act = .hand hd t
  · obtain ⟨hd, t, rfl⟩ := hhand
    refine hd.run_frame (hs.handed hwf he) (hserved hd t rfl) hu fun q p heq => ?_
    subst heq
    exact hf.1
  · exact congrFun (apply_objects (a := a) act (fun d h => hdata ⟨d, h⟩)
      fun x y h => hhand ⟨x, y, h⟩).2.2.2.1 u

/-! ### Its mutexes and its wait -/

theorem owner_apply_of_eq (he : act.Enabled a) (hf : act.Fits v a) (ho : a.owner m = some t) (ht : v.ctx ≠ .task t) :
    (act.apply a).owner m = some t := by
  rw [apply_owner he]
  have hsome : ∀ {x u new}, v.ctx = .task u → a.owner x = some u → Function.update a.owner x new m = some t := by
    intro x u new hv hx
    by_cases hm : m = x
    · subst hm
      rw [ho] at hx
      cases hx
      exact absurd hv ht
    · rw [Function.update_of_ne hm, ho]
  cases act with
  | acquire x u =>
    by_cases hm : m = x
    · subst hm
      rw [he.1] at ho
      cases ho
    · simp only [Action.owner, Function.update_of_ne hm, ho]
  | release x u => exact hsome hf.1 he.1
  | pass x u next => exact hsome hf.1 he.1
  | _ => exact ho

theorem owner_apply_of_ne (he : act.Enabled a) (hf : act.Fits v a) (ho : a.owner m ≠ some t) (ht : v.ctx ≠ .task t)
    (hpass : ∀ o, act ≠ .pass m o t) : (act.apply a).owner m ≠ some t := by
  rw [apply_owner he]
  cases act with
  | acquire x u =>
    by_cases hm : m = x
    · subst hm
      simp only [Action.owner, Function.update_self]
      rintro ⟨⟩
      exact ht hf.1
    · simp only [Action.owner, Function.update_of_ne hm]
      exact ho
  | release x u =>
    by_cases hm : m = x
    · subst hm
      simp [Action.owner]
    · simp only [Action.owner, Function.update_of_ne hm]
      exact ho
  | pass x u next =>
    by_cases hm : m = x
    · subst hm
      simp only [Action.owner, Function.update_self]
      rintro ⟨⟩
      exact hpass u rfl
    · simp only [Action.owner, Function.update_of_ne hm]
      exact ho
  | _ => exact ho

theorem free_apply (hwf : a.WF) (he : act.Enabled a) (hf : act.Fits v a) (hu : u ≠ v.ctx) (hfree : a.Free u) :
    (act.apply a).Free u := by
  rintro t rfl
  by_contra hne
  obtain ⟨w, hw⟩ := Option.ne_none_iff_exists'.mp hne
  rcases waitList_apply hwf he hw with hw | ⟨W, timeout, rfl, -⟩
  · rw [hfree t rfl] at hw
    cases hw
  · exact hu hf.1.symm

/-- What becomes of the wait of a task that does not make the visit. -/
inductive WaitStep (a : Abs) (t : Tid) (act : Action) : TaskControlBlock → Prop
  | same {c : TaskControlBlock} (hw : c.waitList = (a.tcb t).waitList)
      (hexpired : c.timeoutExpired = (a.tcb t).timeoutExpired) (hhand : ∀ hd, act ≠ .hand hd t)
      (hpass : ∀ m o, act ≠ .pass m o t) : WaitStep a t act c
  | fail {c : TaskControlBlock} (hwas : (a.tcb t).waitList ≠ none) (hw : c.waitList = none)
      (hexpired : c.timeoutExpired = true) (hhand : ∀ hd, act ≠ .hand hd t)
      (hpass : ∀ m o, act ≠ .pass m o t) : WaitStep a t act c
  | hand {c : TaskControlBlock} (hd : Handing) (hact : act = .hand hd t) (hw : c.waitList = none)
      (hexpired : c.timeoutExpired = (a.tcb t).timeoutExpired) : WaitStep a t act c
  | pass {c : TaskControlBlock} (m : MutexId) (o : Tid) (hact : act = .pass m o t) (hw : c.waitList = none)
      (hexpired : c.timeoutExpired = (a.tcb t).timeoutExpired) : WaitStep a t act c

theorem waitStep_unparked {c : TaskControlBlock} (hhand : ∀ hd, act ≠ .hand hd t)
    (hpass : ∀ m o, act ≠ .pass m o t)
    (hw : c.waitList = ((a.tcb t).unparked).waitList)
    (hexpired : c.timeoutExpired = ((a.tcb t).unparked).timeoutExpired) : a.WaitStep t act c := by
  unfold TaskControlBlock.unparked at hw hexpired
  split at hw
  · rename_i w hwas
    simp only [hwas] at hexpired
    exact .fail (by simp [hwas]) hw hexpired hhand hpass
  · rename_i hwas
    simp only [hwas] at hexpired
    exact .same hw hexpired hhand hpass

theorem waitStep (hwf : a.WF) (he : act.Enabled a) (hf : act.Fits v a) (ht : v.ctx ≠ .task t) :
    a.WaitStep t act ((act.apply a).tcb t) := by
  rw [apply_tcb hwf he]
  cases act with
  | expire u =>
    simp only [Action.tcb]
    split
    · exact waitStep_unparked (by simp) (by simp) rfl rfl
    · exact .same rfl rfl (by simp) (by simp)
  | retire u st =>
    simp only [Action.tcb]
    split
    · exact waitStep_unparked (by simp) (by simp) rfl rfl
    · exact .same rfl rfl (by simp) (by simp)
  | hand hd u =>
    by_cases hu : t = u
    · subst hu
      simp only [Action.tcb, if_pos]
      exact .hand hd rfl rfl rfl
    · simp only [Action.tcb, if_neg hu]
      exact .same rfl rfl (by simp [Ne.symm hu]) (by simp)
  | pass m o u =>
    by_cases hu : t = u
    · subst hu
      have hne : t ≠ o := by
        rintro rfl
        have := (hwf.mem_wait.mp (List.mem_of_mem_head? he.2.2)).1
        rw [he.2.1] at this
        cases this
      simp only [Action.tcb, if_neg hne, if_pos]
      exact .pass m o rfl rfl rfl
    · simp only [Action.tcb, if_neg hu]
      split <;> exact .same rfl rfl (by simp) (by simp [Ne.symm hu])
  | alloc =>
    simp only [Action.tcb]
    split
    · rename_i hu
      subst hu
      exact .same ((hwf.ok _).fresh (Nat.le_refl _)).2.symm rfl (by simp) (by simp)
    · exact .same rfl rfl (by simp) (by simp)
  | park w u timeout =>
    have hu : t ≠ u := by
      rintro rfl
      exact ht hf.1
    simp only [Action.tcb, if_neg hu]
    exact .same rfl rfl (by simp) (by simp)
  | _ =>
    simp only [Action.tcb]
    first
      | exact .same rfl rfl (by simp) (by simp)
      | (split <;> exact .same rfl rfl (by simp) (by simp))

end Abs

/-- A visit adds the entries of its actions to the history; what each action keeps of the entries so far and of
the kernel, the visit keeps. -/
theorem Runs.traced {Q : List Obs → Abs → Prop} {v : Visit} {a a' : Abs} {acts : List Action} (h : Runs v a acts a')
    (hwf : a.WF) (hs : a.Starved) (hq : Q [] a)
    (hstep : ∀ (act : Action) (b : Abs) (os : List Obs), b.WF → b.Starved → b.trace = a.trace ++ os → Q os b →
      act.Enabled b → act.Fits v b → Q (os ++ act.entries b) (act.apply b)) :
        ∃ os, a'.trace = a.trace ++ os ∧ Q os a' := by
  refine h.keeps_starved (P := fun b => ∃ os, b.trace = a.trace ++ os ∧ Q os b) hwf hs
    ⟨[], (List.append_nil _).symm, hq⟩ ?_
  rintro act b hwf hs ⟨os, htrace, hq⟩ he hf
  refine ⟨os ++ act.entries b, ?_, hstep act b os hwf hs htrace hq he hf⟩
  rw [Abs.apply_trace hwf hs he, htrace, List.append_assoc]

end AcRtos
