import AcRtos.Lib.Window
import AcRtos.QueueWaits
import AcRtos.Told

/-!
# A queue is a bounded FIFO

The items accepted are those delivered, followed by those in the ring (`Abs.Fifo`). A push appends to both sides
and a pop moves the first item of the ring over; a hand-off to a parked receiver happens on an empty ring, so the
item it accepts and delivers at once comes in its turn; a back-fill is a pop and then a push. What a call of
`send` or `receive` returns is told by its own entries (`Tracks.told`).
-/

namespace AcRtos

open Lib Abs AcRtos.Core

/-! ### The ring as a sequence -/

section
variable {size capacity i j : Nat} {storage : Nat → UInt8} {item : Item} {r : Ring}

theorem loadBytes_store_self (storage : Nat → UInt8) (offset size : Nat) (item : Item) :
    loadBytes (storeBytes storage offset size item) offset size = copyBytes size item := by
  refine List.map_congr_left fun i hi => ?_
  have hlt := List.mem_range.mp hi
  rw [storeBytes, if_pos (by omega), Nat.add_sub_cancel_left]

theorem loadBytes_store_of_ne (hij : i ≠ j) :
    loadBytes (storeBytes storage (size * j) size item) (size * i) size = loadBytes storage (size * i) size := by
  refine List.map_congr_left fun b hb => ?_
  have hlt := List.mem_range.mp hb
  rw [storeBytes, if_neg]
  rintro ⟨hge, hle⟩
  rcases Nat.lt_or_gt_of_ne hij with h | h
  · have := Nat.mul_le_mul_left size (Nat.succ_le_of_lt h)
    rw [Nat.mul_succ] at this
    omega
  · have := Nat.mul_le_mul_left size (Nat.succ_le_of_lt h)
    rw [Nat.mul_succ] at this
    omega

namespace Ring

/-- The items of the ring, read from `head`. -/
def items (size capacity : Nat) (r : Ring) : List Item :=
  window capacity (fun i => loadBytes r.storage (size * i) size) r.head r.count

theorem items_pushRaw (h : r.Valid capacity) (hlt : r.count < capacity) (item : Item) :
    (r.pushRaw size capacity item).items size capacity = r.items size capacity ++ [copyBytes size item] := by
  have hhead : (r.pushRaw size capacity item).head = r.head := rfl
  refine window_push hlt ?_ fun j hj => ?_
  · rw [hhead, ← h.tail_eq]
    exact loadBytes_store_self _ _ _ _
  · rw [hhead, ← h.tail_eq] at hj
    exact loadBytes_store_of_ne hj

theorem items_popRaw (h : r.Valid capacity) (hne : r.count ≠ 0) :
    r.items size capacity = (r.popRaw size capacity).1 :: (r.popRaw size capacity).2.items size capacity := by
  obtain ⟨n, hn⟩ := Nat.exists_eq_succ_of_ne_zero hne
  have hhead : (if r.head + 1 = capacity then 0 else r.head + 1) = (r.head + 1) % capacity := by
    have hwrap := succ_wrap (i := r.head) (Nat.zero_lt_of_lt h.head_lt)
    rwa [Nat.mod_eq_of_lt h.head_lt] at hwrap
  rw [items, hn, window_head h.head_lt]
  simp only [items, popRaw]
  rw [hhead, hn, Nat.succ_sub_one]

theorem items_nil (hz : r.count = 0) : r.items size capacity = [] := by rw [items, hz, window_zero]

end Ring

end

/-! ### Items in the history -/

namespace Obs

/-- The item that enters the queue `q`. -/
def accepted (q : QueueId) : Obs → Option Item
  | .accept q' _ x => if q' = q then some x else none
  | _ => none

/-- The item that leaves the queue `q`. -/
def delivered (q : QueueId) : Obs → Option Item
  | .deliver q' _ x => if q' = q then some x else none
  | _ => none

end Obs

def accepted (q : QueueId) (tr : List Obs) : List Item := tr.filterMap (Obs.accepted q)

def delivered (q : QueueId) (tr : List Obs) : List Item := tr.filterMap (Obs.delivered q)

section
variable {q x : QueueId} {c : Ctx} {item : Item} {os : List Obs}

@[simp] theorem accepted_nil : accepted q [] = [] := rfl

@[simp] theorem delivered_nil : delivered q [] = [] := rfl

@[simp] theorem accepted_accept : accepted q (.accept q c item :: os) = item :: accepted q os := by
  simp [accepted, Obs.accepted]

@[simp] theorem delivered_deliver : delivered q (.deliver q c item :: os) = item :: delivered q os := by
  simp [delivered, Obs.delivered]

@[simp] theorem accepted_deliver : accepted q (.deliver x c item :: os) = accepted q os := rfl

@[simp] theorem delivered_accept : delivered q (.accept x c item :: os) = delivered q os := rfl

theorem accepted_accept_of_ne (h : x ≠ q) : accepted q (.accept x c item :: os) = accepted q os := by
  simp [accepted, Obs.accepted, h]

theorem delivered_deliver_of_ne (h : x ≠ q) : delivered q (.deliver x c item :: os) = delivered q os := by
  simp [delivered, Obs.delivered, h]

end

namespace Core

/-- The items in the ring of `q`. -/
def items (e : Core) (q : QueueId) : List Item := (e.ring q).items (e.config.itemSize q) (e.config.capacity q)

/-- What has entered and not left the queue is in its ring, in order. -/
def Fifo (e : Core) (q : QueueId) : Prop := accepted q e.trace = delivered q e.trace ++ e.items q

variable {e e' : Core} {q : QueueId} {os : List Obs}

theorem Fifo.of_entries (h : e.Fifo q) (htrace : e'.trace = e.trace ++ os)
    (hos : e.items q ++ accepted q os = delivered q os ++ e'.items q) : e'.Fifo q := by
  unfold Fifo at *
  rw [htrace, accepted, delivered, List.filterMap_append, List.filterMap_append]
  show accepted q e.trace ++ accepted q os = delivered q e.trace ++ delivered q os ++ e'.items q
  rw [h, List.append_assoc, List.append_assoc, hos]

theorem Fifo.of_none (h : e.Fifo q) (htrace : e'.trace = e.trace ++ os) (hconfig : e'.config = e.config)
    (hring : e'.ring = e.ring) (hos : ∀ o ∈ os, o.accepted q = none ∧ o.delivered q = none) : e'.Fifo q := by
  refine h.of_entries htrace ?_
  have hin : accepted q os = [] := List.filterMap_eq_nil_iff.mpr fun o ho => (hos o ho).1
  have hout : delivered q os = [] := List.filterMap_eq_nil_iff.mpr fun o ho => (hos o ho).2
  rw [hin, hout, items, items, hring, hconfig, List.append_nil, List.nil_append]

end Core

section
variable {a : Abs} {act : Action} {q : QueueId}

theorem fifo_apply_data (h : a.Fifo q) (hwf : a.WF) (hs : a.Starved) {d : DataOp} (he : d.Enabled a) :
    ((Action.data d).apply a).Fifo q := by
  have htrace : ((Action.data d).apply a).trace = a.trace ++ (Action.data d).entries a := apply_trace hwf hs he
  have hconfig : ((Action.data d).apply a).config = a.config := apply_config he
  have hring := hs.ring q
  cases d with
  | pushFrom x p =>
    by_cases hx : x = q
    · subst hx
      refine h.of_entries htrace ?_
      have hnew : ((Action.data (.pushFrom x p)).apply a).ring x =
        (a.ring x).pushRaw (a.config.itemSize x) (a.config.capacity x) (a.frame p).item := Function.update_self _ _ _
      rw [Core.items, Core.items, hnew, hconfig, Ring.items_pushRaw hring he.2]
      simp [Action.entries, DataOp.entries]
    · refine h.of_entries htrace ?_
      have hold : ((Action.data (.pushFrom x p)).apply a).ring q = a.ring q := Function.update_of_ne (Ne.symm hx) _ _
      rw [Core.items, Core.items, hold, hconfig]
      simp [Action.entries, DataOp.entries, accepted_accept_of_ne hx]
  | popTo x p =>
    by_cases hx : x = q
    · subst hx
      refine h.of_entries htrace ?_
      have hnew : ((Action.data (.popTo x p)).apply a).ring x =
        ((a.ring x).popRaw (a.config.itemSize x) (a.config.capacity x)).2 := Function.update_self _ _ _
      rw [Core.items, Core.items, hnew, hconfig, Ring.items_popRaw hring he.1]
      simp [Action.entries, DataOp.entries]
    · refine h.of_entries htrace ?_
      have hold : ((Action.data (.popTo x p)).apply a).ring q = a.ring q := Function.update_of_ne (Ne.symm hx) _ _
      rw [Core.items, Core.items, hold, hconfig]
      simp [Action.entries, DataOp.entries, delivered_deliver_of_ne hx]
  | mark o =>
    refine h.of_none htrace hconfig rfl fun o' ho' => ?_
    rw [List.mem_singleton.mp ho']
    cases o <;> first | exact ⟨rfl, rfl⟩ | cases he
  | quiet e => exact h.of_none htrace hconfig he.ring (by simp [Action.entries, DataOp.entries])
  | consume g c mask clear =>
    exact h.of_none htrace hconfig (by cases clear <;> rfl)
      (by simp [Action.entries, DataOp.entries, Obs.accepted, Obs.delivered])
  | _ =>
    exact h.of_none htrace hconfig rfl (by simp [Action.entries, DataOp.entries, Obs.accepted, Obs.delivered])

theorem fifo_apply_hand (h : a.Fifo q) (hwf : a.WF) (hs : a.Starved) {hd : Handing} {t : Tid} (he : hd.Enabled a t) :
    ((Action.hand hd t).apply a).Fifo q := by
  have htrace : ((Action.hand hd t).apply a).trace = a.trace ++ (Action.hand hd t).entries a :=
    apply_trace hwf hs he
  have hconfig : ((Action.hand hd t).apply a).config = a.config := apply_config he
  have hwaits := (hwf.mem_wait.mp (Handing.Enabled.mem he)).2
  cases hd with
  | token s =>
    refine h.of_none htrace hconfig rfl ?_
    simp [Action.entries, Handing.cost, Handing.gift, Obs.accepted, Obs.delivered]
  | bits g =>
    have hring : ((Action.hand (.bits g) t).apply a).ring = a.ring := by
      show ((Handing.bits g).run t a.toCore).ring = a.ring
      rw [Handing.run_bits (hs.handed hwf he rfl)]
      cases (a.tcb t).eventClearOnExit <;> rfl
    refine h.of_none htrace hconfig hring ?_
    simp [Action.entries, Handing.cost, Handing.gift, Obs.accepted, Obs.delivered]
  | item x p =>
    have hring : ((Action.hand (.item x p) t).apply a).ring = a.ring := by
      show ((Handing.item x p).run t a.toCore).ring = a.ring
      rw [Handing.run_item (hs.handed hwf he rfl)]
      rfl
    by_cases hx : x = q
    · -- the ring is empty while a receiver is parked
      subst hx
      refine h.of_entries htrace ?_
      rw [Core.items, Core.items, hring, hconfig, Ring.items_nil (hs.receivers x t hwaits)]
      simp [Action.entries, Handing.cost, Handing.gift]
    · refine h.of_none htrace hconfig hring ?_
      simp [Action.entries, Handing.cost, Handing.gift, Obs.accepted, Obs.delivered, hx]
  | slot x p =>
    have hring : ((Action.hand (.slot x p) t).apply a).ring = _ := slot_ring (p := p) (q := x) (hs.handed hwf he rfl)
    by_cases hx : x = q
    · subst hx
      refine h.of_entries htrace ?_
      have hvalid := (hs.ring x).popRaw (a.config.itemSize x) he.2
      have hlt : ((a.ring x).popRaw (a.config.itemSize x) (a.config.capacity x)).2.count < a.config.capacity x := by
        show (a.ring x).count - 1 < _
        have := (hs.ring x).count_le
        have := he.2
        omega
      rw [Core.items, Core.items, hring, hconfig, Function.update_self, Ring.items_pushRaw hvalid hlt,
        Ring.items_popRaw (hs.ring x) he.2]
      simp [Action.entries, Handing.cost, Handing.gift]
    · refine h.of_entries htrace ?_
      rw [Core.items, Core.items, hring, hconfig, Function.update_of_ne (Ne.symm hx)]
      simp [Action.entries, Handing.cost, Handing.gift, accepted_accept_of_ne hx, delivered_deliver_of_ne hx]

theorem fifo_apply (h : a.Fifo q) (hwf : a.WF) (hs : a.Starved) (he : act.Enabled a) : (act.apply a).Fifo q := by
  by_cases hdata : ∃ d, act = .data d
  · obtain ⟨d, rfl⟩ := hdata
    exact fifo_apply_data h hwf hs he
  by_cases hhand : ∃ hd t, act = .hand hd t
  · obtain ⟨hd, t, rfl⟩ := hhand
    exact fifo_apply_hand h hwf hs he
  · obtain ⟨-, hring, -, -, htrace⟩ := apply_objects (a := a) act (fun d heq => hdata ⟨d, heq⟩)
      fun y t heq => hhand ⟨y, t, heq⟩
    exact h.of_none (htrace.trans (List.append_nil _).symm) (apply_config he) hring (by simp)

theorem Runs.fifo {v : Visit} {a' : Abs} {acts : List Action} (h : Runs v a acts a') (hwf : a.WF) (hs : a.Starved)
    (hf : a.Fifo q) : a'.Fifo q :=
  h.keeps_starved hwf hs hf fun _ _ hwf hs hf he _ => fifo_apply hf hwf hs he

theorem Tracks.fifo {config : Config} {good : Sys → Event → Prop} {s : Sys} (h : Tracks config good s a)
    (q : QueueId) : a.Fifo q := by
  induction h with
  | init => rfl
  | step e h hg hs hruns hinv ih => exact hruns.fifo h.inv.wf h.inv.starved ih

end

/-! ### The calls -/

namespace Request

/-- The item that a call sends to `q`. -/
def sends (q : QueueId) : Request → Option Item
  | .inl (.send x item _) | .inr (.sendFromIsr x item) => if x = q then some item else none
  | _ => none

def receives (q : QueueId) : Request → Bool
  | .inl (.receive x _) | .inr (.receiveFromIsr x) => x == q
  | _ => false

/-- The items that a completed call of `c` put into the queue and took out, as its result tells. -/
structure Moved (q : QueueId) (c : Ctx) (x : Request) (os : List Obs) (r : Ret) : Prop where
  sent : ∀ item, x.sends q = some item → r = .bool true ∧ os = [.accept q c item] ∨ r = .bool false ∧ os = []
  received : x.receives q = true → (∃ y, r = .bool true ∧ os = [.deliver q c y]) ∨ r = .bool false ∧ os = []
  sent_nothing : x.sends q = none → accepted q os = []
  received_nothing : x.receives q = false → delivered q os = []

end Request

section
variable {σ : Slips} {c : Ctx} {os : List Obs} {r : Ret} {q : QueueId}

/-- The requests of interrupt handlers are in the history of `.isr` only. -/
theorem talk_asked_isr {tr : List Obs} {x : IsrCall} (h : (talk c tr).asked = some (.inr x)) : c = .isr := by
  induction tr using List.reverseRecOn with
  | nil => cases h
  | append_singleton tr o ih =>
    rw [talk_concat, Talk.step] at h
    split at h
    · rename_i hctx
      rw [Talk.own] at h
      split at h
      · cases o <;> cases h
        exact (Option.some.inj hctx).symm
      · exact ih h
    · exact ih h

theorem Request.Moved.of_send {y : Request} {x : QueueId} {item : Item}
    (hy : y.sends q = if x = q then some item else none) (hy' : y.receives q = false)
    (h : r = .bool true ∧ os = [.accept x c item] ∨ r = .bool false ∧ os = []) : y.Moved q c os r where
  sent item' hi := by
    rw [hy, Option.ite_none_right_eq_some, Option.some.injEq] at hi
    obtain ⟨rfl, rfl⟩ := hi
    exact h
  received hr := by rw [hy'] at hr; cases hr
  sent_nothing hn := by
    have hx : x ≠ q := fun heq => by rw [hy, if_pos heq] at hn; cases hn
    rcases h with ⟨-, rfl⟩ | ⟨-, rfl⟩
    · rw [accepted_accept_of_ne hx, accepted_nil]
    · rfl
  received_nothing _ := by rcases h with ⟨-, rfl⟩ | ⟨-, rfl⟩ <;> rfl

theorem Request.Moved.of_receive {y : Request} {x : QueueId} (hy : y.sends q = none) (hy' : y.receives q = (x == q))
    (h : (∃ item, r = .bool true ∧ os = [.deliver x c item]) ∨ r = .bool false ∧ os = []) :
    y.Moved q c os r where
  sent item hi := by rw [hy] at hi; cases hi
  received hr := by
    rw [hy', beq_iff_eq] at hr
    rw [← hr]
    exact h
  sent_nothing _ := by rcases h with ⟨item, -, rfl⟩ | ⟨-, rfl⟩ <;> rfl
  received_nothing hn := by
    rw [hy', beq_eq_false_iff_ne] at hn
    rcases h with ⟨item, -, rfl⟩ | ⟨-, rfl⟩
    · rw [delivered_deliver_of_ne hn, delivered_nil]
    · rfl

theorem Request.Moved.of_neither {y : Request} (hy : y.sends q = none) (hy' : y.receives q = false)
    (hin : accepted q os = []) (hout : delivered q os = []) : y.Moved q c os r where
  sent item hi := by rw [hy] at hi; cases hi
  received hr := by rw [hy'] at hr; cases hr
  sent_nothing _ := hin
  received_nothing _ := hout

theorem Request.Answer.moved {y : Request} (h : y.Answer σ c os r) (hy : y.isRight = true → c = .isr) :
    y.Moved q c os r := by
  rcases y with y | y
  · cases y with
    | send x item ms => exact .of_send rfl rfl h
    | receive x ms => exact .of_receive rfl rfl h
    | take s ms => rcases h with ⟨-, rfl | ⟨t, -, rfl⟩⟩ | ⟨-, rfl⟩ <;> exact .of_neither rfl rfl rfl rfl
    | tryTake s => rcases h with ⟨-, rfl⟩ | ⟨-, rfl⟩ <;> exact .of_neither rfl rfl rfl rfl
    | waitBits g mask all clear ms =>
      obtain ⟨v, after, -, rfl, -⟩ := h
      exact .of_neither rfl rfl rfl rfl
    | getBits g =>
      obtain ⟨v, -, rfl⟩ := h
      exact .of_neither rfl rfl rfl rfl
    | _ =>
      obtain ⟨rfl, -⟩ := h
      exact .of_neither rfl rfl rfl rfl
  · obtain rfl := hy rfl
    cases y with
    | sendFromIsr x item => exact .of_send rfl rfl h
    | receiveFromIsr x => exact .of_receive rfl rfl h
    | tryTakeFromIsr s => rcases h with ⟨-, rfl⟩ | ⟨-, rfl⟩ <;> exact .of_neither rfl rfl rfl rfl
    | _ =>
      obtain ⟨rfl, -⟩ := h
      exact .of_neither rfl rfl rfl rfl

theorem Core.Writes.not_returned {d : Ctx} {own : List Obs} {e e' : Core} {tr : List Obs} (h : e.Writes d own e')
    (htrace : e'.trace = tr ++ [.ret c r]) : e.trace = tr ++ [.ret c r] := by
  obtain ⟨os', hgrows, hmark, -⟩ := h.trace
  rcases List.eq_nil_or_concat os' with rfl | ⟨os'', o, rfl⟩
  · rw [← htrace, hgrows, List.append_nil]
  · rw [hgrows, List.concat_eq_append, ← List.append_assoc] at htrace
    have hlast := (List.append_inj' htrace rfl).2
    have hnot := hmark o (by simp)
    rw [List.singleton_inj.mp hlast] at hnot
    cases hnot

theorem Inv.returned_item {s s' : Sys} {a : Abs} {e : Event} {y : Item} {x : Request} (h : Inv s a)
    (htold : s.Told σ) (hσ : s.Admits σ e) (hisr : talk .isr s.k.trace = {}) (hs : s.step e = some s')
    (htrace : s'.k.trace = s.k.trace ++ os ++ [.ret c r]) (hasked : (talk c (s.k.trace ++ os)).asked = some x)
    (hx : x.receives q = true) (hsince : (talk c (s.k.trace ++ os)).since = [.deliver q c y]) :
    (s'.k.frame c).item = y := by
  -- a step that only writes entries is no return
  have hshort : s.k.trace ≠ s.k.trace ++ os ++ [.ret c r] := fun heq => by
    have := congrArg List.length heq
    simp only [List.length_append, List.length_singleton] at this
    omega
  cases e with
  | call z =>
    obtain ⟨⟨own, hw⟩, -⟩ := h.call_said hs hσ (htold _)
    have hlast := hw.not_returned htrace
    cases os with
    | nil =>
      have := List.append_cancel_left ((List.append_nil _).symm ▸ hlast)
      cases List.singleton_inj.mp this
    | cons o os =>
      have := congrArg List.length hlast
      simp at this
  | tick => exact absurd ((quiet_writes c hs (Or.inl rfl)).1.not_returned htrace) hshort
  | pendSV psp => exact absurd ((quiet_writes c hs (Or.inr ⟨psp, rfl⟩)).1.not_returned htrace) hshort
  | advance =>
    obtain ⟨hnotes, -⟩ := h.advance_said hs hσ (htold _)
    cases hnotes with
    | writes own hw => exact absurd (hw.not_returned htrace) hshort
    | create phase site f p hpc hsame => exact absurd (hsame.symm.trans htrace) hshort
    | ret r' hpc hk =>
      rw [hk] at htrace ⊢
      have hend : s.k.trace ++ [.ret s.k.self r'] = s.k.trace ++ os ++ [.ret c r] := htrace
      obtain ⟨hpre, hlast⟩ := List.append_inj' hend rfl
      cases List.singleton_inj.mp hlast
      rw [← hpre] at hasked hsince
      have hsaid := htold s.k.self
      rw [hpc] at hsaid
      obtain ⟨z, os', htalk, -, hleaves⟩ := hsaid
      rw [htalk] at hasked hsince
      cases hasked
      cases z with
      | receive q' ms =>
        obtain rfl : q' = q := by simpa [Request.receives] using hx
        exact hleaves y hsince
      | _ => cases hx
  | isr z b =>
    obtain ⟨k', own, r', hw, -, hframe, hk, -⟩ := h.isr_writes hs
    rw [hk] at htrace ⊢
    have hend : k'.trace ++ [.ret .isr r'] = s.k.trace ++ os ++ [.ret c r] := htrace
    obtain ⟨hpre, hlast⟩ := List.append_inj' hend rfl
    cases List.singleton_inj.mp hlast
    have htalk : (talk .isr k'.trace).since = own := by
      rw [hw.talk]
      show ((talk .isr (s.k.trace ++ [.isrCall z])).add own).since = _
      rw [talk_concat, hisr]
      simp [Talk.step, Talk.own, Obs.ctx, Obs.isMark]
    rw [← hpre, htalk] at hsince
    exact hframe q y hsince

end

/-- A queue is a bounded FIFO with exact delivery: the items accepted are those delivered and then those in the
ring, in order; a send returns true exactly if its item was accepted, once, and a receive exactly if one item was
delivered to it, which it finds in its buffer when it returns. -/
theorem queue_fifo {config : Config} {s : Sys} (h : Reachable config s) (q : QueueId) :
    accepted q s.k.trace = delivered q s.k.trace ++
      (s.k.ring q).items (config.itemSize q) (config.capacity q) ∧
    (s.k.ring q).Valid (config.capacity q) ∧
    (∀ c, Answered (Request.Moved q c) c s.k.trace) ∧
    ∀ e s' os c r x y, s.step e = some s' → s'.k.trace = s.k.trace ++ os ++ [.ret c r] →
      (talk c (s.k.trace ++ os)).asked = some x → x.receives q = true →
      (talk c (s.k.trace ++ os)).since = [.deliver q c y] → (s'.k.frame c).item = y := by
  obtain ⟨a, htracks⟩ := h.tracks
  have hi := htracks.inv
  have hfifo := htracks.fifo q
  obtain ⟨htold, hisr, hanswered⟩ := htracks.told
  have htalk := htold .isr
  rw [hisr] at htalk
  unfold Core.Fifo Core.items at hfifo
  rw [htracks.config_eq] at hfifo
  rw [hi.rep.core_eq, ← htracks.config_eq]
  refine ⟨by rw [htracks.config_eq]; exact hfifo, hi.starved.ring q, fun c pre r post heq x hx => ?_,
    fun e s' os c r x y hs htrace hasked hx hsince => ?_⟩
  · refine (hanswered c pre r post (hi.rep.core_eq ▸ heq) x hx).moved fun hy => ?_
    obtain ⟨z, rfl⟩ := Sum.isRight_iff.mp hy
    exact talk_asked_isr hx
  · rw [← hi.rep.core_eq] at htrace hasked hsince
    exact hi.returned_item htold (Sys.admits_slips trivial) htalk hs htrace hasked hx hsince

/-- The queue of two slots is filled; a third sender parks, and a receive of an interrupt handler fills it again. -/
def Sys.fifoRun : List Event :=
  createRun 1 2 ++ startRun ++ [.call (.send 0 [1] 0), .advance, .call (.send 0 [2] 0), .advance,
    .call (.send 0 [3] kWaitForever), .isr (.receiveFromIsr 0) false]

theorem queue_fifo_full : ∃ s, Sys.run (Sys.init .small) Sys.fifoRun = some s ∧
    (s.k.ring 0).count = 2 ∧ delivered 0 s.k.trace = [[1]] ∧
    accepted 0 s.k.trace = [[1]] ++ (s.k.ring 0).items 1 2 := by
  have hrun : ((Sys.run (Sys.init .small) Sys.fifoRun).map fun s =>
      ((s.k.ring 0).count, delivered 0 s.k.trace)) = some (2, [[1]]) := by decide +kernel
  obtain ⟨s, hs, hmem⟩ := Option.map_eq_some_iff.mp hrun
  obtain ⟨hcount, hout⟩ := Prod.mk.inj hmem
  refine ⟨s, hs, hcount, hout, ?_⟩
  rw [← hout]
  exact (queue_fifo (Reachable.run .init hs) 0).1

end AcRtos
