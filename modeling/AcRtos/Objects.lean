import AcRtos.Effects

/-!
# Semaphores and queues with waiters

A task waits only for what the object does not have: a semaphore with waiters is at zero, a queue with parked
receivers is empty, one with parked senders is full (`Abs.Starved`). Every action keeps this, so that what a
waiter is served with always goes straight to it.
-/

namespace AcRtos

namespace Ring

/-- Head and tail are inside the storage, and the tail is `count` slots behind the head. -/
structure Valid (capacity : Nat) (r : Ring) : Prop where
  head_lt : r.head < capacity
  count_le : r.count ≤ capacity
  tail_eq : r.tail = (r.head + r.count) % capacity

variable {capacity itemSize : Nat} {r : Ring}

/-- `if (++i == capacity) i = 0`. -/
theorem succ_wrap {i n : Nat} (hn : 0 < n) :
    (if i % n + 1 = n then 0 else i % n + 1) = (i + 1) % n := by
  have hlt := Nat.mod_lt i hn
  rw [← Nat.mod_add_mod]
  split
  · rename_i heq
    rw [heq, Nat.mod_self]
  · rw [Nat.mod_eq_of_lt (show i % n + 1 < n by omega)]

theorem Valid.pushRaw (h : r.Valid capacity) (hlt : r.count < capacity) (item : Item) :
    (r.pushRaw itemSize capacity item).Valid capacity where
  head_lt := h.head_lt
  count_le := hlt
  tail_eq := by
    have hpos : 0 < capacity := Nat.zero_lt_of_lt h.head_lt
    show (if r.tail + 1 = capacity then 0 else r.tail + 1) = (r.head + (r.count + 1)) % capacity
    rw [h.tail_eq, succ_wrap hpos, Nat.add_assoc]

theorem Valid.popRaw (itemSize : Nat) (h : r.Valid capacity) (hne : r.count ≠ 0) :
    (r.popRaw itemSize capacity).2.Valid capacity where
  head_lt := by
    show (if r.head + 1 = capacity then 0 else r.head + 1) < capacity
    have := h.head_lt
    split <;> omega
  count_le := by
    show r.count - 1 ≤ capacity
    have := h.count_le
    omega
  tail_eq := by
    show r.tail = ((if r.head + 1 = capacity then 0 else r.head + 1) + (r.count - 1)) % capacity
    have hlt := h.head_lt
    rw [h.tail_eq]
    split
    · rename_i heq
      have hsum : r.head + r.count = 0 + (r.count - 1) + capacity := by omega
      rw [hsum, Nat.add_mod_right]
    · congr 1
      omega

end Ring

/-- Waits in which data is passed through `xfer_ptr`. -/
def WaitId.transfers : WaitId → Bool
  | .senders _ | .receivers _ | .waiters _ => true
  | _ => false

namespace Abs

structure Starved (a : Abs) : Prop where
  sem : ∀ s t, (a.tcb t).waitList = some (.sem s) → a.count s = 0
  receivers : ∀ q t, (a.tcb t).waitList = some (.receivers q) → (a.ring q).count = 0
  senders : ∀ q t, (a.tcb t).waitList = some (.senders q) → (a.ring q).count = a.config.capacity q
  xfer : ∀ t w, (a.tcb t).waitList = some w → w.transfers = true → (a.tcb t).xferPtr = some (.task t)
  ring : ∀ q, (a.ring q).Valid (a.config.capacity q)

variable {a : Abs} {act : Action} {t u : Tid}

theorem apply_objects (act : Action) (hd : ∀ d, act ≠ .data d) (hh : ∀ h t, act ≠ .hand h t) :
    (act.apply a).count = a.count ∧ (act.apply a).ring = a.ring ∧
      (act.apply a).currentBits = a.currentBits ∧ (act.apply a).frame = a.frame ∧
      (act.apply a).trace = a.trace := by
  cases act with
  | data d => exact absurd rfl (hd d)
  | hand h t => exact absurd rfl (hh h t)
  | park w t timeout =>
    have h := SameRest.boost (a := a) (t := t) w
    exact ⟨h.count, h.ring, h.currentBits, h.frame, h.trace⟩
  | release m t =>
    have h := SameRest.restore (a := a.drop m t) (t := t)
    exact ⟨h.count, h.ring, h.currentBits, h.frame, h.trace⟩
  | pass m t next =>
    have h := SameRest.restore (a := (a.drop m t).give m next) (t := t)
    exact ⟨h.count, h.ring, h.currentBits, h.frame, h.trace⟩
  | _ => exact ⟨rfl, rfl, rfl, rfl, rfl⟩

theorem xfer_apply (h : a.WF) (hs : a.Starved) (he : act.Enabled a) {w : WaitId}
    (hw : ((act.apply a).tcb t).waitList = some w) (htr : w.transfers = true) :
    ((act.apply a).tcb t).xferPtr = some (.task t) := by
  rcases waitList_apply h he hw with hwas | ⟨W, timeout, rfl, rfl⟩
  · by_cases hpark : ∃ W timeout, act = .park W t timeout
    · obtain ⟨W, timeout, rfl⟩ := hpark
      have hnone := h.waitList_none (t := t) (by simp [he.2.1])
      rw [hnone] at hwas
      cases hwas
    · rw [apply_tcb h he, (sameRequest_tcb fun W timeout heq => hpark ⟨W, timeout, heq⟩).xferPtr]
      exact hs.xfer t w hwas htr
  · rw [apply_tcb h he]
    cases W with
    | take s => cases htr
    | lock m => cases htr
    | _ => simp [Action.tcb, Wait.request]

theorem Starved.of_objects (act : Action) (h : a.Starved) (hwf : a.WF) (he : act.Enabled a)
    (hcount : (act.apply a).count = a.count) (hring : (act.apply a).ring = a.ring)
    (hpark : ∀ W t timeout, act = .park W t timeout → W.Blocks a t) : (act.apply a).Starved where
  sem s t hw := by
    rw [hcount]
    rcases waitList_apply hwf he hw with hw | ⟨W, timeout, hact, hW⟩
    · exact h.sem s t hw
    · have hblocks := hpark W t timeout hact
      cases W <;> cases hW
      exact hblocks
  receivers q t hw := by
    rw [hring]
    rcases waitList_apply hwf he hw with hw | ⟨W, timeout, hact, hW⟩
    · exact h.receivers q t hw
    · have hblocks := hpark W t timeout hact
      cases W <;> cases hW
      exact hblocks
  senders q t hw := by
    rw [hring, apply_config he]
    rcases waitList_apply hwf he hw with hw | ⟨W, timeout, hact, hW⟩
    · exact h.senders q t hw
    · have hblocks := hpark W t timeout hact
      cases W <;> cases hW
      have := (h.ring q).count_le
      have := hblocks.2
      omega
  xfer t w hw htr := xfer_apply hwf h he hw htr
  ring q := by
    rw [hring, apply_config he]
    exact h.ring q

/-! ### Data operations and handings -/

theorem Starved.of_data (act : Action) (h : a.Starved) (hwf : a.WF) (he : act.Enabled a)
    (hpark : ∀ W t timeout, act ≠ .park W t timeout)
    (hsem : ∀ s, (act.apply a).count s = a.count s ∨ a.seq (.wait (.sem s)) = [] ∨ a.count s ≠ 0)
    (hring : ∀ q, (act.apply a).ring q = a.ring q ∨
      ((act.apply a).ring q).Valid (a.config.capacity q) ∧ (((act.apply a).ring q).count = (a.ring q).count ∧
          (a.ring q).count ≠ 0 ∨
        a.seq (.wait (.receivers q)) = [] ∧ (a.ring q).count < a.config.capacity q ∨
        (a.ring q).count ≠ 0 ∧ a.seq (.wait (.senders q)) = [])) : (act.apply a).Starved := by
  have hold : ∀ {t w}, ((act.apply a).tcb t).waitList = some w → (a.tcb t).waitList = some w ∧
      t ∈ a.seq (.wait w) := by
    intro t w hw
    rcases waitList_apply hwf he hw with hw | ⟨W, timeout, hact, -⟩
    · exact ⟨hw, hwf.mem_wait.mpr ⟨(hwf.ok t).waits (by simp [hw]), hw⟩⟩
    · exact absurd hact (hpark W t timeout)
  refine ⟨fun s t hw => ?_, fun q t hw => ?_, fun q t hw => ?_, fun t w hw htr => xfer_apply hwf h he hw htr,
    fun q => ?_⟩
  · obtain ⟨hw, hmem⟩ := hold hw
    have hz := h.sem s t hw
    rcases hsem s with hs | hs | hs
    · rw [hs, hz]
    · rw [hs] at hmem
      cases hmem
    · exact absurd hz hs
  · obtain ⟨hw, hmem⟩ := hold hw
    have hz := h.receivers q t hw
    rcases hring q with hr | ⟨-, ⟨-, hr⟩ | ⟨hr, -⟩ | ⟨hr, -⟩⟩
    · rw [hr, hz]
    · exact absurd hz hr
    · rw [hr] at hmem
      cases hmem
    · exact absurd hz hr
  · obtain ⟨hw, hmem⟩ := hold hw
    have hf := h.senders q t hw
    rw [apply_config he]
    rcases hring q with hr | ⟨-, ⟨hr, -⟩ | ⟨-, hr⟩ | ⟨-, hr⟩⟩
    · rw [hr, hf]
    · rw [hr, hf]
    · omega
    · rw [hr] at hmem
      cases hmem
  · rw [apply_config he]
    rcases hring q with hr | ⟨hr, -⟩
    · rw [hr]; exact h.ring q
    · exact hr

theorem Starved.apply_data (h : a.Starved) (hwf : a.WF) {d : DataOp} (he : d.Enabled a) :
    ((Action.data d).apply a).Starved := by
  have hsame : (d.run a.toCore).count = a.count → (d.run a.toCore).ring = a.ring →
      ((Action.data d).apply a).Starved := fun hcount hring =>
    h.of_objects (.data d) hwf he hcount hring (by simp)
  cases d with
  | quiet e => exact hsame he.count he.ring
  | consume g c mask clear => exact hsame (by cases clear <;> rfl) (by cases clear <;> rfl)
  | takeToken s c =>
    refine h.of_data (.data (.takeToken s c)) hwf he (by simp) (fun s' => ?_) fun q => Or.inl rfl
    by_cases hs : s' = s
    · subst hs
      exact Or.inr (Or.inr he)
    · exact Or.inl (Function.update_of_ne hs _ _)
  | addToken s =>
    refine h.of_data (.data (.addToken s)) hwf he (by simp) (fun s' => ?_) fun q => Or.inl rfl
    by_cases hs : s' = s
    · subst hs
      exact Or.inr (Or.inl he.1)
    · exact Or.inl (Function.update_of_ne hs _ _)
  | pushFrom q p =>
    refine h.of_data (.data (.pushFrom q p)) hwf he (by simp) (fun s => Or.inl rfl) fun q' => ?_
    by_cases hq : q' = q
    · subst hq
      have hring : (((Action.data (.pushFrom q' p)).apply a).ring q') =
          (a.ring q').pushRaw (a.config.itemSize q') (a.config.capacity q') (a.frame p).item :=
        Function.update_self _ _ _
      rw [hring]
      exact Or.inr ⟨(h.ring q').pushRaw he.2 _, Or.inr (Or.inl he)⟩
    · exact Or.inl (Function.update_of_ne hq _ _)
  | popTo q p =>
    refine h.of_data (.data (.popTo q p)) hwf he (by simp) (fun s => Or.inl rfl) fun q' => ?_
    by_cases hq : q' = q
    · subst hq
      have hring : (((Action.data (.popTo q' p)).apply a).ring q') =
          ((a.ring q').popRaw (a.config.itemSize q') (a.config.capacity q')).2 := Function.update_self _ _ _
      rw [hring]
      exact Or.inr ⟨(h.ring q').popRaw _ he.1, Or.inr (Or.inr he)⟩
    · exact Or.inl (Function.update_of_ne hq _ _)
  | _ => exact hsame rfl rfl

/-- The ring after a receive that makes room for the item of a parked sender. -/
theorem slot_ring {q : QueueId} {p b : Ctx} {e : Core} (hx : (e.tcb t).xferPtr = some b) :
    ((Handing.slot q p).run t e).ring = Function.update e.ring q
      ((((e.ring q).popRaw (e.config.itemSize q) (e.config.capacity q)).2).pushRaw (e.config.itemSize q)
        (e.config.capacity q) (((QueueCore.popTo q p e).frame b).item)) := by
  have hx' : ((QueueCore.popTo q p e).tcb t).xferPtr = some b := hx
  simp only [Handing.run, QueueCore.pushOf, hx']
  simp [QueueCore.pushFrom, QueueCore.popTo]

theorem Starved.apply_hand (h : a.Starved) (hwf : a.WF) {hd : Handing} (he : hd.Enabled a t) :
    ((Action.hand hd t).apply a).Starved := by
  have hsame : (hd.run t a.toCore).count = a.count → (hd.run t a.toCore).ring = a.ring →
      ((Action.hand hd t).apply a).Starved := fun hcount hring =>
    h.of_objects (.hand hd t) hwf he hcount hring (by simp)
  cases hd with
  | token s => exact hsame rfl rfl
  | item q p =>
    refine hsame ?_ ?_ <;> simp only [Handing.run, QueueCore.handOver] <;> split <;> rfl
  | bits g =>
    refine hsame ?_ ?_ <;>
      simp only [Handing.run, EventGroup.satisfy, EventGroup.report, EventGroup.consume] <;>
      cases (a.tcb t).eventClearOnExit <;> split <;> rfl
  | slot q p =>
    obtain ⟨hb, hw⟩ := hwf.mem_wait.mp (List.mem_of_mem_head? he.1)
    have hx := h.xfer t _ hw rfl
    have hring : ((Action.hand (.slot q p) t).apply a).ring = _ := slot_ring (p := p) (q := q) hx
    refine h.of_data (.hand (.slot q p) t) hwf he (by simp) (fun s => Or.inl ?_) fun q' => ?_
    · have hx' : ((QueueCore.popTo q p a.toCore).tcb t).xferPtr = some (.task t) := hx
      show ((Handing.slot q p).run t a.toCore).count s = a.count s
      simp only [Handing.run, QueueCore.pushOf, hx']
      rfl
    · by_cases hq : q' = q
      · subst hq
        have hpop := (h.ring q').popRaw (a.config.itemSize q') he.2
        have hlt : ((a.ring q').popRaw (a.config.itemSize q') (a.config.capacity q')).2.count <
            a.config.capacity q' := by
          show (a.ring q').count - 1 < _
          have := (h.ring q').count_le
          have := he.2
          omega
        rw [hring, Function.update_self]
        refine Or.inr ⟨hpop.pushRaw hlt _, Or.inl ⟨?_, he.2⟩⟩
        show (a.ring q').count - 1 + 1 = (a.ring q').count
        have := he.2
        omega
      · rw [hring, Function.update_of_ne hq]
        exact Or.inl rfl

theorem Starved.apply (h : a.Starved) (hwf : a.WF) (he : act.Enabled a) : (act.apply a).Starved := by
  cases act with
  | data d => exact h.apply_data hwf he
  | hand hd t => exact h.apply_hand hwf he
  | park w t timeout =>
    obtain ⟨hcount, hring, -⟩ := apply_objects (a := a) (.park w t timeout) (by simp) (by simp)
    refine h.of_objects _ hwf he hcount hring ?_
    rintro W u timeout' heq
    cases heq
    exact he.2.2.2
  | _ =>
    refine h.of_objects _ hwf he ?_ ?_ (by simp)
    · exact (apply_objects _ (by simp) (by simp)).1
    · exact (apply_objects _ (by simp) (by simp)).2.1

/-! ### Faults -/

/-- No assertion about the kernel's own lists has failed, and no walk over them was endless. -/
def Sane (a : Abs) : Prop := ∀ x, a.fault = some x → x.expected = true

theorem pushFrom_rest (q : QueueId) (p : Ctx) (e : Core) :
    (QueueCore.pushFrom q p e).fault = e.fault ∧ (QueueCore.pushFrom q p e).currentBits = e.currentBits :=
      ⟨rfl, rfl⟩

theorem popTo_rest (q : QueueId) (p : Ctx) (e : Core) :
    (QueueCore.popTo q p e).fault = e.fault ∧ (QueueCore.popTo q p e).currentBits = e.currentBits := ⟨rfl, rfl⟩

theorem Sane.apply (h : a.Sane) (hwf : a.WF) (hs : a.Starved) (he : act.Enabled a) : (act.apply a).Sane := by
  have hsame : (act.apply a).fault = a.fault → (act.apply a).Sane := fun heq x hx => h x (heq ▸ hx)
  cases act with
  | data d =>
    cases d with
    | quiet e =>
      intro x hx
      rcases he.fault with heq | ⟨y, heq, hy⟩
      · exact h x (heq ▸ hx)
      · obtain rfl : y = x := Option.some.inj (heq.symm.trans hx)
        exact hy
    | consume g c mask clear => exact hsame (by cases clear <;> rfl)
    | _ => exact hsame rfl
  | hand hd t =>
    refine hsame ?_
    obtain ⟨-, hw⟩ := hwf.mem_wait.mp (Handing.Enabled.mem he)
    cases hd with
    | token s => rfl
    | item q p =>
      show (QueueCore.handOver q p t a.toCore).fault = a.fault
      rw [QueueCore.handOver, hs.xfer t _ hw rfl]
      rfl
    | slot q p =>
      have hx : ((QueueCore.popTo q p a.toCore).tcb t).xferPtr = some (.task t) := hs.xfer t _ hw rfl
      show (QueueCore.pushOf q t (QueueCore.popTo q p a.toCore)).fault = a.fault
      rw [QueueCore.pushOf, hx]
      exact (pushFrom_rest q (.task t) _).1.trans (popTo_rest q p a.toCore).1
    | bits g =>
      show (EventGroup.satisfy g t a.toCore).fault = a.fault
      unfold EventGroup.satisfy EventGroup.report EventGroup.consume
      cases (a.tcb t).eventClearOnExit <;> simp only <;> split <;> rfl
  | park w t timeout => exact hsame (SameRest.boost w).fault
  | release m t => exact hsame SameRest.restore.fault
  | pass m t next => exact hsame SameRest.restore.fault
  | _ => exact hsame rfl

end Abs

theorem Runs.keeps_starved {P : Abs → Prop} {v : Visit} {a a' : Abs} {acts : List Action} (h : Runs v a acts a')
    (hwf : a.WF) (hs : a.Starved) (hp : P a)
    (hstep : ∀ (act : Action) (b : Abs), b.WF → b.Starved → P b → act.Enabled b → act.Fits v b →
      P (act.apply b)) :
    P a' := by
  have hall : a'.Starved ∧ P a' := by
    refine h.keeps (P := fun b => b.Starved ∧ P b) hwf ⟨hs, hp⟩ ?_
    rintro act b hwf ⟨hs, hp⟩ he hf
    exact ⟨hs.apply hwf he, hstep act b hwf hs hp he hf⟩
  exact hall.2

end AcRtos
