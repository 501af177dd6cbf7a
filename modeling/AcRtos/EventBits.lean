import AcRtos.QueueWaits
import AcRtos.Told

/-!
# The bits of an event group

The history tells the bits of a group at any time (`groupBits`): a set adds bits, a clear removes some, and a read
leaves those that its entry names. `Abs.Logged` says that these are the kernel's bits, and that every read saw the
bits as they were.

No parked waiter is satisfied by the bits (`Core.Unmet`). Conditions are monotone, so an action that removes bits
cannot satisfy anyone; a task parks only on a condition that is not met; and `set_bits`, the only thing that adds
bits, visits every waiter. A waiter that it passes unsatisfied stays so, because the later ones only clear bits.
-/

namespace AcRtos

open Abs AcRtos.Core EventGroup

/-! ### Masks -/

/-- The bits of `v` are among those of `w`. -/
def Within (v w : BitVec 32) : Prop := v &&& w = v

section
variable {u v w mask : BitVec 32} {all : Bool}

theorem within_iff : Within v w ↔ ∀ i, v.getLsbD i = true → w.getLsbD i = true := by
  constructor
  · intro h i hi
    rw [← h, BitVec.getLsbD_and, Bool.and_eq_true] at hi
    exact hi.2
  · intro h
    refine BitVec.eq_of_getLsbD_eq fun i _ => ?_
    rw [BitVec.getLsbD_and]
    cases hv : v.getLsbD i with
    | false => rfl
    | true => rw [h i hv]; rfl

theorem Within.refl (v : BitVec 32) : Within v v := BitVec.and_self

theorem Within.trans (h : Within u v) (h' : Within v w) : Within u w :=
  within_iff.mpr fun i hi => within_iff.mp h' i (within_iff.mp h i hi)

theorem within_and_not (v mask : BitVec 32) : Within (v &&& ~~~mask) v :=
  within_iff.mpr fun i hi => by
    rw [BitVec.getLsbD_and, Bool.and_eq_true] at hi
    exact hi.1

theorem within_cleared (v mask : BitVec 32) (clear : Bool) : Within (if clear then v &&& ~~~mask else v) v := by
  cases clear with
  | true => exact within_and_not v mask
  | false => exact .refl v

theorem bitsSatisfy_mono (h : Within v w) (hw : bitsSatisfy w mask all = false) : bitsSatisfy v mask all = false := by
  rw [Bool.eq_false_iff] at hw ⊢
  intro hv
  apply hw
  cases all with
  | true =>
    simp only [bitsSatisfy, if_true, beq_iff_eq] at hv ⊢
    refine BitVec.eq_of_getLsbD_eq fun i _ => ?_
    rw [BitVec.getLsbD_and]
    cases hm : mask.getLsbD i with
    | false => rw [Bool.and_false]
    | true =>
      rw [← hv, BitVec.getLsbD_and, Bool.and_eq_true] at hm
      rw [within_iff.mp h i hm.1]
      rfl
  | false =>
    simp only [bitsSatisfy, Bool.false_eq_true, if_false, bne_iff_ne, ne_eq] at hv ⊢
    intro hz
    apply hv
    rw [← h, BitVec.and_assoc, hz]
    exact BitVec.and_zero

theorem conditionMet_eq (c : TaskControlBlock) (v : BitVec 32) :
    conditionMet c v = bitsSatisfy v c.eventWaitMask c.eventWaitAll := rfl

end

/-! ### The bits in the history -/

/-- The bits of `g` after an entry. -/
def Obs.bitsAfter (g : EventId) (v : BitVec 32) : Obs → BitVec 32
  | .bitsSet g' mask => if g' = g then v ||| mask else v
  | .bitsClear g' mask => if g' = g then v &&& ~~~mask else v
  | .bitsRead g' _ _ after => if g' = g then after else v
  | _ => v

def groupBits (g : EventId) (tr : List Obs) : BitVec 32 := tr.foldl (Obs.bitsAfter g) 0

section
variable {g : EventId} {tr os : List Obs} {o : Obs}

theorem groupBits_append : groupBits g (tr ++ os) = os.foldl (Obs.bitsAfter g) (groupBits g tr) := List.foldl_append

theorem groupBits_concat : groupBits g (tr ++ [o]) = o.bitsAfter g (groupBits g tr) := groupBits_append

theorem groupBits_of_none (h : ∀ o ∈ os, ∀ v, o.bitsAfter g v = v) : groupBits g (tr ++ os) = groupBits g tr := by
  induction os generalizing tr with
  | nil => rw [List.append_nil]
  | cons o os ih =>
    rw [List.append_cons, ih fun o ho => h o (by simp [ho]), groupBits_concat, h o (by simp)]

/-- Every read of the group saw its bits, and left no others. -/
def Witnessed (g : EventId) (tr : List Obs) : Prop :=
  ∀ pre c v after post, tr = pre ++ .bitsRead g c v after :: post → v = groupBits g pre ∧ Within after v

theorem Witnessed.concat (h : Witnessed g tr)
    (ho : ∀ c v after, o = .bitsRead g c v after → v = groupBits g tr ∧ Within after v) :
    Witnessed g (tr ++ [o]) := by
  intro pre c v after post heq
  rcases List.eq_nil_or_concat post with rfl | ⟨post', o', rfl⟩
  · obtain ⟨rfl, hlast⟩ := List.append_inj' heq rfl
    exact ho c v after (by simpa using hlast)
  · rw [List.concat_eq_append, ← List.cons_append, ← List.append_assoc] at heq
    obtain ⟨hpre, -⟩ := List.append_inj' heq rfl
    exact h pre c v after post' hpre

theorem Witnessed.append (h : Witnessed g tr) (hos : ∀ o ∈ os, ∀ c v after, o ≠ .bitsRead g c v after) :
    Witnessed g (tr ++ os) := by
  induction os generalizing tr with
  | nil => rwa [List.append_nil]
  | cons o os ih =>
    rw [List.append_cons]
    exact ih (h.concat fun c v after heq => absurd heq (hos o (by simp) c v after))
      fun o' ho' => hos o' (by simp [ho'])

end

/-- Entries about event bits. -/
def Obs.isBits : Obs → Bool
  | .bitsSet _ _ | .bitsClear _ _ | .bitsRead _ _ _ _ => true
  | _ => false

/-- The history of the group tells its bits. -/
def Core.Logged (e : Core) (g : EventId) : Prop := groupBits g e.trace = e.currentBits g ∧ Witnessed g e.trace

section
variable {a : Abs} {act : Action} {g g' : EventId} {e e' : Core} {os : List Obs} {c : Ctx} {after : BitVec 32}

theorem Core.Logged.of_none (h : e.Logged g) (htrace : e'.trace = e.trace ++ os)
    (hbits : e'.currentBits = e.currentBits) (hos : ∀ o ∈ os, o.isBits = false) : e'.Logged g := by
  unfold Core.Logged
  rw [htrace, hbits, groupBits_of_none fun o ho v => ?_]
  · refine ⟨h.1, h.2.append fun o ho c v after heq => ?_⟩
    have hnot := hos o ho
    rw [heq] at hnot
    cases hnot
  · have hnot := hos o ho
    cases o <;> first | rfl | cases hnot

theorem Core.Logged.read (h : e.Logged g) (htrace : e'.trace = e.trace ++ [.bitsRead g' c (e.currentBits g') after])
    (hbits : e'.currentBits = Function.update e.currentBits g' after) (hafter : Within after (e.currentBits g')) :
    e'.Logged g := by
  unfold Core.Logged
  rw [htrace, hbits, groupBits_concat]
  refine ⟨?_, h.2.concat fun c' v after' heq => ?_⟩
  · by_cases hg : g' = g
    · subst hg
      simp [Obs.bitsAfter]
    · simp [Obs.bitsAfter, hg, Function.update_of_ne (Ne.symm hg), h.1]
  · cases heq
    exact ⟨h.1.symm, hafter⟩

theorem Core.Logged.change {o : Obs} {f : BitVec 32 → BitVec 32} (h : e.Logged g) (htrace : e'.trace = e.trace ++ [o])
    (hbits : e'.currentBits = Function.update e.currentBits g' (f (e.currentBits g')))
    (ho : ∀ v, o.bitsAfter g v = if g' = g then f v else v) (hread : ∀ c v after, o ≠ .bitsRead g c v after) :
    e'.Logged g := by
  unfold Core.Logged
  rw [htrace, hbits, groupBits_concat, ho]
  refine ⟨?_, h.2.concat fun c v after heq => absurd heq (hread c v after)⟩
  by_cases hg : g' = g
  · subst hg
    simp [h.1]
  · simp [hg, Function.update_of_ne (Ne.symm hg), h.1]

theorem consume_bits (g : EventId) (c : Ctx) (mask : BitVec 32) (clear : Bool) (e : Core) :
    (EventGroup.consume g c mask clear e).currentBits = Function.update e.currentBits g
      (if clear then e.currentBits g &&& ~~~mask else e.currentBits g) := by
  cases clear with
  | true => rfl
  | false => exact (Function.update_eq_self _ _).symm

theorem logged_apply_data (h : a.Logged g) (hwf : a.WF) (hs : a.Starved) {d : DataOp} (he : d.Enabled a) :
    ((Action.data d).apply a).Logged g := by
  have htrace : ((Action.data d).apply a).trace = a.trace ++ (Action.data d).entries a := apply_trace hwf hs he
  cases d with
  | mark o =>
    refine h.of_none htrace rfl fun o' ho' => ?_
    rw [List.mem_singleton.mp ho']
    cases o <;> first | rfl | cases he
  | quiet e => exact h.of_none htrace he.currentBits (by simp [Action.entries, DataOp.entries])
  | consume g' c mask clear => exact h.read htrace (consume_bits g' c mask clear a.toCore) (within_cleared _ _ _)
  | addBits g' mask => exact h.change (f := (· ||| mask)) htrace rfl (fun _ => rfl) (by simp)
  | dropBits g' mask => exact h.change (f := (· &&& ~~~mask)) htrace rfl (fun _ => rfl) (by simp)
  | _ => exact h.of_none htrace rfl (by simp [Action.entries, DataOp.entries, Obs.isBits])

theorem logged_apply_hand (h : a.Logged g) (hwf : a.WF) (hs : a.Starved) {hd : Handing} {t : Tid}
    (he : hd.Enabled a t) : ((Action.hand hd t).apply a).Logged g := by
  have htrace : ((Action.hand hd t).apply a).trace = a.trace ++ (Action.hand hd t).entries a :=
    apply_trace hwf hs he
  have hx : hd.list.transfers = true → (a.tcb t).xferPtr = some (.task t) := hs.handed hwf he
  have hsame : (hd.run t a.toCore).currentBits = a.currentBits →
      (∀ o ∈ (Action.hand hd t).entries a, o.isBits = false) → ((Action.hand hd t).apply a).Logged g :=
    fun hbits => h.of_none htrace hbits
  cases hd with
  | token s => exact hsame rfl (by simp [Action.entries, Handing.cost, Handing.gift, Obs.isBits])
  | item q p =>
    refine hsame ?_ (by simp [Action.entries, Handing.cost, Handing.gift, Obs.isBits])
    rw [Handing.run_item (hx rfl)]
    rfl
  | slot q p =>
    refine hsame ?_ (by simp [Action.entries, Handing.cost, Handing.gift, Obs.isBits])
    rw [Handing.run_slot (hx rfl)]
    exact (pushFrom_rest q (.task t) _).2.trans (popTo_rest q p a.toCore).2
  | bits g' =>
    refine h.read htrace ?_ (within_cleared _ (a.tcb t).eventWaitMask (a.tcb t).eventClearOnExit)
    show ((Handing.bits g').run t a.toCore).currentBits = _
    rw [Handing.run_bits (hx rfl)]
    exact consume_bits g' (.task t) _ _ a.toCore

theorem logged_apply (h : a.Logged g) (hwf : a.WF) (hs : a.Starved) (he : act.Enabled a) : (act.apply a).Logged g := by
  by_cases hdata : ∃ d, act = .data d
  · obtain ⟨d, rfl⟩ := hdata
    exact logged_apply_data h hwf hs he
  by_cases hhand : ∃ hd t, act = .hand hd t
  · obtain ⟨hd, t, rfl⟩ := hhand
    exact logged_apply_hand h hwf hs he
  · obtain ⟨-, -, hbits, -, htrace⟩ := apply_objects (a := a) act (fun d heq => hdata ⟨d, heq⟩)
      fun y t heq => hhand ⟨y, t, heq⟩
    exact h.of_none (htrace.trans (List.append_nil _).symm) hbits (by simp)

theorem Runs.logged {v : Visit} {a' : Abs} {acts : List Action} (h : Runs v a acts a') (hwf : a.WF) (hs : a.Starved)
    (hl : a.Logged g) : a'.Logged g :=
  h.keeps_starved hwf hs hl fun _ _ hwf hs hl he _ => logged_apply hl hwf hs he

theorem Tracks.logged {config : Config} {good : Sys → Event → Prop} {s : Sys} (h : Tracks config good s a)
    (g : EventId) : a.Logged g := by
  induction h with
  | init => exact ⟨rfl, fun pre c v after post heq => by simp [Abs.init, Kernel.init] at heq⟩
  | step e h hg hs hruns hinv ih => exact hruns.logged h.inv.wf h.inv.starved ih

end

/-! ### Waiters are not satisfied -/

/-- No task that waits for bits of `g` is satisfied by them. -/
def Core.Unmet (e : Core) (g : EventId) : Prop :=
  ∀ t, e.WaitsOn t (.waiters g) → conditionMet (e.tcb t) (e.currentBits g) = false

section
variable {a : Abs} {act : Action} {g g' : EventId} {t : Tid}

theorem within_update {x : BitVec 32} (e : Core) (hx : Within x (e.currentBits g')) :
    Within (Function.update e.currentBits g' x g) (e.currentBits g) := by
  by_cases hg : g = g'
  · subst hg
    rwa [Function.update_self]
  · rw [Function.update_of_ne hg]
    exact .refl _

theorem hand_bits (hs : a.Starved) (hwf : a.WF) {hd : Handing} (he : hd.Enabled a t) :
    Within (((Action.hand hd t).apply a).currentBits g) (a.currentBits g) := by
  have hx : hd.list.transfers = true → (a.tcb t).xferPtr = some (.task t) := hs.handed hwf he
  show Within ((hd.run t a.toCore).currentBits g) _
  cases hd with
  | token s => exact .refl _
  | item q p =>
    rw [Handing.run_item (hx rfl)]
    exact .refl _
  | slot q p =>
    rw [Handing.run_slot (hx rfl)]
    exact .refl _
  | bits g' =>
    rw [Handing.run_bits (hx rfl)]
    show Within ((consume g' (.task t) (a.tcb t).eventWaitMask (a.tcb t).eventClearOnExit a.toCore).currentBits g) _
    rw [consume_bits]
    exact within_update a.toCore (within_cleared _ _ _)

theorem bits_apply (hwf : a.WF) (hs : a.Starved) (he : act.Enabled a)
    (hadd : ∀ mask, act ≠ .data (.addBits g mask)) :
    Within ((act.apply a).currentBits g) (a.currentBits g) := by
  by_cases hhand : ∃ hd t, act = .hand hd t
  · obtain ⟨hd, t, rfl⟩ := hhand
    exact hand_bits hs hwf he
  by_cases hdata : ∃ d, act = .data d
  · obtain ⟨d, rfl⟩ := hdata
    cases d with
    | consume g' c mask clear =>
      show Within ((consume g' c mask clear a.toCore).currentBits g) _
      rw [consume_bits]
      exact within_update a.toCore (within_cleared _ _ _)
    | dropBits g' mask => exact within_update a.toCore (within_and_not _ _)
    | addBits g' mask =>
      have hg : g ≠ g' := fun heq => hadd mask (by rw [heq])
      show Within (Function.update a.currentBits g' _ g) _
      rw [Function.update_of_ne hg]
      exact .refl _
    | quiet e =>
      rw [show ((Action.data (.quiet e)).apply a).currentBits = a.currentBits from he.currentBits]
      exact .refl _
    | _ => exact .refl _
  · rw [(apply_objects (a := a) act (fun d heq => hdata ⟨d, heq⟩) fun y t heq => hhand ⟨y, t, heq⟩).2.2.1]
    exact .refl _

theorem request_apply (hwf : a.WF) (he : act.Enabled a) {w : WaitId} (hw : a.WaitsOn t w) :
    SameRequest (a.tcb t) ((act.apply a).tcb t) := by
  rw [apply_tcb hwf he]
  refine sameRequest_tcb fun W timeout heq => ?_
  subst heq
  have hrun : (a.tcb t).state = .running := he.2.1
  rw [(hwf.ok t).waits (by rw [show (a.tcb t).waitList = some w from hw]; simp)] at hrun
  cases hrun

theorem conditionMet_same {c c' : TaskControlBlock} (h : SameRequest c c') (v : BitVec 32) :
    conditionMet c' v = conditionMet c v := by
  rw [conditionMet_eq, conditionMet_eq, h.eventWaitMask, h.eventWaitAll]

theorem Core.Unmet.apply (h : a.Unmet g) (hwf : a.WF) (hs : a.Starved) (he : act.Enabled a)
    (hadd : ∀ mask, act ≠ .data (.addBits g mask)) : (act.apply a).Unmet g := by
  intro t ht
  rcases waitList_apply hwf he ht with hw | ⟨W, timeout, rfl, hW⟩
  · rw [conditionMet_same (request_apply hwf he hw)]
    exact bitsSatisfy_mono (bits_apply hwf hs he hadd) (h t hw)
  · -- a task parks on a condition that is not met
    cases W <;> cases hW
    rename_i mask all clear
    have hblocks : bitsSatisfy (a.currentBits g) mask all = false := he.2.2.2
    have hbits : ((Action.park (.bits g mask all clear) t timeout).apply a).currentBits = a.currentBits :=
      (apply_objects _ (by simp) (by simp)).2.2.1
    rw [conditionMet_eq, hbits, apply_tcb hwf he]
    simpa [Action.tcb, Wait.request] using hblocks

/-! ### The scan -/

theorem scan_unmet {ts : List Tid} (hwf : a.WF) (hs : a.Starved) (hnodup : ts.Nodup)
    (hsub : ∀ t ∈ ts, t ∈ a.seq (.wait (.waiters g)))
    (h : ∀ t, a.WaitsOn t (.waiters g) → t ∈ ts ∨ conditionMet (a.tcb t) (a.currentBits g) = false) :
    (a.scan g ts).Unmet g := by
  induction ts generalizing a with
  | nil => exact fun t ht => (h t ht).resolve_left List.not_mem_nil
  | cons t ts ih =>
    obtain ⟨hnot, hnodup⟩ := List.nodup_cons.mp hnodup
    unfold Abs.scan
    split
    · rename_i hmet
      have he : (Action.hand (.bits g) t).Enabled a := ⟨hsub t (by simp), hmet⟩
      have hleft : ((Action.hand (.bits g) t).apply a).seq (.wait (.waiters g)) =
          (a.seq (.wait (.waiters g))).erase t := by
        show ((a.core ((Handing.bits g).run t)).wake t).seq (.wait (.waiters g)) = _
        exact seq_wake_wait _
      have hwf' := hwf.apply he
      refine ih hwf' (hs.apply hwf he) hnodup (fun u hu => ?_) fun u hu => ?_
      · have hne : u ≠ t := by
          rintro rfl
          exact hnot hu
        rw [hleft, List.mem_erase_of_ne hne]
        exact hsub u (by simp [hu])
      · have hmem := hwf'.mem_of_waits hu
        rw [hleft] at hmem
        have hne := ((hwf.nodup _).mem_erase_iff.mp hmem).1
        have hw := (hwf.mem_wait.mp (List.mem_of_mem_erase hmem)).2
        rcases h u hw with hm | hunmet
        · exact Or.inl ((List.mem_cons.mp hm).resolve_left hne)
        · right
          rw [conditionMet_same (request_apply hwf he hw)]
          exact bitsSatisfy_mono (hand_bits hs hwf he) hunmet
    · rename_i hunmet
      refine ih hwf hs hnodup (fun u hu => hsub u (by simp [hu])) fun u hu => ?_
      rcases h u hu with hm | hunmet'
      · rcases List.mem_cons.mp hm with rfl | hm
        · exact Or.inr (Bool.not_eq_true _ ▸ hunmet)
        · exact Or.inl hm
      · exact Or.inr hunmet'

/-- What the scan of `e` has delivered to `t` by `e'`: the bits of the group at that moment, which satisfy it. -/
def Core.Delivered (e e' : Core) (g : EventId) (t : Tid) : Prop :=
  conditionMet (e.tcb t) (e'.frame (.task t)).bits = true ∧ Within (e'.frame (.task t)).bits (e.currentBits g) ∧
    ∃ pre after post, e'.trace = pre ++ .bitsRead g (.task t) (e'.frame (.task t)).bits after :: post ∧
      (e'.frame (.task t)).bits = groupBits g pre

theorem scan_delivered {ts : List Tid} (hwf : a.WF) (hs : a.Starved) (hl : a.Logged g) (hnodup : ts.Nodup)
    (hsub : ∀ t ∈ ts, t ∈ a.seq (.wait (.waiters g))) (ht : a.WaitsOn t (.waiters g))
    (ht' : ¬ (a.scan g ts).WaitsOn t (.waiters g)) : a.Delivered (a.scan g ts).toCore g t := by
  let P : Abs → Prop := fun b => b.Logged g ∧ Within (b.currentBits g) (a.currentBits g) ∧
    (b.WaitsOn t (.waiters g) ∧ SameRequest (a.tcb t) (b.tcb t) ∨
      ¬ b.WaitsOn t (.waiters g) ∧ a.Delivered b.toCore g t)
  have hall : P (a.scan g ts) := by
    refine Abs.scan_induction hwf hs hnodup hsub ⟨hl, .refl _, Or.inl ⟨ht, rfl, rfl, rfl, rfl⟩⟩ ?_
    rintro b u hwf hs he ⟨hl, hwithin, hcases⟩
    have hen : (Handing.bits g).Enabled b u := he
    have hwaits : b.WaitsOn u (.waiters g) := (hwf.mem_wait.mp he.1).2
    have hx : (b.tcb u).xferPtr = some (.task u) := hs.xfer u _ hwaits rfl
    have htrace : ((Action.hand (.bits g) u).apply b).trace = b.trace ++ [(Handing.bits g).gift u b.toCore] :=
      apply_trace hwf hs he
    refine ⟨logged_apply hl hwf hs he, (hand_bits hs hwf hen).trans hwithin, ?_⟩
    have htcb := apply_tcb (u := t) hwf he
    by_cases hu : t = u
    · subst hu
      have hreq := (hcases.resolve_right fun hdone => hdone.1 hwaits).2
      have hframe : (((Action.hand (.bits g) t).apply b).frame (.task t)).bits = b.currentBits g := by
        show (((Handing.bits g).run t b.toCore).frame (.task t)).bits = _
        rw [Handing.run_bits hx]
        simp
      refine Or.inr ⟨fun hw => ?_, ?_⟩
      · have hnone : (((Action.hand (.bits g) t).apply b).tcb t).waitList = none := by
          rw [htcb]
          simp [Action.tcb]
        rw [Core.WaitsOn, hnone] at hw
        cases hw
      · rw [Core.Delivered, hframe]
        exact ⟨conditionMet_same hreq _ ▸ he.2, hwithin, b.trace, _, [], htrace, hl.1.symm⟩
    · have hsame : ((Action.hand (.bits g) u).apply b).tcb t = b.tcb t := by
        rw [htcb]
        simp [Action.tcb, hu]
      have hframe : ((Action.hand (.bits g) u).apply b).frame (.task t) = b.frame (.task t) :=
        (Handing.bits g).run_frame (c := .isr) (fun _ => hx) (by simpa using hu) (by simp) (by simp)
      rw [Core.WaitsOn, hsame]
      refine hcases.imp_right ?_
      rintro ⟨hnot, hmet, hbits, pre, after, post, heq, hv⟩
      refine ⟨hnot, ?_⟩
      rw [Core.Delivered, hframe]
      refine ⟨hmet, hbits, pre, after, post ++ [(Handing.bits g).gift u b.toCore], ?_, hv⟩
      rw [htrace, heq, List.append_assoc]
      rfl
  exact (hall.2.2.resolve_left fun hw => ht' hw.1).2

end

/-! ### One step -/

section
variable {σ : Slips} {s s' : Sys} {a : Abs} {e : Event} {g : EventId} {mask : BitVec 32}

theorem Runs.unmet {v : Visit} {a' : Abs} {acts : List Action} (h : Runs v a acts a') (hwf : a.WF) (hs : a.Starved)
    (hu : a.Unmet g) (hidle : v.before = .user → talk v.ctx a.trace = {})
    (hno : ∀ os, a'.trace = a.trace ++ os → ∀ o ∈ os, ∀ mask,
      o.asks ≠ some (.inl (.setBits g mask)) ∧ o.asks ≠ some (.inr (.setBitsFromIsr g mask))) : a'.Unmet g := by
  let Q : List Obs → Abs → Prop := fun os b =>
    (∀ o ∈ os, ∀ mask, o.asks ≠ some (.inl (.setBits g mask)) ∧
      o.asks ≠ some (.inr (.setBitsFromIsr g mask))) →
      b.Unmet g
  have hall : ∃ os, a'.trace = a.trace ++ os ∧ Q os a' := by
    refine h.traced (Q := Q) hwf hs (fun _ => hu) ?_
    intro act b os hwf hs htrace hunmet he hf hnot
    refine (hunmet fun o ho => hnot o (List.mem_append_left _ ho)).apply hwf hs he fun mask heq => ?_
    subst heq
    obtain ⟨hbefore, hasked⟩ := hf
    rw [htrace] at hasked
    rcases hasked with hasked | hasked
    · rcases talk_asked hasked with ⟨o, ho, -, hq⟩ | hold
      · exact (hnot o (List.mem_append_left _ ho) mask).1 hq
      · rw [hidle hbefore] at hold
        cases hold
    · rcases talk_asked hasked with ⟨o, ho, -, hq⟩ | hold
      · exact (hnot o (List.mem_append_left _ ho) mask).2 hq
      · rw [hidle hbefore] at hold
        cases hold
  obtain ⟨os, htrace, hunmet⟩ := hall
  exact hunmet (hno os htrace)

/-- The event sets `mask` in the group `g`. -/
def Event.Sets (g : EventId) (mask : BitVec 32) (e : Event) : Prop :=
  e = .call (.setBits g mask) ∨ ∃ y, e = .isr (.setBitsFromIsr g mask) y

theorem Inv.sets (h : Inv s a) (hs : s.step e = some s') (he : e.Sets g mask) :
    ∃ (b : Abs) (os : List Obs), b.WF ∧ b.Starved ∧ b.seq = a.seq ∧ b.tcb = a.tcb ∧
      b.currentBits g = s.k.currentBits g ||| mask ∧ (a.Logged g → b.Logged g) ∧
      s'.k.tcb = (b.scan g (b.seq (.wait (.waiters g)))).tcb ∧
      s'.k.currentBits = (b.scan g (b.seq (.wait (.waiters g)))).currentBits ∧
      s'.k.frame = (b.scan g (b.seq (.wait (.waiters g)))).frame ∧
      s'.k.trace = (b.scan g (b.seq (.wait (.waiters g)))).trace ++ os := by
  have hmark : ∀ {o : Obs}, o.isMark = true → (Action.data (.mark o)).Enabled a := fun ho => ho
  have hset : ∀ {o : Obs}, o.isMark = true →
      (Action.data (.addBits g mask)).Enabled ((Action.data (.mark o)).apply a) :=
    fun _ => trivial
  have hb : ∀ {o : Obs}, o.isMark = true → ∃ b : Abs, b.WF ∧ b.Starved ∧ b.seq = a.seq ∧ b.tcb = a.tcb ∧
      b.currentBits g = s.k.currentBits g ||| mask ∧ (a.Logged g → b.Logged g) ∧
      (EventGroup.setBitsLocked g mask (s.k.emit o)).2.toCore = (b.scan g (b.seq (.wait (.waiters g)))).toCore := by
    intro o ho
    have hwf := h.wf.apply (hmark ho)
    have hs := h.starved.apply h.wf (hmark ho)
    have heq : EventGroup.setBitsLocked g mask (s.k.core (·.emit o)) = (_, _) := (Prod.eta _).symm
    obtain ⟨-, hrep, -⟩ := setBitsLocked_runs (v := .handler true) (h.rep.core (·.emit o)) hwf heq fun _ => rfl
    refine ⟨_, hwf.apply (hset ho), hs.apply hwf (hset ho), rfl, rfl, ?_, fun hl => ?_, hrep.core_eq⟩
    · rw [h.rep.core_eq]
      exact Function.update_self _ _ _
    · exact logged_apply (logged_apply hl h.wf h.starved (hmark ho)) hwf hs (hset ho)
  rcases he with rfl | ⟨y, rfl⟩
  · obtain ⟨b, hwf, hst, hseq, htcb, hbits, hl, hcore⟩ := hb (o := .call s.k.self (.setBits g mask)) rfl
    obtain ⟨-, rfl, -⟩ := h.call_begins hs
    refine ⟨b, [], hwf, hst, hseq, htcb, hbits, hl, ?_⟩
    rw [← hcore, List.append_nil]
    exact ⟨rfl, rfl, rfl, rfl⟩
  · obtain ⟨b, hwf, hst, hseq, htcb, hbits, hl, hcore⟩ := hb (o := .isrCall (.setBitsFromIsr g mask)) rfl
    obtain ⟨-, -, -, -, rfl⟩ := Sys.step_isr.mp hs
    refine ⟨b, [.ret .isr (Sys.isrCall (.setBitsFromIsr g mask) (s.k.emit (.isrCall (.setBitsFromIsr g mask)))).1.1],
      hwf, hst, hseq, htcb, hbits, hl, ?_⟩
    rw [← hcore]
    exact ⟨rfl, rfl, rfl, rfl⟩

theorem Inv.unmet_step (h : Inv s a) (hs : s.step e = some s') (hσ : s.Admits σ e) (htold : s.Told σ)
    (hisr : talk .isr s.k.trace = {}) (hu : s.k.Unmet g) : s'.k.Unmet g := by
  by_cases hset : ∃ mask, e.Sets g mask
  · obtain ⟨mask, he⟩ := hset
    obtain ⟨b, os, hwf, hst, -, -, -, -, htcb, hbits, -, -⟩ := h.sets hs he
    have hunmet : (b.scan g (b.seq (.wait (.waiters g)))).Unmet g :=
      scan_unmet hwf hst (hwf.nodup _) (fun _ ht => ht) fun t ht => Or.inl (hwf.mem_of_waits ht)
    intro t ht
    rw [htcb, hbits]
    exact hunmet t (by rw [Core.WaitsOn, ← htcb]; exact ht)
  · obtain ⟨acts, a', hruns, hinv⟩ := h.step hs
    rw [hinv.rep.core_eq]
    refine hruns.unmet h.wf h.starved (by rw [← h.rep.core_eq]; exact hu) (fun hbefore => ?_)
      fun os htrace o ho mask => ?_
    · have hself : s.pc s.k.self = .user → talk s.k.self a.trace = {} := fun hpc => by
        have hsaid := htold s.k.self
        rw [hpc, h.rep.core_eq] at hsaid
        rw [h.rep.core_eq]
        exact hsaid
      rw [h.rep.core_eq] at hisr
      cases e with
      | call x => exact hself hbefore
      | advance => exact hself hbefore
      | _ => exact hisr
    · rw [← h.rep.core_eq, ← hinv.rep.core_eq] at htrace
      refine ⟨fun hq => hset ⟨mask, ?_⟩, fun hq => hset ⟨mask, ?_⟩⟩
      · rcases h.asked_step hs hσ htold htrace ho hq with ⟨x, rfl, hx⟩ | ⟨x, y, rfl, hx⟩
        · cases hx
          exact Or.inl rfl
        · cases hx
      · rcases h.asked_step hs hσ htold htrace ho hq with ⟨x, rfl, hx⟩ | ⟨x, y, rfl, hx⟩
        · cases hx
        · cases hx
          exact Or.inr ⟨y, rfl⟩

theorem Tracks.unmet {config : Config} {good : Sys → Event → Prop} (h : Tracks config good s a) (g : EventId) :
    s.k.Unmet g := by
  induction h with
  | init => exact fun t ht => by cases ht
  | step e h hg hs hruns hinv ih =>
    obtain ⟨htold, hpc, -⟩ := h.told
    have hisr := htold .isr
    rw [hpc] at hisr
    exact h.inv.unmet_step hs (Sys.admits_slips hg) htold hisr ih

end

/-- No event is missed: between two steps no parked waiter is satisfied by the bits of the group, which are those
that its history tells; and a task that a set wakes finds in its buffer the bits that the group had at that
moment, which satisfy its condition and are all among the old bits and those just set. -/
theorem no_missed_event {config : Config} {s : Sys} (h : Reachable config s) (g : EventId) :
    (∀ t, s.k.WaitsOn t (.waiters g) → conditionMet (s.k.tcb t) (s.k.currentBits g) = false) ∧
    groupBits g s.k.trace = s.k.currentBits g ∧
    ∀ e s' mask t, s.step e = some s' → e.Sets g mask → s.k.WaitsOn t (.waiters g) →
      ¬ s'.k.WaitsOn t (.waiters g) → ∃ v pre after post,
        (s.k.tcb t).xferPtr = some (.task t) ∧ (s'.k.frame (.task t)).bits = v ∧
        conditionMet (s.k.tcb t) v = true ∧ Within v (s.k.currentBits g ||| mask) ∧
        s'.k.trace = pre ++ .bitsRead g (.task t) v after :: post ∧ v = groupBits g pre := by
  obtain ⟨a, htracks⟩ := h.tracks
  have hi := htracks.inv
  have hl := htracks.logged g
  refine ⟨htracks.unmet g, by rw [hi.rep.core_eq]; exact hl.1, fun e s' mask t hs he ht ht' => ?_⟩
  obtain ⟨b, os, hwf, hst, hseq, htcb, hbits, hlog, htcb', -, hframe, htrace⟩ := hi.sets hs he
  have hbefore : b.WaitsOn t (.waiters g) := by
    rw [Core.WaitsOn, htcb, ← hi.rep.core_eq]
    exact ht
  obtain ⟨hmet, hwithin, pre, after, post, heq, hv⟩ := scan_delivered hwf hst (hlog hl) (hwf.nodup _)
    (fun _ hm => hm) hbefore fun hw => ht' (by rw [Core.WaitsOn, htcb']; exact hw)
  rw [htcb, ← hi.rep.core_eq] at hmet
  rw [hbits] at hwithin
  refine ⟨_, pre, after, post ++ os, ?_, hframe ▸ rfl, hmet, hwithin, ?_, hv⟩
  · rw [hi.rep.core_eq]
    exact hi.starved.xfer t _ (by rw [← hi.rep.core_eq]; exact ht) rfl
  · rw [htrace, heq, List.append_assoc]
    rfl

/-- A task waits for the first two bits of a group. -/
def Sys.waitBitsRun : List Event :=
  createRun 1 2 ++ startRun ++ [.call (.waitBits 0 3 true true kWaitForever), .advance, .advance, .pendSV 0]

theorem no_missed_event_wait : ∃ s s', Sys.run (Sys.init .small) Sys.waitBitsRun = some s ∧
    s.k.WaitsOn 0 (.waiters 0) ∧ s.step (.isr (.setBitsFromIsr 0 7) true) = some s' ∧
    Within (s'.k.frame (.task 0)).bits 7 := by
  have hrun : ((Sys.run (Sys.init .small) Sys.waitBitsRun).map fun s => ((s.k.tcb 0).waitList, s.k.currentBits 0,
      (s.step (.isr (.setBitsFromIsr 0 7) true)).map fun s' => (s'.k.tcb 0).waitList)) =
      some (some (.waiters 0), 0, some none) := by decide +kernel
  obtain ⟨s, hs, hstate⟩ := Option.map_eq_some_iff.mp hrun
  simp only [Prod.mk.injEq] at hstate
  obtain ⟨hwait, hbits, hstep⟩ := hstate
  obtain ⟨s', hs', hwoken⟩ := Option.map_eq_some_iff.mp hstep
  obtain ⟨v, -, -, -, -, hframe, -, hwithin, -⟩ := (no_missed_event (Reachable.run .init hs) 0).2.2 _ s' 7 0 hs'
    (Or.inr ⟨true, rfl⟩) hwait (by rw [Core.WaitsOn, hwoken]; simp)
  rw [hbits] at hwithin
  exact ⟨s, s', hs, hwait, hs', hframe ▸ hwithin⟩

end AcRtos
