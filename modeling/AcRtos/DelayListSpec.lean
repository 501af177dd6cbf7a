import AcRtos.Lists
import AcRtos.Lib.Chain
import AcRtos.Lib.Delta
import AcRtos.Lib.Insert

/-!
# `DelayList` keeps countdowns

`DelayLinks.Represents s sl`: the delay list of `s` holds the sleepers `sl`, each with its remaining ticks.
The list stores differences; every operation is the obvious one on the countdowns, and no 32-bit addition
or subtraction wraps.
-/

namespace AcRtos

open Lib

/-- The delta of a node as a number. -/
def DelayLinks.delta (s : DelayLinks) (t : Tid) : Nat := (s.delayTicks t).toNat

/-- The delay list of `s` holds the sleepers `sl` with their remaining ticks. -/
structure DelayLinks.Represents (s : DelayLinks) (sl : List (Tid × Nat)) : Prop where
  linked : Linked s.delayPrev s.delayNext (fun _ : Unit => s.head) (fun _ => (sl.map Prod.fst).getLast?)
    (fun _ => sl.map Prod.fst)
  deltas : Deltas s.delta 0 sl
  mem_iff : ∀ t, s.inDelayList t = true ↔ t ∈ sl.map Prod.fst
  bound : ∀ e ∈ sl, e.2 < 2 ^ 32

namespace DelayList

variable {s : DelayLinks} {sl : List (Tid × Nat)} {t : Tid}

theorem update_unit {β : Type} (f : Unit → β) (x : β) : Function.update f () x = fun _ => x := by
  funext j
  simp

/-- The search loop of `insert`, from a node on whose predecessors expire after `base` ticks. -/
theorem findSlot_eq {fuel n base : Nat} (ticks : TickType) {prev : Option Tid} (sl : List (Tid × Nat))
    (hseg : Seg s.delayPrev s.delayNext prev (sl.map Prod.fst) none) (hd : Deltas s.delta base sl)
    (hfuel : sl.length ≤ fuel) (hn : base ≤ n) (hticks : ticks.toNat = n - base) :
    ∃ rest : TickType,
      findSlot s fuel ticks prev (sl.map Prod.fst).head? =
        some (rest, ((sl.takeWhile fun e => decide (e.2 ≤ n)).map Prod.fst).getLast?.or prev,
          ((sl.dropWhile fun e => decide (e.2 ≤ n)).map Prod.fst).head?) ∧
      rest.toNat = n - endOf base (sl.takeWhile fun e => decide (e.2 ≤ n)) := by
  induction sl generalizing fuel base ticks prev with
  | nil => exact ⟨ticks, by cases fuel <;> simp [findSlot], by simpa using hticks⟩
  | cons e sl ih =>
    obtain ⟨fuel, rfl⟩ : ∃ m, fuel = m + 1 := ⟨fuel - 1, by simp at hfuel; omega⟩
    obtain ⟨-, hnext, hrest⟩ := hseg
    obtain ⟨hbase, hd⟩ := hd
    rw [Option.or_none] at hnext
    have hge : ticks ≥ s.delayTicks e.1 ↔ e.2 ≤ n := by
      rw [ge_iff_le, BitVec.le_def, hticks, hbase]
      unfold DelayLinks.delta
      omega
    rw [List.map_cons, List.head?_cons, findSlot]
    by_cases he : e.2 ≤ n
    · rw [if_pos (hge.mpr he), hnext]
      obtain ⟨rest, hslot, hval⟩ := ih (ticks - s.delayTicks e.1) hrest hd
        (by simp at hfuel; omega) he (by
          rw [BitVec.toNat_sub_of_le (hge.mpr he), hticks, hbase]
          unfold DelayLinks.delta
          omega)
      refine ⟨rest, ?_, ?_⟩
      · rw [hslot]
        simp only [he, decide_true, List.takeWhile_cons_of_pos, List.map_cons, List.getLast?_cons,
          List.dropWhile_cons_of_pos]
        cases (List.map Prod.fst (List.takeWhile (fun e => decide (e.2 ≤ n)) sl)).getLast? <;> rfl
      · simp only [he, decide_true, List.takeWhile_cons_of_pos, endOf_cons]
        exact hval
    · rw [if_neg (mt hge.mp he)]
      exact ⟨ticks, by simp [he], by simpa [he] using hticks⟩

/-! ### The fields after each surgery -/

section
variable {ticks : TickType} {prev current : Option Tid}

theorem linkAt_delayNext (hp : prev ≠ some t) (y : Tid) :
    (linkAt t ticks prev current s).delayNext y =
      if y = t then current else if prev = some y then some t else s.delayNext y := by
  unfold linkAt
  cases prev with
  | none => cases current <;> simp [Function.update_apply]
  | some p =>
    have hpt : t ≠ p := fun heq => hp (by rw [heq])
    by_cases hy : y = t
    · cases current <;> simp [hy, hpt]
    · cases current <;> simp [Function.update_apply, hy, @eq_comm _ p y]

theorem linkAt_delayPrev (hc : current ≠ some t) (y : Tid) :
    (linkAt t ticks prev current s).delayPrev y =
      if y = t then prev else if current = some y then some t else s.delayPrev y := by
  unfold linkAt
  cases current with
  | none => cases prev <;> simp [Function.update_apply]
  | some c =>
    have hct : t ≠ c := fun heq => hc (by rw [heq])
    by_cases hy : y = t
    · cases prev <;> simp [hy, hct]
    · cases prev <;> simp [Function.update_apply, hy, @eq_comm _ c y]

theorem linkAt_delayTicks (hc : current ≠ some t) (y : Tid) :
    (linkAt t ticks prev current s).delayTicks y =
      if y = t then ticks else if current = some y then s.delayTicks y - ticks else s.delayTicks y := by
  unfold linkAt
  cases current with
  | none => cases prev <;> simp [Function.update_apply]
  | some c =>
    have hct : t ≠ c := fun heq => hc (by rw [heq])
    by_cases hy : y = t
    · cases prev <;> simp [hy, hct]
    · by_cases hyc : y = c
      · subst hyc
        cases prev <;> simp [hy]
      · cases prev <;> simp [Function.update_apply, hy, hyc, @eq_comm _ c y]

theorem linkAt_head : (linkAt t ticks prev current s).head = if prev = none then some t else s.head := by
  unfold linkAt
  cases prev <;> cases current <;> simp

theorem linkAt_inDelayList :
    (linkAt t ticks prev current s).inDelayList = Function.update s.inDelayList t true := by
  unfold linkAt
  cases prev <;> cases current <;> simp

theorem remove_delayNext (hin : s.inDelayList t = true) (hn : s.delayNext t ≠ some t) (y : Tid) :
    (remove t s).delayNext y =
      if y = t then none else if s.delayPrev t = some y then s.delayNext t else s.delayNext y := by
  simp only [remove, hin, Bool.true_eq_false, if_false]
  cases hnext : s.delayNext t with
  | none => cases hprev : s.delayPrev t <;> simp [hnext, Function.update_apply, @eq_comm _ _ y]
  | some n =>
    have htn : t ≠ n := fun heq => hn (by rw [hnext, heq])
    cases hprev : s.delayPrev t <;> simp [hprev, hnext, htn, Function.update_apply, @eq_comm _ _ y]

theorem remove_delayPrev (hin : s.inDelayList t = true) (hn : s.delayNext t ≠ some t) (y : Tid) :
    (remove t s).delayPrev y =
      if y = t then none else if s.delayNext t = some y then s.delayPrev t else s.delayPrev y := by
  simp only [remove, hin, Bool.true_eq_false, if_false]
  cases hnext : s.delayNext t with
  | none => cases hprev : s.delayPrev t <;> simp [Function.update_apply]
  | some n =>
    have htn : t ≠ n := fun heq => hn (by rw [hnext, heq])
    cases hprev : s.delayPrev t <;> simp [hprev, htn, Function.update_apply, @eq_comm _ n y]

theorem remove_delayTicks (hin : s.inDelayList t = true) (hn : s.delayNext t ≠ some t) (y : Tid) :
    (remove t s).delayTicks y =
      if y = t then 0 else if s.delayNext t = some y then s.delayTicks y + s.delayTicks t
        else s.delayTicks y := by
  simp only [remove, hin, Bool.true_eq_false, if_false]
  cases hnext : s.delayNext t with
  | none => cases hprev : s.delayPrev t <;> simp [Function.update_apply]
  | some n =>
    have htn : t ≠ n := fun heq => hn (by rw [hnext, heq])
    by_cases hyn : y = n
    · subst hyn
      cases hprev : s.delayPrev t <;> simp [hprev, htn, htn.symm]
    · cases hprev : s.delayPrev t <;> simp [hprev, htn, Function.update_apply, hyn, @eq_comm _ n y]

theorem remove_head (hin : s.inDelayList t = true) (hn : s.delayNext t ≠ some t) :
    (remove t s).head = if s.delayPrev t = none then s.delayNext t else s.head := by
  simp only [remove, hin, Bool.true_eq_false, if_false]
  cases hnext : s.delayNext t with
  | none => cases hprev : s.delayPrev t <;> simp [hnext]
  | some n =>
    have htn : t ≠ n := fun heq => hn (by rw [hnext, heq])
    cases hprev : s.delayPrev t <;> simp [hprev, hnext, htn]

theorem remove_inDelayList (hin : s.inDelayList t = true) :
    (remove t s).inDelayList = Function.update s.inDelayList t false := by
  simp only [remove, hin, Bool.true_eq_false, if_false]
  cases s.delayNext t with
  | none => cases hprev : s.delayPrev t <;> simp
  | some n =>
    simp only [DelayLinks.setDelayPrev_delayPrev, DelayLinks.setDelayTicks_delayPrev]
    split <;> simp

end

/-! ### The operations -/

theorem represents_of_eq {s' : DelayLinks} {next' prev' : Tid → Option Tid} {head' : Option Tid}
    (hnext : ∀ y, s'.delayNext y = next' y) (hprev : ∀ y, s'.delayPrev y = prev' y)
    (hhead : s'.head = head')
    (hl : Linked prev' next' (fun _ : Unit => head') (fun _ => (sl.map Prod.fst).getLast?)
      (fun _ => sl.map Prod.fst))
    (hd : Deltas s'.delta 0 sl) (hm : ∀ u, s'.inDelayList u = true ↔ u ∈ sl.map Prod.fst)
    (hb : ∀ e ∈ sl, e.2 < 2 ^ 32) : s'.Represents sl := by
  obtain rfl : s'.delayNext = next' := funext hnext
  obtain rfl : s'.delayPrev = prev' := funext hprev
  subst hhead
  exact ⟨hl, hd, hm, hb⟩

theorem linkAt_represents {left right : List (Tid × Nat)} {n : Nat} {rest : TickType}
    (h : s.Represents (left ++ right)) (ht : t ∉ (left ++ right).map Prod.fst) (hn : n < 2 ^ 32)
    (hrest : rest.toNat = n - endOf 0 left) (hend : endOf 0 left ≤ n)
    (hafter : ∀ e, right.head? = some e → n < e.2) :
    (linkAt t rest (left.map Prod.fst).getLast? (right.map Prod.fst).head? s).Represents
      (left ++ (t, n) :: right) := by
  rw [List.map_append, List.mem_append, not_or] at ht
  have hleft : (left.map Prod.fst).getLast? ≠ some t := fun heq => ht.1 (List.mem_of_getLast? heq)
  have hright : (right.map Prod.fst).head? ≠ some t := fun heq =>
    ht.2 (List.mem_of_mem_head? (by simp [heq]))
  have hhead : s.head = ((left ++ right).map Prod.fst).head? := h.linked.head_eq ()
  have hins : Linked
      (fun y => if y = t then (left.map Prod.fst).getLast?
        else if (right.map Prod.fst).head? = some y then some t else s.delayPrev y)
      (fun y => if y = t then (right.map Prod.fst).head?
        else if (left.map Prod.fst).getLast? = some y then some t else s.delayNext y)
      (fun _ => (left.map Prod.fst ++ t :: right.map Prod.fst).head?)
      (fun _ => (left.map Prod.fst ++ t :: right.map Prod.fst).getLast?)
      (Function.update _ () (left.map Prod.fst ++ t :: right.map Prod.fst)) :=
    h.linked.insert (i := ()) (l := left.map Prod.fst) (r := right.map Prod.fst) (x := t)
      (by simp) (by simpa using ht) (by simp) (by simp)
    (fun y hy => by rw [if_neg (fun heq => hleft (by rw [hy, heq])), if_pos hy])
    (fun y hy => by rw [if_neg (fun heq => hright (by rw [hy, heq])), if_pos hy])
    (fun y hy hy' => by rw [if_neg hy, if_neg hy']) (fun y hy hy' => by rw [if_neg hy, if_neg hy'])
    (by rw [update_unit]) (by rw [update_unit])
  rw [update_unit] at hins
  refine represents_of_eq (linkAt_delayNext hleft) (linkAt_delayPrev hright) ?_
    (by simpa using hins) ?_ ?_ ?_
  · rw [linkAt_head, hhead]
    rcases List.eq_nil_or_concat left with rfl | ⟨l', e, rfl⟩
    · simp
    · cases l' <;> simp
  · obtain ⟨hdl, hdr⟩ := deltas_append.mp h.deltas
    refine deltas_append.mpr ⟨hdl.congr fun e he => ?_, ?_, ?_⟩
    · have het : e.1 ≠ t := fun heq => ht.1 (heq ▸ List.mem_map_of_mem he)
      have hnodup := h.linked.nodup ()
      rw [List.map_append, List.nodup_append] at hnodup
      have hc : (right.map Prod.fst).head? ≠ some e.1 := fun heq =>
        hnodup.2.2 e.1 (List.mem_map_of_mem he) e.1 (List.mem_of_mem_head? (by simp [heq])) rfl
      simp only [DelayLinks.delta]
      rw [linkAt_delayTicks hright, if_neg het, if_neg hc]
    · show n = endOf 0 left + DelayLinks.delta _ t
      simp only [DelayLinks.delta]
      rw [linkAt_delayTicks hright, if_pos rfl, hrest]
      omega
    · cases right with
      | nil => trivial
      | cons c right =>
        obtain ⟨hc, hdr⟩ := hdr
        have hct : c.1 ≠ t := fun heq => ht.2 (by simp [heq])
        have hlt : n < c.2 := hafter c rfl
        refine ⟨?_, hdr.congr fun e he => ?_⟩
        · have hle : rest ≤ s.delayTicks c.1 := by
            rw [BitVec.le_def, hrest]
            unfold DelayLinks.delta at hc
            omega
          show c.2 = n + DelayLinks.delta _ c.1
          simp only [DelayLinks.delta]
          rw [linkAt_delayTicks hright, if_neg hct, if_pos (by simp), BitVec.toNat_sub_of_le hle, hrest]
          unfold DelayLinks.delta at hc
          omega
        · have het : e.1 ≠ t := fun heq =>
            ht.2 (heq ▸ List.mem_map_of_mem (List.mem_cons_of_mem _ he))
          have hnodup := h.linked.nodup ()
          rw [List.map_append, List.nodup_append, List.map_cons, List.nodup_cons] at hnodup
          have hec : c.1 ≠ e.1 := fun heq => hnodup.2.1.1 (heq ▸ List.mem_map_of_mem he)
          simp only [DelayLinks.delta]
          rw [linkAt_delayTicks hright, if_neg het, if_neg (by simpa using hec)]
  · intro u
    rw [linkAt_inDelayList]
    by_cases hu : u = t
    · subst hu; simp
    · rw [Function.update_of_ne hu, h.mem_iff]
      simp [hu]
  · intro e he
    rcases List.mem_append.mp he with he | he
    · exact h.bound e (by simp [he])
    · rcases List.mem_cons.mp he with rfl | he
      · exact hn
      · exact h.bound e (by simp [he])

theorem insert_represents {fuel : Nat} (ticks : TickType) (h : s.Represents sl)
    (ht : t ∉ sl.map Prod.fst) (hfuel : sl.length ≤ fuel) :
    ∃ s', insert fuel t ticks s = some s' ∧
      s'.Represents (insertWhile (fun e => decide (e.2 ≤ ticks.toNat)) (t, ticks.toNat) sl) := by
  have hhead : s.head = (sl.map Prod.fst).head? := h.linked.head_eq ()
  obtain ⟨rest, hslot, hrest⟩ := findSlot_eq (n := ticks.toNat) ticks sl (h.linked.seg ())
    h.deltas hfuel (Nat.zero_le _) (by simp)
  have hcat := List.takeWhile_append_dropWhile (p := fun e : Tid × Nat => decide (e.2 ≤ ticks.toNat))
    (l := sl)
  have hbefore : ∀ e ∈ sl.takeWhile (fun e => decide (e.2 ≤ ticks.toNat)), e.2 ≤ ticks.toNat :=
    fun e he => by simpa using List.mem_takeWhile_imp he
  have hafter : ∀ e, (sl.dropWhile (fun e => decide (e.2 ≤ ticks.toNat))).head? = some e →
      ticks.toNat < e.2 := by
    intro e he
    have := List.head?_dropWhile_not (fun e : Tid × Nat => decide (e.2 ≤ ticks.toNat)) sl
    rw [he] at this
    simpa using this
  rw [Option.or_none] at hslot
  unfold insert
  rw [hhead, hslot]
  rw [insertWhile]
  generalize sl.takeWhile (fun e => decide (e.2 ≤ ticks.toNat)) = left at *
  generalize sl.dropWhile (fun e => decide (e.2 ≤ ticks.toNat)) = right at *
  subst hcat
  refine ⟨_, rfl, linkAt_represents h ht ticks.isLt hrest ?_ hafter⟩
  rcases List.eq_nil_or_concat left with rfl | ⟨l', e, rfl⟩
  · simp
  · simpa [endOf] using hbefore e (by simp)

/-- Unlinking `t`: its delta goes to the next node. -/
theorem unlink_represents {s' : DelayLinks} (left : List (Tid × Nat)) {right : List (Tid × Nat)} {n : Nat}
    (h : s.Represents (left ++ (t, n) :: right))
    (hnext : ∀ y, s'.delayNext y =
      if y = t then none else if s.delayPrev t = some y then s.delayNext t else s.delayNext y)
    (hprev : ∀ y, s'.delayPrev y =
      if y = t then none else if s.delayNext t = some y then s.delayPrev t else s.delayPrev y)
    (hticks : ∀ y, y ≠ t → s'.delayTicks y =
      if s.delayNext t = some y then s.delayTicks y + s.delayTicks t else s.delayTicks y)
    (hhead : s'.head = if s.delayPrev t = none then s.delayNext t else s.head)
    (hin : s'.inDelayList = Function.update s.inDelayList t false) :
    s'.Represents (left ++ right) := by
  have hsplit : (left ++ (t, n) :: right).map Prod.fst = left.map Prod.fst ++ t :: right.map Prod.fst := by
    simp
  have hnodup := h.linked.nodup ()
  rw [hsplit, List.nodup_append, List.nodup_cons] at hnodup
  obtain ⟨-, ⟨hr, hrn⟩, hsep⟩ := hnodup
  have hl : t ∉ left.map Prod.fst := fun hx => hsep t hx t (by simp) rfl
  obtain ⟨hp, hn⟩ := h.linked.links_of_split (i := ()) hsplit
  have hleft : (left.map Prod.fst).getLast? ≠ some t := fun heq => hl (List.mem_of_getLast? heq)
  have hright : (right.map Prod.fst).head? ≠ some t := fun heq =>
    hr (List.mem_of_mem_head? (by simp [heq]))
  have hhd : s.head = ((left ++ (t, n) :: right).map Prod.fst).head? := h.linked.head_eq ()
  have her : Linked s'.delayPrev s'.delayNext
      (fun _ => (left.map Prod.fst ++ right.map Prod.fst).head?)
      (fun _ => (left.map Prod.fst ++ right.map Prod.fst).getLast?)
      (Function.update _ () (left.map Prod.fst ++ right.map Prod.fst)) :=
    h.linked.erase (i := ()) (l := left.map Prod.fst) (r := right.map Prod.fst) (x := t) hsplit
    (fun y hy => by rw [hnext, if_neg (fun heq => hleft (by rw [hy, heq])), hp, if_pos hy, hn])
    (fun y hy => by rw [hprev, if_neg (fun heq => hright (by rw [hy, heq])), hn, if_pos hy, hp])
    (fun y hy hy' => by rw [hnext, if_neg hy, hp, if_neg hy'])
    (fun y hy hy' => by rw [hprev, if_neg hy, hn, if_neg hy'])
    (by rw [update_unit]) (by rw [update_unit])
  rw [update_unit] at her
  refine represents_of_eq (fun _ => rfl) (fun _ => rfl) ?_ (by simpa using her) ?_ ?_ ?_
  · rw [hhead, hp, hn, hhd]
    rcases List.eq_nil_or_concat left with rfl | ⟨l', e, rfl⟩
    · simp
    · cases l' <;> simp
  · obtain ⟨hdl, hdt, hdr⟩ := deltas_append.mp h.deltas
    refine deltas_append.mpr ⟨hdl.congr fun e he => ?_, ?_⟩
    · have hmem : e.1 ∈ left.map Prod.fst := List.mem_map_of_mem he
      have het : e.1 ≠ t := fun heq => hl (heq ▸ hmem)
      have hc : (right.map Prod.fst).head? ≠ some e.1 := fun heq =>
        hsep e.1 hmem e.1 (List.mem_cons_of_mem _ (List.mem_of_mem_head? (by simp [heq]))) rfl
      simp only [DelayLinks.delta]
      rw [hticks _ het, hn, if_neg hc]
    · cases right with
      | nil => trivial
      | cons c right =>
        obtain ⟨hc, hdr⟩ := hdr
        have hct : c.1 ≠ t := fun heq => hr (by simp [heq])
        have hcb : c.2 < 2 ^ 32 := h.bound c (by simp)
        refine ⟨?_, hdr.congr fun e he => ?_⟩
        · show c.2 = endOf 0 left + DelayLinks.delta _ c.1
          simp only [DelayLinks.delta] at hdt hc ⊢
          rw [hticks _ hct, hn, if_pos (by simp), BitVec.toNat_add]
          rw [Nat.mod_eq_of_lt (by omega)]
          omega
        · have het : e.1 ≠ t := fun heq =>
            hr (heq ▸ List.mem_map_of_mem (List.mem_cons_of_mem _ he))
          rw [List.map_cons, List.nodup_cons] at hrn
          have hec : c.1 ≠ e.1 := fun heq => hrn.1 (heq ▸ List.mem_map_of_mem he)
          simp only [DelayLinks.delta]
          rw [hticks _ het, hn, if_neg (by simpa using hec)]
  · intro u
    rw [hin]
    by_cases hu : u = t
    · subst hu
      rw [Function.update_self, List.map_append, List.mem_append]
      simp only [Bool.false_eq_true, false_iff, not_or]
      exact ⟨hl, hr⟩
    · rw [Function.update_of_ne hu, h.mem_iff]
      simp [hu]
  · intro e he
    refine h.bound e ?_
    rcases List.mem_append.mp he with he | he
    · exact List.mem_append_left _ he
    · exact List.mem_append_right _ (List.mem_cons_of_mem _ he)

theorem not_own_neighbour (h : s.Represents sl) (ht : t ∈ sl.map Prod.fst) :
    s.delayNext t ≠ some t := by
  obtain ⟨left, right, hsplit⟩ := List.append_of_mem ht
  obtain ⟨-, hn⟩ := h.linked.links_of_split (i := ()) hsplit
  have hnodup := h.linked.nodup ()
  rw [hsplit, List.nodup_append, List.nodup_cons] at hnodup
  rw [hn]
  exact fun heq => hnodup.2.1.1 (List.mem_of_mem_head? (by simp [heq]))

theorem exists_split (h : s.Represents sl) (ht : t ∈ sl.map Prod.fst) :
    ∃ left right n, sl = left ++ (t, n) :: right ∧ sl.filter (fun e => e.1 ≠ t) = left ++ right := by
  obtain ⟨⟨u, n⟩, hmem, rfl⟩ := List.mem_map.mp ht
  obtain ⟨left, right, rfl⟩ := List.append_of_mem hmem
  refine ⟨left, right, n, rfl, ?_⟩
  have hnodup := h.linked.nodup ()
  rw [List.map_append, List.map_cons, List.nodup_append, List.nodup_cons] at hnodup
  have hl : left.filter (fun e => decide (e.1 ≠ u)) = left := List.filter_eq_self.mpr fun e he => by
    simpa using hnodup.2.2 e.1 (List.mem_map_of_mem he) u (by simp)
  have hr : right.filter (fun e => decide (e.1 ≠ u)) = right := List.filter_eq_self.mpr fun e he => by
    have hmem : e.1 ∈ right.map Prod.fst := List.mem_map_of_mem he
    have : e.1 ≠ u := fun heq => hnodup.2.1.1 (heq ▸ hmem)
    simpa using this
  rw [List.filter_append, List.filter_cons, hl, hr]
  simp

theorem remove_represents (h : s.Represents sl) :
    (remove t s).Represents (sl.filter fun e => e.1 ≠ t) := by
  by_cases hin : s.inDelayList t = true
  · have ht := (h.mem_iff t).mp hin
    have hn := not_own_neighbour h ht
    obtain ⟨left, right, n, rfl, hfilter⟩ := exists_split h ht
    rw [hfilter]
    exact unlink_represents _ h (remove_delayNext hin hn) (remove_delayPrev hin hn)
      (fun y hy => by rw [remove_delayTicks hin hn, if_neg hy]) (remove_head hin hn)
      (remove_inDelayList hin)
  · have hnot : t ∉ sl.map Prod.fst := fun hmem => hin ((h.mem_iff t).mpr hmem)
    have hfilter : sl.filter (fun e => e.1 ≠ t) = sl := List.filter_eq_self.mpr fun e he => by
      have : e.1 ≠ t := fun heq => hnot (heq ▸ List.mem_map_of_mem he)
      simpa using this
    rw [hfilter, remove, if_pos (by simpa using hin)]
    exact h

theorem unlinkHead_represents (h : s.Represents ((t, 0) :: sl)) : (unlinkHead t s).Represents sl := by
  have ht : t ∈ ((t, 0) :: sl).map Prod.fst := by simp
  have hn := not_own_neighbour h ht
  obtain ⟨hp, -⟩ := h.linked.links_of_split (i := ()) (l := []) rfl
  have hp' : s.delayPrev t = none := hp
  have hzero : s.delayTicks t = 0 := BitVec.eq_of_toNat_eq (by
    have := h.deltas.1
    simp only [DelayLinks.delta] at this
    simpa using this.symm)
  refine unlink_represents [] h ?_ ?_ ?_ ?_ ?_
  · intro y
    cases hnt : s.delayNext t <;> simp [unlinkHead, hnt, hp', Function.update_apply]
  · intro y
    cases hnt : s.delayNext t with
    | none => simp [unlinkHead, hnt, Function.update_apply]
    | some c => simp [unlinkHead, hnt, hp', Function.update_apply, @eq_comm _ c y]
  · intro y hy
    cases hnt : s.delayNext t <;> simp [unlinkHead, hnt, hzero]
  · cases hnt : s.delayNext t <;> simp [unlinkHead, hnt, hp']
  · cases hnt : s.delayNext t <;> simp [unlinkHead, hnt]

theorem head_expired {e : Tid × Nat} (h : s.Represents (e :: sl)) :
    s.head = some e.1 ∧ (s.delayTicks e.1 = 0 ↔ e.2 = 0) := by
  refine ⟨h.linked.head_eq (), ?_⟩
  have hd := h.deltas.1
  simp only [DelayLinks.delta, Nat.zero_add] at hd
  rw [hd]
  exact ⟨fun heq => by rw [heq]; rfl, fun heq => BitVec.eq_of_toNat_eq (by simpa using heq)⟩

theorem decrementHead_represents (h : s.Represents sl) (hpos : ∀ e ∈ sl, 1 ≤ e.2) :
    (decrementHead s).Represents (sl.map fun e => (e.1, e.2 - 1)) := by
  cases sl with
  | nil =>
    have hhead : s.head = none := h.linked.head_eq ()
    simpa [decrementHead, hhead] using h
  | cons e sl =>
    have hhead : s.head = some e.1 := h.linked.head_eq ()
    obtain ⟨hd, hdr⟩ := h.deltas
    have hpos1 := hpos e (by simp)
    have hlt : (0 : TickType) < s.delayTicks e.1 := by
      rw [BitVec.lt_def]
      unfold DelayLinks.delta at hd
      simp
      omega
    have hdec : decrementHead s = s.setDelayTicks e.1 (s.delayTicks e.1 - 1) := by
      simp only [decrementHead, hhead, gt_iff_lt, hlt, if_true]
    have hone : (1 : TickType) ≤ s.delayTicks e.1 := by
      rw [BitVec.lt_def] at hlt
      rw [BitVec.le_def]
      simp at hlt ⊢
      omega
    have hfst : (List.map (fun e : Tid × Nat => (e.1, e.2 - 1)) (e :: sl)).map Prod.fst =
        (e :: sl).map Prod.fst := by simp
    have hnodup := h.linked.nodup ()
    rw [List.map_cons, List.nodup_cons] at hnodup
    rw [hdec]
    refine represents_of_eq (fun _ => rfl) (fun _ => rfl) rfl (by rw [hfst]; exact h.linked) ?_ ?_ ?_
    · refine ⟨?_, ?_⟩
      · show e.2 - 1 = 0 + DelayLinks.delta _ e.1
        unfold DelayLinks.delta at hd ⊢
        rw [DelayLinks.setDelayTicks_delayTicks, Function.update_self, BitVec.toNat_sub_of_le hone]
        simp
        omega
      · show Deltas _ (e.2 - 1) _
        refine (hdr.pred hpos1).congr fun c hc => ?_
        obtain ⟨c', hc', rfl⟩ := List.mem_map.mp hc
        have hne : c'.1 ≠ e.1 := fun heq => hnodup.1 (heq ▸ List.mem_map_of_mem hc')
        unfold DelayLinks.delta
        rw [DelayLinks.setDelayTicks_delayTicks, Function.update_of_ne hne]
    · intro u
      rw [hfst]
      exact h.mem_iff u
    · intro c hc
      obtain ⟨c', hc', rfl⟩ := List.mem_map.mp hc
      have := h.bound c' hc'
      show c'.2 - 1 < 2 ^ 32
      omega

end DelayList

end AcRtos
