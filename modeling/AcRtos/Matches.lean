import AcRtos.EventBits

/-!
# Matched waits with `clear_on_exit`

A wait with `clear_on_exit` takes the bits that it reports as matched. Its value comes from one of three places. The
critical section of `wait_bits` and the scan of a setter clear the mask where they read the bits; the read after a
wait that failed clears nothing, though the bits may match by then (`Sys.StaleRead`), and so does the read for a
caller that is no task. A run without such a read keeps the promise: every completed call tells so (`Consumed`), and
as the history tells the bits, a bit that was reported is gone until somebody sets it again.
-/

namespace AcRtos

open EventGroup

/-! ### Steps that report without taking -/

/-- `Sys.StaleRead`, computed: the call of the running context says which wait it was. -/
def Sys.staleRead (s : Sys) : Event → Bool
  | .advance =>
    match s.pc s.k.self, (talk s.k.self s.k.trace).asked with
    | .reread g, some (.inl (.waitBits g' mask all true _)) =>
      g == g' && mask != 0 && bitsSatisfy (s.k.currentBits g) mask all
    | _, _ => false
  | .call (.waitBits g mask all true _) =>
    s.k.currentTask.isNone && mask != 0 && bitsSatisfy (s.k.currentBits g) mask all
  | _ => false

theorem Sys.staleRead_iff {s : Sys} {e : Event} : s.staleRead e = true ↔ s.StaleRead e := by
  constructor
  · intro h
    unfold staleRead at h
    split at h
    · split at h
      · rename_i hpc hasked
        simp only [Bool.and_eq_true, beq_iff_eq, bne_iff_ne, ne_eq] at h
        obtain ⟨⟨rfl, hmask⟩, hmet⟩ := h
        exact ⟨_, _, _, _, hmask, hmet, Or.inl ⟨rfl, hpc, hasked⟩⟩
      · cases h
    · simp only [Bool.and_eq_true, bne_iff_ne, ne_eq, Option.isNone_iff_eq_none] at h
      exact ⟨_, _, _, _, h.1.2, h.2, Or.inr ⟨rfl, h.1.1⟩⟩
    · cases h
  · rintro ⟨g, mask, all, ms, hne, hmet, hread⟩
    have hmask : mask ≠ 0#32 := hne
    rcases hread with ⟨rfl, hpc, hasked⟩ | ⟨rfl, hcur⟩
    · simp [staleRead, hpc, hasked, hmask, hmet]
    · simp [staleRead, hcur, hmask, hmet]

instance (s : Sys) (e : Event) : Decidable (s.StaleRead e) := decidable_of_iff _ Sys.staleRead_iff

/-! ### Completed waits -/

/-- Every completed wait with `clear_on_exit` that returned a value which satisfies it has removed its mask where it
read that value. -/
def Consumed (tr : List Obs) : Prop :=
  ∀ c, Answered (fun q os r => ∀ g mask all ms v,
    q = .inl (.waitBits g mask all true ms) → mask ≠ 0 → r = .bits v →
    bitsSatisfy v mask all = true → os = [.bitsRead g c v (v &&& ~~~mask)]) c tr

/-- The value that a wait for bit `i` of `g`, with `clear_on_exit`, has read right after `pre` is the one it returned,
and it satisfies the wait. -/
def Matched (g : EventId) (i : Nat) (tr pre : List Obs) : Prop :=
  ∃ c all ms v after mid post, tr = pre ++ .bitsRead g c v after :: (mid ++ .ret c (.bits v) :: post) ∧
    (∀ o ∈ mid, o.ctx = some c → o.isMark = false) ∧
    (talk c pre).asked = some (.inl (.waitBits g (BitVec.twoPow 32 i) all true ms)) ∧
    bitsSatisfy v (BitVec.twoPow 32 i) all = true

section
variable {g : EventId} {i : Nat} {tr pre mid os post : List Obs} {v : BitVec 32} {all : Bool}

theorem twoPow_ne_zero (hi : i < 32) : BitVec.twoPow 32 i ≠ 0 := by
  intro hz
  have hbit := BitVec.getLsbD_twoPow (w := 32) i i
  rw [hz] at hbit
  simp [hi] at hbit

theorem bitsSatisfy_twoPow (hi : i < 32) : bitsSatisfy v (BitVec.twoPow 32 i) all = v.getLsbD i := by
  unfold bitsSatisfy
  rw [BitVec.and_twoPow]
  have hne : BitVec.twoPow 32 i ≠ 0#32 := twoPow_ne_zero hi
  cases hv : v.getLsbD i with
  | true => simp [hne]
  | false => simp [hne.symm]

theorem Matched.taken (h : Matched g i tr pre) (hi : i < 32) (hc : Consumed tr) :
    ∃ c v after post, tr = pre ++ .bitsRead g c v after :: post ∧ v.getLsbD i = true ∧
      after.getLsbD i = false := by
  obtain ⟨c, all, ms, v, after, mid, post, heq, hmid, hasked, hmet⟩ := h
  have hmarks : ∀ o ∈ .bitsRead g c v after :: mid, o.ctx = some c → o.isMark = false := by
    intro o ho hctx
    rcases List.mem_cons.mp ho with rfl | ho
    · rfl
    · exact hmid o ho hctx
  have htalk : talk c (pre ++ .bitsRead g c v after :: mid) = (talk c pre).add _ := talk_append_add hmarks
  have hsplit : tr = (pre ++ .bitsRead g c v after :: mid) ++ .ret c (.bits v) :: post := by
    rw [heq, List.append_assoc]
    rfl
  have hcall := (congrArg Talk.asked htalk).trans hasked
  have htook := hc c _ _ _ hsplit _ hcall g _ all ms v rfl (twoPow_ne_zero hi) rfl hmet
  -- the read is the only entry of the call
  have hafter : after = v &&& ~~~BitVec.twoPow 32 i := by
    have hmem : Obs.bitsRead g c v after ∈ (talk c (pre ++ .bitsRead g c v after :: mid)).since := by
      rw [htalk]
      simp [Obs.ctx]
    rw [htook, List.mem_singleton] at hmem
    exact (Obs.bitsRead.inj hmem).2.2.2
  refine ⟨c, v, after, _, heq, bitsSatisfy_twoPow hi ▸ hmet, ?_⟩
  rw [hafter, BitVec.getLsbD_and, BitVec.getLsbD_not, BitVec.getLsbD_twoPow]
  simp [hi]

theorem set_between (hw : Witnessed g tr) (heq : tr = pre ++ os ++ post) (hlow : (groupBits g pre).getLsbD i = false)
    (hhigh : (groupBits g (pre ++ os)).getLsbD i = true) :
    ∃ mask, .bitsSet g mask ∈ os ∧ mask.getLsbD i = true := by
  induction os generalizing pre with
  | nil =>
    rw [List.append_nil, hlow] at hhigh
    cases hhigh
  | cons o os ih =>
    rw [List.append_cons] at heq hhigh
    by_cases hnext : (groupBits g (pre ++ [o])).getLsbD i = true
    · -- the entry that raises the bit
      rw [groupBits_concat] at hnext
      cases o with
      | bitsSet g' mask =>
        simp only [Obs.bitsAfter] at hnext
        split at hnext
        · rename_i hg
          subst hg
          rw [BitVec.getLsbD_or, hlow, Bool.false_or] at hnext
          exact ⟨mask, List.mem_cons_self, hnext⟩
        · rw [hlow] at hnext
          cases hnext
      | bitsClear g' mask =>
        simp only [Obs.bitsAfter] at hnext
        split at hnext
        · rw [within_iff.mp (within_and_not _ _) i hnext] at hlow
          cases hlow
        · rw [hlow] at hnext
          cases hnext
      | bitsRead g' c v after =>
        simp only [Obs.bitsAfter] at hnext
        split at hnext
        · rename_i hg
          subst hg
          obtain ⟨rfl, hafter⟩ := hw pre c v after (os ++ post) (by rw [heq]; simp)
          rw [within_iff.mp hafter i hnext] at hlow
          cases hlow
        · rw [hlow] at hnext
          cases hnext
      | _ =>
        simp only [Obs.bitsAfter, hlow] at hnext
        cases hnext
    · obtain ⟨mask, hmem, hbit⟩ := ih heq (Bool.not_eq_true _ ▸ hnext) hhigh
      exact ⟨mask, List.mem_cons_of_mem _ hmem, hbit⟩

/-- Between two waits that matched one bit it was set. -/
theorem Matched.between (h : Matched g i tr pre) (h' : Matched g i tr (pre ++ mid)) (hmid : mid ≠ []) (hi : i < 32)
    (hc : Consumed tr) (hw : Witnessed g tr) : ∃ mask, .bitsSet g mask ∈ mid ∧ mask.getLsbD i = true := by
  obtain ⟨c, v, after, post, heq, -, hgone⟩ := h.taken hi hc
  obtain ⟨c', v', after', post', heq', hback, -⟩ := h'.taken hi hc
  obtain ⟨o, os, rfl⟩ := List.exists_cons_of_ne_nil hmid
  have hread : o = .bitsRead g c v after := by
    rw [heq, List.append_assoc] at heq'
    exact (List.cons.inj (List.append_cancel_left heq')).1.symm
  subst hread
  have hlow : groupBits g (pre ++ [.bitsRead g c v after]) = after := by
    rw [groupBits_concat]
    simp [Obs.bitsAfter]
  have hsplit : tr = pre ++ [.bitsRead g c v after] ++ os ++ .bitsRead g c' v' after' :: post' := by
    rw [heq']
    simp
  obtain ⟨hv, -⟩ := hw _ _ _ _ _ hsplit
  rw [← hlow] at hgone
  obtain ⟨mask, hmem, hbit⟩ := set_between hw hsplit hgone (hv ▸ hback)
  exact ⟨mask, List.mem_cons_of_mem _ hmem, hbit⟩

end

/-- In a run without stale reads every completed wait with `clear_on_exit` that matched removed its mask where it
read the bits; the history tells the bits of every group, and every read in it saw them; and between two waits that
matched the same bit somebody set it. -/
theorem clear_on_exit_consumes {config : Config} {s : Sys} {es : List Event}
    (hrun : (Sys.init config).run es = some s) (hgood : (Sys.init config).Each (fun s e => ¬ s.StaleRead e) es) :
    Consumed s.k.trace ∧ ∀ g, groupBits g s.k.trace = s.k.currentBits g ∧ Witnessed g s.k.trace ∧
      ∀ i pre mid, i < 32 → mid ≠ [] → Matched g i s.k.trace pre → Matched g i s.k.trace (pre ++ mid) →
        ∃ mask, .bitsSet g mask ∈ mid ∧ mask.getLsbD i = true := by
  obtain ⟨a, htracks⟩ := Tracks.init.run hrun hgood
  have hclean : ¬ (Sys.slips fun s e => ¬ s.StaleRead e).stale := fun ⟨_, _, hg, hslip⟩ => hg hslip
  have hconsumed : Consumed s.k.trace := by
    intro c pre r post heq q hq g mask all ms v hcall hmask hr hmet
    have hanswer := htracks.told.2.2 c pre r post heq q hq
    subst hcall hr
    obtain ⟨v', after, hv, hos, htakes⟩ := hanswer
    cases hv
    rw [hos, htakes.resolve_right hclean hmet]
    rfl
  have hlogged : ∀ g, groupBits g s.k.trace = s.k.currentBits g ∧ Witnessed g s.k.trace := fun g => by
    rw [htracks.inv.rep.core_eq]
    exact htracks.logged g
  exact ⟨hconsumed, fun g => ⟨(hlogged g).1, (hlogged g).2, fun i pre mid hi hmid h h' =>
    h.between h' hmid hi hconsumed (hlogged g).2⟩⟩

/-- A task parks on the first bit of a group with a timeout of one tick; a handler sets the bit before the tick. -/
def Sys.bitInTimeRun : List Event :=
  createRun 1 2 ++ startRun ++ [.call (.waitBits 0 1 false true 1), .advance, .advance, .pendSV 0,
    .isr (.setBitsFromIsr 0 1) true, .pendSV 0, .advance, .advance]

theorem clear_on_exit_consumes_in_time : ∃ s, Sys.run (Sys.init .small) Sys.bitInTimeRun = some s ∧
    s.k.trace.getLast? = some (.ret (.task 0) (.bits 1)) ∧ Consumed s.k.trace ∧ s.k.currentBits 0 = 0 := by
  have hrun : ((Sys.run (Sys.init .small) Sys.bitInTimeRun).map fun s =>
      (s.k.trace.getLast?, s.k.currentBits 0)) = some (some (.ret (.task 0) (.bits 1)), 0) := by decide +kernel
  obtain ⟨s, hs, hstate⟩ := Option.map_eq_some_iff.mp hrun
  rw [Prod.mk.injEq] at hstate
  have hgood : (Sys.init .small).Each (fun s e => ¬ s.StaleRead e) Sys.bitInTimeRun := by decide +kernel
  exact ⟨s, hs, hstate.1, (clear_on_exit_consumes hs hgood).1, hstate.2⟩

/-- The tick comes first, and the bit before the task runs again. -/
def Sys.bitTooLateRun : List Event :=
  createRun 1 2 ++ startRun ++ [.call (.waitBits 0 1 false true 1), .advance, .advance, .pendSV 0, .tick,
    .isr (.setBitsFromIsr 0 1) true, .pendSV 0, .advance, .advance, .advance]

/-- The wait that timed out reports the bit as matched and leaves it there. -/
theorem stale_read_keeps : ¬ ∀ (config : Config) (s : Sys) (es : List Event), (Sys.init config).run es = some s →
    Consumed s.k.trace := by
  intro hall
  have hrun : ((Sys.run (Sys.init .small) Sys.bitTooLateRun).map fun s => (s.k.trace.getLast?,
      (talk (.task 0) s.k.trace.dropLast).asked, (talk (.task 0) s.k.trace.dropLast).since)) =
      some (some (.ret (.task 0) (.bits 1)), some (.inl (.waitBits 0 1 false true 1)),
        [.bitsRead 0 (.task 0) 1 1]) := by decide +kernel
  obtain ⟨s, hs, hstate⟩ := Option.map_eq_some_iff.mp hrun
  simp only [Prod.mk.injEq] at hstate
  obtain ⟨hlast, hasked, hsince⟩ := hstate
  have heq : s.k.trace = s.k.trace.dropLast ++ [.ret (.task 0) (.bits 1)] :=
    (List.dropLast_append_getLast? _ hlast).symm
  have htook := hall .small s _ hs (.task 0) _ _ [] heq _ hasked 0 1 false 1 1 rfl (by decide) rfl (by decide)
  rw [hsince] at htook
  revert htook
  decide

end AcRtos
