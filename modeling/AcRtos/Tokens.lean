import AcRtos.QueueWaits
import AcRtos.Told

/-!
# Tokens

A token is made by a `give` that finds no waiter and a count below its maximum, and by one that wakes a waiter;
the latter is taken in the same section. Every other token goes through `count_`. So the tokens made and the
tokens taken differ by `count_` exactly (`Abs.Balanced`), and since the answer of a take is told by its own
entries in the history (`Tracks.told`), what it returns and what it got cannot differ.
-/

namespace AcRtos

open Abs AcRtos.Core

namespace Obs

/-- A `give` that was not dropped. -/
def makesToken (x : SemId) : Obs → Bool
  | .semGive s | .semHand s _ => s == x
  | _ => false

/-- A take that obtained a token. -/
def takesToken (x : SemId) : Obs → Bool
  | .semTake s _ | .semHand s _ => s == x
  | _ => false

end Obs

/-- The calls that take from the semaphore `x`. -/
def Request.takesFrom (x : SemId) : Request → Bool
  | .inl (.take s _) | .inl (.tryTake s) => s == x
  | .inr (.tryTakeFromIsr s) => s == x
  | _ => false

/-- The tokens made and taken differ by the count. -/
def Core.Balanced (e : Core) (x : SemId) : Prop :=
  (e.config.initialCount x).toNat + e.trace.countP (Obs.makesToken x) =
    (e.count x).toNat + e.trace.countP (Obs.takesToken x)

section
variable {σ : Slips} {a : Abs} {act : Action} {x : SemId}

theorem Core.Balanced.of_entries {e e' : Core} {os : List Obs} (h : e.Balanced x) (hconfig : e'.config = e.config)
    (htrace : e'.trace = e.trace ++ os)
    (hos : (e.count x).toNat + os.countP (Obs.makesToken x) = (e'.count x).toNat + os.countP (Obs.takesToken x)) :
    e'.Balanced x := by
  unfold Core.Balanced at *
  rw [hconfig, htrace, List.countP_append, List.countP_append]
  omega

theorem Core.Balanced.of_none {e e' : Core} {os : List Obs} (h : e.Balanced x) (hconfig : e'.config = e.config)
    (htrace : e'.trace = e.trace ++ os) (hcount : e'.count = e.count)
    (hos : ∀ o ∈ os, o.makesToken x = false ∧ o.takesToken x = false) : e'.Balanced x := by
  refine h.of_entries hconfig htrace ?_
  rw [hcount, List.countP_eq_zero.mpr fun o ho => by simp [(hos o ho).1],
    List.countP_eq_zero.mpr fun o ho => by simp [(hos o ho).2]]

theorem balanced_apply_data (h : a.Balanced x) (hwf : a.WF) (hs : a.Starved) {d : DataOp} (he : d.Enabled a) :
    ((Action.data d).apply a).Balanced x := by
  have htrace : ((Action.data d).apply a).trace = a.trace ++ (Action.data d).entries a := apply_trace hwf hs he
  have hconfig : ((Action.data d).apply a).config = a.config := apply_config he
  cases d with
  | takeToken s c =>
    refine h.of_entries hconfig htrace ?_
    have hne : a.count s ≠ 0 := he
    by_cases hx : s = x
    · subst hx
      have hpos : (a.count s).toNat ≠ 0 := fun hz => hne (BitVec.eq_of_toNat_eq (by simpa using hz))
      have hcount : ((Action.data (.takeToken s c)).apply a).count s = a.count s - 1 := Function.update_self _ _ _
      have hsub : (a.count s - 1).toNat = (a.count s).toNat - 1 := by bv_omega
      rw [hcount, hsub]
      simp [Action.entries, DataOp.entries, Obs.makesToken, Obs.takesToken]
      omega
    · have hcount : ((Action.data (.takeToken s c)).apply a).count x = a.count x :=
        Function.update_of_ne (Ne.symm hx) _ _
      rw [hcount]
      simp [Action.entries, DataOp.entries, Obs.makesToken, Obs.takesToken, hx]
  | addToken s =>
    refine h.of_entries hconfig htrace ?_
    have hne : a.count s ≠ 0xFFFFFFFF#32 := he.2
    by_cases hx : s = x
    · subst hx
      have hcount : ((Action.data (.addToken s)).apply a).count s = a.count s + 1 := Function.update_self _ _ _
      have hadd : (a.count s + 1).toNat = (a.count s).toNat + 1 := by bv_omega
      rw [hcount, hadd]
      simp [Action.entries, DataOp.entries, Obs.makesToken, Obs.takesToken]
    · have hcount : ((Action.data (.addToken s)).apply a).count x = a.count x :=
        Function.update_of_ne (Ne.symm hx) _ _
      rw [hcount]
      simp [Action.entries, DataOp.entries, Obs.makesToken, Obs.takesToken, hx]
  | mark o =>
    refine h.of_none hconfig htrace rfl fun o' ho' => ?_
    rw [List.mem_singleton.mp ho']
    cases o <;> first | exact ⟨rfl, rfl⟩ | cases he
  | quiet e => exact h.of_none hconfig htrace he.count (by simp [Action.entries, DataOp.entries])
  | consume g c mask clear =>
    exact h.of_none hconfig htrace (by cases clear <;> rfl)
      (by simp [Action.entries, DataOp.entries, Obs.makesToken, Obs.takesToken])
  | _ =>
    exact h.of_none hconfig htrace rfl (by simp [Action.entries, DataOp.entries, Obs.makesToken, Obs.takesToken])

theorem balanced_apply_hand (h : a.Balanced x) (hwf : a.WF) (hs : a.Starved) {hd : Handing} {t : Tid}
    (he : hd.Enabled a t) : ((Action.hand hd t).apply a).Balanced x := by
  have htrace : ((Action.hand hd t).apply a).trace = a.trace ++ (Action.hand hd t).entries a :=
    apply_trace hwf hs he
  have hconfig : ((Action.hand hd t).apply a).config = a.config := apply_config he
  cases hd with
  | token s =>
    refine h.of_entries hconfig htrace ?_
    simp [Action.entries, Handing.cost, Handing.gift, Obs.makesToken, Obs.takesToken, Action.apply, Abs.wake,
      Handing.run]
  | item q p =>
    refine h.of_none hconfig htrace ?_ (by
      simp [Action.entries, Handing.cost, Handing.gift, Obs.makesToken, Obs.takesToken])
    show ((Handing.item q p).run t a.toCore).count = a.count
    rw [Handing.run_item (hs.handed hwf he rfl)]
    rfl
  | slot q p =>
    refine h.of_none hconfig htrace ?_ (by
      simp [Action.entries, Handing.cost, Handing.gift, Obs.makesToken, Obs.takesToken])
    show ((Handing.slot q p).run t a.toCore).count = a.count
    rw [Handing.run_slot (hs.handed hwf he rfl)]
    rfl
  | bits g =>
    refine h.of_none hconfig htrace ?_ (by
      simp [Action.entries, Handing.cost, Handing.gift, Obs.makesToken, Obs.takesToken])
    show ((Handing.bits g).run t a.toCore).count = a.count
    rw [Handing.run_bits (hs.handed hwf he rfl)]
    cases (a.tcb t).eventClearOnExit <;> rfl

theorem balanced_apply (h : a.Balanced x) (hwf : a.WF) (hs : a.Starved) (he : act.Enabled a) :
    (act.apply a).Balanced x := by
  by_cases hdata : ∃ d, act = .data d
  · obtain ⟨d, rfl⟩ := hdata
    exact balanced_apply_data h hwf hs he
  by_cases hhand : ∃ hd t, act = .hand hd t
  · obtain ⟨hd, t, rfl⟩ := hhand
    exact balanced_apply_hand h hwf hs he
  · obtain ⟨hcount, -, -, -, htrace⟩ := apply_objects (a := a) act (fun d heq => hdata ⟨d, heq⟩)
      fun y t heq => hhand ⟨y, t, heq⟩
    exact h.of_none (apply_config he) (htrace.trans (List.append_nil _).symm) hcount (by simp)

theorem Runs.balanced {v : Visit} {a' : Abs} {acts : List Action} (h : Runs v a acts a') (hwf : a.WF)
    (hs : a.Starved) (hb : a.Balanced x) : a'.Balanced x :=
  h.keeps_starved hwf hs hb fun _ _ hwf hs hb he _ => balanced_apply hb hwf hs he

theorem Tracks.balanced {config : Config} {good : Sys → Event → Prop} {s : Sys} (h : Tracks config good s a)
    (x : SemId) : a.Balanced x := by
  induction h with
  | init => simp [Core.Balanced, Abs.init, Kernel.init]
  | step e h hg hs hruns hinv ih => exact hruns.balanced h.inv.wf h.inv.starved ih

/-! ### What a `give` writes -/

/-- What a `give` does: it makes a token, hands it to the first waiter, or is dropped at the maximum. -/
def Kernel.Gives (x : SemId) (k : Kernel) (o : Obs) : Prop :=
  o = .semGive x ∨ (∃ t, k.WaitsOn t (.sem x) ∧ o = .semHand x t) ∨ k.count x = 0xFFFFFFFF#32 ∧ o = .semDrop x

theorem giveLocked_entry {k : Kernel} (h : Rep k a) (hwf : a.WF) (x : SemId) :
    ∃ o, k.Gives x o ∧ (Semaphore.giveLocked x k).2.trace = k.trace ++ [o] := by
  unfold Semaphore.giveLocked
  cases hseq : a.seq (.wait (.sem x)) with
  | nil =>
    rw [h.wakeHighest_nil hseq]
    simp only
    split
    · exact ⟨.semGive x, Or.inl rfl, rfl⟩
    · exact ⟨.semDrop x, Or.inr (Or.inr ⟨by bv_omega, rfl⟩), rfl⟩
  | cons t xs =>
    have hw := (hwf.mem_wait (t := t)).mp (by rw [hseq]; exact List.mem_cons_self)
    have hwake : k.Still (WaitQueue.wakeHighest (.sem x) k).2.toCore := Still.wakeHighest _ (.refl _)
    simp only [(h.wakeHighest hseq).1]
    refine ⟨.semHand x t, Or.inr (Or.inl ⟨t, by rw [h.core_eq]; exact hw.2, rfl⟩), ?_⟩
    have hready := Still.makeTaskReady t (.refl ((WaitQueue.wakeHighest (.sem x) k).2.emit (.semHand x t)).toCore)
    rw [hready.trace, ← hwake.trace]
    rfl

end

/-- Tokens are neither lost nor made up: what was given and not dropped is still counted or was taken, a task
is parked only while the count is zero, every `give` makes at most one token, and every call that takes
returns true exactly if one token went to it. -/
theorem token_conservation {config : Config} {s : Sys} (h : Reachable config s) (x : SemId) :
    (config.initialCount x).toNat + s.k.trace.countP (Obs.makesToken x) =
      (s.k.count x).toNat + s.k.trace.countP (Obs.takesToken x) ∧
    (∀ t, s.k.WaitsOn t (.sem x) → s.k.count x = 0) ∧
    (∀ s', s.step (.call (.give x)) = some s' →
      ∃ o, s.k.Gives x o ∧ s'.k.trace = s.k.trace ++ [.call s.k.self (.give x), o]) ∧
    (∀ y s', s.step (.isr (.giveFromIsr x) y) = some s' →
      ∃ o r, s.k.Gives x o ∧ s'.k.trace = s.k.trace ++ [.isrCall (.giveFromIsr x), o, .ret .isr r]) ∧
    ∀ c, Answered (fun q os r => q.takesFrom x = true →
      r = .bool true ∧ os.countP (Obs.takesToken x) = 1 ∨
        r = .bool false ∧ os.countP (Obs.takesToken x) = 0) c s.k.trace := by
  obtain ⟨a, htracks⟩ := h.tracks
  have hi := htracks.inv
  have hcore := hi.rep.core_eq
  refine ⟨?_, fun t ht => ?_, fun s' hs => ?_, fun y s' hs => ?_, fun c pre r post heq q hq hx => ?_⟩
  · have := htracks.balanced x
    unfold Core.Balanced at this
    rw [htracks.config_eq] at this
    rw [hcore]
    exact this
  · rw [hcore] at ht ⊢
    exact hi.starved.sem x t ht
  · have hen : (Action.data (.mark (.call s.k.self (.give x)))).Enabled a := rfl
    obtain ⟨o, ho, htrace⟩ :=
      giveLocked_entry (hi.rep.core (·.emit (.call s.k.self (.give x)))) (hi.wf.apply hen) x
    refine ⟨o, ho, ?_⟩
    obtain ⟨-, -, -, -, -, rfl⟩ := Sys.step_call.mp hs
    exact htrace.trans (List.append_assoc _ _ _)
  · have hen : (Action.data (.mark (.isrCall (.giveFromIsr x)))).Enabled a := rfl
    obtain ⟨o, ho, htrace⟩ :=
      giveLocked_entry (hi.rep.core (·.emit (.isrCall (.giveFromIsr x)))) (hi.wf.apply hen) x
    obtain ⟨-, -, -, -, rfl⟩ := Sys.step_isr.mp hs
    refine ⟨o, (Sys.isrCall (.giveFromIsr x) (s.k.emit (.isrCall (.giveFromIsr x)))).1.1, ho, ?_⟩
    refine (congrArg (· ++ [_]) htrace).trans ?_
    simp
  · have hanswer := htracks.told.2.2 c pre r post heq q hq
    rcases q with q | q
    · cases q with
      | take y ms =>
        obtain rfl : y = x := by simpa [Request.takesFrom] using hx
        rcases hanswer with ⟨hr, hos | ⟨t, -, hos⟩⟩ | ⟨hr, hos⟩
        · exact Or.inl ⟨hr, by rw [hos]; simp [Obs.takesToken]⟩
        · exact Or.inl ⟨hr, by rw [hos]; simp [Obs.takesToken]⟩
        · exact Or.inr ⟨hr, by rw [hos]; rfl⟩
      | tryTake y =>
        obtain rfl : y = x := by simpa [Request.takesFrom] using hx
        rcases hanswer with ⟨hr, hos⟩ | ⟨hr, hos⟩
        · exact Or.inl ⟨hr, by rw [hos]; simp [Obs.takesToken]⟩
        · exact Or.inr ⟨hr, by rw [hos]; rfl⟩
      | _ => cases hx
    · cases q with
      | tryTakeFromIsr y =>
        obtain rfl : y = x := by simpa [Request.takesFrom] using hx
        rcases hanswer with ⟨hr, hos⟩ | ⟨hr, hos⟩
        · exact Or.inl ⟨hr, by rw [hos]; simp [Obs.takesToken]⟩
        · exact Or.inr ⟨hr, by rw [hos]; rfl⟩
      | _ => cases hx

/-- A task parks on an empty semaphore and an interrupt handler gives it a token. -/
def Sys.tokenRun : List Event :=
  createRun 1 3 ++ startRun ++ [.call (.take 0 5), .isr (.giveFromIsr 0) false, .advance]

theorem token_conservation_hand : ∃ s, Sys.run (Sys.init .small) Sys.tokenRun = some s ∧
    Obs.semHand 0 0 ∈ s.k.trace ∧
    (Config.small.initialCount 0).toNat + s.k.trace.countP (Obs.makesToken 0) =
      (s.k.count 0).toNat + s.k.trace.countP (Obs.takesToken 0) := by
  have hrun : ((Sys.run (Sys.init .small) Sys.tokenRun).map fun s => decide (Obs.semHand 0 0 ∈ s.k.trace)) =
      some true := by decide +kernel
  obtain ⟨s, hs, hmem⟩ := Option.map_eq_some_iff.mp hrun
  exact ⟨s, hs, of_decide_eq_true hmem, (token_conservation (Reachable.run .init hs) 0).1⟩

end AcRtos
