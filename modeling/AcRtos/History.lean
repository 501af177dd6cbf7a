import AcRtos.Types

/-!
# Calls in the history

The history mixes the entries of all contexts. `talk c` reads it for one context: the call that `c` is in,
if any, and the entries of `c` since the call began. What a completed call did is then said of the `talk`
in front of its return (`Answered`).
-/

namespace AcRtos

/-- A call of a context, or of an interrupt handler. -/
abbrev Request := Call ⊕ IsrCall

namespace Obs

/-- The context an entry belongs to: the one whose call it starts, ends or serves. -/
def ctx : Obs → Option Ctx
  | .call c _ | .ret c _ | .semTake _ c | .accept _ c _ | .deliver _ c _ | .bitsRead _ c _ _ => some c
  | .semHand _ t => some (.task t)
  | .isrCall _ => some .isr
  | .semGive _ | .semDrop _ | .bitsSet _ _ | .bitsClear _ _ => none

/-- The entry starts a call. -/
def asks : Obs → Option Request
  | .call _ x => some (.inl x)
  | .isrCall x => some (.inr x)
  | _ => none

/-- A history entry that only marks the start or the end of a call. -/
def isMark : Obs → Bool
  | .call _ _ | .isrCall _ | .ret _ _ => true
  | _ => false

end Obs

/-- Where a context is in its call. -/
structure Talk where
  asked : Option Request := none
  since : List Obs := []

namespace Talk

/-- The next entry of the context itself. -/
def own (k : Talk) (o : Obs) : Talk :=
  if o.isMark then { asked := o.asks, since := [] } else { k with since := k.since ++ [o] }

def step (c : Ctx) (k : Talk) (o : Obs) : Talk := if o.ctx = some c then k.own o else k

/-- Entries of the context between the marks of a call. -/
def add (k : Talk) (os : List Obs) : Talk := { k with since := k.since ++ os }

@[simp] theorem add_nil (k : Talk) : k.add [] = k := by simp [add]

@[simp] theorem add_asked (k : Talk) (os : List Obs) : (k.add os).asked = k.asked := rfl

@[simp] theorem add_since (k : Talk) (os : List Obs) : (k.add os).since = k.since ++ os := rfl

end Talk

def talk (c : Ctx) (tr : List Obs) : Talk := tr.foldl (Talk.step c) {}

section
variable {c : Ctx} {tr : List Obs} {o : Obs} {os : List Obs}

@[simp] theorem talk_nil : talk c [] = {} := rfl

theorem talk_append : talk c (tr ++ os) = os.foldl (Talk.step c) (talk c tr) := List.foldl_append

theorem talk_concat : talk c (tr ++ [o]) = (talk c tr).step c o := talk_append

theorem talk_append_of_ne (h : ∀ o ∈ os, o.ctx ≠ some c) : talk c (tr ++ os) = talk c tr := by
  induction os generalizing tr with
  | nil => rw [List.append_nil]
  | cons o os ih =>
    have hstep : talk c (tr ++ [o]) = talk c tr := by
      rw [talk_concat, Talk.step, if_neg (h o (by simp))]
    rw [List.append_cons, ih fun o ho => h o (by simp [ho]), hstep]

theorem talk_append_add (h : ∀ o ∈ os, o.ctx = some c → o.isMark = false) :
    talk c (tr ++ os) = (talk c tr).add (os.filter fun o => o.ctx == some c) := by
  induction os generalizing tr with
  | nil => simp
  | cons o os ih =>
    rw [List.append_cons, ih fun o ho => h o (by simp [ho]), talk_concat, Talk.step]
    by_cases ho : o.ctx = some c
    · have hmark := h o (by simp) ho
      rw [if_pos ho, List.filter_cons_of_pos (by simpa using ho)]
      simp [Talk.own, hmark, Talk.add]
    · rw [if_neg ho, List.filter_cons_of_neg (by simpa using ho)]

end

section
variable {c : Ctx} {tr os pre post : List Obs} {o : Obs} {r : Ret} {x : Call}

theorem talk_asked_append (h : ∀ o ∈ os, o.ctx = some c → o.isMark = false) :
    (talk c (tr ++ os)).asked = (talk c tr).asked := by
  rw [talk_append_add h, Talk.add_asked]

theorem talk_asked {q : Request} (h : (talk c (tr ++ os)).asked = some q) :
    (∃ o ∈ os, o.ctx = some c ∧ o.asks = some q) ∨ (talk c tr).asked = some q := by
  induction os using List.reverseRecOn with
  | nil =>
    rw [List.append_nil] at h
    exact Or.inr h
  | append_singleton os o ih =>
    have hold : (talk c (tr ++ os)).asked = some q →
        (∃ o' ∈ os ++ [o], o'.ctx = some c ∧ o'.asks = some q) ∨ (talk c tr).asked = some q := fun h' =>
      (ih h').imp_left fun ⟨o', hm, ho'⟩ => ⟨o', List.mem_append_left _ hm, ho'⟩
    rw [← List.append_assoc, talk_concat, Talk.step] at h
    split at h
    · rename_i hctx
      rw [Talk.own] at h
      split at h
      · exact Or.inl ⟨o, by simp, hctx, h⟩
      · exact hold h
    · exact hold h

theorem talk_asked_call (h : (talk c (tr ++ os)).asked = some (.inl x)) :
    .call c x ∈ os ∨ (talk c tr).asked = some (.inl x) := by
  refine (talk_asked h).imp_left fun ⟨o, hm, hctx, hq⟩ => ?_
  cases o <;> cases hq
  cases hctx
  exact hm

theorem talk_ret (pre : List Obs) (c : Ctx) (r : Ret) : talk c (pre ++ [.ret c r]) = {} := by
  rw [talk_concat]
  simp [Talk.step, Talk.own, Obs.ctx, Obs.isMark, Obs.asks]

theorem talk_call (tr : List Obs) (c : Ctx) (x : Call) : talk c (tr ++ [.call c x]) = ⟨some (.inl x), []⟩ := by
  rw [talk_concat]
  simp [Talk.step, Talk.own, Obs.ctx, Obs.isMark, Obs.asks]

/-- A call that goes on after a return began after it. -/
theorem call_mem_of_asked (h : (talk c (pre ++ .ret c r :: post)).asked = some (.inl x)) : .call c x ∈ post := by
  rw [List.append_cons] at h
  rcases talk_asked_call h with h | h
  · exact h
  · rw [talk_ret] at h
    cases h

theorem split_append (h : tr ++ os = pre ++ o :: post) (ho : o ∉ os) :
    ∃ post', tr = pre ++ o :: post' ∧ post = post' ++ os := by
  rcases List.append_eq_append_iff.mp h with ⟨xs, rfl, rfl⟩ | ⟨xs, rfl, hxs⟩
  · exact absurd (by simp) ho
  · cases xs with
    | nil => exact absurd (by rw [show os = o :: post from hxs.symm]; simp) ho
    | cons y ys =>
      rw [List.cons_append, List.cons.injEq] at hxs
      obtain ⟨rfl, rfl⟩ := hxs
      exact ⟨ys, rfl, rfl⟩

end

/-- Every completed call of `c` in the history is as `good` says of the call, its entries and its result. -/
def Answered (good : Request → List Obs → Ret → Prop) (c : Ctx) (tr : List Obs) : Prop :=
  ∀ pre r post, tr = pre ++ .ret c r :: post →
    ∀ q, (talk c pre).asked = some q → good q (talk c pre).since r

theorem Answered.nil {good : Request → List Obs → Ret → Prop} {c : Ctx} : Answered good c [] := by
  intro pre r post h
  simp at h

theorem Answered.concat {good : Request → List Obs → Ret → Prop} {c : Ctx} {tr : List Obs} {o : Obs}
    (h : Answered good c tr)
    (ho : ∀ r, o = .ret c r → ∀ q, (talk c tr).asked = some q → good q (talk c tr).since r) :
    Answered good c (tr ++ [o]) := by
  intro pre r post heq
  rcases List.eq_nil_or_concat post with rfl | ⟨post', o', rfl⟩
  · obtain ⟨rfl, hlast⟩ := List.append_inj' heq rfl
    exact ho r (by simpa using hlast)
  · rw [List.concat_eq_append, ← List.cons_append, ← List.append_assoc] at heq
    obtain ⟨hpre, -⟩ := List.append_inj' heq rfl
    exact h pre r post' hpre

theorem Answered.append {good : Request → List Obs → Ret → Prop} {c : Ctx} {tr os : List Obs}
    (h : Answered good c tr) (hos : ∀ o ∈ os, ∀ r, o ≠ .ret c r) : Answered good c (tr ++ os) := by
  induction os generalizing tr with
  | nil => rwa [List.append_nil]
  | cons o os ih =>
    rw [List.append_cons]
    refine ih (h.concat fun r hr => absurd hr (hos o (by simp) r)) fun o' ho' => hos o' (by simp [ho'])

end AcRtos
