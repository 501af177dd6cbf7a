import AcRtos.Inheritance
import AcRtos.Lib.Precedes
import AcRtos.ListMembership

/-!
# Turns in the wait lists

Waiters of one priority stand in a wait list in the order in which they came to that priority there, by parking
or by a boost. An action takes tasks out of a list (`Leaves`) or lets one enter behind all waiters of at least
its priority (`EntersAt`); only parking does the latter, and a visitor parks once, so a whole visit does the
same. `Before` is the order of arrival along a run.
-/

namespace AcRtos

open Lib

namespace Abs

variable {a b c : Abs} {act : Action} {w : WaitId} {t u x : Tid} {p : Nat}

/-- Tasks leave the wait list `w`, and those that stay keep their priorities. -/
structure Leaves (a b : Abs) (w : WaitId) : Prop where
  sub : (b.seq (.wait w)).Sublist (a.seq (.wait w))
  prio : ∀ u ∈ b.seq (.wait w), (b.tcb u).priority = (a.tcb u).priority

/-- Tasks leave the wait list `w`, and `x` comes into it, or to a higher place in it, with priority `p`. -/
structure EntersAt (a b : Abs) (w : WaitId) (x : Tid) (p : Nat) : Prop where
  sub : ∃ l, l.Sublist (a.seq (.wait w)) ∧ x ∉ l ∧
    (b.seq (.wait w)).Sublist (insertWhile (fun y => decide ((a.tcb y).priority ≥ p)) x l)
  prio : ∀ u ∈ b.seq (.wait w), u ≠ x → (b.tcb u).priority = (a.tcb u).priority
  new : x ∈ b.seq (.wait w) → (b.tcb x).priority = p
  raised : x ∈ a.seq (.wait w) → (a.tcb x).priority < p

theorem Leaves.refl (a : Abs) (w : WaitId) : a.Leaves a w := ⟨List.Sublist.refl _, fun _ _ => rfl⟩

theorem Leaves.trans (h : a.Leaves b w) (h' : b.Leaves c w) : a.Leaves c w :=
  ⟨h'.sub.trans h.sub, fun u hu => (h'.prio u hu).trans (h.prio u (h'.sub.subset hu))⟩

theorem EntersAt.trans (h : a.EntersAt b w x p) (h' : b.Leaves c w) : a.EntersAt c w x p := by
  obtain ⟨l, hl, hx, hsub⟩ := h.sub
  refine ⟨⟨l, hl, hx, h'.sub.trans hsub⟩, fun u hu hne => ?_, fun hu => ?_, h.raised⟩
  · exact (h'.prio u hu).trans (h.prio u (h'.sub.subset hu) hne)
  · exact (h'.prio x hu).trans (h.new (h'.sub.subset hu))

theorem Leaves.enters (h : a.Leaves b w) (h' : b.EntersAt c w x p)
    (hx : x ∈ a.seq (.wait w) → x ∈ b.seq (.wait w)) : a.EntersAt c w x p := by
  obtain ⟨l, hl, hxl, hsub⟩ := h'.sub
  refine ⟨⟨l, hl.trans h.sub, hxl, ?_⟩, fun u hu hne => ?_, h'.new, fun hxa => ?_⟩
  · rw [insertWhile_congr (q := fun y => decide ((a.tcb y).priority ≥ p)) fun y hy => by
      rw [h.prio y (hl.subset hy)]] at hsub
    exact hsub
  · have hub : u ∈ b.seq (.wait w) := by
      rcases mem_insertWhile.mp (hsub.subset hu) with rfl | hul
      · exact absurd rfl hne
      · exact hl.subset hul
    exact (h'.prio u hu hne).trans (h.prio u hub)
  · rw [← h.prio x (hx hxa)]
    exact h'.raised (hx hxa)

/-! ### Actions -/

theorem leaves_move {f : TaskControlBlock → TaskControlBlock} {dest : Option ListId}
    {ins : List Tid → List Tid} {alarm : Alarm} (hnodup : ∀ l, (a.seq l).Nodup)
    (hdest : dest ≠ some (.wait w)) : a.Leaves (a.move t f dest ins alarm) w := by
  have hseq : (a.move t f dest ins alarm).seq (.wait w) = (a.seq (.wait w)).erase t := by
    unfold Abs.move
    cases dest with
    | none => rfl
    | some d =>
      have hne : ListId.wait w ≠ d := fun heq => hdest (by rw [heq])
      simp only [Function.update_of_ne hne]
  refine ⟨?_, fun u hu => ?_⟩
  · rw [hseq]
    exact List.erase_sublist
  · rw [hseq] at hu
    rw [move_tcb_of_ne ((hnodup _).mem_erase_iff.mp hu).1]

theorem enters_move {f : TaskControlBlock → TaskControlBlock} {alarm : Alarm} (hnodup : ∀ l, (a.seq l).Nodup)
    (hprio : (f (a.tcb t)).priority = p) (hraised : t ∈ a.seq (.wait w) → (a.tcb t).priority < p) :
    a.EntersAt (a.move t f (some (.wait w)) (a.byPriority p t) alarm) w t p := by
  have hseq : (a.move t f (some (.wait w)) (a.byPriority p t) alarm).seq (.wait w) =
      a.byPriority p t ((a.seq (.wait w)).erase t) := by
    simp [Abs.move]
  refine ⟨⟨_, List.erase_sublist, fun hm => ((hnodup _).mem_erase_iff.mp hm).1 rfl, ?_⟩, fun u _ hne => ?_,
    fun _ => ?_, hraised⟩
  · rw [hseq]
    exact List.Sublist.refl _
  · rw [move_tcb_of_ne hne]
  · rw [move_tcb_self]
    exact hprio

theorem setPriority_turns (hwf : a.WF) (hlt : (a.tcb t).priority < p) :
    a.Leaves (a.setPriority t p) w ∧ t ∉ a.seq (.wait w) ∨
      t ∈ a.seq (.wait w) ∧ a.EntersAt (a.setPriority t p) w t p := by
  by_cases hw : t ∈ a.seq (.wait w)
  · right
    obtain ⟨hb, hlist⟩ := hwf.mem_wait.mp hw
    have hdest : placeOf { a.tcb t with priority := p } = some (.wait w) := by simp [placeOf, hb, hlist]
    refine ⟨hw, ?_⟩
    rw [Abs.setPriority, hdest, if_neg (by simp [hb])]
    exact enters_move hwf.nodup rfl fun _ => hlt
  · left
    refine ⟨leaves_move hwf.nodup fun hdest => ?_, hw⟩
    unfold placeOf at hdest
    cases hs : (a.tcb t).state with
    | blocked =>
      simp only [hs] at hdest
      obtain ⟨w', hw', heq⟩ := Option.map_eq_some_iff.mp hdest
      cases heq
      exact hw (hwf.mem_wait.mpr ⟨hs, hw'⟩)
    | ready => simp [hs] at hdest
    | running => simp [hs] at hdest
    | suspended => simp [hs] at hdest
    | deleted => simp [hs] at hdest

theorem leaves_setPriority (hwf : a.WF) (hs : (a.tcb t).state = .running) :
    a.Leaves (a.setPriority t p) w := by
  refine leaves_move hwf.nodup ?_
  simp [placeOf, hs]

theorem leaves_restore (hwf : a.WF) (hs : (a.tcb t).state = .running) : a.Leaves (a.restore t) w := by
  unfold Abs.restore
  split
  · exact leaves_setPriority hwf hs
  · exact .refl a w

/-- No task waits for a mutex that it owns. -/
def Alien (a : Abs) : Prop := ∀ t m, a.Parked t m → a.owner m ≠ some t

theorem Alien.apply (h : a.Alien) (hwf : a.WF) (howned : a.Owned) (he : act.Enabled a) :
    (act.apply a).Alien := by
  intro t m hw ho
  have howner := apply_owner he
  rw [howner] at ho
  rcases parked_apply hwf he hw with hb | rfl
  · cases act with
    | acquire x u =>
      by_cases hm : m = x
      · subst hm
        exact howned.waited m t hb he.1
      · exact h t m hb ((Function.update_of_ne hm _ _).symm.trans ho)
    | release x u =>
      by_cases hm : m = x
      · subst hm
        simp [Action.owner] at ho
      · exact h t m hb ((Function.update_of_ne hm _ _).symm.trans ho)
    | pass x u next =>
      by_cases hm : m = x
      · subst hm
        obtain rfl : next = t := by simpa [Action.owner] using ho
        have hnext := hwf.mem_wait.mp (List.mem_of_mem_head? he.2.2)
        have hne : next ≠ u := by
          rintro rfl
          rw [he.2.1] at hnext
          cases hnext.1
        rw [Core.Parked, apply_tcb hwf he] at hw
        simp [Action.tcb, hne] at hw
      · exact h t m hb ((Function.update_of_ne hm _ _).symm.trans ho)
    | _ => exact h t m hb ho
  · obtain ⟨-, -, -, o, ho', hne, -⟩ := he
    rw [show a.owner m = some t from ho] at ho'
    cases ho'
    exact hne rfl

/-- What an action does to a wait list: only parking lets a task enter. -/
theorem turns_apply (hwf : a.WF) (halien : a.Alien) (he : act.Enabled a) (w : WaitId) :
    a.Leaves (act.apply a) w ∨ ∃ W t timeout x p, act = .park W t timeout ∧
      (x ∈ a.seq (.wait w) ∨ (a.tcb x).state = .running) ∧ a.EntersAt (act.apply a) w x p := by
  have hkeep : (act.apply a).seq (.wait w) = a.seq (.wait w) →
      (∀ u ∈ a.seq (.wait w), ((act.apply a).tcb u).priority = (a.tcb u).priority) →
      a.Leaves (act.apply a) w := fun hseq hprio =>
    ⟨by rw [hseq], fun u hu => hprio u (hseq ▸ hu)⟩
  cases act with
  | data d => exact Or.inl (hkeep rfl fun u _ => by rw [apply_tcb hwf he]; rfl)
  | countDown => exact Or.inl (hkeep rfl fun _ _ => rfl)
  | acquire m t => exact Or.inl (hkeep rfl fun _ _ => rfl)
  | save t =>
    refine Or.inl (hkeep rfl fun u _ => ?_)
    rw [apply_tcb hwf he]
    simp only [Action.tcb]
    split <;> rfl
  | alloc =>
    refine Or.inl (hkeep rfl fun u _ => ?_)
    rw [apply_tcb hwf he]
    simp only [Action.tcb]
    split <;> rfl
  | initTcb t site p =>
    refine Or.inl (hkeep rfl fun u hu => ?_)
    have hne : u ≠ t := by
      rintro rfl
      have := (hwf.mem_wait.mp hu).1
      rw [he.2.1] at this
      cases this
    rw [apply_tcb hwf he]
    simp only [Action.tcb, if_neg hne]
  | ready t =>
    left
    rw [Action.apply, Abs.ready]
    exact leaves_move hwf.nodup (by simp)
  | switch t =>
    left
    have hmove : (a.core fun e => { e with currentTask := some t, currentSp := (e.tcb t).sp }).Leaves
        ((Action.switch t).apply a) w := by
      rw [Action.apply, Abs.switch]
      exact leaves_move hwf.nodup (by simp)
    exact ⟨hmove.sub, hmove.prio⟩
  | sleep t n =>
    left
    rw [Action.apply, Abs.sleep]
    exact leaves_move hwf.nodup (by simp)
  | expire t =>
    left
    rw [Action.apply, Abs.expire]
    exact leaves_move hwf.nodup (by simp)
  | retire t st =>
    left
    rw [Action.apply, Abs.retire]
    exact leaves_move hwf.nodup (by simp)
  | hand hd t =>
    left
    have halike := hd.alike t a.toCore
    have hcore : a.Leaves (a.core (hd.run t)) w := ⟨List.Sublist.refl _, fun u _ => by
      show ((hd.run t a.toCore).tcb u).priority = _
      rw [halike.tcb]⟩
    rw [Action.apply, wake]
    exact hcore.trans (leaves_move hwf.nodup (by simp))
  | release m t =>
    left
    have hdrop : a.Leaves (a.drop m t) w := ⟨List.Sublist.refl _, fun _ _ => rfl⟩
    exact hdrop.trans (leaves_restore (hwf.drop m) he.2.1)
  | pass m t next =>
    left
    have hnext := hwf.mem_wait.mp (List.mem_of_mem_head? he.2.2)
    have hne : t ≠ next := by
      rintro rfl
      rw [he.2.1] at hnext
      cases hnext.1
    have hgive : a.Leaves ((a.drop m t).give m next) w := by
      have hacq : a.Leaves ((a.drop m t).acquire m next) w := ⟨List.Sublist.refl _, fun _ _ => rfl⟩
      rw [give, wake]
      exact hacq.trans (leaves_move hwf.nodup (by simp))
    refine hgive.trans (leaves_restore ?_ ?_)
    · exact ((hwf.drop m).acquire m).wake (hwf.lt_of_mem (List.mem_of_mem_head? he.2.2))
    · rw [give, wake, move_tcb, if_neg hne]
      exact he.2.1
  | park W t timeout =>
    -- first the owner of a mutex is lifted, then the task parks
    have hwf' : (a.boost W t).WF := hwf.boost fun m hm o ho => by
      subst hm
      obtain ⟨-, -, -, o', ho', -, hlt⟩ := he
      rw [ho] at ho'
      cases ho'
      exact hlt
    have hboost : a.Leaves (a.boost W t) w ∨
        W.list ≠ w ∧ ∃ x p, x ∈ a.seq (.wait w) ∧ a.EntersAt (a.boost W t) w x p := by
      cases W with
      | lock m =>
        obtain ⟨-, -, -, o, ho, -, -⟩ := he
        rw [boost_lock ho]
        split
        · rename_i hlt
          rcases setPriority_turns hwf hlt with ⟨hl, -⟩ | ⟨hx, hen⟩
          · exact Or.inl hl
          · refine Or.inr ⟨fun heq => ?_, o, _, hx, hen⟩
            -- the owner does not wait for its own mutex
            subst heq
            exact halien o m (hwf.mem_wait.mp hx).2 ho
        · exact Or.inl (.refl a w)
      | _ => exact Or.inl (.refl a w)
    have hrun : ((a.boost W t).tcb t).state = .running := by
      rw [boost_tcb]
      exact he.2.1
    have hfresh : ∀ l, t ∉ (a.boost W t).seq (.wait l) := fun l hm => by
      have := (hwf'.mem_wait.mp hm).1
      rw [hrun] at this
      cases this
    by_cases hlist : W.list = w
    · right
      rcases hboost with hl | ⟨hne, -⟩
      · subst hlist
        refine ⟨W, t, timeout, t, ((a.boost W t).tcb t).priority, rfl, Or.inr he.2.1, hl.enters ?_ fun hx => ?_⟩
        · exact enters_move hwf'.nodup (by simp) fun hm => absurd hm (hfresh _)
        · have := (hwf.mem_wait.mp hx).1
          rw [he.2.1] at this
          cases this
      · exact absurd hlist hne
    · have hblock : (a.boost W t).Leaves ((Action.park W t timeout).apply a) w := by
        rw [Action.apply, Abs.park, block]
        exact leaves_move hwf'.nodup fun heq => hlist (by cases heq; rfl)
      rcases hboost with hl | ⟨-, x, p, hx, hen⟩
      · exact Or.inl (hl.trans hblock)
      · exact Or.inr ⟨W, t, timeout, x, p, rfl, Or.inl hx, hen.trans hblock⟩

end Abs

/-! ### Visits -/

open Abs

section
variable {v : Visit} {a a' : Abs} {acts : List Action} {w : WaitId} {t u x : Tid} {p : Nat}

theorem Runs.alien (h : Runs v a acts a') (hwf : a.WF) (howned : a.Owned) (halien : a.Alien) : a'.Alien :=
  h.keeps_owned hwf howned halien fun _ _ hwf howned halien he _ => halien.apply hwf howned he

theorem Runs.turns (h : Runs v a acts a') (hwf : a.WF) (howned : a.Owned) (halien : a.Alien) (w : WaitId) :
    a.Leaves a' w ∨ ∃ x p, a.EntersAt a' w x p := by
  have hstart : ∀ x ∈ a.seq (.wait w), (a.tcb x).state = .running → v = .pendSV := fun x hx hr => by
    rw [(hwf.mem_wait.mp hx).1] at hr
    cases hr
  have hall : a'.Alien ∧ (∀ x ∈ a.seq (.wait w), (a'.tcb x).state = .running → v = .pendSV) ∧
      (a.Leaves a' w ∨ (∃ x p, a.EntersAt a' w x p) ∧ ∀ t, v.ctx = .task t → (a'.tcb t).state ≠ .running) :=
    h.keeps_owned (P := fun b => b.Alien ∧ (∀ x ∈ a.seq (.wait w), (b.tcb x).state = .running → v = .pendSV) ∧
      (a.Leaves b w ∨ (∃ x p, a.EntersAt b w x p) ∧ ∀ t, v.ctx = .task t → (b.tcb t).state ≠ .running))
      hwf howned ⟨halien, hstart, Or.inl (.refl a w)⟩ fun act b hwf howned hb he hf => by
      obtain ⟨halien, hrun, hturn⟩ := hb
      refine ⟨halien.apply hwf howned he, fun x hx hr => ?_, ?_⟩
      · exact (running_apply hwf he hf hr).elim (hrun x hx) id
      · rcases turns_apply hwf halien he w with hl | ⟨W, t, timeout, x, p, rfl, hx, hen⟩
        · refine hturn.imp (fun h => h.trans hl) fun ⟨⟨x, p, h⟩, hpark⟩ => ⟨⟨x, p, h.trans hl⟩, ?_⟩
          intro t ht hr
          rcases running_apply hwf he hf hr with hr | rfl
          · exact hpark t ht hr
          · cases ht
        · -- the visitor still runs, so it has not parked before
          rcases hturn with h | ⟨-, hpark⟩
          · refine Or.inr ⟨⟨x, p, h.enters hen fun hxa => ?_⟩, fun t' ht' => ?_⟩
            · rcases hx with hx | hx
              · exact hx
              · have hctx := hf.1
                rw [hrun x hxa hx] at hctx
                cases hctx
            · obtain rfl : t = t' := by simpa using hf.1.symm.trans ht'
              rw [apply_tcb hwf he]
              simp [Action.tcb]
          · exact absurd he.2.1 (hpark t hf.1)
  exact hall.2.2.imp id And.left

end

namespace Core

/-- `u` waits in the wait list `w`. -/
def WaitsOn (e : Core) (u : Tid) (w : WaitId) : Prop := (e.tcb u).waitList = some w

/-- From `e` to `e'` the waiter `u` keeps its place in `w`: it neither leaves nor changes its priority. -/
structure Stays (e e' : Core) (w : WaitId) (u : Tid) : Prop where
  before : e.WaitsOn u w
  after : e'.WaitsOn u w
  prio : (e'.tcb u).priority = (e.tcb u).priority

end Core

section
variable {v : Visit} {a a' : Abs} {acts : List Action} {w : WaitId} {t u x : Tid} {p : Nat}

theorem Abs.WF.mem_of_waits (h : a.WF) (hu : a.WaitsOn u w) : u ∈ a.seq (.wait w) :=
  h.mem_wait.mpr ⟨(h.ok u).waits (by rw [show (a.tcb u).waitList = _ from hu]; simp), hu⟩

theorem Abs.EntersAt.of_stays (h : a.EntersAt a' w x p) (hwf : a.WF) (hwf' : a'.WF) (hu : a.Stays a'.toCore w u) :
    u ≠ x ∧ ∃ l, l.Sublist (a.seq (.wait w)) ∧ x ∉ l ∧ u ∈ l ∧
      (a'.seq (.wait w)).Sublist (insertWhile (fun y => decide ((a.tcb y).priority ≥ p)) x l) := by
  have hne : u ≠ x := by
    rintro rfl
    have hlt := h.raised (hwf.mem_of_waits hu.before)
    have hp := h.new (hwf'.mem_of_waits hu.after)
    rw [hu.prio] at hp
    omega
  obtain ⟨l, hl, hx, hsub⟩ := h.sub
  refine ⟨hne, l, hl, hx, ?_, hsub⟩
  exact (mem_insertWhile.mp (hsub.subset (hwf'.mem_of_waits hu.after))).resolve_left hne

theorem Abs.EntersAt.of_comes (h : a.EntersAt a' w x p) (hwf : a.WF) (hwf' : a'.WF)
    (hu : ¬ a.Stays a'.toCore w u) (hu' : a'.WaitsOn u w) : u = x := by
  by_contra hne
  obtain ⟨l, hl, hx, hsub⟩ := h.sub
  have hmem := hwf'.mem_of_waits hu'
  have hul := (mem_insertWhile.mp (hsub.subset hmem)).resolve_left hne
  exact hu ⟨(hwf.mem_wait.mp (hl.subset hul)).2, hu', h.prio u hmem hne⟩

theorem Abs.Leaves.stays (h : a.Leaves a' w) (hwf : a.WF) (hwf' : a'.WF) (hu' : a'.WaitsOn u w) :
    a.Stays a'.toCore w u :=
  have hmem := hwf'.mem_of_waits hu'
  ⟨(hwf.mem_wait.mp (h.sub.subset hmem)).2, hu', h.prio u hmem⟩

theorem Runs.precedes (h : Runs v a acts a') (hwf : a.WF) (howned : a.Owned) (halien : a.Alien) {u t : Tid}
    (hu : a.Stays a'.toCore w u) (ht : a.Stays a'.toCore w t) (hp : Precedes u t (a.seq (.wait w))) :
    Precedes u t (a'.seq (.wait w)) := by
  have hwf' := h.wf hwf
  have hu' := hwf'.mem_of_waits hu.after
  have ht' := hwf'.mem_of_waits ht.after
  rcases h.turns hwf howned halien w with hl | ⟨x, p, hen⟩
  · exact hp.of_sublist (hwf.nodup _) hl.sub hu' ht'
  · obtain ⟨hux, l, hl, hx, hul, hsub⟩ := hen.of_stays hwf hwf' hu
    obtain ⟨htx, -⟩ := hen.of_stays hwf hwf' ht
    have htl := (mem_insertWhile.mp (hsub.subset ht')).resolve_left htx
    have hnodup := nodup_insertWhile (p := fun y => decide ((a.tcb y).priority ≥ p))
      ((hwf.nodup (.wait w)).sublist hl) hx
    have hpl := hp.of_sublist (hwf.nodup _) hl hul htl
    exact (hpl.mono (sublist_insertWhile _ x l)).of_sublist hnodup hsub hu' ht'

theorem Runs.precedes_new (h : Runs v a acts a') (hwf : a.WF) (howned : a.Owned) (halien : a.Alien)
    (hs : a.Sorted) {u t : Tid} (hu : a.Stays a'.toCore w u) (ht : ¬ a.Stays a'.toCore w t) (ht' : a'.WaitsOn t w)
    (hprio : (a'.tcb u).priority = (a'.tcb t).priority) : Precedes u t (a'.seq (.wait w)) := by
  have hwf' := h.wf hwf
  rcases h.turns hwf howned halien w with hl | ⟨x, p, hen⟩
  · exact absurd (hl.stays hwf hwf' ht') ht
  · obtain rfl := hen.of_comes hwf hwf' ht ht'
    obtain ⟨hut, l, hl, hx, hul, hsub⟩ := hen.of_stays hwf hwf' hu
    have hp := hen.new (hwf'.mem_of_waits ht')
    have hnodup := nodup_insertWhile (p := fun y => decide ((a.tcb y).priority ≥ p))
      ((hwf.nodup (.wait w)).sublist hl) hx
    have hsorted : l.Pairwise fun y z =>
        decide ((a.tcb y).priority ≥ p) = false → decide ((a.tcb z).priority ≥ p) = false :=
      ((hs w).sublist hl).imp fun hle hy => by
        simp only [decide_eq_false_iff_not] at hy ⊢
        omega
    have hpre : Precedes u t (insertWhile (fun y => decide ((a.tcb y).priority ≥ p)) t l) :=
      precedes_insertWhile hsorted hul (decide_eq_true (by rw [← hu.prio, hprio, hp]))
    exact hpre.of_sublist hnodup hsub (hwf'.mem_of_waits hu.after) (hwf'.mem_of_waits ht')

end

theorem Tracks.alien {config : Config} {good : Sys → Event → Prop} {s : Sys} {a : Abs}
    (h : Tracks config good s a) : a.Alien := by
  induction h with
  | init => exact fun _ _ hw => nomatch hw
  | step e h hg hs hruns hinv ih => exact hruns.alien h.inv.wf h.inv.owned ih

/-! ### Runs -/

/-- `u` had the place it has in `w` when `t` came to its own place there. -/
inductive Before (config : Config) (w : WaitId) (u t : Tid) : Sys → Prop
  | enter {s s' : Sys} (e : Event) (h : Reachable config s) (hs : s.step e = some s')
      (hu : s.k.Stays s'.k.toCore w u) (ht : ¬ s.k.Stays s'.k.toCore w t) (ht' : s'.k.WaitsOn t w) :
      Before config w u t s'
  | stay {s s' : Sys} (e : Event) (h : Before config w u t s) (hs : s.step e = some s')
      (hu : s.k.Stays s'.k.toCore w u) (ht : s.k.Stays s'.k.toCore w t) : Before config w u t s'

namespace Before

variable {config : Config} {s : Sys} {w : WaitId} {u t : Tid}

theorem reachable (h : Before config w u t s) : Reachable config s := by
  induction h with
  | enter e h hs => exact h.step e hs
  | stay e h hs hu ht ih => exact ih.step e hs

theorem precedes (h : Before config w u t s) (hprio : (s.k.tcb u).priority = (s.k.tcb t).priority) :
    Precedes u t (s.k.members (.wait w)) := by
  induction h with
  | enter e h hs hu ht ht' =>
    obtain ⟨a, htracks⟩ := h.tracks
    obtain ⟨acts, a', hruns, hinv⟩ := htracks.inv.step hs
    have hi := htracks.inv
    rw [hinv.rep.members_eq hinv.wf]
    rw [hi.rep.core_eq, hinv.rep.core_eq] at hu ht
    rw [hinv.rep.core_eq] at ht' hprio
    exact hruns.precedes_new hi.wf hi.owned htracks.alien htracks.sorted.1 hu ht ht' hprio
  | stay e h hs hu ht ih =>
    obtain ⟨a, htracks⟩ := h.reachable.tracks
    obtain ⟨acts, a', hruns, hinv⟩ := htracks.inv.step hs
    have hi := htracks.inv
    have hpre := ih (by rw [← hu.prio, hprio, ht.prio])
    rw [hi.rep.members_eq hi.wf] at hpre
    rw [hinv.rep.members_eq hinv.wf]
    rw [hi.rep.core_eq, hinv.rep.core_eq] at hu ht
    exact hruns.precedes hi.wf hi.owned htracks.alien hu ht hpre

end Before

theorem Reachable.before {config : Config} {s : Sys} {w : WaitId} {u t : Tid} (h : Reachable config s)
    (hu : s.k.WaitsOn u w) (ht : s.k.WaitsOn t w) (hprio : (s.k.tcb u).priority = (s.k.tcb t).priority)
    (hpre : Precedes u t (s.k.members (.wait w))) : Before config w u t s := by
  induction h with
  | init => cases hu
  | step e h hs ih =>
    rename_i s s'
    obtain ⟨a, htracks⟩ := h.tracks
    obtain ⟨acts, a', hruns, hinv⟩ := htracks.inv.step hs
    have hi := htracks.inv
    have hcore := hi.rep.core_eq
    have hcore' := hinv.rep.core_eq
    rw [hinv.rep.members_eq hinv.wf] at hpre
    have hne := hpre.ne (hinv.wf.nodup _)
    by_cases hus : s.k.Stays s'.k.toCore w u
    · by_cases hts : s.k.Stays s'.k.toCore w t
      · -- the order of the two is the one they had
        refine .stay e (ih hus.before hts.before (by rw [← hus.prio, hprio, hts.prio]) ?_) hs hus hts
        rw [hi.rep.members_eq hi.wf]
        rw [hcore, hcore'] at hus hts
        rcases Precedes.total (hi.wf.mem_of_waits hus.before) (hi.wf.mem_of_waits hts.before) hne with hp | hp
        · exact hp
        · have hback := hruns.precedes hi.wf hi.owned htracks.alien hts hus hp
          exact absurd hback (hpre.asymm (hinv.wf.nodup _))
      · exact .enter e h hs hus hts ht
    · rw [hcore, hcore'] at hus
      rw [hcore'] at hu ht hprio
      by_cases hts : a.Stays a'.toCore w t
      · have hback := hruns.precedes_new hi.wf hi.owned htracks.alien htracks.sorted.1 hts hus hu hprio.symm
        exact absurd hback (hpre.asymm (hinv.wf.nodup _))
      · -- two tasks cannot come in one visit
        rcases hruns.turns hi.wf hi.owned htracks.alien w with hl | ⟨x, p, hen⟩
        · exact absurd (hl.stays hi.wf hinv.wf hu) hus
        · obtain rfl := hen.of_comes hi.wf hinv.wf hus hu
          exact absurd (hen.of_comes hi.wf hinv.wf hts ht).symm hne

/-- Every wait list is sorted by the current priorities of its waiters, and among those of one priority by
their arrival at it; so `wake_highest` takes a waiter of the highest priority, and of these the first to have
come to it. -/
theorem wait_order {config : Config} {s : Sys} (h : Reachable config s) (w : WaitId) :
    (∀ u, u ∈ s.k.members (.wait w) ↔ s.k.WaitsOn u w) ∧
    ((s.k.members (.wait w)).Pairwise fun u t => (s.k.tcb t).priority ≤ (s.k.tcb u).priority) ∧
    (∀ u t, s.k.WaitsOn u w → s.k.WaitsOn t w → u ≠ t → (s.k.tcb u).priority = (s.k.tcb t).priority →
      (Precedes u t (s.k.members (.wait w)) ↔ Before config w u t s)) ∧
    ∀ k : Kernel, k.links = s.k.links → ∀ t, (WaitQueue.wakeHighest w k).1 = some t →
      s.k.WaitsOn t w ∧ ∀ u, s.k.WaitsOn u w → u ≠ t → (s.k.tcb u).priority < (s.k.tcb t).priority ∨
        (s.k.tcb u).priority = (s.k.tcb t).priority ∧ Before config w t u s := by
  obtain ⟨a, htracks⟩ := h.tracks
  have hi := htracks.inv
  have hmem : ∀ u, u ∈ s.k.members (.wait w) ↔ s.k.WaitsOn u w := fun u => by
    rw [hi.rep.members_eq hi.wf, hi.rep.core_eq]
    exact ⟨fun hm => (hi.wf.mem_wait.mp hm).2, hi.wf.mem_of_waits⟩
  have hsorted : (s.k.members (.wait w)).Pairwise fun u t => (s.k.tcb t).priority ≤ (s.k.tcb u).priority := by
    rw [hi.rep.members_eq hi.wf, hi.rep.core_eq]
    exact htracks.sorted.1 w
  refine ⟨hmem, hsorted, fun u t hu ht _ hprio => ⟨h.before hu ht hprio, fun hb => hb.precedes hprio⟩, ?_⟩
  intro k hk t hwoken
  have hhead : (s.k.members (.wait w)).head? = some t := by
    have hpop : (TaskList.popFront (.wait w) s.k.links).1 = some t := by
      rw [← hwoken, ← hk]
      unfold WaitQueue.wakeHighest
      simp only
      split <;> simp_all
    rw [hi.rep.members_eq hi.wf]
    have hfirst : (TaskList.popFront (.wait w) s.k.links).1 = (s.k.links.list (.wait w)).head := by
      unfold TaskList.popFront
      split <;> simp_all
    rw [← show (s.k.links.list (.wait w)).head = _ from hi.rep.links.head_eq (.wait w), ← hfirst]
    exact hpop
  obtain ⟨rest, hseq⟩ := List.head?_eq_some_iff.mp hhead
  have ht : s.k.WaitsOn t w := (hmem t).mp (by rw [hseq]; simp)
  refine ⟨ht, fun u hu hne => ?_⟩
  have humem : u ∈ rest := by
    have := (hmem u).mpr hu
    rw [hseq] at this
    exact (List.mem_cons.mp this).resolve_left hne
  have hle : (s.k.tcb u).priority ≤ (s.k.tcb t).priority := by
    rw [hseq] at hsorted
    exact (List.pairwise_cons.mp hsorted).1 u humem
  rcases Nat.lt_or_eq_of_le hle with hlt | heq
  · exact Or.inl hlt
  · refine Or.inr ⟨heq, h.before ht hu heq.symm ?_⟩
    rw [hseq]
    exact Precedes.cons_iff.mpr (Or.inl ⟨rfl, humem⟩)

/-- Two tasks of one priority take an empty semaphore one after the other. -/
def Sys.queueRun : List Event :=
  createRun 1 2 ++ createRun 2 2 ++ startRun ++
    [.call (.take 0 kWaitForever), .advance, .pendSV 0, .call (.take 0 kWaitForever)]

theorem wait_order_queue : ∃ s, Sys.run (Sys.init .small) Sys.queueRun = some s ∧
    s.k.members (.wait (.sem 0)) = [0, 1] ∧ Before .small (.sem 0) 0 1 s := by
  have hrun : ((Sys.run (Sys.init .small) Sys.queueRun).map fun s => (s.k.members (.wait (.sem 0)),
      (s.k.tcb 0).waitList, (s.k.tcb 1).waitList, (s.k.tcb 0).priority, (s.k.tcb 1).priority)) =
      some ([0, 1], some (.sem 0), some (.sem 0), 2, 2) := by decide +kernel
  obtain ⟨s, hs, hstate⟩ := Option.map_eq_some_iff.mp hrun
  simp only [Prod.mk.injEq] at hstate
  obtain ⟨hmem, hw0, hw1, hp0, hp1⟩ := hstate
  obtain ⟨-, -, horder, -⟩ := wait_order (Reachable.run .init hs) (.sem 0)
  refine ⟨s, hs, hmem, (horder 0 1 hw0 hw1 (by decide) (hp0.trans hp1.symm)).mp ?_⟩
  rw [hmem]
  exact List.Sublist.refl _

end AcRtos
