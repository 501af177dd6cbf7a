import Mathlib

/-!
# Intrusive doubly linked lists

A family of lists threaded through one pair of link maps `prev`, `next` over arbitrary nodes: list `i`
has its ends in `head i` and `tail i`, and a node is in at most one list. `Linked` says that the
pointers represent the sequences `seq`; `Linked.insert` and `Linked.erase` are the two link surgeries,
stated over the pointer values *after* the surgery, so that any code that ends with these values can
use them.
-/

namespace AcRtos.Lib

variable {N : Type} {ι : Type}

/-- The nodes `xs` are linked in this order: the first one points back to `before`, the last one
forward to `after`. -/
def Seg (prev next : N → Option N) : Option N → List N → Option N → Prop
  | _, [], _ => True
  | before, x :: xs, after =>
      prev x = before ∧ next x = xs.head?.or after ∧ Seg prev next (some x) xs after

section Seg
variable {prev next prev' next' : N → Option N} {before after before' after' : Option N}

@[simp] theorem seg_nil : Seg prev next before [] after := trivial

@[simp] theorem seg_cons {x : N} {xs : List N} :
    Seg prev next before (x :: xs) after ↔
      prev x = before ∧ next x = xs.head?.or after ∧ Seg prev next (some x) xs after := Iff.rfl

theorem seg_append {xs ys : List N} :
    Seg prev next before (xs ++ ys) after ↔
      Seg prev next before xs (ys.head?.or after) ∧
        Seg prev next (xs.getLast?.or before) ys after := by
  induction xs generalizing before with
  | nil => simp
  | cons x xs ih =>
    rw [List.cons_append, seg_cons, seg_cons, ih, List.head?_append, Option.or_assoc]
    have hlast : (x :: xs).getLast?.or before = xs.getLast?.or (some x) := by
      rw [List.getLast?_cons]
      cases xs.getLast? <;> rfl
    rw [hlast]
    tauto

theorem Seg.congr {xs : List N} (h : Seg prev next before xs after)
    (hprev : ∀ x ∈ xs, prev' x = prev x) (hnext : ∀ x ∈ xs, next' x = next x) :
    Seg prev' next' before xs after := by
  induction xs generalizing before with
  | nil => trivial
  | cons x xs ih =>
    obtain ⟨h1, h2, h3⟩ := h
    refine ⟨(hprev x (by simp)).trans h1, (hnext x (by simp)).trans h2, ih h3 ?_ ?_⟩
    · exact fun y hy => hprev y (by simp [hy])
    · exact fun y hy => hnext y (by simp [hy])

theorem Seg.retarget_after {xs : List N} (h : Seg prev next before xs after) (hnodup : xs.Nodup)
    (hprev : ∀ x ∈ xs, prev' x = prev x)
    (hnext : ∀ x ∈ xs, xs.getLast? ≠ some x → next' x = next x)
    (hlast : ∀ y, xs.getLast? = some y → next' y = after') :
    Seg prev' next' before xs after' := by
  rcases List.eq_nil_or_concat xs with rfl | ⟨ys, y, rfl⟩
  · trivial
  · rw [List.concat_eq_append] at *
    have hy : y ∉ ys := by
      rw [List.nodup_append] at hnodup
      exact fun hmem => hnodup.2.2 y hmem y (by simp) rfl
    rw [seg_append] at h ⊢
    obtain ⟨h1, h2, h3, -⟩ := h
    refine ⟨h1.congr (fun x hx => hprev x (by simp [hx])) (fun x hx => hnext x (by simp [hx]) ?_), ?_⟩
    · rw [List.getLast?_concat]
      rintro ⟨⟩
      exact hy hx
    · exact ⟨(hprev y (by simp)).trans h2, by simpa using hlast y (by simp), trivial⟩

theorem Seg.retarget_before {xs : List N} (h : Seg prev next before xs after) (hnodup : xs.Nodup)
    (hnext : ∀ x ∈ xs, next' x = next x)
    (hprev : ∀ x ∈ xs, xs.head? ≠ some x → prev' x = prev x)
    (hhead : ∀ y, xs.head? = some y → prev' y = before') :
    Seg prev' next' before' xs after := by
  cases xs with
  | nil => trivial
  | cons y ys =>
    obtain ⟨-, h2, h3⟩ := h
    have hy : y ∉ ys := (List.nodup_cons.mp hnodup).1
    refine ⟨hhead y rfl, (hnext y (by simp)).trans h2, h3.congr (fun x hx => ?_) (fun x hx => ?_)⟩
    · refine hprev x (by simp [hx]) ?_
      rintro ⟨⟩
      exact hy hx
    · exact hnext x (by simp [hx])

end Seg

/-- The nodes met from `start` along `next`, at most `fuel` of them. -/
def walk (next : N → Option N) : Nat → Option N → List N
  | 0, _ => []
  | _ + 1, none => []
  | fuel + 1, some x => x :: walk next fuel (next x)

/-- A walk along a segment that ends in null meets exactly its nodes. -/
theorem Seg.walk_eq {prev next : N → Option N} {before : Option N} {xs : List N} {fuel : Nat}
    (h : Seg prev next before xs none) (hfuel : xs.length ≤ fuel) : walk next fuel xs.head? = xs := by
  induction xs generalizing before fuel with
  | nil => cases fuel <;> rfl
  | cons x xs ih =>
    obtain ⟨fuel, rfl⟩ : ∃ n, fuel = n + 1 := ⟨fuel - 1, by simp at hfuel; omega⟩
    obtain ⟨-, hnext, hrest⟩ := h
    rw [Option.or_none] at hnext
    rw [List.head?_cons, walk, hnext, ih hrest (by simpa using hfuel)]

/-- The pointers represent the sequences: both ends, both link directions, no node twice. -/
structure Linked (prev next : N → Option N) (head tail : ι → Option N) (seq : ι → List N) : Prop where
  head_eq : ∀ i, head i = (seq i).head?
  tail_eq : ∀ i, tail i = (seq i).getLast?
  seg : ∀ i, Seg prev next none (seq i) none
  nodup : ∀ i, (seq i).Nodup
  disjoint : ∀ i j x, x ∈ seq i → x ∈ seq j → i = j

namespace Linked

variable {prev next prev' next' : N → Option N} {head tail head' tail' : ι → Option N}
  {seq : ι → List N}

theorem links_of_split (h : Linked prev next head tail seq) {i : ι} {l r : List N} {x : N}
    (hsplit : seq i = l ++ x :: r) : prev x = l.getLast? ∧ next x = r.head? := by
  have hseg := h.seg i
  rw [hsplit, seg_append] at hseg
  obtain ⟨-, h1, h2, -⟩ := hseg
  simpa using And.intro h1 h2

theorem head_of_cons (h : Linked prev next head tail seq) {i : ι} {x : N} {r : List N}
    (hseq : seq i = x :: r) : head i = some x := by
  rw [h.head_eq, hseq]; rfl

theorem head_of_nil (h : Linked prev next head tail seq) {i : ι} (hseq : seq i = []) :
    head i = none := by
  rw [h.head_eq, hseq]; rfl

variable [DecidableEq ι]

/-- Linking the fresh node `x` between `l` and `r`. -/
theorem insert (h : Linked prev next head tail seq) {i : ι} {l r : List N} {x : N}
    (hsplit : seq i = l ++ r) (hfresh : ∀ j, x ∉ seq j)
    (hpx : prev' x = l.getLast?) (hnx : next' x = r.head?)
    (hnl : ∀ y, l.getLast? = some y → next' y = some x)
    (hpr : ∀ y, r.head? = some y → prev' y = some x)
    (hnext : ∀ y, y ≠ x → l.getLast? ≠ some y → next' y = next y)
    (hprev : ∀ y, y ≠ x → r.head? ≠ some y → prev' y = prev y)
    (hhead : head' = Function.update head i (l ++ x :: r).head?)
    (htail : tail' = Function.update tail i (l ++ x :: r).getLast?) :
    Linked prev' next' head' tail' (Function.update seq i (l ++ x :: r)) := by
  have hnodup := h.nodup i
  rw [hsplit] at hnodup
  have hxl : x ∉ l := fun hx => hfresh i (by simp [hsplit, hx])
  have hxr : x ∉ r := fun hx => hfresh i (by simp [hsplit, hx])
  have hdisj : ∀ y ∈ l, y ∉ r := fun y hl hr => (List.nodup_append.mp hnodup).2.2 y hl y hr rfl
  have hmem : ∀ j y, y ∈ Function.update seq i (l ++ x :: r) j → y ∈ seq j ∨ (j = i ∧ y = x) := by
    intro j y hy
    by_cases hj : j = i
    · subst hj
      simp only [Function.update_self, List.mem_append, List.mem_cons] at hy
      rcases hy with hy | rfl | hy
      · exact Or.inl (by simp [hsplit, hy])
      · exact Or.inr ⟨rfl, rfl⟩
      · exact Or.inl (by simp [hsplit, hy])
    · rw [Function.update_of_ne hj] at hy
      exact Or.inl hy
  refine ⟨fun j => ?_, fun j => ?_, fun j => ?_, fun j => ?_, fun j j' y hy hy' => ?_⟩
  · rw [hhead]
    by_cases hj : j = i
    · subst hj; simp only [Function.update_self]
    · simp only [Function.update_of_ne hj, h.head_eq]
  · rw [htail]
    by_cases hj : j = i
    · subst hj; simp only [Function.update_self]
    · simp only [Function.update_of_ne hj, h.tail_eq]
  · by_cases hj : j = i
    · subst hj
      have hseg := h.seg j
      rw [hsplit, seg_append] at hseg
      rw [Function.update_self, seg_append]
      refine ⟨hseg.1.retarget_after (List.nodup_append.mp hnodup).1 ?_ ?_ ?_, by simpa using hpx,
        by simpa using hnx, hseg.2.retarget_before (List.nodup_append.mp hnodup).2.1 ?_ ?_ ?_⟩
      · intro y hy
        refine hprev y (fun hyx => hxl (hyx ▸ hy)) (fun hyr => hdisj y hy ?_)
        exact List.mem_of_mem_head? (by simp [hyr])
      · exact fun y hy hlast => hnext y (fun hyx => hxl (hyx ▸ hy)) hlast
      · simpa using hnl
      · intro y hy
        refine hnext y (fun hyx => hxr (hyx ▸ hy)) (fun hyl => hdisj y ?_ hy)
        exact List.mem_of_getLast? hyl
      · exact fun y hy hhd => hprev y (fun hyx => hxr (hyx ▸ hy)) hhd
      · exact fun y hy => by simpa using hpr y hy
    · rw [Function.update_of_ne hj]
      refine (h.seg j).congr (fun y hy => hprev y ?_ ?_) (fun y hy => hnext y ?_ ?_)
      · exact fun hyx => hfresh j (hyx ▸ hy)
      · exact fun hyr => hj (h.disjoint j i y hy
          (by rw [hsplit]; exact List.mem_append_right _ (List.mem_of_mem_head? (by simp [hyr]))))
      · exact fun hyx => hfresh j (hyx ▸ hy)
      · exact fun hyl => hj (h.disjoint j i y hy
          (by rw [hsplit]; exact List.mem_append_left _ (List.mem_of_getLast? hyl)))
  · by_cases hj : j = i
    · subst hj
      rw [Function.update_self]
      refine List.nodup_append.mpr ⟨(List.nodup_append.mp hnodup).1,
        List.nodup_cons.mpr ⟨hxr, (List.nodup_append.mp hnodup).2.1⟩, ?_⟩
      rintro y hy z hz rfl
      rcases List.mem_cons.mp hz with rfl | hz
      · exact hxl hy
      · exact hdisj y hy hz
    · rw [Function.update_of_ne hj]
      exact h.nodup j
  · rcases hmem j y hy with h1 | ⟨rfl, rfl⟩ <;> rcases hmem j' y hy' with h2 | ⟨rfl, h2⟩
    · exact h.disjoint j j' y h1 h2
    · exact absurd (h2 ▸ h1) (hfresh j)
    · exact absurd h2 (hfresh j')
    · rfl

/-- Unlinking the node `x` between `l` and `r`; its own links may end up anywhere. -/
theorem erase (h : Linked prev next head tail seq) {i : ι} {l r : List N} {x : N}
    (hsplit : seq i = l ++ x :: r)
    (hnl : ∀ y, l.getLast? = some y → next' y = r.head?)
    (hpr : ∀ y, r.head? = some y → prev' y = l.getLast?)
    (hnext : ∀ y, y ≠ x → l.getLast? ≠ some y → next' y = next y)
    (hprev : ∀ y, y ≠ x → r.head? ≠ some y → prev' y = prev y)
    (hhead : head' = Function.update head i (l ++ r).head?)
    (htail : tail' = Function.update tail i (l ++ r).getLast?) :
    Linked prev' next' head' tail' (Function.update seq i (l ++ r)) := by
  have hnodup := h.nodup i
  rw [hsplit, List.nodup_append, List.nodup_cons] at hnodup
  obtain ⟨hl, ⟨hxr, hr⟩, hsep⟩ := hnodup
  have hxl : x ∉ l := fun hx => hsep x hx x (by simp) rfl
  have hdisj : ∀ y ∈ l, y ∉ r := fun y hyl hyr => hsep y hyl y (by simp [hyr]) rfl
  have hmem : ∀ j y, y ∈ Function.update seq i (l ++ r) j → y ∈ seq j := by
    intro j y hy
    by_cases hj : j = i
    · subst hj
      rw [Function.update_self] at hy
      rw [hsplit]
      rcases List.mem_append.mp hy with hy | hy
      · exact List.mem_append_left _ hy
      · exact List.mem_append_right _ (List.mem_cons_of_mem _ hy)
    · rwa [Function.update_of_ne hj] at hy
  have hxi : x ∈ seq i := by simp [hsplit]
  refine ⟨fun j => ?_, fun j => ?_, fun j => ?_, fun j => ?_,
    fun j j' y hy hy' => h.disjoint j j' y (hmem j y hy) (hmem j' y hy')⟩
  · rw [hhead]
    by_cases hj : j = i
    · subst hj; simp only [Function.update_self]
    · simp only [Function.update_of_ne hj, h.head_eq]
  · rw [htail]
    by_cases hj : j = i
    · subst hj; simp only [Function.update_self]
    · simp only [Function.update_of_ne hj, h.tail_eq]
  · by_cases hj : j = i
    · subst hj
      have hseg := h.seg j
      rw [hsplit, seg_append] at hseg
      obtain ⟨hs1, -, -, hs2⟩ := hseg
      rw [Function.update_self, seg_append]
      refine ⟨hs1.retarget_after hl ?_ ?_ ?_, hs2.retarget_before hr ?_ ?_ ?_⟩
      · intro y hy
        refine hprev y (fun hyx => hxl (hyx ▸ hy)) (fun hyr => hdisj y hy ?_)
        exact List.mem_of_mem_head? (by simp [hyr])
      · exact fun y hy hlast => hnext y (fun hyx => hxl (hyx ▸ hy)) hlast
      · exact fun y hy => by simpa using hnl y hy
      · intro y hy
        refine hnext y (fun hyx => hxr (hyx ▸ hy)) (fun hyl => hdisj y ?_ hy)
        exact List.mem_of_getLast? hyl
      · exact fun y hy hhd => hprev y (fun hyx => hxr (hyx ▸ hy)) hhd
      · exact fun y hy => by simpa using hpr y hy
    · rw [Function.update_of_ne hj]
      refine (h.seg j).congr (fun y hy => hprev y ?_ ?_) (fun y hy => hnext y ?_ ?_)
      · exact fun hyx => hj (h.disjoint j i y hy (hyx ▸ hxi))
      · exact fun hyr => hj (h.disjoint j i y hy (by
          rw [hsplit]
          exact List.mem_append_right _ (List.mem_cons_of_mem _ (List.mem_of_mem_head? (by simp [hyr])))))
      · exact fun hyx => hj (h.disjoint j i y hy (hyx ▸ hxi))
      · exact fun hyl => hj (h.disjoint j i y hy
          (by rw [hsplit]; exact List.mem_append_left _ (List.mem_of_getLast? hyl)))
  · by_cases hj : j = i
    · subst hj
      rw [Function.update_self]
      exact List.nodup_append.mpr ⟨hl, hr, fun y hy z hz hyz => hdisj y hy (hyz ▸ hz)⟩
    · rw [Function.update_of_ne hj]
      exact h.nodup j

end Linked

end AcRtos.Lib
