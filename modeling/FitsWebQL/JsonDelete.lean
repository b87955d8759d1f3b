/-
  FitsWebQL.JsonDelete — `json_delete`: a node is taken out, its children are deleted one
  after the other, the loop keeps the next before the present is gone, and the node is freed
  with its string. `json_remove_from_parent` frees the key.

  Proved:
    delete_eq   everything under the node is freed, nodes, keys and strings, each of them
                once, and nothing else; the calls are not deeper than twice the nodes
-/

import FitsWebQL.JsonHeap

namespace FitsWebQL

open Lib.Siblings Lib.Trees JsonHeap

mutual

/-- `fuel` bounds the depth of the calls. -/
def json_delete : ℕ → JsonHeap → Option ℕ → Option JsonHeap
  | _, h, none => some h
  | 0, _, some _ => none
  | fuel + 1, h, some node => do
    let h ← json_remove_from_parent h node
    let n ← h.node node
    let h ← match n.tag with
      | .string => h.freeText n.string_
      | .array | .object => deleteChildren fuel h n.head
      | _ => some h
    h.freeNode node

def deleteChildren : ℕ → JsonHeap → Option ℕ → Option JsonHeap
  | _, h, none => some h
  | 0, _, some _ => none
  | fuel + 1, h, some child => do
    let next := (← h.node child).next
    let h ← json_delete fuel h (some child)
    deleteChildren fuel h next

end

variable {d : Doc} {x y p c s : ℕ} {l lx lp lc : JsonLabel}

/-! ## Dropped -/

open Classical in
noncomputable def Doc.drop (d : Doc) (S : Set ℕ) : Doc where
  trees := d.trees.drop S
  text s := if ∃ x ∈ S, d.Owned s x then none else d.text s
  fresh := d.fresh

theorem label_drop {S : Set ℕ} (hy : y ∉ S) : (d.drop S).trees.label y = d.trees.label y := if_neg hy

theorem label_drop_mem {S : Set ℕ} (hy : y ∈ S) : (d.drop S).trees.label y = none := if_pos hy

theorem parent_drop {S : Set ℕ} (hy : y ∉ S) : (d.drop S).trees.parent y = d.trees.parent y := if_neg hy

theorem owned_drop {S : Set ℕ} : (d.drop S).Owned s y ↔ d.Owned s y ∧ y ∉ S := by
  by_cases hy : y ∈ S
  · simp [Doc.Owned, label_drop_mem hy, hy]
  · simp [Doc.Owned, label_drop hy, hy]

theorem tag_drop {S : Set ℕ} (hy : y ∉ S) : (d.drop S).tag y = d.tag y := by rw [Doc.tag, label_drop hy, Doc.tag]

theorem wf_drop (hd : d.Wf) {S : Set ℕ} (hS : d.trees.Closed S) : (d.drop S).Wf where
  trees := Forest.wf_drop hd.trees hS
  parents {y q} hy := by
    have hyS : y ∉ S := fun hmem => by
      rw [show (d.drop S).trees.parent y = none from if_pos hmem] at hy
      cases hy
    rw [parent_drop hyS] at hy
    rw [tag_drop fun hq => hyS (hS q hq y (hd.trees.mem_kids.mpr hy))]
    exact hd.parents hy
  keys {y ly} hy := by
    have hyS : y ∉ S := fun hmem => by
      rw [label_drop_mem hmem] at hy
      cases hy
    rw [label_drop hyS] at hy
    rw [hd.keys hy, parent_drop hyS]
    refine exists_congr fun q => and_congr_right fun hq => ?_
    rw [tag_drop fun hmem => hyS (hS q hmem y (hd.trees.mem_kids.mpr hq))]
  strings {y ly} hy := by
    have hyS : y ∉ S := fun hmem => by
      rw [label_drop_mem hmem] at hy
      cases hy
    rw [label_drop hyS] at hy
    exact hd.strings hy
  owned {s} := by
    simp only [owned_drop]
    simp only [Doc.drop]
    split_ifs with h
    · obtain ⟨x, hx, hsx⟩ := h
      simp only [ne_eq, not_true_eq_false, false_iff, not_exists, not_and, not_not]
      intro y hy
      rw [hd.one hy hsx]
      exact hx
    · rw [hd.owned]
      refine exists_congr fun y => ⟨fun hy => ⟨hy, fun hmem => h ⟨y, hmem, hy⟩⟩, fun hy => hy.1⟩
  one hx' hy' := hd.one (owned_drop.mp hx').1 (owned_drop.mp hy').1
  apart {y ly} hy := by
    have hyS : y ∉ S := fun hmem => by
      rw [label_drop_mem hmem] at hy
      cases hy
    rw [label_drop hyS] at hy
    exact hd.apart hy
  fresh {y} hy := by
    obtain ⟨hlabel, htext⟩ := hd.fresh hy
    refine ⟨?_, ?_⟩
    · simp [Doc.drop, Forest.drop, hlabel]
    · simp [Doc.drop, htext]

open Classical in
theorem drop_drop {S T : Set ℕ} : (d.drop S).drop T = d.drop (S ∪ T) := by
  have htext : ((d.drop S).drop T).text = (d.drop (S ∪ T)).text := by
    funext s
    show (if ∃ x ∈ T, (d.drop S).Owned s x then none else if ∃ x ∈ S, d.Owned s x then none else d.text s) =
      if ∃ x ∈ S ∪ T, d.Owned s x then none else d.text s
    simp only [owned_drop]
    by_cases hS : ∃ x ∈ S, d.Owned s x
    · obtain ⟨x, hx, hs⟩ := hS
      have hunion : ∃ x ∈ S ∪ T, d.Owned s x := ⟨x, Or.inl hx, hs⟩
      have hS : ∃ x ∈ S, d.Owned s x := ⟨x, hx, hs⟩
      rw [if_pos hunion, if_pos hS, ite_self]
    · rw [if_neg hS]
      refine if_congr ⟨?_, ?_⟩ rfl rfl
      · intro h
        obtain ⟨x, hx, hs, -⟩ := h
        exact ⟨x, Or.inr hx, hs⟩
      · intro h
        obtain ⟨x, hx | hx, hs⟩ := h
        · exact absurd ⟨x, hx, hs⟩ hS
        · exact ⟨x, hx, hs, fun hmem => hS ⟨x, hmem, hs⟩⟩
  have htrees : ((d.drop S).drop T).trees = (d.drop (S ∪ T)).trees := Forest.drop_drop
  show Doc.mk ((d.drop S).drop T).trees ((d.drop S).drop T).text d.fresh = Doc.mk (d.drop (S ∪ T)).trees (d.drop (S ∪ T)).text d.fresh
  rw [htrees, htext]

open Classical in
theorem drop_detach (hd : d.Wf) (hl : d.trees.label x = some l) {S : Set ℕ} (hx : x ∈ S) : (d.detach x l).drop S = d.drop S := by
  have htrees : ((d.detach x l).drop S).trees = (d.drop S).trees := by
    refine Eq.trans ?_ (hd.trees.drop_detach hx)
    ext1 y
    · show (if y ∈ S then none else (d.detach x l).trees.label y) = if y ∈ S then none else d.trees.label y
      split_ifs with hy
      · rfl
      · rw [label_detach, if_neg]
        rintro rfl
        exact hy hx
    · rfl
    · rfl
  have htext : ((d.detach x l).drop S).text = (d.drop S).text := by
    funext s
    show (if ∃ y ∈ S, (d.detach x l).Owned s y then none else l.key.elim d.text (fun k => Function.update d.text k none) s) =
      if ∃ y ∈ S, d.Owned s y then none else d.text s
    simp only [owned_detach hd hl]
    by_cases hs : l.key = some s
    · have hex : ∃ y ∈ S, d.Owned s y := ⟨x, hx, (owned_self hl).mpr (mem_texts.mpr (Or.inl hs))⟩
      rw [if_pos hex, hs]
      simp
    · simp only [hs, not_false_eq_true, and_true, ne_eq]
      congr 1
      cases hk : l.key with
      | none => rfl
      | some k =>
        have hne : s ≠ k := fun he => hs (by rw [hk, he])
        simp [hne]
  show Doc.mk ((d.detach x l).drop S).trees ((d.detach x l).drop S).text d.fresh = Doc.mk (d.drop S).trees (d.drop S).text d.fresh
  rw [htrees, htext]

open Classical in
/-- A root without children is freed, with its string. -/
theorem free_leaf (hd : d.Wf) (hl : d.trees.label x = some l) (hroot : d.trees.parent x = none) (hkids : d.trees.kids x = []) :
    ((d.heap.freeText l.string_).bind fun h => h.freeNode x) = some (d.drop {x}).heap := by
  have hstring : ∀ k ∈ l.string_, d.heap.text k ≠ none := fun k hk =>
    hd.owned.mpr ⟨x, (owned_self hl).mpr (mem_texts.mpr (Or.inr hk))⟩
  have hkey := root_key hd hl hroot
  rw [freeText_eq hstring, Option.bind_some, JsonHeap.freeNode]
  show (d.heap.node x).map _ = _
  rw [node_heap hl, Option.map_some]
  refine congrArg some (heap_eq (fun y => ?_) (funext fun s => ?_) rfl)
  · by_cases hy : y = x
    · rw [label_drop_mem (Set.mem_singleton_iff.mpr hy), hy]
      exact Function.update_self _ _ _
    · rw [label_drop (mt Set.mem_singleton_iff.mp hy)]
      refine (Function.update_of_ne hy _ _).trans ?_
      show (d.trees.label y).map (d.cell y) = (d.trees.label y).map ((d.drop {x}).cell y)
      have hkids' : ∀ q, q ≠ x → (d.drop {x}).trees.kids q = d.trees.kids q := by
        intro q hq
        refine (if_neg (mt Set.mem_singleton_iff.mp hq)).trans (List.filter_eq_self.mpr fun z hz => ?_)
        simp only [Set.mem_singleton_iff, decide_not, Bool.not_eq_true', decide_eq_false_iff_not]
        rintro rfl
        rw [hd.trees.mem_kids, hroot] at hz
        cases hz
      have hneighbour : ∀ g : List ℕ → ℕ → Option ℕ, ((d.trees.parent y).bind fun q => g ((d.drop {x}).trees.kids q) y) =
          (d.trees.parent y).bind fun q => g (d.trees.kids q) y := by
        intro g
        refine Option.bind_congr fun q hq => ?_
        rw [hkids' q]
        rintro rfl
        have hmem := hd.trees.mem_kids.mpr hq
        rw [hkids] at hmem
        cases hmem
      refine congrArg (Option.map · _) (funext fun ly => ?_)
      simp only [Doc.cell, parent_drop (mt Set.mem_singleton_iff.mp hy), hneighbour, hkids' y hy]
  · show l.string_.elim d.text _ s = if ∃ z ∈ ({x} : Set ℕ), d.Owned s z then none else d.text s
    simp only [Set.mem_singleton_iff, exists_eq_left, owned_self hl, mem_texts, hkey, reduceCtorEq, false_or]
    cases l.string_ with
    | none => simp
    | some k =>
      simp only [Option.elim_some, Function.update_apply, Option.some.injEq, eq_comm]
      rfl

theorem finite_under (hd : d.Wf) (hl : d.trees.label x ≠ none) : {y | d.trees.Under x y}.Finite := by
  refine (Set.finite_Iio d.fresh).subset fun y hy => ?_
  by_contra hfresh
  exact hd.trees.under_live hl hy (hd.fresh (not_lt.mp hfresh)).1

theorem ncard_under_le (hd : d.Wf) (hl : d.trees.label x ≠ none) : {y | d.trees.Under x y}.ncard ≤ d.fresh := by
  rw [← Set.ncard_Iio_nat d.fresh]
  refine Set.ncard_le_ncard (fun y hy => ?_) (Set.finite_Iio d.fresh)
  by_contra hfresh
  exact hd.trees.under_live hl hy (hd.fresh (not_lt.mp hfresh)).1

theorem kids_nil (hd : d.Wf) (hl : d.trees.label x = some l) (harray : l.tag ≠ .array) (hobject : l.tag ≠ .object) :
    d.trees.kids x = [] := by
  refine List.eq_nil_iff_forall_not_mem.mpr fun y hy => ?_
  have htag := hd.parents (hd.trees.mem_kids.mp hy)
  simp [Doc.tag, hl, harray, hobject] at htag

theorem drop_empty : d.drop ∅ = d := by
  have htrees : (d.drop ∅).trees = d.trees := Forest.drop_empty
  have htext : (d.drop ∅).text = d.text := funext fun s => by simp [Doc.drop]
  show Doc.mk (d.drop ∅).trees (d.drop ∅).text d.fresh = d
  rw [htrees, htext]

def Doc.below (d : Doc) (cs : List ℕ) : Set ℕ := {y | ∃ c ∈ cs, d.trees.Under c y}

theorem under_eq_below : {y | d.trees.Under x y} = insert x (d.below (d.trees.kids x)) := Set.ext fun _ => Forest.under_iff

theorem below_closed (cs : List ℕ) : d.trees.Closed (d.below cs) := by
  intro y hy z hz
  obtain ⟨c, hc, hcy⟩ := hy
  exact ⟨c, hc, Forest.under_closed hcy z hz⟩

theorem finite_below (hd : d.Wf) {cs : List ℕ} (hcs : ∀ c ∈ cs, d.trees.label c ≠ none) : (d.below cs).Finite := by
  refine (Set.finite_Iio d.fresh).subset fun y hy => ?_
  obtain ⟨c, hc, hcy⟩ := hy
  by_contra hfresh
  exact hd.trees.under_live (hcs c hc) hcy (hd.fresh (not_lt.mp hfresh)).1

/-- The first child is gone: its siblings are left, with what is under them. -/
theorem drop_first (hd : d.Wf) {cs : List ℕ} (hkids : d.trees.kids p = c :: cs) :
    (d.drop {y | d.trees.Under c y}).trees.kids p = cs ∧
      {y | d.trees.Under c y} ∪ (d.drop {y | d.trees.Under c y}).below cs = d.below (c :: cs) ∧
      c ∉ (d.drop {y | d.trees.Under c y}).below cs ∧ (d.drop {y | d.trees.Under c y}).below cs ⊆ d.below (c :: cs) := by
  have hmem : ∀ k ∈ c :: cs, k ∈ d.trees.kids p := fun k hk => by rwa [hkids]
  have hnodup := hd.trees.nodup p
  rw [hkids] at hnodup
  have hapart : ∀ k ∈ cs, ∀ y, d.trees.Under k y → ¬ d.trees.Under c y := by
    intro k hk y hky
    refine hd.trees.siblings_apart (hmem k (List.mem_cons_of_mem c hk)) (hmem c List.mem_cons_self) ?_ hky
    rintro rfl
    exact (List.nodup_cons.mp hnodup).1 hk
  have hsubset : (d.drop {y | d.trees.Under c y}).below cs ⊆ d.below (c :: cs) := by
    intro y hy
    obtain ⟨k, hk, hky⟩ := hy
    exact ⟨k, List.mem_cons_of_mem c hk, Forest.under_of_drop hky⟩
  refine ⟨?_, ?_, ?_, hsubset⟩
  · have hp : p ∉ {y | d.trees.Under c y} := hd.trees.acyclic (hmem c List.mem_cons_self)
    refine (if_neg hp).trans ?_
    rw [hkids, List.filter_cons_of_neg (by simp), List.filter_eq_self.mpr]
    intro k hk
    simpa using hapart k hk k (Forest.under_refl _)
  · refine Set.Subset.antisymm (Set.union_subset (fun y hy => ⟨c, List.mem_cons_self, hy⟩) hsubset) ?_
    intro y hy
    obtain ⟨k, hk, hky⟩ := hy
    rcases List.mem_cons.mp hk with rfl | hk
    · exact Or.inl hky
    · exact Or.inr ⟨k, hk, (Forest.Closed.under_drop Forest.closed_under (hapart k hk y hky)).mpr hky⟩
  · intro h
    obtain ⟨k, hk, hkc⟩ := h
    exact hapart k hk c (Forest.under_of_drop hkc) (Forest.under_refl _)

/-- `json_delete` drops what is under the node; its loop, what is under the children. -/
theorem delete_eq (fuel : ℕ) :
    (∀ {d : Doc} {x l}, d.Wf → d.trees.label x = some l → 2 * {y | d.trees.Under x y}.ncard ≤ fuel + 1 →
      json_delete fuel d.heap (some x) = some (d.drop {y | d.trees.Under x y}).heap) ∧
    (∀ {d : Doc} {p} {cs : List ℕ}, d.Wf → d.trees.kids p = cs → 2 * (d.below cs).ncard ≤ fuel →
      deleteChildren fuel d.heap cs.head? = some (d.drop (d.below cs)).heap) := by
  induction fuel with
  | zero =>
    refine ⟨fun {d x l} hd hl hfuel => ?_, fun {d p cs} hd hkids hfuel => ?_⟩
    · have hpos := (Set.ncard_pos (finite_under hd (by rw [hl]; exact Option.some_ne_none l))).mpr ⟨x, (Forest.under_refl _)⟩
      omega
    · cases cs with
      | nil =>
        have hempty : d.below [] = ∅ := by simp [Doc.below]
        rw [hempty, drop_empty]
        rfl
      | cons c cs =>
        have hlive : ∀ k ∈ c :: cs, d.trees.label k ≠ none := fun k hk => (hd.trees.live (hd.trees.mem_kids.mp (hkids ▸ hk))).1
        have hpos := (Set.ncard_pos (finite_below hd hlive)).mpr ⟨c, c, List.mem_cons_self, (Forest.under_refl _)⟩
        omega
  | succ fuel ih =>
    obtain ⟨ihnode, ihloop⟩ := ih
    refine ⟨fun {d x l} hd hl hfuel => ?_, fun {d p cs} hd hkids hfuel => ?_⟩
    · have hd1 := wf_detach hd hl
      have hl1 : (d.detach x l).trees.label x = some { l with key := none } := by rw [label_detach, if_pos rfl]
      have hroot : (d.detach x l).trees.parent x = none := by rw [parent_detach, if_pos rfl]
      have hsame : {y | (d.detach x l).trees.Under x y} = {y | d.trees.Under x y} := Set.ext fun y => hd.trees.under_detach
      rw [json_delete, json_remove_from_parent_eq hd hl]
      simp only [Option.bind_eq_bind, Option.bind_some, node_heap hl1]
      have hdrop := drop_detach hd hl (S := {y | d.trees.Under x y}) (Forest.under_refl _)
      rw [← hdrop, ← hsame, under_eq_below]
      by_cases hcontainer : l.tag = .array ∨ l.tag = .object
      · have hstring := string_none hd hl (by rcases hcontainer with h | h <;> rw [h] <;> exact nofun)
        generalize hU : (d.detach x l).below ((d.detach x l).trees.kids x) = U
        have hxU : x ∉ U := by
          rw [← hU]
          intro h
          obtain ⟨c, hc, hcx⟩ := h
          exact hd1.trees.acyclic hc hcx
        have hfinite : (insert x U).Finite := by
          rw [← hU, ← under_eq_below]
          exact finite_under hd1 (by rw [hl1]; exact Option.some_ne_none _)
        have hcard : U.ncard + 1 = {y | d.trees.Under x y}.ncard := by
          rw [← hsame, under_eq_below, hU, Set.ncard_insert_of_notMem hxU (hfinite.subset (Set.subset_insert x U))]
        have hloop := ihloop hd1 (rfl : (d.detach x l).trees.kids x = _) (by rw [hU]; omega)
        rw [hU] at hloop
        have hd2 : ((d.detach x l).drop U).Wf := wf_drop hd1 (hU ▸ below_closed _)
        have hl2 : ((d.detach x l).drop U).trees.label x = some { l with key := none } := (label_drop hxU).trans hl1
        have hkids2 : ((d.detach x l).drop U).trees.kids x = [] := by
          refine (if_neg hxU).trans (List.filter_eq_nil_iff.mpr fun c hc => ?_)
          simpa [← hU] using ⟨c, hc, Forest.under_refl c⟩
        have hleaf := free_leaf hd2 hl2 ((parent_drop hxU).trans hroot) hkids2
        rw [drop_drop, Set.union_singleton] at hleaf
        rw [← hleaf, hstring]
        rcases hcontainer with htag | htag <;> simp [htag, hloop, JsonHeap.freeText, Doc.cell]
      · rw [not_or] at hcontainer
        have hnil : (d.detach x l).trees.kids x = [] := kids_nil hd1 hl1 hcontainer.1 hcontainer.2
        have hbelow : (d.detach x l).below [] = ∅ := by simp [Doc.below]
        rw [hnil, hbelow, insert_empty_eq, ← free_leaf hd1 hl1 hroot hnil]
        cases htag : l.tag with
        | array => exact absurd htag hcontainer.1
        | object => exact absurd htag hcontainer.2
        | string => simp [Doc.cell]
        | null | bool | number =>
          have hstring := string_none hd hl (by simp [htag])
          simp [Doc.cell, hstring, JsonHeap.freeText]
    · cases cs with
      | nil =>
        have hempty : d.below [] = ∅ := by simp [Doc.below]
        rw [hempty, drop_empty]
        rfl
      | cons c cs =>
        have hparent : d.trees.parent c = some p := hd.trees.mem_kids.mp (hkids ▸ List.mem_cons_self)
        have hlive : ∀ k ∈ c :: cs, d.trees.label k ≠ none := fun k hk => (hd.trees.live (hd.trees.mem_kids.mp (hkids ▸ hk))).1
        obtain ⟨lc, hlc⟩ := Option.ne_none_iff_exists'.mp (hlive c List.mem_cons_self)
        have hnext : (d.cell c lc).next = cs.head? := by
          simp [Doc.cell, hparent, hkids, behind_cons_self]
        obtain ⟨hkids', hunion, hnotMem, hsubset⟩ := drop_first hd hkids
        have hfinite := finite_below hd hlive
        have hcard : {y | d.trees.Under c y}.ncard ≤ (d.below (c :: cs)).ncard :=
          Set.ncard_le_ncard (fun y hy => ⟨c, List.mem_cons_self, hy⟩) hfinite
        have hcard' : ((d.drop {y | d.trees.Under c y}).below cs).ncard < (d.below (c :: cs)).ncard :=
          Set.ncard_lt_ncard ⟨hsubset, fun hall => hnotMem (hall ⟨c, List.mem_cons_self, (Forest.under_refl _)⟩)⟩ hfinite
        rw [List.head?_cons, deleteChildren, node_heap hlc]
        simp only [Option.bind_eq_bind, Option.bind_some, hnext]
        rw [ihnode hd hlc (by omega), Option.bind_some, ihloop (wf_drop hd Forest.closed_under) hkids' (by omega), drop_drop, hunion]

end FitsWebQL
