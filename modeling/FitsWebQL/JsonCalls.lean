/-
  FitsWebQL.JsonCalls — runs of the functions `json.h` offers to build documents, to take them
  apart and to delete them, with any pointers.

  Nothing stops a caller who puts a node under itself or under what is under it: no assertion
  is about that. Without it the memory is always that of trees.

  Proved:
    calls_represent     over every run that puts no node under itself, the memory is that of
                        the trees, and a call is impossible (a freed pointer, an assertion)
                        exactly when it makes no sense for them
    each_noCycle        a run is one if a node is never met on the way up from the one it is
                        put under
    json_delete_frees   after any such run, `json_delete` frees the nodes and texts of one
                        tree, and leaves every other node its label, its parent and its text
-/

import FitsWebQL.JsonDelete
import FitsWebQL.Lib.Runs

namespace FitsWebQL

open Lib.Siblings Lib.Trees Lib.Runs JsonHeap

/-! ## Calls -/

inductive JsonCall
  | mknull
  | mkbool (b : Bool)
  | mkstring (s : Bytes)
  | mknumber (n : Double)
  | mkarray
  | mkobject
  | append_element (array element : ℕ)
  | prepend_element (array element : ℕ)
  | append_member (object : ℕ) (key : Bytes) (value : ℕ)
  | prepend_member (object : ℕ) (key : Bytes) (value : ℕ)
  | remove_from_parent (node : ℕ)
  | delete (node : Option ℕ)

def JsonHeap.call (h : JsonHeap) : JsonCall → Option JsonHeap
  | .mknull => some (json_mknull h).2
  | .mkbool b => some (json_mkbool h b).2
  | .mkstring s => some (h.json_mkstring s).2
  | .mknumber n => some (json_mknumber h n).2
  | .mkarray => some (json_mkarray h).2
  | .mkobject => some (json_mkobject h).2
  | .append_element array element => json_append_element h array element
  | .prepend_element array element => json_prepend_element h array element
  | .append_member object key value => json_append_member h object key value
  | .prepend_member object key value => json_prepend_member h object key value
  | .remove_from_parent node => json_remove_from_parent h node
  | .delete node => json_delete (2 * h.fresh) h node

/-! ## What a call does to the trees -/

def Doc.create (d : Doc) (address : ℕ) (label : JsonLabel) : Doc :=
  { d with trees := d.trees.setLabel address label, fresh := address + 1 }

def Doc.store (d : Doc) (str : Bytes) : Doc :=
  { d with text := Function.update d.text d.fresh (some (cString str)), fresh := d.fresh + 1 }

def Doc.named (d : Doc) (x : ℕ) (key : Bytes) : Doc :=
  { d.store key with trees := ((d.trees.label x).map fun l => d.trees.setLabel x { l with key := some d.fresh }).getD d.trees }

def Doc.taken (d : Doc) (x : ℕ) : Doc := ((d.trees.label x).map (d.detach x)).getD d

noncomputable def Doc.call (d : Doc) : JsonCall → Doc
  | .mknull => d.create d.fresh (.of .null)
  | .mkbool b => d.create d.fresh { JsonLabel.of .bool with bool_ := b }
  | .mkstring s => (d.store s).create (d.fresh + 1) { JsonLabel.of .string with string_ := some d.fresh }
  | .mknumber n => d.create d.fresh { JsonLabel.of .number with number_ := n }
  | .mkarray => d.create d.fresh (.of .array)
  | .mkobject => d.create d.fresh (.of .object)
  | .append_element array element => d.link array element (d.trees.kids array ++ [element])
  | .prepend_element array element => d.link array element (element :: d.trees.kids array)
  | .append_member object key value => (d.named value key).link object value (d.trees.kids object ++ [value])
  | .prepend_member object key value => (d.named value key).link object value (value :: d.trees.kids object)
  | .remove_from_parent node => d.taken node
  | .delete none => d
  | .delete (some node) => d.drop {y | d.trees.Under node y}

def Doc.Attachable (d : Doc) (p c : ℕ) (tag : JsonTag) : Prop := d.tag p = some tag ∧ d.trees.label c ≠ none ∧ d.trees.parent c = none

/-- The call makes sense: its nodes are there, and the assertions hold. -/
def Doc.Allows (d : Doc) : JsonCall → Prop
  | .append_element array element | .prepend_element array element => d.Attachable array element .array
  | .append_member object _ value | .prepend_member object _ value => d.Attachable object value .object
  | .remove_from_parent node | .delete (some node) => d.trees.label node ≠ none
  | .mknull | .mkbool _ | .mkstring _ | .mknumber _ | .mkarray | .mkobject | .delete none => True

def Doc.NoCycle (d : Doc) : JsonCall → Prop
  | .append_element parent child | .prepend_element parent child | .append_member parent _ child | .prepend_member parent _ child =>
    ¬ d.trees.Under child parent
  | .mknull | .mkbool _ | .mkstring _ | .mknumber _ | .mkarray | .mkobject | .remove_from_parent _ | .delete _ => True

open Classical in
noncomputable def Doc.step (d : Doc) (c : JsonCall) : Option Doc := if d.Allows c then some (d.call c) else none

/-! ## New nodes -/

variable {d : Doc} {x y p c s : ℕ} {l lx lp lc : JsonLabel}

/-- Nothing is at an address that was never in use. -/
theorem fresh_alone (hd : d.Wf) (hx : d.fresh ≤ x) :
    d.trees.label x = none ∧ d.trees.parent x = none ∧ d.trees.kids x = [] ∧ ∀ y, d.trees.parent y ≠ some x := by
  have hlabel := (hd.fresh hx).1
  have hparent : ∀ y, d.trees.parent y ≠ some x := fun y hy => (hd.trees.live hy).2 hlabel
  refine ⟨hlabel, ?_, ?_, hparent⟩
  · cases hp : d.trees.parent x with
    | none => rfl
    | some q => exact absurd hlabel (hd.trees.live hp).1
  · exact List.eq_nil_iff_forall_not_mem.mpr fun y hy => hparent y (hd.trees.mem_kids.mp hy)

theorem mknode_eq (hd : d.Wf) (label : JsonLabel) : mknode d.heap label = (d.fresh, (d.create d.fresh label).heap) := by
  obtain ⟨-, hparent, hkids, -⟩ := fresh_alone hd le_rfl
  refine Prod.ext rfl (heap_eq (fun y => ?_) rfl rfl)
  show Function.update d.heap.node d.fresh _ y = (Function.update d.trees.label d.fresh (some label) y).map (d.cell y)
  simp only [Function.update_apply]
  split_ifs with hy
  · subst hy
    simp [Doc.cell, hparent, hkids]
  · rfl

/-- A label that owns no key, and a string that no other owns. -/
theorem wf_create (hd : d.Wf) {text : ℕ → Option Bytes} {address : ℕ} (haddress : d.fresh ≤ address) (hkey : l.key = none)
    (hstring : l.string_ ≠ none ↔ l.tag = .string) (hnew : ∀ s ∈ l.string_, d.fresh ≤ s ∧ s ≤ address)
    (htext : ∀ s, text s ≠ none ↔ d.text s ≠ none ∨ l.string_ = some s) :
    Doc.Wf ⟨d.trees.setLabel address l, text, address + 1⟩ := by
  obtain ⟨hlabel, hparent, hkids, hkid⟩ := fresh_alone hd haddress
  generalize hd' : Doc.mk (d.trees.setLabel address l) text (address + 1) = d'
  have hlabel' : ∀ y, d'.trees.label y = if y = address then some l else d.trees.label y := by
    intro y
    rw [← hd']
    exact Function.update_apply _ _ _ _
  have hparent' : ∀ y, d'.trees.parent y = d.trees.parent y := by
    rw [← hd']
    exact fun _ => rfl
  have htag : ∀ y, y ≠ address → d'.tag y = d.tag y := fun y hy => by rw [Doc.tag, hlabel', if_neg hy, Doc.tag]
  have howned : ∀ s y, d'.Owned s y ↔ (y = address ∧ l.string_ = some s) ∨ d.Owned s y := by
    intro s y
    by_cases hy : y = address
    · subst hy
      rw [owned_self (l := l) (by rw [hlabel', if_pos rfl]), mem_texts, hkey]
      simp [Doc.Owned, hlabel]
    · simp [Doc.Owned, hlabel', hy]
  have hfresh : ∀ s y, l.string_ = some s → ¬ d.Owned s y := by
    intro s y hs hy
    exact hd.owned.mpr ⟨y, hy⟩ (hd.fresh (hnew s hs).1).2
  refine ⟨⟨?_, ?_, ?_, ?_, ?_, ?_, ?_⟩, ?_⟩
  · rw [← hd']
    exact Forest.wf_setLabel hd.trees _ _
  · intro y q hq
    rw [hparent'] at hq
    rw [htag q fun he => hkid y (he ▸ hq)]
    exact hd.parents hq
  · intro y ly hy
    rw [hlabel'] at hy
    split_ifs at hy
    · cases hy
      exact hstring
    · exact hd.strings hy
  · intro s
    have hsame : d'.text s = text s := by rw [← hd']
    simp only [hsame, htext, howned, hd.owned, exists_or, exists_and_right, exists_eq, true_and]
    exact or_comm
  · intro s y z hy hz
    rcases (howned s y).mp hy with ⟨rfl, hs⟩ | hy
    · rcases (howned s z).mp hz with ⟨rfl, -⟩ | hz
      · rfl
      · exact absurd hz (hfresh s z hs)
    · rcases (howned s z).mp hz with ⟨rfl, hs⟩ | hz
      · exact absurd hy (hfresh s y hs)
      · exact hd.one hy hz
  · intro y ly hy
    rw [hlabel'] at hy
    split_ifs at hy
    · cases hy
      rw [JsonLabel.texts, hkey]
      cases l.string_ <;> simp
    · exact hd.apart hy
  · intro y hy
    rw [← hd'] at hy
    have hy : address + 1 ≤ y := hy
    refine ⟨?_, ?_⟩
    · rw [hlabel', if_neg (by omega)]
      exact (hd.fresh (by omega)).1
    · have hsame : d'.text y = text y := by rw [← hd']
      rw [hsame]
      by_contra hne
      rcases (htext y).mp hne with h | h
      · exact h (hd.fresh (by omega)).2
      · have hle := (hnew y h).2
        omega
  · intro y ly hy
    rw [hlabel'] at hy
    simp only [hparent']
    split_ifs at hy with hya
    · cases hy
      simp [hkey, hya, hparent]
    · rw [hd.keys hy]
      refine exists_congr fun q => and_congr_right fun hq => ?_
      rw [htag q fun he => hkid y (he ▸ hq)]

/-- A root without texts. -/
theorem wf_mknode (hd : d.Wf) (hkey : l.key = none) (hstring : l.string_ = none) (htag : l.tag ≠ .string) :
    (d.create d.fresh l).Wf :=
  wf_create hd le_rfl hkey (by simp [hstring, htag]) (by simp [hstring]) (by simp [hstring])

theorem json_mkstring_eq (hd : d.Wf) (str : Bytes) :
    (d.heap.json_mkstring str).2 = ((d.store str).create (d.fresh + 1) { JsonLabel.of .string with string_ := some d.fresh }).heap := by
  obtain ⟨-, hparent, hkids, -⟩ := fresh_alone hd (Nat.le_succ d.fresh)
  refine heap_eq (fun y => ?_) rfl rfl
  show Function.update d.heap.node (d.fresh + 1) _ y = (Function.update d.trees.label (d.fresh + 1) (some _) y).map (d.cell y)
  simp only [Function.update_apply]
  split_ifs with hy
  · subst hy
    simp only [Option.map_some, Doc.cell, hparent, hkids]
    rfl
  · rfl

theorem wf_mkstring (hd : d.Wf) (str : Bytes) :
    ((d.store str).create (d.fresh + 1) { JsonLabel.of .string with string_ := some d.fresh }).Wf := by
  refine wf_create hd (Nat.le_succ d.fresh) rfl (by simp [JsonLabel.of]) (by simp) fun s => ?_
  simp only [Doc.store, Function.update_apply]
  split_ifs with hs
  · simp [hs]
  · simp [Ne.symm hs]

/-! ## Put under a node -/

theorem attachable_pos {tag : JsonTag} (h : d.Attachable p c tag) : attachable d.heap p c tag = some () := by
  obtain ⟨hp, hc, hroot⟩ := h
  obtain ⟨lp, hlp, htag⟩ := Option.map_eq_some_iff.mp hp
  obtain ⟨lc, hlc⟩ := Option.ne_none_iff_exists'.mp hc
  rw [attachable, node_heap hlp, node_heap hlc]
  simp [Doc.cell, htag, hroot]

theorem attachable_neg {tag : JsonTag} (h : ¬ d.Attachable p c tag) : attachable d.heap p c tag = none := by
  cases hlp : d.trees.label p with
  | none => simp [attachable, Doc.heap, hlp]
  | some lp =>
    cases hlc : d.trees.label c with
    | none => simp [attachable, Doc.heap, hlp, hlc, Doc.cell]
    | some lc =>
      simp only [attachable, node_heap hlp, node_heap hlc, Option.bind_eq_bind, Option.bind_some]
      by_cases htag : lp.tag = tag
      · have hroot : d.trees.parent c ≠ none := fun hroot => h ⟨by rw [Doc.tag, hlp, Option.map_some, htag], by simp [hlc], hroot⟩
        simp [Doc.cell, htag, hroot]
      · simp [Doc.cell, htag]

theorem base_link (hd : d.Base) (hp : d.tag p = some .array ∨ d.tag p = some .object) (hc : d.trees.label c ≠ none)
    (hroot : d.trees.parent c = none) (hcycle : ¬ d.trees.Under c p) {ks : List ℕ} (hks : ks.Perm (c :: d.trees.kids p)) :
    (d.link p c ks).Base where
  trees := by
    refine Forest.wf_link hd.trees hks hroot hc (fun hnone => ?_) hcycle
    simp [Doc.tag, hnone] at hp
  parents {y q} hy := by
    simp only [Doc.link, Forest.link, Function.update_apply] at hy
    split_ifs at hy
    · cases hy
      exact hp
    · exact hd.parents hy
  strings := hd.strings
  owned := hd.owned
  one := hd.one
  apart := hd.apart
  fresh := hd.fresh

/-- An array's elements have no keys. -/
theorem wf_link_array (hd : d.Wf) (h : d.Attachable p c .array) (hcycle : ¬ d.trees.Under c p) {ks : List ℕ}
    (hks : ks.Perm (c :: d.trees.kids p)) : (d.link p c ks).Wf where
  toBase := base_link hd.toBase (Or.inl h.1) h.2.1 h.2.2 hcycle hks
  keys {y ly} hy := by
    have hkeys := hd.keys hy
    by_cases hyc : y = c
    · subst hyc
      rw [h.2.2] at hkeys
      have hparent : (d.link p y ks).trees.parent y = some p := Function.update_self _ _ _
      have htag : (d.link p y ks).tag p = some .array := h.1
      simpa [hparent, htag] using hkeys
    · have hparent : (d.link p c ks).trees.parent y = d.trees.parent y := Function.update_of_ne hyc _ _
      rw [hparent]
      exact hkeys

theorem named_eq (hl : d.trees.label x = some l) (key : Bytes) :
    d.named x key = ⟨d.trees.setLabel x { l with key := some d.fresh }, (d.store key).text, d.fresh + 1⟩ := by
  rw [Doc.named, hl]
  rfl

theorem base_named (hd : d.Wf) (hl : d.trees.label x = some l) (hroot : d.trees.parent x = none) (key : Bytes) : (d.named x key).Base := by
  have hkey := root_key hd hl hroot
  rw [named_eq hl]
  generalize hd' : Doc.mk (d.trees.setLabel x { l with key := some d.fresh }) (d.store key).text (d.fresh + 1) = d'
  have hlabel : ∀ y, d'.trees.label y = if y = x then some { l with key := some d.fresh } else d.trees.label y := by
    intro y
    rw [← hd']
    exact Function.update_apply _ _ _ _
  have htext : ∀ s, d'.text s = if s = d.fresh then some (cString key) else d.text s := by
    intro s
    rw [← hd']
    exact Function.update_apply _ _ _ _
  have htag : ∀ y, d'.tag y = d.tag y := by
    intro y
    rw [Doc.tag, Doc.tag, hlabel]
    split_ifs with hy
    · rw [hy, hl]
      rfl
    · rfl
  have howned : ∀ s y, d'.Owned s y ↔ (y = x ∧ s = d.fresh) ∨ d.Owned s y := by
    intro s y
    by_cases hy : y = x
    · subst hy
      rw [owned_self hl, owned_self (l := { l with key := some d.fresh }) (by rw [hlabel, if_pos rfl]), mem_texts, mem_texts, hkey]
      simp [eq_comm]
    · simp [Doc.Owned, hlabel, hy]
  have hnew : ∀ y, ¬ d.Owned d.fresh y := fun y hy => hd.owned.mpr ⟨y, hy⟩ (hd.fresh le_rfl).2
  refine ⟨?_, ?_, ?_, ?_, ?_, ?_, ?_⟩
  · rw [← hd']
    exact Forest.wf_setLabel hd.trees _ _
  · intro y q hq
    rw [htag]
    rw [← hd'] at hq
    exact hd.parents hq
  · intro y ly hy
    rw [hlabel] at hy
    split_ifs at hy
    · cases hy
      exact (hd.strings hl :)
    · exact hd.strings hy
  · intro s
    simp only [howned, htext, exists_or, exists_and_right, exists_eq, true_and]
    split_ifs with hs
    · simp [hs]
    · simp [hs, hd.owned]
  · intro s y z hy hz
    rcases (howned s y).mp hy with ⟨rfl, hs⟩ | hy
    · rcases (howned s z).mp hz with ⟨rfl, -⟩ | hz
      · rfl
      · exact absurd (hs ▸ hz) (hnew z)
    · rcases (howned s z).mp hz with ⟨rfl, hs⟩ | hz
      · exact absurd (hs ▸ hy) (hnew y)
      · exact hd.one hy hz
  · intro y ly hy
    rw [hlabel] at hy
    split_ifs at hy with hyx
    · cases hy
      have hstring : l.string_ ≠ some d.fresh := fun hs => hnew x ((owned_self hl).mpr (mem_texts.mpr (Or.inr hs)))
      rw [JsonLabel.texts]
      cases hs : l.string_ with
      | none => simp
      | some k =>
        have hk : d.fresh ≠ k := fun he => hstring (by rw [hs, he])
        simp [hk]
    · exact hd.apart hy
  · intro y hy
    rw [← hd'] at hy
    have hy : d.fresh + 1 ≤ y := hy
    obtain ⟨hnone, htext'⟩ := hd.fresh (x := y) (by omega)
    refine ⟨?_, ?_⟩
    · rw [hlabel, if_neg, hnone]
      rintro rfl
      rw [hl] at hnone
      cases hnone
    · rw [htext, if_neg (by omega), htext']

theorem tag_named (hl : d.trees.label x = some l) (key : Bytes) (y : ℕ) : (d.named x key).tag y = d.tag y := by
  rw [named_eq hl, Doc.tag, Doc.tag]
  show (Function.update d.trees.label x _ y).map _ = _
  rw [Function.update_apply]
  split_ifs with hy
  · rw [hy, hl]
    rfl
  · rfl

/-- An object's members have keys. -/
theorem wf_link_object (hd : d.Wf) (h : d.Attachable p c .object) (hcycle : ¬ d.trees.Under c p) (key : Bytes) {ks : List ℕ}
    (hks : ks.Perm (c :: d.trees.kids p)) : ((d.named c key).link p c ks).Wf := by
  obtain ⟨hp, hc, hroot⟩ := h
  obtain ⟨lc, hlc⟩ := Option.ne_none_iff_exists'.mp hc
  have hbase := base_named hd hlc hroot key
  have hobject : (d.named c key).tag p = some .object := (tag_named hlc key p).trans hp
  have hlabel : ∀ y, (d.named c key).trees.label y = if y = c then some { lc with key := some d.fresh } else d.trees.label y := by
    intro y
    rw [named_eq hlc]
    exact Function.update_apply _ _ _ _
  have htrees : (d.named c key).trees.parent = d.trees.parent ∧ (d.named c key).trees.kids = d.trees.kids := by
    rw [named_eq hlc]
    exact ⟨rfl, rfl⟩
  have hunder : ¬ (d.named c key).trees.Under c p := by
    rw [Forest.Under, htrees.2]
    exact hcycle
  refine ⟨base_link hbase (Or.inr hobject) ?_ (by rw [htrees.1, hroot]) hunder (by rw [htrees.2]; exact hks), ?_⟩
  · rw [hlabel, if_pos rfl]
    exact Option.some_ne_none _
  · intro y ly hy
    have hy : (d.named c key).trees.label y = some ly := hy
    rw [hlabel] at hy
    have htag : ∀ q, ((d.named c key).link p c ks).tag q = d.tag q := tag_named hlc key
    simp only [htag]
    split_ifs at hy with hyc
    · cases hy
      subst hyc
      have hparent : ((d.named y key).link p y ks).trees.parent y = some p := Function.update_self _ _ _
      simp [hparent, hp]
    · have hparent : ((d.named c key).link p c ks).trees.parent y = d.trees.parent y :=
        (Function.update_of_ne hyc _ _).trans (congrFun htrees.1 y)
      rw [hparent]
      exact hd.keys hy

/-- The key of a member is stored before the member is put anywhere. -/
theorem write_named (hl : d.trees.label x = some l) (key : Bytes) :
    ((d.heap.json_strdup key).2.write x fun n => { n with key := some (d.heap.json_strdup key).1 }) = some (d.named x key).heap := by
  have hnode : (d.heap.json_strdup key).2.node x = some (d.cell x l) := node_heap hl
  rw [write_eq hnode, named_eq hl]
  refine congrArg some (heap_eq (fun y => ?_) rfl rfl)
  show Function.update d.heap.node x _ y = (Function.update d.trees.label x _ y).map (d.cell y)
  simp only [Function.update_apply]
  split_ifs with hy
  · subst hy
    rfl
  · rfl

/-! ## Every call -/

theorem wf_call (hd : d.Wf) {c : JsonCall} (hallows : d.Allows c) (hcycle : d.NoCycle c) : (d.call c).Wf := by
  cases c with
  | mknull | mkbool b | mknumber n | mkarray | mkobject => exact wf_mknode hd rfl rfl nofun
  | mkstring s => exact wf_mkstring hd s
  | append_element p c => exact wf_link_array hd hallows hcycle List.perm_append_comm
  | prepend_element p c => exact wf_link_array hd hallows hcycle (List.Perm.refl _)
  | append_member p key c => exact wf_link_object hd hallows hcycle key List.perm_append_comm
  | prepend_member p key c => exact wf_link_object hd hallows hcycle key (List.Perm.refl _)
  | remove_from_parent x =>
    obtain ⟨l, hl⟩ := Option.ne_none_iff_exists'.mp hallows
    rw [Doc.call, Doc.taken, hl]
    exact wf_detach hd hl
  | delete x =>
    cases x with
    | none => exact hd
    | some x => exact wf_drop hd Forest.closed_under

theorem append_member_eq (hd : d.Wf) (h : d.Attachable p c .object) (hcycle : ¬ d.trees.Under c p) (key : Bytes) :
    append_member (d.heap.json_strdup key).2 p (d.heap.json_strdup key).1 c =
        some ((d.named c key).link p c (d.trees.kids p ++ [c])).heap ∧
      ((d.heap.json_strdup key).2.write c fun n => { n with key := some (d.heap.json_strdup key).1 }).bind
        (fun h => prepend_node h p c) = some ((d.named c key).link p c (c :: d.trees.kids p)).heap := by
  obtain ⟨hp, hc, hroot⟩ := h
  obtain ⟨lc, hlc⟩ := Option.ne_none_iff_exists'.mp hc
  have hbase := base_named hd hlc hroot key
  obtain ⟨lp, hlp, -⟩ := Option.map_eq_some_iff.mp ((tag_named hlc key p).trans hp)
  have hnamed : (d.named c key).trees.label c = some { lc with key := some d.fresh } := by
    rw [named_eq hlc]
    exact Function.update_self _ _ _
  have htrees : (d.named c key).trees.parent = d.trees.parent ∧ (d.named c key).trees.kids = d.trees.kids := by
    rw [named_eq hlc]
    exact ⟨rfl, rfl⟩
  have hunder : ¬ (d.named c key).trees.Under c p := by
    rw [Forest.Under, htrees.2]
    exact hcycle
  have hroot' : (d.named c key).trees.parent c = none := by rw [htrees.1, hroot]
  refine ⟨?_, ?_⟩
  · rw [append_member, Option.bind_eq_bind, write_named hlc, Option.bind_some, append_node_eq hbase.trees hlp hnamed hroot' hunder,
      htrees.2]
  · rw [write_named hlc, Option.bind_some, prepend_node_eq hbase.trees hlp hnamed hroot' hunder, htrees.2]

theorem call_pos (hd : d.Wf) {c : JsonCall} (hallows : d.Allows c) (hcycle : d.NoCycle c) : d.heap.call c = some (d.call c).heap := by
  cases c with
  | mknull | mkbool b | mknumber n | mkarray | mkobject => exact congrArg (fun r => some r.2) (mknode_eq hd _)
  | mkstring s => exact congrArg some (json_mkstring_eq hd s)
  | append_element p c =>
    obtain ⟨lp, hlp, -⟩ := Option.map_eq_some_iff.mp hallows.1
    obtain ⟨lc, hlc⟩ := Option.ne_none_iff_exists'.mp hallows.2.1
    show (attachable d.heap p c .array).bind (fun _ => append_node d.heap p c) = _
    rw [attachable_pos hallows, Option.bind_some, append_node_eq hd.trees hlp hlc hallows.2.2 hcycle, Doc.call]
  | prepend_element p c =>
    obtain ⟨lp, hlp, -⟩ := Option.map_eq_some_iff.mp hallows.1
    obtain ⟨lc, hlc⟩ := Option.ne_none_iff_exists'.mp hallows.2.1
    show (attachable d.heap p c .array).bind (fun _ => prepend_node d.heap p c) = _
    rw [attachable_pos hallows, Option.bind_some, prepend_node_eq hd.trees hlp hlc hallows.2.2 hcycle, Doc.call]
  | append_member p key c =>
    show (attachable d.heap p c .object).bind (fun _ => append_member _ p _ c) = _
    rw [attachable_pos hallows, Option.bind_some, (append_member_eq hd hallows hcycle key).1, Doc.call]
  | prepend_member p key c =>
    show (attachable d.heap p c .object).bind (fun _ => Option.bind _ fun h => prepend_node h p c) = _
    rw [attachable_pos hallows, Option.bind_some, (append_member_eq hd hallows hcycle key).2, Doc.call]
  | remove_from_parent x =>
    obtain ⟨l, hl⟩ := Option.ne_none_iff_exists'.mp hallows
    rw [Doc.call, Doc.taken, hl]
    exact json_remove_from_parent_eq hd hl
  | delete x =>
    cases x with
    | none => cases hfresh : 2 * d.fresh <;> simp [JsonHeap.call, Doc.call, json_delete]
    | some x =>
      obtain ⟨l, hl⟩ := Option.ne_none_iff_exists'.mp hallows
      refine (delete_eq (2 * d.fresh)).1 hd hl ?_
      have hcard := ncard_under_le hd hallows
      omega

theorem call_neg {c : JsonCall} (hallows : ¬ d.Allows c) : d.heap.call c = none := by
  cases c with
  | mknull | mkbool b | mkstring s | mknumber n | mkarray | mkobject => exact absurd trivial hallows
  | append_element p c | prepend_element p c =>
    show (attachable d.heap p c .array).bind _ = none
    rw [attachable_neg hallows, Option.bind_none]
  | append_member p key c | prepend_member p key c =>
    show (attachable d.heap p c .object).bind _ = none
    rw [attachable_neg hallows, Option.bind_none]
  | remove_from_parent x =>
    have hnone : d.heap.node x = none := by
      show (d.trees.label x).map _ = none
      rw [not_not.mp hallows, Option.map_none]
    simp [JsonHeap.call, json_remove_from_parent, hnone]
  | delete x =>
    cases x with
    | none => exact absurd trivial hallows
    | some x =>
      have hnone : d.heap.node x = none := by
        show (d.trees.label x).map _ = none
        rw [not_not.mp hallows, Option.map_none]
      show json_delete (2 * d.fresh) d.heap (some x) = none
      cases 2 * d.fresh <;> simp [json_delete, json_remove_from_parent, hnone]

/-! ## Runs -/

theorem step_pos {c : JsonCall} (h : d.Allows c) : d.step c = some (d.call c) := if_pos h

theorem step_neg {c : JsonCall} (h : ¬ d.Allows c) : d.step c = none := if_neg h

theorem wf_step (c : JsonCall) {d' : Doc} (hd : d.Wf) (hcycle : d.NoCycle c) (h : d.step c = some d') : d'.Wf := by
  by_cases hallows : d.Allows c
  · rw [step_pos hallows] at h
    cases h
    exact wf_call hd hallows hcycle
  · rw [step_neg hallows] at h
    cases h

theorem run_represents {cs : List JsonCall} (hd : d.Wf) (hcycle : Each Doc.step Doc.NoCycle d cs) :
    run JsonHeap.call d.heap cs = (run Doc.step d cs).map Doc.heap := by
  induction cs generalizing d with
  | nil => rfl
  | cons c cs ih =>
    obtain ⟨hc, hcs⟩ := hcycle
    rw [run, run]
    by_cases hallows : d.Allows c
    · rw [call_pos hd hallows hc, step_pos hallows]
      exact ih (wf_call hd hallows hc) (hcs _ (step_pos hallows))
    · rw [call_neg hallows, step_neg hallows]
      rfl

theorem run_wf {cs : List JsonCall} (hcycle : Each Doc.step Doc.NoCycle Doc.new cs) (h : run Doc.step Doc.new cs = some d) : d.Wf :=
  run_invariant Doc.Wf (fun _ c _ => wf_step c) cs wf_new hcycle h

/-- Whatever the calls, as long as no node is put under itself: the memory is that of the trees
    that the calls make, and it is a call that makes no sense for them that is impossible. -/
theorem calls_represent {cs : List JsonCall} (hcycle : Each Doc.step Doc.NoCycle Doc.new cs) :
    run JsonHeap.call JsonHeap.new cs = (run Doc.step Doc.new cs).map Doc.heap ∧ ∀ d, run Doc.step Doc.new cs = some d → d.Wf := by
  rw [← heap_new]
  exact ⟨run_represents wf_new hcycle, fun d h => run_wf hcycle h⟩

/-! ## A caller that looks first -/

def JsonHeap.Within (h : JsonHeap) : ℕ → ℕ → Prop := Relation.ReflTransGen fun p x => ∃ n, h.node x = some n ∧ n.parent = some p

theorem within_heap (hd : d.Wf) : d.heap.Within x y ↔ d.trees.Under x y := by
  have hchild : ∀ p x, (∃ n, d.heap.node x = some n ∧ n.parent = some p) ↔ x ∈ d.trees.kids p := by
    intro p x
    rw [hd.trees.mem_kids]
    constructor
    · intro h
      obtain ⟨n, hn, hp⟩ := h
      obtain ⟨l, -, rfl⟩ := Option.map_eq_some_iff.mp hn
      exact hp
    · intro h
      obtain ⟨l, hl⟩ := Option.ne_none_iff_exists'.mp (hd.trees.live h).1
      exact ⟨d.cell x l, node_heap hl, h⟩
  rw [JsonHeap.Within, Forest.Under]
  simp only [hchild]

def JsonHeap.climbs (h : JsonHeap) (x : ℕ) : ℕ → ℕ → Bool
  | 0, _ => true
  | fuel + 1, y => y == x || ((h.node y).bind fun n => n.parent).any (h.climbs x fuel)

/-- The node is not met on the way up from the one it is put under. -/
def JsonHeap.Outside (h : JsonHeap) : JsonCall → Prop
  | .append_element parent child | .prepend_element parent child | .append_member parent _ child | .prepend_member parent _ child =>
    h.climbs child (h.fresh + 1) parent = false
  | .mknull | .mkbool _ | .mkstring _ | .mknumber _ | .mkarray | .mkobject | .remove_from_parent _ | .delete _ => True

instance (h : JsonHeap) : (c : JsonCall) → Decidable (h.Outside c)
  | .append_element parent child | .prepend_element parent child | .append_member parent _ child | .prepend_member parent _ child =>
    inferInstanceAs (Decidable (h.climbs child (h.fresh + 1) parent = false))
  | .mknull | .mkbool _ | .mkstring _ | .mknumber _ | .mkarray | .mkobject | .remove_from_parent _ | .delete _ =>
    inferInstanceAs (Decidable True)

theorem climbs_of_within {h : JsonHeap} (hxy : h.Within x y) (fuel : ℕ) : h.climbs x fuel y = true := by
  induction fuel generalizing y with
  | zero => rfl
  | succ fuel ih =>
    rcases Relation.ReflTransGen.cases_tail hxy with rfl | ⟨p, hxp, n, hn, hp⟩
    · simp [JsonHeap.climbs]
    · simp [JsonHeap.climbs, hn, hp, ih hxp]

theorem noCycle_of_outside (hd : d.Wf) {c : JsonCall} (h : d.heap.Outside c) : d.NoCycle c := by
  have hup : ∀ parent child, d.heap.climbs child (d.heap.fresh + 1) parent = false → ¬ d.trees.Under child parent := by
    intro parent child hclimbs hunder
    rw [climbs_of_within ((within_heap hd).mpr hunder)] at hclimbs
    cases hclimbs
  cases c with
  | append_element p c | prepend_element p c | append_member p key c | prepend_member p key c => exact hup _ _ h
  | mknull | mkbool b | mkstring s | mknumber n | mkarray | mkobject | remove_from_parent x | delete x => trivial

/-- Such a run puts no node under itself. -/
theorem each_noCycle {cs : List JsonCall} (hd : d.Wf) (h : Each JsonHeap.call JsonHeap.Outside d.heap cs) :
    Each Doc.step Doc.NoCycle d cs := by
  induction cs generalizing d with
  | nil => trivial
  | cons c cs ih =>
    have hc := noCycle_of_outside hd h.1
    refine ⟨hc, fun d' hd' => ?_⟩
    by_cases hallows : d.Allows c
    · rw [step_pos hallows] at hd'
      cases hd'
      exact ih (wf_call hd hallows hc) (h.2 _ (call_pos hd hallows hc))
    · rw [step_neg hallows] at hd'
      cases hd'

/-- An object (node 0) with an array (1) that gets a string (3) and, before it, a `null` (4).
    A boolean (6) is put first in the object and deleted, and the string taken out again. -/
def objectCalls : List JsonCall :=
  [.mkobject, .mkarray, .mkstring [65], .append_element 1 3, .mknull, .prepend_element 1 4, .append_member 0 [107] 1,
    .mkbool true, .prepend_member 0 [98] 6, .delete (some 6), .remove_from_parent 3]

theorem objectCalls_noCycle : Each Doc.step Doc.NoCycle Doc.new objectCalls :=
  each_noCycle wf_new (by rw [heap_new]; decide +kernel)

theorem objectCalls_run : ∃ h, run JsonHeap.call JsonHeap.new objectCalls = some h ∧ h.node 0 ≠ none ∧ h.node 3 ≠ none := by
  obtain ⟨h, hrun, hnodes⟩ := Option.map_eq_some_iff.mp
    (by decide +kernel : (run JsonHeap.call JsonHeap.new objectCalls).map (fun h => ((h.node 0).isSome, (h.node 3).isSome)) =
      some (true, true))
  rw [Prod.mk.injEq, Option.isSome_iff_ne_none, Option.isSome_iff_ne_none] at hnodes
  exact ⟨h, hrun, hnodes⟩

theorem calls_represent_object : (run JsonHeap.call JsonHeap.new objectCalls).isSome ∧
    run JsonHeap.call JsonHeap.new objectCalls = (run Doc.step Doc.new objectCalls).map Doc.heap ∧
    ∀ d, run Doc.step Doc.new objectCalls = some d → d.Wf :=
  ⟨by decide +kernel, calls_represent objectCalls_noCycle⟩

/-! ## Deleting -/

theorem node_eq_none (d : Doc) (y : ℕ) : d.heap.node y = none ↔ d.trees.label y = none := Option.map_eq_none_iff

open Classical in
/-- After any run: `json_delete` frees the node and what is under it, nodes, keys and strings,
    and nothing else; the other nodes keep their labels, their parents and their texts. -/
theorem json_delete_frees {cs : List JsonCall} (hcycle : Each Doc.step Doc.NoCycle Doc.new cs) {h : JsonHeap}
    (hrun : run JsonHeap.call JsonHeap.new cs = some h) {x : ℕ} (hx : h.node x ≠ none) :
    ∃ h', json_delete (2 * h.fresh) h (some x) = some h' ∧
      (∀ y, h'.node y = none ↔ h.node y = none ∨ h.Within x y) ∧
      (∀ s, h'.text s = none ↔ h.text s = none ∨ ∃ y n, h.Within x y ∧ h.node y = some n ∧ s ∈ n.texts) ∧
      (∀ y n, h'.node y = some n → ∃ n', h.node y = some n' ∧ n'.toJsonLabel = n.toJsonLabel ∧ n'.parent = n.parent) ∧
      ∀ s t, h'.text s = some t → h.text s = some t := by
  rw [(calls_represent hcycle).1] at hrun
  obtain ⟨d, hd, rfl⟩ := Option.map_eq_some_iff.mp hrun
  have hd := run_wf hcycle hd
  have hlive : d.trees.label x ≠ none := fun hnone => hx ((node_eq_none d x).mpr hnone)
  refine ⟨_, call_pos (c := .delete (some x)) hd hlive trivial, ?_, ?_, ?_, ?_⟩
  · intro y
    rw [node_eq_none, node_eq_none, within_heap hd]
    by_cases hy : y ∈ {y | d.trees.Under x y}
    · rw [Doc.call, label_drop_mem hy]
      exact ⟨fun _ => Or.inr hy, fun _ => rfl⟩
    · rw [Doc.call, label_drop hy]
      exact ⟨Or.inl, fun h => h.resolve_right hy⟩
  · intro s
    have howned : (∃ y n, d.heap.Within x y ∧ d.heap.node y = some n ∧ s ∈ n.texts) ↔ ∃ y ∈ {y | d.trees.Under x y}, d.Owned s y := by
      refine exists_congr fun y => ?_
      rw [Set.mem_ofPred_eq, ← within_heap hd]
      constructor
      · intro h
        obtain ⟨n, hy, hn, hs⟩ := h
        obtain ⟨l, hl, rfl⟩ := Option.map_eq_some_iff.mp hn
        exact ⟨hy, l, hl, hs⟩
      · intro h
        obtain ⟨hy, l, hl, hs⟩ := h
        exact ⟨d.cell y l, hy, node_heap hl, hs⟩
    rw [howned]
    show (if ∃ y ∈ {y | d.trees.Under x y}, d.Owned s y then none else d.text s) = none ↔ _
    split_ifs with h
    · exact ⟨fun _ => Or.inr h, fun _ => rfl⟩
    · exact ⟨Or.inl, fun h' => h'.resolve_right h⟩
  · intro y n hn
    obtain ⟨l, hl, rfl⟩ := Option.map_eq_some_iff.mp hn
    have hy : y ∉ {y | d.trees.Under x y} := fun hmem => by
      rw [Doc.call, label_drop_mem hmem] at hl
      cases hl
    rw [Doc.call, label_drop hy] at hl
    exact ⟨d.cell y l, node_heap hl, rfl, (parent_drop hy).symm⟩
  · intro s t hst
    have hst : (if ∃ y ∈ {y | d.trees.Under x y}, d.Owned s y then none else d.text s) = some t := hst
    split_ifs at hst
    exact hst

/-- The object goes with its array; the string, which was taken out, does not. -/
theorem json_delete_frees_object : ∃ h, run JsonHeap.call JsonHeap.new objectCalls = some h ∧
    ∃ h', json_delete (2 * h.fresh) h (some 0) = some h' ∧
      (∀ y, h'.node y = none ↔ h.node y = none ∨ h.Within 0 y) ∧ h'.node 3 ≠ none := by
  obtain ⟨h, hrun, hobject, hstring⟩ := objectCalls_run
  obtain ⟨h', hdelete, hnodes, -⟩ := json_delete_frees objectCalls_noCycle hrun hobject
  refine ⟨h, hrun, h', hdelete, hnodes, fun hnone => ?_⟩
  have houtside : (run JsonHeap.call JsonHeap.new objectCalls).map (fun h => h.climbs 0 2 3) = some false := by
    decide +kernel
  rw [hrun, Option.map_some, Option.some.injEq] at houtside
  rcases (hnodes 3).mp hnone with h3 | h3
  · exact hstring h3
  · rw [climbs_of_within h3] at houtside
    cases houtside

end FitsWebQL
