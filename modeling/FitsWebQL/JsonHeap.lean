/-
  FitsWebQL.JsonHeap — the nodes of `json.c` in memory. The children of an array or an object
  are a doubly linked list; a key and a string are allocations of their own. A pointer to
  what was freed is `none` to read, to write and to free; an assertion that fails is `none`,
  too. `malloc` gives an address that was not in use before.

  The documents are trees (`Lib.Trees`); `Doc.heap` is the memory of a document: every
  pointer is determined by the trees.

  Proved:
    append_node_eq, prepend_node_eq   a node is put at the end, or in front, of its siblings
    json_remove_from_parent_eq        it is taken out with what is under it
-/

import FitsWebQL.JsonParse
import FitsWebQL.Lib.Siblings
import FitsWebQL.Lib.Trees

namespace FitsWebQL

open Lib.Siblings Lib.Trees

/-! ## Memory -/

inductive JsonTag
  | null
  | bool
  | string
  | number
  | array
  | object
  deriving DecidableEq

/-- A node without its place among the others. The tag says which member of the union is read;
    `key` and `string_` are pointers. -/
structure JsonLabel where
  tag : JsonTag
  bool_ : Bool
  number_ : Double
  string_ : Option ℕ
  key : Option ℕ

structure NodeCell extends JsonLabel where
  parent : Option ℕ
  prev : Option ℕ
  next : Option ℕ
  /-- `children` -/
  head : Option ℕ
  tail : Option ℕ

structure JsonHeap where
  node : ℕ → Option NodeCell
  text : ℕ → Option Bytes
  /-- The first address that was never in use. -/
  fresh : ℕ

namespace JsonHeap

def new : JsonHeap := ⟨fun _ => none, fun _ => none, 0⟩

def write (h : JsonHeap) (p : ℕ) (f : NodeCell → NodeCell) : Option JsonHeap :=
  (h.node p).map fun n => { h with node := Function.update h.node p (some (f n)) }

/-- A write to a neighbour, or to the parent where there is none. -/
def writeOr (h : JsonHeap) (neighbour : Option ℕ) (parent : ℕ) (f g : NodeCell → NodeCell) : Option JsonHeap :=
  match neighbour with
  | some q => h.write q f
  | none => h.write parent g

def freeNode (h : JsonHeap) (p : ℕ) : Option JsonHeap := (h.node p).map fun _ => { h with node := Function.update h.node p none }

def freeText (h : JsonHeap) : Option ℕ → Option JsonHeap
  | none => some h
  | some p => (h.text p).map fun _ => { h with text := Function.update h.text p none }

def json_strdup (h : JsonHeap) (str : Bytes) : ℕ × JsonHeap :=
  (h.fresh, { h with text := Function.update h.text h.fresh (some (cString str)), fresh := h.fresh + 1 })

end JsonHeap

open JsonHeap

/-! ## Nodes -/

/-- `calloc` and the tag. -/
def mknode (h : JsonHeap) (label : JsonLabel) : ℕ × JsonHeap :=
  (h.fresh, { h with node := Function.update h.node h.fresh (some ⟨label, none, none, none, none, none⟩), fresh := h.fresh + 1 })

def JsonLabel.of (tag : JsonTag) : JsonLabel := ⟨tag, false, Double.of (.finite false 0), none, none⟩

def json_mknull (h : JsonHeap) : ℕ × JsonHeap := mknode h (.of .null)

def json_mkbool (h : JsonHeap) (b : Bool) : ℕ × JsonHeap := mknode h { JsonLabel.of .bool with bool_ := b }

def JsonHeap.json_mkstring (h : JsonHeap) (s : Bytes) : ℕ × JsonHeap :=
  mknode (h.json_strdup s).2 { JsonLabel.of .string with string_ := some (h.json_strdup s).1 }

def json_mknumber (h : JsonHeap) (n : Double) : ℕ × JsonHeap := mknode h { JsonLabel.of .number with number_ := n }

def json_mkarray (h : JsonHeap) : ℕ × JsonHeap := mknode h (.of .array)

def json_mkobject (h : JsonHeap) : ℕ × JsonHeap := mknode h (.of .object)

def append_node (h : JsonHeap) (parent child : ℕ) : Option JsonHeap := do
  let h ← h.write child fun n => { n with parent := some parent }
  let tail := (← h.node parent).tail
  let h ← h.write child fun n => { n with prev := tail, next := none }
  let h ← h.writeOr tail parent (fun n => { n with next := some child }) fun n => { n with head := some child }
  h.write parent fun n => { n with tail := some child }

def prepend_node (h : JsonHeap) (parent child : ℕ) : Option JsonHeap := do
  let h ← h.write child fun n => { n with parent := some parent }
  let head := (← h.node parent).head
  let h ← h.write child fun n => { n with prev := none, next := head }
  let h ← h.writeOr head parent (fun n => { n with prev := some child }) fun n => { n with tail := some child }
  h.write parent fun n => { n with head := some child }

def attachable (h : JsonHeap) (parent child : ℕ) (tag : JsonTag) : Option Unit := do
  guard ((← h.node parent).tag = tag)
  guard ((← h.node child).parent = none)

def json_append_element (h : JsonHeap) (array element : ℕ) : Option JsonHeap := do
  attachable h array element .array
  append_node h array element

def json_prepend_element (h : JsonHeap) (array element : ℕ) : Option JsonHeap := do
  attachable h array element .array
  prepend_node h array element

def append_member (h : JsonHeap) (object key value : ℕ) : Option JsonHeap := do
  let h ← h.write value fun n => { n with key := some key }
  append_node h object value

def json_append_member (h : JsonHeap) (object : ℕ) (key : Bytes) (value : ℕ) : Option JsonHeap := do
  attachable h object value .object
  append_member (h.json_strdup key).2 object (h.json_strdup key).1 value

def json_prepend_member (h : JsonHeap) (object : ℕ) (key : Bytes) (value : ℕ) : Option JsonHeap := do
  attachable h object value .object
  let h' ← (h.json_strdup key).2.write value fun n => { n with key := some (h.json_strdup key).1 }
  prepend_node h' object value

def json_remove_from_parent (h : JsonHeap) (node : ℕ) : Option JsonHeap := do
  match (← h.node node).parent with
  | none => some h
  | some parent => do
    let next := (← h.node node).next
    let h ← h.writeOr (← h.node node).prev parent (fun n => { n with next }) fun n => { n with head := next }
    let prev := (← h.node node).prev
    let h ← h.writeOr (← h.node node).next parent (fun n => { n with prev }) fun n => { n with tail := prev }
    let h ← h.freeText (← h.node node).key
    h.write node fun n => { n with parent := none, prev := none, next := none, key := none }

/-! ## Documents -/

def JsonLabel.texts (l : JsonLabel) : List ℕ := l.key.toList ++ l.string_.toList

/-- Trees of labels, the texts they point to, and the first address never in use. -/
structure Doc where
  trees : Forest ℕ JsonLabel
  text : ℕ → Option Bytes
  fresh : ℕ

/-- The cell of a node: its neighbours are those in its parent's list. -/
def Doc.cell (d : Doc) (x : ℕ) (l : JsonLabel) : NodeCell where
  toJsonLabel := l
  parent := d.trees.parent x
  prev := (d.trees.parent x).bind fun p => before (d.trees.kids p) x
  next := (d.trees.parent x).bind fun p => behind (d.trees.kids p) x
  head := (d.trees.kids x).head?
  tail := (d.trees.kids x).getLast?

def Doc.heap (d : Doc) : JsonHeap := ⟨fun x => (d.trees.label x).map (d.cell x), d.text, d.fresh⟩

def Doc.tag (d : Doc) (x : ℕ) : Option JsonTag := (d.trees.label x).map fun l => l.tag

def Doc.Owned (d : Doc) (s x : ℕ) : Prop := ∃ l, d.trees.label x = some l ∧ s ∈ l.texts

/-- What holds while a key is given to a node that has no parent yet. -/
structure Doc.Base (d : Doc) : Prop where
  trees : d.trees.Wf
  /-- A parent is an array or an object. -/
  parents : ∀ {x p}, d.trees.parent x = some p → d.tag p = some .array ∨ d.tag p = some .object
  strings : ∀ {x l}, d.trees.label x = some l → (l.string_ ≠ none ↔ l.tag = .string)
  /-- A text that exists is the one text of one node. -/
  owned : ∀ {s}, d.text s ≠ none ↔ ∃ x, d.Owned s x
  one : ∀ {s x y}, d.Owned s x → d.Owned s y → x = y
  apart : ∀ {x l}, d.trees.label x = some l → l.texts.Nodup
  fresh : ∀ {x}, d.fresh ≤ x → d.trees.label x = none ∧ d.text x = none

structure Doc.Wf (d : Doc) : Prop extends d.Base where
  /-- The nodes under objects are those with keys. -/
  keys : ∀ {x l}, d.trees.label x = some l → (l.key ≠ none ↔ ∃ p, d.trees.parent x = some p ∧ d.tag p = some .object)

def Doc.new : Doc := ⟨Forest.empty, fun _ => none, 0⟩

theorem heap_new : Doc.new.heap = JsonHeap.new := rfl

theorem wf_new : Doc.new.Wf where
  trees := Forest.wf_empty
  parents := nofun
  keys := nofun
  strings := nofun
  owned := by simp [Doc.new, Doc.Owned, Forest.empty]
  one := by simp [Doc.new, Doc.Owned, Forest.empty]
  apart := nofun
  fresh _ := ⟨rfl, rfl⟩

/-! ## Memory, read and written -/

variable {d : Doc} {x y p c s : ℕ} {l lx lp lc : JsonLabel}

theorem node_heap (h : d.trees.label x = some l) : d.heap.node x = some (d.cell x l) := by
  show (d.trees.label x).map (d.cell x) = _
  rw [h, Option.map_some]

theorem write_eq {h : JsonHeap} {n : NodeCell} (hn : h.node x = some n) (f : NodeCell → NodeCell) :
    h.write x f = some { h with node := Function.update h.node x (some (f n)) } := by
  rw [JsonHeap.write, hn, Option.map_some]

theorem writeOr_eq {h : JsonHeap} {o : Option ℕ} {n : NodeCell} (hn : h.node (o.getD p) = some n) (f g : NodeCell → NodeCell) :
    h.writeOr o p f g = some { h with node := Function.update h.node (o.getD p) (some (if o.isSome then f n else g n)) } := by
  cases o with
  | none => exact write_eq hn g
  | some q => exact write_eq hn f

/-- A pointer to a text that is there is freed. -/
theorem freeText_eq {h : JsonHeap} {o : Option ℕ} (ho : ∀ k ∈ o, h.text k ≠ none) :
    h.freeText o = some { h with text := o.elim h.text fun k => Function.update h.text k none } := by
  cases o with
  | none => rfl
  | some k =>
    obtain ⟨s, hs⟩ := Option.ne_none_iff_exists'.mp (ho k rfl)
    rw [JsonHeap.freeText, hs]
    rfl

/-- A memory is that of a document when the cells are. -/
theorem heap_eq {h : JsonHeap} (hnode : ∀ x, h.node x = (d.trees.label x).map (d.cell x)) (htext : h.text = d.text)
    (hfresh : h.fresh = d.fresh) : h = d.heap := by
  cases h
  simp only [Doc.heap, JsonHeap.mk.injEq]
  exact ⟨funext hnode, htext, hfresh⟩

theorem label_of_mem (hd : d.trees.Wf) (h : x ∈ d.trees.kids p) : ∃ l, d.trees.label x = some l :=
  Option.ne_none_iff_exists'.mp (hd.live (hd.mem_kids.mp h)).1

theorem ne_of_mem (hd : d.trees.Wf) (h : x ∈ d.trees.kids p) : x ≠ p := by
  rintro rfl
  exact hd.acyclic h (Forest.under_refl _)

/-! ## Put under a node -/

def Doc.link (d : Doc) (p c : ℕ) (l : List ℕ) : Doc := { d with trees := d.trees.link p c l }

/-- A node that is there already. -/
theorem cell_link (hd : d.trees.Wf) {ks : List ℕ} (hx : x ≠ c) : (d.link p c ks).cell x lx =
    { d.cell x lx with
      prev := if x ∈ d.trees.kids p then before ks x else (d.cell x lx).prev
      next := if x ∈ d.trees.kids p then behind ks x else (d.cell x lx).next
      head := if x = p then ks.head? else (d.cell x lx).head
      tail := if x = p then ks.getLast? else (d.cell x lx).tail } := by
  have hmem : x ∈ d.trees.kids p ↔ d.trees.parent x = some p := hd.mem_kids
  simp only [Doc.cell, Doc.link, Forest.link, Function.update_apply, if_neg hx, hmem]
  cases d.trees.parent x with
  | none => split_ifs <;> simp_all
  | some q => by_cases hq : q = p <;> split_ifs <;> simp_all

theorem cell_link_self (hp : c ≠ p) {ks : List ℕ} : (d.link p c ks).cell c lc =
    { d.cell c lc with parent := some p, prev := before ks c, next := behind ks c } := by
  simp [Doc.cell, Doc.link, Forest.link, Function.update_apply, hp]

theorem node_link (hx : d.trees.label x = some lx) (ks : List ℕ) : (d.link p c ks).heap.node x = some ((d.link p c ks).cell x lx) :=
  node_heap (d := d.link p c ks) hx

/-- A node that is neither put under `p`, nor `p`, nor one of its children whose neighbours change. -/
theorem node_link_other (hd : d.trees.Wf) {ks : List ℕ} (hc : x ≠ c) (hp : x ≠ p)
    (hkid : x ∈ d.trees.kids p → before ks x = before (d.trees.kids p) x ∧ behind ks x = behind (d.trees.kids p) x) :
    (d.link p c ks).heap.node x = d.heap.node x := by
  show (d.trees.label x).map ((d.link p c ks).cell x) = (d.trees.label x).map (d.cell x)
  refine congrArg (Option.map · _) (funext fun l => ?_)
  rw [cell_link hd hc, if_neg hp, if_neg hp]
  by_cases hmem : x ∈ d.trees.kids p
  · obtain ⟨hbefore, hbehind⟩ := hkid hmem
    rw [if_pos hmem, if_pos hmem, hbefore, hbehind]
    have hparent := hd.mem_kids.mp hmem
    simp [Doc.cell, hparent]
  · rw [if_neg hmem, if_neg hmem]

theorem append_node_eq (hd : d.trees.Wf) (hp : d.trees.label p = some lp) (hc : d.trees.label c = some lc)
    (hroot : d.trees.parent c = none) (hcycle : ¬ d.trees.Under c p) :
    append_node d.heap p c = some (d.link p c (d.trees.kids p ++ [c])).heap := by
  have hne : c ≠ p := by
    rintro rfl
    exact hcycle (Forest.under_refl _)
  have hnotMem : c ∉ d.trees.kids p := fun hmem => by rw [hd.mem_kids, hroot] at hmem; cases hmem
  have hnc := node_heap (d := d) hc
  have hnp := node_heap (d := d) hp
  have hself : p ∉ d.trees.kids p := fun hmem => hd.acyclic hmem (Forest.under_refl _)
  have hcell : (d.link p c (d.trees.kids p ++ [c])).cell c lc =
      { d.cell c lc with parent := some p, prev := (d.trees.kids p).getLast?, next := none } := by
    rw [cell_link_self hne, before_snoc_self hnotMem, behind_snoc_self hnotMem]
  simp only [append_node, Option.bind_eq_bind, write_eq hnc, Option.bind_some, Function.update_of_ne hne.symm, hnp]
  rw [write_eq (Function.update_self _ _ _)]
  simp only [Option.bind_some, Function.update_idem]
  have htail : (d.cell p lp).tail = (d.trees.kids p).getLast? := rfl
  rw [htail]
  cases hlast : (d.trees.kids p).getLast? with
  | none =>
    have hnil := List.getLast?_eq_none_iff.mp hlast
    simp only [JsonHeap.writeOr]
    rw [write_eq ((Function.update_of_ne hne.symm _ _).trans hnp), Option.bind_some, write_eq (Function.update_self _ _ _)]
    refine congrArg some (heap_eq (fun x => ?_) rfl rfl)
    simp only [Function.update_apply]
    by_cases hxp : x = p
    · subst hxp
      rw [if_pos rfl]
      refine Eq.trans ?_ (node_link hp _).symm
      rw [cell_link hd hne.symm]
      simp [hnil]
    · rw [if_neg hxp, if_neg hxp]
      by_cases hxc : x = c
      · subst hxc
        rw [if_pos rfl]
        refine Eq.trans ?_ (node_link hc _).symm
        rw [hcell, hlast]
      · rw [if_neg hxc]
        refine (node_link_other hd hxc hxp fun hmem => ?_).symm
        rw [hnil] at hmem
        cases hmem
  | some t =>
    have ht : t ∈ d.trees.kids p := List.mem_of_getLast? hlast
    obtain ⟨lt, hlt⟩ := label_of_mem hd ht
    have htp : t ≠ p := ne_of_mem hd ht
    have htc : t ≠ c := fun he => hnotMem (he ▸ ht)
    simp only [JsonHeap.writeOr]
    rw [write_eq ((Function.update_of_ne htc _ _).trans (node_heap hlt)), Option.bind_some,
      write_eq ((Function.update_of_ne htp.symm _ _).trans ((Function.update_of_ne hne.symm _ _).trans hnp))]
    refine congrArg some (heap_eq (fun x => ?_) rfl rfl)
    simp only [Function.update_apply]
    by_cases hxp : x = p
    · subst hxp
      rw [if_pos rfl]
      refine Eq.trans ?_ (node_link hp _).symm
      rw [cell_link hd hne.symm]
      have hhead : (d.trees.kids x ++ [c]).head? = (d.trees.kids x).head? := by
        rw [List.head?_append_of_ne_nil _ (List.ne_nil_of_mem ht)]
      simp [hself, hhead]
      rfl
    · rw [if_neg hxp]
      by_cases hxt : x = t
      · subst hxt
        rw [if_pos rfl]
        refine Eq.trans ?_ (node_link hlt _).symm
        rw [cell_link hd htc, before_snoc ht, behind_snoc (hd.nodup p) ht]
        simp [ht, htp, hlast, Doc.cell, hd.mem_kids.mp ht]
      · rw [if_neg hxt]
        by_cases hxc : x = c
        · subst hxc
          rw [if_pos rfl]
          refine Eq.trans ?_ (node_link hc _).symm
          rw [hcell, hlast]
        · rw [if_neg hxc]
          refine (node_link_other hd hxc hxp fun hmem => ⟨before_snoc hmem, ?_⟩).symm
          rw [behind_snoc (hd.nodup p) hmem, hlast, if_neg]
          exact fun he => hxt (Option.some.inj he).symm

theorem prepend_node_eq (hd : d.trees.Wf) (hp : d.trees.label p = some lp) (hc : d.trees.label c = some lc)
    (hroot : d.trees.parent c = none) (hcycle : ¬ d.trees.Under c p) :
    prepend_node d.heap p c = some (d.link p c (c :: d.trees.kids p)).heap := by
  have hne : c ≠ p := by
    rintro rfl
    exact hcycle (Forest.under_refl _)
  have hnotMem : c ∉ d.trees.kids p := fun hmem => by rw [hd.mem_kids, hroot] at hmem; cases hmem
  have hnc := node_heap (d := d) hc
  have hnp := node_heap (d := d) hp
  have hself : p ∉ d.trees.kids p := fun hmem => hd.acyclic hmem (Forest.under_refl _)
  have hcell : (d.link p c (c :: d.trees.kids p)).cell c lc =
      { d.cell c lc with parent := some p, prev := none, next := (d.trees.kids p).head? } := by
    rw [cell_link_self hne, before_cons_self, behind_cons_self]
  simp only [prepend_node, Option.bind_eq_bind, write_eq hnc, Option.bind_some, Function.update_of_ne hne.symm, hnp]
  rw [write_eq (Function.update_self _ _ _)]
  simp only [Option.bind_some, Function.update_idem]
  have hhead : (d.cell p lp).head = (d.trees.kids p).head? := rfl
  rw [hhead]
  cases hfirst : (d.trees.kids p).head? with
  | none =>
    have hnil := List.head?_eq_none_iff.mp hfirst
    simp only [JsonHeap.writeOr]
    rw [write_eq ((Function.update_of_ne hne.symm _ _).trans hnp), Option.bind_some, write_eq (Function.update_self _ _ _)]
    refine congrArg some (heap_eq (fun x => ?_) rfl rfl)
    simp only [Function.update_apply]
    by_cases hxp : x = p
    · subst hxp
      rw [if_pos rfl]
      refine Eq.trans ?_ (node_link hp _).symm
      rw [cell_link hd hne.symm]
      simp [hnil]
    · rw [if_neg hxp, if_neg hxp]
      by_cases hxc : x = c
      · subst hxc
        rw [if_pos rfl]
        refine Eq.trans ?_ (node_link hc _).symm
        rw [hcell, hfirst]
      · rw [if_neg hxc]
        refine (node_link_other hd hxc hxp fun hmem => ?_).symm
        rw [hnil] at hmem
        cases hmem
  | some t =>
    have ht : t ∈ d.trees.kids p := List.mem_of_mem_head? hfirst
    obtain ⟨lt, hlt⟩ := label_of_mem hd ht
    have htp : t ≠ p := ne_of_mem hd ht
    have htc : t ≠ c := fun he => hnotMem (he ▸ ht)
    simp only [JsonHeap.writeOr]
    rw [write_eq ((Function.update_of_ne htc _ _).trans (node_heap hlt)), Option.bind_some,
      write_eq ((Function.update_of_ne htp.symm _ _).trans ((Function.update_of_ne hne.symm _ _).trans hnp))]
    refine congrArg some (heap_eq (fun x => ?_) rfl rfl)
    simp only [Function.update_apply]
    by_cases hxp : x = p
    · subst hxp
      rw [if_pos rfl]
      refine Eq.trans ?_ (node_link hp _).symm
      rw [cell_link hd hne.symm]
      have hlast : (c :: d.trees.kids x).getLast? = (d.trees.kids x).getLast? := by
        rw [List.getLast?_cons]
        cases hk : (d.trees.kids x).getLast? with
        | none => exact absurd (List.getLast?_eq_none_iff.mp hk) (List.ne_nil_of_mem ht)
        | some k => rfl
      simp [hself, hlast]
      rfl
    · rw [if_neg hxp]
      by_cases hxt : x = t
      · subst hxt
        rw [if_pos rfl]
        refine Eq.trans ?_ (node_link hlt _).symm
        rw [cell_link hd htc, before_cons ht htc (hd.nodup p), behind_cons htc]
        simp [ht, htp, hfirst, Doc.cell, hd.mem_kids.mp ht]
      · rw [if_neg hxt]
        by_cases hxc : x = c
        · subst hxc
          rw [if_pos rfl]
          refine Eq.trans ?_ (node_link hc _).symm
          rw [hcell, hfirst]
        · rw [if_neg hxc]
          refine (node_link_other hd hxc hxp fun hmem => ⟨?_, behind_cons hxc⟩).symm
          rw [before_cons hmem hxc (hd.nodup p), hfirst, if_neg]
          exact fun he => hxt (Option.some.inj he).symm

/-! ## Taken out -/

def Doc.detach (d : Doc) (x : ℕ) (l : JsonLabel) : Doc where
  trees := (d.trees.detach x).setLabel x { l with key := none }
  text := l.key.elim d.text fun k => Function.update d.text k none
  fresh := d.fresh

theorem cell_detach_self : (d.detach x l).cell x lx =
    ⟨lx, none, none, none, (d.trees.kids x |>.erase x).head?, (d.trees.kids x |>.erase x).getLast?⟩ := by
  simp [Doc.cell, Doc.detach, Forest.setLabel, Forest.detach]

/-- A node that stays where it is. -/
theorem cell_detach (hd : d.trees.Wf) (hx : d.trees.parent x = some p) (hy : y ≠ x) : (d.detach x l).cell y lx =
    { d.cell y lx with
      prev := if behind (d.trees.kids p) x = some y then before (d.trees.kids p) x else (d.cell y lx).prev
      next := if before (d.trees.kids p) x = some y then behind (d.trees.kids p) x else (d.cell y lx).next
      head := if y = p ∧ before (d.trees.kids p) x = none then behind (d.trees.kids p) x else (d.cell y lx).head
      tail := if y = p ∧ behind (d.trees.kids p) x = none then before (d.trees.kids p) x else (d.cell y lx).tail } := by
  have hmem : x ∈ d.trees.kids p := hd.mem_kids.mpr hx
  have herase : ∀ q, q ≠ p → (d.trees.kids q).erase x = d.trees.kids q := by
    intro q hq
    refine List.erase_of_not_mem fun hxq => hq ?_
    exact Option.some.inj ((hd.mem_kids.mp hxq).symm.trans hx)
  have hprev : (d.trees.parent y).bind (fun q => before ((d.trees.kids q).erase x) y) =
      if behind (d.trees.kids p) x = some y then before (d.trees.kids p) x else (d.cell y lx).prev := by
    by_cases hyp : d.trees.parent y = some p
    · rw [hyp, Option.bind_some, before_erase (hd.nodup p) hmem (hd.mem_kids.mpr hyp) hy, Doc.cell, hyp, Option.bind_some]
    · rw [if_neg fun he => hyp (hd.mem_kids.mp (mem_of_behind he)), Doc.cell]
      refine Option.bind_congr fun q hq => ?_
      rw [herase q (fun he => hyp (he ▸ hq))]
  have hnext : (d.trees.parent y).bind (fun q => behind ((d.trees.kids q).erase x) y) =
      if before (d.trees.kids p) x = some y then behind (d.trees.kids p) x else (d.cell y lx).next := by
    by_cases hyp : d.trees.parent y = some p
    · rw [hyp, Option.bind_some, behind_erase (hd.nodup p) hmem (hd.mem_kids.mpr hyp) hy, Doc.cell, hyp, Option.bind_some]
      rfl
    · rw [if_neg fun he => hyp (hd.mem_kids.mp (mem_of_before he)), Doc.cell]
      refine Option.bind_congr fun q hq => ?_
      rw [herase q (fun he => hyp (he ▸ hq))]
  have hends : ((d.trees.kids y).erase x).head? =
        (if y = p ∧ before (d.trees.kids p) x = none then behind (d.trees.kids p) x else (d.trees.kids y).head?) ∧
      ((d.trees.kids y).erase x).getLast? =
        (if y = p ∧ behind (d.trees.kids p) x = none then before (d.trees.kids p) x else (d.trees.kids y).getLast?) := by
    by_cases hyp : y = p
    · subst hyp
      rw [head?_erase (hd.nodup y) hmem, getLast?_erase (hd.nodup y) hmem]
      simp
    · rw [herase y hyp]
      simp [hyp]
  rw [← hprev, ← hnext]
  simp only [Doc.cell, Doc.detach, Forest.setLabel, Forest.detach, Function.update_of_ne hy, hends.1, hends.2]

/-- The code takes a child out as the list does. -/
theorem remove_child_eq (hd : d.Wf) (hl : d.trees.label x = some l) (hx : d.trees.parent x = some p) :
    json_remove_from_parent d.heap x = some (d.detach x l).heap := by
  have hmem : x ∈ d.trees.kids p := hd.trees.mem_kids.mpr hx
  obtain ⟨lp, hlp⟩ := Option.ne_none_iff_exists'.mp (hd.trees.live hx).2
  have hxp : p ≠ x := (ne_of_mem hd.trees hmem).symm
  have hnx := node_heap (d := d) hl
  generalize hb : before (d.trees.kids p) x = b
  generalize hn : behind (d.trees.kids p) x = n
  have hcell : d.cell x l = ⟨l, some p, b, n, (d.trees.kids x).head?, (d.trees.kids x).getLast?⟩ := by
    simp only [Doc.cell, hx, Option.bind_some, hb, hn]
  rw [hcell] at hnx
  have hprev : ∃ lq, d.trees.label (b.getD p) = some lq ∧ b.getD p ≠ x := by
    cases b with
    | none => exact ⟨lp, hlp, hxp⟩
    | some q =>
      obtain ⟨lq, hlq⟩ := label_of_mem hd.trees (mem_of_before hb)
      exact ⟨lq, hlq, ne_of_before (hd.trees.nodup p) hmem hb⟩
  have hnext : ∃ lq, d.trees.label (n.getD p) = some lq ∧ n.getD p ≠ x := by
    cases n with
    | none => exact ⟨lp, hlp, hxp⟩
    | some q =>
      obtain ⟨lq, hlq⟩ := label_of_mem hd.trees (mem_of_behind hn)
      exact ⟨lq, hlq, ne_of_behind (hd.trees.nodup p) hmem hn⟩
  obtain ⟨lb, hlb, hbx⟩ := hprev
  obtain ⟨ln, hln, hnx'⟩ := hnext
  simp only [json_remove_from_parent, Option.bind_eq_bind, hnx, Option.bind_some]
  rw [writeOr_eq (node_heap hlb)]
  simp only [Option.bind_some, Function.update_of_ne hbx.symm, hnx]
  obtain ⟨N, hN, hNeq⟩ : ∃ N, Function.update d.heap.node (b.getD p) (some (if b.isSome then { d.cell (b.getD p) lb with next := n }
      else { d.cell (b.getD p) lb with head := n })) (n.getD p) = some N ∧
      N = if n.getD p = b.getD p then (if b.isSome then { d.cell (b.getD p) lb with next := n }
      else { d.cell (b.getD p) lb with head := n }) else d.cell (n.getD p) ln := by
    rw [Function.update_apply]
    split_ifs
    all_goals exact ⟨_, by first | rfl | exact node_heap hln, rfl⟩
  rw [writeOr_eq hN]
  have hkey : ∀ k ∈ l.key, d.text k ≠ none := fun k hk => hd.owned.mpr ⟨x, l, hl, by simp [JsonLabel.texts, Option.mem_def.mp hk]⟩
  simp only [Option.bind_some, Function.update_of_ne hbx.symm, Function.update_of_ne hnx'.symm, hnx]
  rw [freeText_eq hkey, Option.bind_some,
    write_eq ((Function.update_of_ne hnx'.symm _ _).trans ((Function.update_of_ne hbx.symm _ _).trans hnx))]
  refine congrArg some (heap_eq (fun y => ?_) rfl rfl)
  by_cases hyx : y = x
  · subst hyx
    have hlabel : (d.detach y l).trees.label y = some { l with key := none } := Function.update_self _ _ _
    rw [hlabel, Option.map_some, cell_detach_self, List.erase_of_not_mem fun hself => ne_of_mem hd.trees hself rfl]
    exact Function.update_self _ _ _
  have hlabel : (d.detach x l).trees.label y = d.trees.label y := Function.update_of_ne hyx _ _
  have hcells : (d.detach x l).cell y = fun ly => _ := funext fun ly => cell_detach hd.trees hx hyx
  rw [hlabel, hcells, hb, hn]
  simp only [Function.update_of_ne hyx]
  by_cases hyn : y = n.getD p
  · subst hyn
    rw [hln, Function.update_self, hNeq]
    by_cases hbn : n.getD p = b.getD p
    · rw [if_pos hbn]
      have hsame : ln = lb := by
        rw [hbn, hlb] at hln
        exact (Option.some.inj hln).symm
      cases n <;> cases b <;> simp_all
    · rw [if_neg hbn]
      have hnb := Ne.symm hbn
      cases n <;> cases b <;> simp_all
  · rw [Function.update_of_ne hyn]
    by_cases hyb : y = b.getD p
    · subst hyb
      rw [hlb, Function.update_self]
      have hnb := Ne.symm hyn
      cases n <;> cases b <;> simp_all
    · rw [Function.update_of_ne hyb]
      show (d.trees.label y).map (d.cell y) = _
      refine congrArg (Option.map · _) (funext fun ly => ?_)
      have hny := Ne.symm hyn
      have hby := Ne.symm hyb
      cases n <;> cases b <;> simp_all

theorem owned_self (hl : d.trees.label x = some l) : d.Owned s x ↔ s ∈ l.texts := by
  refine ⟨fun h => ?_, fun h => ⟨l, hl, h⟩⟩
  obtain ⟨l', hl', hs⟩ := h
  rwa [Option.some.inj (hl.symm.trans hl')]

theorem mem_texts : s ∈ l.texts ↔ l.key = some s ∨ l.string_ = some s := by
  simp [JsonLabel.texts]

theorem label_detach (y : ℕ) : (d.detach x l).trees.label y = if y = x then some { l with key := none } else d.trees.label y := by
  simp [Doc.detach, Forest.setLabel, Forest.detach, Function.update_apply]

theorem tag_detach (hl : d.trees.label x = some l) (y : ℕ) : (d.detach x l).tag y = d.tag y := by
  rw [Doc.tag, Doc.tag, label_detach]
  split_ifs with hy
  · rw [hy, hl]
    rfl
  · rfl

theorem parent_detach (y : ℕ) : (d.detach x l).trees.parent y = if y = x then none else d.trees.parent y := by
  simp [Doc.detach, Forest.setLabel, Forest.detach, Function.update_apply]

theorem root_key (hd : d.Wf) (hl : d.trees.label x = some l) (hroot : d.trees.parent x = none) : l.key = none := by
  by_contra hkey
  obtain ⟨p, hp, -⟩ := (hd.keys hl).mp hkey
  rw [hroot] at hp
  cases hp

theorem string_none (hd : d.Wf) (hl : d.trees.label x = some l) (htag : l.tag ≠ .string) : l.string_ = none := by
  by_contra hstring
  exact htag ((hd.strings hl).mp hstring)

/-- A root has no key, and stays as it is. -/
theorem detach_root (hd : d.Wf) (hl : d.trees.label x = some l) (hx : d.trees.parent x = none) : d.detach x l = d := by
  have hkey := root_key hd hl hx
  have hlabel : { l with key := none } = l := by
    rw [← hkey]
  have htrees : (d.detach x l).trees = d.trees := by
    ext1 y
    · rw [label_detach, hlabel]
      split_ifs with hy
      · rw [hy, hl]
      · rfl
    · show Function.update d.trees.parent x none y = _
      rw [Function.update_apply]
      split_ifs with hy
      · rw [hy, hx]
      · rfl
    · show (d.trees.kids y).erase x = _
      refine List.erase_of_not_mem fun hmem => ?_
      rw [hd.trees.mem_kids, hx] at hmem
      cases hmem
  have htext : (d.detach x l).text = d.text := by
    show l.key.elim d.text _ = _
    rw [hkey]
    rfl
  show Doc.mk (d.detach x l).trees (d.detach x l).text d.fresh = d
  rw [htrees, htext]

theorem owned_detach (hd : d.Wf) (hl : d.trees.label x = some l) : (d.detach x l).Owned s y ↔ d.Owned s y ∧ l.key ≠ some s := by
  by_cases hy : y = x
  · subst hy
    rw [owned_self hl, owned_self (l := { l with key := none }) (by rw [label_detach, if_pos rfl]), mem_texts, mem_texts]
    have hapart := hd.apart hl
    constructor
    · intro h
      have hstring : l.string_ = some s := by simpa using h
      refine ⟨Or.inr hstring, fun hkey => ?_⟩
      simp [JsonLabel.texts, hkey, hstring] at hapart
    · intro h
      exact Or.inr (h.1.resolve_left h.2)
  · have hlabel : (d.detach x l).trees.label y = d.trees.label y := by rw [label_detach, if_neg hy]
    constructor
    · intro h
      obtain ⟨ly, hly, hs⟩ := h
      rw [hlabel] at hly
      refine ⟨⟨ly, hly, hs⟩, fun hkey => hy ?_⟩
      exact hd.one ⟨ly, hly, hs⟩ ((owned_self hl).mpr (mem_texts.mpr (Or.inl hkey)))
    · intro h
      obtain ⟨⟨ly, hly, hs⟩, -⟩ := h
      exact ⟨ly, by rw [hlabel, hly], hs⟩

theorem wf_detach (hd : d.Wf) (hl : d.trees.label x = some l) : (d.detach x l).Wf where
  trees := Forest.wf_setLabel (Forest.wf_detach hd.trees x) _ _
  parents {y q} hy := by
    rw [parent_detach] at hy
    rw [tag_detach hl]
    split_ifs at hy
    exact hd.parents hy
  keys {y ly} hy := by
    rw [label_detach] at hy
    simp only [parent_detach, tag_detach hl]
    split_ifs at hy with hyx
    · cases hy
      simp [hyx]
    · simp only [if_neg hyx]
      exact hd.keys hy
  strings {y ly} hy := by
    rw [label_detach] at hy
    split_ifs at hy
    · cases hy
      exact (hd.strings hl :)
    · exact hd.strings hy
  owned {s} := by
    simp only [owned_detach hd hl, exists_and_right, ← hd.owned]
    show l.key.elim d.text _ s ≠ none ↔ _
    cases l.key with
    | none => simp
    | some k =>
      by_cases hs : s = k
      · simp [hs]
      · simp [hs, Ne.symm hs]
  one hx' hy' := hd.one ((owned_detach hd hl).mp hx').1 ((owned_detach hd hl).mp hy').1
  apart {y ly} hy := by
    rw [label_detach] at hy
    split_ifs at hy with hyx
    · cases hy
      exact List.Nodup.sublist (by simp [JsonLabel.texts]) (hd.apart hl)
    · exact hd.apart hy
  fresh {y} hy := by
    obtain ⟨hlabel, htext⟩ := hd.fresh hy
    refine ⟨?_, ?_⟩
    · rw [label_detach, if_neg, hlabel]
      rintro rfl
      rw [hl] at hlabel
      cases hlabel
    · show l.key.elim d.text _ y = none
      cases l.key with
      | none => exact htext
      | some k => simp [Function.update_apply, htext]

theorem json_remove_from_parent_eq (hd : d.Wf) (hl : d.trees.label x = some l) :
    json_remove_from_parent d.heap x = some (d.detach x l).heap := by
  cases hx : d.trees.parent x with
  | none =>
    rw [detach_root hd hl hx, json_remove_from_parent, node_heap hl]
    simp [Doc.cell, hx]
  | some p => exact remove_child_eq hd hl hx

end FitsWebQL
