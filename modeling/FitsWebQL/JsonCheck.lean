/-
  FitsWebQL.JsonCheck — looking at the nodes of a document: `json_check`, which follows every
  pointer and compares it with the one that leads back, `json_find_element` and
  `json_find_member`, which follow `next`.

  A tag is one of six and a boolean one of two, so that two of the problems cannot be met.

  Proved:
    json_check_iff    after any run, `json_check` finds no broken pointer: what it finds is a
                      key or a string that is not UTF-8, and it finds it if there is one
    json_find_eq      the element of an index is that of the list the calls made, and the
                      member of a name is the first of that list with the key
-/

import FitsWebQL.JsonCalls

namespace FitsWebQL

open Lib.Siblings Lib.Trees Lib.Runs JsonHeap

/-! ## json_check -/

/-- A message, or the end; a pointer to what is not there is neither. -/
abbrev Check := ExceptT String Option

def deref {α : Type} (o : Option α) : Check α := ExceptT.mk (o.map Except.ok)

def problem (found : Prop) [Decidable found] (message : String) : Check Unit := if found then throw message else pure ()

def checkText (h : JsonHeap) (text : ℕ) (message : String) : Check Unit := do
  problem (utf8_validate (← deref (h.text text)) = false) message

def checkKey (h : JsonHeap) : Option ℕ → Check Unit
  | some key => checkText h key "key contains invalid UTF-8"
  | none => pure ()

/-- `child->next->prev != child` -/
def checkNext (h : JsonHeap) (child : ℕ) : Option ℕ → Check Unit
  | some next => do problem ((← deref (h.node next)).prev ≠ some child) "child->next does not point back to child"
  | none => pure ()

mutual

def json_check : ℕ → JsonHeap → ℕ → Check Unit
  | 0, _, _ => deref none
  | fuel + 1, h, node => do
    let n ← deref (h.node node)
    checkKey h n.key
    match n.tag with
    | .string =>
      match n.string_ with
      | none => throw "string_ is NULL"
      | some s => checkText h s "string_ contains invalid UTF-8"
    | .array | .object =>
      match n.head, n.tail with
      | none, none => pure ()
      | some _, none => throw "tail is NULL, but head is not"
      | none, some _ => throw "head is NULL, but tail is not"
      | some head, some tail => do
        let first ← deref (h.node head)
        problem (first.prev ≠ none) "First child's prev pointer is not NULL"
        checkChildren fuel h node head tail none (some head)
    | _ => pure ()

def checkChildren : ℕ → JsonHeap → ℕ → ℕ → ℕ → Option ℕ → Option ℕ → Check Unit
  | _, _, _, _, tail, last, none =>
    problem (last ≠ some tail) "tail does not match pointer found by starting at head and following next links"
  | 0, _, _, _, _, _, some _ => deref none
  | fuel + 1, h, node, head, tail, _, some child => do
    problem (child = node) "node is its own child"
    let c ← deref (h.node child)
    problem (c.next = some child) "child->next == child (cycle)"
    problem (c.next = some head) "child->next == head (cycle)"
    problem (c.parent ≠ some node) "child does not point back to parent"
    checkNext h child c.next
    let n ← deref (h.node node)
    problem (n.tag = .array ∧ c.key ≠ none) "Array element's key is not NULL"
    problem (n.tag = .object ∧ c.key = none) "Object member's key is NULL"
    json_check fuel h child
    checkChildren fuel h node head tail (some child) c.next

end

/-! ## What it finds -/

variable {d : Doc} {x y p c s : ℕ} {l lx lp lc : JsonLabel}

def Doc.Utf8 (d : Doc) (x : ℕ) : Prop := ∀ s, d.Owned s x → ∀ t ∈ d.text s, utf8_validate t = true

def NotUtf8 (message : String) : Prop := message = "key contains invalid UTF-8" ∨ message = "string_ contains invalid UTF-8"

/-- Of the texts in `S`, whether all are UTF-8; or one that is not. -/
def Finds (check : Check Unit) (valid : Prop) : Prop :=
  (check = pure () ∧ valid) ∨ ∃ message, NotUtf8 message ∧ check = throw message ∧ ¬ valid

theorem finds_pure {valid : Prop} (h : valid) : Finds (pure ()) valid := Or.inl ⟨rfl, h⟩

theorem finds_iff {check : Check Unit} {valid valid' : Prop} (h : Finds check valid) (hiff : valid ↔ valid') : Finds check valid' := by
  rwa [propext hiff] at h

theorem finds_bind {check check' : Check Unit} {valid valid' : Prop} (h : Finds check valid) (h' : Finds check' valid') :
    Finds (check >>= fun _ => check') (valid ∧ valid') := by
  rcases h with ⟨rfl, hvalid⟩ | ⟨message, hmessage, rfl, hvalid⟩
  · rw [pure_bind]
    exact finds_iff h' (by simp [hvalid])
  · exact Or.inr ⟨message, hmessage, rfl, fun h => hvalid h.1⟩

theorem deref_bind {α : Type} (a : α) (f : α → Check Unit) : (deref (some a) >>= f) = f a := rfl

theorem problem_bind {found : Prop} [Decidable found] (h : ¬ found) (message : String) (f : Unit → Check Unit) :
    (problem found message >>= f) = f () := by
  rw [problem, if_neg h, pure_bind]

theorem finds_text (hs : d.text s ≠ none) {message : String} (h : NotUtf8 message) :
    Finds (checkText d.heap s message) (∀ t ∈ d.text s, utf8_validate t = true) := by
  obtain ⟨t, ht⟩ := Option.ne_none_iff_exists'.mp hs
  have htext : d.heap.text s = some t := ht
  rw [checkText, htext, deref_bind, ht, problem]
  split_ifs with hvalid
  · exact Or.inr ⟨message, h, rfl, by simp [hvalid]⟩
  · exact finds_pure (by simpa using hvalid)

theorem utf8_iff (hl : d.trees.label x = some l) :
    d.Utf8 x ↔ (∀ k ∈ l.key, ∀ t ∈ d.text k, utf8_validate t = true) ∧ ∀ k ∈ l.string_, ∀ t ∈ d.text k, utf8_validate t = true := by
  simp only [Doc.Utf8, owned_self hl, mem_texts, or_imp, forall_and]
  rfl

theorem finds_key (hd : d.Wf) (hl : d.trees.label x = some l) :
    Finds (checkKey d.heap l.key) (∀ k ∈ l.key, ∀ t ∈ d.text k, utf8_validate t = true) := by
  cases hkey : l.key with
  | none => exact finds_pure (by simp)
  | some k =>
    have hlive : d.text k ≠ none := hd.owned.mpr ⟨x, (owned_self hl).mpr (mem_texts.mpr (Or.inl hkey))⟩
    exact finds_iff (finds_text hlive (Or.inl rfl)) (by simp)

/-- Pointers there and back. -/
theorem child_links (hd : d.Wf) {as cs : List ℕ} (hkids : d.trees.kids p = as ++ c :: cs) (lc : JsonLabel) :
    (d.cell c lc).parent = some p ∧ (d.cell c lc).prev = as.getLast? ∧ (d.cell c lc).next = cs.head? := by
  have hparent : d.trees.parent c = some p := hd.trees.mem_kids.mp (by rw [hkids]; simp)
  have hnodup := hd.trees.nodup p
  rw [hkids] at hnodup
  have hnotMem : c ∉ as := fun hmem => (List.nodup_cons.mp (List.nodup_middle.mp hnodup)).1 (List.mem_append_left _ hmem)
  simp only [Doc.cell, hparent, Option.bind_some, hkids, before_split hnotMem, behind_split hnotMem, and_self]

theorem utf8_below (cs : List ℕ) :
    (∀ y ∈ d.below (c :: cs), d.Utf8 y) ↔ (∀ y, d.trees.Under c y → d.Utf8 y) ∧ ∀ y ∈ d.below cs, d.Utf8 y := by
  simp only [Doc.below, Set.mem_ofPred_eq, List.exists_mem_cons_iff, or_imp, forall_and]

theorem utf8_under (x : ℕ) : (∀ y, d.trees.Under x y → d.Utf8 y) ↔ d.Utf8 x ∧ ∀ y ∈ d.below (d.trees.kids x), d.Utf8 y := by
  have hset : (∀ y, d.trees.Under x y → d.Utf8 y) ↔ ∀ y ∈ {y | d.trees.Under x y}, d.Utf8 y := Iff.rfl
  rw [hset, under_eq_below, Set.forall_mem_insert]

/-- The next child and the others. -/
theorem below_rest (hd : d.Wf) {as cs : List ℕ} (hkids : d.trees.kids p = as ++ c :: cs) :
    {y | d.trees.Under c y}.ncard ≤ (d.below (c :: cs)).ncard ∧ (d.below cs).ncard < (d.below (c :: cs)).ncard := by
  have hmem : ∀ k ∈ c :: cs, k ∈ d.trees.kids p := fun k hk => by rw [hkids]; exact List.mem_append_right _ hk
  have hnodup := hd.trees.nodup p
  rw [hkids] at hnodup
  have hfinite := finite_below hd fun k hk => (hd.trees.live (hd.trees.mem_kids.mp (hmem k hk))).1
  refine ⟨Set.ncard_le_ncard (fun y hy => ⟨c, List.mem_cons_self, hy⟩) hfinite, Set.ncard_lt_ncard ⟨?_, fun hall => ?_⟩ hfinite⟩
  · intro y hy
    obtain ⟨k, hk, hky⟩ := hy
    exact ⟨k, List.mem_cons_of_mem c hk, hky⟩
  · obtain ⟨k, hk, hkc⟩ := hall ⟨c, List.mem_cons_self, Forest.under_refl c⟩
    have hsame := hd.trees.sibling_eq (hmem k (List.mem_cons_of_mem c hk)) (hmem c List.mem_cons_self) hkc
    subst hsame
    exact (List.nodup_cons.mp (List.nodup_append.mp hnodup).2.1).1 hk

/-- The problems of a child's own pointers are not met. -/
theorem child_sound (hd : d.Wf) (hlp : d.trees.label p = some lp) {as cs : List ℕ} (hkids : d.trees.kids p = as ++ c :: cs)
    (hlc : d.trees.label c = some lc) :
    c ≠ p ∧ cs.head? ≠ some c ∧ (∀ head, (d.trees.kids p).head? = some head → cs.head? ≠ some head) ∧
      (∀ next, cs.head? = some next → ∃ ln, d.trees.label next = some ln ∧ (d.cell next ln).prev = some c) ∧
      ¬ ((d.cell p lp).tag = .array ∧ (d.cell c lc).key ≠ none) ∧ ¬ ((d.cell p lp).tag = .object ∧ (d.cell c lc).key = none) := by
  have hmem : c ∈ d.trees.kids p := by rw [hkids]; simp
  have hparent : d.trees.parent c = some p := hd.trees.mem_kids.mp hmem
  have hnodup := hd.trees.nodup p
  rw [hkids] at hnodup
  have hcs : c ∉ cs := (List.nodup_cons.mp (List.nodup_append.mp hnodup).2.1).1
  have htag : d.tag p = some lp.tag := by rw [Doc.tag, hlp, Option.map_some]
  have hkey : lc.key ≠ none ↔ lp.tag = .object := by
    rw [hd.keys hlc, hparent]
    simp [htag]
  refine ⟨ne_of_mem hd.trees hmem, fun he => hcs (List.mem_of_mem_head? he), fun head hhead he => ?_, fun next hnext => ?_, ?_, ?_⟩
  · -- the first child is not behind another
    have hin := List.mem_of_mem_head? he
    rw [hkids] at hhead
    cases as with
    | nil =>
      cases hhead
      exact hcs hin
    | cons a as =>
      cases hhead
      exact (List.nodup_cons.mp hnodup).1 (List.mem_append_right _ (List.mem_cons_of_mem c hin))
  · cases cs with
    | nil => cases hnext
    | cons n cs =>
      cases hnext
      have hkids' : d.trees.kids p = (as ++ [c]) ++ next :: cs := by rw [hkids, List.append_assoc, List.singleton_append]
      obtain ⟨ln, hln⟩ := label_of_mem (x := next) (p := p) hd.trees (by rw [hkids']; simp)
      refine ⟨ln, hln, ?_⟩
      rw [(child_links hd hkids' ln).2.1, List.getLast?_concat]
  · intro h
    have hobject := hkey.mp h.2
    rw [show lp.tag = .array from h.1] at hobject
    cases hobject
  · intro h
    exact hkey.mpr h.1 h.2

/-- What `json_check` and its loop find. -/
theorem check_finds (fuel : ℕ) :
    (∀ {d : Doc} {x l}, d.Wf → d.trees.label x = some l → 2 * {y | d.trees.Under x y}.ncard ≤ fuel + 1 →
      Finds (json_check fuel d.heap x) (∀ y, d.trees.Under x y → d.Utf8 y)) ∧
    (∀ {d : Doc} {p head tail lp} {as cs : List ℕ}, d.Wf → d.trees.label p = some lp → d.trees.kids p = as ++ cs →
      (d.trees.kids p).head? = some head → (d.trees.kids p).getLast? = some tail → 2 * (d.below cs).ncard ≤ fuel →
      Finds (checkChildren fuel d.heap p head tail as.getLast? cs.head?) (∀ y ∈ d.below cs, d.Utf8 y)) := by
  have hend : ∀ (fuel : ℕ) {d : Doc} {p head tail : ℕ} {as : List ℕ}, d.trees.kids p = as ++ [] → (d.trees.kids p).getLast? = some tail →
      Finds (checkChildren fuel d.heap p head tail as.getLast? none) (∀ y ∈ d.below [], d.Utf8 y) := by
    intro fuel d p head tail as hkids htail
    rw [hkids, List.append_nil] at htail
    have hcheck : checkChildren fuel d.heap p head tail as.getLast? none = pure () := by
      rw [htail]
      cases fuel <;> simp [checkChildren, problem]
    rw [hcheck]
    exact finds_pure (by simp [Doc.below])
  induction fuel with
  | zero =>
    refine ⟨fun {d x l} hd hl hfuel => ?_, fun {d p head tail lp as cs} hd hlp hkids hhead htail hfuel => ?_⟩
    · have hpos := (Set.ncard_pos (finite_under hd (by rw [hl]; exact Option.some_ne_none l))).mpr ⟨x, Forest.under_refl x⟩
      omega
    · cases cs with
      | nil => exact hend 0 hkids htail
      | cons c cs =>
        have hlt := (below_rest hd hkids).2
        omega
  | succ fuel ih =>
    obtain ⟨ihnode, ihloop⟩ := ih
    refine ⟨fun {d x l} hd hl hfuel => ?_, fun {d p head tail lp as cs} hd hlp hkids hhead htail hfuel => ?_⟩
    · have hbelow : (d.below (d.trees.kids x)).ncard + 1 = {y | d.trees.Under x y}.ncard := by
        have hfinite := finite_under hd (by rw [hl]; exact Option.some_ne_none l)
        rw [under_eq_below] at hfinite ⊢
        refine (Set.ncard_insert_of_notMem (fun h => ?_) (hfinite.subset (Set.subset_insert _ _))).symm
        obtain ⟨c, hc, hcx⟩ := h
        exact hd.trees.acyclic hc hcx
      have hvalid : ((∀ k ∈ l.key, ∀ t ∈ d.text k, utf8_validate t = true) ∧ (∀ k ∈ l.string_, ∀ t ∈ d.text k, utf8_validate t = true) ∧
          ∀ y ∈ d.below (d.trees.kids x), d.Utf8 y) ↔ ∀ y, d.trees.Under x y → d.Utf8 y := by
        rw [utf8_under, utf8_iff hl, and_assoc]
      rw [json_check, node_heap hl, deref_bind]
      refine finds_iff (finds_bind (finds_key hd hl) ?_) hvalid
      have hcell : (d.cell x l).tag = l.tag ∧ (d.cell x l).string_ = l.string_ := ⟨rfl, rfl⟩
      rw [hcell.1, hcell.2]
      cases htag : l.tag with
      | string =>
        obtain ⟨s, hs⟩ := Option.ne_none_iff_exists'.mp ((hd.strings hl).mpr htag)
        have hlive : d.text s ≠ none := hd.owned.mpr ⟨x, (owned_self hl).mpr (mem_texts.mpr (Or.inr hs))⟩
        have hnil := kids_nil hd hl (by simp [htag]) (by simp [htag])
        rw [hs, hnil]
        exact finds_iff (finds_text hlive (Or.inr rfl)) (by simp [Doc.below])
      | array | object =>
        have hstring := string_none hd hl (by simp [htag])
        rw [hstring]
        cases hkids : d.trees.kids x with
        | nil =>
          simp only [Doc.cell, hkids]
          exact finds_pure (by simp [Doc.below])
        | cons head rest =>
          obtain ⟨tail, htail⟩ := Option.ne_none_iff_exists'.mp (mt List.getLast?_eq_none_iff.mp (List.cons_ne_nil head rest))
          obtain ⟨lh, hlh⟩ := label_of_mem (x := head) (p := x) hd.trees (by rw [hkids]; simp)
          have hfirst := (child_links hd (hkids.trans (List.nil_append _).symm) lh).2.1
          have hloop := ihloop hd hl (hkids.trans (List.nil_append _).symm) (by rw [hkids]; rfl) (by rw [hkids]; exact htail)
            (by rw [← hkids]; omega)
          simp only [Doc.cell, hkids, htail, List.head?_cons]
          show Finds (deref (d.heap.node head) >>= _) _
          rw [node_heap hlh, deref_bind, problem_bind (by rw [hfirst]; simp)]
          exact finds_iff hloop (by simp)
      | null | bool | number =>
        have hstring := string_none hd hl (by simp [htag])
        have hnil := kids_nil hd hl (by simp [htag]) (by simp [htag])
        rw [hstring, hnil]
        exact finds_pure (by simp [Doc.below])
    · cases cs with
      | nil => exact hend (fuel + 1) hkids htail
      | cons c cs =>
        obtain ⟨lc, hlc⟩ := label_of_mem (x := c) (p := p) hd.trees (by rw [hkids]; simp)
        obtain ⟨hparent, -, hnext⟩ := child_links hd hkids lc
        obtain ⟨hne, hself, hfirst, hback, harray, hobject⟩ := child_sound hd hlp hkids hlc
        obtain ⟨hcard, hcard'⟩ := below_rest hd hkids
        have hkids' : d.trees.kids p = (as ++ [c]) ++ cs := by rw [hkids, List.append_assoc, List.singleton_append]
        have hcheckNext : ∀ f : Unit → Check Unit, (checkNext d.heap c cs.head? >>= f) = f () := by
          intro f
          cases hn : cs.head? with
          | none => rfl
          | some next =>
            obtain ⟨ln, hln, hprev⟩ := hback next hn
            rw [checkNext, node_heap hln, deref_bind, hprev, problem_bind (by simp)]
        have hloop := ihloop hd hlp hkids' hhead htail (by omega)
        rw [List.getLast?_concat] at hloop
        rw [List.head?_cons, checkChildren, problem_bind hne, node_heap hlc, deref_bind, hnext, hparent, problem_bind hself,
          problem_bind (hfirst head hhead), problem_bind (by simp), hcheckNext, node_heap hlp, deref_bind, problem_bind harray,
          problem_bind hobject]
        exact finds_iff (finds_bind (ihnode hd hlc (by omega)) hloop) (utf8_below cs).symm

/-- After any run and for any node: `json_check` comes to its end without a broken pointer, and
    says that all is well exactly when every key and string under the node is UTF-8. -/
theorem json_check_iff {cs : List JsonCall} (hcycle : Each Doc.step Doc.NoCycle Doc.new cs) {h : JsonHeap}
    (hrun : run JsonHeap.call JsonHeap.new cs = some h) {x : ℕ} (hx : h.node x ≠ none) :
    Finds (json_check (2 * h.fresh) h x)
      (∀ y n, h.Within x y → h.node y = some n → ∀ s ∈ n.texts, ∀ t ∈ h.text s, utf8_validate t = true) := by
  rw [(calls_represent hcycle).1] at hrun
  obtain ⟨d, hd, rfl⟩ := Option.map_eq_some_iff.mp hrun
  have hd := run_wf hcycle hd
  obtain ⟨l, hl⟩ := Option.ne_none_iff_exists'.mp fun hnone => hx ((node_eq_none d x).mpr hnone)
  refine finds_iff ((check_finds (2 * d.fresh)).1 hd hl ?_) ?_
  · have hcard := ncard_under_le hd (by rw [hl]; exact Option.some_ne_none l)
    omega
  · simp only [← within_heap hd]
    refine forall_congr' fun y => ⟨fun h n hy hn s hs => ?_, fun h hy s hs => ?_⟩
    · obtain ⟨ly, hly, rfl⟩ := Option.map_eq_some_iff.mp hn
      exact h hy s ⟨ly, hly, hs⟩
    · obtain ⟨ly, hly, hs⟩ := hs
      exact h _ hy (node_heap hly) s hs

theorem json_check_iff_object : ∃ h, run JsonHeap.call JsonHeap.new objectCalls = some h ∧
    Finds (json_check (2 * h.fresh) h 0)
      (∀ y n, h.Within 0 y → h.node y = some n → ∀ s ∈ n.texts, ∀ t ∈ h.text s, utf8_validate t = true) := by
  obtain ⟨h, hrun, hobject, -⟩ := objectCalls_run
  exact ⟨h, hrun, json_check_iff objectCalls_noCycle hrun hobject⟩

/-! ## Looking for a child -/

def json_first_child (h : JsonHeap) : Option ℕ → Option (Option ℕ)
  | none => some none
  | some node => do
    let n ← h.node node
    some (if n.tag = .array ∨ n.tag = .object then n.head else none)

def elementLoop : ℕ → JsonHeap → ℤ → ℤ → Option ℕ → Option (Option ℕ)
  | _, _, _, _, none => some none
  | 0, _, _, _, some _ => none
  | fuel + 1, h, index, i, some element =>
    if i = index then some (some element)
    else do elementLoop fuel h index (i + 1) (← h.node element).next

/-- `some none` is `NULL`. -/
def json_find_element (h : JsonHeap) (array : Option ℕ) (index : ℤ) : Option (Option ℕ) :=
  match array with
  | none => some none
  | some node => do
    if (← h.node node).tag ≠ .array then return none
    elementLoop h.fresh h index 0 (← json_first_child h (some node))

/-- The loop of `json_find_member`; `strcmp` reads the key. -/
def memberLoop : ℕ → JsonHeap → Bytes → Option ℕ → Option (Option ℕ)
  | _, _, _, none => some none
  | 0, _, _, some _ => none
  | fuel + 1, h, name, some member => do
    let n ← h.node member
    let key ← h.text (← n.key)
    if key = cString name then return some member
    memberLoop fuel h name n.next

def json_find_member (h : JsonHeap) (object : Option ℕ) (name : Bytes) : Option (Option ℕ) :=
  match object with
  | none => some none
  | some node => do
    if (← h.node node).tag ≠ .object then return none
    memberLoop h.fresh h name (← json_first_child h (some node))

def Doc.keyText (d : Doc) (x : ℕ) : Option Bytes := ((d.trees.label x).bind fun l => l.key).bind d.text

theorem kids_length_le (hd : d.Wf) (p : ℕ) : (d.trees.kids p).length ≤ d.fresh := by
  have hsubset : (d.trees.kids p).Subperm (List.range d.fresh) := by
    refine (hd.trees.nodup p).subperm fun c hc => List.mem_range.mpr ?_
    by_contra hfresh
    exact (hd.trees.live (hd.trees.mem_kids.mp hc)).1 (hd.fresh (not_lt.mp hfresh)).1
  have hlength := hsubset.length_le
  rwa [List.length_range] at hlength

theorem elementLoop_eq (hd : d.Wf) (index : ℤ) (fuel : ℕ) {as cs : List ℕ} (hkids : d.trees.kids p = as ++ cs) (hfuel : cs.length ≤ fuel) :
    elementLoop fuel d.heap index as.length cs.head? = some (if index < as.length then none else cs[(index - as.length).toNat]?) := by
  induction fuel generalizing as cs with
  | zero =>
    rw [List.length_eq_zero_iff.mp (Nat.le_zero.mp hfuel)]
    simp [elementLoop]
  | succ fuel ih =>
    cases cs with
    | nil => simp [elementLoop]
    | cons c cs =>
      obtain ⟨lc, hlc⟩ := label_of_mem (x := c) (p := p) hd.trees (by rw [hkids]; simp)
      have hnext := (child_links hd hkids lc).2.2
      have hkids' : d.trees.kids p = (as ++ [c]) ++ cs := by rw [hkids, List.append_assoc, List.singleton_append]
      have hrest := ih hkids' (Nat.le_of_succ_le_succ hfuel)
      rw [List.head?_cons, elementLoop]
      split_ifs with hi hlt hlt
      · omega
      · have hzero : (index - as.length).toNat = 0 := by omega
        rw [hzero, List.getElem?_cons_zero]
      · have hlt' : index < ((as ++ [c]).length : ℤ) := by simp; omega
        simp only [Option.bind_eq_bind, node_heap hlc, Option.bind_some, hnext]
        rw [if_pos hlt'] at hrest
        simpa using hrest
      · have hlt' : ¬ index < ((as ++ [c]).length : ℤ) := by simp; omega
        have hsucc : (index - as.length).toNat = (index - ((as ++ [c]).length : ℤ)).toNat + 1 := by simp; omega
        simp only [Option.bind_eq_bind, node_heap hlc, Option.bind_some, hnext]
        rw [if_neg hlt'] at hrest
        rw [hsucc, List.getElem?_cons_succ, ← hrest]
        simp

theorem memberLoop_eq (hd : d.Wf) (hp : d.tag p = some .object) (name : Bytes) (fuel : ℕ) {as cs : List ℕ}
    (hkids : d.trees.kids p = as ++ cs) (hfuel : cs.length ≤ fuel) :
    memberLoop fuel d.heap name cs.head? = some (cs.find? fun c => d.keyText c = some (cString name)) := by
  induction fuel generalizing as cs with
  | zero =>
    rw [List.length_eq_zero_iff.mp (Nat.le_zero.mp hfuel)]
    simp [memberLoop]
  | succ fuel ih =>
    cases cs with
    | nil => simp [memberLoop]
    | cons c cs =>
      have hmem : c ∈ d.trees.kids p := by rw [hkids]; simp
      obtain ⟨lc, hlc⟩ := label_of_mem hd.trees hmem
      have hnext := (child_links hd hkids lc).2.2
      have hkids' : d.trees.kids p = (as ++ [c]) ++ cs := by rw [hkids, List.append_assoc, List.singleton_append]
      have hrest := ih hkids' (Nat.le_of_succ_le_succ hfuel)
      -- a member has a key, and the key is a text
      obtain ⟨k, hk⟩ := Option.ne_none_iff_exists'.mp ((hd.keys hlc).mpr ⟨p, hd.trees.mem_kids.mp hmem, hp⟩)
      obtain ⟨t, ht⟩ := Option.ne_none_iff_exists'.mp (hd.owned.mpr ⟨c, (owned_self hlc).mpr (mem_texts.mpr (Or.inl hk))⟩)
      have hkey : (d.cell c lc).key = some k := hk
      have htext : d.heap.text k = some t := ht
      have hkeyText : d.keyText c = some t := by rw [Doc.keyText, hlc, Option.bind_some, hk, Option.bind_some, ht]
      rw [List.head?_cons, memberLoop]
      simp only [Option.bind_eq_bind, node_heap hlc, Option.bind_some, hkey, htext, hnext, hrest, List.find?_cons, hkeyText,
        Option.some.injEq]
      by_cases hname : t = cString name <;> simp [hname]

/-- After any run: `json_find_element` gives the element of the index, `json_find_member` the
    first member with the key, of the list that the calls made; and `NULL` for another node. -/
theorem json_find_eq {cs : List JsonCall} (hcycle : Each Doc.step Doc.NoCycle Doc.new cs) (hrun : run Doc.step Doc.new cs = some d)
    (hx : d.trees.label x = some l) :
    (∀ index, json_find_element d.heap (some x) index =
      some (if l.tag = .array ∧ 0 ≤ index then (d.trees.kids x)[index.toNat]? else none)) ∧
    ∀ name, json_find_member d.heap (some x) name =
      some (if l.tag = .object then (d.trees.kids x).find? fun c => d.keyText c = some (cString name) else none) := by
  have hd := run_wf hcycle hrun
  have hcell : (d.cell x l).tag = l.tag ∧ (d.cell x l).head = (d.trees.kids x).head? := ⟨rfl, rfl⟩
  have hkids : d.trees.kids x = [] ++ d.trees.kids x := rfl
  have hlength := kids_length_le hd x
  have hfresh : d.heap.fresh = d.fresh := rfl
  refine ⟨fun index => ?_, fun name => ?_⟩
  · simp only [json_find_element, json_first_child, Option.bind_eq_bind, node_heap hx, Option.bind_some, hcell.1, hcell.2, hfresh]
    by_cases htag : l.tag = .array
    · have hloop := elementLoop_eq hd index d.fresh hkids hlength
      simp only [htag, ne_eq, not_true_eq_false, if_false, true_or, if_true, true_and]
      refine hloop.trans (congrArg some ?_)
      by_cases hindex : 0 ≤ index
      · simp [hindex, not_lt.mpr hindex]
      · simp [hindex, not_le.mp hindex]
    · simp [htag]
  · simp only [json_find_member, json_first_child, Option.bind_eq_bind, node_heap hx, Option.bind_some, hcell.1, hcell.2, hfresh]
    by_cases htag : l.tag = .object
    · have hobject : d.tag x = some .object := by rw [Doc.tag, hx, Option.map_some, htag]
      have hloop := memberLoop_eq hd hobject name d.fresh hkids hlength
      simp only [htag, ne_eq, not_true_eq_false, if_false, or_true, if_true]
      exact hloop
    · simp [htag]

theorem json_find_eq_object : ∃ d, run Doc.step Doc.new objectCalls = some d ∧ ∃ l, d.trees.label 0 = some l ∧
    (∀ index, json_find_element d.heap (some 0) index =
      some (if l.tag = .array ∧ 0 ≤ index then (d.trees.kids 0)[index.toNat]? else none)) ∧
    ∀ name, json_find_member d.heap (some 0) name =
      some (if l.tag = .object then (d.trees.kids 0).find? fun c => d.keyText c = some (cString name) else none) := by
  obtain ⟨h, hrun, hobject, -⟩ := objectCalls_run
  rw [(calls_represent objectCalls_noCycle).1] at hrun
  obtain ⟨d, hd, rfl⟩ := Option.map_eq_some_iff.mp hrun
  obtain ⟨n, hn⟩ := Option.ne_none_iff_exists'.mp hobject
  obtain ⟨l, hl, -⟩ := Option.map_eq_some_iff.mp hn
  exact ⟨d, hd, l, hl, json_find_eq objectCalls_noCycle hd hl⟩

end FitsWebQL
