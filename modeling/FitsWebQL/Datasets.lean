/-
  FitsWebQL.Datasets — the data sets the server has open (`DATASETS`, `get_dataset`,
  `insert_dataset`), and the handlers that share them. A handler of `FITSWebQL.html`
  (`execute_fits`) asks for each of its data sets and, when there is none, makes an object,
  puts it into the map and starts a load. The other handlers only ask.

  The event loops of several threads run handlers side by side, each a locked section at a
  time. `insert` keeps what the map has, and nothing leaves the map before the server stops.

  A handler asks in one locked section and inserts in another. Between them a second handler
  that asks is told that there is nothing, too.

  Proved:
  - `found_is_entry`: in every run, whoever is told of an object is told of the map's.
  - `one_object`: in every run in which nobody misses a data set that another is about to
    insert, every data set has one object at most, loaded once at most.
  - `two_objects_for_one_data_set`: two handlers that ask one after the other.
-/

import FitsWebQL.Lib.Runs
import FitsWebQL.Lib.Tasks

namespace FitsWebQL

open Lib.Runs Lib.Tasks

abbrev DataId := String

/-- Where a handler of `execute_fits` is. At `get` it has these data sets to ask for; at
    `create`, `insert` and `load` it has missed one; at `done` it has responded. -/
inductive HandlerPoint
  | get (ids : List DataId) (has_fits : Bool)
  | create (id : DataId) (ids : List DataId)
  | insert (id : DataId) (fits : ℕ) (ids : List DataId)
  | load (id : DataId) (fits : ℕ) (ids : List DataId)
  | done (has_fits : Bool)
  deriving DecidableEq

/-- `objects` are the FITS objects made, by number, and `loads` those whose load was started,
    by their data set; `found` is what handlers were told. -/
structure Catalog where
  datasets : DataId → Option ℕ
  objects : List DataId
  loads : List DataId
  has_data : ℕ → Bool
  handlers : List HandlerPoint
  found : List (DataId × ℕ)

def Catalog.init : Catalog := ⟨fun _ => none, [], [], fun _ => false, [], []⟩

inductive CatalogStep
  /-- `execute_fits`; of a download from a URL there is one, named after it. -/
  | request (ids : List DataId)
  /-- The other handlers. -/
  | message (id : DataId)
  | next (i : ℕ)
  /-- A load that ends with data. -/
  | loaded (fits : ℕ)

def Catalog.insertDataset (s : Catalog) (id : DataId) (fits : ℕ) : Catalog :=
  { s with datasets := fun id' => if id' = id ∧ s.datasets id = none then some fits else s.datasets id' }

def Catalog.getDataset (s : Catalog) (id : DataId) : Catalog × Option ℕ :=
  match s.datasets id with
  | none => (s, none)
  | some fits => ({ s with found := (id, fits) :: s.found }, some fits)

def Catalog.goto (s : Catalog) (i : ℕ) (p : HandlerPoint) : Catalog := { s with handlers := Lib.Tasks.goto s.handlers i p }

def Catalog.next (s : Catalog) (i : ℕ) : Option Catalog :=
  match s.handlers[i]? with
  | none | some (.done _) => none
  | some (.get [] has_fits) => some (s.goto i (.done has_fits))
  | some (.get (id :: ids) has_fits) =>
    match s.getDataset id with
    | (s, none) => some (s.goto i (.create id ids))
    | (s, some fits) => some (s.goto i (.get ids (has_fits && s.has_data fits)))
  | some (.create id ids) => some ({ s with objects := s.objects ++ [id] }.goto i (.insert id s.objects.length ids))
  | some (.insert id fits ids) => some ((s.insertDataset id fits).goto i (.load id fits ids))
  | some (.load id _ ids) => some ({ s with loads := id :: s.loads }.goto i (.get ids false))

def Catalog.step (s : Catalog) : CatalogStep → Option Catalog
  | .request ids => some { s with handlers := s.handlers ++ [.get ids true] }
  | .message id => some (s.getDataset id).1
  | .next i => s.next i
  | .loaded fits => some { s with has_data := fun o => if o = fits then true else s.has_data o }

/-! ## What a step can do -/

theorem next_cases {s s' : Catalog} {i : ℕ} (h : s.next i = some s') :
    (∃ has_fits, s.handlers[i]? = some (.get [] has_fits) ∧ s' = s.goto i (.done has_fits)) ∨
    (∃ id ids has_fits, s.handlers[i]? = some (.get (id :: ids) has_fits) ∧ s.datasets id = none ∧ s' = s.goto i (.create id ids)) ∨
    (∃ id ids has_fits fits, s.handlers[i]? = some (.get (id :: ids) has_fits) ∧ s.datasets id = some fits ∧
      s' = { s with found := (id, fits) :: s.found }.goto i (.get ids (has_fits && s.has_data fits))) ∨
    (∃ id ids, s.handlers[i]? = some (.create id ids) ∧
      s' = { s with objects := s.objects ++ [id] }.goto i (.insert id s.objects.length ids)) ∨
    (∃ id fits ids, s.handlers[i]? = some (.insert id fits ids) ∧ s' = (s.insertDataset id fits).goto i (.load id fits ids)) ∨
    (∃ id fits ids, s.handlers[i]? = some (.load id fits ids) ∧ s' = { s with loads := id :: s.loads }.goto i (.get ids false)) := by
  unfold Catalog.next at h
  cases hp : s.handlers[i]? with
  | none =>
    rw [hp] at h
    cases h
  | some p =>
    rw [hp] at h
    cases p with
    | get ids has_fits =>
      cases ids with
      | nil =>
        cases h
        exact Or.inl ⟨has_fits, rfl, rfl⟩
      | cons id ids =>
        dsimp only at h
        unfold Catalog.getDataset at h
        cases hid : s.datasets id with
        | none =>
          rw [hid] at h
          cases h
          exact Or.inr (Or.inl ⟨id, ids, has_fits, rfl, hid, rfl⟩)
        | some fits =>
          rw [hid] at h
          cases h
          exact Or.inr (Or.inr (Or.inl ⟨id, ids, has_fits, fits, rfl, hid, rfl⟩))
    | create id ids =>
      cases h
      exact Or.inr (Or.inr (Or.inr (Or.inl ⟨id, ids, rfl, rfl⟩)))
    | insert id fits ids =>
      cases h
      exact Or.inr (Or.inr (Or.inr (Or.inr (Or.inl ⟨id, fits, ids, rfl, rfl⟩))))
    | load id fits ids =>
      cases h
      exact Or.inr (Or.inr (Or.inr (Or.inr (Or.inr ⟨id, fits, ids, rfl, rfl⟩))))
    | done has_fits => cases h

/-! ## What handlers are told -/

/-- The map's objects are of their data sets, and they are what handlers were told of. -/
structure Catalog.Entries (s : Catalog) : Prop where
  entry : ∀ id fits, s.datasets id = some fits → s.objects[fits]? = some id
  made : ∀ id fits ids, HandlerPoint.insert id fits ids ∈ s.handlers → s.objects[fits]? = some id
  found : ∀ id fits, (id, fits) ∈ s.found → s.datasets id = some fits

theorem entries_init : Catalog.init.Entries where
  entry id fits h := by cases h
  made id fits ids h := by cases h
  found id fits h := by cases h

section
variable {s : Catalog} {i : ℕ} {p : HandlerPoint}

/-- A handler that does not come to insert an object changes nothing of this. -/
theorem entries_goto (h : s.Entries) (hp : ∀ id fits ids, p = .insert id fits ids → s.objects[fits]? = some id) :
    (s.goto i p).Entries where
  entry := h.entry
  made id fits ids hmem := by
    rcases mem_goto hmem with hmem | hmem
    · exact h.made id fits ids hmem
    · exact hp id fits ids hmem.symm
  found := h.found

/-- A handler is told of the map's object. -/
theorem entries_found (h : s.Entries) {id : DataId} {fits : ℕ} (hid : s.datasets id = some fits) :
    ({ s with found := (id, fits) :: s.found } : Catalog).Entries where
  entry := h.entry
  made := h.made
  found id' fits' hmem := by
    rcases List.mem_cons.mp hmem with heq | hmem
    · cases heq
      exact hid
    · exact h.found id' fits' hmem

theorem entries_create (h : s.Entries) (id : DataId) : ({ s with objects := s.objects ++ [id] } : Catalog).Entries where
  entry id' fits hid := by
    have hold := h.entry id' fits hid
    show (s.objects ++ [id])[fits]? = some id'
    rw [List.getElem?_append_left (List.getElem?_eq_some_iff.mp hold).1]
    exact hold
  made id' fits ids hmem := by
    have hold := h.made id' fits ids hmem
    show (s.objects ++ [id])[fits]? = some id'
    rw [List.getElem?_append_left (List.getElem?_eq_some_iff.mp hold).1]
    exact hold
  found := h.found

/-- `insert` keeps what the map has. -/
theorem insertDataset_keep {id id' : DataId} {fits fits' : ℕ} (hid : s.datasets id' = some fits') :
    (s.insertDataset id fits).datasets id' = some fits' := by
  show (if id' = id ∧ s.datasets id = none then some fits else s.datasets id') = some fits'
  rw [if_neg]
  · exact hid
  · rintro ⟨rfl, hnone⟩
    rw [hnone] at hid
    cases hid

theorem entries_insert (h : s.Entries) {id : DataId} {fits : ℕ} (hobj : s.objects[fits]? = some id) :
    (s.insertDataset id fits).Entries where
  entry id' fits' hid := by
    change (if id' = id ∧ s.datasets id = none then some fits else s.datasets id') = some fits' at hid
    show s.objects[fits']? = some id'
    split at hid
    · rename_i hnew
      cases hid
      rw [hnew.1]
      exact hobj
    · exact h.entry id' fits' hid
  made := h.made
  found id' fits' hmem := insertDataset_keep (h.found id' fits' hmem)

end

theorem entries_step {s s' : Catalog} {e : CatalogStep} (h : s.Entries) (hs : s.step e = some s') : s'.Entries := by
  cases e with
  | request ids =>
    cases hs
    refine ⟨h.entry, fun id fits ids' hmem => ?_, h.found⟩
    rcases List.mem_append.mp hmem with hmem | hmem
    · exact h.made id fits ids' hmem
    · cases List.mem_singleton.mp hmem
  | message id =>
    cases hs
    unfold Catalog.getDataset
    cases hid : s.datasets id with
    | none => exact h
    | some fits => exact entries_found h hid
  | next i =>
    rcases next_cases hs with ⟨has_fits, -, rfl⟩ | ⟨id, ids, has_fits, -, -, rfl⟩ | ⟨id, ids, has_fits, fits, -, hid, rfl⟩ |
      ⟨id, ids, -, rfl⟩ | ⟨id, fits, ids, hp, rfl⟩ | ⟨id, fits, ids, -, rfl⟩
    · exact entries_goto h fun _ _ _ hp => by cases hp
    · exact entries_goto h fun _ _ _ hp => by cases hp
    · exact entries_goto (entries_found h hid) fun _ _ _ hp => by cases hp
    · refine entries_goto (entries_create h id) fun id' fits ids' hp => ?_
      cases hp
      exact List.getElem?_concat_length
    · exact entries_goto (entries_insert h (h.made id fits ids (List.mem_of_getElem? hp))) fun _ _ _ hp => by cases hp
    · exact entries_goto (s := { s with loads := id :: s.loads }) ⟨h.entry, h.made, h.found⟩ fun _ _ _ hp => by cases hp
  | loaded fits =>
    cases hs
    exact ⟨h.entry, h.made, h.found⟩

/-- Whoever asks for a data set that is in the map, and asks in whatever order, is told of the
    same object. -/
theorem found_is_entry (steps : List CatalogStep) {s : Catalog} (h : run Catalog.step Catalog.init steps = some s)
    {id : DataId} {fits : ℕ} (hmem : (id, fits) ∈ s.found) : s.datasets id = some fits :=
  (run_keeps Catalog.Entries (fun _ _ _ h hs => entries_step h hs) steps entries_init h).found id fits hmem

/-! ## One object -/

def HandlerPoint.creates (id : DataId) : HandlerPoint → Bool
  | .create id' _ => id' = id
  | _ => false

/-- The handler has missed the data set and has not inserted its object yet. -/
def HandlerPoint.pends (id : DataId) : HandlerPoint → Bool
  | .create id' _ | .insert id' _ _ => id' = id
  | _ => false

/-- The handler has an object of the data set whose load it has not started yet. -/
def HandlerPoint.holds (id : DataId) : HandlerPoint → Bool
  | .insert id' _ _ | .load id' _ _ => id' = id
  | _ => false

/-- Nobody misses a data set that another has missed and not inserted yet. -/
def Catalog.Alone (s : Catalog) : Option HandlerPoint → Prop
  | some (.get (id :: _) _) => s.datasets id = none → ∀ p ∈ s.handlers, p.pends id = false
  | _ => True

instance (s : Catalog) : ∀ p : Option HandlerPoint, Decidable (s.Alone p)
  | some (.get (_ :: _) _) => inferInstanceAs (Decidable (_ → _))
  | none | some (.get [] _) | some (.create _ _) | some (.insert _ _ _) | some (.load _ _ _) | some (.done _) => isTrue trivial

def Catalog.MissesAlone (s : Catalog) : CatalogStep → Prop
  | .next i => s.Alone s.handlers[i]?
  | _ => True

instance (s : Catalog) : ∀ e : CatalogStep, Decidable (s.MissesAlone e)
  | .next i => inferInstanceAs (Decidable (s.Alone s.handlers[i]?))
  | .request _ | .message _ | .loaded _ => isTrue trivial

/-- A data set has one object at most, whose load was started once at most, and all that were
    told of one were told of the same. -/
structure Catalog.OneObject (s : Catalog) : Prop where
  created : ∀ id, s.objects.count id ≤ 1
  loaded : ∀ id, s.loads.count id ≤ 1
  found : ∀ id fits, (id, fits) ∈ s.found → s.datasets id = some fits ∧ s.objects[fits]? = some id

/-- Every object made is loaded or about to be; of a data set that is not in the map all are
    about to be inserted; and there is one at most, or about to be one. -/
structure Catalog.Counts (s : Catalog) : Prop where
  held : ∀ id, s.objects.count id = s.loads.count id + s.handlers.countP (HandlerPoint.holds id)
  pending : ∀ id, s.datasets id = none →
    s.objects.count id + s.handlers.countP (HandlerPoint.creates id) = s.handlers.countP (HandlerPoint.pends id)
  one : ∀ id, s.objects.count id + s.handlers.countP (HandlerPoint.creates id) ≤ 1

theorem counts_init : Catalog.init.Counts := ⟨fun _ => rfl, fun _ _ => rfl, fun _ => Nat.zero_le 1⟩

theorem count_snoc (l : List DataId) (id id' : DataId) : (l ++ [id']).count id = l.count id + if id' = id then 1 else 0 := by
  rw [List.count_append, List.count_singleton]
  simp only [beq_iff_eq]

section
variable {s s' : Catalog} {i : ℕ} {p p' : HandlerPoint}

/-- What was made and is about to be made stays one while a handler goes on. -/
theorem one_moved (h : s.Counts) (hp : s.handlers[i]? = some p) (hgoto : s'.handlers = goto s.handlers i p') {id : DataId}
    (hmade : s'.objects.count id + one (HandlerPoint.creates id) p' = s.objects.count id + one (HandlerPoint.creates id) p) :
    s'.objects.count id + s'.handlers.countP (HandlerPoint.creates id) ≤ 1 := by
  have hone := h.one id
  have hcount := countP_goto hp (HandlerPoint.creates id) p'
  rw [hgoto]
  omega

/-- A handler goes on: what is counted of it before and after tells. -/
theorem counts_moved (h : s.Counts) (hp : s.handlers[i]? = some p) (hgoto : s'.handlers = goto s.handlers i p')
    (hheld : ∀ id, s'.objects.count id + s.loads.count id + one (HandlerPoint.holds id) p =
      s.objects.count id + s'.loads.count id + one (HandlerPoint.holds id) p')
    (hpending : ∀ id, s'.datasets id = none → s.datasets id = none ∧
      s'.objects.count id + one (HandlerPoint.creates id) p' + one (HandlerPoint.pends id) p =
        s.objects.count id + one (HandlerPoint.creates id) p + one (HandlerPoint.pends id) p')
    (hone : ∀ id, s'.objects.count id + s'.handlers.countP (HandlerPoint.creates id) ≤ 1) : s'.Counts := by
  refine ⟨fun id => ?_, fun id hid => ?_, hone⟩
  · have hbefore := h.held id
    have hcount := countP_goto hp (HandlerPoint.holds id) p'
    have hmoved := hheld id
    rw [hgoto]
    omega
  · obtain ⟨hid, hmoved⟩ := hpending id hid
    have hbefore := h.pending id hid
    have hcreates := countP_goto hp (HandlerPoint.creates id) p'
    have hpends := countP_goto hp (HandlerPoint.pends id) p'
    rw [hgoto]
    omega

/-- A handler that goes on between points of which nothing is counted. -/
theorem counts_goto (h : s.Counts) (hp : s.handlers[i]? = some p) (hholds : ∀ id, p.holds id = p'.holds id)
    (hcreates : ∀ id, p.creates id = p'.creates id) (hpends : ∀ id, p.pends id = p'.pends id) : (s.goto i p').Counts := by
  refine counts_moved h hp rfl (fun id => ?_) (fun id hid => ⟨hid, ?_⟩) fun id => one_moved h hp rfl ?_
  · unfold one
    rw [hholds]
    rfl
  · unfold one
    rw [hcreates, hpends]
    rfl
  · unfold one
    rw [hcreates]
    rfl

/-- A handler misses a data set that nobody else has missed. -/
theorem counts_miss (h : s.Counts) {id : DataId} {ids : List DataId} {has_fits : Bool}
    (hp : s.handlers[i]? = some (.get (id :: ids) has_fits)) (hid : s.datasets id = none)
    (halone : ∀ p ∈ s.handlers, p.pends id = false) : (s.goto i (.create id ids)).Counts := by
  refine counts_moved h hp rfl (fun id' => rfl) (fun id' hid' => ⟨hid', rfl⟩) fun id' => ?_
  by_cases heq : id = id'
  · subst heq
    have hnobody : s.handlers.countP (HandlerPoint.pends id) = 0 := by
      rw [List.countP_eq_zero]
      intro p hmem
      rw [halone p hmem]
      exact Bool.false_ne_true
    -- so there is no object, and nobody else is about to make one
    have hpending := h.pending id hid
    have hcount := countP_goto hp (HandlerPoint.creates id) (.create id ids)
    have hone : one (HandlerPoint.creates id) (.create id ids) ≤ 1 := one_le _ _
    show s.objects.count id + (goto s.handlers i _).countP _ ≤ 1
    omega
  · refine one_moved h hp rfl ?_
    simp only [one, HandlerPoint.creates, decide_eq_false heq]
    rfl

/-- The object is made. -/
theorem counts_create (h : s.Counts) {id : DataId} {ids : List DataId} (fits : ℕ)
    (hp : s.handlers[i]? = some (.create id ids)) :
    ({ s with objects := s.objects ++ [id] }.goto i (.insert id fits ids)).Counts := by
  refine counts_moved h hp rfl (fun id' => ?_) (fun id' hid' => ⟨hid', ?_⟩) fun id' => one_moved h hp rfl ?_
  · show (s.objects ++ [id]).count id' + s.loads.count id' + _ = s.objects.count id' + s.loads.count id' + _
    simp only [count_snoc, one, HandlerPoint.holds, decide_eq_true_eq, Bool.false_eq_true, if_false]
    omega
  · show (s.objects ++ [id]).count id' + _ + _ = _
    simp only [count_snoc, one, HandlerPoint.creates, HandlerPoint.pends, decide_eq_true_eq, Bool.false_eq_true, if_false]
    omega
  · show (s.objects ++ [id]).count id' + _ = _
    simp only [count_snoc, one, HandlerPoint.creates, decide_eq_true_eq, Bool.false_eq_true, if_false]
    omega

/-- The object is in the map, or one is that was there before. -/
theorem counts_insert (h : s.Counts) {id : DataId} {fits : ℕ} {ids : List DataId}
    (hp : s.handlers[i]? = some (.insert id fits ids)) : ((s.insertDataset id fits).goto i (.load id fits ids)).Counts := by
  refine counts_moved h hp rfl (fun id' => rfl) (fun id' hid' => ?_) fun id' => one_moved h hp rfl ?_
  · -- only of another data set is there still nothing in the map
    change (if id' = id ∧ s.datasets id = none then some fits else s.datasets id') = none at hid'
    split at hid'
    · cases hid'
    · rename_i hother
      have hne : ¬ id = id' := fun heq => hother ⟨heq.symm, heq ▸ hid'⟩
      refine ⟨hid', ?_⟩
      simp only [one, HandlerPoint.creates, HandlerPoint.pends, decide_eq_false hne]
      rfl
  · rfl

/-- The load is started. -/
theorem counts_load (h : s.Counts) {id : DataId} {fits : ℕ} {ids : List DataId}
    (hp : s.handlers[i]? = some (.load id fits ids)) : ({ s with loads := id :: s.loads }.goto i (.get ids false)).Counts := by
  refine counts_moved h hp rfl (fun id' => ?_) (fun id' hid' => ⟨hid', rfl⟩) fun id' => one_moved h hp rfl ?_
  · show s.objects.count id' + s.loads.count id' + _ = s.objects.count id' + (id :: s.loads).count id' + _
    simp only [List.count_cons, beq_iff_eq, one, HandlerPoint.holds, decide_eq_true_eq, Bool.false_eq_true, if_false]
    omega
  · rfl

end

theorem counts_step {s s' : Catalog} {e : CatalogStep} (h : s.Counts) (halone : s.MissesAlone e) (hs : s.step e = some s') :
    s'.Counts := by
  cases e with
  | request ids =>
    cases hs
    have hsnoc : ∀ kind : HandlerPoint → Bool, kind (.get ids true) = false →
        (s.handlers ++ [HandlerPoint.get ids true]).countP kind = s.handlers.countP kind := by
      intro kind hkind
      rw [countP_snoc, one, hkind, if_neg Bool.false_ne_true, Nat.add_zero]
    refine ⟨fun id => ?_, fun id hid => ?_, fun id => ?_⟩
    · exact (h.held id).trans (congrArg _ (hsnoc (HandlerPoint.holds id) rfl).symm)
    · show _ + (s.handlers ++ [_]).countP _ = (s.handlers ++ [_]).countP _
      rw [hsnoc (HandlerPoint.creates id) rfl, hsnoc (HandlerPoint.pends id) rfl]
      exact h.pending id hid
    · show _ + (s.handlers ++ [_]).countP _ ≤ 1
      rw [hsnoc (HandlerPoint.creates id) rfl]
      exact h.one id
  | message id =>
    cases hs
    unfold Catalog.getDataset
    cases hid : s.datasets id with
    | none => exact h
    | some fits => exact ⟨h.held, h.pending, h.one⟩
  | next i =>
    rcases next_cases hs with ⟨has_fits, hp, rfl⟩ | ⟨id, ids, has_fits, hp, hid, rfl⟩ | ⟨id, ids, has_fits, fits, hp, -, rfl⟩ |
      ⟨id, ids, hp, rfl⟩ | ⟨id, fits, ids, hp, rfl⟩ | ⟨id, fits, ids, hp, rfl⟩
    · exact counts_goto h hp (fun _ => rfl) (fun _ => rfl) fun _ => rfl
    · unfold Catalog.MissesAlone at halone
      dsimp only at halone
      rw [hp] at halone
      exact counts_miss h hp hid (halone hid)
    · have hfound : ({ s with found := (id, fits) :: s.found } : Catalog).Counts := ⟨h.held, h.pending, h.one⟩
      exact counts_goto hfound hp (fun _ => rfl) (fun _ => rfl) fun _ => rfl
    · exact counts_create h s.objects.length hp
    · exact counts_insert h hp
    · exact counts_load h hp
  | loaded fits =>
    cases hs
    exact ⟨h.held, h.pending, h.one⟩

/-- In whatever order handlers take their steps: as long as nobody misses a data set that
    another is about to insert, every data set has one object, which all that ask are told of. -/
theorem one_object (steps : List CatalogStep) (s : Catalog)
    (halone : Each Catalog.step Catalog.MissesAlone Catalog.init steps) (h : run Catalog.step Catalog.init steps = some s) :
    s.OneObject := by
  have hcounts : s.Counts := run_invariant Catalog.Counts (fun _ _ _ h hp hs => counts_step h hp hs) steps counts_init halone h
  have hentries : s.Entries := run_keeps Catalog.Entries (fun _ _ _ h hs => entries_step h hs) steps entries_init h
  refine ⟨fun id => ?_, fun id => ?_, fun id fits hmem => ?_⟩
  · have hone := hcounts.one id
    omega
  · have hone := hcounts.one id
    have hheld := hcounts.held id
    omega
  · have hfound := hentries.found id fits hmem
    exact ⟨hfound, hentries.entry id fits hfound⟩

/-! ## Two handlers -/

def oneAfterTheOther (id : DataId) : List CatalogStep :=
  .request [id] :: List.replicate 5 (.next 0) ++ [.request [id], .next 1, .next 1]

theorem one_object_one_after_the_other :
    ∃ s, run Catalog.step Catalog.init (oneAfterTheOther "a") = some s ∧ s.found = [("a", 0)] ∧ s.OneObject := by
  have hrun : (run Catalog.step Catalog.init (oneAfterTheOther "a")).map Catalog.found = some [("a", 0)] := by decide +kernel
  obtain ⟨s, hs, hfound⟩ := Option.map_eq_some_iff.mp hrun
  exact ⟨s, hs, hfound, one_object _ s (by decide +kernel) hs⟩

/-- Two handlers ask before either has inserted: two objects of one data set are loaded. -/
theorem two_objects_for_one_data_set :
    ¬ ∀ (steps : List CatalogStep) (s : Catalog), run Catalog.step Catalog.init steps = some s → s.OneObject := by
  have hrun : (run Catalog.step Catalog.init [.request ["a"], .request ["a"], .next 0, .next 1, .next 0, .next 0, .next 0,
      .next 1, .next 1, .next 1]).map (fun s => (s.objects, s.loads)) = some (["a", "a"], ["a", "a"]) := by
    decide +kernel
  obtain ⟨s, hs, hobjects⟩ := Option.map_eq_some_iff.mp hrun
  rw [Prod.mk.injEq] at hobjects
  intro h
  have hone := (h _ s hs).created "a"
  rw [hobjects.1] at hone
  revert hone
  decide

end FitsWebQL
