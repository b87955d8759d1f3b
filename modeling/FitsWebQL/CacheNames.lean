/-
  FitsWebQL.CacheNames — what `execute_fits` calls a data set (`main_uWS.cpp`), and the
  files of `.cache` that an object reads and writes under that name (`fits.cpp`).

  A query names a URL or some data sets. A URL is known by its UUID. A data set is known by
  the name in the query alone, wherever it is: in the directory and with the extension the
  query gives, in the JVO database and table it gives, or on the JVO server. In a file name
  every '/' is written '_'.

  Proved: two names share a file exactly when they are mixed up (`fileName_eq_iff`), so two
  queries keep apart exactly when no two of their names for different sources are
  (`apart_iff`), and then, over any history of queries, everyone is served his own source
  (`served_own_source`). Two directories with a file of one name do not keep apart
  (`one_name_in_two_directories`).
-/

import FitsWebQL.Header
import FitsWebQL.Lib.Printf

namespace FitsWebQL

open Lib.Printf

def FITSHOME : Bytes := lit "/home"
def JVO_FITS_SERVER : Bytes := lit "jvox.vo.nao.ac.jp"
def JVO_FITS_DB : Bytes := lit "alma"

/-! ## Queries -/

inductive Source
  | from_path (path : Bytes)
  | from_url (url : Bytes)
  deriving DecidableEq

/-- The parameters of `FITSWebQL.html`, `filename` among the data sets. A text that was
    unescaped ends before its first NUL. -/
structure FitsQuery where
  url : Bytes
  dir : Bytes
  ext : Bytes
  db : Bytes
  table : Bytes
  datasets : List Bytes

structure Outside where
  /-- The SHA-1 UUID of a URL, printed. -/
  uuid : Bytes → Bytes
  /-- A connection answers a query with the path in the first row, unless the query fails.
      In a LOCAL build there is none. -/
  jvo_db_connect : Bytes → Option (Bytes → Option Bytes)
  /-- `boost::replace_all_copy(input, search, format)`. -/
  replace_all_copy : Bytes → Bytes → Bytes → Bytes
  /-- Every occurrence is replaced; here, of one character by another. -/
  replaces : ∀ input c d, replace_all_copy input [c] [d] = input.map fun x => if x = c then d else x

def to_upper_copy (s : Bytes) : Bytes := s.map fun c => if 97 ≤ c ∧ c ≤ 122 then c - 32 else c

def get_jvo_path (PQexec : Bytes → Option Bytes) (db table data_id : Bytes) : Bytes :=
  match PQexec (lit "SELECT path FROM " ++ table ++ lit " WHERE data_id = '" ++ data_id ++ lit "';") with
  | none => []
  | some value =>
    FITSHOME ++ lit "/" ++ db ++ lit "/" ++
      if table.contains 46 then to_upper_copy (table.takeWhile (· ≠ 46)) ++ lit "/" ++ value else value

def FitsQuery.jvo_db (out : Outside) (q : FitsQuery) : Option (Bytes → Option Bytes) :=
  if q.db ≠ [] then out.jvo_db_connect q.db else none

def FitsQuery.path (out : Outside) (q : FitsQuery) (data_id : Bytes) : Bytes :=
  let path := if q.dir ≠ [] ∧ q.ext ≠ [] then q.dir ++ lit "/" ++ data_id ++ lit "." ++ q.ext else []
  match q.jvo_db out with
  | none => path
  | some PQexec => if q.table ≠ [] then get_jvo_path PQexec q.db q.table data_id else path

def FitsQuery.source (out : Outside) (q : FitsQuery) (data_id : Bytes) : Source :=
  if q.path out data_id ≠ [] then .from_path (q.path out data_id)
  else .from_url (lit "http://" ++ JVO_FITS_SERVER ++ lit ":8060/skynode/getDataForALMA.do?db=" ++ JVO_FITS_DB ++
    lit "&table=cube&data_id=" ++ data_id ++ lit "_00_00_00")

def FitsQuery.opened (out : Outside) (q : FitsQuery) : List (Bytes × Source) :=
  if q.url ≠ [] then [(out.uuid q.url, .from_url q.url)] else q.datasets.map fun data_id => (data_id, q.source out data_id)

/-- `get_dataset`, and a new object when there is none. -/
def openDataset (datasets : List (Bytes × Source)) (e : Bytes × Source) : List (Bytes × Source) :=
  match datasets.lookup e.1 with
  | none => e :: datasets
  | some _ => datasets

def execute_fits (out : Outside) (datasets : List (Bytes × Source)) (q : FitsQuery) : List (Bytes × Source) :=
  (q.opened out).foldl openDataset datasets

/-! ## Files -/

/-- The files an object uses: its members and, until it is complete, their copy; the image
    and its mask; a download, finished or not; the two directories of compressed blocks and a
    file in them. -/
inductive CacheFile
  | json
  | jsonTmp
  | pixels
  | mask
  | fits
  | tmp
  | zfp
  | lz4
  | zfpBlocks (zfp_idz : ℕ)
  | lz4Blocks (lz4_idz : ℕ)

def CacheFile.ending : CacheFile → Bytes
  | .json => lit ".json.gz"
  | .jsonTmp => lit ".json.gz.tmp"
  | .pixels => lit ".pixels"
  | .mask => lit ".mask"
  | .fits => lit ".fits"
  | .tmp => lit ".tmp"
  | .zfp => lit ".zfp"
  | .lz4 => lit ".lz4"
  | .zfpBlocks idz => lit ".zfp/" ++ digits idz ++ lit ".bin"
  | .lz4Blocks idz => lit ".lz4/" ++ digits idz ++ lit ".bin"

section Names

variable (out : Outside)

def replaceSlashes (dataset_id : Bytes) : Bytes := out.replace_all_copy dataset_id [47] [95]

def fileName (dataset_id : Bytes) (f : CacheFile) : Bytes := lit ".cache/" ++ (replaceSlashes out dataset_id ++ f.ending)

/-! ## Names that share a file -/

/-- One byte, or a '/' and a '_'. -/
def SameLetter (c d : UInt8) : Prop := c = d ∨ (c = 47 ∨ c = 95) ∧ (d = 47 ∨ d = 95)

/-- One name up to '/' and '_', possibly with ".json.gz" after one of them. -/
def MixedUp (x y : Bytes) : Prop :=
  List.Forall₂ SameLetter x y ∨ List.Forall₂ SameLetter (x ++ lit ".json.gz") y ∨ List.Forall₂ SameLetter x (y ++ lit ".json.gz")

theorem replaceSlashes_map (x : Bytes) : replaceSlashes out x = x.map fun c => if c = 47 then 95 else c := out.replaces x 47 95

theorem replaceSlashes_eq_iff {x y : Bytes} : replaceSlashes out x = replaceSlashes out y ↔ List.Forall₂ SameLetter x y := by
  rw [replaceSlashes_map, replaceSlashes_map]
  induction x generalizing y with
  | nil => cases y <;> simp
  | cons c x ih =>
    cases y with
    | nil => simp
    | cons d y =>
      rw [List.map_cons, List.map_cons, List.cons.injEq, List.forall₂_cons, ih]
      refine and_congr_left fun _ => ?_
      unfold SameLetter
      by_cases hc : c = 47
      · by_cases hd : d = 47
        · simp [hc, hd]
        · simp only [hc, hd]
          grind
      · by_cases hd : d = 47
        · simp only [hc, hd]
          grind
        · simp only [hc, hd]
          grind

theorem slash_notMem (x : Bytes) : (47 : UInt8) ∉ replaceSlashes out x := by
  rw [replaceSlashes_map]
  intro h
  rcases List.mem_map.mp h with ⟨c, -, hc⟩
  split at hc
  · exact absurd hc (by decide)
  · exact absurd hc (by assumption)

theorem replaceSlashes_append (x y : Bytes) : replaceSlashes out (x ++ y) = replaceSlashes out x ++ replaceSlashes out y := by
  rw [replaceSlashes_map, replaceSlashes_map, replaceSlashes_map, List.map_append]

theorem mixedUp_iff {x y : Bytes} :
    MixedUp x y ↔ replaceSlashes out x = replaceSlashes out y ∨ replaceSlashes out x ++ lit ".json.gz" = replaceSlashes out y ∨
      replaceSlashes out x = replaceSlashes out y ++ lit ".json.gz" := by
  have hjson : replaceSlashes out (lit ".json.gz") = lit ".json.gz" := by
    rw [replaceSlashes_map]
    decide
  unfold MixedUp
  rw [← replaceSlashes_eq_iff out, ← replaceSlashes_eq_iff out, ← replaceSlashes_eq_iff out, replaceSlashes_append, replaceSlashes_append,
    hjson]

theorem SameLetter.symm {c d : UInt8} (h : SameLetter c d) : SameLetter d c := by
  rcases h with rfl | ⟨hc, hd⟩
  · exact Or.inl rfl
  · exact Or.inr ⟨hd, hc⟩

theorem MixedUp.symm {x y : Bytes} (h : MixedUp x y) : MixedUp y x := by
  have hflip : ∀ {x y : Bytes}, List.Forall₂ SameLetter x y → List.Forall₂ SameLetter y x :=
    fun h => (h.imp fun _ _ => SameLetter.symm).flip
  rcases h with h | h | h
  · exact Or.inl (hflip h)
  · exact Or.inr (Or.inr (hflip h))
  · exact Or.inr (Or.inl (hflip h))

/-! ## Endings -/

def CacheFile.stem : CacheFile → Bytes
  | .json => lit ".json.gz"
  | .jsonTmp => lit ".json.gz.tmp"
  | .pixels => lit ".pixels"
  | .mask => lit ".mask"
  | .fits => lit ".fits"
  | .tmp => lit ".tmp"
  | .zfp => lit ".zfp"
  | .lz4 => lit ".lz4"
  | .zfpBlocks _ => lit ".zfp"
  | .lz4Blocks _ => lit ".lz4"

def stems : List Bytes :=
  [lit ".json.gz", lit ".json.gz.tmp", lit ".pixels", lit ".mask", lit ".fits", lit ".tmp", lit ".zfp", lit ".lz4"]

theorem stem_mem (f : CacheFile) : f.stem ∈ stems := by
  cases f <;> simp [CacheFile.stem, stems]

/-- Only one stem ends another. -/
theorem stems_suffix : ∀ s ∈ stems, ∀ s' ∈ stems, s <:+ s' → s = s' ∨ s = lit ".tmp" ∧ s' = lit ".json.gz.tmp" := by
  decide

theorem stems_slash : ∀ s ∈ stems, (47 : UInt8) ∉ s := by
  decide

theorem takeWhile_ending {x : Bytes} (hx : (47 : UInt8) ∉ x) (f : CacheFile) :
    (x ++ f.ending).takeWhile (· ≠ 47) = x ++ f.stem := by
  have hall : ∀ c ∈ x ++ f.stem, decide (c ≠ 47) = true := by
    intro c hc
    rw [decide_eq_true_eq]
    rintro rfl
    rcases List.mem_append.mp hc with h | h
    · exact hx h
    · exact stems_slash _ (stem_mem f) h
  obtain ⟨rest, hrest, hstop⟩ : ∃ rest, f.ending = f.stem ++ rest ∧ rest.takeWhile (· ≠ (47 : UInt8)) = [] := by
    cases f with
    | zfpBlocks idz => exact ⟨lit "/" ++ (digits idz ++ lit ".bin"), rfl, rfl⟩
    | lz4Blocks idz => exact ⟨lit "/" ++ (digits idz ++ lit ".bin"), rfl, rfl⟩
    | _ => exact ⟨[], (List.append_nil _).symm, rfl⟩
  rw [hrest, ← List.append_assoc, List.takeWhile_append_of_pos hall, hstop, List.append_nil]

/-- Of two stems that end one text, one ends the other. -/
theorem append_stem {x y s s' : Bytes} (hs : s ∈ stems) (hs' : s' ∈ stems) (h : x ++ s = y ++ s')
    (hle : s.length ≤ s'.length) : x = y ∨ x = y ++ lit ".json.gz" := by
  have hsuffix : s <:+ s' :=
    List.suffix_of_suffix_length_le (List.suffix_append x s) (h ▸ List.suffix_append y s') hle
  rcases stems_suffix s hs s' hs' hsuffix with rfl | ⟨rfl, rfl⟩
  · exact Or.inl (List.append_cancel_right h)
  · right
    have hsplit : lit ".json.gz.tmp" = lit ".json.gz" ++ lit ".tmp" := by decide
    rw [hsplit, ← List.append_assoc] at h
    exact List.append_cancel_right h

theorem fileName_eq_iff {x y : Bytes} : (∃ f f', fileName out x f = fileName out y f') ↔ MixedUp x y := by
  rw [mixedUp_iff out]
  constructor
  · rintro ⟨f, f', h⟩
    have htexts := List.append_cancel_left h
    have hstems := congrArg (List.takeWhile (· ≠ (47 : UInt8))) htexts
    rw [takeWhile_ending (slash_notMem out x), takeWhile_ending (slash_notMem out y)] at hstems
    rcases le_total f.stem.length f'.stem.length with hle | hle
    · rcases append_stem (stem_mem f) (stem_mem f') hstems hle with h | h
      · exact Or.inl h
      · exact Or.inr (Or.inr h)
    · rcases append_stem (stem_mem f') (stem_mem f) hstems.symm hle with h | h
      · exact Or.inl h.symm
      · exact Or.inr (Or.inl h.symm)
  · have hsplit : lit ".json.gz.tmp" = lit ".json.gz" ++ lit ".tmp" := by decide
    rintro (h | h | h)
    · exact ⟨.json, .json, by rw [fileName, fileName, h]⟩
    · refine ⟨.jsonTmp, .tmp, ?_⟩
      rw [fileName, fileName, ← h, CacheFile.ending, CacheFile.ending, hsplit, List.append_assoc]
    · refine ⟨.tmp, .jsonTmp, ?_⟩
      rw [fileName, fileName, h, CacheFile.ending, CacheFile.ending, hsplit, List.append_assoc]

end Names

/-! ## Two queries -/

variable {α : Type} (what : Source → α) (out : Outside)

/-- Of two sources that are not the same thing, the ids and the files differ. -/
def KeptApart (e e' : Bytes × Source) : Prop := what e.2 ≠ what e'.2 → e.1 ≠ e'.1 ∧ ∀ f f', fileName out e.1 f ≠ fileName out e'.1 f'

/-- Each data set the query opened is found under its id, and is what the query asked for. -/
def Served (datasets : List (Bytes × Source)) (q : FitsQuery) : Prop :=
  ∀ e ∈ q.opened out, ∃ source, datasets.lookup e.1 = some source ∧ what source = what e.2

theorem keptApart_iff {e e' : Bytes × Source} : KeptApart what out e e' ↔ (what e.2 ≠ what e'.2 → ¬ MixedUp e.1 e'.1) := by
  unfold KeptApart
  refine forall_congr' fun _ => ?_
  rw [← fileName_eq_iff out]
  constructor
  · rintro ⟨-, hfiles⟩ ⟨f, f', h⟩
    exact hfiles f f' h
  · intro h
    refine ⟨?_, fun f f' heq => h ⟨f, f', heq⟩⟩
    intro hid
    exact h ⟨.json, .json, by rw [hid]⟩

def FitsQuery.names (q : FitsQuery) : List Bytes := if q.url ≠ [] then [out.uuid q.url] else q.datasets

def FitsQuery.means (q : FitsQuery) (name : Bytes) : Source := if q.url ≠ [] then .from_url q.url else q.source out name

theorem opened_eq (q : FitsQuery) : q.opened out = (q.names out).map fun name => (name, q.means out name) := by
  unfold FitsQuery.opened FitsQuery.names FitsQuery.means
  by_cases h : q.url ≠ []
  · simp [h]
  · simp [h]

theorem lookup_first (e : Bytes × Source) (es : List (Bytes × Source)) (data_id : Bytes) :
    (e :: es).lookup data_id = if data_id = e.1 then some e.2 else es.lookup data_id := by
  obtain ⟨id, source⟩ := e
  by_cases h : data_id = id
  · simp [h]
  · have hne : (data_id == id) = false := by simp [h]
    simp [List.lookup_cons, h, hne]

/-- Whatever was there first stays. -/
theorem lookup_openDatasets (es datasets : List (Bytes × Source)) (data_id : Bytes) :
    (es.foldl openDataset datasets).lookup data_id = (datasets.lookup data_id).or (es.lookup data_id) := by
  induction es generalizing datasets with
  | nil => simp
  | cons e es ih =>
    rw [List.foldl_cons, ih, openDataset, lookup_first]
    by_cases hid : data_id = e.1
    · cases hlookup : datasets.lookup e.1 with
      | none => simp [lookup_first, hid, hlookup]
      | some source => simp [hid, hlookup]
    · cases hlookup : datasets.lookup e.1 with
      | none => simp [lookup_first, hid]
      | some source => simp [hid]

theorem lookup_history (queries : List FitsQuery) (datasets : List (Bytes × Source)) (data_id : Bytes) :
    (queries.foldl (execute_fits out) datasets).lookup data_id =
      (datasets.lookup data_id).or ((queries.flatMap (·.opened out)).lookup data_id) := by
  induction queries generalizing datasets with
  | nil => simp
  | cons q queries ih =>
    rw [List.foldl_cons, ih, execute_fits, lookup_openDatasets, List.flatMap_cons, List.lookup_append, Option.or_assoc]

/-- Under the id of an opened data set something is found, and it was opened under that id. -/
theorem lookup_opened {es : List (Bytes × Source)} {e : Bytes × Source} (he : e ∈ es) :
    ∃ source, es.lookup e.1 = some source ∧ (e.1, source) ∈ es := by
  induction es with
  | nil => simp at he
  | cons first es ih =>
    by_cases hid : e.1 = first.1
    · exact ⟨first.2, by simp [lookup_first, hid], by simp [hid]⟩
    · rcases List.mem_cons.mp he with rfl | he
      · exact absurd rfl hid
      · obtain ⟨source, hlookup, hmem⟩ := ih he
        exact ⟨source, by simp [lookup_first, hid, hlookup], List.mem_cons_of_mem _ hmem⟩

def NamesApart (q q' : FitsQuery) : Prop :=
  ∀ x ∈ q.names out, ∀ y ∈ q'.names out, what (q.means out x) ≠ what (q'.means out y) → ¬ MixedUp x y

theorem namesApart_iff (q q' : FitsQuery) :
    NamesApart what out q q' ↔ ∀ e ∈ q.opened out, ∀ e' ∈ q'.opened out, KeptApart what out e e' := by
  rw [opened_eq, opened_eq]
  unfold NamesApart
  simp only [List.forall_mem_map, keptApart_iff]

/-- In a history of queries that all keep apart. -/
theorem served_own_source {queries : List FitsQuery} (h : ∀ q ∈ queries, ∀ q' ∈ queries, NamesApart what out q q')
    {q : FitsQuery} (hq : q ∈ queries) : Served what out (queries.foldl (execute_fits out) []) q := by
  intro e he
  obtain ⟨source, hlookup, hmem⟩ := lookup_opened (List.mem_flatMap.mpr ⟨q, hq, he⟩)
  refine ⟨source, by simp [lookup_history, hlookup], ?_⟩
  obtain ⟨q', hq', hopened⟩ := List.mem_flatMap.mp hmem
  by_contra hne
  exact ((namesApart_iff what out q' q).mp (h q' hq' q hq) _ hopened e he hne).1 rfl

/-- One query means one thing by a name. -/
theorem opened_unique {q : FitsQuery} {e e' : Bytes × Source} (he : e ∈ q.opened out) (he' : e' ∈ q.opened out)
    (hid : e.1 = e'.1) : e = e' := by
  rw [opened_eq, List.mem_map] at he he'
  obtain ⟨x, -, rfl⟩ := he
  obtain ⟨y, -, rfl⟩ := he'
  have hxy : x = y := hid
  rw [hxy]

theorem served_second {q q' : FitsQuery} (h : NamesApart what out q q') :
    Served what out ([q, q'].foldl (execute_fits out) []) q' := by
  intro e he
  have hmem : e ∈ [q, q'].flatMap (·.opened out) := List.mem_flatMap.mpr ⟨q', by simp, he⟩
  obtain ⟨source, hlookup, hmem⟩ := lookup_opened hmem
  refine ⟨source, by simp only [lookup_history, hlookup, List.lookup_nil, Option.none_or], ?_⟩
  obtain ⟨asked, hasked, hopened⟩ := List.mem_flatMap.mp hmem
  rcases List.mem_pair.mp hasked with rfl | rfl
  · by_contra hne
    exact ((namesApart_iff what out asked q').mp h _ hopened e he hne).1 rfl
  · rw [← opened_unique out hopened he rfl]

theorem apart_iff (q q' : FitsQuery) :
    ((∀ e ∈ q.opened out, ∀ e' ∈ q'.opened out, KeptApart what out e e') ∧
        Served what out ([q, q'].foldl (execute_fits out) []) q') ↔ NamesApart what out q q' := by
  rw [← namesApart_iff]
  constructor
  · rintro ⟨h, -⟩
    exact h
  · intro h
    exact ⟨h, served_second what out h⟩

/-! ## One name in two directories -/

def cubeIn (dir : Bytes) : FitsQuery := ⟨[], dir, lit "fits", [], [], [lit "cube"]⟩

def noOutside : Outside where
  uuid _ := []
  jvo_db_connect _ := none
  replace_all_copy input search format := input.flatMap fun x => if search = [x] then format else [x]
  replaces input c d := by
    rw [← List.flatMap_singleton' (input.map _), List.flatMap_map]
    refine List.flatMap_congr fun x _ => ?_
    by_cases hx : x = c
    · simp [hx]
    · simp [hx, Ne.symm hx]

/-- Whoever asks for the cube of the second directory is served the first's. -/
theorem one_name_in_two_directories :
    (cubeIn (lit "/a")).opened noOutside = [(lit "cube", .from_path (lit "/a/cube.fits"))] ∧
      (cubeIn (lit "/b")).opened noOutside = [(lit "cube", .from_path (lit "/b/cube.fits"))] ∧
      ¬ KeptApart id noOutside (lit "cube", .from_path (lit "/a/cube.fits")) (lit "cube", .from_path (lit "/b/cube.fits")) ∧
      ([cubeIn (lit "/a"), cubeIn (lit "/b")].foldl (execute_fits noOutside) []).lookup (lit "cube") =
        some (.from_path (lit "/a/cube.fits")) := by
  refine ⟨by decide, by decide, ?_, by decide⟩
  intro h
  exact (h (by decide)).1 rfl

end FitsWebQL
