/-
  FitsWebQL.MetadataReply — the JSON that `FITS::to_json` (`fits.cpp`) prints of a data set:
  its header, which is escaped by the JSON library, the dimensions, the numbers and the
  strings of the header's cards, which are printed as they are, two spectra and a histogram.

  Proved: the reply for a loaded data set whose strings need no escape and whose numbers
  are finite is a JSON text of one value only, with the header and its strings in it, the
  spectra of a cube with an element for each channel, none for an image, and NBINS
  frequencies (`reply_denotes_document`).

  `an_image_has_no_spectrum`: its arrays are empty, and an object with a quote in its name
  makes the reply no JSON.
-/

import FitsWebQL.JsonString
import FitsWebQL.Persist
import FitsWebQL.Lib.JsonNumbers

namespace FitsWebQL

open Lib.Binary Lib.JsonText Lib.JsonNumbers Lib.Printf

/-! ## What is printed -/

structure Metadata where
  /-- NULL, or the bytes with the NUL behind them. -/
  header : Option Bytes
  hdr_len : ℕ
  width : Int64
  height : Int64
  depth : Int64
  polarisation : Int64
  fits_file_size : Int64
  ignrval : Single
  cd1_1 : Double
  cd1_2 : Double
  cd2_1 : Double
  cd2_2 : Double
  crval1 : Double
  cdelt1 : Double
  crpix1 : Double
  cunit1 : Bytes
  ctype1 : Bytes
  crval2 : Double
  cdelt2 : Double
  crpix2 : Double
  cunit2 : Bytes
  ctype2 : Bytes
  crval3 : Double
  cdelt3 : Double
  crpix3 : Double
  cunit3 : Bytes
  ctype3 : Bytes
  bmaj : Double
  bmin : Double
  bpa : Double
  beam_unit : Bytes
  beam_type : Bytes
  specsys : Bytes
  restfrq : Double
  obsra : Double
  obsdec : Double
  object : Bytes
  date_obs : Bytes
  timesys : Bytes
  line : Bytes
  filter : Bytes
  mean_spectrum : List Single
  integrated_spectrum : List Single
  hist : Fin NBINS → UInt32

/-- One `json << "\"NAME\" : " << … << ","`. -/
inductive Printed
  /-- `json_encode_string`. -/
  | encoded (header : Bytes)
  | integer (n : ℤ)
  /-- `std::scientific`. -/
  | scientific (x : Value)
  /-- `null` for a NaN. -/
  | nullable (x : Value)
  /-- Between quotes. -/
  | quoted (s : Bytes)
  | spectrum (depth : ℤ) (xs : List Value)
  | histogram (hist : List ℕ)

/-- The first `depth` elements, if there are any; `none` reads past the vector. -/
def spectrumText (depth : ℤ) (xs : List Value) : Option Bytes :=
  if xs = [] then some (lit "[]")
  else if 0 < depth ∧ depth ≤ xs.length then some (91 :: ([44].intercalate ((xs.take depth.toNat).map e) ++ [93]))
  else none

def Printed.text : Printed → Option Bytes
  | .encoded header => json_encode_string header
  | .integer n => some (ld n)
  | .scientific x => some (e x)
  | .nullable x => some (if x = .nan then lit "null" else e x)
  | .quoted s => some (34 :: (s ++ [34]))
  | .spectrum depth xs => spectrumText depth xs
  | .histogram hist => some (91 :: ([44].intercalate (hist.map fun (n : ℕ) => ld n) ++ [93]))

def Metadata.members (m : Metadata) : List (String × Printed) :=
  [("HEADER", .encoded (cString (m.header.getD []))),
   ("width", .integer m.width.toInt),
   ("height", .integer m.height.toInt),
   ("depth", .integer m.depth.toInt),
   ("polarisation", .integer m.polarisation.toInt),
   ("filesize", .integer m.fits_file_size.toInt),
   ("IGNRVAL", .scientific m.ignrval.value),
   ("CD1_1", .nullable m.cd1_1.value),
   ("CD1_2", .nullable m.cd1_2.value),
   ("CD2_1", .nullable m.cd2_1.value),
   ("CD2_2", .nullable m.cd2_2.value),
   ("CRVAL1", .scientific m.crval1.value),
   ("CDELT1", .nullable m.cdelt1.value),
   ("CRPIX1", .scientific m.crpix1.value),
   ("CUNIT1", .quoted m.cunit1),
   ("CTYPE1", .quoted m.ctype1),
   ("CRVAL2", .scientific m.crval2.value),
   ("CDELT2", .nullable m.cdelt2.value),
   ("CRPIX2", .scientific m.crpix2.value),
   ("CUNIT2", .quoted m.cunit2),
   ("CTYPE2", .quoted m.ctype2),
   ("CRVAL3", .scientific m.crval3.value),
   ("CDELT3", .scientific m.cdelt3.value),
   ("CRPIX3", .scientific m.crpix3.value),
   ("CUNIT3", .quoted m.cunit3),
   ("CTYPE3", .quoted m.ctype3),
   ("BMAJ", .scientific m.bmaj.value),
   ("BMIN", .scientific m.bmin.value),
   ("BPA", .scientific m.bpa.value),
   ("BUNIT", .quoted m.beam_unit),
   ("BTYPE", .quoted m.beam_type),
   ("SPECSYS", .quoted m.specsys),
   ("RESTFRQ", .scientific m.restfrq.value),
   ("OBSRA", .scientific m.obsra.value),
   ("OBSDEC", .scientific m.obsdec.value),
   ("OBJECT", .quoted m.object),
   ("DATEOBS", .quoted m.date_obs),
   ("TIMESYS", .quoted m.timesys),
   ("LINE", .quoted m.line),
   ("FILTER", .quoted m.filter),
   ("mean_spectrum", .spectrum m.depth.toInt (m.mean_spectrum.map Number.value)),
   ("integrated_spectrum", .spectrum m.depth.toInt (m.integrated_spectrum.map Number.value)),
   ("histogram", .histogram ((List.ofFn m.hist).map UInt32.toNat))]

def memberText (member : String × Printed) : Option Bytes :=
  member.2.text.map fun t => 34 :: (lit member.1 ++ [34]) ++ lit " : " ++ t

/-- Nothing is printed without a header; `none`: an assertion of the JSON library fails, or
    a vector is read past its end. -/
def Metadata.to_json (m : Metadata) : Option Bytes :=
  if m.header = none ∨ m.hdr_len = 0 then some []
  else (m.members.mapM memberText).map fun texts => 123 :: ([44].intercalate texts ++ [125])

/-! ## What it stands for -/

def Printed.node : Printed → Node
  | .encoded header => .string header
  | .integer n => .number (ld n)
  | .scientific x => .number (e x)
  | .nullable x => if x = .nan then .null else .number (e x)
  | .quoted s => .string s
  | .spectrum depth xs => .array ((xs.take depth.toNat).map fun x => .number (e x))
  | .histogram hist => .array (hist.map fun (n : ℕ) => .number (ld n))

def Metadata.document (m : Metadata) : Node := .object (m.members.map fun member => (lit member.1, member.2.node))

def Printed.Plain : Printed → Prop
  | .encoded header => utf8_validate header = true ∧ 0x1F ∉ header
  | .integer _ => True
  | .scientific x => isFinite x = true
  | .nullable x => ∀ negative, x ≠ .infinite negative
  | .quoted s => s.all isPlain = true ∧ isUtf8 s = true
  | .spectrum _ xs => ∀ x ∈ xs, isFinite x = true
  | .histogram _ => True

def Printed.InBounds : Printed → Prop
  | .spectrum depth xs => xs = [] ∨ (0 < depth ∧ depth ≤ xs.length)
  | .encoded _ | .integer _ | .scientific _ | .nullable _ | .quoted _ | .histogram _ => True

theorem writes_finite {x : Value} (h : isFinite x = true) : Writes (.number (e x)) (e x) := by
  cases x with
  | finite negative magnitude => exact writes_e negative magnitude
  | infinite negative => cases h
  | nan => cases h

theorem writes_list {α : Type} {xs : List α} {f : α → Node} {g : α → Bytes} (h : ∀ x ∈ xs, Writes (f x) (g x)) :
    Writes (.array (xs.map f)) (91 :: ([44].intercalate (xs.map g) ++ [93])) := by
  refine writes_array ?_
  rw [List.forall₂_map_left_iff, List.forall₂_map_right_iff, List.forall₂_same]
  exact h

theorem printed_writes {p : Printed} (h : p.Plain) (hbounds : p.InBounds) : ∃ t, p.text = some t ∧ Writes p.node t := by
  cases p with
  | encoded header =>
    obtain ⟨hutf8, hunit⟩ := h
    have htext : json_encode_string header = some (34 :: (emitChars header ++ [34])) := if_pos hutf8
    exact ⟨_, htext, writes_encoded htext hunit⟩
  | integer n => exact ⟨_, rfl, writes_ld n⟩
  | scientific x => exact ⟨_, rfl, writes_finite h⟩
  | nullable x =>
    refine ⟨_, rfl, ?_⟩
    unfold Printed.node
    cases x with
    | finite negative magnitude => simpa using writes_e negative magnitude
    | infinite negative => exact absurd rfl (h negative)
    | nan => exact writes_null
  | quoted s => exact ⟨_, rfl, writes_string (reads_text h.1 []) h.2⟩
  | spectrum depth xs =>
    by_cases hnil : xs = []
    · have hempty : Writes (.array []) (lit "[]") := writes_array .nil
      exact ⟨_, by rw [Printed.text, spectrumText, if_pos hnil], by simpa [Printed.node, hnil] using hempty⟩
    · refine ⟨_, by rw [Printed.text, spectrumText, if_neg hnil, if_pos (hbounds.resolve_left hnil)], writes_list fun x hx => ?_⟩
      exact writes_finite (h x (List.mem_of_mem_take hx))
  | histogram hist => exact ⟨_, rfl, writes_list fun n _ => writes_ld n⟩

/-! ## The reply -/

theorem memberText_writes {member : String × Printed} (hplain : (lit member.1).all isPlain = true)
    (hutf8 : isUtf8 (lit member.1) = true) (h : member.2.Plain) (hbounds : member.2.InBounds) :
    ∃ t, memberText member = some t ∧ WritesMember (lit member.1, member.2.node) t := by
  obtain ⟨t, ht, hwrites⟩ := printed_writes h hbounds
  refine ⟨_, by rw [memberText, ht]; rfl, writes_member hplain hutf8 hwrites⟩

theorem mapM_forall₂ {α β : Type} {f : α → Option β} {P : α → β → Prop} {xs : List α} (h : ∀ x ∈ xs, ∃ y, f x = some y ∧ P x y) :
    ∃ ys, xs.mapM f = some ys ∧ List.Forall₂ P xs ys := by
  induction xs with
  | nil => exact ⟨[], rfl, .nil⟩
  | cons x xs ih =>
    rw [List.forall_mem_cons] at h
    obtain ⟨⟨y, hy, hp⟩, hxs⟩ := h
    obtain ⟨ys, hys, hps⟩ := ih hxs
    exact ⟨y :: ys, by simp [List.mapM_cons, hy, hys], .cons hp hps⟩

/-- The names are plain, and all different. -/
theorem member_names (m : Metadata) : (∀ member ∈ m.members, (lit member.1).all isPlain = true ∧ isUtf8 (lit member.1) = true) ∧
    (m.members.map fun member => lit member.1).Nodup := by
  have hnames : ∀ name ∈ m.members.map Prod.fst, (lit name).all isPlain = true ∧ isUtf8 (lit name) = true := by
    simp only [Metadata.members, List.map_cons, List.map_nil]
    decide +kernel
  refine ⟨fun member hmember => hnames member.1 (List.mem_map_of_mem hmember), ?_⟩
  simp only [Metadata.members, List.map_cons, List.map_nil]
  decide +kernel

/-- A data set that was loaded: an image has no spectra, a cube an element for each channel. -/
structure Metadata.Loaded (m : Metadata) : Prop where
  header : m.header ≠ none
  hdr_len : m.hdr_len ≠ 0
  image : m.depth.toInt ≤ 1 → m.mean_spectrum = [] ∧ m.integrated_spectrum = []
  cube : 1 < m.depth.toInt → (m.mean_spectrum.length : ℤ) = m.depth.toInt ∧ (m.integrated_spectrum.length : ℤ) = m.depth.toInt

/-- The header is UTF-8 without a U+001F, the strings of the cards are UTF-8 without quotes,
    backslashes and control characters, and the numbers are finite; a `CDi_j` and a `CDELTi`
    can be a NaN. -/
def Metadata.Plain (m : Metadata) : Prop := ∀ member ∈ m.members, member.2.Plain

def Metadata.channels (m : Metadata) : ℕ := if 1 < m.depth.toInt then m.depth.toInt.toNat else 0

/-- What the reply says: the header and the strings of its cards, the spectra, the
    frequencies. -/
structure Metadata.Described (m : Metadata) (v : Node) : Prop where
  header : v.get? (lit "HEADER") = some (.string (cString (m.header.getD [])))
  strings : ∀ name s, (name, .quoted s) ∈ m.members → v.get? (lit name) = some (.string s)
  spectra : ∀ name ∈ ["mean_spectrum", "integrated_spectrum"], (v.get? (lit name)).bind Node.count = some m.channels
  histogram : (v.get? (lit "histogram")).bind Node.count = some NBINS

theorem get?_document {m : Metadata} {name : String} {p : Printed} (h : (name, p) ∈ m.members) :
    m.document.get? (lit name) = some p.node := by
  refine get?_of_mem ?_ (List.mem_map_of_mem (f := fun member : String × Printed => (lit member.1, member.2.node)) h)
  rw [List.map_map]
  exact (member_names m).2

theorem spectrum_length {m : Metadata} (hm : m.Loaded) {xs : List Single} (hxs : xs = m.mean_spectrum ∨ xs = m.integrated_spectrum) :
    xs.length = m.channels := by
  unfold Metadata.channels
  split
  · have hcube := hm.cube ‹_›
    rcases hxs with rfl | rfl <;> omega
  · have himage := hm.image (by omega)
    rcases hxs with rfl | rfl
    · rw [himage.1, List.length_nil]
    · rw [himage.2, List.length_nil]

theorem spectrum_inBounds {m : Metadata} (hm : m.Loaded) {xs : List Single} (hxs : xs = m.mean_spectrum ∨ xs = m.integrated_spectrum) :
    (Printed.spectrum m.depth.toInt (xs.map Number.value)).InBounds := by
  have hlength := spectrum_length hm hxs
  unfold Metadata.channels at hlength
  simp only [Printed.InBounds, List.length_map, List.map_eq_nil_iff]
  split at hlength
  · right
    omega
  · left
    exact List.length_eq_zero_iff.mp hlength

theorem members_inBounds {m : Metadata} (hm : m.Loaded) : ∀ member ∈ m.members, member.2.InBounds := by
  have hmean := spectrum_inBounds hm (.inl rfl)
  have hintegrated := spectrum_inBounds hm (.inr rfl)
  simp only [Metadata.members, List.forall_mem_cons, hmean, hintegrated]
  simp [Printed.InBounds]

theorem described_document {m : Metadata} (hm : m.Loaded) : m.Described m.document where
  header := get?_document (List.mem_cons_self)
  strings name s h := get?_document h
  spectra name hname := by
    have hcount : ∀ xs : List Single, xs = m.mean_spectrum ∨ xs = m.integrated_spectrum →
        Node.count (Printed.spectrum m.depth.toInt (xs.map Number.value)).node = some m.channels := by
      intro xs hxs
      have hlength := spectrum_length hm hxs
      simp only [Printed.node, Node.count, List.length_map, List.length_take, Option.some.injEq]
      unfold Metadata.channels at *
      split at hlength
      · rw [if_pos ‹_›]
        omega
      · rw [if_neg ‹_›]
        omega
    rcases List.mem_pair.mp hname with rfl | rfl
    · rw [get?_document (p := .spectrum m.depth.toInt (m.mean_spectrum.map Number.value)) (by simp [Metadata.members])]
      exact hcount _ (.inl rfl)
    · rw [get?_document (p := .spectrum m.depth.toInt (m.integrated_spectrum.map Number.value)) (by simp [Metadata.members])]
      exact hcount _ (.inr rfl)
  histogram := by
    rw [get?_document (p := .histogram ((List.ofFn m.hist).map UInt32.toNat)) (by simp [Metadata.members])]
    simp [Printed.node, Node.count]

theorem denotes_document {m : Metadata} (hm : m.Loaded) (hplain : m.Plain) : ∃ text, m.to_json = some text ∧ Denotes text m.document := by
  obtain ⟨hnames, -⟩ := member_names m
  have hmembers : ∀ member ∈ m.members, ∃ t, memberText member = some t ∧ WritesMember (lit member.1, member.2.node) t :=
    fun member hmember => memberText_writes (hnames member hmember).1 (hnames member hmember).2 (hplain member hmember)
      (members_inBounds hm member hmember)
  obtain ⟨texts, htexts, hwrites⟩ := mapM_forall₂ hmembers
  refine ⟨_, by rw [Metadata.to_json, if_neg (by simp [hm.header, hm.hdr_len]), htexts]; rfl, denotes_object ?_⟩
  rwa [List.forall₂_map_left_iff]

theorem reply_denotes_document {m : Metadata} (hm : m.Loaded) (hplain : m.Plain) :
    ∃ text, m.to_json = some text ∧ (∃ v, Denotes text v) ∧ ∀ v, Denotes text v → m.Described v := by
  obtain ⟨text, htext, hdenotes⟩ := denotes_document hm hplain
  refine ⟨text, htext, ⟨_, hdenotes⟩, fun v hv => ?_⟩
  rw [denotes_unique hv hdenotes]
  exact described_document hm

/-! ## Replies that are no JSON -/

theorem printed_text {p : Printed} (hbounds : p.InBounds) (hutf8 : ∀ s, p = .encoded s → utf8_validate s = true) :
    ∃ t, p.text = some t := by
  cases p with
  | encoded header => exact ⟨_, if_pos (hutf8 header rfl)⟩
  | integer n => exact ⟨_, rfl⟩
  | scientific x => exact ⟨_, rfl⟩
  | nullable x => exact ⟨_, rfl⟩
  | quoted s => exact ⟨_, rfl⟩
  | spectrum depth xs =>
    by_cases hnil : xs = []
    · exact ⟨_, by rw [Printed.text, spectrumText, if_pos hnil]⟩
    · exact ⟨_, by rw [Printed.text, spectrumText, if_neg hnil, if_pos (hbounds.resolve_left hnil)]⟩
  | histogram hist => exact ⟨_, rfl⟩

theorem members_encoded {m : Metadata} : ∀ member ∈ m.members, ∀ s, member.2 = .encoded s → s = cString (m.header.getD []) := by
  intro member hmember s hs
  rcases hmember with _ | ⟨_, hmember⟩
  · exact (Printed.encoded.inj hs).symm
  · repeat rcases hmember with _ | ⟨_, hmember⟩ <;> try cases hs

/-- A member that cannot be read, behind others that can. -/
theorem not_json {m : Metadata} (hm : m.Loaded) (hutf8 : utf8_validate (cString (m.header.getD [])) = true)
    (before : List (String × Printed)) {after : List (String × Printed)} {member next : String × Printed}
    (hmembers : m.members = before ++ member :: next :: after)
    (hbefore : ∀ x ∈ before, x.2.Plain) (hfail : ∀ t, memberText member = some t → run .between (t ++ [44]) = none) :
    ∃ text, m.to_json = some text ∧ ∀ v, ¬ Denotes text v := by
  have htext : ∀ x ∈ m.members, ∃ t, memberText x = some t := by
    intro x hx
    obtain ⟨t, ht⟩ := printed_text (members_inBounds hm x hx) fun s hs => by rwa [members_encoded x hx s hs]
    exact ⟨_, by rw [memberText, ht]; rfl⟩
  have hmem : ∀ x ∈ before, x ∈ m.members := fun x hx => by rw [hmembers]; exact List.mem_append_left _ hx
  obtain ⟨hnames, -⟩ := member_names m
  have hwritten : ∀ x ∈ before, ∃ t, memberText x = some t ∧ WritesMember (lit x.1, x.2.node) t :=
    fun x hx => memberText_writes (hnames x (hmem x hx)).1 (hnames x (hmem x hx)).2 (hbefore x hx) (members_inBounds hm x (hmem x hx))
  obtain ⟨texts, htexts, hwrites⟩ := mapM_forall₂ hwritten
  obtain ⟨rest, hrest, -⟩ := mapM_forall₂ (f := memberText) (P := fun _ _ => True) fun x (hx : x ∈ after) => by
    obtain ⟨t, ht⟩ := htext x (by rw [hmembers]; simp [hx])
    exact ⟨t, ht, trivial⟩
  obtain ⟨t, ht⟩ := htext member (by rw [hmembers]; simp)
  obtain ⟨t', ht'⟩ := htext next (by rw [hmembers]; simp)
  have hall : m.members.mapM memberText = some (texts ++ t :: t' :: rest) := by
    rw [hmembers, List.mapM_append, htexts]
    simp [List.mapM_cons, ht, ht', hrest]
  refine ⟨_, by rw [Metadata.to_json, if_neg (by simp [hm.header, hm.hdr_len]), hall]; rfl, fun v => ?_⟩
  exact not_denotes_object (List.forall₂_map_left_iff.mpr hwrites) (hfail t ht) v

def cardUnit (card : Bytes) : Bytes :=
  card ++ List.replicate (FITS_LINE_LENGTH - card.length) 32 ++
    (lit "END" ++ List.replicate (FITS_CHUNK_LENGTH - FITS_LINE_LENGTH - 3) 32)

def orionCard : Bytes := lit "OBJECT  = 'Orion KL'"
def quoteCard : Bytes := lit "OBJECT  = 'a\"b'"
def latin1Card : Bytes := lit "COMMENT caf" ++ [0xE9]

theorem numbers_finite :
    isFinite (double 0).value = true ∧ isFinite (single 0).value = true ∧ ∀ x ∈ [single 1, single 2], isFinite x.value = true := by
  decide +kernel

theorem orion_printable : ∀ b ∈ orionCard, 32 ≤ b ∧ b ≤ (0x7F : UInt8) := by simp [orionCard, lit]

theorem quote_printable : ∀ b ∈ quoteCard, 32 ≤ b ∧ b ≤ (0x7F : UInt8) := by simp [quoteCard, lit]

theorem end_printable : ∀ b ∈ lit "END", 32 ≤ b ∧ b ≤ (0x7F : UInt8) := by simp [lit]

theorem ne_zero_of_printable {b : UInt8} (h : 32 ≤ b ∧ b ≤ 0x7F) : b ≠ 0 := by
  rintro rfl
  exact absurd h.1 (by decide)

def aDataSet (card object : Bytes) (crval1 : Double) (depth : Int64) (xs : List Single) : Metadata where
  header := some (cardUnit card ++ [0])
  hdr_len := FITS_CHUNK_LENGTH
  width := 1
  height := 1
  depth := depth
  polarisation := 1
  fits_file_size := 5760
  ignrval := single 0
  cd1_1 := NAN
  cd1_2 := NAN
  cd2_1 := NAN
  cd2_2 := NAN
  crval1 := crval1
  cdelt1 := NAN
  crpix1 := double 0
  cunit1 := []
  ctype1 := []
  crval2 := double 0
  cdelt2 := NAN
  crpix2 := double 0
  cunit2 := []
  ctype2 := []
  crval3 := double 0
  cdelt3 := double 0
  crpix3 := double 0
  cunit3 := []
  ctype3 := []
  bmaj := double 0
  bmin := double 0
  bpa := double 0
  beam_unit := []
  beam_type := []
  specsys := []
  restfrq := double 0
  obsra := double 0
  obsdec := double 0
  object := object
  date_obs := []
  timesys := []
  line := []
  filter := []
  mean_spectrum := xs
  integrated_spectrum := xs
  hist := fun _ => 0

theorem aDataSet_loaded (card object : Bytes) (crval1 : Double) {depth : Int64} {xs : List Single}
    (himage : depth.toInt ≤ 1 → xs = []) (hcube : 1 < depth.toInt → (xs.length : ℤ) = depth.toInt) :
    (aDataSet card object crval1 depth xs).Loaded where
  header := Option.some_ne_none _
  hdr_len := (by decide : FITS_CHUNK_LENGTH ≠ 0)
  image h := ⟨himage h, himage h⟩
  cube h := ⟨hcube h, hcube h⟩

theorem forall_cardUnit {P : UInt8 → Prop} {card : Bytes} (hcard : ∀ b ∈ card, P b) (hend : ∀ b ∈ lit "END", P b) (hblank : P 32) :
    ∀ b ∈ cardUnit card, P b := by
  have hblanks : ∀ n, ∀ b ∈ List.replicate n (32 : UInt8), P b := fun n b hb => by
    rw [List.eq_of_mem_replicate hb]
    exact hblank
  simp only [cardUnit, List.forall_mem_append]
  exact ⟨⟨hcard, hblanks _⟩, hend, hblanks _⟩

theorem cString_cardUnit {card : Bytes} (hcard : ∀ b ∈ card, b ≠ 0) : cString (cardUnit card ++ [0]) = cardUnit card := by
  have hall : ∀ b ∈ cardUnit card, b ≠ 0 := forall_cardUnit hcard (fun b hb => ne_zero_of_printable (end_printable b hb)) (by decide)
  unfold cString
  rw [List.takeWhile_append_of_pos fun b hb => decide_eq_true (hall b hb)]
  simp

theorem cardUnit_printable {card : Bytes} (hcard : ∀ b ∈ card, 32 ≤ b ∧ b ≤ 0x7F) :
    cString (cardUnit card ++ [0]) = cardUnit card ∧ (∀ b ∈ cardUnit card, 32 ≤ b ∧ b ≤ 0x7F) := by
  exact ⟨cString_cardUnit fun b hb => ne_zero_of_printable (hcard b hb), forall_cardUnit hcard end_printable (by decide)⟩

theorem header_plain {card : Bytes} (hcard : ∀ b ∈ card, 32 ≤ b ∧ b ≤ 0x7F) :
    (Printed.encoded (cString (cardUnit card ++ [0]))).Plain := by
  obtain ⟨hcstring, hall⟩ := cardUnit_printable hcard
  show utf8_validate (cString (cardUnit card ++ [0])) = true ∧ 0x1F ∉ cString (cardUnit card ++ [0])
  rw [hcstring, utf8_validate_eq]
  refine ⟨utf8_of_ascii fun b hb => (hall b hb).2, fun hmem => ?_⟩
  exact absurd (hall _ hmem).1 (by decide)

theorem aDataSet_plain {card object : Bytes} (hcard : ∀ b ∈ card, 32 ≤ b ∧ b ≤ 0x7F) (hobject : (Printed.quoted object).Plain)
    {crval1 : Double} (hcrval1 : isFinite crval1.value = true) (depth : Int64) {xs : List Single}
    (hxs : ∀ x ∈ xs, isFinite x.value = true) :
    (aDataSet card object crval1 depth xs).Plain := by
  obtain ⟨hzero, hzero', -⟩ := numbers_finite
  unfold Metadata.Plain Metadata.members
  rw [List.forall_mem_cons]
  refine ⟨header_plain hcard, ?_⟩
  have hempty : isUtf8 [] = true := rfl
  simp only [Printed.Plain, List.all_eq_true] at hobject
  simp [aDataSet, Printed.Plain, NAN, hzero, hzero', hcrval1, hempty, and_assoc]
  exact ⟨hobject.1, hobject.2, hxs⟩

theorem orion_plain {crval1 : Double} (h : isFinite crval1.value = true) (depth : Int64) {xs : List Single}
    (hxs : ∀ x ∈ xs, isFinite x.value = true) : (aDataSet orionCard (lit "Orion KL") crval1 depth xs).Plain := by
  have hobject : (lit "Orion KL").all isPlain = true ∧ isUtf8 (lit "Orion KL") = true := by
    simp only [lit, String.reduceToList]
    exact ⟨rfl, rfl⟩
  exact aDataSet_plain orion_printable hobject h depth hxs

theorem orion_image_plain : (aDataSet orionCard (lit "Orion KL") (double 0) 1 []).Plain := by
  exact orion_plain numbers_finite.1 1 (by simp)

theorem image_loaded (card object : Bytes) (crval1 : Double) : (aDataSet card object crval1 1 []).Loaded :=
  aDataSet_loaded _ _ _ (fun _ => rfl) fun h => absurd h (by decide)

theorem reply_denotes_two_channels :
    ∃ text, (aDataSet orionCard (lit "Orion KL") (double 0) 2 [single 1, single 2]).to_json = some text ∧ (∃ v, Denotes text v) ∧
      ∀ v, Denotes text v → (aDataSet orionCard (lit "Orion KL") (double 0) 2 [single 1, single 2]).Described v := by
  obtain ⟨hzero, -, hxs⟩ := numbers_finite
  exact reply_denotes_document (aDataSet_loaded _ _ _ (fun h => absurd h (by decide)) fun _ => by decide) (orion_plain hzero 2 hxs)

/-- A quote in the name of an object. -/
theorem quote_not_json :
    ∃ text, (aDataSet quoteCard (lit "a\"b") (double 0) 1 []).to_json = some text ∧ ∀ v, ¬ Denotes text v := by
  have hplain : (aDataSet quoteCard [] (double 0) 1 []).Plain :=
    aDataSet_plain quote_printable ⟨rfl, rfl⟩ numbers_finite.1 1 (by simp)
  refine not_json (image_loaded _ _ _) (header_plain quote_printable).1
    ((aDataSet quoteCard [] (double 0) 1 []).members.take 35) rfl (fun x hx => hplain x (List.mem_of_mem_take hx)) fun t ht => ?_
  obtain rfl := Option.some.inj ht
  rfl

/-- A number out of the range of a `double`. -/
theorem infinity_not_json :
    ∃ text, (aDataSet orionCard (lit "Orion KL") (double (10 ^ 999)) 1 []).to_json = some text ∧ ∀ v, ¬ Denotes text v := by
  have hvalue : (double (10 ^ 999)).value = .infinite false := by decide +kernel
  have hinfinite : double (10 ^ 999) = ⟨.infinite false, rfl⟩ := Number.ext hvalue
  rw [hinfinite]
  refine not_json (image_loaded _ _ _) (header_plain orion_printable).1
    ((aDataSet orionCard (lit "Orion KL") (double 0) 1 []).members.take 11) rfl
    (fun x hx => orion_image_plain x (List.mem_of_mem_take hx)) fun t ht => ?_
  obtain rfl := Option.some.inj ht
  rfl

/-- A byte that is not UTF-8: the assertion fails. -/
theorem latin1_no_reply : (aDataSet latin1Card [] (double 0) 1 []).to_json = none := by
  have hutf8 : isUtf8 (cString (cardUnit latin1Card ++ [0])) = false := by
    rw [cString_cardUnit (by simp [latin1Card, lit])]
    simp only [cardUnit, latin1Card, lit, String.reduceToList]
    rfl
  rw [← utf8_validate_eq] at hutf8
  have hheader : memberText ("HEADER", .encoded (cString (cardUnit latin1Card ++ [0]))) = none := by
    rw [memberText, Printed.text, json_encode_string, hutf8]
    rfl
  have hloaded := image_loaded latin1Card [] (double 0)
  rw [Metadata.to_json, if_neg (by simp [hloaded.header, hloaded.hdr_len]), Option.map_eq_none_iff]
  show List.mapM memberText (("HEADER", .encoded (cString (cardUnit latin1Card ++ [0]))) :: _) = none
  rw [List.mapM_cons, hheader]
  rfl

/-- A U+001F, which the JSON library does not escape. -/
theorem separator_not_json :
    ∃ text, (aDataSet [0x1F] [] (double 0) 1 []).to_json = some text ∧ ∀ v, ¬ Denotes text v := by
  have hcstring : cString (cardUnit [0x1F] ++ [0]) = 0x1F :: (cardUnit [0x1F]).tail := cString_cardUnit (by simp)
  have hutf8 : utf8_validate (cString (cardUnit [0x1F] ++ [0])) = true := by
    rw [utf8_validate_eq, cString_cardUnit (by simp)]
    exact utf8_of_ascii (forall_cardUnit (by simp) (fun b hb => (end_printable b hb).2) (by decide))
  refine not_json (image_loaded _ _ _) hutf8 [] rfl (by simp) fun t ht => ?_
  have htext : memberText ("HEADER", .encoded (cString (cardUnit [0x1F] ++ [0]))) = some t := ht
  rw [memberText, Printed.text, json_encode_string, if_pos hutf8, hcstring, emitChars] at htext
  have hcz : utf8_validate_cz (0x1F :: (cardUnit [0x1F]).tail) = 1 := rfl
  simp only [hcz] at htext
  obtain rfl := Option.some.inj htext
  rfl

/-- An image's spectra are empty, and the histogram has an element for each bin. A quote, an
    infinity and a U+001F are not JSON, and a header that is not UTF-8 has no reply. -/
theorem an_image_has_no_spectrum :
    ((aDataSet orionCard (lit "Orion KL") (double 0) 1 []).Loaded ∧
      ∃ text, (aDataSet orionCard (lit "Orion KL") (double 0) 1 []).to_json = some text ∧ (∃ v, Denotes text v) ∧
        ∀ v, Denotes text v → (v.get? (lit "mean_spectrum")).bind Node.count = some 0 ∧
          (v.get? (lit "histogram")).bind Node.count = some NBINS) ∧
    ((processCard {} quoteCard).object = lit "a\"b" ∧
      ∃ text, (aDataSet quoteCard (lit "a\"b") (double 0) 1 []).to_json = some text ∧ ∀ v, ¬ Denotes text v) ∧
    (∃ text, (aDataSet orionCard (lit "Orion KL") (double (10 ^ 999)) 1 []).to_json = some text ∧ ∀ v, ¬ Denotes text v) ∧
    (∃ text, (aDataSet [0x1F] [] (double 0) 1 []).to_json = some text ∧ ∀ v, ¬ Denotes text v) ∧
    (aDataSet latin1Card [] (double 0) 1 []).to_json = none := by
  have hobject : (processCard {} quoteCard).object = lit "a\"b" := by decide +kernel
  have hloaded := image_loaded orionCard (lit "Orion KL") (double 0)
  refine ⟨⟨hloaded, ?_⟩, ⟨hobject, quote_not_json⟩, infinity_not_json, separator_not_json, latin1_no_reply⟩
  obtain ⟨text, htext, hdenotes⟩ := denotes_document hloaded orion_image_plain
  refine ⟨text, htext, ⟨_, hdenotes⟩, fun v hv => ?_⟩
  have hdescribed := described_document hloaded
  rw [denotes_unique hv hdenotes]
  exact ⟨hdescribed.spectra "mean_spectrum" (by simp), hdescribed.histogram⟩

end FitsWebQL
