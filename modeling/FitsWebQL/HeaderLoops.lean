/-
  FitsWebQL.HeaderLoops — the header as the file loader (`from_path`) and the downloader
  (`scan_fits_header`) read it, in units of 2880 bytes.

  The file loader reads unit after unit until one ends the header and leaves NAXIS other
  than 0. The downloader looks at one unit at a call, however much waits in its buffer,
  and goes on until NAXIS is above 0.

  Proved, for every file and every way to cut it into pieces:
  - `fileHeader_eq`: where the file loader stops.
  - `scanAll_none_iff`, `scanned_of_scanAll`: when a copy runs over the buffer, and what
    the downloader has read else.
  - `same_header_iff`: both read the same header exactly when NAXIS is above 0 where the
    file loader stops, every piece fits behind what waits, and the pieces leave a call for
    each unit that waits.
  - `headers_differ`: two units in one piece, and a negative NAXIS.
-/

import FitsWebQL.DownloadRuns
import FitsWebQL.Lib.Lag

namespace FitsWebQL

open Lib.Lag

/-! ## The two loops -/

/-- What a loader has once the header has ended: the fields and the text of `hdr_len` bytes. -/
structure LoadedHeader where
  fits : FitsHeader
  header : Bytes

def LoadedHeader.hdr_len (l : LoadedHeader) : ℕ := l.header.length

/-- `from_path`'s loops over the whole units: the inner one ends with the header, the outer
    one when NAXIS is there. `none` is a unit cut short. -/
def headerLoop : ℕ → FitsHeader → Bytes → Bytes → Option LoadedHeader
  | 0, _, _, _ => none
  | n + 1, fits, header, file =>
    let unit := file.take FITS_CHUNK_LENGTH
    let r := processFitsHeaderUnit fits unit
    if r.2 = true ∧ r.1.naxis ≠ 0 then some ⟨headerEnd r.1, header ++ unit⟩
    else headerLoop n r.1 (header ++ unit) (file.drop FITS_CHUNK_LENGTH)

def fileHeader (fits : FitsHeader) (file : Bytes) : Option LoadedHeader :=
  headerLoop (file.length / FITS_CHUNK_LENGTH) fits [] file

def scanAll (d : Download) : List Bytes → Option Download
  | [] => some d
  | c :: cs => if d.data.hdr_end then some d else (scanFitsHeader d c).bind fun d => scanAll d cs

def Download.loaded (t : Download) : Option LoadedHeader :=
  if t.data.hdr_end then some ⟨t.data.fits, t.data.header⟩ else none

/-! ## Unit by unit -/

section Units

variable (fits : FitsHeader) (file : Bytes)

def unitAt (r : ℕ) : Bytes := (file.drop (FITS_CHUNK_LENGTH * r)).take FITS_CHUNK_LENGTH

def fieldsAt : ℕ → FitsHeader
  | 0 => fits
  | r + 1 => (processFitsHeaderUnit (fieldsAt r) (unitAt file r)).1

def endsAt (r : ℕ) : Prop := (processFitsHeaderUnit (fieldsAt fits file r) (unitAt file r)).2 = true

def FileStops (r : ℕ) : Prop := endsAt fits file r ∧ (fieldsAt fits file (r + 1)).naxis ≠ 0

def StreamStops (r : ℕ) : Prop := endsAt fits file r ∧ 0 < (fieldsAt fits file (r + 1)).naxis

def headerAt (r : ℕ) : LoadedHeader := ⟨headerEnd (fieldsAt fits file (r + 1)), file.take (FITS_CHUNK_LENGTH * (r + 1))⟩

variable {fits file}

theorem streamStops_file {r : ℕ} (h : StreamStops fits file r) : FileStops fits file r := ⟨h.1, h.2.ne'⟩

theorem take_unit (r : ℕ) :
    file.take (FITS_CHUNK_LENGTH * r) ++ unitAt file r = file.take (FITS_CHUNK_LENGTH * (r + 1)) := by
  unfold unitAt
  rw [Nat.mul_add, Nat.mul_one, List.take_add]

instance (r : ℕ) : Decidable (FileStops fits file r) := inferInstanceAs (Decidable (_ = true ∧ _ ≠ _))

theorem drop_unit (r : ℕ) :
    (file.drop (FITS_CHUNK_LENGTH * r)).drop FITS_CHUNK_LENGTH = file.drop (FITS_CHUNK_LENGTH * (r + 1)) := by
  rw [List.drop_drop, Nat.mul_add, Nat.mul_one]

/-- One unit of the loop. -/
theorem headerLoop_unit (n r : ℕ) :
    headerLoop (n + 1) (fieldsAt fits file r) (file.take (FITS_CHUNK_LENGTH * r)) (file.drop (FITS_CHUNK_LENGTH * r)) =
      if FileStops fits file r then some (headerAt fits file r)
      else headerLoop n (fieldsAt fits file (r + 1)) (file.take (FITS_CHUNK_LENGTH * (r + 1)))
        (file.drop (FITS_CHUNK_LENGTH * (r + 1))) := by
  have htake : file.take (FITS_CHUNK_LENGTH * r) ++ unitAt file r = file.take (FITS_CHUNK_LENGTH * (r + 1)) := take_unit r
  unfold unitAt at htake
  rw [headerLoop, drop_unit, htake]
  rfl

/-- From unit `r` on, of `n` units. -/
theorem headerLoop_eq (n r : ℕ) :
    let loop := headerLoop n (fieldsAt fits file r) (file.take (FITS_CHUNK_LENGTH * r)) (file.drop (FITS_CHUNK_LENGTH * r))
    (∃ k, r ≤ k ∧ k < r + n ∧ FileStops fits file k ∧ (∀ j, r ≤ j → j < k → ¬ FileStops fits file j) ∧
        loop = some (headerAt fits file k)) ∨
      (∀ j, r ≤ j → j < r + n → ¬ FileStops fits file j) ∧ loop = none := by
  induction n generalizing r with
  | zero => exact Or.inr ⟨fun j h1 h2 => by omega, rfl⟩
  | succ n ih =>
    intro loop
    by_cases hstop : FileStops fits file r
    · refine Or.inl ⟨r, Nat.le_refl r, by omega, hstop, fun j h1 h2 => by omega, ?_⟩
      exact (headerLoop_unit n r).trans (if_pos hstop)
    · have hloop : loop = headerLoop n (fieldsAt fits file (r + 1)) (file.take (FITS_CHUNK_LENGTH * (r + 1)))
          (file.drop (FITS_CHUNK_LENGTH * (r + 1))) := (headerLoop_unit n r).trans (if_neg hstop)
      rw [hloop]
      rcases ih (r + 1) with ⟨k, hk1, hk2, hk, hbefore, heq⟩ | ⟨hnone, heq⟩
      · refine Or.inl ⟨k, by omega, by omega, hk, fun j h1 h2 => ?_, heq⟩
        rcases Nat.eq_or_lt_of_le h1 with rfl | h1
        · exact hstop
        · exact hbefore j h1 h2
      · refine Or.inr ⟨fun j h1 h2 => ?_, heq⟩
        rcases Nat.eq_or_lt_of_le h1 with rfl | h1
        · exact hstop
        · exact hnone j h1 (by omega)

/-- The file loader stops at the first unit that ends a header with NAXIS other than 0. -/
theorem fileHeader_eq (fits : FitsHeader) (file : Bytes) :
    (∃ k, k < file.length / FITS_CHUNK_LENGTH ∧ FileStops fits file k ∧ (∀ j < k, ¬ FileStops fits file j) ∧
        fileHeader fits file = some (headerAt fits file k)) ∨
      (∀ j < file.length / FITS_CHUNK_LENGTH, ¬ FileStops fits file j) ∧ fileHeader fits file = none := by
  rcases @headerLoop_eq fits file (file.length / FITS_CHUNK_LENGTH) 0 with
    ⟨k, -, hk, hstop, hbefore, heq⟩ | ⟨hnone, heq⟩
  · exact Or.inl ⟨k, by omega, hstop, fun j hj => hbefore j (Nat.zero_le j) hj, heq⟩
  · exact Or.inr ⟨fun j hj => hnone j (Nat.zero_le j) (by omega), heq⟩

/-! ## The downloader -/

/-- After the calls of `a`, the download has looked at `r` units. -/
structure Scanned (fits : FitsHeader) (file : Bytes) (a : List Bytes) (t : Download) (r : ℕ) : Prop where
  header : t.data.header = file.take (FITS_CHUNK_LENGTH * r)
  buffer : t.buffer = a.flatten.drop (FITS_CHUNK_LENGTH * r)
  within : FITS_CHUNK_LENGTH * r ≤ a.flatten.length
  fields : (t.data.hdr_end = false ∧ t.data.fits = fieldsAt fits file r ∧ ∀ j < r, ¬ StreamStops fits file j) ∨
    (t.data.hdr_end = true ∧ ∃ k, r = k + 1 ∧ StreamStops fits file k ∧ (∀ j < k, ¬ StreamStops fits file j) ∧
      t.data.fits = headerEnd (fieldsAt fits file r))

structure Running (fits : FitsHeader) (file : Bytes) (a : List Bytes) (t : Download) (r : ℕ) : Prop
    extends Scanned fits file a t r where
  running : t.data.hdr_end = false

theorem Running.fits_eq {a : List Bytes} {t : Download} {r : ℕ} (h : Running fits file a t r) :
    t.data.fits = fieldsAt fits file r ∧ ∀ j < r, ¬ StreamStops fits file j := by
  rcases h.fields with h' | h'
  · exact h'.2
  · rw [h.running] at h'
    exact absurd h'.1 Bool.false_ne_true

theorem init_running (fits : FitsHeader) (file : Bytes) : Running fits file [] (Download.init fits) 0 where
  header := rfl
  buffer := rfl
  within := Nat.le_refl _
  fields := Or.inl ⟨rfl, rfl, fun j hj => absurd hj (Nat.not_lt_zero j)⟩
  running := rfl

/-- A call: what waits and the piece are in the buffer. -/
theorem Running.buffer_append {a : List Bytes} {t : Download} {r : ℕ} (h : Running fits file a t r) (c : Bytes) :
    t.buffer ++ c = (a ++ [c]).flatten.drop (FITS_CHUNK_LENGTH * r) := by
  rw [h.buffer, List.flatten_append, List.flatten_singleton, List.drop_append_of_le_length h.within]

/-- The unit at the front of the buffer is the file's. -/
theorem unitAt_prefix {b : Bytes} (hb : b <+: file) {r : ℕ} (hr : FITS_CHUNK_LENGTH * (r + 1) ≤ b.length) :
    (b.drop (FITS_CHUNK_LENGTH * r)).take FITS_CHUNK_LENGTH = unitAt file r := by
  obtain ⟨rest, rfl⟩ := hb
  rw [Nat.mul_add, Nat.mul_one] at hr
  unfold unitAt
  rw [List.drop_append_of_le_length (by omega), List.take_append_of_le_length (by rw [List.length_drop]; omega)]

theorem allocate_header (d : Dataset) :
    d.allocate.header = d.header ∧ d.allocate.hdr_end = true ∧ d.allocate.fits = headerEnd d.fits := ⟨rfl, rfl, rfl⟩

theorem endsHeader_iff {a : List Bytes} {t : Download} {r : ℕ} (h : Running fits file a t r) :
    t.data.EndsHeader (unitAt file r) ↔ StreamStops fits file r := by
  obtain ⟨hfits, -⟩ := h.fits_eq
  unfold Dataset.EndsHeader
  rw [hfits]
  rfl

/-- A unit more. -/
theorem Running.readUnit {a : List Bytes} {t : Download} {r : ℕ} (h : Running fits file a t r) :
    (t.data.readUnit (unitAt file r)).header = file.take (FITS_CHUNK_LENGTH * (r + 1)) ∧
      (((t.data.readUnit (unitAt file r)).hdr_end = false ∧
          (t.data.readUnit (unitAt file r)).fits = fieldsAt fits file (r + 1) ∧ ¬ StreamStops fits file r) ∨
        ((t.data.readUnit (unitAt file r)).hdr_end = true ∧
          (t.data.readUnit (unitAt file r)).fits = headerEnd (fieldsAt fits file (r + 1)) ∧ StreamStops fits file r)) := by
  obtain ⟨hfits, -⟩ := h.fits_eq
  have hwith : (t.data.withUnit (unitAt file r)).fits = fieldsAt fits file (r + 1) := by
    unfold Dataset.withUnit fieldsAt
    rw [hfits]
  refine ⟨by rw [(readUnit_header t.data _).1, h.header, take_unit], ?_⟩
  rw [readUnit_eq]
  by_cases hstop : StreamStops fits file r
  · obtain ⟨-, hend, hfields⟩ := allocate_header (t.data.withUnit (unitAt file r))
    rw [if_pos ((endsHeader_iff h).mpr hstop), hend, hfields, hwith]
    exact Or.inr ⟨rfl, rfl, hstop⟩
  · rw [if_neg fun hend => hstop ((endsHeader_iff h).mp hend), hwith]
    exact Or.inl ⟨h.running, rfl, hstop⟩

/-- One call of `scan_fits_header`. -/
theorem Running.scan {a : List Bytes} {t : Download} {r : ℕ} (h : Running fits file a t r) {c : Bytes}
    (hfile : (a ++ [c]).flatten <+: file) :
    (scanFitsHeader t c = none ∧ BUFFER_LENGTH + FITS_CHUNK_LENGTH * r < (a ++ [c]).flatten.length) ∨
      (a ++ [c]).flatten.length ≤ BUFFER_LENGTH + FITS_CHUNK_LENGTH * r ∧
        ∃ t', scanFitsHeader t c = some t' ∧
          Scanned fits file (a ++ [c]) t'
            (if FITS_CHUNK_LENGTH * (r + 1) ≤ a.flatten.length + c.length then r + 1 else r) := by
  have hlen : (a ++ [c]).flatten.length = a.flatten.length + c.length := by
    rw [List.flatten_append, List.length_append, List.flatten_singleton]
  have hbuffer := h.buffer_append c
  have hwaiting : t.buffer.length + c.length = (a ++ [c]).flatten.length - FITS_CHUNK_LENGTH * r := by
    rw [← List.length_append, hbuffer, List.length_drop]
  have hwithin := h.within
  unfold scanFitsHeader
  by_cases hover : BUFFER_LENGTH < t.buffer.length + c.length
  · exact Or.inl ⟨if_pos hover, by omega⟩
  · refine Or.inr ⟨by omega, ?_⟩
    rw [if_neg hover]
    dsimp only
    rw [hbuffer]
    by_cases hunit : FITS_CHUNK_LENGTH * (r + 1) ≤ a.flatten.length + c.length
    · have hnext : ¬ ((a ++ [c]).flatten.drop (FITS_CHUNK_LENGTH * r)).length < FITS_CHUNK_LENGTH := by
        rw [List.length_drop]
        rw [Nat.mul_add, Nat.mul_one] at hunit
        omega
      obtain ⟨hheader, hfields⟩ := h.readUnit
      obtain ⟨-, hbefore⟩ := h.fits_eq
      rw [if_neg hnext, if_pos hunit, unitAt_prefix hfile (by omega), drop_unit]
      refine ⟨_, rfl, ⟨hheader, rfl, by omega, ?_⟩⟩
      rcases hfields with ⟨he, hf, hgo⟩ | ⟨he, hf, hstop⟩
      · refine Or.inl ⟨he, hf, fun j hj => ?_⟩
        rcases Nat.eq_or_lt_of_le (Nat.le_of_lt_succ hj) with rfl | hj
        · exact hgo
        · exact hbefore j hj
      · exact Or.inr ⟨he, r, rfl, hstop, hbefore, hf⟩
    · have hnext : ((a ++ [c]).flatten.drop (FITS_CHUNK_LENGTH * r)).length < FITS_CHUNK_LENGTH := by
        rw [List.length_drop]
        rw [Nat.mul_add, Nat.mul_one] at hunit
        omega
      rw [if_pos hnext, if_neg hunit]
      exact ⟨_, rfl, ⟨h.header, rfl, by omega, h.fields⟩⟩

/-- The next piece, and those behind it. -/
theorem next_piece {a cs : List Bytes} {c : Bytes} (hfile : (a ++ c :: cs).flatten <+: file) :
    (a ++ [c] ++ cs).flatten <+: file ∧ (a ++ [c]).flatten <+: file := by
  rw [← List.singleton_append, ← List.append_assoc] at hfile
  refine ⟨hfile, ?_⟩
  rw [List.flatten_append] at hfile
  exact (List.prefix_append _ _).trans hfile

/-- What the downloader has read, when no copy has run over the buffer. -/
theorem scanned_of_scanAll (cs : List Bytes) {a : List Bytes} {t t' : Download}
    (h : Scanned fits file a t (taken FITS_CHUNK_LENGTH a)) (hfile : (a ++ cs).flatten <+: file) (hrun : scanAll t cs = some t') :
    ∃ b c, cs = b ++ c ∧ Scanned fits file (a ++ b) t' (taken FITS_CHUNK_LENGTH (a ++ b)) ∧ (t'.data.hdr_end = true ∨ c = []) := by
  induction cs generalizing a t with
  | nil =>
    cases hrun
    exact ⟨[], [], rfl, by rwa [List.append_nil], Or.inr rfl⟩
  | cons c cs ih =>
    rw [scanAll] at hrun
    by_cases he : t.data.hdr_end = true
    · rw [if_pos he] at hrun
      cases hrun
      exact ⟨[], c :: cs, rfl, by rwa [List.append_nil], Or.inl he⟩
    · rw [if_neg he] at hrun
      have hrunning : Running fits file a t (taken FITS_CHUNK_LENGTH a) := ⟨h, by simpa using he⟩
      obtain ⟨hfile, hprefix⟩ := next_piece hfile
      rcases hrunning.scan hprefix with ⟨hnone, -⟩ | ⟨-, t1, hscan, hnext⟩
      · rw [hnone] at hrun
        cases hrun
      · rw [hscan] at hrun
        rw [← taken_snoc] at hnext
        obtain ⟨b, d, rfl, hb, hd⟩ := ih hnext hfile hrun
        refine ⟨c :: b, d, rfl, ?_, hd⟩
        rwa [List.append_assoc, List.singleton_append] at hb

/-- A copy runs over the buffer when the header is not all read and a piece is too long. -/
theorem scanAll_none_iff (cs : List Bytes) {a : List Bytes} {t : Download}
    (h : Scanned fits file a t (taken FITS_CHUNK_LENGTH a)) (hfile : (a ++ cs).flatten <+: file) :
    scanAll t cs = none ↔
      ∃ b c d, cs = b ++ c :: d ∧ (∀ j < taken FITS_CHUNK_LENGTH (a ++ b), ¬ StreamStops fits file j) ∧
        BUFFER_LENGTH + FITS_CHUNK_LENGTH * taken FITS_CHUNK_LENGTH (a ++ b) < (a ++ b ++ [c]).flatten.length := by
  induction cs generalizing a t with
  | nil =>
    constructor
    · intro hnone
      cases hnone
    · rintro ⟨b, c, d, hcs, -⟩
      simp at hcs
  | cons c cs ih =>
    obtain ⟨hfile, hprefix⟩ := next_piece hfile
    rw [scanAll]
    rcases h.fields with ⟨he, -, hbefore⟩ | ⟨he, k, hk, hstop, -, -⟩
    · rw [if_neg (by rw [he]; exact Bool.false_ne_true)]
      have hrunning : Running fits file a t (taken FITS_CHUNK_LENGTH a) := ⟨h, he⟩
      rcases hrunning.scan hprefix with ⟨hnone, hover⟩ | ⟨hfits, t1, hscan, hnext⟩
      · rw [hnone]
        refine ⟨fun _ => ⟨[], c, cs, rfl, ?_, ?_⟩, fun _ => rfl⟩
        · rwa [List.append_nil]
        · rwa [List.append_nil]
      · rw [hscan, Option.bind_some]
        rw [← taken_snoc] at hnext
        rw [ih hnext hfile]
        constructor
        · rintro ⟨b, c', d, rfl, hb, hover⟩
          rw [List.append_assoc a, List.singleton_append] at hb hover
          exact ⟨c :: b, c', d, rfl, hb, hover⟩
        · rintro ⟨b, c', d, hb, hgo, hover⟩
          rcases b with _ | ⟨c'', b⟩
          · obtain ⟨rfl, rfl⟩ := List.cons.inj hb
            rw [List.append_nil] at hover
            omega
          · obtain ⟨rfl, rfl⟩ := List.cons.inj hb
            refine ⟨b, c', d, rfl, ?_, ?_⟩
            · rwa [List.append_assoc a, List.singleton_append]
            · rwa [List.append_assoc a, List.singleton_append]
    · -- the header has ended
      rw [if_pos he]
      constructor
      · intro hnone
        cases hnone
      · rintro ⟨b, -, -, -, hgo, -⟩
        have hmono := taken_mono FITS_CHUNK_LENGTH a b
        exact absurd hstop (hgo k (by omega))

end Units

/-! ## Headers of whole units -/

theorem chunk_pos : 0 < FITS_CHUNK_LENGTH := by decide

/-- The file loader on a header of one unit. -/
theorem headerLoop_headerUnit {fits fits' : FitsHeader} {cards : List String} (h : ReadsCards fits fits' cards) (n : ℕ)
    (header rest : Bytes) :
    headerLoop (n + 1) fits header (headerUnit cards ++ rest) =
      if fits'.naxis ≠ 0 then some ⟨headerEnd fits', header ++ headerUnit cards⟩
      else headerLoop n fits' (header ++ headerUnit cards) rest := by
  have hlen := headerUnit_length h
  rw [headerLoop, List.take_left' hlen, List.drop_left' hlen, process_headerUnit h]
  simp only [true_and]

/-- The file loader on a file that starts with one. -/
theorem fileHeader_headerUnit {fits fits' : FitsHeader} {cards : List String} (h : ReadsCards fits fits' cards)
    (hnaxis : fits'.naxis ≠ 0) (rest : Bytes) :
    fileHeader fits (headerUnit cards ++ rest) = some ⟨headerEnd fits', headerUnit cards⟩ := by
  have hunits : (headerUnit cards ++ rest).length / FITS_CHUNK_LENGTH = rest.length / FITS_CHUNK_LENGTH + 1 := by
    rw [List.length_append, headerUnit_length h, Nat.add_div_left _ chunk_pos]
  unfold fileHeader
  rw [hunits, headerLoop_headerUnit h, if_pos hnaxis, List.nil_append]

/-- The downloader on a piece that starts with one. -/
theorem scanAll_headerUnit {fits fits' : FitsHeader} {cards : List String} (h : ReadsCards fits fits' cards) {rest : Bytes}
    (hroom : FITS_CHUNK_LENGTH + rest.length ≤ BUFFER_LENGTH) :
    ((scanAll (Download.init fits) [headerUnit cards ++ rest]).map Download.loaded).map Option.isSome =
      some (decide (0 < fits'.naxis)) := by
  have hlen := headerUnit_length h
  have hdata : ((Download.init fits).data.readUnit (headerUnit cards)).hdr_end = decide (0 < fits'.naxis) := by
    have hfits : (Download.init fits).data.fits = fits := rfl
    unfold Dataset.readUnit
    rw [hfits, process_headerUnit h]
    dsimp only
    rw [Bool.true_and]
    by_cases hnaxis : 0 < fits'.naxis
    · rw [if_pos (decide_eq_true hnaxis), decide_eq_true hnaxis]
      rfl
    · rw [if_neg (by rwa [decide_eq_true_iff]), decide_eq_false hnaxis]
      rfl
  have hbuffer : (Download.init fits).buffer ++ (headerUnit cards ++ rest) = headerUnit cards ++ rest := rfl
  have hwaiting : (Download.init fits).buffer.length = 0 := rfl
  rw [scanAll, if_neg (show ¬ (Download.init fits).data.hdr_end = true from Bool.noConfusion)]
  unfold scanFitsHeader
  dsimp only
  rw [hbuffer, hwaiting, List.length_append, hlen, if_neg (by omega), if_neg (by omega), Option.bind_some, scanAll,
    Option.map_some, Option.map_some, List.take_left' hlen]
  unfold Download.loaded
  dsimp only
  rw [hdata]
  cases decide (0 < fits'.naxis) <;> rfl

/-! ## The same header -/

def unitsIn (cs : List Bytes) : ℕ := cs.flatten.length / FITS_CHUNK_LENGTH

/-- The header ends with unit `k`: the first one with an END card and NAXIS other than 0. -/
def EndsWith (fits : FitsHeader) (file : Bytes) (k : ℕ) : Prop :=
  k < file.length / FITS_CHUNK_LENGTH ∧ FileStops fits file k ∧ ∀ j < k, ¬ FileStops fits file j

def NaxisPositive (fits : FitsHeader) (file : Bytes) : Prop :=
  ∀ k, EndsWith fits file k → 0 < (fieldsAt fits file (k + 1)).naxis

/-- Wherever the calls are cut in two, the units of the first part and a call for each piece
    of the second are enough for the header. -/
def KeepsPace (fits : FitsHeader) (cs : List Bytes) : Prop :=
  ∀ k, EndsWith fits cs.flatten k → ∀ a b, cs = a ++ b → k < unitsIn a + b.length

/-- Every piece fits behind what waits, until the header has ended. -/
def PiecesFit (fits : FitsHeader) (cs : List Bytes) : Prop :=
  ∀ a b c d, cs = a ++ b ++ c :: d → (∀ k, EndsWith fits cs.flatten k → unitsIn a + b.length ≤ k) →
    (a ++ b ++ [c]).flatten.length ≤ BUFFER_LENGTH + FITS_CHUNK_LENGTH * (unitsIn a + b.length)

/-- Both loaders have the same header, for a file in these pieces; or neither has one. -/
def SameHeader (fits : FitsHeader) (cs : List Bytes) : Prop :=
  (scanAll (Download.init fits) cs).map Download.loaded = some (fileHeader fits cs.flatten)

theorem keepsPace_iff {fits : FitsHeader} {cs : List Bytes} :
    KeepsPace fits cs ↔ ∀ k, EndsWith fits cs.flatten k → k < taken FITS_CHUNK_LENGTH cs :=
  forall₂_congr fun k _ => (le_taken_iff chunk_pos (k + 1) cs).symm

theorem piecesFit_iff {fits : FitsHeader} {cs : List Bytes} :
    PiecesFit fits cs ↔
      ∀ b c d, cs = b ++ c :: d → (∀ k, EndsWith fits cs.flatten k → taken FITS_CHUNK_LENGTH b ≤ k) →
        (b ++ [c]).flatten.length ≤ BUFFER_LENGTH + FITS_CHUNK_LENGTH * taken FITS_CHUNK_LENGTH b := by
  constructor
  · intro h b c d hcs hshort
    obtain ⟨x, y, rfl, hleast⟩ := exists_taken chunk_pos b
    have hfit := h x y c d hcs fun k hk => by
      have hle := hshort k hk
      rwa [hleast] at hle
    rwa [hleast]
  · intro h a b c d hcs hshort
    have hle : taken FITS_CHUNK_LENGTH (a ++ b) ≤ unitsIn a + b.length :=
      (le_taken_iff chunk_pos _ _).mp (Nat.le_refl _) a b rfl
    have hfit := h (a ++ b) c d hcs fun k hk => Nat.le_trans hle (hshort k hk)
    have hmul := Nat.mul_le_mul_left FITS_CHUNK_LENGTH hle
    omega

theorem endsWith_unique {fits : FitsHeader} {file : Bytes} {j k : ℕ} (hj : EndsWith fits file j) (hk : EndsWith fits file k) :
    j = k := by
  rcases Nat.lt_trichotomy j k with h | h | h
  · exact absurd hj.2.1 (hk.2.2 j h)
  · exact h
  · exact absurd hk.2.1 (hj.2.2 k h)

theorem headerAt_length {fits : FitsHeader} {file : Bytes} {k : ℕ} (h : k < file.length / FITS_CHUNK_LENGTH) :
    (headerAt fits file k).hdr_len = FITS_CHUNK_LENGTH * (k + 1) := by
  have hlen : FITS_CHUNK_LENGTH * (k + 1) ≤ file.length := by
    rw [Nat.mul_comm]
    exact (Nat.le_div_iff_mul_le chunk_pos).mp h
  unfold LoadedHeader.hdr_len headerAt
  rw [List.length_take, Nat.min_eq_left hlen]

/-- With the copies in the buffer, what the downloader has after the last piece. -/
theorem scanAll_eq (fits : FitsHeader) (cs : List Bytes) {t : Download} (h : scanAll (Download.init fits) cs = some t) :
    (∃ k, k < taken FITS_CHUNK_LENGTH cs ∧ StreamStops fits cs.flatten k ∧ (∀ j < k, ¬ StreamStops fits cs.flatten j) ∧
        t.loaded = some (headerAt fits cs.flatten k)) ∨
      (∀ j < taken FITS_CHUNK_LENGTH cs, ¬ StreamStops fits cs.flatten j) ∧ t.loaded = none := by
  obtain ⟨b, c, hcs, hscan, hlast⟩ :=
    scanned_of_scanAll cs (init_running fits cs.flatten).toScanned (List.prefix_refl _) h
  rw [List.nil_append] at hscan
  unfold Download.loaded
  rcases hscan.fields with ⟨he, -, hbefore⟩ | ⟨he, k, hk, hstop, hbefore, hfits⟩
  · rw [if_neg (by rw [he]; exact Bool.false_ne_true)]
    rcases hlast with hend | rfl
    · exact absurd (he.symm.trans hend) Bool.false_ne_true
    · rw [List.append_nil] at hcs
      subst hcs
      exact Or.inr ⟨hbefore, rfl⟩
  · rw [if_pos he]
    have hmono := taken_mono FITS_CHUNK_LENGTH b c
    rw [← hcs] at hmono
    refine Or.inl ⟨k, by omega, hstop, hbefore, ?_⟩
    rw [hfits, hscan.header, hk]
    rfl

/-- No copy runs over the buffer. -/
theorem scanAll_isSome_iff (fits : FitsHeader) (cs : List Bytes) :
    (∃ t, scanAll (Download.init fits) cs = some t) ↔
      ∀ b c d, cs = b ++ c :: d → (∀ j < taken FITS_CHUNK_LENGTH b, ¬ StreamStops fits cs.flatten j) →
        (b ++ [c]).flatten.length ≤ BUFFER_LENGTH + FITS_CHUNK_LENGTH * taken FITS_CHUNK_LENGTH b := by
  rw [← Option.isSome_iff_exists, ← Option.ne_none_iff_isSome, Ne,
    scanAll_none_iff cs (init_running fits cs.flatten).toScanned (List.prefix_refl _)]
  constructor
  · intro h b c d hcs hgo
    by_contra hover
    exact h ⟨b, c, d, hcs, hgo, by simpa using hover⟩
  · rintro h ⟨b, c, d, hcs, hgo, hover⟩
    have hfit := h b c d hcs hgo
    simp only [List.nil_append] at hover
    omega

theorem same_header_iff (fits : FitsHeader) (cs : List Bytes) :
    SameHeader fits cs ↔ NaxisPositive fits cs.flatten ∧ KeepsPace fits cs ∧ PiecesFit fits cs := by
  have hcalls : ∀ b c d, cs = b ++ c :: d → taken FITS_CHUNK_LENGTH b ≤ taken FITS_CHUNK_LENGTH cs := by
    intro b c d hcs
    rw [hcs]
    exact taken_mono FITS_CHUNK_LENGTH b (c :: d)
  have hunits := taken_le_blocks chunk_pos cs
  unfold SameHeader
  rw [keepsPace_iff, piecesFit_iff]
  rcases fileHeader_eq fits cs.flatten with ⟨k, hk, hstop, hbefore, hfile⟩ | ⟨hnone, hfile⟩
  · have hends : EndsWith fits cs.flatten k := ⟨hk, hstop, hbefore⟩
    have hstream : ∀ j < k, ¬ StreamStops fits cs.flatten j := fun j hj h => hbefore j hj (streamStops_file h)
    rw [hfile]
    constructor
    · intro hsame
      obtain ⟨t, ht, hloaded⟩ := Option.map_eq_some_iff.mp hsame
      rcases scanAll_eq fits cs ht with ⟨k', hk', hstop', -, hloaded'⟩ | ⟨-, hloaded'⟩
      · -- of one length, so of the same unit
        have hheader : headerAt fits cs.flatten k' = headerAt fits cs.flatten k :=
          Option.some.inj (hloaded'.symm.trans hloaded)
        have hlen := congrArg LoadedHeader.hdr_len hheader
        rw [headerAt_length hk, headerAt_length (Nat.lt_of_lt_of_le hk' hunits)] at hlen
        have hkk : k' = k := by
          have hmul := Nat.eq_of_mul_eq_mul_left chunk_pos hlen
          omega
        subst hkk
        refine ⟨fun j hj => ?_, fun j hj => ?_, ?_⟩
        · rw [endsWith_unique hj hends]
          exact hstop'.2
        · rw [endsWith_unique hj hends]
          exact hk'
        · intro b c d hcs hshort
          have hle := hshort k' hends
          exact (scanAll_isSome_iff fits cs).mp ⟨t, ht⟩ b c d hcs fun j hj => hstream j (by omega)
      · rw [hloaded'] at hloaded
        cases hloaded
    · rintro ⟨hnaxis, hpace, hfit⟩
      have hstopk : StreamStops fits cs.flatten k := ⟨hstop.1, hnaxis k hends⟩
      obtain ⟨t, ht⟩ := (scanAll_isSome_iff fits cs).mpr fun b c d hcs hgo => by
        refine hfit b c d hcs fun j hj => ?_
        rw [endsWith_unique hj hends]
        by_contra hlt
        exact hgo k (by omega) hstopk
      rw [ht, Option.map_some]
      rcases scanAll_eq fits cs ht with ⟨k', -, hstop', hbefore', hloaded⟩ | ⟨hgo, -⟩
      · rcases Nat.lt_trichotomy k' k with hlt | rfl | hgt
        · exact absurd hstop' (hstream k' hlt)
        · rw [hloaded]
        · exact absurd hstopk (hbefore' k hgt)
      · exact absurd hstopk (hgo k (hpace k hends))
  · have hnoend : ∀ j, ¬ EndsWith fits cs.flatten j := fun j h => hnone j h.1 h.2.1
    have hgo : ∀ j < taken FITS_CHUNK_LENGTH cs, ¬ StreamStops fits cs.flatten j :=
      fun j hj h => hnone j (Nat.lt_of_lt_of_le hj hunits) (streamStops_file h)
    rw [hfile]
    constructor
    · intro hsame
      obtain ⟨t, ht, -⟩ := Option.map_eq_some_iff.mp hsame
      refine ⟨fun j hj => absurd hj (hnoend j), fun j hj => absurd hj (hnoend j), ?_⟩
      intro b c d hcs _
      exact (scanAll_isSome_iff fits cs).mp ⟨t, ht⟩ b c d hcs fun j hj => hgo j (Nat.lt_of_lt_of_le hj (hcalls b c d hcs))
    · rintro ⟨-, -, hfit⟩
      obtain ⟨t, ht⟩ := (scanAll_isSome_iff fits cs).mpr fun b c d hcs _ =>
        hfit b c d hcs fun j hj => absurd hj (hnoend j)
      rw [ht, Option.map_some]
      rcases scanAll_eq fits cs ht with ⟨k', hk', hstop', -, -⟩ | ⟨-, hloaded⟩
      · exact absurd hstop' (hgo k' hk')
      · rw [hloaded]

/-- Two units in one piece: the second waits for a call that does not come. A NAXIS below 0:
    the file loader stops there, the downloader does not. -/
theorem headers_differ :
    ¬ SameHeader {} [headerUnit ["NAXIS   = 0", "END"] ++ headerUnit ["NAXIS   = 2", "END"]] ∧
      ¬ SameHeader {} [headerUnit ["NAXIS   = -1", "END"]] := by
  obtain ⟨hzero, htwo, hbelow⟩ : ReadsCards {} {} ["NAXIS   = 0", "END"] ∧ ReadsCards {} { naxis := 2 } ["NAXIS   = 2", "END"] ∧
      ReadsCards {} { naxis := -1 } ["NAXIS   = -1", "END"] := by
    decide +kernel
  constructor
  · intro h
    have hsame := congrArg (Option.map Option.isSome) h
    have hfile : fileHeader {} (headerUnit ["NAXIS   = 0", "END"] ++ headerUnit ["NAXIS   = 2", "END"]) =
        some ⟨headerEnd { naxis := 2 }, headerUnit ["NAXIS   = 0", "END"] ++ headerUnit ["NAXIS   = 2", "END"]⟩ := by
      have hunits : (FITS_CHUNK_LENGTH + FITS_CHUNK_LENGTH) / FITS_CHUNK_LENGTH = 0 + 1 + 1 := rfl
      unfold fileHeader
      rw [List.length_append, headerUnit_length hzero, headerUnit_length htwo, hunits, headerLoop_headerUnit hzero,
        if_neg (fun hne => hne rfl), List.nil_append]
      have hsecond := headerLoop_headerUnit htwo 0 (headerUnit ["NAXIS   = 0", "END"]) []
      rw [List.append_nil] at hsecond
      exact hsecond
    rw [scanAll_headerUnit hzero (by rw [headerUnit_length htwo]; decide), List.flatten_singleton, hfile] at hsame
    exact absurd hsame (by decide)
  · intro h
    have hsame := congrArg (Option.map Option.isSome) h
    have hscan := @scanAll_headerUnit {} { naxis := -1 } ["NAXIS   = -1", "END"] hbelow [] (by decide)
    have hfile := fileHeader_headerUnit hbelow (by decide) []
    rw [List.append_nil] at hscan hfile
    rw [hscan, List.flatten_singleton, hfile] at hsame
    exact absurd hsame (by decide)

end FitsWebQL
