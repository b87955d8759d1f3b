/-
  FitsWebQL.HeaderMemory — `process_fits_header_unit` and the value helpers over the memory
  they use: the unit's 2880 bytes, `hdrLine` of 81 with a NUL after the card, and a local
  `string` of 80 in each of the helpers of strings. A run that reads or writes outside them is
  `none`; one that does not gives what `processFitsHeaderUnit` does (`Header`).

  `hdr_get_string_value` looks at `string[strlen(string) - 1]`. Where `sscanf` stored nothing
  (the value does not begin with a quote, or only blanks follow it) this is `string[2^64 - 1]`,
  the byte before the array.

  Proved, for every unit:
  - `hdrGetStringValueMemory_eq`, `hdrGetStringValueWithSpacesMemory_eq`: what the helpers do
    with any value.
  - `headerTurn_some`, `headerTurn_none`: a card is read as in `Header`, or ends the run.
  - `unit_refines`: so is a unit.
  - `unit_safe_iff`: a unit is read within its memory exactly when each of its values for
    `hdr_get_string_value` is a quote with a token after it.
  - `blankValue_unsafe`: a card without a value.
-/

import FitsWebQL.Header
import FitsWebQL.Lib.CString

namespace FitsWebQL

open Lib.CString

/-! ## hdr_get_* in memory -/

/-- `char string[FITS_LINE_LENGTH] = ""`. -/
def localString : Bytes := List.replicate FITS_LINE_LENGTH 0

/-- The conversions of `sscanf(hdr, "'%s'", string)`: `%s` skips blanks and needs a byte. -/
def scanToken : Bytes → Option Bytes
  | 39 :: rest =>
    let token := (rest.dropWhile isspace).takeWhile fun b => !isspace b
    if token = [] then none else some token
  | _ => none

/-- `strlen(string) - 1`. -/
def lastPlace (len : ℕ) : ℕ := size_t (len - 1)

def hdrGetStringValueMemory (block : Bytes) (hdr : ℕ) : Option Bytes := do
  let value ← cstring block hdr
  let string ← match scanToken value with
    | some token => store localString token
    | none => some localString
  let len ← strlen string 0
  let b ← read string (lastPlace len)
  let string ← if b = 39 then write string (lastPlace len) 0 else some string
  cstring string 0

def hdrGetStringValueWithSpacesMemory (block : Bytes) (hdr : ℕ) : Option (Bytes × Bytes) := do
  match ← strchr block hdr 39 with
  | none =>
    let value ← cstring localString 0
    some (value, block)
  | some pos =>
    match ← strchr block (pos + 1) 39 with
    | none =>
      let value ← cstring localString 0
      some (value, block)
    | some tmp =>
      let block ← write block tmp 0
      let text ← cstring block (pos + 1)
      let string ← store localString text
      let value ← cstring string 0
      some (value, block)

inductive HdrValue where
  | int (set : FitsHeader → ℤ → FitsHeader)
  | long (set : FitsHeader → ℤ → FitsHeader)
  | double (set : FitsHeader → ℚ → FitsHeader)
  | string (set : FitsHeader → Bytes → FitsHeader)

/-- `atoi`, `atol` and `atof` read no further than the NUL. -/
def HdrValue.ofMemory (hdrLine : Bytes) (hdr : ℕ) (h : FitsHeader) : HdrValue → Option FitsHeader
  | int set => (cstring hdrLine hdr).map fun v => set h (hdrGetIntValue v)
  | long set => (cstring hdrLine hdr).map fun v => set h (hdrGetLongValue v)
  | double set => (cstring hdrLine hdr).map fun v => set h (hdrGetDoubleValue v)
  | string set => (hdrGetStringValueMemory hdrLine hdr).map (set h)

/-- The keys and helpers of `valueCards`. A card has one key, so that the order of the keys is
no matter; BTYPE and BUNIT are read twice and alike. -/
def valueReaders : List (Bytes × HdrValue) := [
  (lit "BITPIX  = ", .int fun h n => { h with bitpix := n }),
  (lit "NAXIS   = ", .int fun h n => { h with naxis := n }),
  (lit "NAXIS1  = ", .long fun h n => { h with width := n }),
  (lit "NAXIS2  = ", .long fun h n => { h with height := n }),
  (lit "NAXIS3  = ", .long fun h n => { h with depth := n }),
  (lit "NAXIS4  = ", .long fun h n => { h with polarisation := n }),
  (lit "BTYPE   = ", .string fun h s => { h with btype := s, beam_type := s }),
  (lit "BUNIT   = ", .string fun h s => { h with bunit := s, beam_unit := s }),
  (lit "BSCALE  = ", .double fun h x => { h with scale := { h.scale with bscale := x } }),
  (lit "BZERO   = ", .double fun h x => { h with scale := { h.scale with bzero := x } }),
  (lit "IGNRVAL = ", .double fun h x => { h with scale := { h.scale with ignrval := x } }),
  (lit "CRVAL1  = ", .double fun h x => { h with crval1 := x }),
  (lit "CDELT1  = ", .double fun h x => { h with cdelt1 := some x }),
  (lit "CRPIX1  = ", .double fun h x => { h with crpix1 := x }),
  (lit "CRVAL2  = ", .double fun h x => { h with crval2 := x }),
  (lit "CDELT2  = ", .double fun h x => { h with cdelt2 := some x }),
  (lit "CRPIX2  = ", .double fun h x => { h with crpix2 := x }),
  (lit "CRVAL3  = ", .double fun h x => { h with crval3 := x }),
  (lit "CDELT3  = ", .double fun h x => { h with cdelt3 := x }),
  (lit "CRPIX3  = ", .double fun h x => { h with crpix3 := x }),
  (lit "BMAJ    = ", .double fun h x => { h with bmaj := x }),
  (lit "BMIN    = ", .double fun h x => { h with bmin := x }),
  (lit "BPA     = ", .double fun h x => { h with bpa := x }),
  (lit "RESTFRQ = ", .double fun h x => { h with restfrq := x }),
  (lit "RESTFREQ= ", .double fun h x => { h with restfrq := x }),
  (lit "OBSRA   = ", .double fun h x => { h with obsra := x }),
  (lit "OBSDEC  = ", .double fun h x => { h with obsdec := x }),
  (lit "DATAMIN = ", .double fun h x => { h with scale := { h.scale with datamin := x } }),
  (lit "DATAMAX = ", .double fun h x => { h with scale := { h.scale with datamax := x } }),
  (lit "SPECSYS = ", .string fun h s => { h with specsys := s }),
  (lit "TIMESYS = ", .string fun h s => { h with timesys := s }),
  (lit "DATE-OBS= ", .string fun h s => { h with date_obs := s }),
  (lit "CUNIT1  = ", .string fun h s => { h with cunit1 := s }),
  (lit "CUNIT2  = ", .string fun h s => { h with cunit2 := s }),
  (lit "CUNIT3  = ", .string fun h s => { h with cunit3 := s }),
  (lit "CTYPE1  = ", .string fun h s => { h with ctype1 := s }),
  (lit "CTYPE2  = ", .string fun h s => { h with ctype2 := s }),
  (lit "CTYPE3  = ", .string fun h s => { h with ctype3 := s }),
  (lit "CD1_1   = ", .double fun h x => { h with cd1_1 := some x }),
  (lit "CD1_2   = ", .double fun h x => { h with cd1_2 := some x }),
  (lit "CD2_1   = ", .double fun h x => { h with cd2_1 := some x }),
  (lit "CD2_2   = ", .double fun h x => { h with cd2_2 := some x })]

/-! ## One card in memory -/

/-- `strncmp(hdrLine, key, 10) == 0`. -/
def keyed (hdrLine key : Bytes) : Option Bool := strncmp hdrLine key 10

def readValue (hdrLine : Bytes) (h : FitsHeader) (c : Bytes × HdrValue) : Option FitsHeader := do
  if ← keyed hdrLine c.1 then c.2.ofMemory hdrLine 10 h else some h

def readText (r : FitsHeader × Bytes) (c : Bytes × (FitsHeader → Bytes → FitsHeader)) : Option (FitsHeader × Bytes) := do
  if ← keyed r.2 c.1 then
    let v ← hdrGetStringValueWithSpacesMemory r.2 10
    some (c.2 r.1 v.1, v.2)
  else some r

def readFor (hdrLine key : Bytes) : Option Unit := do
  if ← keyed hdrLine key then
    let _ ← hdrGetStringValueMemory hdrLine 10
  some ()

/-- The rest of a card: `telescopeCard` and `surveyCard`, on the strings that are read. -/
def readKind (h : FitsHeader) (hdrLine : Bytes) : Option FitsHeader := do
  readFor hdrLine (lit "TELESCOP= ")
  let line ← cstring hdrLine 0
  let h := telescopeCard h line
  readFor hdrLine (lit "FRAMEID = ")
  some (surveyCard h line)

structure HeaderLoop where
  h : FitsHeader
  hdrLine : Bytes
  ended : Bool

def headerTurn (buf : Bytes) (s : HeaderLoop) (offset : ℕ) : Option HeaderLoop := do
  let hdrLine ← strncpy s.hdrLine (buf.drop offset) FITS_LINE_LENGTH
  let ended ← keyed (buf.drop offset) (lit "END       ")
  let h ← valueReaders.foldlM (readValue hdrLine) s.h
  let r ← textCards.foldlM readText (h, hdrLine)
  let h := r.1
  let h := if h.scale.datamin = h.scale.datamax then
      { h with scale := { h.scale with datamin := -FLT_MAX, datamax := FLT_MAX } } else h
  let h ← readKind h r.2
  some ⟨h, r.2, s.ended || ended⟩

/-- `process_fits_header_unit`, with what `hdrLine` and `buf` hold. -/
def processFitsHeaderUnitMemory (h : FitsHeader) (hdrLine buf : Bytes) : Option (FitsHeader × Bool) := do
  let hdrLine ← write hdrLine FITS_LINE_LENGTH 0
  let s ← (List.range' 0 (FITS_CHUNK_LENGTH / FITS_LINE_LENGTH) FITS_LINE_LENGTH).foldlM (headerTurn buf) ⟨h, hdrLine, false⟩
  some (s.h, s.ended)

/-! ## The condition -/

def tokenKeys : List Bytes := [lit "BTYPE   = ", lit "BUNIT   = ", lit "SPECSYS = ", lit "TIMESYS = ", lit "DATE-OBS= ",
  lit "CUNIT1  = ", lit "CUNIT2  = ", lit "CUNIT3  = ", lit "CTYPE1  = ", lit "CTYPE2  = ", lit "CTYPE3  = ",
  lit "TELESCOP= ", lit "FRAMEID = "]

def beginsToken : Bytes → Bool
  | 39 :: rest => rest.any fun b => !isspace b
  | _ => false

def cardLine (card : Bytes) : Bytes := card.takeWhile (· != 0)

def Readable (line : Bytes) : Prop := line.take 10 ∈ tokenKeys → beginsToken (line.drop 10) = true

/-! ## The helpers of strings -/

section Helpers

theorem localString_holds : Holds localString 0 [] := rfl

theorem scanned_ne_nil (rest : Bytes) :
    ((rest.dropWhile isspace).takeWhile fun b => !isspace b) ≠ [] ↔ (rest.any fun b => !isspace b) = true := by
  induction rest with
  | nil => simp
  | cons b rest ih =>
    cases hb : isspace b with
    | true =>
      rw [List.dropWhile_cons_of_pos hb, ih, List.any_cons, hb]
      rfl
    | false =>
      rw [List.dropWhile_cons_of_neg (by rw [hb]; exact Bool.false_ne_true), List.takeWhile_cons, List.any_cons, hb]
      simp

/-- What `sscanf` stores, and that `Header` has the value of it. -/
theorem scanToken_some {v token : Bytes} (h : scanToken v = some token) :
    token ≠ [] ∧ beginsToken v = true ∧ token.Sublist v ∧
      hdrGetStringValue v = if token.getLast? = some 39 then token.dropLast else token := by
  unfold scanToken at h
  split at h
  · dsimp only at h
    split at h
    · cases h
    · rename_i rest hne
      cases h
      refine ⟨hne, (scanned_ne_nil rest).mp hne, ?_, rfl⟩
      exact ((List.takeWhile_sublist _).trans (List.dropWhile_sublist _)).trans (List.sublist_cons_self _ _)
  · cases h

theorem scanToken_none {v : Bytes} (h : scanToken v = none) : beginsToken v = false := by
  unfold scanToken at h
  split at h
  · dsimp only at h
    split at h
    · rename_i rest hnil
      have hnot : ¬ (rest.any fun b => !isspace b) = true := fun hany => (scanned_ne_nil rest).mpr hany hnil
      exact Bool.eq_false_iff.mpr hnot
    · cases h
  · rename_i hquote
    unfold beginsToken
    split
    · exact absurd rfl (hquote _)
    · rfl

theorem lastPlace_zero : lastPlace 0 = 2 ^ 64 - 1 := by decide

theorem lastPlace_succ {n : ℕ} (h : n < FITS_LINE_LENGTH) : lastPlace (n + 1) = n := by
  unfold lastPlace size_t FITS_LINE_LENGTH at *
  omega

theorem hdrGetStringValueMemory_eq {block v : Bytes} {p : ℕ} (hv : Holds block p v) (hshort : v.length < FITS_LINE_LENGTH) :
    hdrGetStringValueMemory block p = if beginsToken v then some (hdrGetStringValue v) else none := by
  have hvalue : cstring block p = some v := hv
  unfold hdrGetStringValueMemory
  simp only [hvalue, Option.bind_eq_bind, Option.bind_some]
  cases hscan : scanToken v with
  | none =>
    rw [scanToken_none hscan]
    simp only [Option.bind_some, localString_holds.strlen, List.length_nil, lastPlace_zero]
    rfl
  | some token =>
    obtain ⟨hne, hbegins, hsub, hfield⟩ := scanToken_some hscan
    obtain ⟨start, last, rfl⟩ := (List.eq_nil_or_concat' token).resolve_left hne
    have hlen : (start ++ [last]).length < FITS_LINE_LENGTH := hsub.length_le.trans_lt hshort
    have hnul : 0 ∉ start ++ [last] := fun hmem => hv.nul_notMem (hsub.subset hmem)
    have hroom : (start ++ [last]).length < localString.length := hlen.trans_eq List.length_replicate.symm
    obtain ⟨string, hstore, hstring⟩ := holds_store hnul hroom
    have hread := hstring.read
    have hlast : (start ++ [last]).length = start.length + 1 := List.length_append
    have hplace : start.length < FITS_LINE_LENGTH := by omega
    rw [Nat.zero_add] at hread
    simp only [hstore, Option.bind_some, hstring.strlen, hlast, lastPlace_succ hplace, hread]
    rw [if_pos hbegins, hfield, List.getLast?_concat, List.dropLast_concat]
    split
    case isTrue hquote =>
      obtain ⟨hwrite, hcut⟩ := hstring.cut
      rw [Nat.zero_add] at hwrite hcut
      rw [hwrite, if_pos (by rw [hquote])]
      exact hcut
    case isFalse hother =>
      rw [if_neg fun h => hother (Option.some.inj h)]
      exact hstring

theorem withSpaces_no_quote {v : Bytes} (h : 39 ∉ v) : hdrGetStringValueWithSpaces v = ([], v) := by
  unfold hdrGetStringValueWithSpaces
  rw [List.dropWhile_eq_nil_iff.mpr (forall_bne h)]

theorem withSpaces_one_quote {before rest : Bytes} (hbefore : 39 ∉ before) (hrest : 39 ∉ rest) :
    hdrGetStringValueWithSpaces (before ++ 39 :: rest) = ([], before ++ 39 :: rest) := by
  unfold hdrGetStringValueWithSpaces
  rw [List.dropWhile_append_of_pos (forall_bne hbefore)]
  simp [List.takeWhile_eq_self_iff.mpr (forall_bne hrest)]

/-- The value between two quotes. -/
theorem withSpaces_quoted {before string : Bytes} (hbefore : 39 ∉ before) (hstring : 39 ∉ string) (rest : Bytes) :
    hdrGetStringValueWithSpaces (before ++ 39 :: (string ++ 39 :: rest)) = (string, before ++ 39 :: string) := by
  unfold hdrGetStringValueWithSpaces
  rw [List.dropWhile_append_of_pos (forall_bne hbefore), takeWhile_before hbefore]
  simp [takeWhile_before hstring]

/-- The second quote is overwritten, so that the string ends there, and the line. -/
theorem withSpaces_cut {block key before string rest : Bytes}
    (hline : Holds block 0 (key ++ (before ++ 39 :: (string ++ 39 :: rest)))) :
    let tmp := key.length + before.length + 1 + string.length
    write block tmp 0 = some (block.set tmp 0) ∧ Holds (block.set tmp 0) 0 (key ++ (before ++ 39 :: string)) ∧
      Holds (block.set tmp 0) (key.length + before.length + 1) string := by
  have hsplit : key ++ (before ++ 39 :: (string ++ 39 :: rest)) = (key ++ before ++ [39] ++ string) ++ 39 :: rest := by simp
  rw [hsplit] at hline
  obtain ⟨hwrite, hcut⟩ := hline.cut
  have htext := hcut.append_right
  have hjoin : key ++ before ++ [39] ++ string = key ++ (before ++ 39 :: string) := by simp
  simp only [List.length_append, List.length_singleton, Nat.zero_add] at hwrite hcut htext
  rw [hjoin] at hcut
  exact ⟨hwrite, hcut, htext⟩

/-- The text helper stays within its memory, whatever the value is. -/
theorem hdrGetStringValueWithSpacesMemory_eq {block key v : Bytes} (hline : Holds block 0 (key ++ v)) (hkey : key.length = 10)
    (hshort : v.length < FITS_LINE_LENGTH) :
    ∃ block', hdrGetStringValueWithSpacesMemory block 10 = some ((hdrGetStringValueWithSpaces v).1, block') ∧
      Holds block' 0 (key ++ (hdrGetStringValueWithSpaces v).2) ∧
      ∀ n : ℕ, block[n]? = some 0 → block'[n]? = some 0 := by
  have hv := hline.append_right
  rw [Nat.zero_add, hkey] at hv
  have hempty : cstring localString 0 = some [] := localString_holds
  unfold hdrGetStringValueWithSpacesMemory
  by_cases hfirst : 39 ∈ v
  case neg =>
    rw [hv.strchr_none hfirst, withSpaces_no_quote hfirst]
    simp only [Option.bind_eq_bind, Option.bind_some, hempty]
    exact ⟨block, rfl, hline, fun _ h => h⟩
  obtain ⟨before, rest, rfl, hbefore⟩ := List.eq_append_cons_of_mem hfirst
  have hrest : Holds block (10 + before.length + 1) rest := by
    rw [List.append_cons] at hv
    have h := hv.append_right
    rwa [List.length_append, List.length_singleton] at h
  rw [hv.strchr_some hbefore]
  by_cases hsecond : 39 ∈ rest
  case neg =>
    rw [withSpaces_one_quote hbefore hsecond]
    simp only [Option.bind_eq_bind, Option.bind_some, hrest.strchr_none hsecond, hempty]
    exact ⟨block, rfl, hline, fun _ h => h⟩
  obtain ⟨string, rest, rfl, hstring⟩ := List.eq_append_cons_of_mem hsecond
  obtain ⟨hwrite, hcut, htext⟩ := withSpaces_cut hline
  rw [hkey] at hwrite hcut htext
  have hroom : string.length < localString.length := by
    have hlen : localString.length = FITS_LINE_LENGTH := List.length_replicate
    simp only [List.length_append, List.length_cons] at hshort
    omega
  obtain ⟨text, hstore, hlocal⟩ := holds_store htext.nul_notMem hroom
  have htextValue : cstring (block.set (10 + before.length + 1 + string.length) 0) (10 + before.length + 1) = some string := htext
  have hlocalValue : cstring text 0 = some string := hlocal
  rw [withSpaces_quoted hbefore hstring]
  simp only [Option.bind_eq_bind, Option.bind_some, hrest.strchr_some hstring, hwrite, htextValue, hstore, hlocalValue]
  refine ⟨_, rfl, hcut, fun n hn => ?_⟩
  rw [List.getElem?_set]
  split
  case isTrue hplace =>
    have hlt := (List.getElem?_eq_some_iff.mp hn).1
    rw [← hplace] at hlt
    rw [if_pos hlt]
  case isFalse => exact hn

end Helpers

/-! ## Cards -/

section Cards

def IsKey (key : Bytes) : Prop := key.length = 10 ∧ 0 ∉ key

instance (key : Bytes) : Decidable (IsKey key) := inferInstanceAs (Decidable (_ ∧ _))

def HdrValue.isString : HdrValue → Bool
  | string _ => true
  | _ => false

def HdrValue.ofBytes : HdrValue → FitsHeader → Bytes → FitsHeader
  | int set, h, v => set h (hdrGetIntValue v)
  | long set, h, v => set h (hdrGetLongValue v)
  | double set, h, v => set h (hdrGetDoubleValue v)
  | string set, h, v => set h (hdrGetStringValue v)

theorem valueReaders_eq : valueReaders.map (fun c => (c.1, c.2.ofBytes)) = valueCards := (rfl)

theorem valueReaders_isKey : ∀ c ∈ valueReaders, IsKey c.1 := by decide +kernel

theorem textCards_isKey : ∀ c ∈ textCards, IsKey c.1 := by decide

theorem string_token : ∀ c ∈ valueReaders, c.2.isString = true → c.1 ∈ tokenKeys := by decide

theorem text_not_token : ∀ c ∈ textCards, c.1 ∉ tokenKeys := by decide

theorem token_cases : ∀ key ∈ tokenKeys,
    (∃ c ∈ valueReaders, c.2.isString = true ∧ c.1 = key) ∨ key = lit "TELESCOP= " ∨ key = lit "FRAMEID = " := by decide

variable {block line : Bytes}

structure HoldsLine (block line : Bytes) : Prop where
  holds : Holds block 0 line
  nul : block[FITS_LINE_LENGTH]? = some 0

theorem HoldsLine.length_le (h : HoldsLine block line) : line.length ≤ FITS_LINE_LENGTH :=
  h.holds.length_le (by rw [Nat.zero_add]; exact h.nul)

theorem keyed_eq (h : HoldsLine block line) {key : Bytes} (hkey : IsKey key) : keyed block key = some (hasKey line key) := by
  have hlen : FITS_LINE_LENGTH < block.length := (List.getElem?_eq_some_iff.mp h.nul).1
  have hten : key.length ≤ block.length := by
    rw [hkey.1]
    exact le_trans (by decide) hlen.le
  unfold keyed hasKey
  rw [← hkey.1, strncmp_eq hkey.2 hten, h.holds.take_beq hkey.2]

theorem hasKey_iff {key : Bytes} : hasKey line key = true ↔ line.take 10 = key := beq_iff_eq

/-- A line that has a key goes on after it. -/
theorem HoldsLine.value (h : HoldsLine block line) {key : Bytes} (hkey : IsKey key) (hhas : hasKey line key = true) :
    line = key ++ line.drop 10 ∧ Holds block 10 (line.drop 10) ∧ (line.drop 10).length < FITS_LINE_LENGTH := by
  have hsplit : line = key ++ line.drop 10 := by
    rw [← hasKey_iff.mp hhas, List.take_append_drop]
  have hholds := h.holds
  rw [hsplit] at hholds
  have hvalue := hholds.append_right
  rw [Nat.zero_add, hkey.1] at hvalue
  refine ⟨hsplit, hvalue, ?_⟩
  have hlen := h.length_le
  rw [hsplit, List.length_append, hkey.1] at hlen
  omega

theorem readValue_eq (h : HoldsLine block line) (fits : FitsHeader) {c : Bytes × HdrValue} (hkey : IsKey c.1) :
    readValue block fits c =
      if hasKey line c.1 then
        if c.2.isString = true ∧ beginsToken (line.drop 10) = false then none
        else some (c.2.ofBytes fits (line.drop 10))
      else some fits := by
  unfold readValue
  rw [keyed_eq h hkey]
  simp only [Option.bind_eq_bind, Option.bind_some]
  by_cases hhas : hasKey line c.1 = true
  · rw [if_pos hhas, if_pos hhas]
    obtain ⟨-, hvalue, hshort⟩ := h.value hkey hhas
    have hstring : cstring block 10 = some (line.drop 10) := hvalue
    cases c.2 with
    | int set => simp [HdrValue.ofMemory, HdrValue.ofBytes, HdrValue.isString, hstring]
    | long set => simp [HdrValue.ofMemory, HdrValue.ofBytes, HdrValue.isString, hstring]
    | double set => simp [HdrValue.ofMemory, HdrValue.ofBytes, HdrValue.isString, hstring]
    | string set =>
      unfold HdrValue.ofMemory
      rw [hdrGetStringValueMemory_eq hvalue hshort]
      cases beginsToken (line.drop 10) with
      | true => simp [HdrValue.ofBytes, HdrValue.isString]
      | false => simp [HdrValue.isString]
  · rw [if_neg hhas, if_neg hhas]

theorem readFor_eq (h : HoldsLine block line) {key : Bytes} (hkey : IsKey key) :
    readFor block key = if hasKey line key = true ∧ beginsToken (line.drop 10) = false then none else some () := by
  unfold readFor
  rw [keyed_eq h hkey]
  simp only [Option.bind_eq_bind, Option.bind_some]
  by_cases hhas : hasKey line key = true
  · obtain ⟨-, hvalue, hshort⟩ := h.value hkey hhas
    rw [if_pos hhas, hdrGetStringValueMemory_eq hvalue hshort]
    cases beginsToken (line.drop 10) with
    | true => simp
    | false => simp [hhas]
  · rw [if_neg hhas, if_neg fun hboth => hhas hboth.1]

def textTurn (r : FitsHeader × Bytes) (c : Bytes × (FitsHeader → Bytes → FitsHeader)) : FitsHeader × Bytes :=
  if hasKey r.2 c.1 then
    let v := hdrGetStringValueWithSpaces (r.2.drop 10)
    (c.2 r.1 v.1, r.2.take 10 ++ v.2)
  else r

theorem readText_eq (h : HoldsLine block line) (fits : FitsHeader) {c : Bytes × (FitsHeader → Bytes → FitsHeader)} (hkey : IsKey c.1) :
    ∃ block', readText (fits, block) c = some ((textTurn (fits, line) c).1, block') ∧ HoldsLine block' (textTurn (fits, line) c).2 := by
  unfold readText textTurn
  simp only [keyed_eq h hkey, Option.bind_eq_bind, Option.bind_some]
  by_cases hhas : hasKey line c.1 = true
  · obtain ⟨hsplit, -, hshort⟩ := h.value hkey hhas
    have hline := h.holds
    rw [hsplit] at hline
    obtain ⟨block', hread, hholds, hnuls⟩ := hdrGetStringValueWithSpacesMemory_eq hline hkey.1 hshort
    rw [if_pos hhas, if_pos hhas, hread]
    refine ⟨block', rfl, ⟨?_, hnuls _ h.nul⟩⟩
    rw [hasKey_iff.mp hhas]
    exact hholds
  · rw [if_neg hhas, if_neg hhas]
    exact ⟨block, rfl, h⟩

theorem Readable.begins (h : Readable line) {key : Bytes} (hkey : key ∈ tokenKeys) :
    ¬ (hasKey line key = true ∧ beginsToken (line.drop 10) = false) := by
  intro hblank
  have htake := hasKey_iff.mp hblank.1
  have hbegins := h (htake ▸ hkey)
  rw [hblank.2] at hbegins
  cases hbegins

theorem not_readable (h : ¬ Readable line) : line.take 10 ∈ tokenKeys ∧ beginsToken (line.drop 10) = false := by
  unfold Readable at h
  rw [Classical.not_imp, Bool.not_eq_true] at h
  exact h

/-! ### The loops over the keys -/

theorem foldlM_some {σ α : Type*} {f : σ → α → Option σ} {g : σ → α → σ} {l : List α}
    (h : ∀ s, ∀ c ∈ l, f s c = some (g s c)) (s : σ) : l.foldlM f s = some (l.foldl g s) := by
  induction l generalizing s with
  | nil => rfl
  | cons c l ih =>
    rw [List.foldlM_cons, List.foldl_cons, h s c List.mem_cons_self]
    exact ih (fun s c' hc' => h s c' (List.mem_cons_of_mem c hc')) (g s c)

theorem foldlM_none {σ α : Type*} {f : σ → α → Option σ} {l : List α} {c : α} (hc : c ∈ l) (h : ∀ s, f s c = none) (s : σ) :
    l.foldlM f s = none := by
  induction l generalizing s with
  | nil => cases hc
  | cons a l ih =>
    rw [List.foldlM_cons]
    rcases List.mem_cons.mp hc with rfl | htail
    · rw [h s]
      rfl
    · cases f s a with
      | none => rfl
      | some s' => exact ih htail s'

theorem readValues_some (h : HoldsLine block line) (hread : Readable line) (fits : FitsHeader) :
    valueReaders.foldlM (readValue block) fits =
      some (valueCards.foldl (fun h c => if hasKey line c.1 then c.2 h (line.drop 10) else h) fits) := by
  have hturn : ∀ (fits : FitsHeader), ∀ c ∈ valueReaders,
      readValue block fits c = some (if hasKey line c.1 then c.2.ofBytes fits (line.drop 10) else fits) := by
    intro fits c hc
    rw [readValue_eq h fits (valueReaders_isKey c hc)]
    by_cases hhas : hasKey line c.1 = true
    · rw [if_pos hhas, if_pos hhas]
      exact if_neg fun hblank => hread.begins (string_token c hc hblank.1) ⟨hhas, hblank.2⟩
    · rw [if_neg hhas, if_neg hhas]
  rw [← valueReaders_eq, List.foldl_map]
  exact foldlM_some hturn fits

theorem readValues_none (h : HoldsLine block line) (hblank : beginsToken (line.drop 10) = false) {c : Bytes × HdrValue}
    (hc : c ∈ valueReaders) (hstring : c.2.isString = true) (hkey : hasKey line c.1 = true) (fits : FitsHeader) :
    valueReaders.foldlM (readValue block) fits = none := by
  refine foldlM_none hc (fun fits => ?_) fits
  rw [readValue_eq h fits (valueReaders_isKey c hc), if_pos hkey]
  exact if_pos ⟨hstring, hblank⟩

theorem readTexts_eq {l : List (Bytes × (FitsHeader → Bytes → FitsHeader))} (hl : ∀ c ∈ l, IsKey c.1) (h : HoldsLine block line)
    (fits : FitsHeader) :
    ∃ block', l.foldlM readText (fits, block) = some ((l.foldl textTurn (fits, line)).1, block') ∧
      HoldsLine block' (l.foldl textTurn (fits, line)).2 := by
  induction l generalizing fits block line with
  | nil => exact ⟨block, rfl, h⟩
  | cons c l ih =>
    obtain ⟨block', hturn, hholds⟩ := readText_eq h fits (hl c List.mem_cons_self)
    rw [List.foldlM_cons, List.foldl_cons, hturn]
    exact ih (fun c' hc' => hl c' (List.mem_cons_of_mem c hc')) hholds (textTurn (fits, line) c).1

/-- The line of a string value is not cut by the text cards. -/
theorem textTurn_line (fits : FitsHeader) {c : Bytes × (FitsHeader → Bytes → FitsHeader)} (hkey : IsKey c.1) (hc : c.1 ∉ tokenKeys) :
    (textTurn (fits, line) c).2 = line ∨ (line.take 10 ∉ tokenKeys ∧ (textTurn (fits, line) c).2.take 10 ∉ tokenKeys) := by
  unfold textTurn
  by_cases hhas : hasKey line c.1 = true
  · rw [if_pos hhas]
    have htake := hasKey_iff.mp hhas
    dsimp only
    rw [htake, List.take_left' hkey.1]
    exact Or.inr ⟨hc, hc⟩
  · rw [if_neg hhas]
    exact Or.inl rfl

theorem textTurns_line {l : List (Bytes × (FitsHeader → Bytes → FitsHeader))} (hl : ∀ c ∈ l, IsKey c.1 ∧ c.1 ∉ tokenKeys)
    (r : FitsHeader × Bytes) :
    (l.foldl textTurn r).2 = r.2 ∨ (r.2.take 10 ∉ tokenKeys ∧ (l.foldl textTurn r).2.take 10 ∉ tokenKeys) := by
  induction l generalizing r with
  | nil => exact Or.inl rfl
  | cons c l ih =>
    obtain ⟨hkey, hc⟩ := hl c List.mem_cons_self
    rw [List.foldl_cons]
    have hrest := ih (fun c' hc' => hl c' (List.mem_cons_of_mem c hc')) (textTurn r c)
    rcases textTurn_line r.1 hkey hc with hsame | hcut
    · rw [show textTurn (r.1, r.2) c = textTurn r c from rfl] at hsame
      rwa [hsame] at hrest
    · refine Or.inr ⟨hcut.1, ?_⟩
      rcases hrest with hsame | hlast
      · rw [hsame]
        exact hcut.2
      · exact hlast.2

theorem textCards_readable (r : FitsHeader × Bytes) : Readable (textCards.foldl textTurn r).2 ↔ Readable r.2 := by
  rcases textTurns_line (fun c hc => ⟨textCards_isKey c hc, text_not_token c hc⟩) r with hsame | hcut
  · rw [hsame]
  · exact ⟨fun _ hmem => absurd hmem hcut.1, fun _ hmem => absurd hmem hcut.2⟩

theorem readKind_some (h : HoldsLine block line) (hread : Readable line) (fits : FitsHeader) :
    readKind fits block = some (surveyCard (telescopeCard fits line) line) := by
  have hline : cstring block 0 = some line := h.holds
  unfold readKind
  rw [readFor_eq h (by decide), if_neg (hread.begins (by decide)), readFor_eq h (by decide), if_neg (hread.begins (by decide)), hline]
  rfl

theorem readKind_none (h : HoldsLine block line) (hblank : beginsToken (line.drop 10) = false)
    (hkey : line.take 10 = lit "TELESCOP= " ∨ line.take 10 = lit "FRAMEID = ") (fits : FitsHeader) : readKind fits block = none := by
  have hline : cstring block 0 = some line := h.holds
  unfold readKind
  rw [readFor_eq h (by decide), readFor_eq h (by decide), hline]
  rcases hkey with htelescope | hframe
  · rw [if_pos ⟨hasKey_iff.mpr htelescope, hblank⟩]
    rfl
  · have hother : ¬ (hasKey line (lit "TELESCOP= ") = true ∧ beginsToken (line.drop 10) = false) := by
      intro hboth
      have htake := hasKey_iff.mp hboth.1
      rw [hframe] at htake
      exact absurd htake (by decide)
    rw [if_neg hother, if_pos ⟨hasKey_iff.mpr hframe, hblank⟩]
    rfl

/-! ### A turn of the loop over the cards -/

def cardAt (buf : Bytes) (offset : ℕ) : Bytes := (buf.drop offset).take FITS_LINE_LENGTH

theorem keyed_card (buf : Bytes) {offset : ℕ} (hcard : FITS_LINE_LENGTH ≤ (buf.drop offset).length) :
    keyed (buf.drop offset) (lit "END       ") = some (hasKey (cardAt buf offset) (lit "END       ")) := by
  have hkey : IsKey (lit "END       ") := by decide
  have hten : (lit "END       ").length ≤ (buf.drop offset).length := by
    rw [hkey.1]
    exact le_trans (by decide) hcard
  unfold keyed hasKey cardAt
  rw [List.take_take, Nat.min_eq_left (by decide), ← hkey.1, strncmp_eq hkey.2 hten]

theorem copied_card {hdrLine buf : Bytes} {offset : ℕ} (hline : hdrLine[FITS_LINE_LENGTH]? = some 0)
    (hcard : FITS_LINE_LENGTH ≤ (buf.drop offset).length) :
    ∃ block, strncpy hdrLine (buf.drop offset) FITS_LINE_LENGTH = some block ∧ HoldsLine block (cardLine (cardAt buf offset)) := by
  obtain ⟨block, hcopy, hholds, hnul⟩ := holds_strncpy hcard hline
  exact ⟨block, hcopy, hholds, hnul⟩

/-- What `processCard` makes of a header and a line when it has read them. -/
def finishCard (r : FitsHeader × Bytes) : FitsHeader :=
  let h := r.1
  let h := if h.scale.datamin = h.scale.datamax then
      { h with scale := { h.scale with datamin := -FLT_MAX, datamax := FLT_MAX } } else h
  surveyCard (telescopeCard h r.2) r.2

theorem processCard_eq (h : FitsHeader) (line : Bytes) :
    processCard h line = finishCard (textCards.foldl textTurn
      (valueCards.foldl (fun h c => if hasKey line c.1 then c.2 h (line.drop 10) else h) h, line)) := by
  unfold processCard finishCard textTurn
  rfl

theorem headerTurn_some (buf : Bytes) {s : HeaderLoop} {offset : ℕ} (hline : s.hdrLine[FITS_LINE_LENGTH]? = some 0)
    (hcard : FITS_LINE_LENGTH ≤ (buf.drop offset).length) (hread : Readable (cardLine (cardAt buf offset))) :
    ∃ block : Bytes, block[FITS_LINE_LENGTH]? = some 0 ∧
      headerTurn buf s offset = some ⟨processCard s.h (cardLine (cardAt buf offset)), block,
        s.ended || hasKey (cardAt buf offset) (lit "END       ")⟩ := by
  obtain ⟨copied, hcopy, hholds⟩ := copied_card hline hcard
  have hvalues := readValues_some hholds hread s.h
  rw [processCard_eq]
  generalize valueCards.foldl (fun h c => if hasKey (cardLine (cardAt buf offset)) c.1 then
    c.2 h ((cardLine (cardAt buf offset)).drop 10) else h) s.h = fits at hvalues
  obtain ⟨block, htexts, hlast⟩ := readTexts_eq textCards_isKey hholds fits
  have hreadable := (textCards_readable (fits, cardLine (cardAt buf offset))).mpr hread
  generalize textCards.foldl textTurn (fits, cardLine (cardAt buf offset)) = r at htexts hlast hreadable
  refine ⟨block, hlast.nul, ?_⟩
  unfold headerTurn
  simp only [hcopy, keyed_card buf hcard, hvalues, htexts, Option.bind_eq_bind, Option.bind_some]
  rw [readKind_some hlast hreadable]
  rfl

theorem headerTurn_none (buf : Bytes) {s : HeaderLoop} {offset : ℕ} (hline : s.hdrLine[FITS_LINE_LENGTH]? = some 0)
    (hcard : FITS_LINE_LENGTH ≤ (buf.drop offset).length) (hread : ¬ Readable (cardLine (cardAt buf offset))) :
    headerTurn buf s offset = none := by
  obtain ⟨copied, hcopy, hholds⟩ := copied_card hline hcard
  obtain ⟨htoken, hblank⟩ := not_readable hread
  unfold headerTurn
  simp only [hcopy, keyed_card buf hcard, Option.bind_eq_bind, Option.bind_some]
  rcases token_cases _ htoken with hstring | hkind
  · obtain ⟨c, hc, hisString, hkey⟩ := hstring
    rw [readValues_none hholds hblank hc hisString (hasKey_iff.mpr hkey.symm)]
    rfl
  · cases valueReaders.foldlM (readValue copied) s.h with
    | none => rfl
    | some fits =>
      -- the value is still there when the kind of image is read
      obtain ⟨block, htexts, hlast⟩ := readTexts_eq textCards_isKey hholds fits
      have hsame : (textCards.foldl textTurn (fits, cardLine (cardAt buf offset))).2 = cardLine (cardAt buf offset) := by
        rcases textTurns_line (fun c hc => ⟨textCards_isKey c hc, text_not_token c hc⟩) (fits, cardLine (cardAt buf offset))
          with hsame | hcut
        · exact hsame
        · exact absurd htoken hcut.1
      rw [hsame] at hlast
      simp only [htexts, Option.bind_some]
      rw [readKind_none hlast hblank hkind]
      rfl

end Cards

/-! ## Units -/

section Units

variable {buf : Bytes}

/-- What the loop has after the cards at `offsets`. -/
theorem headerTurns_some {offsets : List ℕ} (hcards : ∀ offset ∈ offsets, FITS_LINE_LENGTH ≤ (buf.drop offset).length)
    (hread : ∀ offset ∈ offsets, Readable (cardLine (cardAt buf offset))) {s : HeaderLoop}
    (hline : s.hdrLine[FITS_LINE_LENGTH]? = some 0) :
    ∃ block, offsets.foldlM (headerTurn buf) s =
      some ⟨(offsets.map (cardAt buf)).foldl (fun h card => processCard h (cardLine card)) s.h, block,
        s.ended || (offsets.map (cardAt buf)).any fun card => hasKey card (lit "END       ")⟩ := by
  induction offsets generalizing s with
  | nil =>
    refine ⟨s.hdrLine, ?_⟩
    rw [List.foldlM_nil, List.map_nil, List.foldl_nil, List.any_nil, Bool.or_false]
    rfl
  | cons offset offsets ih =>
    obtain ⟨block, hnul, hturn⟩ := headerTurn_some buf hline (hcards offset List.mem_cons_self) (hread offset List.mem_cons_self)
    obtain ⟨last, hrest⟩ := ih (fun o ho => hcards o (List.mem_cons_of_mem offset ho))
      (fun o ho => hread o (List.mem_cons_of_mem offset ho)) (s := ⟨_, block, _⟩) hnul
    refine ⟨last, ?_⟩
    rw [List.foldlM_cons, hturn, Option.bind_eq_bind, Option.bind_some, hrest, List.map_cons, List.foldl_cons, List.any_cons,
      Bool.or_assoc]

theorem headerTurns_none {offsets : List ℕ} (hcards : ∀ offset ∈ offsets, FITS_LINE_LENGTH ≤ (buf.drop offset).length)
    (hread : ∃ offset ∈ offsets, ¬ Readable (cardLine (cardAt buf offset))) {s : HeaderLoop}
    (hline : s.hdrLine[FITS_LINE_LENGTH]? = some 0) : offsets.foldlM (headerTurn buf) s = none := by
  induction offsets generalizing s with
  | nil =>
    obtain ⟨offset, hmem, -⟩ := hread
    cases hmem
  | cons offset offsets ih =>
    rw [List.foldlM_cons]
    by_cases hfirst : Readable (cardLine (cardAt buf offset))
    · obtain ⟨block, hnul, hturn⟩ := headerTurn_some buf hline (hcards offset List.mem_cons_self) hfirst
      obtain ⟨bad, hmem, hbad⟩ := hread
      have htail : bad ∈ offsets := by
        rcases List.mem_cons.mp hmem with rfl | htail
        · exact absurd hfirst hbad
        · exact htail
      rw [hturn, Option.bind_eq_bind, Option.bind_some]
      exact ih (fun o ho => hcards o (List.mem_cons_of_mem offset ho)) ⟨bad, htail, hbad⟩ hnul
    · rw [headerTurn_none buf hline (hcards offset List.mem_cons_self) hfirst]
      rfl

theorem cardsOf_eq (n : ℕ) (buf : Bytes) (start : ℕ) :
    cardsOf n (buf.drop start) = (List.range' start n FITS_LINE_LENGTH).map (cardAt buf) := by
  induction n generalizing start with
  | zero => rfl
  | succ n ih =>
    rw [List.range'_succ, List.map_cons, ← ih, ← List.drop_drop]
    rfl

def unitCards (buf : Bytes) : List Bytes := cardsOf (FITS_CHUNK_LENGTH / FITS_LINE_LENGTH) buf

def unitOffsets : List ℕ := List.range' 0 (FITS_CHUNK_LENGTH / FITS_LINE_LENGTH) FITS_LINE_LENGTH

theorem unitCards_eq (buf : Bytes) : unitCards buf = unitOffsets.map (cardAt buf) := cardsOf_eq _ buf 0

theorem unit_long (buf : List.Vector UInt8 FITS_CHUNK_LENGTH) {offset : ℕ} (h : offset ∈ unitOffsets) :
    FITS_LINE_LENGTH ≤ (buf.val.drop offset).length := by
  obtain ⟨i, hi, rfl⟩ := List.mem_range'.mp h
  rw [List.length_drop, buf.property]
  unfold FITS_CHUNK_LENGTH FITS_LINE_LENGTH at *
  omega

theorem hdrLine_nul (hdrLine : List.Vector UInt8 (FITS_LINE_LENGTH + 1)) :
    ∃ block : Bytes, write hdrLine.val FITS_LINE_LENGTH 0 = some block ∧ block[FITS_LINE_LENGTH]? = some 0 := by
  have hlt : FITS_LINE_LENGTH < hdrLine.val.length := by
    rw [hdrLine.property]
    exact Nat.lt_succ_self _
  refine ⟨_, if_pos hlt, ?_⟩
  rw [List.getElem?_set_self hlt]

theorem processFitsHeaderUnit_eq (h : FitsHeader) (buf : Bytes) :
    processFitsHeaderUnit h buf = ((unitCards buf).foldl (fun h card => processCard h (cardLine card)) h,
      (unitCards buf).any fun card => hasKey card (lit "END       ")) := by
  unfold processFitsHeaderUnit unitCards cardLine
  rfl

theorem unitMemory_some (h : FitsHeader) (hdrLine : List.Vector UInt8 (FITS_LINE_LENGTH + 1))
    (buf : List.Vector UInt8 FITS_CHUNK_LENGTH) (hread : ∀ card ∈ unitCards buf.val, Readable (cardLine card)) :
    processFitsHeaderUnitMemory h hdrLine.val buf.val = some (processFitsHeaderUnit h buf.val) := by
  obtain ⟨block, hwrite, hnul⟩ := hdrLine_nul hdrLine
  rw [unitCards_eq, List.forall_mem_map] at hread
  obtain ⟨last, hturns⟩ := headerTurns_some (fun offset ho => unit_long buf ho) hread (s := ⟨h, block, false⟩) hnul
  unfold unitOffsets at hturns
  unfold processFitsHeaderUnitMemory
  simp only [hwrite, hturns, Option.bind_eq_bind, Option.bind_some, Bool.false_or]
  rw [processFitsHeaderUnit_eq, unitCards_eq, unitOffsets]

theorem unitMemory_none (h : FitsHeader) (hdrLine : List.Vector UInt8 (FITS_LINE_LENGTH + 1))
    (buf : List.Vector UInt8 FITS_CHUNK_LENGTH) (hread : ∃ card ∈ unitCards buf.val, ¬ Readable (cardLine card)) :
    processFitsHeaderUnitMemory h hdrLine.val buf.val = none := by
  obtain ⟨block, hwrite, hnul⟩ := hdrLine_nul hdrLine
  obtain ⟨card, hcard, hbad⟩ := hread
  rw [unitCards_eq] at hcard
  obtain ⟨offset, ho, rfl⟩ := List.mem_map.mp hcard
  have hturns := headerTurns_none (fun offset ho => unit_long buf ho) ⟨offset, ho, hbad⟩ (s := ⟨h, block, false⟩) hnul
  unfold unitOffsets at hturns
  unfold processFitsHeaderUnitMemory
  simp only [hwrite, hturns, Option.bind_eq_bind, Option.bind_some, Option.bind_none]

/-- Within its memory a unit is read as in `Header`. -/
theorem unit_refines {h : FitsHeader} {hdrLine : List.Vector UInt8 (FITS_LINE_LENGTH + 1)}
    {buf : List.Vector UInt8 FITS_CHUNK_LENGTH} {r : FitsHeader × Bool}
    (hrun : processFitsHeaderUnitMemory h hdrLine.val buf.val = some r) : r = processFitsHeaderUnit h buf.val := by
  by_cases hread : ∀ card ∈ unitCards buf.val, Readable (cardLine card)
  · rw [unitMemory_some h hdrLine buf hread] at hrun
    exact (Option.some.inj hrun).symm
  · push Not at hread
    rw [unitMemory_none h hdrLine buf hread] at hrun
    cases hrun

theorem unit_safe_iff (h : FitsHeader) (hdrLine : List.Vector UInt8 (FITS_LINE_LENGTH + 1))
    (buf : List.Vector UInt8 FITS_CHUNK_LENGTH) :
    (∃ r, processFitsHeaderUnitMemory h hdrLine.val buf.val = some r) ↔ ∀ card ∈ unitCards buf.val, Readable (cardLine card) := by
  constructor
  · intro hrun
    obtain ⟨r, hr⟩ := hrun
    by_contra hread
    push Not at hread
    rw [unitMemory_none h hdrLine buf hread] at hr
    cases hr
  · intro hread
    exact ⟨_, unitMemory_some h hdrLine buf hread⟩

def blankValueUnit : Bytes := lit "CTYPE3  = " ++ List.replicate 2870 32

theorem blankValueUnit_length : blankValueUnit.length = FITS_CHUNK_LENGTH := by
  unfold blankValueUnit
  rw [List.length_append, List.length_replicate]
  rfl

/-- Its `string` stays empty, and the byte before it is looked at. -/
theorem blankValue_unsafe :
    ¬ ∃ r, processFitsHeaderUnitMemory (FitsHeader.defaults [] []) (List.replicate 81 0) blankValueUnit = some r := by
  have hcard : lit "CTYPE3  = " ++ List.replicate 70 32 ∈ unitCards blankValueUnit := by
    have htake : blankValueUnit.take FITS_LINE_LENGTH = lit "CTYPE3  = " ++ List.replicate 70 32 := by
      unfold blankValueUnit
      rw [List.take_append, List.take_replicate]
      rfl
    rw [← htake]
    exact List.mem_cons_self
  have hblank : ¬ Readable (cardLine (lit "CTYPE3  = " ++ List.replicate 70 32)) := by
    unfold Readable
    decide
  intro hrun
  obtain ⟨r, hr⟩ := hrun
  have hnone := unitMemory_none (FitsHeader.defaults [] []) ⟨List.replicate 81 0, List.length_replicate⟩
    ⟨blankValueUnit, blankValueUnit_length⟩ ⟨_, hcard, hblank⟩
  rw [hnone] at hr
  cases hr

end Units

end FitsWebQL
