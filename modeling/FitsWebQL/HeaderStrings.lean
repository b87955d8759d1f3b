/-
  FitsWebQL.HeaderStrings — what a header gets from cards with a quoted value: a quote, perhaps
  after blanks, the text (quotes in it doubled), the closing quote and, after blanks or at
  once, a comment behind a `/`.

  `hdr_get_string_value_with_spaces` reads to the next quote. `hdr_get_string_value` reads a
  token: it ends at a blank of the text, goes on into a comment that touches the closing
  quote, and loses a last quote whichever that is. It reads no value that has blanks before it
  (`HeaderMemory`).

  Proved, for every card of that form, whatever the header and the unit are:
  - `string_in_full_iff`: exactly which texts are stored, up to trailing blanks.
  - `jyPerBeam_cut`: the unit `'Jy / beam'` is stored as `Jy`.
-/

import FitsWebQL.HeaderMemory

namespace FitsWebQL

/-- The fields of quoted values, one for each key that sets them. -/
inductive StringField where
  | btype
  | beam_type
  | bunit
  | beam_unit
  | specsys
  | timesys
  | date_obs
  | cunit1
  | cunit2
  | cunit3
  | ctype1
  | ctype2
  | ctype3
  | line
  | j_line
  | filter
  | object

namespace StringField

def key : StringField → Bytes
  | btype => lit "BTYPE   = "
  | beam_type => lit "BTYPE   = "
  | bunit => lit "BUNIT   = "
  | beam_unit => lit "BUNIT   = "
  | specsys => lit "SPECSYS = "
  | timesys => lit "TIMESYS = "
  | date_obs => lit "DATE-OBS= "
  | cunit1 => lit "CUNIT1  = "
  | cunit2 => lit "CUNIT2  = "
  | cunit3 => lit "CUNIT3  = "
  | ctype1 => lit "CTYPE1  = "
  | ctype2 => lit "CTYPE2  = "
  | ctype3 => lit "CTYPE3  = "
  | line => lit "LINE    = "
  | j_line => lit "J_LINE  = "
  | filter => lit "FILTER  = "
  | object => lit "OBJECT  = "

def get : StringField → FitsHeader → Bytes
  | btype, h => h.btype
  | beam_type, h => h.beam_type
  | bunit, h => h.bunit
  | beam_unit, h => h.beam_unit
  | specsys, h => h.specsys
  | timesys, h => h.timesys
  | date_obs, h => h.date_obs
  | cunit1, h => h.cunit1
  | cunit2, h => h.cunit2
  | cunit3, h => h.cunit3
  | ctype1, h => h.ctype1
  | ctype2, h => h.ctype2
  | ctype3, h => h.ctype3
  | line, h => h.line
  | j_line, h => h.line
  | filter, h => h.filter
  | object, h => h.object

/-- Read by `hdr_get_string_value_with_spaces`. -/
def spaced : StringField → Bool
  | line | j_line | filter | object => true
  | _ => false

end StringField

/-! ## Cards with a quoted value -/

def printable (b : UInt8) : Bool := decide (32 ≤ b) && decide (b ≤ 126)

def doubled : Bytes → Bool
  | [] => true
  | 39 :: 39 :: rest => doubled rest
  | 39 :: _ => false
  | _ :: rest => doubled rest

def commentOnly (rest : Bytes) : Bool :=
  match rest.dropWhile (· == 32) with
  | [] => true
  | b :: _ => b == 47

structure QuotedCard (key : Bytes) where
  blanks : ℕ
  text : Bytes
  rest : Bytes
  text_printable : text.all printable = true
  text_doubled : doubled text = true
  rest_printable : rest.all printable = true
  rest_comment : commentOnly rest = true
  length : key.length + blanks + 1 + text.length + 1 + rest.length = FITS_LINE_LENGTH

def QuotedCard.value {key : Bytes} (c : QuotedCard key) : Bytes :=
  List.replicate c.blanks 32 ++ 39 :: (c.text ++ 39 :: c.rest)

def QuotedCard.bytes {key : Bytes} (c : QuotedCard key) : Bytes := key ++ c.value

def trim (text : Bytes) : Bytes := text.rdropWhile (· == 32)

/-- The card's turn stays within its memory and stores the text, up to trailing blanks. -/
def StringField.ReadInFull (f : StringField) (c : QuotedCard f.key) : Prop :=
  ∀ (buf : Bytes) (s : HeaderLoop) (offset : ℕ), cardAt buf offset = c.bytes → s.hdrLine[FITS_LINE_LENGTH]? = some 0 →
    ∃ s', headerTurn buf s offset = some s' ∧ trim (f.get s'.h) = trim c.text

/-- The texts that are: without a quote for the one helper. For the other there is no blank
before the text or in it, and what stands where the token ends is no comment sign after the
closing quote, and no quote before a blank of the text. -/
def StringField.InFullWhen (f : StringField) (c : QuotedCard f.key) : Prop :=
  if f.spaced then 39 ∉ c.text
  else
    c.blanks = 0 ∧ 32 ∉ trim c.text ∧
      if trim c.text = c.text ∨ trim c.text = [] then c.rest.head? ≠ some 47 else (trim c.text).getLast? ≠ some 39

/-! ## Tokens -/

section Tokens

theorem printable_space {b : UInt8} (h : printable b = true) : isspace b = (b == 32) := by
  unfold printable at h
  rw [Bool.and_eq_true, decide_eq_true_eq, decide_eq_true_eq] at h
  have hnot : ¬ b ≤ 13 := fun hle => absurd (UInt8.le_trans h.1 hle) (by decide)
  unfold isspace
  rw [decide_eq_false hnot, Bool.and_false, Bool.or_false]

def unquote (token : Bytes) : Bytes := if token.getLast? = some 39 then token.dropLast else token

def firstToken (s : Bytes) : Bytes := (s.dropWhile isspace).takeWhile fun b => !isspace b

theorem hdrGetStringValue_quote (s : Bytes) : hdrGetStringValue (39 :: s) = unquote (firstToken s) := rfl

theorem unquote_sublist (token : Bytes) : (unquote token).Sublist token := by
  unfold unquote
  split
  · exact List.dropLast_sublist token
  · exact List.Sublist.refl token

theorem unquote_length (token : Bytes) : token.length - 1 ≤ (unquote token).length := by
  unfold unquote
  split
  · exact List.length_dropLast.ge
  · exact Nat.sub_le _ _

theorem blank_notMem_firstToken (s : Bytes) : 32 ∉ firstToken s := by
  intro h
  have hnot := List.mem_takeWhile_imp h
  cases hnot

/-- The closing quote is in the token: it is the one that goes if nothing follows it. -/
theorem unquote_closed_iff (w tail : Bytes) : unquote (w ++ 39 :: tail) = w ↔ tail = [] := by
  constructor
  · intro h
    have hlen := unquote_length (w ++ 39 :: tail)
    rw [h, List.length_append, List.length_cons] at hlen
    apply List.eq_nil_of_length_eq_zero
    omega
  · intro h
    subst h
    unfold unquote
    rw [List.getLast?_concat, if_pos rfl, List.dropLast_concat]

/-- It is not. -/
theorem unquote_self_iff {w : Bytes} (h : w ≠ []) : unquote w = w ↔ w.getLast? ≠ some 39 := by
  unfold unquote
  split
  case isTrue hlast =>
    have hpos := List.length_pos_iff.mpr h
    constructor
    · intro hsame
      have hlen := congrArg List.length hsame
      rw [List.length_dropLast] at hlen
      omega
    · intro hnot
      exact absurd hlast hnot
  case isFalse hlast => exact ⟨fun _ => hlast, fun _ => rfl⟩

theorem trim_eq_self {s : Bytes} (h : 32 ∉ s) : trim s = s := by
  unfold trim
  rw [List.rdropWhile_eq_self_iff]
  intro hne hlast
  exact h (beq_iff_eq.mp hlast ▸ List.getLast_mem hne)

theorem trim_append (text : Bytes) : ∃ m, text = trim text ++ List.replicate m 32 := by
  refine ⟨(text.rtakeWhile (· == 32)).length, ?_⟩
  have hall : ∀ b ∈ text.rtakeWhile (· == 32), b = 32 := by
    intro b hb
    have hblank := List.mem_rtakeWhile_imp hb
    exact beq_iff_eq.mp hblank
  have hsplit := List.rdropWhile_append_rtakeWhile (p := (· == 32)) (l := text)
  rw [List.eq_replicate_of_mem hall] at hsplit
  exact hsplit.symm

theorem firstToken_blank (m : ℕ) (s : Bytes) : firstToken (List.replicate m 32 ++ s) = firstToken s := by
  have hall : ∀ b ∈ List.replicate m (32 : UInt8), isspace b = true := by
    intro b hb
    rw [List.eq_of_mem_replicate hb]
    rfl
  unfold firstToken
  rw [List.dropWhile_append_of_pos hall]

theorem firstToken_word {u : Bytes} (hu : ∀ b ∈ u, isspace b = false) (hne : u ≠ []) (s : Bytes) :
    firstToken (u ++ s) = u ++ s.takeWhile fun b => !isspace b := by
  have hall : ∀ b ∈ u, (!isspace b) = true := fun b hb => by rw [hu b hb]; rfl
  obtain ⟨b, u, rfl⟩ := List.exists_cons_of_ne_nil hne
  have hfirst : ¬ isspace b = true := by
    rw [hu b List.mem_cons_self]
    exact Bool.false_ne_true
  unfold firstToken
  rw [List.cons_append, List.dropWhile_cons_of_neg hfirst, ← List.cons_append, List.takeWhile_append_of_pos hall]

theorem touching_nil_iff {rest : Bytes} (h : commentOnly rest = true) :
    (rest.takeWhile fun b => !isspace b) = [] ↔ rest.head? ≠ some 47 := by
  cases rest with
  | nil => simp
  | cons b rest =>
    by_cases hb : b = 32
    · subst hb
      simp [show isspace 32 = true from rfl]
    · have hslash : b = 47 := by
        unfold commentOnly at h
        rw [List.dropWhile_cons_of_neg (by simpa using hb)] at h
        exact beq_iff_eq.mp h
      subst hslash
      simp [show isspace 47 = false from rfl]

section Text

variable {text : Bytes} (hword : ∀ b ∈ trim text, isspace b = false) (rest : Bytes)

include hword

/-- The token has the closing quote, and what touches it. -/
theorem firstToken_closed (hclosed : trim text = text ∨ trim text = []) :
    firstToken (text ++ 39 :: rest) = trim text ++ 39 :: rest.takeWhile fun b => !isspace b := by
  have hquote : ∀ b ∈ trim text ++ [39], isspace b = false := by
    intro b hb
    rcases List.mem_append.mp hb with hmem | hmem
    · exact hword b hmem
    · rw [List.mem_singleton.mp hmem]
      rfl
  have hscan : firstToken (text ++ 39 :: rest) = firstToken ((trim text ++ [39]) ++ rest) := by
    rcases hclosed with hall | hnone
    · rw [hall, List.append_assoc]
      rfl
    · obtain ⟨m, hm⟩ := trim_append text
      rw [hnone, List.nil_append] at hm
      rw [hnone, hm, firstToken_blank]
      rfl
  rw [hscan, firstToken_word hquote (by simp), List.append_assoc]
  rfl

/-- The token ends at the blanks before the closing quote. -/
theorem firstToken_open (hshort : trim text ≠ text) (hne : trim text ≠ []) : firstToken (text ++ 39 :: rest) = trim text := by
  obtain ⟨m, hm⟩ := trim_append text
  have hm0 : m ≠ 0 := by
    intro h0
    rw [h0, List.replicate_zero, List.append_nil] at hm
    exact hshort hm.symm
  obtain ⟨n, rfl⟩ := Nat.exists_eq_succ_of_ne_zero hm0
  have hsplit : text ++ 39 :: rest = trim text ++ (List.replicate (n + 1) 32 ++ 39 :: rest) := by
    rw [← List.append_assoc, ← hm]
  rw [hsplit, firstToken_word hword hne, List.replicate_succ, List.cons_append]
  simp [show isspace 32 = true from rfl]

end Text

/-- The token of a text in quotes, less its last quote, is the text less its trailing blanks. -/
theorem token_iff {text rest : Bytes} (htext : text.all printable = true) (hrest : commentOnly rest = true) :
    unquote (firstToken (text ++ 39 :: rest)) = trim text ↔
      32 ∉ trim text ∧
        if trim text = text ∨ trim text = [] then rest.head? ≠ some 47 else (trim text).getLast? ≠ some 39 := by
  by_cases hblank : 32 ∈ trim text
  · constructor
    · intro h
      rw [← h] at hblank
      exact absurd ((unquote_sublist _).subset hblank) (blank_notMem_firstToken _)
    · intro h
      exact absurd hblank h.1
  have hword : ∀ b ∈ trim text, isspace b = false := by
    intro b hb
    have hprint := List.all_eq_true.mp htext b ((List.rdropWhile_prefix _ _).subset hb)
    rw [printable_space hprint, beq_eq_false_iff_ne]
    intro h32
    exact hblank (h32 ▸ hb)
  rw [and_iff_right hblank]
  by_cases hclosed : trim text = text ∨ trim text = []
  · rw [if_pos hclosed, firstToken_closed hword rest hclosed, unquote_closed_iff, touching_nil_iff hrest]
  · obtain ⟨hshort, hne⟩ := not_or.mp hclosed
    rw [if_neg hclosed, firstToken_open hword rest hshort hne, unquote_self_iff hne]

end Tokens

/-! ## Texts -/

section Texts

theorem mem_trim {text : Bytes} {b : UInt8} (h : b ∈ text) (hb : b ≠ 32) : b ∈ trim text := by
  obtain ⟨m, hm⟩ := trim_append text
  rw [hm] at h
  rcases List.mem_append.mp h with hmem | hmem
  · exact hmem
  · exact absurd (List.eq_of_mem_replicate hmem) hb

/-- A text is read to its first quote, which is the closing one if it has none. -/
theorem withSpaces_iff (blanks : ℕ) (text rest : Bytes) :
    trim (hdrGetStringValueWithSpaces (List.replicate blanks 32 ++ 39 :: (text ++ 39 :: rest))).1 = trim text ↔ 39 ∉ text := by
  have hblanks : (39 : UInt8) ∉ List.replicate blanks 32 := by
    intro h
    have h39 := List.eq_of_mem_replicate h
    cases h39
  constructor
  · intro h hquote
    obtain ⟨a, b, rfl, ha⟩ := List.eq_append_cons_of_mem hquote
    have hmem : 39 ∈ trim (a ++ 39 :: b) := mem_trim hquote (by decide)
    rw [List.append_assoc, List.cons_append, withSpaces_quoted hblanks ha] at h
    rw [← h] at hmem
    exact ha ((List.rdropWhile_prefix _ _).subset hmem)
  · intro h
    rw [withSpaces_quoted hblanks h]

end Texts

/-! ## The fields -/

section Fields

def SameStrings (h h' : FitsHeader) : Prop := ∀ f : StringField, f.get h' = f.get h

theorem SameStrings.trans {h h' h'' : FitsHeader} (hfirst : SameStrings h h') (hsecond : SameStrings h' h'') : SameStrings h h'' :=
  fun f => (hsecond f).trans (hfirst f)

theorem sameStrings_kind (h : FitsHeader) (flux : Bytes) (scale : Scale) (is_optical is_xray : Bool) :
    SameStrings h { h with flux := flux, scale := scale, is_optical := is_optical, is_xray := is_xray } := by
  intro f
  cases f <;> rfl

theorem SameStrings.ite {h h' : FitsHeader} (hsame : SameStrings h h') (p : Prop) [Decidable p] : SameStrings h (if p then h' else h) := by
  split
  · exact hsame
  · exact fun _ => rfl

theorem telescopeCard_same (h : FitsHeader) (line : Bytes) : SameStrings h (telescopeCard h line) := by
  unfold telescopeCard
  split
  · exact ((((sameStrings_kind h _ _ _ _).ite _).trans ((sameStrings_kind _ _ _ _ _).ite _)).trans
      ((sameStrings_kind _ _ _ _ _).ite _)).trans ((sameStrings_kind _ _ _ _ _).ite _)
  · exact fun _ => rfl

theorem surveyCard_same (h : FitsHeader) (line : Bytes) : SameStrings h (surveyCard h line) := by
  unfold surveyCard
  exact ((((sameStrings_kind h _ _ _ _).ite _).trans ((sameStrings_kind _ _ _ _ _).ite _)).trans
    (((sameStrings_kind _ _ _ _ _).ite _).ite _)).trans
    (((sameStrings_kind _ _ _ _ _).trans ((sameStrings_kind _ _ _ _ _).ite _)).ite _)

theorem finishCard_same (r : FitsHeader × Bytes) : SameStrings r.1 (finishCard r) := by
  unfold finishCard
  exact (((sameStrings_kind r.1 _ _ _ _).ite _).trans (telescopeCard_same _ _)).trans (surveyCard_same _ _)

theorem key_isKey (f : StringField) : IsKey f.key := by
  cases f <;> decide

theorem key_token_iff (f : StringField) : f.key ∈ tokenKeys ↔ f.spaced = false := by
  cases f <;> decide

/-- The card of a field sets it, to what its helper reads. -/
theorem values_get (f : StringField) (h : FitsHeader) (v : Bytes) :
    f.get (valueCards.foldl (fun h c => if hasKey (f.key ++ v) c.1 then c.2 h v else h) h) =
      if f.spaced then f.get h else hdrGetStringValue v := by
  cases f <;> rfl

theorem texts_get (f : StringField) (h : FitsHeader) (v : Bytes) :
    f.get (textCards.foldl textTurn (h, f.key ++ v)).1 = if f.spaced then (hdrGetStringValueWithSpaces v).1 else f.get h := by
  cases f <;> rfl

theorem processCard_get (f : StringField) (h : FitsHeader) (v : Bytes) :
    f.get (processCard h (f.key ++ v)) = if f.spaced then (hdrGetStringValueWithSpaces v).1 else hdrGetStringValue v := by
  have hdrop : (f.key ++ v).drop 10 = v := List.drop_left' (key_isKey f).1
  rw [processCard_eq, finishCard_same _ f, texts_get]
  simp only [hdrop]
  rw [values_get]
  cases f.spaced <;> rfl

end Fields

/-! ## Results -/

section Results

variable {f : StringField} (c : QuotedCard f.key)

theorem bytes_length : c.bytes.length = FITS_LINE_LENGTH := by
  unfold QuotedCard.bytes QuotedCard.value
  rw [← c.length]
  simp only [List.length_append, List.length_cons, List.length_replicate]
  omega

theorem printable_ne_zero {s : Bytes} (h : s.all printable = true) : 0 ∉ s := by
  intro hmem
  have hzero := List.all_eq_true.mp h 0 hmem
  cases hzero

theorem cardLine_bytes : cardLine c.bytes = c.bytes := by
  have hzero : 0 ∉ c.bytes := by
    intro hmem
    unfold QuotedCard.bytes QuotedCard.value at hmem
    simp only [List.mem_append, List.mem_cons] at hmem
    rcases hmem with hkey | hblank | hquote | htext | hquote | hrest
    · exact (key_isKey f).2 hkey
    · have h32 := List.eq_of_mem_replicate hblank
      cases h32
    · cases hquote
    · exact printable_ne_zero c.text_printable htext
    · cases hquote
    · exact printable_ne_zero c.rest_printable hrest
  exact List.takeWhile_eq_self_iff.mpr (Lib.CString.forall_bne hzero)

theorem bytes_take : c.bytes.take 10 = f.key := List.take_left' (key_isKey f).1

theorem bytes_drop : c.bytes.drop 10 = c.value := List.drop_left' (key_isKey f).1

theorem beginsToken_value : beginsToken c.value = true ↔ c.blanks = 0 := by
  unfold QuotedCard.value
  cases c.blanks with
  | zero =>
    have hclosing : ((c.text ++ 39 :: c.rest).any fun b => !isspace b) = true :=
      List.any_eq_true.mpr ⟨39, List.mem_append_right _ List.mem_cons_self, rfl⟩
    exact ⟨fun _ => rfl, fun _ => hclosing⟩
  | succ n =>
    constructor
    · intro h
      cases h
    · intro h
      cases h

theorem readable_iff : Readable (cardLine c.bytes) ↔ (f.spaced = false → c.blanks = 0) := by
  unfold Readable
  rw [cardLine_bytes, bytes_take, bytes_drop, key_token_iff, beginsToken_value]

/-- A card that is read leaves its text in the field under the condition only. -/
theorem field_iff (hread : f.spaced = false → c.blanks = 0) (h : FitsHeader) :
    trim (f.get (processCard h c.bytes)) = trim c.text ↔ f.InFullWhen c := by
  unfold QuotedCard.bytes StringField.InFullWhen
  rw [processCard_get]
  cases hspaced : f.spaced with
  | true =>
    rw [if_pos rfl, if_pos rfl]
    exact withSpaces_iff c.blanks c.text c.rest
  | false =>
    have hzero := hread hspaced
    have hvalue : c.value = 39 :: (c.text ++ 39 :: c.rest) := by
      unfold QuotedCard.value
      rw [hzero]
      rfl
    have htoken : 32 ∉ unquote (firstToken (c.text ++ 39 :: c.rest)) := fun hmem =>
      blank_notMem_firstToken _ ((unquote_sublist _).subset hmem)
    rw [if_neg Bool.false_ne_true, if_neg Bool.false_ne_true, and_iff_right hzero, hvalue, hdrGetStringValue_quote,
      trim_eq_self htoken]
    exact token_iff c.text_printable c.rest_comment

theorem turn_iff {buf : Bytes} {s : HeaderLoop} {offset : ℕ} (hcard : cardAt buf offset = c.bytes)
    (hline : s.hdrLine[FITS_LINE_LENGTH]? = some 0) :
    (∃ s', headerTurn buf s offset = some s' ∧ trim (f.get s'.h) = trim c.text) ↔ f.InFullWhen c := by
  have hlong : FITS_LINE_LENGTH ≤ (buf.drop offset).length := by
    have hlen := bytes_length c
    rw [← hcard, cardAt, List.length_take] at hlen
    omega
  by_cases hread : f.spaced = false → c.blanks = 0
  · have hreadable : Readable (cardLine (cardAt buf offset)) := by
      rw [hcard]
      exact (readable_iff c).mpr hread
    obtain ⟨block, -, hturn⟩ := headerTurn_some buf hline hlong hreadable
    rw [hturn, hcard, cardLine_bytes, ← field_iff c hread s.h]
    generalize processCard s.h c.bytes = fits
    constructor
    · intro h
      obtain ⟨s', hs', htext⟩ := h
      rw [← Option.some.inj hs'] at htext
      exact htext
    · intro h
      exact ⟨_, rfl, h⟩
  · have hreadable : ¬ Readable (cardLine (cardAt buf offset)) := by
      rw [hcard]
      exact fun h => hread ((readable_iff c).mp h)
    rw [headerTurn_none buf hline hlong hreadable]
    rw [Classical.not_imp] at hread
    constructor
    · intro h
      obtain ⟨s', hs', -⟩ := h
      cases hs'
    · intro h
      unfold StringField.InFullWhen at h
      rw [hread.1, if_neg Bool.false_ne_true] at h
      exact absurd h.1 hread.2

theorem cardAt_bytes : cardAt c.bytes 0 = c.bytes := by
  unfold cardAt
  rw [List.drop_zero, List.take_of_length_le (bytes_length c).le]

/-- A card that is read in full is so in a unit that begins with it. -/
theorem inFullWhen_of_read (h : f.ReadInFull c) : f.InFullWhen c :=
  (turn_iff c (cardAt_bytes c) rfl).mp
    (h c.bytes ⟨FitsHeader.defaults [] [], List.replicate 81 0, false⟩ 0 (cardAt_bytes c) rfl)

theorem string_in_full_iff (f : StringField) (c : QuotedCard f.key) : f.ReadInFull c ↔ f.InFullWhen c := by
  constructor
  · exact inFullWhen_of_read c
  · intro h buf s offset hcard hline
    exact (turn_iff c hcard hline).mpr h

theorem jyPerBeam_printable : (lit "Jy / beam").all printable = true := by decide

theorem jyPerBeam_doubled : doubled (lit "Jy / beam") = true := by decide

theorem blanks_printable : (List.replicate 59 (32 : UInt8)).all printable = true := by decide

theorem blanks_comment : commentOnly (List.replicate 59 32) = true := by decide

def jyPerBeam : QuotedCard (StringField.key .bunit) where
  blanks := 0
  text := lit "Jy / beam"
  rest := List.replicate 59 32
  text_printable := jyPerBeam_printable
  text_doubled := jyPerBeam_doubled
  rest_printable := blanks_printable
  rest_comment := blanks_comment
  length := rfl

/-- It is stored as `Jy`. -/
theorem jyPerBeam_cut : ¬ StringField.ReadInFull .bunit jyPerBeam := by
  intro h
  have hwhen := inFullWhen_of_read jyPerBeam h
  have hblank : 32 ∈ trim (lit "Jy / beam") := by decide
  exact hwhen.2.1 hblank

end Results

end FitsWebQL
