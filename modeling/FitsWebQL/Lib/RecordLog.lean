/-
  FitsWebQL.Lib.RecordLog — a file to which records are appended: a head of fixed size,
  which names the record and says how long the body behind it is. A record without a body
  is passed over.

  Two readers. `load` reads on from where it is, a body in one read of `most` bytes at most,
  and stops where the file does or a body is not read whole. `scan` walks the file in place,
  heads read with zeros behind the file's end, and tests only whether it has come past the
  end.

  Proved: on a file of whole records a walk sees every record, at its place (`scan_log`), and
  a reader those before the first that one read does not transfer (`load_log`); a walk that
  stays inside the file has seen whole records (`log_of_inside`).
-/

import Mathlib

namespace FitsWebQL.Lib.RecordLog

structure Format (κ : Type) where
  size : ℕ
  key : List UInt8 → κ
  bodyLength : List UInt8 → ℕ
  size_pos : 0 < size

variable {κ : Type} (F : Format κ)

structure Record where
  head : List UInt8
  body : List UInt8
  head_length : head.length = F.size
  body_length : body.length = F.bodyLength head

variable {F}

def Record.bytes (r : Record F) : List UInt8 := r.head ++ r.body

theorem Record.bytes_length (r : Record F) : r.bytes.length = F.size + F.bodyLength r.head := by
  unfold Record.bytes
  rw [List.length_append, r.head_length, r.body_length]

def logBytes (rs : List (Record F)) : List UInt8 := rs.flatMap Record.bytes

@[simp] theorem logBytes_nil : logBytes ([] : List (Record F)) = [] := rfl

@[simp] theorem logBytes_cons (r : Record F) (rs : List (Record F)) : logBytes (r :: rs) = r.bytes ++ logBytes rs := rfl

variable (F)

/-! ## The readers -/

def load (most : ℕ) : ℕ → List UInt8 → List (List UInt8 × List UInt8)
  | 0, _ => []
  | fuel + 1, rest =>
    if rest.length < F.size then []
    else
      let head := rest.take F.size
      let rest := rest.drop F.size
      let n := F.bodyLength head
      if n = 0 then load most fuel rest
      else if most < n ∨ rest.length < n then []
      else (head, rest.take n) :: load most fuel (rest.drop n)

def headAt (content : List UInt8) (off : ℕ) : List UInt8 := (content.drop off ++ List.replicate F.size 0).take F.size

/-- Heads and where they stand, walked in place. -/
def scan (content : List UInt8) : ℕ → ℕ → List (List UInt8 × ℕ)
  | 0, _ => []
  | fuel + 1, off =>
    let head := headAt F content off
    let next := off + F.size + F.bodyLength head
    (head, off) :: if next < content.length then scan content fuel next else []

/-- No head and no body seen by the walk reaches behind the file's end. -/
def StaysInside (content : List UInt8) : Prop :=
  ∀ v ∈ scan F content content.length 0, v.2 + F.size + F.bodyLength v.1 ≤ content.length

def Whole (content : List UInt8) : Prop := ∃ rs : List (Record F), content = logBytes rs

variable {F}

/-! ## Whole records -/

def visits : ℕ → List (Record F) → List (List UInt8 × ℕ)
  | _, [] => []
  | off, r :: rs => (r.head, off) :: visits (off + r.bytes.length) rs

theorem headAt_record (front : List UInt8) (r : Record F) (rest : List UInt8) :
    headAt F (front ++ (r.bytes ++ rest)) front.length = r.head := by
  unfold headAt Record.bytes
  rw [List.drop_left, List.append_assoc, List.append_assoc]
  exact List.take_left' r.head_length

theorem logBytes_length_pos {rs : List (Record F)} (h : rs ≠ []) : 0 < (logBytes rs).length := by
  cases rs with
  | nil => exact absurd rfl h
  | cons r rs =>
    have hsize := F.size_pos
    rw [logBytes_cons, List.length_append, r.bytes_length]
    omega

theorem length_le_bytes (rs : List (Record F)) : rs.length ≤ (logBytes rs).length := by
  induction rs with
  | nil => exact Nat.le_refl _
  | cons r rs ih =>
    have hsize := F.size_pos
    rw [logBytes_cons, List.length_cons, List.length_append, r.bytes_length]
    omega

theorem visits_le {off : ℕ} {rs : List (Record F)} {v : List UInt8 × ℕ} (h : v ∈ visits off rs) :
    v.2 + F.size + F.bodyLength v.1 ≤ off + (logBytes rs).length := by
  induction rs generalizing off with
  | nil => cases h
  | cons r rs ih =>
    rw [visits] at h
    rw [logBytes_cons, List.length_append, r.bytes_length]
    rcases List.mem_cons.mp h with rfl | h
    · dsimp only
      omega
    · have hle := ih h
      rw [r.bytes_length] at hle
      omega

theorem scan_log (front : List UInt8) {rs : List (Record F)} {fuel : ℕ} (hne : rs ≠ []) (hfuel : rs.length ≤ fuel) :
    scan F (front ++ logBytes rs) fuel front.length = visits front.length rs := by
  induction rs generalizing front fuel with
  | nil => exact absurd rfl hne
  | cons r rs ih =>
    cases fuel with
    | zero => exact absurd hfuel (Nat.not_succ_le_zero _)
    | succ fuel =>
      have hnext : front.length + F.size + F.bodyLength r.head = (front ++ r.bytes).length := by
        rw [List.length_append, r.bytes_length, Nat.add_assoc]
      rw [logBytes_cons, scan, headAt_record, hnext, visits]
      congr 1
      by_cases hrs : rs = []
      · subst hrs
        rw [logBytes_nil, List.append_nil, if_neg (Nat.lt_irrefl _)]
        rfl
      · have hpos := logBytes_length_pos hrs
        rw [← List.append_assoc, if_pos, ih (front ++ r.bytes) hrs (Nat.le_of_succ_le_succ hfuel), List.length_append]
        simp only [List.length_append]
        omega

/-- The records before the first whose body is too long for one read. -/
def readable (most : ℕ) (rs : List (Record F)) : List (Record F) := rs.takeWhile fun r => decide (F.bodyLength r.head ≤ most)

theorem load_log {most : ℕ} {rs : List (Record F)} {fuel : ℕ} (hfuel : rs.length < fuel) :
    load F most fuel (logBytes rs) =
      ((readable most rs).filter fun r => decide (0 < F.bodyLength r.head)).map fun r => (r.head, r.body) := by
  unfold readable
  induction rs generalizing fuel with
  | nil =>
    cases fuel with
    | zero => rfl
    | succ fuel =>
      rw [load, logBytes_nil]
      exact if_pos F.size_pos
  | cons r rs ih =>
    cases fuel with
    | zero => exact absurd hfuel (Nat.not_lt_zero _)
    | succ fuel =>
      have ih := ih (Nat.lt_of_succ_lt_succ hfuel)
      have hlong : ¬ (logBytes (r :: rs)).length < F.size := by
        rw [logBytes_cons, List.length_append, r.bytes_length]
        omega
      have hhead : (logBytes (r :: rs)).take F.size = r.head := by
        rw [logBytes_cons, Record.bytes, List.append_assoc]
        exact List.take_left' r.head_length
      have hdrop : (logBytes (r :: rs)).drop F.size = r.body ++ logBytes rs := by
        rw [logBytes_cons, Record.bytes, List.append_assoc]
        exact List.drop_left' r.head_length
      rw [load, if_neg hlong, hhead, hdrop]
      dsimp only
      by_cases hn : F.bodyLength r.head = 0
      · have hbody : r.body = [] := List.length_eq_zero_iff.mp (by rw [r.body_length, hn])
        rw [if_pos hn, hbody, List.nil_append, ih, List.takeWhile_cons_of_pos (by simp [hn]), List.filter_cons_of_neg]
        simp [hn]
      rw [if_neg hn]
      by_cases hmost : most < F.bodyLength r.head
      · rw [if_pos (Or.inl hmost), List.takeWhile_cons_of_neg (by simpa using hmost)]
        rfl
      · have hbody : ¬ (most < F.bodyLength r.head ∨ (r.body ++ logBytes rs).length < F.bodyLength r.head) := by
          rw [List.length_append, r.body_length]
          omega
        rw [if_neg hbody, List.take_left' r.body_length, List.drop_left' r.body_length, ih,
          List.takeWhile_cons_of_pos (by simpa using hmost), List.filter_cons_of_pos, List.map_cons]
        simp only [decide_eq_true_eq]
        omega

/-- A walk that stays inside the file has seen whole records up to the file's end. -/
theorem log_of_inside {content : List UInt8} {fuel off : ℕ} (hoff : off < content.length) (hfuel : content.length ≤ off + fuel)
    (h : ∀ v ∈ scan F content fuel off, v.2 + F.size + F.bodyLength v.1 ≤ content.length) :
    ∃ rs : List (Record F), content.drop off = logBytes rs := by
  induction fuel generalizing off with
  | zero => omega
  | succ fuel ih =>
    have hsize := F.size_pos
    rw [scan] at h
    have hfirst : off + F.size + F.bodyLength (headAt F content off) ≤ content.length := h _ List.mem_cons_self
    have hhead : headAt F content off = (content.drop off).take F.size := by
      unfold headAt
      rw [List.take_append_of_le_length]
      rw [List.length_drop]
      omega
    have hlength : (headAt F content off).length = F.size := by
      rw [hhead, List.length_take, List.length_drop]
      omega
    set r : Record F := ⟨headAt F content off, (content.drop (off + F.size)).take (F.bodyLength (headAt F content off)),
      hlength, by rw [List.length_take, List.length_drop]; omega⟩ with hr
    have hsplit : content.drop off = r.bytes ++ content.drop (off + F.size + F.bodyLength (headAt F content off)) := by
      have htail : ∀ n, (content.drop (off + F.size)).take n ++ content.drop (off + F.size + n) = content.drop (off + F.size) := by
        intro n
        have hbehind : content.drop (off + F.size + n) = (content.drop (off + F.size)).drop n := by rw [List.drop_drop]
        rw [hbehind, List.take_append_drop]
      show _ = headAt F content off ++ _ ++ _
      rw [List.append_assoc, htail, hhead, ← List.drop_drop, List.take_append_drop]
    by_cases hnext : off + F.size + F.bodyLength (headAt F content off) < content.length
    · rw [if_pos hnext] at h
      obtain ⟨rs, hrs⟩ := ih hnext (by omega) fun v hv => h v (List.mem_cons_of_mem _ hv)
      refine ⟨r :: rs, ?_⟩
      rw [hsplit, hrs, logBytes_cons]
    · refine ⟨[r], ?_⟩
      rw [hsplit, List.drop_eq_nil_of_le (Nat.le_of_not_lt hnext), logBytes_cons, logBytes_nil]

/-- The walk stays inside the file if and only if it is one of whole records. -/
theorem inside_iff_whole {content : List UInt8} (hne : content ≠ []) : StaysInside F content ↔ Whole F content := by
  have hpos : 0 < content.length := List.length_pos_iff.mpr hne
  refine ⟨?_, ?_⟩
  · intro h
    exact log_of_inside hpos (by omega) h
  · intro h
    obtain ⟨rs, rfl⟩ := h
    have hrs : rs ≠ [] := fun h0 => hne (by rw [h0, logBytes_nil])
    intro v hv
    have hscan := scan_log [] hrs (length_le_bytes rs)
    rw [List.nil_append] at hscan
    rw [List.length_nil] at hscan
    rw [hscan] at hv
    have hle := visits_le hv
    rwa [Nat.zero_add] at hle

end FitsWebQL.Lib.RecordLog
