/-
  FitsWebQL.AxisClass — what the spectral axis is, on both sides: `frame_reference_unit`
  and `frame_reference_type` of the server and of fitswebqlse.js, from the header's CUNIT3
  and CTYPE3. The browser builds its texts with `String.fromCharCode`, a code unit for
  each byte.

  Proved, for all texts: both read the same unit (`lowerCase_eq_iff`), and they agree
  exactly when the unit is not THz (the server's 1e12f is a single-precision number) and
  the type does not name both a frequency and a velocity, or the unit is one of velocity
  (`same_class_iff`): the browser returns once it has seen an f.
-/

import FitsWebQL.Header

namespace FitsWebQL

structure AxisClass where
  has_frequency : Bool
  has_velocity : Bool
  frame_multiplier : ℚ
  deriving DecidableEq

/-! ## The server -/

def FitsHeader.axisClass (h : FitsHeader) : AxisClass := ⟨h.has_frequency, h.has_velocity, h.frame_multiplier⟩

/-- The class of an axis from its two texts, the header's other fields as `defaults()`
    leaves them. -/
def serverClass (cunit3 ctype3 : Bytes) : AxisClass :=
  (frameReferenceType (frameReferenceUnit { cunit3 := cunit3, ctype3 := ctype3 })).axisClass

/-! ## The browser -/

/-- `toLowerCase`, of a code unit below 256. -/
def toLowerCase (b : UInt8) : UInt8 := if 65 ≤ b ∧ b ≤ 90 ∨ 192 ≤ b ∧ b ≤ 222 ∧ b ≠ 215 then b + 32 else b

def frameReferenceUnitJs (CUNIT3 : Bytes) (g : AxisClass) : AxisClass :=
  let unit := CUNIT3.map toLowerCase
  if unit = (lit "Hz").map toLowerCase then { g with has_frequency := true, frame_multiplier := 1 }
  else if unit = (lit "kHz").map toLowerCase then { g with has_frequency := true, frame_multiplier := 10 ^ 3 }
  else if unit = (lit "MHz").map toLowerCase then { g with has_frequency := true, frame_multiplier := 10 ^ 6 }
  else if unit = (lit "GHz").map toLowerCase then { g with has_frequency := true, frame_multiplier := 10 ^ 9 }
  else if unit = (lit "THz").map toLowerCase then { g with has_frequency := true, frame_multiplier := 10 ^ 12 }
  else if unit = (lit "m/s").map toLowerCase then { g with has_velocity := true, frame_multiplier := 1 }
  else if unit = (lit "km/s").map toLowerCase then { g with has_velocity := true, frame_multiplier := 10 ^ 3 }
  else g

def frameReferenceTypeJs (CTYPE3 : Bytes) (g : AxisClass) : AxisClass :=
  if (CTYPE3.map toLowerCase).contains 102 then { g with has_frequency := true }
  else if (CTYPE3.map toLowerCase).contains 118 then { g with has_velocity := true }
  else g

/-- From the globals' first values. -/
def browserClass (cunit3 ctype3 : Bytes) : AxisClass :=
  frameReferenceTypeJs ctype3 (frameReferenceUnitJs cunit3 ⟨false, false, 1⟩)

/-! ## Lower case -/

/-- Where the two differ, neither is ASCII. -/
theorem toLowerCase_cases (b : UInt8) : toLowerCase b = toLower b ∨ 128 ≤ toLowerCase b ∧ 128 ≤ toLower b := by
  have h : ∀ b : UInt8, toLowerCase b = toLower b ∨ 128 ≤ toLowerCase b ∧ 128 ≤ toLower b := by decide +kernel
  exact h b

theorem toLowerCase_eq_iff (b c : UInt8) (hc : c < 128) : toLowerCase b = c ↔ toLower b = c := by
  rcases toLowerCase_cases b with h | ⟨h1, h2⟩
  · rw [h]
  · constructor
    · rintro rfl
      exact absurd hc (UInt8.not_lt.mpr h1)
    · rintro rfl
      exact absurd hc (UInt8.not_lt.mpr h2)

theorem lowerCase_eq_iff (s t : Bytes) (ht : ∀ c ∈ t, c < 128) : s.map toLowerCase = t ↔ s.map toLower = t := by
  induction t generalizing s with
  | nil => simp only [List.map_eq_nil_iff]
  | cons c t ih =>
    cases s with
    | nil => simp only [List.map_nil, reduceCtorEq]
    | cons b s =>
      rw [List.map_cons, List.map_cons, List.cons.injEq, List.cons.injEq, toLowerCase_eq_iff b c (ht c (by simp)),
        ih s fun c hc => ht c (List.mem_cons_of_mem _ hc)]

/-- A unit of the browser's is the server's. -/
theorem is_unit (cunit3 : Bytes) (unit lower : String) (h : (lit unit).map toLowerCase = lit lower) (ht : ∀ c ∈ lit lower, c < 128) :
    cunit3.map toLowerCase = (lit unit).map toLowerCase ↔ cunit3.map toLower = lit lower := by
  rw [h, lowerCase_eq_iff _ _ ht]

/-- A text with a letter, in either case. -/
theorem contains_lowerCase (s : Bytes) (lower upper : UInt8) (h : ∀ b, toLowerCase b = lower ↔ b = lower ∨ b = upper) :
    (s.map toLowerCase).contains lower = (s.contains upper || s.contains lower) := by
  rw [Bool.eq_iff_iff, Bool.or_eq_true, List.contains_iff_mem, List.contains_iff_mem, List.contains_iff_mem, List.mem_map]
  constructor
  · rintro ⟨b, hb, hlower⟩
    rcases (h b).mp hlower with rfl | rfl
    · exact Or.inr hb
    · exact Or.inl hb
  · rintro (hb | hb)
    · exact ⟨upper, hb, (h upper).mpr (Or.inr rfl)⟩
    · exact ⟨lower, hb, (h lower).mpr (Or.inl rfl)⟩

/-! ## Both sides -/

def namesFrequency (ctype3 : Bytes) : Bool := ctype3.contains 70 || ctype3.contains 102

def namesVelocity (ctype3 : Bytes) : Bool := ctype3.contains 86 || ctype3.contains 118

def isVelocityUnit (cunit3 : Bytes) : Bool := cunit3.map toLower == lit "m/s" || cunit3.map toLower == lit "km/s"

theorem frameReferenceTypeJs_eq (ctype3 : Bytes) (g : AxisClass) :
    frameReferenceTypeJs ctype3 g =
      { g with
        has_frequency := g.has_frequency || namesFrequency ctype3
        has_velocity := g.has_velocity || (namesVelocity ctype3 && !namesFrequency ctype3) } := by
  unfold frameReferenceTypeJs namesFrequency namesVelocity
  rw [contains_lowerCase ctype3 102 70 (by decide +kernel), contains_lowerCase ctype3 118 86 (by decide +kernel)]
  cases ctype3.contains 70 <;> cases ctype3.contains 102 <;> cases ctype3.contains 86 <;> cases ctype3.contains 118 <;> simp

theorem axisClass_frameReferenceType (h : FitsHeader) :
    (frameReferenceType h).axisClass =
      { h.axisClass with
        has_frequency := h.has_frequency || namesFrequency h.ctype3
        has_velocity := h.has_velocity || namesVelocity h.ctype3 } := by
  simp only [frameReferenceType, FitsHeader.axisClass, namesFrequency, namesVelocity, Bool.or_assoc]

def isFrequencyUnit (cunit3 : Bytes) : Bool :=
  [lit "hz", lit "khz", lit "mhz", lit "ghz", lit "thz"].contains (cunit3.map toLower)

def unitMultiplier (cunit3 : Bytes) : ℚ :=
  let unit := cunit3.map toLower
  if unit = lit "khz" ∨ unit = lit "km/s" then 10 ^ 3
  else if unit = lit "mhz" then 10 ^ 6
  else if unit = lit "ghz" then 10 ^ 9
  else 1

/-- A text is one of the units or none. -/
theorem unit_cases (unit : Bytes) :
    unit ∈ [lit "hz", lit "khz", lit "mhz", lit "ghz", lit "thz", lit "m/s", lit "km/s"] ∨
      (unit ≠ lit "hz" ∧ unit ≠ lit "khz" ∧ unit ≠ lit "mhz" ∧ unit ≠ lit "ghz" ∧ unit ≠ lit "thz" ∧ unit ≠ lit "m/s" ∧
        unit ≠ lit "km/s") := by
  by_cases h : unit ∈ [lit "hz", lit "khz", lit "mhz", lit "ghz", lit "thz", lit "m/s", lit "km/s"]
  · exact Or.inl h
  · simp only [List.mem_cons, List.not_mem_nil, or_false, not_or] at h
    exact Or.inr h

theorem frameReferenceUnitJs_eq (cunit3 : Bytes) :
    frameReferenceUnitJs cunit3 ⟨false, false, 1⟩ =
      ⟨isFrequencyUnit cunit3, isVelocityUnit cunit3, if cunit3.map toLower = lit "thz" then 10 ^ 12 else unitMultiplier cunit3⟩ := by
  simp only [frameReferenceUnitJs, isFrequencyUnit, isVelocityUnit, unitMultiplier,
    is_unit cunit3 "Hz" "hz" (by decide +kernel) (by decide +kernel), is_unit cunit3 "kHz" "khz" (by decide +kernel) (by decide +kernel),
    is_unit cunit3 "MHz" "mhz" (by decide +kernel) (by decide +kernel), is_unit cunit3 "GHz" "ghz" (by decide +kernel) (by decide +kernel),
    is_unit cunit3 "THz" "thz" (by decide +kernel) (by decide +kernel), is_unit cunit3 "m/s" "m/s" (by decide +kernel) (by decide +kernel),
    is_unit cunit3 "km/s" "km/s" (by decide +kernel) (by decide +kernel)]
  rcases unit_cases (cunit3.map toLower) with h | ⟨h1, h2, h3, h4, h5, h6, h7⟩
  · generalize cunit3.map toLower = unit at h ⊢
    simp only [List.mem_cons, List.not_mem_nil, or_false] at h
    rcases h with rfl | rfl | rfl | rfl | rfl | rfl | rfl <;> decide +kernel
  · simp [h1, h2, h3, h4, h5, h6, h7]

theorem axisClass_frameReferenceUnit (cunit3 ctype3 : Bytes) :
    (frameReferenceUnit { cunit3 := cunit3, ctype3 := ctype3 }).axisClass =
      ⟨isFrequencyUnit cunit3, isVelocityUnit cunit3,
        if cunit3.map toLower = lit "thz" then 999999995904 else unitMultiplier cunit3⟩ := by
  simp only [frameReferenceUnit, isFrequencyUnit, isVelocityUnit, unitMultiplier]
  rcases unit_cases (cunit3.map toLower) with h | ⟨h1, h2, h3, h4, h5, h6, h7⟩
  · generalize cunit3.map toLower = unit at h ⊢
    simp only [List.mem_cons, List.not_mem_nil, or_false] at h
    rcases h with rfl | rfl | rfl | rfl | rfl | rfl | rfl <;> rfl
  · simp [h1, h2, h3, h4, h5, h6, h7, FitsHeader.axisClass]

theorem frameReferenceUnit_ctype3 (h : FitsHeader) : (frameReferenceUnit h).ctype3 = h.ctype3 := by
  unfold frameReferenceUnit
  simp only [apply_ite FitsHeader.ctype3, ite_self]

theorem serverClass_eq (cunit3 ctype3 : Bytes) :
    serverClass cunit3 ctype3 =
      ⟨isFrequencyUnit cunit3 || namesFrequency ctype3, isVelocityUnit cunit3 || namesVelocity ctype3,
        if cunit3.map toLower = lit "thz" then 999999995904 else unitMultiplier cunit3⟩ := by
  have hunit := axisClass_frameReferenceUnit cunit3 ctype3
  unfold serverClass
  rw [axisClass_frameReferenceType, frameReferenceUnit_ctype3, hunit]
  simp only [FitsHeader.axisClass, AxisClass.mk.injEq] at hunit
  rw [hunit.1, hunit.2.1]

theorem browserClass_eq (cunit3 ctype3 : Bytes) :
    browserClass cunit3 ctype3 =
      ⟨isFrequencyUnit cunit3 || namesFrequency ctype3, isVelocityUnit cunit3 || (namesVelocity ctype3 && !namesFrequency ctype3),
        if cunit3.map toLower = lit "thz" then 10 ^ 12 else unitMultiplier cunit3⟩ := by
  unfold browserClass
  rw [frameReferenceTypeJs_eq, frameReferenceUnitJs_eq]

theorem same_class_iff (cunit3 ctype3 : Bytes) :
    serverClass cunit3 ctype3 = browserClass cunit3 ctype3 ↔
      cunit3.map toLower ≠ lit "thz" ∧
        (namesFrequency ctype3 = true → namesVelocity ctype3 = true → isVelocityUnit cunit3 = true) := by
  have hmultiplier : ((if cunit3.map toLower = lit "thz" then 999999995904 else unitMultiplier cunit3) =
      if cunit3.map toLower = lit "thz" then (10 : ℚ) ^ 12 else unitMultiplier cunit3) ↔ cunit3.map toLower ≠ lit "thz" := by
    split
    · rename_i h
      simp only [h, ne_eq, not_true_eq_false, iff_false]
      norm_num
    · rename_i h
      exact ⟨fun _ => h, fun _ => rfl⟩
  rw [serverClass_eq, browserClass_eq, AxisClass.mk.injEq, hmultiplier]
  constructor
  · rintro ⟨-, hvelocity, hunit⟩
    refine ⟨hunit, fun hf hv => ?_⟩
    rw [hf, hv] at hvelocity
    simpa using hvelocity
  · rintro ⟨hunit, h⟩
    refine ⟨rfl, ?_, hunit⟩
    cases hf : namesFrequency ctype3 with
    | false => rw [Bool.not_false, Bool.and_true]
    | true =>
      cases hv : namesVelocity ctype3 with
      | false => rfl
      | true => rw [h hf hv, Bool.true_or, Bool.true_or]

/-- A velocity given through a frequency, and a frequency in THz. -/
theorem classes_differ :
    serverClass (lit "") (lit "VELO-F2V") ≠ browserClass (lit "") (lit "VELO-F2V") ∧
      serverClass (lit "THz") (lit "FREQ") ≠ browserClass (lit "THz") (lit "FREQ") := by
  decide +kernel

end FitsWebQL
