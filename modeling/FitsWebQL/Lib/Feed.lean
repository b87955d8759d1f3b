/-
  FitsWebQL.Lib.Feed — a reader fed a stream in pieces. What is not yet used of the
  stream is pending; a small step `micro` uses up one token from the front of it, and
  says nothing where it cannot: not enough is pending, or all is read. A feeder is handed
  a piece, appends it to what is pending and takes as many small steps as it likes.

  A small step that is there stays there when more is pending (`Monotone`). Then how far
  a run of the feeder has come is one of the points that the whole stream passes through
  (`steps_of_run`), whatever the pieces; two runs of one stream that both stop where no
  small step is left are at the same point (`stuck_unique`), and a run that stopped
  earlier goes on to that point (`steps_linear`).
-/

import Mathlib

namespace FitsWebQL.Lib.Feed

variable {σ α : Type*} (micro : σ → List α → Option (σ × List α))

def Steps : σ × List α → σ × List α → Prop := Relation.ReflTransGen fun a b => micro a.1 a.2 = some b

def Stuck (a : σ × List α) : Prop := micro a.1 a.2 = none

def Monotone : Prop := ∀ s p s' p' q, micro s p = some (s', p') → micro s (p ++ q) = some (s', p' ++ q)

variable {micro}

theorem steps_append (hm : Monotone micro) {a b : σ × List α} (h : Steps micro a b) (q : List α) :
    Steps micro (a.1, a.2 ++ q) (b.1, b.2 ++ q) := by
  induction h with
  | refl => exact Relation.ReflTransGen.refl
  | tail _ hstep ih => exact ih.tail (hm _ _ _ _ q hstep)

theorem steps_single {a b : σ × List α} (h : micro a.1 a.2 = some b) : Steps micro a b := Relation.ReflTransGen.single h

/-- From one point the steps go one way: of two points reached, one is on the way to the other. -/
theorem steps_linear {a b c : σ × List α} (hb : Steps micro a b) (hc : Steps micro a c) :
    Steps micro b c ∨ Steps micro c b := by
  refine Relation.ReflTransGen.total_of_right_unique ?_ hb hc
  intro x y z hy hz
  exact Option.some.inj (hy.symm.trans hz)

theorem steps_of_stuck {a b : σ × List α} (ha : Stuck micro a) (h : Steps micro a b) : b = a := by
  rcases Relation.ReflTransGen.cases_head h with rfl | ⟨c, hc, _⟩
  · rfl
  · rw [ha] at hc
    cases hc

theorem stuck_unique {a b c : σ × List α} (hb : Steps micro a b) (hc : Steps micro a c) (hbs : Stuck micro b)
    (hcs : Stuck micro c) : b = c := by
  rcases steps_linear hb hc with h | h
  · exact (steps_of_stuck hbs h).symm
  · exact steps_of_stuck hcs h

/-- On the way to the last point, whatever grows with every step tells the points apart. -/
theorem eq_of_measure (m : σ → ℕ) (hgrow : ∀ s p s' p', micro s p = some (s', p') → m s < m s') {a b : σ × List α}
    (h : Steps micro a b) (he : m a.1 = m b.1) : a = b := by
  have le : ∀ {x y : σ × List α}, Steps micro x y → m x.1 ≤ m y.1 := by
    intro x y hxy
    induction hxy with
    | refl => exact le_refl _
    | tail _ hstep ih => exact le_trans ih (hgrow _ _ _ _ hstep).le
  rcases Relation.ReflTransGen.cases_head h with rfl | ⟨c, hc, hcb⟩
  · rfl
  · have h1 := hgrow _ _ _ _ hc
    have h2 := le hcb
    omega

/-- Of two points reached, the last of all and another, the states agree exactly when
    the other is the last as well. -/
theorem state_eq_iff (m : σ → ℕ) (hgrow : ∀ s p s' p', micro s p = some (s', p') → m s < m s')
    {a b c : σ × List α} (hb : Steps micro a b) (hc : Steps micro a c) (hcs : Stuck micro c) :
    b.1 = c.1 ↔ Stuck micro b := by
  constructor
  · intro he
    rcases steps_linear hb hc with h | h
    · rw [eq_of_measure m hgrow h (by rw [he])]
      exact hcs
    · rw [steps_of_stuck hcs h]
      exact hcs
  · intro hs
    rw [stuck_unique hb hc hs hcs]

/-! ## Feeders -/

/-- `feed` takes the state `t`, which stands for `x`, and a piece `c`; it fails or it
    takes some of the small steps there are. -/
def Follows {τ : Type*} (feed : τ → List α → Option τ) (rel : τ → σ × List α → Prop) (ok : List α → Prop) : Prop :=
  ∀ t x c t', rel t x → ok c → feed t c = some t' → ∃ x', Steps micro (x.1, x.2 ++ c) x' ∧ rel t' x'

def feedAll {τ : Type*} (feed : τ → List α → Option τ) : τ → List (List α) → Option τ
  | t, [] => some t
  | t, c :: cs => (feed t c).bind fun t' => feedAll feed t' cs

/-- `P` of every call of a run: of the state, the stream so far and the piece. -/
def Along {τ : Type*} (feed : τ → List α → Option τ) (P : τ → List α → List α → Prop) : τ → List α → List (List α) → Prop
  | _, _, [] => True
  | t, stream, c :: cs => P t stream c ∧ ∀ t', feed t c = some t' → Along feed P t' (stream ++ c) cs

instance instDecidableAlong {τ : Type*} (feed : τ → List α → Option τ) (P : τ → List α → List α → Prop)
    [∀ t stream c, Decidable (P t stream c)] :
    ∀ (t : τ) (stream : List α) (cs : List (List α)), Decidable (Along feed P t stream cs)
  | _, _, [] => isTrue trivial
  | t, stream, c :: cs =>
    match h : feed t c with
    | none => decidable_of_iff (P t stream c)
        ⟨fun hp => ⟨hp, fun _ ht => by rw [h] at ht; cases ht⟩, fun hp => hp.1⟩
    | some t' =>
      haveI := instDecidableAlong feed P t' (stream ++ c) cs
      decidable_of_iff (P t stream c ∧ Along feed P t' (stream ++ c) cs)
        ⟨fun hp => ⟨hp.1, fun _ ht => by rw [h] at ht; cases ht; exact hp.2⟩, fun hp => ⟨hp.1, hp.2 t' h⟩⟩

/-- What every call keeps, of the stream so far and the state, a run keeps. -/
theorem feedAll_along {τ : Type*} {feed : τ → List α → Option τ} {P : τ → List α → List α → Prop} (I : List α → τ → Prop)
    (hstep : ∀ stream t c t', I stream t → P t stream c → feed t c = some t' → I (stream ++ c) t') (cs : List (List α))
    {stream : List α} {t t' : τ} (ht : I stream t) (hp : Along feed P t stream cs) (h : feedAll feed t cs = some t') :
    I (stream ++ cs.flatten) t' := by
  induction cs generalizing stream t with
  | nil =>
    cases h
    rw [List.flatten_nil, List.append_nil]
    exact ht
  | cons c cs ih =>
    obtain ⟨hc, hcs⟩ := hp
    obtain ⟨t1, h1, h2⟩ := Option.bind_eq_some_iff.mp h
    rw [List.flatten_cons, ← List.append_assoc]
    exact ih (hstep stream t c t1 ht hc h1) (hcs t1 h1) h2

theorem along_of_forall {τ : Type*} {feed : τ → List α → Option τ} {P : τ → List α → List α → Prop}
    (h : ∀ t stream c, P t stream c) (cs : List (List α)) (t : τ) (stream : List α) : Along feed P t stream cs := by
  induction cs generalizing t stream with
  | nil => exact trivial
  | cons c cs ih => exact ⟨h t stream c, fun t' _ => ih t' (stream ++ c)⟩

/-- However a stream is cut, a run is at a point the whole stream passes through. -/
theorem steps_of_run {τ : Type*} (hm : Monotone micro) {feed : τ → List α → Option τ} {rel : τ → σ × List α → Prop}
    {ok : List α → Prop} (hf : @Follows _ _ micro _ feed rel ok) (cs : List (List α)) (t t' : τ) (x : σ × List α)
    (hrel : rel t x) (hok : ∀ c ∈ cs, ok c) (h : feedAll feed t cs = some t') :
    ∃ x', Steps micro (x.1, x.2 ++ cs.flatten) x' ∧ rel t' x' := by
  induction cs generalizing t x with
  | nil =>
    cases h
    rw [List.flatten_nil, List.append_nil]
    exact ⟨x, Relation.ReflTransGen.refl, hrel⟩
  | cons c cs ih =>
    obtain ⟨t1, h1, h2⟩ := Option.bind_eq_some_iff.mp h
    obtain ⟨x1, hs1, hr1⟩ := hf t x c t1 hrel (hok c List.mem_cons_self) h1
    obtain ⟨x2, hs2, hr2⟩ := ih t1 x1 hr1 (fun c hc => hok c (List.mem_cons_of_mem _ hc)) h2
    refine ⟨x2, ?_, hr2⟩
    have hs := steps_append hm hs1 cs.flatten
    rw [List.append_assoc, ← List.flatten_cons] at hs
    exact hs.trans hs2

end FitsWebQL.Lib.Feed
