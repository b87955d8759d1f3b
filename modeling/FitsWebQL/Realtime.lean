/-
  FitsWebQL.Realtime — the workers that answer real-time requests for the spectrum, and the
  image, of a viewport (`[realtime_image_spectrum]`), and the handler of `[kalman_reset]`.
  Each request has a sequence number and a thread of its own, and a session has one
  `last_seq` for all of them.

  A worker gives up when a later request has come, else it raises `last_seq` to its own; and
  whenever it has something to send, it sends it only if `last_seq` is still its own. Every
  time it has the session's mutex for itself, for the test and what comes of it together. In
  between it computes, for as long as it takes.

  Proved: the counter and what is sent move like a gate (`ok_step`), so in every run
  `last_seq` never decreases and answers are sent in the order of their numbers
  (`answered_in_order`).
-/

import FitsWebQL.Lib.Tickets
import FitsWebQL.Lib.Locks
import FitsWebQL.Lib.Runs

namespace FitsWebQL

open Lib.Tickets Lib.Locks Lib.Runs

/-! ## Workers -/

/-- `msg_type` 1 and 0. -/
inductive RealtimeMessage
  | viewport
  | spectrum
  deriving DecidableEq

/-- What a worker is started with: `image_update`, with a view that has a size, and whether
    there is a spectrum (`depth > 1`). -/
structure RealtimeRequest where
  session : ℕ
  seq : ℤ
  image_update : Bool
  has_spectrum : Bool

/-- Where a thread is. At `testing`, `tested`, `sending`, `resetting` and `reset` it has the
    session's mutex; what it has read of `last_seq` is a variable of its own. -/
inductive RealtimePoint
  | idle
  | start (r : RealtimeRequest)
  | test (r : RealtimeRequest)
  | testing (r : RealtimeRequest)
  | tested (r : RealtimeRequest) (last_seq : ℤ)
  | compute (r : RealtimeRequest) (msg : RealtimeMessage)
  | send (r : RealtimeRequest) (msg : RealtimeMessage)
  | lock (r : RealtimeRequest) (msg : RealtimeMessage)
  | sending (r : RealtimeRequest) (msg : RealtimeMessage)
  | kalmanReset (session : ℕ) (seq : ℤ)
  | resetting (session : ℕ) (seq : ℤ)
  | reset (session : ℕ) (seq : ℤ) (last_seq : ℤ)

/-- The sessions and the threads that work for them. `sent` has the last message first. -/
structure Realtime where
  last_seq : ℕ → ℤ
  active : ℕ → Bool
  sent : ℕ → List (RealtimeMessage × ℤ)
  threads : Threads ℕ ℕ RealtimePoint

def Realtime.init : Realtime := ⟨fun _ => -1, fun _ => true, fun _ => [], ⟨fun _ => SharedMutex.free, fun _ => .idle⟩⟩

inductive RealtimeStep
  | request (t : ℕ) (r : RealtimeRequest)
  | kalmanReset (t : ℕ) (session : ℕ) (seq : ℤ)
  /-- The next step of a thread; `output` says whether there is something to send. -/
  | next (t : ℕ) (output : Bool)
  | close (session : ℕ)

def Realtime.goto (s : Realtime) (t : ℕ) (p : RealtimePoint) : Realtime := { s with threads := s.threads.move t p }

def Realtime.take (s : Realtime) (t session : ℕ) (p : RealtimePoint) : Option Realtime :=
  (s.threads.acquire t session .exclusive p).map fun threads => { s with threads := threads }

def Realtime.give (s : Realtime) (t session : ℕ) (p : RealtimePoint) : Realtime :=
  { s with threads := s.threads.release t session .exclusive p }

def RealtimeRequest.after (r : RealtimeRequest) : RealtimeMessage → RealtimePoint
  | .viewport => .compute r .spectrum
  | .spectrum => .idle

def RealtimeRequest.wants (r : RealtimeRequest) : RealtimeMessage → Bool
  | .viewport => r.image_update
  | .spectrum => r.has_spectrum

def Realtime.next (s : Realtime) (t : ℕ) (output : Bool) : Option Realtime :=
  match s.threads.pc t with
  | .idle => none
  | .start r => some (s.goto t (if s.active r.session then .test r else .idle))
  | .test r => s.take t r.session (.testing r)
  | .testing r => some (s.goto t (.tested r (s.last_seq r.session)))
  | .tested r last_seq =>
    if last_seq > r.seq then some (s.give t r.session .idle)
    else some { s.give t r.session (.compute r .viewport) with last_seq := Function.update s.last_seq r.session r.seq }
  | .compute r msg => some (s.goto t (if r.wants msg && output then .send r msg else r.after msg))
  | .send r msg => some (s.goto t (if s.active r.session then .lock r msg else r.after msg))
  | .lock r msg => s.take t r.session (.sending r msg)
  | .sending r msg =>
    if r.seq = s.last_seq r.session then
      some { s.give t r.session (r.after msg) with
        sent := Function.update s.sent r.session ((msg, r.seq) :: s.sent r.session) }
    else some (s.give t r.session (r.after msg))
  | .kalmanReset session seq => s.take t session (.resetting session seq)
  | .resetting session seq => some (s.goto t (.reset session seq (s.last_seq session)))
  | .reset session seq last_seq =>
    if seq > last_seq then
      some { s.give t session .idle with last_seq := Function.update s.last_seq session seq }
    else some (s.give t session .idle)

def Realtime.step (s : Realtime) : RealtimeStep → Option Realtime
  | .request t r =>
    match s.threads.pc t with
    | .idle => some (s.goto t (.start r))
    | _ => none
  | .kalmanReset t session seq =>
    match s.threads.pc t with
    | .idle => if seq > -1 ∧ s.active session then some (s.goto t (.kalmanReset session seq)) else none
    | _ => none
  | .next t output => s.next t output
  | .close session => some { s with active := Function.update s.active session false }

/-! ## The counter under its mutex -/

def RealtimePoint.holds : RealtimePoint → Option (ℕ × Mode)
  | .testing r | .tested r _ | .sending r _ => some (r.session, .exclusive)
  | .resetting session _ | .reset session _ _ => some (session, .exclusive)
  | _ => none

/-- What a thread has read of `last_seq` is what it is. -/
def RealtimePoint.Fresh (last_seq : ℕ → ℤ) : RealtimePoint → Prop
  | .tested r last => last = last_seq r.session
  | .reset session _ last => last = last_seq session
  | _ => True

structure Realtime.Ok (s : Realtime) : Prop where
  agree : Agree RealtimePoint.holds s.threads
  fresh : ∀ t, (s.threads.pc t).Fresh s.last_seq

def Realtime.gate (s : Realtime) (session : ℕ) : Gate ℤ := ⟨s.last_seq session, (s.sent session).map Prod.snd⟩

theorem realtime_init : Realtime.init.Ok := ⟨agree_free fun _ => rfl, fun _ => trivial⟩

/-- What a thread has read counts only while it has the mutex. -/
theorem fresh_of_free {p : RealtimePoint} (h : p.holds = none) (last_seq : ℕ → ℤ) : p.Fresh last_seq := by
  cases p with
  | tested r last => cases h
  | reset session seq last => cases h
  | _ => trivial

/-- It is read of the counter whose mutex the thread has. -/
theorem fresh_congr {p : RealtimePoint} {last_seq last_seq' : ℕ → ℤ} (h : p.Fresh last_seq)
    (hsame : ∀ session, p.holds = some (session, .exclusive) → last_seq' session = last_seq session) : p.Fresh last_seq' := by
  cases p with
  | tested r last => exact (show last = _ from h).trans (hsame r.session rfl).symm
  | reset session seq last => exact (show last = _ from h).trans (hsame session rfl).symm
  | _ => trivial

section
variable {s s' : Realtime} {t session : ℕ} {p : RealtimePoint}

theorem fresh_update {pc : ℕ → RealtimePoint} {last_seq : ℕ → ℤ} (h : ∀ t, (pc t).Fresh last_seq) (hp : p.Fresh last_seq) (t t' : ℕ) :
    (Function.update pc t p t').Fresh last_seq := by
  by_cases ht : t' = t
  · rw [ht, Function.update_self]
    exact hp
  · rw [Function.update_of_ne ht]
    exact h t'

theorem realtime_goto (h : s.Ok) (hp : p.holds = (s.threads.pc t).holds) (hfresh : p.Fresh s.last_seq) : (s.goto t p).Ok :=
  ⟨agree_move h.agree hp, fresh_update h.fresh hfresh t⟩

theorem realtime_take (h : s.Ok) (hold : (s.threads.pc t).holds = none) (hp : p.holds = some (session, .exclusive))
    (hfresh : p.Fresh s.last_seq) (htake : s.take t session p = some s') : s'.Ok ∧ s'.last_seq = s.last_seq ∧ s'.sent = s.sent := by
  obtain ⟨threads, hthreads, rfl⟩ := Option.map_eq_some_iff.mp htake
  refine ⟨⟨agree_acquire h.agree hold hp hthreads, ?_⟩, rfl, rfl⟩
  obtain ⟨m, -, rfl⟩ := Option.map_eq_some_iff.mp hthreads
  exact fresh_update h.fresh hfresh t

/-- A thread gives the mutex back, and has perhaps changed the counter before. -/
theorem realtime_give (h : s.Ok) (hold : (s.threads.pc t).holds = some (session, .exclusive)) (hp : p.holds = none) (seq : ℤ)
    (sent : ℕ → List (RealtimeMessage × ℤ)) :
    ({ s.give t session p with last_seq := Function.update s.last_seq session seq, sent := sent } : Realtime).Ok := by
  refine ⟨agree_release h.agree hold hp, fun t' => ?_⟩
  show (Function.update s.threads.pc t p t').Fresh _
  by_cases ht : t' = t
  · rw [ht, Function.update_self]
    exact fresh_of_free hp _
  · rw [Function.update_of_ne ht]
    refine fresh_congr (h.fresh t') fun session' hheld => ?_
    -- nobody else has the mutex of the counter that was changed
    have hne : session' ≠ session := by
      rintro rfl
      exact ht (h.agree.exclusive hold hheld)
    exact Function.update_of_ne hne _ _

/-- A thread gives the mutex back and has changed nothing. -/
theorem realtime_leave (h : s.Ok) (hold : (s.threads.pc t).holds = some (session, .exclusive)) (hp : p.holds = none)
    (sent : ℕ → List (RealtimeMessage × ℤ)) : ({ s.give t session p with sent := sent } : Realtime).Ok := by
  have hok := realtime_give h hold hp (s.last_seq session) sent
  rwa [Function.update_eq_self] at hok

/-- A counter that is raised. -/
theorem moves_raise {seq : ℤ} (hle : s.last_seq session ≤ seq) (hlast : s'.last_seq = Function.update s.last_seq session seq)
    (hsent : s'.sent = s.sent) (session' : ℕ) : Moves (s.gate session') (s'.gate session') := by
  unfold Realtime.gate
  rw [hlast, hsent]
  by_cases hsame : session' = session
  · subst hsame
    rw [Function.update_self]
    exact Moves.raise ⟨s.last_seq session', (s.sent session').map Prod.snd⟩ seq hle
  · rw [Function.update_of_ne hsame]
    exact Moves.stay _

/-- A message with the counter's number. -/
theorem moves_pass {seq : ℤ} {msg : RealtimeMessage} (heq : seq = s.last_seq session) (hlast : s'.last_seq = s.last_seq)
    (hsent : s'.sent = Function.update s.sent session ((msg, seq) :: s.sent session)) (session' : ℕ) :
    Moves (s.gate session') (s'.gate session') := by
  unfold Realtime.gate
  rw [hlast, hsent]
  by_cases hsame : session' = session
  · subst hsame heq
    rw [Function.update_self, List.map_cons]
    exact Moves.pass ⟨s.last_seq session', (s.sent session').map Prod.snd⟩
  · rw [Function.update_of_ne hsame]
    exact Moves.stay _

theorem moves_stay (hlast : s'.last_seq = s.last_seq) (hsent : s'.sent = s.sent) (session' : ℕ) :
    Moves (s.gate session') (s'.gate session') := by
  unfold Realtime.gate
  rw [hlast, hsent]
  exact Moves.stay _

end

theorem after_holds (r : RealtimeRequest) (msg : RealtimeMessage) : (r.after msg).holds = none := by
  cases msg with
  | viewport => rfl
  | spectrum => rfl

/-- A thread's step keeps the mutexes and what is read under them, and moves every gate. -/
theorem ok_realtimeNext {s s' : Realtime} {t : ℕ} {output : Bool} (h : s.Ok) (hs : s.next t output = some s') :
    s'.Ok ∧ ∀ session, Moves (s.gate session) (s'.gate session) := by
  have hfresh := h.fresh t
  unfold Realtime.next at hs
  cases hpc : s.threads.pc t with
  | idle =>
    rw [hpc] at hs
    cases hs
  | start r =>
    rw [hpc] at hs
    cases hs
    refine ⟨realtime_goto h ?_ ?_, moves_stay rfl rfl⟩
    · rw [hpc]
      split
      · rfl
      · rfl
    · split
      · trivial
      · trivial
  | test r =>
    rw [hpc] at hs
    obtain ⟨hok, hlast, hsent⟩ := realtime_take h (by rw [hpc]; rfl) rfl (by trivial) hs
    exact ⟨hok, moves_stay hlast hsent⟩
  | testing r =>
    rw [hpc] at hs
    cases hs
    exact ⟨realtime_goto h (by rw [hpc]; rfl) rfl, moves_stay rfl rfl⟩
  | tested r last =>
    rw [hpc] at hs hfresh
    have hlast : last = s.last_seq r.session := hfresh
    dsimp only at hs
    split at hs
    · cases hs
      exact ⟨realtime_leave h (by rw [hpc]; rfl) rfl s.sent, moves_stay rfl rfl⟩
    · rename_i hle
      cases hs
      exact ⟨realtime_give h (by rw [hpc]; rfl) rfl r.seq s.sent, moves_raise (by omega) rfl rfl⟩
  | compute r msg =>
    rw [hpc] at hs
    cases hs
    have hp : (if r.wants msg && output then RealtimePoint.send r msg else r.after msg).holds = none := by
      split
      · rfl
      · exact after_holds r msg
    exact ⟨realtime_goto h (by rw [hpc, hp]; rfl) (fresh_of_free hp _), moves_stay rfl rfl⟩
  | send r msg =>
    rw [hpc] at hs
    cases hs
    have hp : (if s.active r.session then RealtimePoint.lock r msg else r.after msg).holds = none := by
      split
      · rfl
      · exact after_holds r msg
    exact ⟨realtime_goto h (by rw [hpc, hp]; rfl) (fresh_of_free hp _), moves_stay rfl rfl⟩
  | lock r msg =>
    rw [hpc] at hs
    obtain ⟨hok, hlast, hsent⟩ := realtime_take h (by rw [hpc]; rfl) rfl (by trivial) hs
    exact ⟨hok, moves_stay hlast hsent⟩
  | sending r msg =>
    rw [hpc] at hs
    dsimp only at hs
    split at hs
    · rename_i heq
      cases hs
      exact ⟨realtime_leave h (by rw [hpc]; rfl) (after_holds r msg) _, moves_pass heq rfl rfl⟩
    · cases hs
      exact ⟨realtime_leave h (by rw [hpc]; rfl) (after_holds r msg) s.sent, moves_stay rfl rfl⟩
  | kalmanReset session seq =>
    rw [hpc] at hs
    obtain ⟨hok, hlast, hsent⟩ := realtime_take h (by rw [hpc]; rfl) rfl (by trivial) hs
    exact ⟨hok, moves_stay hlast hsent⟩
  | resetting session seq =>
    rw [hpc] at hs
    cases hs
    exact ⟨realtime_goto h (by rw [hpc]; rfl) rfl, moves_stay rfl rfl⟩
  | reset session seq last =>
    rw [hpc] at hs hfresh
    have hlast : last = s.last_seq session := hfresh
    dsimp only at hs
    split at hs
    · rename_i hlt
      cases hs
      exact ⟨realtime_give h (by rw [hpc]; rfl) rfl seq s.sent, moves_raise (by omega) rfl rfl⟩
    · cases hs
      exact ⟨realtime_leave h (by rw [hpc]; rfl) rfl s.sent, moves_stay rfl rfl⟩

theorem ok_realtimeStep {s s' : Realtime} {e : RealtimeStep} (h : s.Ok) (hs : s.step e = some s') :
    s'.Ok ∧ ∀ session, Moves (s.gate session) (s'.gate session) := by
  cases e with
  | request t r =>
    simp only [Realtime.step] at hs
    split at hs
    · rename_i hpc
      cases hs
      exact ⟨realtime_goto h (by rw [hpc]; rfl) trivial, moves_stay rfl rfl⟩
    · cases hs
  | kalmanReset t session seq =>
    simp only [Realtime.step] at hs
    split at hs
    · rename_i hpc
      split at hs
      · cases hs
        exact ⟨realtime_goto h (by rw [hpc]; rfl) trivial, moves_stay rfl rfl⟩
      · cases hs
    · cases hs
  | next t output => exact ok_realtimeNext h hs
  | close session =>
    cases hs
    exact ⟨⟨h.agree, h.fresh⟩, moves_stay rfl rfl⟩

/-! ## Runs -/

def Realtime.answers (s : Realtime) (session : ℕ) : List ℤ := ((s.sent session).map Prod.snd).reverse

/-- However the threads take their steps: from any point of a run on, no session's `last_seq`
    decreases, and its answers were sent in the order of their numbers. -/
theorem answered_in_order (steps steps' : List RealtimeStep) (s s' : Realtime)
    (h : run Realtime.step Realtime.init steps = some s) (h' : run Realtime.step s steps' = some s') (session : ℕ) :
    s.last_seq session ≤ s'.last_seq session ∧ (s'.answers session).Pairwise (· ≤ ·) := by
  have hinit : Realtime.init.Ok ∧ (Realtime.init.gate session).Ordered := ⟨realtime_init, ordered_nil (-1)⟩
  have hs : s.Ok ∧ (s.gate session).Ordered :=
    run_keeps (fun s => s.Ok ∧ (s.gate session).Ordered)
      (fun _ _ _ hok hstep => ⟨(ok_realtimeStep hok.1 hstep).1, ((ok_realtimeStep hok.1 hstep).2 session).ordered hok.2⟩)
      steps hinit h
  have hs' : (s'.Ok ∧ (s'.gate session).Ordered) ∧ s.last_seq session ≤ s'.last_seq session :=
    run_keeps (fun s' => (s'.Ok ∧ (s'.gate session).Ordered) ∧ s.last_seq session ≤ s'.last_seq session)
      (fun _ _ _ hok hstep => ⟨⟨(ok_realtimeStep hok.1.1 hstep).1, ((ok_realtimeStep hok.1.1 hstep).2 session).ordered hok.1.2⟩,
        hok.2.trans ((ok_realtimeStep hok.1.1 hstep).2 session).le⟩)
      steps' ⟨hs, le_refl _⟩ h'
  refine ⟨hs'.2, ?_⟩
  unfold Realtime.answers
  rw [List.pairwise_reverse]
  exact hs'.1.2.passed

/-- Two requests of session 0: the first has sent its viewport when the second comes, and its
    spectrum is too late. -/
def twoRequests : List RealtimeStep :=
  .request 0 ⟨0, 1, true, true⟩ :: List.replicate 8 (.next 0 true) ++ .request 1 ⟨0, 2, false, true⟩ ::
    List.replicate 4 (.next 1 true)

theorem answered_in_order_two_requests :
    ∃ s s', run Realtime.step Realtime.init twoRequests = some s ∧
      run Realtime.step s (List.replicate 4 (.next 0 true) ++ List.replicate 5 (.next 1 true)) = some s' ∧
      s'.sent 0 = [(.spectrum, 2), (.viewport, 1)] ∧
      s.last_seq 0 ≤ s'.last_seq 0 ∧ (s'.answers 0).Pairwise (· ≤ ·) := by
  have hrun : ((run Realtime.step Realtime.init twoRequests).bind fun s =>
      (run Realtime.step s (List.replicate 4 (.next 0 true) ++ List.replicate 5 (.next 1 true))).map
        (fun s' => s'.sent 0)) = some [(.spectrum, 2), (.viewport, 1)] := by
    decide +kernel
  obtain ⟨s, hs, hrest⟩ := Option.bind_eq_some_iff.mp hrun
  obtain ⟨s', hs', hsent⟩ := Option.map_eq_some_iff.mp hrest
  exact ⟨s, s', hs, hs', hsent, answered_in_order _ _ s s' hs hs' 0⟩

end FitsWebQL
