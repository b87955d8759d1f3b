/-
  FitsWebQL.Progress — the registry of WebSockets that are told how far a load has come
  (`m_progress`), by data set, and the handlers and threads that use it.

  When a socket opens, and when it closes, a detached thread is started that puts it into
  its data set's list or takes it out, under `m_progress_mutex`. These threads run when they
  come to it, in whatever order. The close handler does not wait for its thread: it frees
  the session (`delete user->ptr`), and uWebSockets the socket, whose address a later one may
  have. `send_progress_notification` goes through a copy of the list, with the mutex shared
  until it is through, and looks into every session.

  Proved:
  - `registry_sound`: in every run in which a socket is put in before it is taken out, and
    taken out before its session is freed, the registry holds the open sockets once all
    threads have run, and nobody looks into a session that is freed.
  - `a_dead_socket_is_registered`: a socket taken out before it is put in stays there, and
    one whose session is freed is looked into.
-/

import FitsWebQL.Datasets

namespace FitsWebQL

open Lib.Runs

/-- A `UserSession`: its data set, and whether it is not being closed. -/
structure SocketSession where
  primary_id : DataId
  active : Bool
  deriving DecidableEq

inductive RegistryThread
  | insert (primary_id : DataId) (ws : ℕ)
  | erase (primary_id : DataId) (ws : ℕ)
  deriving DecidableEq

/-- A call of `send_progress_notification`, and the sockets it has yet to come to. -/
structure Notification where
  dataset_id : DataId
  connections : Finset ℕ

/-- `sockets` are the sessions by their sockets' addresses. -/
structure ProgressServer where
  m_progress : DataId → Option (Finset ℕ)
  sockets : ℕ → Option SocketSession
  threads : List RegistryThread
  notifications : List Notification

def ProgressServer.init : ProgressServer := ⟨fun _ => none, fun _ => none, [], []⟩

inductive ProgressStep
  /-- The open handler. -/
  | opened (ws : ℕ) (primary_id : DataId)
  /-- The close handler, up to where it waits for the session's own threads. -/
  | close (ws : ℕ)
  /-- `delete user->ptr`, and the socket's end. -/
  | free (ws : ℕ)
  /-- A detached thread, under the mutex. -/
  | run (thread : RegistryThread)
  | notify (dataset_id : DataId)
  /-- A notification comes to a socket of its list. -/
  | look (i : ℕ) (ws : ℕ)
  /-- It gives the mutex back. -/
  | leave (i : ℕ)

/-- `m_progress[id]`. -/
def ProgressServer.connections (s : ProgressServer) (id : DataId) : Finset ℕ := (s.m_progress id).getD ∅

def ProgressServer.setConnections (s : ProgressServer) (id : DataId) (connections : Option (Finset ℕ)) : ProgressServer :=
  { s with m_progress := Function.update s.m_progress id connections }

/-- What a detached thread does. The last socket of a data set takes its entry along. -/
def ProgressServer.runThread (s : ProgressServer) : RegistryThread → ProgressServer
  | .insert id ws => s.setConnections id (some (insert ws (s.connections id)))
  | .erase id ws =>
    let connections := (s.connections id).erase ws
    s.setConnections id (if connections.card = 0 then none else some connections)

def ProgressServer.step (s : ProgressServer) : ProgressStep → Option ProgressServer
  | .opened ws id =>
    match s.sockets ws with
    | none => some { s with
        sockets := Function.update s.sockets ws (some ⟨id, true⟩), threads := s.threads ++ [.insert id ws] }
    | some _ => none
  | .close ws =>
    match s.sockets ws with
    | some ⟨id, true⟩ => some { s with
        sockets := Function.update s.sockets ws (some ⟨id, false⟩), threads := s.threads ++ [.erase id ws] }
    | _ => none
  | .free ws =>
    match s.sockets ws with
    | some ⟨_, false⟩ => some { s with sockets := Function.update s.sockets ws none }
    | _ => none
  | .run thread =>
    if thread ∈ s.threads ∧ s.notifications = [] then some { s.runThread thread with threads := s.threads.erase thread }
    else none
  | .notify id =>
    some { s.setConnections id (some (s.connections id)) with notifications := s.notifications ++ [⟨id, s.connections id⟩] }
  | .look i ws =>
    match s.notifications[i]? with
    | some n =>
      if ws ∈ n.connections then
        some { s with notifications := s.notifications.set i { n with connections := n.connections.erase ws } }
      else none
    | none => none
  | .leave i =>
    match s.notifications[i]? with
    | some n => if n.connections = ∅ then some { s with notifications := s.notifications.eraseIdx i } else none
    | none => none

/-! ## What holds in a run -/

/-- Once all threads have run the registry holds the open sockets, and no notification has a
    session before it that is freed. -/
structure ProgressServer.Sound (s : ProgressServer) : Prop where
  quiet : s.threads = [] → ∀ id ws, ws ∈ s.connections id ↔ s.sockets ws = some ⟨id, true⟩
  safe : ∀ n ∈ s.notifications, ∀ ws ∈ n.connections, s.sockets ws ≠ none

/-- A socket is put in before it is taken out, and taken out before its session is freed. -/
def ProgressServer.InOrder (s : ProgressServer) : ProgressStep → Prop
  | .run (.erase id ws) => RegistryThread.insert id ws ∉ s.threads
  | .free ws => ∀ session ∈ s.sockets ws, RegistryThread.erase session.primary_id ws ∉ s.threads
  | _ => True

instance (s : ProgressServer) : ∀ e : ProgressStep, Decidable (s.InOrder e)
  | .run (.erase id ws) => inferInstanceAs (Decidable (RegistryThread.insert id ws ∉ s.threads))
  | .free ws => inferInstanceAs (Decidable (∀ session ∈ s.sockets ws, RegistryThread.erase session.primary_id ws ∉ s.threads))
  | .opened _ _ | .close _ | .run (.insert _ _) | .notify _ | .look _ _ | .leave _ => isTrue trivial

/-- The registry lists sockets that are there, under their data set, and whose end is still
    to come; threads that have yet to run are of sockets that are there. -/
structure ProgressServer.Ok (s : ProgressServer) : Prop where
  listed : ∀ id ws, ws ∈ s.connections id → ∃ active, s.sockets ws = some ⟨id, active⟩ ∧
    RegistryThread.insert id ws ∉ s.threads ∧ (active = false → RegistryThread.erase id ws ∈ s.threads)
  opened : ∀ id ws, s.sockets ws = some ⟨id, true⟩ → RegistryThread.insert id ws ∈ s.threads ∨ ws ∈ s.connections id
  inserting : ∀ id ws, RegistryThread.insert id ws ∈ s.threads → ∃ active, s.sockets ws = some ⟨id, active⟩ ∧
    (active = false → RegistryThread.erase id ws ∈ s.threads)
  erasing : ∀ id ws, RegistryThread.erase id ws ∈ s.threads → s.sockets ws = some ⟨id, false⟩
  nodup : s.threads.Nodup
  reading : ∀ n ∈ s.notifications, n.connections ⊆ s.connections n.dataset_id

theorem progress_init : ProgressServer.init.Ok where
  listed id ws h := by cases h
  opened id ws h := by cases h
  inserting id ws h := by cases h
  erasing id ws h := by cases h
  nodup := List.nodup_nil
  reading n h := by cases h

theorem sound_of_ok {s : ProgressServer} (h : s.Ok) : s.Sound where
  quiet hthreads id ws := by
    refine ⟨fun hmem => ?_, fun hopen => ?_⟩
    · obtain ⟨active, hsocket, -, herase⟩ := h.listed id ws hmem
      cases active with
      | true => exact hsocket
      | false =>
        have hpending := herase rfl
        rw [hthreads] at hpending
        cases hpending
    · rcases h.opened id ws hopen with hpending | hmem
      · rw [hthreads] at hpending
        cases hpending
      · exact hmem
  safe n hn ws hws := by
    obtain ⟨active, hsocket, -⟩ := h.listed n.dataset_id ws (h.reading n hn hws)
    rw [hsocket]
    exact Option.some_ne_none _

theorem setConnections_self (s : ProgressServer) (id : DataId) (connections : Option (Finset ℕ)) :
    (s.setConnections id connections).connections id = connections.getD ∅ := by
  unfold ProgressServer.connections ProgressServer.setConnections
  dsimp only
  rw [Function.update_self]

theorem setConnections_ne (s : ProgressServer) {id id' : DataId} (h : id' ≠ id) (connections : Option (Finset ℕ)) :
    (s.setConnections id connections).connections id' = s.connections id' := by
  unfold ProgressServer.connections ProgressServer.setConnections
  dsimp only
  rw [Function.update_of_ne h]

section
variable {s : ProgressServer} {id : DataId} {ws : ℕ}

theorem ok_opened (h : s.Ok) (hws : s.sockets ws = none) :
    ({ s with sockets := Function.update s.sockets ws (some ⟨id, true⟩), threads := s.threads ++ [.insert id ws] } :
      ProgressServer).Ok := by
  have hother : ∀ {ws' session}, s.sockets ws' = some session → ws' ≠ ws := by
    rintro ws' session hsome rfl
    rw [hws] at hsome
    cases hsome
  refine ⟨fun id' ws' hmem => ?_, fun id' ws' hopen => ?_, fun id' ws' hmem => ?_, fun id' ws' hmem => ?_, ?_, h.reading⟩
  · obtain ⟨active, hsocket, hinsert, herase⟩ := h.listed id' ws' hmem
    have hne := hother hsocket
    refine ⟨active, (Function.update_of_ne hne _ _).trans hsocket, ?_, fun ha => List.mem_append_left _ (herase ha)⟩
    intro hin
    rcases List.mem_append.mp hin with hin | hin
    · exact hinsert hin
    · cases List.mem_singleton.mp hin
      exact hne rfl
  · change Function.update s.sockets ws _ ws' = _ at hopen
    by_cases hne : ws' = ws
    · subst hne
      rw [Function.update_self] at hopen
      cases hopen
      exact Or.inl (List.mem_append_right _ (List.mem_singleton.mpr rfl))
    · rw [Function.update_of_ne hne] at hopen
      exact (h.opened id' ws' hopen).imp_left (List.mem_append_left _)
  · rcases List.mem_append.mp hmem with hmem | hmem
    · obtain ⟨active, hsocket, herase⟩ := h.inserting id' ws' hmem
      exact ⟨active, (Function.update_of_ne (hother hsocket) _ _).trans hsocket, fun ha => List.mem_append_left _ (herase ha)⟩
    · cases List.mem_singleton.mp hmem
      exact ⟨true, Function.update_self _ _ _, fun ha => by cases ha⟩
  · rcases List.mem_append.mp hmem with hmem | hmem
    · have hsocket := h.erasing id' ws' hmem
      exact (Function.update_of_ne (hother hsocket) _ _).trans hsocket
    · cases List.mem_singleton.mp hmem
  · apply List.Nodup.append h.nodup (List.nodup_singleton _)
    rw [List.disjoint_singleton]
    intro hin
    obtain ⟨active, hsocket, -⟩ := h.inserting id ws hin
    exact hother hsocket rfl

theorem ok_close (h : s.Ok) (hws : s.sockets ws = some ⟨id, true⟩) :
    ({ s with sockets := Function.update s.sockets ws (some ⟨id, false⟩), threads := s.threads ++ [.erase id ws] } :
      ProgressServer).Ok := by
  -- the socket is still there, and its thread is among those that have yet to run
  have hstill : ∀ id' ws' active, s.sockets ws' = some ⟨id', active⟩ → (active = false → RegistryThread.erase id' ws' ∈ s.threads) →
      ∃ active', Function.update s.sockets ws (some ⟨id, false⟩) ws' = some ⟨id', active'⟩ ∧
        (active' = false → RegistryThread.erase id' ws' ∈ s.threads ++ [.erase id ws]) := by
    intro id' ws' active hsocket herase
    by_cases hne : ws' = ws
    · subst hne
      rw [hws] at hsocket
      cases hsocket
      exact ⟨false, Function.update_self _ _ _, fun _ => List.mem_append_right _ (List.mem_singleton.mpr rfl)⟩
    · exact ⟨active, (Function.update_of_ne hne _ _).trans hsocket, fun ha => List.mem_append_left _ (herase ha)⟩
  refine ⟨fun id' ws' hmem => ?_, fun id' ws' hopen => ?_, fun id' ws' hmem => ?_, fun id' ws' hmem => ?_, ?_, h.reading⟩
  · obtain ⟨active, hsocket, hinsert, herase⟩ := h.listed id' ws' hmem
    obtain ⟨active', hsocket', herase'⟩ := hstill id' ws' active hsocket herase
    refine ⟨active', hsocket', fun hin => ?_, herase'⟩
    rcases List.mem_append.mp hin with hin | hin
    · exact hinsert hin
    · cases List.mem_singleton.mp hin
  · change Function.update s.sockets ws _ ws' = _ at hopen
    have hne : ws' ≠ ws := by
      rintro rfl
      rw [Function.update_self] at hopen
      cases hopen
    rw [Function.update_of_ne hne] at hopen
    exact (h.opened id' ws' hopen).imp_left (List.mem_append_left _)
  · rcases List.mem_append.mp hmem with hmem | hmem
    · obtain ⟨active, hsocket, herase⟩ := h.inserting id' ws' hmem
      exact hstill id' ws' active hsocket herase
    · cases List.mem_singleton.mp hmem
  · rcases List.mem_append.mp hmem with hmem | hmem
    · have hsocket := h.erasing id' ws' hmem
      have hne : ws' ≠ ws := by
        rintro rfl
        rw [hws] at hsocket
        cases hsocket
      exact (Function.update_of_ne hne _ _).trans hsocket
    · cases List.mem_singleton.mp hmem
      exact Function.update_self _ _ _
  · apply List.Nodup.append h.nodup (List.nodup_singleton _)
    rw [List.disjoint_singleton]
    intro hin
    have hsocket := h.erasing id ws hin
    rw [hws] at hsocket
    cases hsocket

/-- A session whose socket was taken out is freed. -/
theorem ok_free (h : s.Ok) (hws : s.sockets ws = some ⟨id, false⟩) (herased : RegistryThread.erase id ws ∉ s.threads) :
    ({ s with sockets := Function.update s.sockets ws none } : ProgressServer).Ok := by
  have hother : ∀ {id' ws' active}, s.sockets ws' = some ⟨id', active⟩ →
      (active = false → RegistryThread.erase id' ws' ∈ s.threads) → ws' ≠ ws := by
    rintro id' ws' active hsome herase rfl
    rw [hws] at hsome
    cases hsome
    exact herased (herase rfl)
  refine ⟨fun id' ws' hmem => ?_, fun id' ws' hopen => ?_, fun id' ws' hmem => ?_, fun id' ws' hmem => ?_, h.nodup, h.reading⟩
  · obtain ⟨active, hsocket, hinsert, herase⟩ := h.listed id' ws' hmem
    exact ⟨active, (Function.update_of_ne (hother hsocket herase) _ _).trans hsocket, hinsert, herase⟩
  · change Function.update s.sockets ws _ ws' = _ at hopen
    have hne : ws' ≠ ws := by
      rintro rfl
      rw [Function.update_self] at hopen
      cases hopen
    rw [Function.update_of_ne hne] at hopen
    exact h.opened id' ws' hopen
  · obtain ⟨active, hsocket, herase⟩ := h.inserting id' ws' hmem
    exact ⟨active, (Function.update_of_ne (hother hsocket herase) _ _).trans hsocket, herase⟩
  · have hsocket := h.erasing id' ws' hmem
    exact (Function.update_of_ne (hother hsocket fun _ => hmem) _ _).trans hsocket

/-- With nobody reading, a socket is put in. -/
theorem ok_insert (h : s.Ok) (hmem : RegistryThread.insert id ws ∈ s.threads) (hidle : s.notifications = []) :
    ({ s.runThread (.insert id ws) with threads := s.threads.erase (.insert id ws) } : ProgressServer).Ok := by
  have hthread : ∀ t, t ∈ s.threads.erase (.insert id ws) ↔ t ≠ .insert id ws ∧ t ∈ s.threads := fun t => h.nodup.mem_erase_iff
  have herase : ∀ {id' ws'}, RegistryThread.erase id' ws' ∈ s.threads →
      RegistryThread.erase id' ws' ∈ s.threads.erase (.insert id ws) := by
    intro id' ws' hin
    rw [hthread]
    exact ⟨fun he => (by cases he), hin⟩
  have hconnections : ∀ id' ws', ws' ∈ (s.runThread (.insert id ws)).connections id' ↔
      (id' = id ∧ ws' = ws) ∨ ws' ∈ s.connections id' := by
    intro id' ws'
    by_cases hid : id' = id
    · subst hid
      unfold ProgressServer.runThread
      rw [setConnections_self, Option.getD_some, Finset.mem_insert]
      simp only [true_and]
    · unfold ProgressServer.runThread
      rw [setConnections_ne s hid]
      simp only [hid, false_and, false_or]
  refine ⟨fun id' ws' hin => ?_, fun id' ws' hopen => ?_, fun id' ws' hin => ?_, fun id' ws' hin => ?_, h.nodup.erase _,
    fun n hn => ?_⟩
  · rcases (hconnections id' ws').mp hin with ⟨rfl, rfl⟩ | hin
    · obtain ⟨active, hsocket, hpending⟩ := h.inserting _ _ hmem
      refine ⟨active, hsocket, fun hagain => ?_, fun ha => herase (hpending ha)⟩
      exact ((hthread _).mp hagain).1 rfl
    · obtain ⟨active, hsocket, hinsert, hpending⟩ := h.listed id' ws' hin
      exact ⟨active, hsocket, fun hagain => hinsert ((hthread _).mp hagain).2, fun ha => herase (hpending ha)⟩
  · rcases h.opened id' ws' hopen with hpending | hin
    · by_cases hsame : RegistryThread.insert id' ws' = .insert id ws
      · cases hsame
        exact Or.inr ((hconnections _ _).mpr (Or.inl ⟨rfl, rfl⟩))
      · exact Or.inl ((hthread _).mpr ⟨hsame, hpending⟩)
    · exact Or.inr ((hconnections id' ws').mpr (Or.inr hin))
  · obtain ⟨active, hsocket, hpending⟩ := h.inserting id' ws' ((hthread _).mp hin).2
    exact ⟨active, hsocket, fun ha => herase (hpending ha)⟩
  · exact h.erasing id' ws' ((hthread _).mp hin).2
  · have hnone : n ∈ s.notifications := hn
    rw [hidle] at hnone
    cases hnone

/-- With nobody reading, a socket that was put in is taken out. -/
theorem ok_erase (h : s.Ok) (hmem : RegistryThread.erase id ws ∈ s.threads) (hidle : s.notifications = [])
    (hinserted : RegistryThread.insert id ws ∉ s.threads) :
    ({ s.runThread (.erase id ws) with threads := s.threads.erase (.erase id ws) } : ProgressServer).Ok := by
  have hthread : ∀ t, t ∈ s.threads.erase (.erase id ws) ↔ t ≠ .erase id ws ∧ t ∈ s.threads := fun t => h.nodup.mem_erase_iff
  have hsocket := h.erasing id ws hmem
  have hconnections : ∀ id' ws', ws' ∈ (s.runThread (.erase id ws)).connections id' ↔
      ¬ (id' = id ∧ ws' = ws) ∧ ws' ∈ s.connections id' := by
    intro id' ws'
    by_cases hid : id' = id
    · subst hid
      have hleft : (s.runThread (.erase id' ws)).connections id' = (s.connections id').erase ws := by
        unfold ProgressServer.runThread
        rw [setConnections_self]
        split
        · rename_i hcard
          rw [Option.getD_none, Finset.card_eq_zero.mp hcard]
        · rw [Option.getD_some]
      rw [hleft, Finset.mem_erase]
      simp only [true_and, ne_eq]
    · unfold ProgressServer.runThread
      rw [setConnections_ne s hid]
      simp only [hid, false_and, not_false_eq_true, true_and]
  -- another thread's socket is another one, or has the thread still before it
  have herase : ∀ {id' ws'}, ¬ (id' = id ∧ ws' = ws) → RegistryThread.erase id' ws' ∈ s.threads →
      RegistryThread.erase id' ws' ∈ s.threads.erase (.erase id ws) := by
    intro id' ws' hother hin
    rw [hthread]
    refine ⟨fun he => ?_, hin⟩
    cases he
    exact hother ⟨rfl, rfl⟩
  refine ⟨fun id' ws' hin => ?_, fun id' ws' hopen => ?_, fun id' ws' hin => ?_, fun id' ws' hin => ?_, h.nodup.erase _,
    fun n hn => ?_⟩
  · obtain ⟨hother, hin⟩ := (hconnections id' ws').mp hin
    obtain ⟨active, hsocket', hinsert, hpending⟩ := h.listed id' ws' hin
    exact ⟨active, hsocket', fun hagain => hinsert ((hthread _).mp hagain).2, fun ha => herase hother (hpending ha)⟩
  · have hother : ¬ (id' = id ∧ ws' = ws) := by
      rintro ⟨rfl, rfl⟩
      have hclosed : s.sockets ws' = some ⟨id', true⟩ := hopen
      rw [hsocket] at hclosed
      cases hclosed
    rcases h.opened id' ws' hopen with hpending | hin
    · exact Or.inl ((hthread _).mpr ⟨fun he => (by cases he), hpending⟩)
    · exact Or.inr ((hconnections id' ws').mpr ⟨hother, hin⟩)
  · have hin' := ((hthread _).mp hin).2
    obtain ⟨active, hsocket', hpending⟩ := h.inserting id' ws' hin'
    refine ⟨active, hsocket', fun ha => herase ?_ (hpending ha)⟩
    rintro ⟨rfl, rfl⟩
    exact hinserted hin'
  · exact h.erasing id' ws' ((hthread _).mp hin).2
  · have hnone : n ∈ s.notifications := hn
    rw [hidle] at hnone
    cases hnone

/-- Other notifications, of which none has more before it than the registry lists. -/
theorem ok_notifications (h : s.Ok) {notifications : List Notification}
    (hn : ∀ n ∈ notifications, n.connections ⊆ s.connections n.dataset_id) :
    ({ s with notifications := notifications } : ProgressServer).Ok :=
  ⟨h.listed, h.opened, h.inserting, h.erasing, h.nodup, hn⟩

theorem ok_notify (h : s.Ok) :
    ({ s.setConnections id (some (s.connections id)) with notifications := s.notifications ++ [⟨id, s.connections id⟩] } :
      ProgressServer).Ok := by
  have hsame : ∀ id', (s.setConnections id (some (s.connections id))).connections id' = s.connections id' := by
    intro id'
    by_cases hid : id' = id
    · subst hid
      rw [setConnections_self, Option.getD_some]
    · exact setConnections_ne s hid _
  have hok : (s.setConnections id (some (s.connections id))).Ok := by
    refine ⟨fun id' ws' hin => ?_, fun id' ws' hopen => ?_, h.inserting, h.erasing, h.nodup, fun n hn => ?_⟩
    · rw [hsame] at hin
      exact h.listed id' ws' hin
    · rw [hsame]
      exact h.opened id' ws' hopen
    · rw [hsame]
      exact h.reading n hn
  refine ok_notifications hok fun n hn => ?_
  rw [hsame]
  rcases List.mem_append.mp hn with hn | hn
  · exact h.reading n hn
  · rw [List.mem_singleton.mp hn]

end

theorem ok_progressStep {s s' : ProgressServer} {e : ProgressStep} (h : s.Ok) (horder : s.InOrder e) (hs : s.step e = some s') :
    s'.Ok := by
  cases e with
  | opened ws id =>
    simp only [ProgressServer.step] at hs
    cases hws : s.sockets ws with
    | none =>
      rw [hws] at hs
      cases hs
      exact ok_opened h hws
    | some session =>
      rw [hws] at hs
      cases hs
  | close ws =>
    simp only [ProgressServer.step] at hs
    split at hs
    · rename_i id hws
      cases hs
      exact ok_close h hws
    · cases hs
  | free ws =>
    simp only [ProgressServer.step] at hs
    split at hs
    · rename_i id hws
      cases hs
      exact ok_free h hws (horder _ hws)
    · cases hs
  | run thread =>
    simp only [ProgressServer.step] at hs
    split at hs
    · rename_i hrun
      cases hs
      cases thread with
      | insert id ws => exact ok_insert h hrun.1 hrun.2
      | erase id ws => exact ok_erase h hrun.1 hrun.2 horder
    · cases hs
  | notify id =>
    cases hs
    exact ok_notify h
  | look i ws =>
    simp only [ProgressServer.step] at hs
    split at hs
    · rename_i n hn
      split at hs
      · cases hs
        refine ok_notifications h fun n' hn' => ?_
        rcases List.mem_or_eq_of_mem_set hn' with hn' | rfl
        · exact h.reading n' hn'
        · exact (Finset.erase_subset _ _).trans (h.reading n (List.mem_of_getElem? hn))
      · cases hs
    · cases hs
  | leave i =>
    simp only [ProgressServer.step] at hs
    split at hs
    · split at hs
      · cases hs
        exact ok_notifications h fun n hn => h.reading n (List.mem_of_mem_eraseIdx hn)
      · cases hs
    · cases hs

/-- In whatever order handlers, threads and notifications run: as long as each socket is put
    in before it is taken out and taken out before its session is freed, the registry comes to
    hold the open sockets, and nobody looks into a session that is freed. -/
theorem registry_sound (steps : List ProgressStep) (s : ProgressServer)
    (horder : Each ProgressServer.step ProgressServer.InOrder ProgressServer.init steps)
    (h : run ProgressServer.step ProgressServer.init steps = some s) : s.Sound :=
  sound_of_ok (run_invariant ProgressServer.Ok (fun _ _ _ h hp hs => ok_progressStep h hp hs) steps progress_init horder h)

/-! ## A socket that closes early -/

def aSocketsLife : List ProgressStep :=
  [.opened 7 "a", .run (.insert "a" 7), .notify "a", .look 0 7, .leave 0, .close 7, .run (.erase "a" 7), .free 7]

theorem registry_sound_one_socket :
    ∃ s, run ProgressServer.step ProgressServer.init (aSocketsLife.take 3) = some s ∧
      s.notifications.map Notification.connections = [{7}] ∧ s.Sound := by
  have hrun : (run ProgressServer.step ProgressServer.init (aSocketsLife.take 3)).map
      (fun s => s.notifications.map Notification.connections) = some [{7}] := by
    decide +kernel
  obtain ⟨s, hs, hconnections⟩ := Option.map_eq_some_iff.mp hrun
  exact ⟨s, hs, hconnections, registry_sound _ s (by decide +kernel) hs⟩

/-- Taken out before it is put in, a socket stays in the registry when it is gone; and a
    notification comes to a session that was freed before its socket was taken out. -/
theorem a_dead_socket_is_registered :
    (¬ ∀ (steps : List ProgressStep) (s : ProgressServer),
      run ProgressServer.step ProgressServer.init steps = some s → s.threads = [] →
        ∀ id ws, ws ∈ s.connections id ↔ s.sockets ws = some ⟨id, true⟩) ∧
    ¬ ∀ (steps : List ProgressStep) (s : ProgressServer),
      run ProgressServer.step ProgressServer.init steps = some s →
        ∀ n ∈ s.notifications, ∀ ws ∈ n.connections, s.sockets ws ≠ none := by
  refine ⟨fun h => ?_, fun h => ?_⟩
  · have hrun : (run ProgressServer.step ProgressServer.init
        [.opened 7 "a", .close 7, .run (.erase "a" 7), .free 7, .run (.insert "a" 7)]).map
          (fun s => (s.threads, s.connections "a", s.sockets 7)) = some ([], {7}, none) := by
      decide +kernel
    obtain ⟨s, hs, hend⟩ := Option.map_eq_some_iff.mp hrun
    simp only [Prod.mk.injEq] at hend
    obtain ⟨hthreads, hconnections, hsocket⟩ := hend
    have hopen := (h _ s hs hthreads "a" 7).mp (by rw [hconnections]; exact Finset.mem_singleton_self 7)
    rw [hsocket] at hopen
    cases hopen
  · have hrun : (run ProgressServer.step ProgressServer.init
        [.opened 7 "a", .run (.insert "a" 7), .notify "a", .close 7, .free 7]).map
          (fun s => (s.notifications.map Notification.connections, s.sockets 7)) = some ([{7}], none) := by
      decide +kernel
    obtain ⟨s, hs, hend⟩ := Option.map_eq_some_iff.mp hrun
    rw [Prod.mk.injEq] at hend
    obtain ⟨n, hn, hseven⟩ : ∃ n ∈ s.notifications, n.connections = {7} :=
      List.mem_map.mp (by rw [hend.1]; exact List.mem_singleton.mpr rfl)
    exact h _ s hs n hn 7 (by rw [hseven]; exact Finset.mem_singleton_self 7) hend.2

end FitsWebQL
