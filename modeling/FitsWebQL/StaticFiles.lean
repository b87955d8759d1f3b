/-
  FitsWebQL.StaticFiles — the files under `htdocs` that the `/htdocs/*` route and the
  catch-all route serve (`serve_file`, `main_uWS.cpp`). A path is text as the HTTP layer
  passes it on, `%`-escapes and all, and the server opens what the text says: up to its
  first '?', and its first NUL.

  `resolve` takes a path from the server's directory through its components. It ends under
  `htdocs` exactly when it never climbs above `htdocs`, or goes back down the way it climbed
  (`served_under_htdocs_iff`); the server does not look (`password_file`).
-/

import FitsWebQL.Header
import FitsWebQL.Lib.Paths

namespace FitsWebQL

open Lib.Paths

/-! ## Paths -/

def pathMove (component : Bytes) : Move Bytes :=
  if component = [] ∨ component = lit "." then .stay
  else if component = lit ".." then .up
  else .down component

def pathMoves (path : Bytes) : List (Move Bytes) := (path.splitOn 47).map pathMove

def resolvePath (cwd : List Bytes) (path : Bytes) : List Bytes :=
  walk (if path.head? = some 47 then [] else cwd) (pathMoves path)

/-! ## Routes -/

def serve_file (uri : Bytes) : Bytes :=
  let resource := if uri.head? = some 47 then uri.drop 1 else uri
  let resource := resource.takeWhile (· ≠ 63)
  resource.takeWhile (· ≠ 0)

inductive StaticRoute
  | htdocs
  | catchAll
  deriving DecidableEq

/-- What a route receives, `rest` being what its pattern leaves open. -/
def StaticRoute.uri : StaticRoute → Bytes → Bytes
  | .htdocs, rest => lit "/htdocs/" ++ rest
  | .catchAll, rest => lit "/" ++ rest

/-- The catch-all route answers these itself. -/
def answered (uri : Bytes) : Bool :=
  find uri (lit "/image_spectrum") || find uri (lit "/get_molecules") || find uri (lit "/get_fits") ||
    find uri (lit "FITSWebQL.html")

def StaticRoute.serve (route : StaticRoute) (rest : Bytes) : Option Bytes :=
  match route with
  | .htdocs => some (serve_file (route.uri rest))
  | .catchAll => if answered (route.uri rest) then none else some (serve_file (lit "htdocs" ++ route.uri rest))

def fileText (rest : Bytes) : Bytes := (rest.takeWhile (· ≠ 63)).takeWhile (· ≠ 0)

def htdocsIn (cwd : List Bytes) : List Bytes := cwd ++ [lit "htdocs"]

/-! ## Under `htdocs` -/

theorem takeWhile_ne {stop : UInt8} {front : Bytes} (h : stop ∉ front) (rest : Bytes) :
    (front ++ rest).takeWhile (· ≠ stop) = front ++ rest.takeWhile (· ≠ stop) := by
  apply List.takeWhile_append_of_pos
  intro c hc
  rw [decide_eq_true_eq]
  rintro rfl
  exact h hc

theorem serve_file_htdocs (rest : Bytes) :
    serve_file (lit "/htdocs/" ++ rest) = lit "htdocs/" ++ fileText rest ∧
      serve_file (lit "htdocs" ++ (lit "/" ++ rest)) = lit "htdocs/" ++ fileText rest := by
  have hread : ((lit "htdocs/" ++ rest).takeWhile (· ≠ 63)).takeWhile (· ≠ 0) = lit "htdocs/" ++ fileText rest := by
    rw [takeWhile_ne (by decide), takeWhile_ne (by decide), fileText]
  exact ⟨hread, hread⟩

theorem pathMoves_htdocs (text : Bytes) : pathMoves (lit "htdocs/" ++ text) = .down (lit "htdocs") :: pathMoves text := by
  have hname : (47 : UInt8) ∉ lit "htdocs" := by decide
  have hsplit : (lit "htdocs/" ++ text).splitOn 47 = lit "htdocs" :: text.splitOn 47 :=
    List.splitOn_append_cons_self_of_not_mem hname text
  unfold pathMoves
  rw [hsplit, List.map_cons]
  congr 1

theorem resolvePath_htdocs (cwd : List Bytes) (text : Bytes) :
    resolvePath cwd (lit "htdocs/" ++ text) = walk (htdocsIn cwd) (pathMoves text) := by
  have hrelative : (lit "htdocs/" ++ text).head? ≠ some 47 := by
    show some (104 : UInt8) ≠ some 47
    decide
  rw [resolvePath, if_neg hrelative, pathMoves_htdocs]
  rfl

theorem serve_eq (route : StaticRoute) (rest : Bytes) :
    route.serve rest = if route = .catchAll ∧ answered (route.uri rest) = true then none else some (lit "htdocs/" ++ fileText rest) := by
  obtain ⟨hhtdocs, hcatch⟩ := serve_file_htdocs rest
  cases route with
  | htdocs => simp [StaticRoute.serve, StaticRoute.uri, hhtdocs]
  | catchAll =>
    simp only [StaticRoute.serve, StaticRoute.uri, hcatch]
    simp

/-- The path climbs above `htdocs`, and goes down again by the names it climbed over. -/
def ComesBack (cwd : List Bytes) (moves : List (Move Bytes)) : Prop :=
  (climb moves).1 ≠ 0 ∧ (htdocsIn cwd).drop ((htdocsIn cwd).length - (climb moves).1) <+: (climb moves).2

theorem served_under_htdocs_iff (cwd : List Bytes) (route : StaticRoute) (rest : Bytes) :
    (∀ file, route.serve rest = some file → htdocsIn cwd <+: resolvePath cwd file) ↔
      (route = .catchAll ∧ answered (route.uri rest) = true) ∨ NeverAbove (pathMoves (fileText rest)) ∨
        ComesBack cwd (pathMoves (fileText rest)) := by
  rw [serve_eq]
  by_cases hanswered : route = .catchAll ∧ answered (route.uri rest) = true
  · rw [if_pos hanswered]
    constructor
    · intro _
      exact Or.inl hanswered
    · intro _ file hfile
      cases hfile
  · rw [if_neg hanswered]
    simp only [hanswered, false_or, Option.some.injEq, forall_eq', resolvePath_htdocs]
    constructor
    · intro hunder
      by_cases hclimb : (climb (pathMoves (fileText rest))).1 = 0
      · exact Or.inl (climb_eq_zero_iff.mp hclimb)
      · exact Or.inr ⟨hclimb, under_walk_iff.mp hunder⟩
    · rintro (hnever | ⟨-, hback⟩)
      · exact under_walk_of_neverAbove hnever _
      · exact under_walk_iff.mpr hback

/-- From /srv/fitswebql, out of `htdocs`. -/
theorem password_file :
    StaticRoute.htdocs.serve (lit "../../../etc/passwd") = some (lit "htdocs/../../../etc/passwd") ∧
      resolvePath [lit "srv", lit "fitswebql"] (lit "htdocs/../../../etc/passwd") = [lit "etc", lit "passwd"] ∧
      ¬ htdocsIn [lit "srv", lit "fitswebql"] <+: [lit "etc", lit "passwd"] := by
  refine ⟨by decide, ?_, by decide⟩
  rw [show lit "htdocs/../../../etc/passwd" = lit "htdocs/" ++ lit "../../../etc/passwd" by decide, resolvePath_htdocs]
  decide

end FitsWebQL
