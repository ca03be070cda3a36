import DartReach.Proofs.ReferenceMeaning
import DartReach.Proofs.RelativePaths

/-!
# Redundant segments

An empty segment, `.`, and a name that `..` takes back at once lead nowhere. Read behind any segments,
they leave these as they are: at the top, behind a `..` that was kept, and at the end of a path. So they
can be put into a reference wherever there is a slash, and the reference is answered as before.
-/

namespace DartReach

set_option autoImplicit false

open Bytes (slash)

namespace Path

/-- Segments that lead nowhere. -/
inductive Idle : List Bytes → Prop where
  | empty : Idle [[]]
  | here : Idle [here]
  | back {s : Bytes} (name : Ordinary s) : Idle [s, up]

/-- Segments with idle ones put in, anywhere and any number of times. -/
inductive Padded (segs : List Bytes) : List Bytes → Prop where
  | same : Padded segs segs
  | insert (before after : List Bytes) {idle : List Bytes} (padded : Padded segs (before ++ after))
      (leadsNowhere : Idle idle) : Padded segs (before ++ idle ++ after)

/-- The segments of a path as something to put others into; an empty path has none. -/
def inner (p : Bytes) : List Bytes := if p = [] then [] else segments p

/-- `q` is the path `p` with idle segments put in. -/
def Respells (p q : Bytes) : Prop := Padded (inner p) (segments q)

theorem foldl_step_idle (rooted : Bool) {idle : List Bytes} (h : Idle idle) (done : List Bytes) :
    idle.foldl (step rooted) done = done := by
  cases h with
  | empty => exact step_redundant rooted done (Or.inl rfl)
  | here => exact step_redundant rooted done (Or.inr rfl)
  | @back s name =>
    have hpop : step rooted (s :: done) up = done := by
      have hread : ¬ (up = [] ∨ up = Path.here) := by decide
      simp only [step, if_neg hread, if_true, if_neg name.notUp]
    rw [List.foldl_cons, step_ordinary rooted done name, List.foldl_cons, hpop, List.foldl_nil]

theorem foldl_step_padded (rooted : Bool) {segs padded : List Bytes} (h : Padded segs padded)
    (done : List Bytes) :
    padded.foldl (step rooted) done = segs.foldl (step rooted) done := by
  induction h with
  | same => rfl
  | insert before after _ leadsNowhere ih =>
    rw [← ih, List.foldl_append, List.foldl_append, List.foldl_append, foldl_step_idle rooted leadsNowhere]

theorem foldl_step_inner (rooted : Bool) (p : Bytes) (done : List Bytes) :
    (inner p).foldl (step rooted) done = (segments p).foldl (step rooted) done := by
  unfold inner
  split
  · rename_i hp
    rw [hp]
    exact (foldl_step_idle rooted .empty done).symm
  · rfl

theorem Respells.foldl_step {p q : Bytes} (h : Respells p q) (rooted : Bool) (done : List Bytes) :
    (segments q).foldl (step rooted) done = (segments p).foldl (step rooted) done := by
  rw [foldl_step_padded rooted h, foldl_step_inner]

/-! ### Cleaning and joining -/

theorem isAbsolute_append_of_ne_nil {p : Bytes} (h : p ≠ []) (q : Bytes) :
    isAbsolute (p ++ q) = isAbsolute p := by
  cases p with
  | nil => exact absurd rfl h
  | cons b p => rfl

theorem clean_ne_nil (p : Bytes) : clean p ≠ [] := by
  cases hp : isAbsolute p with
  | true =>
    rw [clean_of_absolute hp]
    exact render_ne_nil _
  | false =>
    rw [clean_of_relative hp]
    exact render_relative_ne_nil (settled_kept p)

variable {p q : Bytes}

theorem Respells.clean_eq (h : Respells p q) (hsame : isAbsolute q = isAbsolute p) : clean q = clean p := by
  rw [clean, clean, hsame, reduce, reduce, h.foldl_step]

/-- Behind a directory it does not matter whether the path looks absolute. -/
theorem Respells.join_eq (h : Respells p q) {dir : Bytes} (hdir : dir ≠ []) : join dir q = join dir p := by
  rw [join_of_ne_nil hdir, join_of_ne_nil hdir, clean, clean, isAbsolute_append_of_ne_nil hdir,
    isAbsolute_append_of_ne_nil hdir, segments_append_slash, segments_append_slash, reduce_append,
    reduce_append, h.foldl_step]

end Path

namespace Host

variable {p q : Bytes}

theorem normalize_ne_nil (host : Host) (p : Bytes) : host.normalize p ≠ [] := by
  unfold normalize
  split
  · exact Path.clean_ne_nil p
  · split
    · rename_i loc _
      rw [pathOf, Path.join_of_ne_nil (Path.render_ne_nil loc)]
      exact Path.clean_ne_nil _
    · exact Path.clean_ne_nil p

theorem normalize_respelled (host : Host) (h : Path.Respells p q)
    (hsame : Path.isAbsolute q = Path.isAbsolute p) :
    host.normalize q = host.normalize p := by
  unfold normalize
  rw [hsame]
  split
  · exact h.clean_eq hsame
  · split
    · rename_i loc _
      exact h.join_eq (Path.render_ne_nil loc)
    · exact h.clean_eq hsame

end Host

namespace Resolver

theorem resolve_congr_source {host : Host} {source source' : Bytes}
    (h : host.normalize source' = host.normalize source) (r : Resolver) (target : Bytes) :
    r.resolve host source' target = r.resolve host source target := by
  simp only [resolve, h]

/--
Idle segments do not change what a reference leads to: neither in a reference into the own package nor in
a path, as long as it stays absolute or relative and is not taken for something else. The file that holds
the reference can be spelled in any way that has the same normal form, and idle segments do not change
this form.
-/
theorem resolve_respelled (maker host : Host) (libRoot packageName : Bytes) (builtins : List Bytes)
    {source source' : Bytes} (hsource : host.normalize source' = host.normalize source) {p q : Bytes}
    (h : Path.Respells p q) :
    let r := ofRoot maker libRoot packageName builtins
    (∃ file, r.resolve host source (packageStart packageName ++ p) = some file ∧
      r.resolve host source' (packageStart packageName ++ q) = some file) ∧
    (Path.isAbsolute q = Path.isAbsolute p → Plain builtins p → Plain builtins q →
      ∃ file, r.resolve host source p = some file ∧ r.resolve host source' q = some file) ∧
    (∀ target, r.resolve host source' target = r.resolve host source target) ∧
    (Path.isAbsolute q = Path.isAbsolute p → host.normalize q = host.normalize p) := by
  intro r
  have hroot : r.libRoot ≠ [] := maker.normalize_ne_nil libRoot
  have hdir : Path.parent (host.normalize source) ≠ [] := Path.clean_ne_nil _
  refine ⟨⟨_, resolve_own host r source p, ?_⟩, ?_, resolve_congr_source hsource r,
    host.normalize_respelled h⟩
  · rw [← h.join_eq hroot]
    exact resolve_own host r source' q
  · intro hsame hp hq
    refine ⟨_, resolve_plain hp, ?_⟩
    rw [resolve_plain hq, hsource, hsame, h.clean_eq hsame, h.join_eq hdir]

theorem resolve_respelled_climbing :
    ∃ file, (ofRoot sampleHost (text "lib") (text "app") [text "dart:"]).resolve sampleHost (text "a.dart")
        (text "../../b.dart") = some file ∧
      (ofRoot sampleHost (text "lib") (text "app") [text "dart:"]).resolve sampleHost (text "x/.././a.dart")
        (text "./../x/../..//b.dart/y/..") = some file := by
  have hsource : sampleHost.normalize (text "x/.././a.dart") = sampleHost.normalize (text "a.dart") := by
    decide +kernel
  have hx : Path.Ordinary (text "x") := ⟨by decide, by decide, by decide, by decide⟩
  have hy : Path.Ordinary (text "y") := ⟨by decide, by decide, by decide, by decide⟩
  have hinner : Path.inner (text "../../b.dart") = [Path.up, Path.up, text "b.dart"] := by
    decide +kernel
  have hsegs : Path.segments (text "./../x/../..//b.dart/y/..") =
      [Path.here, Path.up, text "x", Path.up, Path.up, [], text "b.dart", text "y", Path.up] := by
    decide +kernel
  have h : Path.Respells (text "../../b.dart") (text "./../x/../..//b.dart/y/..") := by
    rw [Path.Respells, hinner, hsegs]
    apply Path.Padded.insert [Path.here, Path.up, text "x", Path.up, Path.up, [], text "b.dart"] [] _
      (.back hy)
    apply Path.Padded.insert [Path.here, Path.up, text "x", Path.up, Path.up] [text "b.dart"] _ .empty
    apply Path.Padded.insert [Path.here, Path.up] [Path.up, text "b.dart"] _ (.back hx)
    exact Path.Padded.insert [] [Path.up, Path.up, text "b.dart"] .same .here
  exact (resolve_respelled sampleHost sampleHost (text "lib") (text "app") [text "dart:"] hsource h).2.1
    (by decide) (by decide +kernel) (by decide +kernel)

end Resolver

end DartReach
