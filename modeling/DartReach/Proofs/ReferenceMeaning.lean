import DartReach.Proofs.ByteRuns
import DartReach.Proofs.PathEvaluation
import DartReach.Source.Reference

/-!
# What references mean

A reference is read in one of three ways, and the first that fits counts: from the library root, from the top
directory, or from the directory of the file it stands in. What leads to another package or to a built-in
library is not read at all. Every answer is an absolute normal form, so that all references to a file have one
answer, whether they name its package or the way from file to file.
-/

namespace DartReach.Resolver

set_option autoImplicit false

open Bytes (slash)
open DartReach.Path (Canonical Tidy evaluate render segments walk)

/-- Begins the references into a package. -/
def packageStart (packageName : Bytes) : Bytes := text "package:" ++ packageName ++ text "/"

/-- Leads to another package or to a built-in library. -/
def LeadsOut (packageName : Bytes) (builtins : List Bytes) (target : Bytes) : Prop :=
  ¬ packageStart packageName <+: target ∧
    (text "package:" <+: target ∨ ∃ b ∈ builtins, b <+: target)

instance (packageName : Bytes) (builtins : List Bytes) (target : Bytes) :
    Decidable (LeadsOut packageName builtins target) :=
  inferInstanceAs (Decidable (_ ∧ _))

/-- Neither a reference to a package nor one to a built-in library. -/
def Plain (builtins : List Bytes) (target : Bytes) : Prop :=
  ¬ text "package:" <+: target ∧ ∀ b ∈ builtins, ¬ b <+: target

instance (builtins : List Bytes) (target : Bytes) : Decidable (Plain builtins target) :=
  inferInstanceAs (Decidable (_ ∧ _))

/-- The segments that a reference in file `source` leads to, if it does not lead out. -/
inductive Denotes (host : Host) (libRoot packageName source : Bytes) :
    (target : Bytes) → (names : List Bytes) → Prop where
  | own (rest : Bytes) :
      Denotes host libRoot packageName source (packageStart packageName ++ rest)
        (evaluate (host.absolute libRoot ++ slash :: rest))
  | rooted {target : Bytes} (other : ¬ packageStart packageName <+: target)
      (absolute : Path.isAbsolute target = true) :
      Denotes host libRoot packageName source target (evaluate target)
  | beside {target : Bytes} (other : ¬ packageStart packageName <+: target)
      (relative : Path.isAbsolute target = false) :
      Denotes host libRoot packageName source target
        (walk (evaluate (host.absolute source)).dropLast (segments target))

/-! ### The three readings -/

section Readings

variable {host : Host} {r : Resolver} {source target : Bytes}

theorem own_eq (r : Resolver) : r.own = packageStart r.packageName := rfl

theorem isForeign_iff :
    r.isForeign target = true ↔ text "package:" <+: target ∨ ∃ b ∈ r.builtins, b <+: target := by
  simp only [isForeign, Bool.or_eq_true, List.any_eq_true, Bytes.startsWith_iff, scheme]

theorem resolve_own (host : Host) (r : Resolver) (source rest : Bytes) :
    r.resolve host source (packageStart r.packageName ++ rest) = some (Path.join r.libRoot rest) := by
  rw [resolve, own_eq, Bytes.after?_eq_some_iff.mpr rfl]

theorem resolve_foreign (hother : ¬ packageStart r.packageName <+: target)
    (hforeign : r.isForeign target = true) : r.resolve host source target = none := by
  rw [resolve, own_eq, Bytes.after?_eq_none_iff.mpr hother]
  simp only [hforeign, if_true]

theorem resolve_path (hother : ¬ packageStart r.packageName <+: target)
    (hforeign : r.isForeign target = false) :
    r.resolve host source target = some (if Path.isAbsolute target then Path.clean target
      else Path.join (Path.parent (host.normalize source)) target) := by
  rw [resolve, own_eq, Bytes.after?_eq_none_iff.mpr hother]
  simp only [hforeign, Bool.false_eq_true, if_false]
  split <;> rfl

theorem resolve_plain (h : Plain r.builtins target) :
    r.resolve host source target = some (if Path.isAbsolute target then Path.clean target
      else Path.join (Path.parent (host.normalize source)) target) := by
  apply resolve_path
  · intro hown
    apply h.1
    rw [packageStart, List.append_assoc] at hown
    exact (List.prefix_append _ _).trans hown
  · rw [← Bool.not_eq_true, isForeign_iff]
    rintro (hscheme | ⟨b, hb, hbuiltin⟩)
    · exact h.1 hscheme
    · exact h.2 b hb hbuiltin

theorem resolve_eq_none_iff :
    r.resolve host source target = none ↔ LeadsOut r.packageName r.builtins target := by
  rw [LeadsOut, ← isForeign_iff]
  by_cases hown : packageStart r.packageName <+: target
  · obtain ⟨rest, rfl⟩ := hown
    simp [resolve_own]
  · cases hforeign : r.isForeign target with
    | true => simp [resolve_foreign hown hforeign, hown]
    | false => simp [resolve_path hown hforeign]

end Readings

section Meaning

variable {host : Host} {libRoot packageName source target : Bytes} {builtins : List Bytes}
  {names : List Bytes}

theorem Denotes.exists_names (host : Host) (libRoot packageName source target : Bytes) :
    ∃ names, Denotes host libRoot packageName source target names := by
  by_cases hown : packageStart packageName <+: target
  · obtain ⟨rest, rfl⟩ := hown
    exact ⟨_, .own rest⟩
  · cases habs : Path.isAbsolute target with
    | true => exact ⟨_, .rooted hown habs⟩
    | false => exact ⟨_, .beside hown habs⟩

theorem Denotes.ordinary (h : Denotes host libRoot packageName source target names) :
    ∀ s ∈ names, Path.Ordinary s := by
  cases h with
  | own rest => exact Path.ordinary_evaluate _
  | rooted other absolute => exact Path.ordinary_evaluate _
  | beside other relative =>
    have hdir : ∀ s ∈ (evaluate (host.absolute source)).dropLast, Path.Ordinary s := by
      intro s hs
      exact Path.ordinary_evaluate _ s (List.dropLast_subset _ hs)
    rw [← Path.evaluate_render hdir, ← Path.evaluate_append_slash]
    exact Path.ordinary_evaluate _

/-- A reference that does not lead out is answered with the path of what it denotes. -/
theorem resolve_of_denotes (hcwd : host.workingDir ≠ none)
    (hin : ¬ LeadsOut packageName builtins target)
    (h : Denotes host libRoot packageName source target names) :
    (ofRoot host libRoot packageName builtins).resolve host source target =
      some (render true names) := by
  have hpath (hother : ¬ packageStart packageName <+: target) :
      (ofRoot host libRoot packageName builtins).isForeign target = false := by
    rw [← Bool.not_eq_true, isForeign_iff]
    exact fun hforeign => hin ⟨hother, hforeign⟩
  cases h with
  | own rest =>
    have hroot : (ofRoot host libRoot packageName builtins).libRoot =
        render true (evaluate (host.absolute libRoot)) := Host.normalize_eq_render hcwd libRoot
    have hown := resolve_own host (ofRoot host libRoot packageName builtins) source rest
    rw [hroot, Path.join_render_eq (Path.ordinary_evaluate _), ← Path.evaluate_append_slash] at hown
    exact hown
  | rooted other absolute =>
    rw [resolve_path other (hpath other), if_pos absolute, Path.clean_eq_render absolute]
  | beside other relative =>
    have hord := Path.ordinary_evaluate (host.absolute source)
    rw [resolve_path other (hpath other), if_neg (by simp [relative]), Host.normalize_eq_render hcwd,
      Path.parent_render_eq hord,
      Path.join_render_eq fun s hs => hord s (List.dropLast_subset _ hs)]

theorem resolve_eq_some_iff (hcwd : host.workingDir ≠ none) {p : Bytes} :
    (ofRoot host libRoot packageName builtins).resolve host source target = some p ↔
      ¬ LeadsOut packageName builtins target ∧
        ∃ names, Denotes host libRoot packageName source target names ∧ p = render true names := by
  constructor
  · intro hsome
    have hin : ¬ LeadsOut packageName builtins target := by
      intro hout
      have hnone := (@resolve_eq_none_iff host (ofRoot host libRoot packageName builtins) source
        target).mpr hout
      rw [hsome] at hnone
      cases hnone
    obtain ⟨names, hnames⟩ := Denotes.exists_names host libRoot packageName source target
    rw [resolve_of_denotes hcwd hin hnames, Option.some.injEq] at hsome
    exact ⟨hin, names, hnames, hsome.symm⟩
  · rintro ⟨hin, names, hnames, rfl⟩
    exact resolve_of_denotes hcwd hin hnames

theorem canonical_of_resolve (hcwd : host.workingDir ≠ none) {p : Bytes}
    (h : (ofRoot host libRoot packageName builtins).resolve host source target = some p) :
    Canonical p := by
  obtain ⟨-, names, hnames, rfl⟩ := (resolve_eq_some_iff hcwd).mp h
  exact Path.canonical_render hnames.ordinary

end Meaning

theorem resolve_from_anywhere {host : Host} {r : Resolver} {target : Bytes}
    (h : packageStart r.packageName <+: target ∨ Path.isAbsolute target = true)
    (source source' : Bytes) : r.resolve host source' target = r.resolve host source target := by
  by_cases hown : packageStart r.packageName <+: target
  · obtain ⟨rest, rfl⟩ := hown
    rw [resolve_own, resolve_own]
  · have habs := h.resolve_left hown
    cases hforeign : r.isForeign target with
    | true => rw [resolve_foreign hown hforeign, resolve_foreign hown hforeign]
    | false =>
      rw [resolve_path hown hforeign, resolve_path hown hforeign, if_pos habs, if_pos habs]

/--
A reference has no answer exactly if it leads out. Otherwise the answer is the path of what the reference
denotes. It is an absolute normal form, and except for relative references it does not depend on the file
that holds the reference.
-/
theorem resolve_exactly {host : Host} (hcwd : host.workingDir ≠ none) (libRoot packageName : Bytes)
    (builtins : List Bytes) (source target : Bytes) :
    let r := ofRoot host libRoot packageName builtins
    (r.resolve host source target = none ↔ LeadsOut packageName builtins target) ∧
    (∀ p, r.resolve host source target = some p ↔ ¬ LeadsOut packageName builtins target ∧
      ∃ names, Denotes host libRoot packageName source target names ∧ p = render true names) ∧
    (∀ p, r.resolve host source target = some p → Tidy p ∧ host.normalize p = p) ∧
    (packageStart packageName <+: target ∨ Path.isAbsolute target = true →
      ∀ source', r.resolve host source' target = r.resolve host source target) := by
  refine ⟨resolve_eq_none_iff, fun p => resolve_eq_some_iff hcwd, fun p hp => ?_, fun h source' => ?_⟩
  · have hcanonical := canonical_of_resolve hcwd hp
    exact ⟨hcanonical.tidy, host.normalize_of_canonical hcanonical⟩
  · exact resolve_from_anywhere h source source'

section Sample

def sampleHost : Host where
  files := FileSystem.empty
  workingDir := some [text "work"]
  env := []

theorem resolve_exactly_climbing :
    (ofRoot sampleHost (text "lib") (text "app") [[]]).resolve sampleHost (text "a.dart")
      (text "package:app/../..//../x/./y.dart") = some (text "/x/y.dart") ∧
    (ofRoot sampleHost (text "lib") (text "app") [[]]).resolve sampleHost (text "a.dart")
      (text "/x/y.dart") = none := by
  have hcwd : sampleHost.workingDir ≠ none := by
    decide
  have hin : ¬ LeadsOut (text "app") [[]] (text "package:app/../..//../x/./y.dart") := by
    decide +kernel
  have hout : LeadsOut (text "app") [[]] (text "/x/y.dart") := by
    decide +kernel
  have htarget : text "package:app/../..//../x/./y.dart" =
      packageStart (text "app") ++ text "../..//../x/./y.dart" := by
    decide +kernel
  have hpath : text "/x/y.dart" = render true
      (evaluate (sampleHost.absolute (text "lib") ++ slash :: text "../..//../x/./y.dart")) := by
    decide +kernel
  constructor
  · refine ((resolve_exactly hcwd _ _ _ _ _).2.1 _).mpr ⟨hin, _, ?_, hpath⟩
    rw [htarget]
    exact .own _
  · exact (resolve_exactly hcwd _ _ _ _ _).1.mpr hout

end Sample

/-! ### References that lead to a given file -/

theorem resolve_package_spelling (host : Host) {root file : Bytes} (hroot : Canonical root)
    (hfile : Canonical file) (packageName : Bytes) (builtins : List Bytes) :
    ∃ rel, Path.relative? root file = some rel ∧
      ∀ source, (ofRoot host root packageName builtins).resolve host source
        (packageStart packageName ++ rel) = some file := by
  obtain ⟨rel, hrel, -, hjoin⟩ := Path.join_relative? hroot hfile
  refine ⟨rel, hrel, fun source => ?_⟩
  have hlib : (ofRoot host root packageName builtins).libRoot = root :=
    host.normalize_of_canonical hroot
  have hown := resolve_own host (ofRoot host root packageName builtins) source rel
  rw [hlib, hjoin] at hown
  exact hown

theorem resolve_way (host : Host) (r : Resolver) {file source : Bytes} (hfile : Canonical file)
    (hsource : Canonical source) :
    ∃ rel, Path.relative? (Path.parent source) file = some rel ∧
      (¬ text "package:" <+: rel → (∀ b ∈ r.builtins, ¬ b <+: rel) →
        r.resolve host source rel = some file) := by
  obtain ⟨rel, hrel, habs, hjoin⟩ := Path.join_relative? hsource.parent hfile
  refine ⟨rel, hrel, fun hscheme hbuiltin => ?_⟩
  rw [resolve_plain ⟨hscheme, hbuiltin⟩, if_neg (by simp [habs]), host.normalize_of_canonical hsource, hjoin]

/--
Every file can be named from every other one, by its package and by the way from file to file, wherever the
two lie. Either reference is answered with the path of the file, except that the way can look like a reference
to a package or to a built-in library.
-/
theorem resolve_both_spellings (host : Host) {root file source : Bytes} (hroot : Canonical root)
    (hfile : Canonical file) (hsource : Canonical source) (packageName : Bytes)
    (builtins : List Bytes) :
    let r := ofRoot host root packageName builtins
    (∃ rel, Path.relative? root file = some rel ∧
      ∀ source', r.resolve host source' (packageStart packageName ++ rel) = some file) ∧
    (∃ rel, Path.relative? (Path.parent source) file = some rel ∧
      (¬ text "package:" <+: rel → (∀ b ∈ builtins, ¬ b <+: rel) →
        r.resolve host source rel = some file)) := by
  intro r
  constructor
  · exact resolve_package_spelling host hroot hfile packageName builtins
  · exact resolve_way host r hfile hsource

theorem resolve_both_spellings_sample :
    (ofRoot sampleHost (text "/work/lib") (text "app") [text "dart:"]).resolve sampleHost []
      (text "package:app/a/.../y.dart") = some (text "/work/lib/a/.../y.dart") ∧
    (ofRoot sampleHost (text "/work/lib") (text "app") [text "dart:"]).resolve sampleHost
      (text "/work/lib/ab/c d/x.dart") (text "../../a/.../y.dart") =
        some (text "/work/lib/a/.../y.dart") := by
  have hroot : Canonical (text "/work/lib") :=
    Path.canonical_of_clean_eq (by decide) (by decide +kernel)
  have hfile : Canonical (text "/work/lib/a/.../y.dart") :=
    Path.canonical_of_clean_eq (by decide) (by decide +kernel)
  have hsource : Canonical (text "/work/lib/ab/c d/x.dart") :=
    Path.canonical_of_clean_eq (by decide) (by decide +kernel)
  obtain ⟨⟨rel, hrel, hown⟩, way, hway, hpath⟩ :=
    resolve_both_spellings sampleHost hroot hfile hsource (text "app") [text "dart:"]
  obtain rfl : text "a/.../y.dart" = rel := by
    rw [← Option.some.injEq, ← hrel]
    decide +kernel
  obtain rfl : text "../../a/.../y.dart" = way := by
    rw [← Option.some.injEq, ← hway]
    decide +kernel
  exact ⟨hown [], hpath (by decide +kernel) (by decide +kernel)⟩

end DartReach.Resolver
