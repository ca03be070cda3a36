import DartReach.Proofs.WorkingDirectory
import DartReach.Settings.Pubspec

/-!
# Where the name of a package is looked up

A package has its name in a file beside its library directory. The file is looked up in the parent of the
spelling that was given for the library, and that is the directory above the library if the spelling ends
in a name. A spelling that comes to `.` or ends in `..` has another parent: there the file is looked up
inside the library, or below it.
-/

namespace DartReach

set_option autoImplicit false

open Bytes (slash)
open DartReach.Path (Ordinary Settled Canonical walk render kept)
open FileSystem (Reached)

namespace Pubspec

theorem ordinary_fileName : Ordinary fileName := ⟨by decide, by decide, by decide, by decide⟩

theorem path_of_relative {p : Bytes} (h : Path.isAbsolute p = false) :
    path p = render false (fileName :: (kept p).tail).reverse := by
  have hsettled := Path.settled_kept p
  rw [path, Path.clean_of_relative h, Path.parent_render_relative hsettled,
    Path.join_render_name hsettled.tail ordinary_fileName]

theorem path_render {names : List Bytes} (h : ∀ s ∈ names, Ordinary s) :
    path (render true names) = render true (names.dropLast ++ [fileName]) := by
  have hparent : ∀ s ∈ names.dropLast, Ordinary s := fun s hs => h s (List.dropLast_subset names hs)
  have hname : ∀ s ∈ [fileName], Ordinary s := List.forall_mem_singleton.mpr ordinary_fileName
  rw [path, Path.clean_render h, Path.parent_render_eq h, Path.join_render_eq hparent, Path.segments,
    Bytes.split_of_not_mem ordinary_fileName.slashFree, Path.walk_ordinary _ hname]

theorem path_clean (p : Bytes) : path (Path.clean p) = path p := by
  rw [path, Path.clean_clean, path]

theorem canonical_path {p : Bytes} (h : Path.isAbsolute p = true) : Canonical (path p) := by
  obtain ⟨names, hnames, hclean⟩ := Path.canonical_clean h
  rw [← path_clean, hclean, path_render hnames]
  apply Path.canonical_render
  intro s hs
  rcases List.mem_append.mp hs with hs | hs
  · exact hnames s (List.dropLast_subset names hs)
  · rw [List.mem_singleton.mp hs]
    exact ordinary_fileName

/-- The error without the path it is reported with. -/
def Error.withoutPath : Error → Error
  | .unreadable e => .unreadable { e with path := [] }
  | .malformed e => .malformed e
  | .nameless _ => .nameless []

end Pubspec

namespace Host

/-- The name of a package or the reason why it has none, whatever path the reason is given with. -/
def nameOutcome (host : Host) (libRoot : Bytes) : Except Pubspec.Error Bytes :=
  (host.packageName libRoot).mapError Pubspec.Error.withoutPath

/--
The current directory is at a place that is reached from the top along its names, and is known by them: an
absolute `PWD` that leads there has no other spelling of it.
-/
structure StandsAt (host : Host) (loc : Location) : Prop where
  workingDir : host.workingDir = some loc
  reached : Reached host.files.root loc
  spelled : ∀ pwd node, host.env.get? (text "PWD") = some pwd → Path.isAbsolute pwd = true →
    host.find pwd = .ok (loc, node) → pwd = pathOf loc

/-- A spelling of a library that ends in a name, or whose parent is the top directory. -/
def Beside (host : Host) (libRoot : Bytes) : Prop :=
  (Path.base (Path.clean libRoot) ≠ Path.here ∧ Path.base (Path.clean libRoot) ≠ Path.up) ∨
    host.normalize (Path.parent (Path.clean libRoot)) = [slash]

instance (host : Host) (libRoot : Bytes) : Decidable (host.Beside libRoot) :=
  inferInstanceAs (Decidable (_ ∨ _))

variable {host : Host} {loc : Location}

theorem beside_of_absolute {p : Bytes} (h : Path.isAbsolute p = true) : host.Beside p := by
  obtain ⟨names, hnames, hclean⟩ := Path.canonical_clean h
  left
  rw [hclean, Path.base_render hnames]
  cases names using List.reverseRecOn with
  | nil => decide
  | append_singleton names s _ =>
    have hs : Ordinary s := hnames s (by simp)
    simp [hs.notHere, hs.notUp]

theorem beside_iff_of_relative (hwd : host.workingDir = some loc) (hloc : ∀ s ∈ loc, Ordinary s) {p : Bytes}
    (h : Path.isAbsolute p = false) :
    host.Beside p ↔ walk loc (kept p).tail.reverse = (walk loc (kept p).reverse).dropLast := by
  have hsettled := Path.settled_kept p
  have hnames := Path.ordinary_walk hloc hsettled.tail
  have htop : render true (walk loc (kept p).tail.reverse) = [slash] ↔ walk loc (kept p).tail.reverse = [] :=
    ⟨fun h => Path.render_injective hnames (List.forall_mem_nil _) h, fun h => by rw [h]; rfl⟩
  rw [Beside, Path.clean_of_relative h, Path.base_render_relative hsettled,
    Path.parent_render_relative hsettled,
    normalize_render_relative hwd hloc hsettled.tail, htop, Path.walk_tail_iff hsettled]

theorem normalize_path_iff (hwd : host.workingDir = some loc) (hloc : ∀ s ∈ loc, Ordinary s) (p : Bytes) :
    host.normalize (Pubspec.path p) = Pubspec.path (host.normalize p) ↔ host.Beside p := by
  cases hp : Path.isAbsolute p with
  | true =>
    have hsame : Pubspec.path (host.normalize p) = Pubspec.path p := by
      rw [normalize, if_pos hp, Pubspec.path_clean]
    rw [hsame, host.normalize_of_canonical (Pubspec.canonical_path hp)]
    exact iff_of_true rfl (beside_of_absolute hp)
  | false =>
    have hsettled := Path.settled_kept p
    have hfile := hsettled.tail.cons Pubspec.ordinary_fileName
    have hname : ∀ s ∈ [Pubspec.fileName], Ordinary s :=
      List.forall_mem_singleton.mpr Pubspec.ordinary_fileName
    have hlibrary := Path.ordinary_walk hloc hsettled
    have hparent : ∀ s ∈ (walk loc (kept p).reverse).dropLast ++ [Pubspec.fileName], Ordinary s :=
      List.forall_mem_append.mpr ⟨fun s hs => hlibrary s (List.dropLast_subset _ hs), hname⟩
    have hwalk : walk loc (Pubspec.fileName :: (kept p).tail).reverse =
        walk loc (kept p).tail.reverse ++ [Pubspec.fileName] := by
      rw [List.reverse_cons, Path.walk_append, Path.walk_ordinary _ hname]
    rw [beside_iff_of_relative hwd hloc hp, Pubspec.path_of_relative hp,
      normalize_render_relative hwd hloc hfile,
      normalize_of_relative hwd hloc hp, ← Path.walk_kept, Pubspec.path_render hlibrary,
      ← List.append_left_inj [Pubspec.fileName], ← hwalk]
    exact ⟨Path.render_injective (Path.ordinary_walk hloc hfile) hparent, congrArg (render true)⟩

theorem find_normalize_path (hwd : host.workingDir = some loc) (hreached : Reached host.files.root loc)
    (hloc : ∀ s ∈ loc, Ordinary s) {p : Bytes} (hshort : (Pubspec.path p).length ≤ maxPath)
    (hshort' : (host.normalize (Pubspec.path p)).length ≤ maxPath) :
    host.find (Pubspec.path p) = host.find (host.normalize (Pubspec.path p)) := by
  cases hp : Path.isAbsolute p with
  | true => rw [host.normalize_of_canonical (Pubspec.canonical_path hp)]
  | false =>
    have hsettled := (Path.settled_kept p).tail
    rw [Pubspec.path_of_relative hp,
      normalize_render_relative hwd hloc (hsettled.cons Pubspec.ordinary_fileName)] at hshort' ⊢
    rw [Pubspec.path_of_relative hp] at hshort
    exact find_from_top hwd hreached hsettled Pubspec.ordinary_fileName ⟨hshort, hshort'⟩

/-- Reading a package's file depends on where its path leads only. -/
theorem nameOutcome_congr {p q : Bytes} (h : host.find (Pubspec.path p) = host.find (Pubspec.path q)) :
    host.nameOutcome p = host.nameOutcome q := by
  have hparse : ∀ content, (Pubspec.parseName (Pubspec.path p) content).mapError Pubspec.Error.withoutPath =
      (Pubspec.parseName (Pubspec.path q) content).mapError Pubspec.Error.withoutPath := by
    intro content
    simp only [Pubspec.parseName]
    split
    · rfl
    · split <;> rfl
  simp only [nameOutcome, packageName, read, h]
  cases host.find (Pubspec.path q) with
  | error cause => rfl
  | ok found =>
    obtain ⟨_, node⟩ := found
    cases node with
    | file content access =>
      by_cases haccess : access = .none
      · simp [haccess, Except.mapError, Pubspec.Error.withoutPath]
      · simp [haccess, hparse]
    | dir entries access =>
      by_cases haccess : access = .none <;> simp [haccess, Except.mapError, Pubspec.Error.withoutPath]
    | link target => exact hparse []
    | device kind => exact hparse []

/--
The file of a package is looked up beside the library, as it is with the absolute path of the library,
exactly for the spellings that end in a name (and at the top directory). These spellings of one library
give the same name, or the same failure.
-/
theorem packageName_beside_library (h : host.StandsAt loc) (p : Bytes) :
    (host.normalize (Pubspec.path p) = Pubspec.path (host.normalize p) ↔ host.Beside p) ∧
    (host.Beside p → (Pubspec.path p).length ≤ maxPath → (Pubspec.path (host.normalize p)).length ≤ maxPath →
      host.nameOutcome p = host.nameOutcome (host.normalize p) ∧
      ∀ q, host.normalize q = host.normalize p → host.Beside q → (Pubspec.path q).length ≤ maxPath →
        host.nameOutcome q = host.nameOutcome p) := by
  obtain ⟨hwd, hreached, _⟩ := h
  have hloc : ∀ s ∈ loc, Ordinary s := fun s hs =>
    Path.ordinary_of_properName (hreached.proper host.files.wellFormed s hs)
  have hsame : ∀ q, host.Beside q → (Pubspec.path q).length ≤ maxPath →
      (Pubspec.path (host.normalize q)).length ≤ maxPath →
      host.nameOutcome q = host.nameOutcome (host.normalize q) := by
    intro q hq hshort hshort'
    have hpath := (normalize_path_iff hwd hloc q).mpr hq
    rw [← hpath] at hshort'
    apply nameOutcome_congr
    rw [find_normalize_path hwd hreached hloc hshort hshort', hpath]
  refine ⟨normalize_path_iff hwd hloc p, ?_⟩
  intro hp hshort hshort'
  refine ⟨hsame p hp hshort hshort', ?_⟩
  intro q hq hbeside hfits
  rw [hsame p hp hshort hshort', hsame q hbeside hfits (hq ▸ hshort'), hq]

/-! ### A package inside a library -/

/-- A package whose library directory, the current one, holds the file of another package. -/
def nestedHost : Host where
  files :=
    { root := .dir
        [(text "lib", .dir [(Pubspec.fileName, .file (text "name: inner\n") .full)] .full),
          (Pubspec.fileName, .file (text "name: app\n") .full)] .full
      wellFormed := .dir _ _ (by decide)
        (by simpa using ⟨.dir _ _ (by decide) (by simpa using .file _ _) (by decide), .file _ _⟩)
        (by decide) }
  workingDir := some [text "lib"]
  env := []

theorem reached_nestedHost : Reached nestedHost.files.root [text "lib"] := by
  constructor
  · intro dir hdir
    rcases List.prefix_cons_iff.mp hdir with rfl | ⟨rest, rfl, hrest⟩
    · exact ⟨_, _, rfl, by decide⟩
    · rw [List.prefix_nil.mp hrest]
      exact ⟨_, _, rfl, by decide⟩
  · decide

theorem standsAt_nestedHost : nestedHost.StandsAt [text "lib"] where
  workingDir := rfl
  reached := reached_nestedHost
  spelled := by
    intro pwd node hpwd
    cases hpwd

theorem packageName_beside_library_sample :
    nestedHost.nameOutcome (text "../lib") = nestedHost.nameOutcome (text "/lib") ∧
      nestedHost.normalize (Pubspec.path (text ".")) ≠ Pubspec.path (nestedHost.normalize (text ".")) := by
  have hlib : nestedHost.normalize (text "../lib") = text "/lib" := by decide
  constructor
  · rw [← hlib]
    exact ((packageName_beside_library standsAt_nestedHost _).2 (by decide) (by decide) (by decide)).1
  · intro h
    have hbeside := (packageName_beside_library standsAt_nestedHost _).1.mp h
    revert hbeside
    decide

/-- In the library directory the library `.` has the name of the package inside it. -/
theorem packageName_of_current_directory :
    nestedHost.normalize (text ".") = text "/lib" ∧
      (nestedHost.packageName (text ".")).toOption = some (text "inner") ∧
      (nestedHost.packageName (text "/lib")).toOption = some (text "app") ∧
      (nestedHost.packageName (text "../lib")).toOption = some (text "app") := by
  decide +kernel

end Host

end DartReach
