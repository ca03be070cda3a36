import DartReach.ImportGraph
import DartReach.Proofs.DiscoveryExact
import DartReach.Proofs.GraphSearch
import DartReach.Proofs.PathNormalForm
import DartReach.Proofs.Utf8Codec

/-!
# The graph of a library

A file is read under the normal form of its path, so two spellings of one path give the same row, and a
graph has one row for every normal form. A row holds all that the declarations of its file refer to, or
nothing if the file is not text. Discovered paths are normal forms already: they are the keys of their
graph as they stand.
-/

namespace DartReach

set_option autoImplicit false

open Bytes (slash)

/-! ### Paths of discovered files -/

namespace Discovery

open DartReach.Path

theorem withSlash_render {names : List Bytes} (h : ∀ s ∈ names, Ordinary s) :
    withSlash (render true names) = if names = [] then [slash] else render true names ++ [slash] := by
  by_cases hn : names = []
  · simp [hn, withSlash, render]
  · have hend := getLast?_render true hn fun s hs => ⟨(h s hs).nonempty, (h s hs).slashFree⟩
    rw [withSlash, if_neg hend, if_neg hn]

theorem pathBelow_render {names : List Bytes} (h : ∀ s ∈ names, Ordinary s) {loc : Location}
    (hne : loc ≠ []) : pathBelow (render true names) loc = render true (names ++ loc) := by
  rw [pathBelow, withSlash_render h]
  by_cases hn : names = []
  · simp [hn, render, relText]
  · simp [hn, render, relText, Bytes.join_append [slash] hn hne]

theorem pathBelow_injective {root : Bytes} {xs ys : Location} (hxs : ∀ n ∈ xs, Ordinary n)
    (hys : ∀ n ∈ ys, Ordinary n) (h : pathBelow root xs = pathBelow root ys) : xs = ys := by
  have htext : relText xs = relText ys := List.append_cancel_left h
  have hempty : ∀ {zs : Location}, (∀ n ∈ zs, Ordinary n) → relText zs = [] → zs = [] := by
    intro zs hzs hz
    cases zs with
    | nil => rfl
    | cons z rest =>
      have hne := (hzs z List.mem_cons_self).nonempty
      cases rest <;> simp [relText, Bytes.join_cons_cons, hne] at hz
  by_cases hx : xs = []
  · rw [hx]
    exact (hempty hys (by rw [← htext, hx]; rfl)).symm
  by_cases hy : ys = []
  · rw [hy]
    exact hempty hxs (by rw [htext, hy]; rfl)
  · exact relText_injective hx hy (fun n hn => (hxs n hn).slashFree)
      (fun n hn => (hys n hn).slashFree) htext

/-- A root that can be looked up is an absolute normal form, also without a current directory. -/
theorem canonical_of_shape {host : Host} {root : Bytes} {loc : Location} {k : Kind}
    (h : host.shape (host.normalize root) loc = some k) : Canonical (host.normalize root) := by
  apply host.canonical_normalize
  by_contra hno
  rw [not_or, not_not, Bool.not_eq_true] at hno
  have hrel : isAbsolute (host.normalize root) = false := by
    simp [Host.normalize, hno.1, hno.2, isAbsolute_clean]
  rw [Host.shape] at h
  split at h
  · rename_i node hstat
    exact Host.stat_relative hno.1 hrel hstat
  · simp at h

theorem ordinary_of_shape {host : Host} {root : Bytes} {loc : Location} {k : Kind}
    (h : host.shape root loc = some k) : ∀ s ∈ loc, Ordinary s := by
  intro s hs
  exact ordinary_of_properName (Host.properName_of_shape h s hs)

section Surveys

variable {host : Host} {root : Bytes} {options : Options} {patterns : List Glob.Matcher}
  {ignore : Option Ignore.File} {files : List Bytes}

theorem Surveyed.canonical (h : Surveyed host root options patterns ignore files) :
    ∀ p ∈ files, Canonical p := by
  intro p hp
  obtain ⟨loc, hfinds, rfl⟩ := (h.members p).mp hp
  obtain ⟨names, hn, hroot⟩ := canonical_of_shape hfinds.2.1
  rw [hroot, pathBelow_render hn hfinds.1.1]
  exact canonical_render (List.forall_mem_append.mpr ⟨hn, ordinary_of_shape hfinds.2.1⟩)

theorem Surveyed.normal (h : Surveyed host root options patterns ignore files) :
    ∀ p ∈ files, host.normalize p = p := by
  intro p hp
  exact host.normalize_of_canonical (h.canonical p hp)

end Surveys

end Discovery

/-! ### Rows -/

namespace ImportGraph

def keys (g : ImportGraph) : List Bytes := g.map Prod.fst

/-- The graph in which every key refers to what `f` says of it. -/
def rows (f : Bytes → List Bytes) (keys : List Bytes) : ImportGraph := keys.map fun k => (k, f k)

variable (f : Bytes → List Bytes) {ks : List Bytes}

@[simp] theorem keys_rows : keys (rows f ks) = ks := by
  simp [keys, rows, Function.comp_def]

theorem put_rows (k : Bytes) :
    put k (f k) (rows f ks) = rows f (if k ∈ ks then ks else ks ++ [k]) := by
  induction ks with
  | nil => rfl
  | cons x ks ih =>
    have hcons : rows f (x :: ks) = (x, f x) :: rows f ks := rfl
    rw [hcons, put]
    by_cases hx : x = k
    · subst hx
      simp [rows]
    · rw [if_neg hx, ih]
      by_cases hk : k ∈ ks <;> simp [rows, hk, Ne.symm hx]

theorem targets_rows {k : Bytes} (hk : k ∈ ks) : (rows f ks).targets k = f k := by
  induction ks with
  | nil => cases hk
  | cons x ks ih =>
    have hcons : rows f (x :: ks) = (x, f x) :: rows f ks := rfl
    rw [targets, hcons, List.lookup_cons]
    by_cases hx : k = x
    · simp [hx]
    · rw [beq_eq_false_iff_ne.mpr hx]
      exact ih ((List.mem_cons.mp hk).resolve_left hx)

theorem filter_rows (p : Bytes → Bool) :
    (rows f ks).filter (fun row => p row.1) = rows f (ks.filter p) := by
  rw [rows, rows, List.filter_map]
  rfl

end ImportGraph

/-! ### What one file refers to -/

theorem Host.toOption_read_eq_some {host : Host} {p content : Bytes} :
    (host.read p).toOption = some content ↔ host.read p = .ok content := by
  cases host.read p <;> simp [Except.toOption]

/-- The file can be read and is text. -/
def Host.isText (host : Host) (p : Bytes) : Bool := (host.read p).toOption.any Utf8.valid

theorem Host.isText_iff {host : Host} {p : Bytes} :
    host.isText p = true ↔ ∃ chars, host.read p = .ok (encode chars) := by
  rw [isText, Option.any_eq_true]
  constructor
  · rintro ⟨content, hread, hvalid⟩
    obtain ⟨chars, rfl⟩ := Utf8.valid_iff.mp hvalid
    exact ⟨chars, Host.toOption_read_eq_some.mp hread⟩
  · rintro ⟨chars, hread⟩
    exact ⟨_, Host.toOption_read_eq_some.mpr hread, Utf8.valid_encode chars⟩

namespace Resolver

variable (host : Host) (r : Resolver)

/-- A declaration in file `p`, which can be read and is text, refers to `q`. -/
def Refers (p q : Bytes) : Prop :=
  ∃ content, host.read p = .ok content ∧ Utf8.valid content = true ∧
    ∃ t ∈ Declaration.targets content, r.resolve host p t = some q

theorem refers_iff {p q : Bytes} :
    r.Refers host p q ↔ ∃ chars, host.read p = .ok (encode chars) ∧
      ∃ t ∈ Declaration.targets (encode chars), r.resolve host p t = some q := by
  constructor
  · rintro ⟨content, hread, hvalid, hrefers⟩
    obtain ⟨chars, rfl⟩ := Utf8.valid_iff.mp hvalid
    exact ⟨chars, hread, hrefers⟩
  · rintro ⟨chars, hread, hrefers⟩
    exact ⟨_, hread, Utf8.valid_encode chars, hrefers⟩

theorem resolveFile_path (p : Bytes) : (r.resolveFile host p).path = host.normalize p := by
  simp only [resolveFile]
  split <;> rfl

/-- The spelling of a path does not matter. -/
theorem resolveFile_normalize (p : Bytes) :
    r.resolveFile host (host.normalize p) = r.resolveFile host p := by
  simp only [resolveFile, host.normalize_normalize]

theorem mem_imports_iff {p q : Bytes} :
    q ∈ (r.resolveFile host p).imports ↔ r.Refers host (host.normalize p) q := by
  simp only [resolveFile, Host.readSource, Refers]
  cases host.read (host.normalize p) with
  | error e => simp
  | ok content =>
    by_cases hv : Utf8.valid content = true
    · simp [hv, resolveContent, Bytes.mem_sortUnique]
    · simp [hv]

theorem ascending_imports (p : Bytes) : Bytes.Ascending (r.resolveFile host p).imports := by
  simp only [resolveFile]
  split
  · exact Bytes.ascending_sortUnique _
  · exact .nil

theorem isSome_error?_resolveFile (p : Bytes) :
    (r.resolveFile host p).error?.isSome = !host.isText (host.normalize p) := by
  rw [resolveFile, Host.readSource, Host.isText]
  cases host.read (host.normalize p) with
  | error e => rfl
  | ok content => cases hv : Utf8.valid content <;> simp [hv, Except.toOption]

theorem imports_of_error {p : Bytes} (h : (r.resolveFile host p).error?.isSome = true) :
    (r.resolveFile host p).imports = [] := by
  rw [isSome_error?_resolveFile, Bool.not_eq_true', ← Bool.not_eq_true, Host.isText_iff] at h
  rw [List.eq_nil_iff_forall_not_mem]
  intro q hq
  obtain ⟨chars, hread, -⟩ := (r.refers_iff host).mp ((r.mem_imports_iff host).mp hq)
  exact h ⟨chars, hread⟩

/-! ### The whole graph -/

theorem graph_concat (paths : List Bytes) (p : Bytes) :
    (r.buildGraph host (paths ++ [p])).graph =
      (r.buildGraph host paths).graph.put (host.normalize p) (r.resolveFile host p).imports := by
  simp only [buildGraph, ImportGraph.ofFiles, List.map_append, List.map_singleton,
    List.foldl_append, List.foldl_cons, List.foldl_nil, resolveFile_path]

/-- The rows come in the order in which their keys occur first; a later row of a key says the same. -/
theorem graph_eq_rows (paths : List Bytes) :
    (r.buildGraph host paths).graph =
      ImportGraph.rows (fun k => (r.resolveFile host k).imports)
        (paths.map host.normalize).eraseDups := by
  induction paths using List.reverseRecOn with
  | nil => rfl
  | append_singleton paths p ih =>
    have hput := @ImportGraph.put_rows (fun k => (r.resolveFile host k).imports)
      (paths.map host.normalize).eraseDups (host.normalize p)
    simp only [resolveFile_normalize, List.mem_eraseDups] at hput
    rw [graph_concat, ih, hput, List.map_append, List.map_singleton, Reachability.eraseDups_concat]

theorem graph_of_ascending {files : List Bytes} (hnormal : ∀ p ∈ files, host.normalize p = p)
    (hasc : Bytes.Ascending files) :
    (r.buildGraph host files).graph =
      ImportGraph.rows (fun k => (r.resolveFile host k).imports) files := by
  rw [graph_eq_rows, List.map_congr_left hnormal, List.map_id',
    Reachability.eraseDups_of_nodup hasc.nodup]

/-- Where paths are normal forms, the row of a file is what its declarations refer to. -/
theorem mem_targets_iff {files : List Bytes} (hnormal : ∀ p ∈ files, host.normalize p = p)
    {p q : Bytes} (hp : p ∈ files) :
    q ∈ (r.buildGraph host files).graph.targets p ↔ r.Refers host p q := by
  have hkey : p ∈ (files.map host.normalize).eraseDups := by
    rw [List.mem_eraseDups, List.map_congr_left hnormal, List.map_id']
    exact hp
  rw [graph_eq_rows, ImportGraph.targets_rows _ hkey, mem_imports_iff, hnormal p hp]

/-- The failures are the files that cannot be read or are no text, in order. -/
theorem map_path_failures (paths : List Bytes) :
    (r.buildGraph host paths).failures.map FileImports.path =
      (paths.map host.normalize).filter fun p => !host.isText p := by
  have hfilter : (·.error?.isSome) ∘ r.resolveFile host =
      (fun p => !host.isText p) ∘ host.normalize := by
    funext p
    exact r.isSome_error?_resolveFile host p
  have hpath : FileImports.path ∘ r.resolveFile host = host.normalize := by
    funext p
    exact r.resolveFile_path host p
  rw [buildGraph, List.filter_map, List.map_map, hfilter, hpath, List.filter_map]

theorem paths_failures {files : List Bytes} (hnormal : ∀ p ∈ files, host.normalize p = p) :
    (r.buildGraph host files).failures.map FileImports.path =
      files.filter fun p => !host.isText p := by
  rw [map_path_failures, List.map_congr_left hnormal, List.map_id']

theorem imports_of_mem_failures {paths : List Bytes} {f : FileImports}
    (h : f ∈ (r.buildGraph host paths).failures) : f.error?.isSome = true ∧ f.imports = [] := by
  obtain ⟨hmem, herror⟩ := List.mem_filter.mp h
  obtain ⟨p, -, rfl⟩ := List.mem_map.mp hmem
  exact ⟨herror, r.imports_of_error host herror⟩

/--
A graph has one row for the normal form of each path. If the file can be read and is the encoding of some
characters, its row holds exactly what its declarations refer to, each once; otherwise the row is empty,
and the file is listed among the failures, with an error and without imports, as often as it was given.
The keys of a graph of discovered files are these files.
-/
theorem buildGraph_complete (paths : List Bytes) :
    (r.buildGraph host paths).graph.keys.Nodup ∧
    (∀ k, k ∈ (r.buildGraph host paths).graph.keys ↔ ∃ p ∈ paths, host.normalize p = k) ∧
    (∀ k targets, (k, targets) ∈ (r.buildGraph host paths).graph →
      targets.Nodup ∧ ∀ q, q ∈ targets ↔ ∃ chars, host.read k = .ok (encode chars) ∧
        ∃ t ∈ Declaration.targets (encode chars), r.resolve host k t = some q) ∧
    (∀ p, host.isText p = true ↔ ∃ chars, host.read p = .ok (encode chars)) ∧
    (r.buildGraph host paths).failures.map FileImports.path =
      (paths.map host.normalize).filter (fun p => !host.isText p) ∧
    (∀ f ∈ (r.buildGraph host paths).failures, f.error?.isSome = true ∧ f.imports = []) ∧
    ∀ patience root options files,
      (Discovery.discover host patience root options).files = .ok files →
        (r.buildGraph host files).graph.keys = files := by
  have hkeys : (r.buildGraph host paths).graph.keys = (paths.map host.normalize).eraseDups := by
    rw [graph_eq_rows, ImportGraph.keys_rows]
  refine ⟨?_, ?_, ?_, fun p => Host.isText_iff, r.map_path_failures host paths,
    fun f hf => r.imports_of_mem_failures host hf, ?_⟩
  · rw [hkeys]
    exact Reachability.nodup_eraseDups _
  · intro k
    rw [hkeys, List.mem_eraseDups, List.mem_map]
  · intro k targets hrow
    rw [graph_eq_rows] at hrow
    obtain ⟨k', hk, heq⟩ := List.mem_map.mp hrow
    obtain ⟨rfl, rfl⟩ := Prod.mk.inj heq
    obtain ⟨p, -, rfl⟩ := List.mem_map.mp (List.mem_eraseDups.mp hk)
    refine ⟨(r.ascending_imports host _).nodup, fun q => ?_⟩
    rw [mem_imports_iff, host.normalize_normalize, refers_iff]
  · intro patience root options files hfiles
    obtain ⟨patterns, ignore, hs⟩ := Discovery.surveyed_of_discover hfiles
    rw [r.graph_of_ascending host hs.normal hs.ascending, ImportGraph.keys_rows]

def sampleResolver : Resolver := ⟨text "/lib", text "app", [text "dart:"]⟩

def samplePaths : List Bytes :=
  [text "lib//main.dart", text "lib/none.dart", text "/lib/src/../main.dart", text "lib/none.dart",
    text "lib/src"]

theorem buildGraph_complete_sample :
    ∃ targets,
      (text "/lib/main.dart", targets) ∈
        (sampleResolver.buildGraph Discovery.sampleHost samplePaths).graph ∧
      text "/lib/src/used.dart" ∈ targets ∧
      (sampleResolver.buildGraph Discovery.sampleHost samplePaths).failures.map FileImports.path =
        [text "/lib/none.dart", text "/lib/none.dart", text "/lib/src"] := by
  obtain ⟨-, hkeys, hrows, -, hfailures, -⟩ :=
    sampleResolver.buildGraph_complete Discovery.sampleHost samplePaths
  have hkey := (hkeys (text "/lib/main.dart")).mpr ⟨text "lib//main.dart", List.mem_cons_self, by decide⟩
  obtain ⟨⟨k, targets⟩, hrow, rfl⟩ := List.mem_map.mp hkey
  refine ⟨targets, hrow, ?_, ?_⟩
  · rw [(hrows _ _ hrow).2]
    refine ⟨"import 'src/used.dart';".toList, rfl, text "src/used.dart", ?_, rfl⟩
    decide +kernel
  · rw [hfailures]
    decide +kernel

end Resolver

end DartReach
