import DartReach.Proofs.RunReachability

/-!
# The report does not depend on where the library lies

Below its root a library is a list of locations with their contents. References that do not climb above
the root are resolved from location to location, so the search runs alike below any root, and paths
are reported as they are seen from there.
-/

namespace DartReach

set_option autoImplicit false

open Bytes (slash)
open DartReach.Path (Ordinary Climbs segments reduce render downward)

/-- The path of a location below the root with some segments. -/
def Path.below (root : List Bytes) (loc : Location) : Bytes := render true (root ++ loc)

theorem Path.canonical_below {root : List Bytes} {loc : Location} (hr : ∀ s ∈ root, Ordinary s)
    (hl : ∀ s ∈ loc, Ordinary s) : Canonical (below root loc) :=
  canonical_render (List.forall_mem_append.mpr ⟨hr, hl⟩)

theorem Path.below_injective {root : List Bytes} {loc loc' : Location}
    (hr : ∀ s ∈ root, Ordinary s) (hl : ∀ s ∈ loc, Ordinary s) (hl' : ∀ s ∈ loc', Ordinary s)
    (h : below root loc = below root loc') : loc = loc' :=
  List.append_cancel_left (render_injective (List.forall_mem_append.mpr ⟨hr, hl⟩)
    (List.forall_mem_append.mpr ⟨hr, hl'⟩) h)

theorem Path.join_below {root : List Bytes} {dir : Location} (hr : ∀ s ∈ root, Ordinary s)
    (hd : ∀ s ∈ dir, Ordinary s) {q : Bytes} (hq : ¬ Climbs (dir ++ segments q)) :
    join (below root dir) q = below root (reduce false (dir ++ segments q)) := by
  rw [below, join_render (List.forall_mem_append.mpr ⟨hr, hd⟩), List.append_assoc,
    reduce_append_of_not_climbs hr hq, below]

/-! ### References from location to location -/

namespace Resolver

variable (r : Resolver)

/-- The location that `target` means in a file of directory `dir`, both below the library root. -/
def resolveBelow (dir : Location) (target : Bytes) : Option Location :=
  match Bytes.after? r.own target with
  | some rest => some (reduce false (segments rest))
  | none =>
    if r.isForeign target then none else some (reduce false (dir ++ segments target))

/-- If `target` is resolved it is no absolute path and does not climb above the library root. -/
def StaysBelow (dir : Location) (target : Bytes) : Prop :=
  match Bytes.after? r.own target with
  | some rest => ¬ Climbs (segments rest)
  | none =>
    r.isForeign target = false →
      Path.isAbsolute target = false ∧ ¬ Climbs (dir ++ segments target)

instance (dir : Location) (target : Bytes) : Decidable (r.StaysBelow dir target) :=
  match h : Bytes.after? r.own target with
  | some rest => decidable_of_iff (¬ Climbs (segments rest)) (by simp only [StaysBelow, h])
  | none => decidable_of_iff (r.isForeign target = false →
      Path.isAbsolute target = false ∧ ¬ Climbs (dir ++ segments target))
        (by simp only [StaysBelow, h])

variable {r}

theorem resolve_below (host : Host) {root : List Bytes} (hroot : r.libRoot = render true root)
    (hr : ∀ s ∈ root, Ordinary s) {loc : Location} (hne : loc ≠ []) (hl : ∀ s ∈ loc, Ordinary s)
    {target : Bytes} (h : r.StaysBelow loc.dropLast target) :
    r.resolve host (Path.below root loc) target =
      (r.resolveBelow loc.dropLast target).map (Path.below root) := by
  have hdir : ∀ s ∈ loc.dropLast, Ordinary s := fun s hs => hl s (List.dropLast_subset loc hs)
  have hparent : Path.parent (host.normalize (Path.below root loc)) =
      Path.below root loc.dropLast := by
    have hlast := List.dropLast_append_getLast hne
    rw [host.normalize_of_canonical (Path.canonical_below hr hl), Path.below, ← hlast,
      ← List.append_assoc, Path.parent_render (List.forall_mem_append.mpr ⟨hr, hdir⟩)
        (hl _ (List.getLast_mem hne)), List.dropLast_concat, Path.below]
  cases hown : Bytes.after? r.own target with
  | some rest =>
    simp only [resolve, resolveBelow, StaysBelow, hown] at h ⊢
    have hjoin := Path.join_below hr (by simp : ∀ s ∈ ([] : Location), Ordinary s) h
    rw [Path.below, List.append_nil, List.nil_append] at hjoin
    rw [hroot, hjoin, Option.map_some]
  | none =>
    simp only [resolve, resolveBelow, StaysBelow, hown] at h ⊢
    cases hforeign : r.isForeign target with
    | true => rfl
    | false =>
      obtain ⟨habs, hclimb⟩ := h hforeign
      simp only [habs, hparent, Path.join_below hr hdir hclimb, Bool.false_eq_true, if_false,
        Option.map_some]

theorem ordinary_of_resolveBelow {dir : Location} (hd : ∀ s ∈ dir, Ordinary s) {target : Bytes}
    (h : r.StaysBelow dir target) {loc : Location} (hloc : r.resolveBelow dir target = some loc) :
    ∀ s ∈ loc, Ordinary s := by
  cases hown : Bytes.after? r.own target with
  | some rest =>
    simp only [resolveBelow, StaysBelow, hown, Option.some.injEq] at h hloc
    rw [← hloc]
    exact Path.reduce_relative_ordinary (fun _ hs => Path.slash_not_mem_segments hs) h
  | none =>
    simp only [resolveBelow, StaysBelow, hown] at h hloc
    cases hforeign : r.isForeign target with
    | true => simp [hforeign] at hloc
    | false =>
      rw [hforeign, if_neg Bool.false_ne_true, Option.some.injEq] at hloc
      rw [← hloc]
      refine Path.reduce_relative_ordinary (fun s hs => ?_) (h hforeign).2
      rcases List.mem_append.mp hs with hs | hs
      · exact (hd s hs).slashFree
      · exact Path.slash_not_mem_segments hs

theorem resolveBelow_congr {r' : Resolver} (hp : r'.packageName = r.packageName)
    (hb : r'.builtins = r.builtins) : r'.resolveBelow = r.resolveBelow := by
  cases r
  cases r'
  cases hp
  cases hb
  rfl

/-- A declaration at `loc` refers to the known location `loc'`. -/
def LeadsBelow (r : Resolver) (reads : Location → Option Bytes) (locs : List Location)
    (loc loc' : Location) : Prop :=
  loc' ∈ locs ∧ ∃ content, reads loc = some content ∧ Utf8.valid content = true ∧
    ∃ t ∈ Declaration.targets content, r.resolveBelow loc.dropLast t = some loc'

end Resolver

/-! ### Surveys below two roots -/

namespace Discovery

section Surveys

variable {host : Host} {root root' : Bytes} {options : Options} {patterns : List Glob.Matcher}
  {ignore ignore' : Option Ignore.File} {files : List Bytes} {locs : List Location}

theorem Surveyed.of_rules (h : Surveyed host root options patterns ignore files)
    (hrules : (loadIgnoreFile host (host.normalize root) options.ignoreFile).rules? =
      some ignore') : Surveyed host root options patterns ignore' files := by
  by_cases hopen : host.shape (host.normalize root) [] = some .openDir
  · have heq := (h.loaded _ hopen rfl).symm.trans hrules
    rw [Option.some.injEq] at heq
    exact heq ▸ h
  · refine ⟨h.named, h.compiled, fun _ _ _ => hrules, ?_, h.ascending, fun p => ?_⟩
    · intro loc hbreaks
      exact hopen (Walk.meets_open hbreaks.1)
    · rw [h.members]
      constructor
      · rintro ⟨loc, hfinds, _⟩
        exact absurd (Walk.meets_open hfinds.1) hopen
      · rintro ⟨loc, hfinds, _⟩
        exact absurd (Walk.meets_open hfinds.1) hopen

theorem Surveyed.exists_locations (h : Surveyed host root options patterns ignore files) :
    ∃ locs : List Location, files = locs.map (pathBelow (host.normalize root)) ∧
      ∀ loc, loc ∈ locs ↔ Finds (host.shape (host.normalize root))
        (leavesOut patterns ignore (withSlash (host.normalize root))) options.extension loc := by
  have hlist : ∀ ps : List Bytes, (∀ p ∈ ps, p ∈ files) →
      ∃ locs : List Location, ps = locs.map (pathBelow (host.normalize root)) ∧
        ∀ loc ∈ locs, Finds (host.shape (host.normalize root))
          (leavesOut patterns ignore (withSlash (host.normalize root))) options.extension loc := by
    intro ps hps
    induction ps with
    | nil => exact ⟨[], rfl, by simp⟩
    | cons p ps ih =>
      rw [List.forall_mem_cons] at hps
      obtain ⟨loc, hfinds, rfl⟩ := (h.members p).mp hps.1
      obtain ⟨locs, rfl, hlocs⟩ := ih hps.2
      exact ⟨loc :: locs, rfl, List.forall_mem_cons.mpr ⟨hfinds, hlocs⟩⟩
  obtain ⟨locs, hfiles, hlocs⟩ := hlist files fun _ hp => hp
  refine ⟨locs, hfiles, fun loc => ⟨hlocs loc, fun hfinds => ?_⟩⟩
  have hmem := (h.members _).mpr ⟨loc, hfinds, rfl⟩
  rw [hfiles] at hmem
  obtain ⟨loc', hloc', heq⟩ := List.mem_map.mp hmem
  rwa [← pathBelow_injective (ordinary_of_shape (hlocs loc' hloc').2.1)
    (ordinary_of_shape hfinds.2.1) heq]

theorem ascending_pathBelow_iff (root : Bytes) :
    Bytes.Ascending (locs.map (pathBelow root)) ↔ Bytes.Ascending (locs.map relText) := by
  have hmap : locs.map (pathBelow root) = (locs.map relText).map (withSlash root ++ ·) := by
    rw [List.map_map]
    rfl
  rw [hmap, Bytes.ascending_map_append_iff]

/-- Without ignore rules a survey holds of every root with the same shape. -/
theorem Surveyed.relocate
    (h : Surveyed host root options patterns none (locs.map (pathBelow (host.normalize root))))
    (hlocs : ∀ loc, loc ∈ locs ↔ Finds (host.shape (host.normalize root))
      (leavesOut patterns none (withSlash (host.normalize root))) options.extension loc)
    (hshape : host.shape (host.normalize root') = host.shape (host.normalize root))
    (hrules : (loadIgnoreFile host (host.normalize root') options.ignoreFile).rules? = some none) :
    Surveyed host root' options patterns none (locs.map (pathBelow (host.normalize root'))) := by
  have hout : leavesOut patterns none (withSlash (host.normalize root')) =
      leavesOut patterns none (withSlash (host.normalize root)) := leavesOut_without_rules _
  refine ⟨h.named, h.compiled, fun _ _ _ => hrules, ?_, ?_, fun p => ?_⟩
  · rw [hshape, hout]
    exact h.unbroken
  · rw [ascending_pathBelow_iff, ← ascending_pathBelow_iff (host.normalize root)]
    exact h.ascending
  · rw [hshape, hout, List.mem_map]
    simp only [hlocs, eq_comm]

/-- Without ignore rules the same locations are found below roots with the same shape. -/
theorem discover_relocated (hroot : host.normalize root = root)
    (hroot' : host.normalize root' = root')
    (hshape : ∀ loc, host.shape root' loc = host.shape root loc)
    (hrules : (loadIgnoreFile host root options.ignoreFile).rules? = some none)
    (hrules' : (loadIgnoreFile host root' options.ignoreFile).rules? = some none)
    (h : (discover host none root options).files = .ok files) :
    ∃ locs : List Location, files = locs.map (pathBelow root) ∧
      (discover host none root' options).files = .ok (locs.map (pathBelow root')) ∧
      Bytes.Ascending (locs.map relText) ∧
      ∀ loc ∈ locs, loc ≠ [] ∧ host.shape root loc = some .leaf := by
  obtain ⟨patterns, ignore, hany⟩ := surveyed_of_discover h
  have hs := hany.of_rules (by rw [hroot]; exact hrules)
  obtain ⟨locs, rfl, hlocs⟩ := hs.exists_locations
  have hshape' : host.shape (host.normalize root') = host.shape (host.normalize root) := by
    rw [hroot, hroot']
    exact funext hshape
  have hs' := hs.relocate hlocs hshape' (by rw [hroot']; exact hrules')
  rw [hroot] at hs hlocs ⊢
  rw [hroot'] at hs'
  refine ⟨locs, rfl, discover_of_surveyed hs', (ascending_pathBelow_iff root).mp hs.ascending, ?_⟩
  intro loc hloc
  obtain ⟨hmeets, hleaf, _⟩ := (hlocs loc).mp hloc
  exact ⟨hmeets.1, hleaf⟩

end Surveys

end Discovery

/-! ### A library at a root -/

/-- The library of a resolver lies at a root, with known locations and contents. -/
structure Placed (host : Host) (r : Resolver) (root : List Bytes) (locs : List Location)
    (reads : Location → Option Bytes) : Prop where
  atRoot : r.libRoot = render true root
  ordinaryRoot : ∀ s ∈ root, Ordinary s
  nonempty : ∀ loc ∈ locs, loc ≠ []
  ordinary : ∀ loc ∈ locs, ∀ s ∈ loc, Ordinary s
  content : ∀ loc ∈ locs, (host.read (Path.below root loc)).toOption = reads loc
  stays : ∀ loc ∈ locs, ∀ content, reads loc = some content → Utf8.valid content = true →
    ∀ t ∈ Declaration.targets content, r.StaysBelow loc.dropLast t

namespace Placed

open Relation (ReflTransGen)

variable {host : Host} {r : Resolver} {root : List Bytes} {locs starts : List Location}
  {reads : Location → Option Bytes}

theorem normal (h : Placed host r root locs reads) :
    ∀ p ∈ locs.map (Path.below root), host.normalize p = p := by
  intro p hp
  obtain ⟨loc, hloc, rfl⟩ := List.mem_map.mp hp
  exact host.normalize_of_canonical (Path.canonical_below h.ordinaryRoot (h.ordinary loc hloc))

theorem mem_map_below_iff (h : Placed host r root locs reads) {loc : Location}
    (hl : ∀ s ∈ loc, Ordinary s) : Path.below root loc ∈ locs.map (Path.below root) ↔ loc ∈ locs := by
  constructor
  · intro hmem
    obtain ⟨loc', hloc', heq⟩ := List.mem_map.mp hmem
    rwa [← Path.below_injective h.ordinaryRoot (h.ordinary loc' hloc') hl heq]
  · exact List.mem_map_of_mem

theorem steps_iff (h : Placed host r root locs reads) {loc : Location} (hloc : loc ∈ locs)
    {q : Bytes} :
    r.Steps host (locs.map (Path.below root)) (Path.below root loc) q ↔
      ∃ loc', q = Path.below root loc' ∧ r.LeadsBelow reads locs loc loc' := by
  have hdir : ∀ s ∈ loc.dropLast, Ordinary s := fun s hs =>
    h.ordinary loc hloc s (List.dropLast_subset loc hs)
  have hread : ∀ content, host.read (Path.below root loc) = .ok content ↔
      reads loc = some content := by
    intro content
    rw [← h.content loc hloc, Host.toOption_read_eq_some]
  have hresolve : ∀ t, r.StaysBelow loc.dropLast t → r.resolve host (Path.below root loc) t =
      (r.resolveBelow loc.dropLast t).map (Path.below root) := fun t ht =>
    Resolver.resolve_below host h.atRoot h.ordinaryRoot (h.nonempty loc hloc)
      (h.ordinary loc hloc) ht
  constructor
  · rintro ⟨hq, content, hok, hvalid, t, ht, hres⟩
    have hcontent := (hread content).mp hok
    have hstay := h.stays loc hloc content hcontent hvalid t ht
    rw [hresolve t hstay, Option.map_eq_some_iff] at hres
    obtain ⟨loc', hloc', rfl⟩ := hres
    have hord := Resolver.ordinary_of_resolveBelow hdir hstay hloc'
    exact ⟨loc', rfl, (h.mem_map_below_iff hord).mp hq, content, hcontent, hvalid, t, ht, hloc'⟩
  · rintro ⟨loc', rfl, hmem, content, hcontent, hvalid, t, ht, hloc'⟩
    refine ⟨List.mem_map_of_mem hmem, content, (hread content).mpr hcontent, hvalid, t, ht, ?_⟩
    rw [hresolve t (h.stays loc hloc content hcontent hvalid t ht), hloc', Option.map_some]

theorem reflTransGen_iff (h : Placed host r root locs reads) {e : Location} (he : e ∈ locs)
    {q : Bytes} :
    ReflTransGen (r.Steps host (locs.map (Path.below root))) (Path.below root e) q ↔
      ∃ loc, loc ∈ locs ∧ q = Path.below root loc ∧ ReflTransGen (r.LeadsBelow reads locs) e loc := by
  constructor
  · intro hpath
    induction hpath with
    | refl => exact ⟨e, he, rfl, .refl⟩
    | tail _ hstep ih =>
      obtain ⟨loc, hloc, rfl, hpath⟩ := ih
      obtain ⟨loc', rfl, hlead⟩ := (h.steps_iff hloc).mp hstep
      exact ⟨loc', hlead.1, rfl, hpath.tail hlead⟩
  · rintro ⟨loc, -, rfl, hpath⟩
    induction hpath with
    | refl => exact .refl
    | @tail mid last hpath hlead ih =>
      have hmid : mid ∈ locs := by
        cases hpath with
        | refl => exact he
        | tail _ hlast => exact hlast.1
      exact ih.tail ((h.steps_iff hmid).mpr ⟨last, rfl, hlead⟩)

theorem mem_visited_iff (h : Placed host r root locs reads)
    (hs : ∀ e ∈ starts, ∀ s ∈ e, Ordinary s) {loc : Location} (hloc : loc ∈ locs) :
    Path.below root loc ∈ (Reachability.traverse (locs.map (Path.below root))
        (r.buildGraph host (locs.map (Path.below root))).graph
        (starts.map (Path.below root))).visited ↔
      ∃ e ∈ starts, e ∈ locs ∧ ReflTransGen (r.LeadsBelow reads locs) e loc := by
  rw [Reachability.mem_visited_iff_steps host r h.normal]
  constructor
  · rintro ⟨p, hp, hknown, hpath⟩
    obtain ⟨e, he, rfl⟩ := List.mem_map.mp hp
    have hmem := (h.mem_map_below_iff (hs e he)).mp hknown
    obtain ⟨loc', hloc', heq, hpath'⟩ := (h.reflTransGen_iff hmem).mp hpath
    rw [Path.below_injective h.ordinaryRoot (h.ordinary loc hloc) (h.ordinary loc' hloc') heq]
    exact ⟨e, he, hmem, hpath'⟩
  · rintro ⟨e, he, hmem, hpath⟩
    exact ⟨_, List.mem_map_of_mem he, List.mem_map_of_mem hmem,
      (h.reflTransGen_iff hmem).mpr ⟨loc, hloc, rfl, hpath⟩⟩

/-! ### Its report -/

theorem eraseDups_filter_below (hr : ∀ s ∈ root, Ordinary s)
    (hs : ∀ e ∈ starts, ∀ s ∈ e, Ordinary s) {p : Bytes → Bool} {q : Location → Bool}
    (hpq : ∀ e ∈ starts, p (Path.below root e) = q e) :
    ((starts.map (Path.below root)).filter p).eraseDups =
      (starts.filter q).eraseDups.map (Path.below root) := by
  have hfilter : starts.filter (p ∘ Path.below root) = starts.filter q := List.filter_congr hpq
  rw [List.filter_map, hfilter]
  refine Reachability.eraseDups_map fun a ha b hb => ?_
  exact Path.below_injective hr (hs a (List.mem_of_mem_filter ha))
    (hs b (List.mem_of_mem_filter hb))

theorem found_eq (h : Placed host r root locs reads) (hs : ∀ e ∈ starts, ∀ s ∈ e, Ordinary s) :
    Reachability.found (locs.map (Path.below root)) (starts.map (Path.below root)) =
      (starts.filter (· ∈ locs)).eraseDups.map (Path.below root) := by
  apply eraseDups_filter_below h.ordinaryRoot hs
  intro e he
  exact decide_eq_decide.mpr (h.mem_map_below_iff (hs e he))

theorem absent_eq (h : Placed host r root locs reads) (hs : ∀ e ∈ starts, ∀ s ∈ e, Ordinary s) :
    Reachability.absent (locs.map (Path.below root)) (starts.map (Path.below root)) =
      (starts.filter (· ∉ locs)).eraseDups.map (Path.below root) := by
  apply eraseDups_filter_below h.ordinaryRoot hs
  intro e he
  exact decide_eq_decide.mpr (not_congr (h.mem_map_below_iff (hs e he)))

theorem failures_eq (h : Placed host r root locs reads) :
    (r.buildGraph host (locs.map (Path.below root))).failures.map FileImports.path =
      (locs.filter fun loc => !(reads loc).any Utf8.valid).map (Path.below root) := by
  have hfilter : locs.filter ((fun p => !host.isText p) ∘ Path.below root) =
      locs.filter fun loc => !(reads loc).any Utf8.valid := by
    apply List.filter_congr
    intro loc hloc
    rw [Function.comp_apply, Host.isText, h.content loc hloc]
  rw [r.paths_failures host h.normal, List.filter_map, hfilter]

theorem relativePaths_below (h : ∀ s ∈ root, Ordinary s) {ls : List Location}
    (hl : ∀ loc ∈ ls, ∀ s ∈ loc, Ordinary s) :
    relativePaths (render true root) (ls.map (Path.below root)) = Bytes.sort (ls.map downward) := by
  rw [relativePaths, List.map_map]
  refine congrArg _ (List.map_congr_left fun loc hloc => ?_)
  exact Path.relativeOrSame_render h (hl loc hloc)

end Placed

/-- A report tells of some locations how many they are and lists them as seen from the root. -/
structure Report.Shows (rep : Report) (locs live dead entries missing failing : List Location) :
    Prop where
  total : rep.total = locs.length
  reachable : rep.reachable = live.length
  unused : rep.unused = dead.length
  entryPoints : rep.entryPoints = Bytes.sort (entries.map downward)
  missingEntryPoints : rep.missingEntryPoints = Bytes.sort (missing.map downward)
  unusedFiles : rep.unusedFiles = Bytes.sort (dead.map downward)
  usedFiles : rep.usedFiles = Bytes.sort (live.map downward)
  failures : rep.failures.map Failure.path = failing.map downward

/-- Two reports say the same, apart from the reasons why files could not be read. -/
structure Report.Alike (rep rep' : Report) : Prop where
  total : rep.total = rep'.total
  reachable : rep.reachable = rep'.reachable
  unused : rep.unused = rep'.unused
  entryPoints : rep.entryPoints = rep'.entryPoints
  missingEntryPoints : rep.missingEntryPoints = rep'.missingEntryPoints
  unusedFiles : rep.unusedFiles = rep'.unusedFiles
  usedFiles : rep.usedFiles = rep'.usedFiles
  failures : rep.failures.map Failure.path = rep'.failures.map Failure.path

theorem Report.Shows.alike {rep rep' : Report}
    {locs live dead entries missing failing : List Location}
    (h : rep.Shows locs live dead entries missing failing)
    (h' : rep'.Shows locs live dead entries missing failing) : rep.Alike rep' where
  total := h.total.trans h'.total.symm
  reachable := h.reachable.trans h'.reachable.symm
  unused := h.unused.trans h'.unused.symm
  entryPoints := h.entryPoints.trans h'.entryPoints.symm
  missingEntryPoints := h.missingEntryPoints.trans h'.missingEntryPoints.symm
  unusedFiles := h.unusedFiles.trans h'.unusedFiles.symm
  usedFiles := h.usedFiles.trans h'.usedFiles.symm
  failures := h.failures.trans h'.failures.symm

namespace AnalysisOptions

/-- Where the search starts, below the library root. -/
def starts (options : AnalysisOptions) : List Location :=
  options.entryPoints.items.map fun name => reduce false (segments name)

/-- All entry points are relative and none climbs above the library root. -/
def StartsBelow (options : AnalysisOptions) : Prop :=
  ∀ name ∈ options.entryPoints.items, Path.isAbsolute name = false ∧ ¬ Climbs (segments name)

theorem ordinary_starts {options : AnalysisOptions} (h : options.StartsBelow) :
    ∀ e ∈ options.starts, ∀ s ∈ e, Ordinary s := by
  intro e he
  obtain ⟨name, hname, rfl⟩ := List.mem_map.mp he
  exact Path.reduce_relative_ordinary (fun _ hs => Path.slash_not_mem_segments hs) (h name hname).2

theorem entryPaths_below {options : AnalysisOptions} (h : options.StartsBelow) {root : List Bytes}
    (hr : ∀ s ∈ root, Ordinary s) :
    Analysis.entryPaths (render true root) options.entryPoints.items =
      options.starts.map (Path.below root) := by
  rw [Analysis.entryPaths, starts, List.map_map]
  refine List.map_congr_left fun name hname => ?_
  have hjoin := Path.join_below hr (by simp : ∀ s ∈ ([] : Location), Ordinary s) (h name hname).2
  rw [Path.below, List.append_nil, List.nil_append] at hjoin
  simp only [(h name hname).1, Bool.false_eq_true, if_false, hjoin, Function.comp_apply]

end AnalysisOptions

namespace Analysis

theorem report_shows {host : Host} {a : Analysis} {root : List Bytes} {locs : List Location}
    {reads : Location → Option Bytes} {res : Result} {seen : Location → Bool}
    (h : Placed host (a.resolver host) root locs reads)
    (hroot : host.normalize a.libRoot = render true root) (hentries : a.options.StartsBelow)
    (hasc : Bytes.Ascending (locs.map (Path.below root)))
    (hres : res = (a.resultOf host (host.normalize a.libRoot) (locs.map (Path.below root))).1)
    (hseen : ∀ loc ∈ locs, decide (Path.below root loc ∈ res.reach.visited) = seen loc) :
    res.report.Shows locs (locs.filter seen) (locs.filter fun loc => !seen loc)
      (a.options.starts.filter (· ∈ locs)).eraseDups (a.options.starts.filter (· ∉ locs)).eraseDups
      (locs.filter fun loc => !(reads loc).any Utf8.valid) := by
  have hreach := resultOf_reach host a (locs.map (Path.below root))
  have hunused := unused_resultOf host a hasc
  rw [← hres] at hreach hunused
  rw [hroot, AnalysisOptions.entryPaths_below hentries h.ordinaryRoot] at hreach
  have hstarts := AnalysisOptions.ordinary_starts hentries
  have hlib : res.libRoot = render true root := by rw [hres, ← hroot]; rfl
  have hlive : res.reach.visited = (locs.filter seen).map (Path.below root) := by
    have hself : res.reach.visited =
        (locs.map (Path.below root)).filter (· ∈ res.reach.visited) := by
      rw [hreach]
      exact Reachability.visited_eq_filter _ _ _ hasc
    rw [hself, List.filter_map]
    exact congrArg _ (List.filter_congr hseen)
  have hdead : res.reach.unused = (locs.filter fun loc => !seen loc).map (Path.below root) := by
    rw [hunused, List.filter_map]
    refine congrArg _ (List.filter_congr fun loc hloc => ?_)
    rw [← hseen loc hloc, ← decide_not]
    rfl
  have hfound : res.reach.entries =
      (a.options.starts.filter (· ∈ locs)).eraseDups.map (Path.below root) := by
    rw [hreach, Reachability.traverse_entries, h.found_eq hstarts]
  have hmissing : res.reach.missing =
      (a.options.starts.filter (· ∉ locs)).eraseDups.map (Path.below root) := by
    rw [hreach, Reachability.traverse_missing, h.absent_eq hstarts]
  have hfailed : res.report.failures.map Failure.path =
      (((a.resolver host).buildGraph host (locs.map (Path.below root))).failures.map
        FileImports.path).map (Path.relativeOrSame res.libRoot) := by
    rw [hres]
    simp only [Result.report, resultOf, List.map_map]
    rfl
  refine ⟨?_, ?_, ?_, ?_, ?_, ?_, ?_, ?_⟩
  · rw [hres]
    exact List.length_map _
  · rw [Result.report, hlive, List.length_map]
  · rw [Result.report, hdead, List.length_map]
  · rw [Result.report, hfound, hlib]
    refine Placed.relativePaths_below h.ordinaryRoot fun e he => ?_
    exact hstarts e (List.mem_of_mem_filter (List.mem_eraseDups.mp he))
  · rw [Result.report, hmissing, hlib]
    refine Placed.relativePaths_below h.ordinaryRoot fun e he => ?_
    exact hstarts e (List.mem_of_mem_filter (List.mem_eraseDups.mp he))
  · rw [Result.report, hdead, hlib]
    refine Placed.relativePaths_below h.ordinaryRoot fun loc hloc => ?_
    exact h.ordinary loc (List.mem_of_mem_filter hloc)
  · rw [Result.report, hlive, hlib]
    refine Placed.relativePaths_below h.ordinaryRoot fun loc hloc => ?_
    exact h.ordinary loc (List.mem_of_mem_filter hloc)
  · rw [hfailed, h.failures_eq, hlib, List.map_map]
    refine List.map_congr_left fun loc hloc => ?_
    exact Path.relativeOrSame_render h.ordinaryRoot (h.ordinary loc (List.mem_of_mem_filter hloc))

theorem mem_visited_placed {host : Host} {a : Analysis} {root : List Bytes} {locs : List Location}
    {reads : Location → Option Bytes} (h : Placed host (a.resolver host) root locs reads)
    (hroot : host.normalize a.libRoot = render true root) (hentries : a.options.StartsBelow)
    {loc : Location} (hloc : loc ∈ locs) :
    Path.below root loc ∈ (a.resultOf host (host.normalize a.libRoot)
        (locs.map (Path.below root))).1.reach.visited ↔
      ∃ e ∈ a.options.starts, e ∈ locs ∧
        Relation.ReflTransGen ((a.resolver host).LeadsBelow reads locs) e loc := by
  rw [resultOf_reach, hroot, AnalysisOptions.entryPaths_below hentries h.ordinaryRoot]
  exact h.mem_visited_iff (AnalysisOptions.ordinary_starts hentries) hloc

/-- A library that lies at two roots has reports that say the same. -/
theorem report_alike {host : Host} {a : Analysis} {lib : Bytes} {root root' : List Bytes}
    {locs : List Location} {reads : Location → Option Bytes}
    (h : Placed host (a.resolver host) root locs reads)
    (h' : Placed host (resolver host { a with libRoot := lib }) root' locs reads)
    (hroot : host.normalize a.libRoot = render true root)
    (hroot' : host.normalize lib = render true root') (hentries : a.options.StartsBelow)
    (hasc : Bytes.Ascending (locs.map (Path.below root)))
    (hasc' : Bytes.Ascending (locs.map (Path.below root'))) :
    (resultOf host { a with libRoot := lib } (host.normalize lib)
        (locs.map (Path.below root'))).1.report.Alike
      (a.resultOf host (host.normalize a.libRoot) (locs.map (Path.below root))).1.report := by
  have hleads : (resolver host { a with libRoot := lib }).LeadsBelow reads locs =
      (a.resolver host).LeadsBelow reads locs := by
    funext loc loc'
    simp only [Resolver.LeadsBelow, @Resolver.resolveBelow_congr (a.resolver host)
      (resolver host { a with libRoot := lib }) rfl rfl]
  have hshows := report_shows h hroot hentries hasc rfl fun _ _ => rfl
  refine (report_shows h' hroot' hentries hasc' rfl fun loc hloc => ?_).alike hshows
  have hvisited := mem_visited_placed h hroot hentries hloc
  have hvisited' := mem_visited_placed h' hroot' hentries hloc
  rw [hleads] at hvisited'
  exact decide_eq_decide.mpr (hvisited'.trans hvisited.symm)

theorem fault?_libRoot {a : Analysis} {lib : Bytes} (hne : lib ≠ []) (h : a.fault? = none) :
    ({ a with libRoot := lib } : Analysis).fault? = none := by
  simp only [fault?] at h ⊢
  split at h
  · simp at h
  · rw [if_neg (by simpa using hne)]
    exact h

open Discovery (pathBelow loadIgnoreFile) in
/--
The report does not depend on where the library lies. Two roots are absolute normal forms, have the
same tree below them, and corresponding files read the same or not at all. If no ignore rules are
loaded and nothing that is resolved is absolute or climbs above the root, then the analysis at one root
succeeds as it does at the other, where there is room for any report, and the reports say the same.
-/
theorem run_relocated {host : Host} {terminal : Terminal} {a : Analysis} {lib : Bytes} {res : Result}
    (habs : Path.isAbsolute a.libRoot = true) (hclean : Path.clean a.libRoot = a.libRoot)
    (habs' : Path.isAbsolute lib = true) (hclean' : Path.clean lib = lib)
    (hshape : ∀ loc, host.shape lib loc = host.shape a.libRoot loc)
    (hread : ∀ loc, host.shape a.libRoot loc = some .leaf →
      (host.read (pathBelow lib loc)).toOption = (host.read (pathBelow a.libRoot loc)).toOption)
    (hignore : (loadIgnoreFile host a.libRoot a.options.ignoreFile).rules? = some none)
    (hignore' : (loadIgnoreFile host lib a.options.ignoreFile).rules? = some none)
    (hentries : a.options.StartsBelow)
    (hrun : (a.run host none terminal).result = .ok res)
    (hstays : ∀ loc content, host.shape a.libRoot loc = some .leaf →
      pathBelow a.libRoot loc ∈ res.files → host.read (pathBelow a.libRoot loc) = .ok content →
        Utf8.valid content = true → ∀ t ∈ Declaration.targets content,
          (a.resolver host).StaysBelow loc.dropLast t) :
    ((∀ content, Arrives host terminal a.options.output content) →
      ∃ res', (run host none terminal { a with libRoot := lib }).result = .ok res') ∧
    ∀ res', (run host none terminal { a with libRoot := lib }).result = .ok res' →
      res'.report.Alike res.report := by
  obtain ⟨names, hn, hroot⟩ := Path.canonical_of_clean_eq habs hclean
  obtain ⟨names', hn', rfl⟩ := Path.canonical_of_clean_eq habs' hclean'
  have hnorm := host.normalize_of_canonical (hroot ▸ Path.canonical_render hn)
  have hnorm' := host.normalize_of_canonical (Path.canonical_render hn')
  obtain ⟨hfault, files, hfiles, rfl, _⟩ := run_ok_iff.mp hrun
  rw [hnorm] at hfiles
  obtain ⟨locs, rfl, hfiles', hasc, hleaf⟩ :=
    Discovery.discover_relocated hnorm hnorm' hshape hignore hignore' hfiles
  have hord : ∀ loc ∈ locs, ∀ s ∈ loc, Ordinary s := fun loc hloc =>
    Discovery.ordinary_of_shape (hleaf loc hloc).2
  have hbelow : ∀ loc ∈ locs, pathBelow a.libRoot loc = Path.below names loc := fun loc hloc =>
    hroot ▸ Discovery.pathBelow_render hn (hleaf loc hloc).1
  have hbelow' : ∀ loc ∈ locs, pathBelow (render true names') loc = Path.below names' loc :=
    fun loc hloc => Discovery.pathBelow_render hn' (hleaf loc hloc).1
  have hmap := List.map_congr_left hbelow
  have hmap' := List.map_congr_left hbelow'
  have hplaced : Placed host (a.resolver host) names locs
      fun loc => (host.read (Path.below names loc)).toOption := by
    refine ⟨?_, hn, fun loc hloc => (hleaf loc hloc).1, hord, fun _ _ => rfl, ?_⟩
    · rw [resolver, Resolver.ofRoot, hnorm, hnorm, hroot]
    · intro loc hloc content hcontent hvalid t ht
      rw [Host.toOption_read_eq_some, ← hbelow loc hloc] at hcontent
      exact hstays loc content (hleaf loc hloc).2 (List.mem_map_of_mem hloc) hcontent hvalid t ht
  have hplaced' : Placed host (resolver host { a with libRoot := render true names' }) names' locs
      fun loc => (host.read (Path.below names loc)).toOption := by
    refine ⟨?_, hn', fun loc hloc => (hleaf loc hloc).1, hord, fun loc hloc => ?_, ?_⟩
    · rw [resolver, Resolver.ofRoot, hnorm', hnorm']
    · rw [← hbelow loc hloc, ← hbelow' loc hloc]
      exact hread loc (hleaf loc hloc).2
    · exact hplaced.stays
  have halike := report_alike hplaced hplaced' (hnorm.trans hroot) hnorm' hentries
    (hmap ▸ (Discovery.ascending_pathBelow_iff _).mpr hasc)
    (hmap' ▸ (Discovery.ascending_pathBelow_iff _).mpr hasc)
  rw [← hmap, ← hmap'] at halike
  have hfound : (Discovery.discover host none (host.normalize (render true names'))
      (search { a with libRoot := render true names' })).files =
        .ok (locs.map (pathBelow (render true names'))) := by
    rw [hnorm']
    exact hfiles'
  constructor
  · intro hroom
    exact ⟨_, run_ok_iff.mpr ⟨fault?_libRoot (Path.render_ne_nil names') hfault, _, hfound, rfl,
      deliver_ok_iff.mpr (hroom _)⟩⟩
  · intro res' hrun'
    obtain ⟨_, found, hfound', rfl, _⟩ := run_ok_iff.mp hrun'
    rw [hfound, Except.ok.injEq] at hfound'
    subst hfound'
    exact halike

/-! ### A library as an example -/

section Sample

open Discovery

def placedAnalysis : Analysis where
  libRoot := text "/app"
  packageName := text "app"
  options :=
    { AnalysisOptions.standard with
      entryPoints := some [text "main.dart", text "src/../gone.dart"]
      output := AnalysisOptions.terminal }

def placedFiles : List Bytes :=
  [text "/app/api.dart", text "/app/dead.dart", text "/app/main.dart", text "/app/main.g.dart",
    text "/app/src/old.dart", text "/app/src/used.dart"]

theorem run_relocated_sample :
    ∃ res res', (placedAnalysis.run sampleHost none (.endless false)).result = .ok res ∧
      (run sampleHost none (.endless false) { placedAnalysis with libRoot := text "/lib" }).result =
        .ok res' ∧
      res'.report.Alike res.report := by
  have hdiscover : (discover sampleHost none (text "/app") placedAnalysis.search).files =
      .ok placedFiles := by
    have hload : (loadIgnoreFile sampleHost (text "/app") placedAnalysis.search.ignoreFile).rules? =
        some none := by
      decide +kernel
    have hwalks : Walks sampleHost (text "/app") placedAnalysis.search _ :=
      ⟨sampleLibrary, [], none, rfl, rfl, rfl, hload, rfl⟩
    apply discover_of_ascending (by decide) hwalks
    · decide +kernel
    · decide +kernel
    · unfold Bytes.Ascending
      decide +kernel
  have hrun : (placedAnalysis.run sampleHost none (.endless false)).result = .ok
      (placedAnalysis.resultOf sampleHost (text "/app") placedFiles).1 := by
    rw [run_ok_iff]
    exact ⟨by decide, _, hdiscover, rfl, deliver_ok_iff.mpr (arrives_of_endless rfl rfl _)⟩
  have hstat : sampleHost.stat (text "/app") = .ok sampleLibrary := rfl
  have hstat' : sampleHost.stat (text "/lib") = .ok sampleLibrary := rfl
  have hshape : ∀ loc, sampleHost.shape (text "/lib") loc = sampleHost.shape (text "/app") loc := by
    intro loc
    rw [Host.shape_of_stat hstat, Host.shape_of_stat hstat']
  have hplace : ∀ loc, sampleHost.shape (text "/app") loc = some .leaf → loc ∈ sampleLibrary.places := by
    intro loc hleaf
    by_contra hno
    rw [Host.shape_of_stat hstat, Node.shape_of_not_mem_places hno] at hleaf
    simp at hleaf
  have hread : ∀ loc ∈ sampleLibrary.places, (sampleHost.read (pathBelow (text "/lib") loc)).toOption =
      (sampleHost.read (pathBelow (text "/app") loc)).toOption := by
    decide +kernel
  have hstays : ∀ loc ∈ sampleLibrary.places,
      ∀ content ∈ (sampleHost.read (pathBelow (text "/app") loc)).toOption,
        ∀ t ∈ Declaration.targets content,
          (placedAnalysis.resolver sampleHost).StaysBelow loc.dropLast t := by
    decide +kernel
  have hignore : (loadIgnoreFile sampleHost (text "/app") placedAnalysis.options.ignoreFile).rules? =
      some none := by
    decide +kernel
  have hignore' : (loadIgnoreFile sampleHost (text "/lib") placedAnalysis.options.ignoreFile).rules? =
      some none := by
    decide +kernel
  have hentries : placedAnalysis.options.StartsBelow := by
    unfold AnalysisOptions.StartsBelow
    decide
  obtain ⟨hsucceeds, halike⟩ := run_relocated (by decide) (by decide) (by decide) (by decide)
    hshape (fun loc hleaf => hread loc (hplace loc hleaf)) hignore hignore' hentries hrun
    (fun loc content hleaf _ hok _ t ht =>
      hstays loc (hplace loc hleaf) content (Host.toOption_read_eq_some.mpr hok) t ht)
  obtain ⟨res', hrun'⟩ := hsucceeds fun content => arrives_of_endless rfl rfl content
  exact ⟨_, res', hrun, hrun', halike res' hrun'⟩

end Sample

end Analysis

end DartReach
