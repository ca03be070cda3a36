import Mathlib.Data.List.Basic
import DartReach.Proofs.DiscoveryWalk
import DartReach.Proofs.Utf8Codec

/-!
# The files a discovery returns

A discovery is described by a survey: the patterns compile, the ignore file can be used, the rules have
an answer for every entry that is met, and the files are the paths of the entries that are found, in
ascending order. A discovery that is never called off returns a list if and only if there is a survey
with this list.
-/

namespace DartReach.Discovery

set_option autoImplicit false

open Bytes (slash)

/-! ### Patterns and ignore rules -/

theorem matchesAny_eq_false_iff {rel : Bytes} {patterns : List Glob.Matcher} :
    matchesAny rel patterns = some false ↔ ∀ m ∈ patterns, m.accepts rel = some false := by
  induction patterns with
  | nil => simp [matchesAny]
  | cons m ms ih =>
    simp only [matchesAny, List.forall_mem_cons]
    split <;> rename_i h <;> simp [h, ih]

theorem matchesAny_ne_none {rel : Bytes} {patterns : List Glob.Matcher}
    (h : ∀ m ∈ patterns, m.accepts rel ≠ none) : matchesAny rel patterns ≠ none := by
  induction patterns with
  | nil => simp [matchesAny]
  | cons m ms ih =>
    rw [List.forall_mem_cons] at h
    simp only [matchesAny]
    split
    · rename_i hm
      exact absurd hm h.1
    · simp
    · exact ih h.2

section LeavesOut

variable {patterns : List Glob.Matcher} {ignore : Option Ignore.File} {root rel : Bytes} {isDir : Bool}

theorem leavesOut_eq_false_iff :
    leavesOut patterns ignore root rel isDir = some false ↔
      (∀ m ∈ patterns, m.accepts rel = some false) ∧
        ∀ f, ignore = some f → f.ignores (root ++ rel) isDir = some false := by
  rw [← matchesAny_eq_false_iff]
  simp only [leavesOut]
  split
  · rename_i h
    simp [h]
  · rename_i h
    simp [h]
  · rename_i h
    cases ignore <;> simp [h]

theorem leavesOut_ne_none (hglob : ∀ m ∈ patterns, m.accepts rel ≠ none)
    (hrules : ∀ f, ignore = some f → f.ignores (root ++ rel) isDir ≠ none) :
    leavesOut patterns ignore root rel isDir ≠ none := by
  simp only [leavesOut]
  split
  · rename_i h
    exact absurd h (matchesAny_ne_none hglob)
  · simp
  · cases ignore with
    | none => simp
    | some f => exact hrules f rfl

theorem leavesOut_without_rules (root' : Bytes) :
    leavesOut patterns none root = leavesOut patterns none root' := by
  funext rel isDir
  simp only [leavesOut]

end LeavesOut

theorem mem_compileAll_iff {ps : List Bytes} {patterns : List Glob.Matcher}
    (h : compileAll ps = .ok patterns) {m : Glob.Matcher} :
    m ∈ patterns ↔ ∃ p ∈ ps, Glob.compile p = .ok m := by
  induction ps generalizing patterns with
  | nil =>
    cases h
    simp
  | cons p ps ih =>
    simp only [compileAll] at h
    split at h
    · simp at h
    · rename_i m' hm'
      split at h
      · simp at h
      · rename_i ms hms
        cases h
        rw [List.mem_cons, ih hms, List.exists_mem_cons_iff, hm', Except.ok.injEq, eq_comm]

theorem compileAll_of_forall {ps : List Bytes} (h : ∀ p ∈ ps, ∃ m, Glob.compile p = .ok m) :
    ∃ patterns, compileAll ps = .ok patterns := by
  induction ps with
  | nil => exact ⟨[], rfl⟩
  | cons p ps ih =>
    rw [List.forall_mem_cons] at h
    obtain ⟨⟨m, hm⟩, hps⟩ := h
    obtain ⟨ms, hms⟩ := ih hps
    exact ⟨m :: ms, by simp [compileAll, hm, hms]⟩

/-- The rules that take part in a walk: there may be none, or the file may be of no use at all. -/
def Loaded.rules? : Loaded → Option (Option Ignore.File)
  | .missing => some none
  | .rules f => some (some f)
  | .unreadable _ => some none
  | .broken => none

theorem outcomeOf_files_iff {patience : Patience} {visits : List Visit} {files : List Bytes} :
    (outcomeOf patience visits).files = .ok files ↔
      patience.any (· < visits.length) = false ∧ .broken ∉ visits ∧
        files = Bytes.sort (visits.filterMap Visit.file?) := by
  simp only [outcomeOf]
  split
  · rename_i h
    simp [h]
  split
  · rename_i h
    simp_all
  · rename_i hp hb
    rw [List.contains_eq_mem, decide_eq_true_eq] at hb
    rw [Bool.not_eq_true] at hp
    simp only [Except.ok.injEq, hp, hb, not_false_eq_true, true_and]
    exact eq_comm

/-- An impatient walk that comes to its end has the outcome of a patient one. -/
theorem outcomeOf_patient {patience : Patience} {visits : List Visit} {files : List Bytes}
    (h : (outcomeOf patience visits).files = .ok files) :
    (outcomeOf none visits).files = .ok files := by
  rw [outcomeOf_files_iff] at h ⊢
  exact ⟨rfl, h.2⟩

/-! ### Walks -/

/-- The visits of the walk below a root that is a directory. -/
def Walks (host : Host) (root : Bytes) (options : Options) (visits : List Visit) : Prop :=
  ∃ node patterns ignore,
    host.stat root = .ok node ∧ node.isDir = true ∧
    compileAll options.exclude = .ok patterns ∧
    (loadIgnoreFile host root options.ignoreFile).rules? = some ignore ∧
    visits = Walk.visits
      ⟨withSlash root, options.extension, leavesOut patterns ignore (withSlash root)⟩ node

section

variable {host : Host} {patience : Patience} {root : Bytes} {options : Options} {visits : List Visit}

theorem discover_of_walks (hext : options.extension ≠ [])
    (hw : Walks host (host.normalize root) options visits) :
    (discover host patience root options).files = (outcomeOf patience visits).files := by
  obtain ⟨node, patterns, ignore, hstat, hdir, hcomp, hload, rfl⟩ := hw
  simp only [discover]
  rw [if_neg (by simpa using hext), hcomp]
  simp only [hstat, hdir, if_true, discoverBelow]
  split <;> rename_i h <;> simp only [h, Loaded.rules?, Option.some.injEq, reduceCtorEq] at hload
  · rw [hload]
  · rw [hload]
  · rw [hload]

/-- A walk that finds files in ascending order. -/
theorem discover_of_ascending {files : List Bytes} (hext : options.extension ≠ [])
    (hw : Walks host (host.normalize root) options visits) (hbroken : .broken ∉ visits)
    (hfound : visits.filterMap Visit.file? = files) (h : Bytes.Ascending files) :
    (discover host none root options).files = .ok files := by
  rw [discover_of_walks hext hw, outcomeOf_files_iff, hfound]
  exact ⟨rfl, hbroken, h.sort_eq.symm⟩

end

/-! ### Surveys -/

/-- The path of an entry below a root. -/
def pathBelow (root : Bytes) (loc : Location) : Bytes := withSlash root ++ relText loc

/-- The walk of a tree returns a list: the ascending list of all it finds. -/
theorem visits_files_iff (w : Walk) {tree : Node} (htree : tree.WellFormed) {files : List Bytes} :
    (outcomeOf none (w.visits tree)).files = .ok files ↔
      (∀ loc, ¬ Breaks tree.shape w.leavesOut loc) ∧ Bytes.Ascending files ∧
        ∀ p, p ∈ files ↔
          ∃ loc, Finds tree.shape w.leavesOut w.extension loc ∧ p = w.root ++ relText loc := by
  rw [outcomeOf_files_iff, ← not_exists, ← w.broken_mem_visits_iff htree]
  constructor
  · rintro ⟨_, hb, rfl⟩
    refine ⟨hb, Bytes.ascending_sort (w.nodup_visits htree hb), fun p => ?_⟩
    rw [Bytes.mem_sort, w.found_mem_visits_iff htree hb]
  · rintro ⟨hb, hasc, hmem⟩
    refine ⟨rfl, hb, hasc.ext (Bytes.ascending_sort (w.nodup_visits htree hb)) fun p => ?_⟩
    rw [hmem, Bytes.mem_sort, w.found_mem_visits_iff htree hb]

/-- The list of files that a discovery below a root has to return, with what it rests on. -/
structure Surveyed (host : Host) (root : Bytes) (options : Options)
    (patterns : List Glob.Matcher) (ignore : Option Ignore.File) (files : List Bytes) : Prop where
  named : options.extension ≠ []
  compiled : compileAll options.exclude = .ok patterns
  loaded : ∀ k, host.shape (host.normalize root) [] = some k → k.isDir = true →
    (loadIgnoreFile host (host.normalize root) options.ignoreFile).rules? = some ignore
  unbroken : ∀ loc, ¬ Breaks (host.shape (host.normalize root))
    (leavesOut patterns ignore (withSlash (host.normalize root))) loc
  ascending : Bytes.Ascending files
  members : ∀ p, p ∈ files ↔ ∃ loc, Finds (host.shape (host.normalize root))
    (leavesOut patterns ignore (withSlash (host.normalize root))) options.extension loc ∧
      p = pathBelow (host.normalize root) loc

theorem surveyed_nothing {host : Host} {root : Bytes} {options : Options}
    {patterns : List Glob.Matcher} {ignore : Option Ignore.File} (hext : options.extension ≠ [])
    (hcomp : compileAll options.exclude = .ok patterns)
    (h : ∀ k, host.shape (host.normalize root) [] = some k → k.isDir = false) :
    Surveyed host root options patterns ignore [] := by
  have hopen : host.shape (host.normalize root) [] ≠ some .openDir := by
    intro ho
    simpa [Kind.isDir] using h _ ho
  refine ⟨hext, hcomp, ?_, ?_, .nil, ?_⟩
  · intro k hk hd
    rw [h k hk] at hd
    simp at hd
  · rintro loc ⟨hmeets, _⟩
    exact hopen (Walk.meets_open hmeets)
  · intro p
    constructor
    · intro hp
      simp at hp
    · rintro ⟨loc, hfinds, _⟩
      exact absurd (Walk.meets_open hfinds.1) hopen

theorem discoverBelow_files_iff {host : Host} {patience : Patience} {root : Bytes} {node : Node}
    {options : Options} {patterns : List Glob.Matcher} {files : List Bytes} :
    (discoverBelow host patience root node options patterns).files = .ok files ↔
      ∃ ignore, (loadIgnoreFile host root options.ignoreFile).rules? = some ignore ∧
        (outcomeOf patience (Walk.visits ⟨withSlash root, options.extension,
          leavesOut patterns ignore (withSlash root)⟩ node)).files = .ok files := by
  simp only [discoverBelow]
  split <;> rename_i h <;> simp [h, Loaded.rules?]

/-- Whatever a discovery returns is a survey, however patient it was. -/
theorem surveyed_of_discover {host : Host} {patience : Patience} {root : Bytes} {options : Options}
    {files : List Bytes} (h : (discover host patience root options).files = .ok files) :
    ∃ patterns ignore, Surveyed host root options patterns ignore files := by
  simp only [discover] at h
  split at h
  · simp at h
  rename_i hext
  rw [List.isEmpty_iff] at hext
  split at h
  · simp at h
  rename_i patterns hcomp
  split at h
  · rename_i e hstat
    cases h
    exact ⟨patterns, none, surveyed_nothing hext hcomp (by simp [Host.shape, hstat])⟩
  rename_i node hstat
  have hshape := Host.shape_of_stat hstat
  split at h
  · obtain ⟨ignore, hload, hout⟩ := discoverBelow_files_iff.mp h
    obtain ⟨hb, hasc, hmem⟩ :=
      (visits_files_iff _ (Host.stat_wellFormed hstat)).mp (outcomeOf_patient hout)
    refine ⟨patterns, ignore, hext, hcomp, fun _ _ _ => hload, ?_, hasc, ?_⟩
    · rw [hshape]
      exact hb
    · rw [hshape]
      exact hmem
  · rename_i hdir
    cases h
    refine ⟨patterns, none, surveyed_nothing hext hcomp ?_⟩
    intro k hk
    rw [hshape, Node.shape, Node.get?_nil, Option.map_some, Option.some.injEq] at hk
    rw [← hk, Node.isDir_kind]
    simpa using hdir

theorem discover_of_surveyed {host : Host} {root : Bytes} {options : Options}
    {patterns : List Glob.Matcher} {ignore : Option Ignore.File} {files : List Bytes}
    (h : Surveyed host root options patterns ignore files) :
    (discover host none root options).files = .ok files := by
  have hnil (hopen : host.shape (host.normalize root) [] ≠ some .openDir) : files = [] := by
    rw [List.eq_nil_iff_forall_not_mem]
    intro p hp
    obtain ⟨loc, hfinds, _⟩ := (h.members p).mp hp
    exact hopen (Walk.meets_open hfinds.1)
  simp only [discover]
  rw [if_neg (by simpa using h.named), h.compiled]
  simp only
  split
  · rename_i e hstat
    rw [hnil (by simp [Host.shape, hstat])]
  · rename_i node hstat
    have hshape := Host.shape_of_stat hstat
    split
    · rename_i hdir
      rw [discoverBelow_files_iff]
      refine ⟨ignore, h.loaded node.kind ?_ ?_, ?_⟩
      · simp [hshape, Node.shape]
      · rw [Node.isDir_kind, hdir]
      · rw [visits_files_iff _ (Host.stat_wellFormed hstat), ← hshape]
        exact ⟨h.unbroken, h.ascending, h.members⟩
    · rename_i hdir
      rw [hnil ?_]
      rw [hshape, Node.shape, Node.get?_nil, Option.map_some, Ne, Option.some.injEq]
      intro hopen
      have hk := Node.isDir_kind node
      rw [hopen] at hk
      exact hdir hk.symm

/-- Where the rules have an answer for every entry that is met there is a survey. -/
theorem exists_surveyed {host : Host} {root : Bytes} {options : Options}
    {patterns : List Glob.Matcher} {ignore : Option Ignore.File} (hext : options.extension ≠ [])
    (hcomp : compileAll options.exclude = .ok patterns)
    (hload : ∀ k, host.shape (host.normalize root) [] = some k → k.isDir = true →
      (loadIgnoreFile host (host.normalize root) options.ignoreFile).rules? = some ignore)
    (hunbroken : ∀ loc, ¬ Breaks (host.shape (host.normalize root))
      (leavesOut patterns ignore (withSlash (host.normalize root))) loc) :
    ∃ files, Surveyed host root options patterns ignore files := by
  cases hstat : host.stat (host.normalize root) with
  | error e => exact ⟨[], surveyed_nothing hext hcomp (by simp [Host.shape, hstat])⟩
  | ok node =>
    have hshape := Host.shape_of_stat hstat
    let w : Walk := ⟨withSlash (host.normalize root), options.extension,
      leavesOut patterns ignore (withSlash (host.normalize root))⟩
    have hwf := Host.stat_wellFormed hstat
    have hb : .broken ∉ w.visits node := by
      rw [w.broken_mem_visits_iff hwf, ← hshape]
      exact not_exists.mpr hunbroken
    obtain ⟨_, hasc, hmem⟩ := (visits_files_iff w hwf).mp
      (outcomeOf_files_iff.mpr ⟨rfl, hb, rfl⟩)
    rw [← hshape] at hmem
    exact ⟨_, hext, hcomp, hload, hunbroken, hasc, hmem⟩

/-! ### Exactly the right files -/

/-- One of the exclude patterns matches a path relative to the root. -/
def Excluded (options : Options) (rel : Bytes) : Prop :=
  ∃ p ∈ options.exclude, ∃ m, Glob.compile p = .ok m ∧ m.accepts rel = some true

/-- The rules of the ignore file, if there is one, ignore an absolute path. -/
def Ignored (ignore : Option Ignore.File) (path : Bytes) (isDir : Bool) : Prop :=
  ∃ f, ignore = some f ∧ f.ignores path isDir = some true

theorem some_false_iff {o : Option Bool} (h : o ≠ none) : o = some false ↔ o ≠ some true := by
  cases o with
  | none => exact absurd rfl h
  | some b => cases b <;> simp

theorem leavesOut_eq_false_iff_not {options : Options} {patterns : List Glob.Matcher}
    {ignore : Option Ignore.File} {root rel : Bytes} {isDir : Bool}
    (hcomp : compileAll options.exclude = .ok patterns)
    (hglob : ∀ m ∈ patterns, m.accepts rel ≠ none)
    (hrules : ∀ f, ignore = some f → f.ignores (root ++ rel) isDir ≠ none) :
    leavesOut patterns ignore root rel isDir = some false ↔
      ¬ Excluded options rel ∧ ¬ Ignored ignore (root ++ rel) isDir := by
  rw [leavesOut_eq_false_iff]
  constructor
  · rintro ⟨hm, hf⟩
    constructor
    · rintro ⟨p, hp, m, hpm, hacc⟩
      rw [hm m ((mem_compileAll_iff hcomp).mpr ⟨p, hp, hpm⟩)] at hacc
      simp at hacc
    · rintro ⟨f, hsome, hign⟩
      rw [hf f hsome] at hign
      simp at hign
  · rintro ⟨hex, hig⟩
    constructor
    · intro m hm
      obtain ⟨p, hp, hpm⟩ := (mem_compileAll_iff hcomp).mp hm
      exact (some_false_iff (hglob m hm)).mpr (fun hacc => hex ⟨p, hp, m, hpm, hacc⟩)
    · intro f hf
      exact (some_false_iff (hrules f hf)).mpr (fun hign => hig ⟨f, hf, hign⟩)

theorem finds_iff {node : Node} {out : Bytes → Bool → Option Bool} {extension : Bytes}
    (keeps : Location → Bool → Prop) (hout : ∀ loc below, loc ≠ [] → node.get? loc = some below →
      (out (relText loc) below.isDir = some false ↔ keeps loc below.isDir)) {loc : Location} :
    Finds node.shape out extension loc ↔
      loc ≠ [] ∧
      (∀ k < loc.length, ∃ es access,
        node.get? (loc.take k) = some (.dir es access) ∧ access ≠ .none) ∧
      (∃ last, node.get? loc = some last ∧ last.isDir = false) ∧
      (loc.getLastD []).endsWith extension = true ∧
      ∀ k, 0 < k → k ≤ loc.length → keeps (loc.take k) (k < loc.length) := by
  have hopen : ∀ k, node.shape (loc.take k) = some .openDir ↔ ∃ es access,
      node.get? (loc.take k) = some (.dir es access) ∧ access ≠ .none := by
    intro k
    rw [Node.shape_eq_some_iff]
    constructor
    · rintro ⟨below, hget, hkind⟩
      obtain ⟨es, access, rfl, ha⟩ := Node.kind_eq_openDir_iff.mp hkind
      exact ⟨es, access, hget, ha⟩
    · rintro ⟨es, access, hget, ha⟩
      exact ⟨_, hget, Node.kind_eq_openDir_iff.mpr ⟨es, access, rfl, ha⟩⟩
  constructor
  · rintro ⟨⟨hne, hclear⟩, hleaf, hkeep, hend⟩
    obtain ⟨last, hlast, hkind⟩ := Node.shape_eq_some_iff.mp hleaf
    have hfile := Node.kind_eq_leaf_iff.mp hkind
    refine ⟨hne, fun k hk => (hopen k).mp (hclear k hk).1, ⟨last, hlast, hfile⟩, hend, ?_⟩
    intro k hpos hk
    by_cases hlt : k < loc.length
    · have htake : loc.take k ≠ [] := by
        intro h
        rw [List.take_eq_nil_iff] at h
        rcases h with h | h
        · omega
        · exact hne h
      obtain ⟨es, access, hget, _⟩ := (hopen k).mp (hclear k hlt).1
      have h := (hout _ _ htake hget).mp ((hclear k hlt).2.resolve_left htake)
      simpa [hlt, Node.isDir] using h
    · rw [List.take_of_length_le (by omega)]
      have h := (hout _ _ hne hlast).mp (hfile ▸ hkeep)
      simpa [hlt, hfile] using h
  · rintro ⟨hne, hdirs, ⟨last, hlast, hfile⟩, hend, hkeep⟩
    refine ⟨⟨hne, fun k hk => ⟨(hopen k).mpr (hdirs k hk), ?_⟩⟩, ?_, ?_, hend⟩
    · by_cases htake : loc.take k = []
      · exact Or.inl htake
      · have hpos : 0 < k := by
          rcases Nat.eq_zero_or_pos k with rfl | hpos
          · simp at htake
          · exact hpos
        obtain ⟨es, access, hget, _⟩ := hdirs k hk
        have h := hkeep k hpos (by omega)
        rw [decide_eq_true hk] at h
        exact Or.inr ((hout _ _ htake hget).mpr h)
    · exact Node.shape_eq_some_iff.mpr ⟨last, hlast, Node.kind_eq_leaf_iff.mpr hfile⟩
    · have h := hkeep loc.length (List.length_pos_iff.mpr hne) (Nat.le_refl _)
      rw [List.take_length, decide_eq_false (Nat.lt_irrefl _)] at h
      have hout' := hout _ _ hne hlast
      rw [hfile] at hout'
      exact hout'.mpr h

/--
A discovery that is never called off returns the ascending list of exactly those entries below the
root that are no directories, have the extension, and are led to by directories which can be listed,
where neither the entry nor one of these directories is excluded or ignored.
-/
theorem discover_exactly {host : Host} {root : Bytes} {options : Options} {node : Node}
    {ignore : Option Ignore.File} (hext : options.extension ≠ [])
    (hglobs : ∀ p ∈ options.exclude, ∃ m, Glob.compile p = .ok m)
    (hroot : host.stat (host.normalize root) = .ok node)
    (hload : (loadIgnoreFile host (host.normalize root) options.ignoreFile).rules? = some ignore)
    (hmatch : ∀ p ∈ options.exclude, ∀ m, Glob.compile p = .ok m →
      ∀ loc, loc ≠ [] → node.get? loc ≠ none → m.accepts (relText loc) ≠ none)
    (hrules : ∀ f, ignore = some f → ∀ loc below, loc ≠ [] → node.get? loc = some below →
      f.ignores (pathBelow (host.normalize root) loc) below.isDir ≠ none) :
    ∃ files, (discover host none root options).files = .ok files ∧ Bytes.Ascending files ∧
      ∀ p, p ∈ files ↔ ∃ loc, loc ≠ [] ∧ p = pathBelow (host.normalize root) loc ∧
        (∀ k < loc.length, ∃ es access,
          node.get? (loc.take k) = some (.dir es access) ∧ access ≠ .none) ∧
        (∃ last, node.get? loc = some last ∧ last.isDir = false) ∧
        (loc.getLastD []).endsWith options.extension = true ∧
        ∀ k, 0 < k → k ≤ loc.length → ¬ Excluded options (relText (loc.take k)) ∧
          ¬ Ignored ignore (pathBelow (host.normalize root) (loc.take k)) (k < loc.length) := by
  obtain ⟨patterns, hcomp⟩ := compileAll_of_forall hglobs
  have hshape := Host.shape_of_stat hroot
  have hanswer : ∀ loc below, loc ≠ [] → node.get? loc = some below →
      (leavesOut patterns ignore (withSlash (host.normalize root)) (relText loc) below.isDir ≠ none ∧
        (leavesOut patterns ignore (withSlash (host.normalize root)) (relText loc) below.isDir
            = some false ↔
          ¬ Excluded options (relText loc) ∧
            ¬ Ignored ignore (pathBelow (host.normalize root) loc) below.isDir)) := by
    intro loc below hne hget
    have hg : ∀ m ∈ patterns, m.accepts (relText loc) ≠ none := by
      intro m hm
      obtain ⟨p, hp, hpm⟩ := (mem_compileAll_iff hcomp).mp hm
      exact hmatch p hp m hpm loc hne (by simp [hget])
    have hr := fun f hf => hrules f hf loc below hne hget
    exact ⟨leavesOut_ne_none hg hr, leavesOut_eq_false_iff_not hcomp hg hr⟩
  have hunbroken : ∀ loc, ¬ Breaks node.shape
      (leavesOut patterns ignore (withSlash (host.normalize root))) loc := by
    rintro loc ⟨hmeets, k, hk, hnone⟩
    obtain ⟨below, hget, rfl⟩ := Node.shape_eq_some_iff.mp hk
    rw [Node.isDir_kind] at hnone
    exact (hanswer loc below hmeets.1 hget).1 hnone
  obtain ⟨files, hs⟩ := exists_surveyed hext hcomp (fun _ _ _ => hload) (hshape ▸ hunbroken)
  refine ⟨files, discover_of_surveyed hs, hs.ascending, fun p => ?_⟩
  rw [hs.members, hshape]
  refine exists_congr fun loc => ?_
  rw [finds_iff (fun loc isDir => ¬ Excluded options (relText loc) ∧
      ¬ Ignored ignore (pathBelow (host.normalize root) loc) isDir)
    (fun loc below hne hget => (hanswer loc below hne hget).2)]
  constructor
  · rintro ⟨⟨hne, hrest⟩, hp⟩
    exact ⟨hne, hp, hrest⟩
  · rintro ⟨hne, hp, hrest⟩
    exact ⟨⟨hne, hrest⟩, hp⟩

/-! ### A library as an example -/

/-- A library with an ignore file, a link that looks like a source file and a directory nobody may list. -/
def sampleLibrary : Node :=
  .dir
    [(text ".ignore", .file (text "old*\n") .full),
      (text "api.dart", .link (text "src")),
      (text "dead.dart", .file (text "import 'main.dart';") .full),
      (text "main.dart", .file (text "import 'src/used.dart';") .full),
      (text "main.g.dart", .file [] .full),
      (text "private", .dir [(text "key.dart", .file [] .full)] .none),
      (text "src", .dir
        [(text "old.dart", .file [] .full),
          (text "used.dart", .file (text "import 'package:app/main.dart';") .full)] .full)]
    .full

theorem sampleLibrary_wellFormed : sampleLibrary.WellFormed := by
  refine .dir _ _ (by decide) ?_ (by decide)
  intro e he
  simp only [List.mem_cons, List.not_mem_nil, or_false] at he
  rcases he with rfl | rfl | rfl | rfl | rfl | rfl | rfl
  · exact .file _ _
  · exact .link _ (by decide)
  · exact .file _ _
  · exact .file _ _
  · exact .file _ _
  · exact .dir _ _ (by decide) (by simpa using .file _ _) (by decide)
  · exact .dir _ _ (by decide) (by simpa using ⟨.file _ _, .file _ _⟩) (by decide)

/-- A host with the library under its own name and under a link. -/
def sampleHost : Host where
  files :=
    { root := .dir [(text "app", sampleLibrary), (text "lib", .link (text "app"))] .full
      wellFormed := .dir _ _ (by decide)
        (by simpa using ⟨sampleLibrary_wellFormed, .link _ (by decide)⟩) (by decide) }
  workingDir := some []
  env := []

def sampleOptions : Options := ⟨text ".dart", [text "*.g.dart"], text ".ignore"⟩

def sampleRules : Ignore.File := ⟨text "/lib", [⟨false, false, false, [.piece "old*".toList]⟩]⟩

theorem compile_sample : Glob.compile (text "*.g.dart") = .ok (.endingName ".g.dart".toList) := by
  have hparse : Glob.parse (text "*.g.dart") = .ok [.any, .text ".g.dart".toList] := by
    rw [Glob.parse, text, Utf8.decode_encode]
    rfl
  have hlength : (text "*.g.dart").length = 8 := by decide
  rw [Glob.compile, hparse, hlength]
  rfl

theorem compileAll_sample : compileAll sampleOptions.exclude = .ok [.endingName ".g.dart".toList] := by
  rw [sampleOptions, compileAll, compile_sample]
  rfl

theorem loaded_sample :
    (loadIgnoreFile sampleHost (text "/lib") (text ".ignore")).rules? = some (some sampleRules) := by
  decide +kernel

theorem discover_exactly_sample :
    ∃ files, (discover sampleHost none (text "lib") sampleOptions).files = .ok files ∧
      Bytes.Ascending files ∧ text "/lib/src/used.dart" ∈ files := by
  have hext : sampleOptions.extension ≠ [] := by decide
  have hcompile : ∀ p ∈ sampleOptions.exclude,
      Glob.compile p = .ok (.endingName ".g.dart".toList) := by
    intro p hp
    rw [List.mem_singleton.mp hp, compile_sample]
  have hroot : sampleHost.stat (sampleHost.normalize (text "lib")) = .ok sampleLibrary := rfl
  have hrules : ∀ loc ∈ sampleLibrary.places, loc ≠ [] → ∀ isDir,
      sampleRules.ignores (pathBelow (sampleHost.normalize (text "lib")) loc) isDir ≠ none := by
    decide +kernel
  obtain ⟨files, hok, hasc, hmem⟩ := discover_exactly hext (fun p hp => ⟨_, hcompile p hp⟩) hroot
    loaded_sample
    (by
      intro p hp m hm loc _ _
      rw [hcompile p hp] at hm
      cases hm
      simp [Glob.Matcher.accepts])
    (by
      rintro f ⟨⟩ loc below hne hget
      exact hrules loc (Node.mem_places_of_get? hget) hne below.isDir)
  have hglob : ∀ k ≤ 2, (Glob.Matcher.endingName ".g.dart".toList).accepts
      (relText ([text "src", text "used.dart"].take k)) ≠ some true := by
    decide +kernel
  have hkept : ∀ k ≤ 2, ∀ isDir, sampleRules.ignores (pathBelow (sampleHost.normalize (text "lib"))
      ([text "src", text "used.dart"].take k)) isDir ≠ some true := by
    decide +kernel
  refine ⟨files, hok, hasc, (hmem _).mpr ⟨[text "src", text "used.dart"], by decide, rfl, ?_, ?_⟩⟩
  · intro k hk
    have hk : k = 0 ∨ k = 1 := by
      change k < 2 at hk
      omega
    rcases hk with rfl | rfl
    · exact ⟨_, _, rfl, by decide⟩
    · exact ⟨_, _, rfl, by decide⟩
  · refine ⟨⟨_, rfl, rfl⟩, by decide, fun k hpos hk => ⟨?_, ?_⟩⟩
    · rintro ⟨p, hp, m, hm, hacc⟩
      rw [hcompile p hp] at hm
      cases hm
      exact hglob k hk hacc
    · rintro ⟨f, ⟨⟩, hign⟩
      exact hkept k hk _ hign

end DartReach.Discovery
