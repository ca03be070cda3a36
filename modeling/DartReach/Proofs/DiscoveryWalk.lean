import DartReach.Discovery
import DartReach.Proofs.ByteOrder
import DartReach.Proofs.PathNormalForm
import DartReach.Proofs.TreeShape

/-!
# What a walk finds

The visits of a walk, described by the shape of the tree and by the rules alone: an entry is met if
every directory above it can be listed and is not left out, and what is said of an entry that is met
depends on this entry only. The list of files that a discovery returns follows from this description.
-/

namespace DartReach.Discovery

set_option autoImplicit false

open Bytes (slash)

/-- The path of an entry relative to the root of a walk. -/
def relText (loc : Location) : Bytes := Bytes.join [slash] loc

section Spec

variable (shape : Location → Option Kind) (out : Bytes → Bool → Option Bool)

/-- The directory at `loc` is listed by the walk, if the walk comes there. -/
def Enters (loc : Location) : Prop :=
  shape loc = some .openDir ∧ (loc = [] ∨ out (relText loc) true = some false)

/-- All directories above `loc` are listed. -/
def Clear (loc : Location) : Prop := ∀ k < loc.length, Enters shape out (loc.take k)

/-- The walk comes to the entry at `loc`, if there is one. -/
def Meets (loc : Location) : Prop := loc ≠ [] ∧ Clear shape out loc

/-- An entry is met for which the rules have no answer. -/
def Breaks (loc : Location) : Prop :=
  Meets shape out loc ∧ ∃ k, shape loc = some k ∧ out (relText loc) k.isDir = none

/-- The entry is met, is no directory, has the name looked for and is not left out. -/
def Finds (extension : Bytes) (loc : Location) : Prop :=
  Meets shape out loc ∧ shape loc = some .leaf ∧ out (relText loc) false = some false ∧
    (loc.getLastD []).endsWith extension = true

variable {shape out}

theorem meets_concat {loc : Location} (h : Clear shape out loc) (he : Enters shape out loc)
    (name : Name) : Meets shape out (loc ++ [name]) := by
  refine ⟨by simp, fun k hk => ?_⟩
  rw [List.length_append, List.length_singleton] at hk
  rw [List.take_append_of_le_length (by omega)]
  by_cases hlt : k < loc.length
  · exact h k hlt
  · rw [List.take_of_length_le (by omega)]
    exact he

theorem Clear.enters_of_append {loc rest : Location} (h : Clear shape out (loc ++ rest))
    (hr : rest ≠ []) : Enters shape out loc := by
  have hpos : 0 < rest.length := List.length_pos_iff.mpr hr
  have he := h loc.length (by rw [List.length_append]; omega)
  rwa [List.take_left] at he

end Spec

theorem relText_concat {loc : Location} (h : loc ≠ []) (name : Name) :
    relText (loc ++ [name]) = relText loc ++ [slash] ++ name := by
  simp [relText, Bytes.join_append [slash] h]

theorem relText_injective {xs ys : Location} (hx : xs ≠ []) (hy : ys ≠ [])
    (hxs : ∀ n ∈ xs, slash ∉ n) (hys : ∀ n ∈ ys, slash ∉ n) (h : relText xs = relText ys) :
    xs = ys := by
  rw [← Bytes.split_join hx hxs, ← Bytes.split_join hy hys]
  exact congrArg _ h

/-! ### Single visits -/

namespace Walk

variable (w : Walk)

/-- What the walk says about an entry by itself. -/
def verdict (rel name : Bytes) (k : Kind) : List Visit :=
  match w.leavesOut rel k.isDir with
  | none => [.broken]
  | some true => [.excluded rel]
  | some false =>
    match k with
    | .openDir => [.passed]
    | .closedDir => [.passed, .unlisted ⟨.open, w.root ++ rel, .denied⟩]
    | .leaf => [if name.endsWith w.extension then .found (w.root ++ rel) else .passed]

/-- The visits to a node are what is said of it, and the visits to its entries if it is entered. -/
theorem node_eq (rel name : Bytes) (node : Node) :
    w.node rel name node =
      w.verdict rel name node.kind ++
        (if node.kind = .openDir ∧ w.leavesOut rel true = some false then
            w.entries (rel ++ [slash]) node.entries
          else []) := by
  cases node with
  | dir es access =>
    rw [Walk.node]
    by_cases ha : access = .none
    · simp only [verdict, Node.kind, ha, if_true, Kind.isDir]
      split <;> rename_i h <;> simp [h]
    · simp only [verdict, Node.kind, ha, if_false, Kind.isDir]
      split <;> rename_i h <;> simp [h, Node.entries]
  | file _ _ | device _ | link _ =>
    rw [Walk.node]
    · simp only [verdict, Node.kind, Kind.isDir]
      rcases w.leavesOut rel false with _ | _ | _ <;> simp
    · simp

theorem mem_entries_iff {v : Visit} {start : Bytes} {es : List (Name × Node)} :
    v ∈ w.entries start es ↔ ∃ e ∈ es, v ∈ w.node (start ++ e.1) e.1 e.2 := by
  induction es with
  | nil => simp [Walk.entries]
  | cons e es ih =>
    obtain ⟨name, node⟩ := e
    rw [Walk.entries, List.mem_append, ih]
    simp

theorem broken_mem_verdict_iff {rel name : Bytes} {k : Kind} :
    .broken ∈ w.verdict rel name k ↔ w.leavesOut rel k.isDir = none := by
  simp only [verdict]
  split
  · rename_i h
    simp [h]
  · rename_i h
    simp [h]
  · rename_i h
    rw [h]
    cases k with
    | openDir => simp
    | closedDir => simp
    | leaf => by_cases he : name.endsWith w.extension = true <;> simp [he]

theorem found_mem_verdict_iff {rel name p : Bytes} {k : Kind} :
    .found p ∈ w.verdict rel name k ↔
      k = .leaf ∧ w.leavesOut rel false = some false ∧ name.endsWith w.extension = true ∧
        p = w.root ++ rel := by
  cases k with
  | openDir =>
    simp only [verdict]
    split <;> simp
  | closedDir =>
    simp only [verdict]
    split <;> simp
  | leaf =>
    simp only [verdict, Kind.isDir]
    split
    · rename_i h
      simp [h]
    · rename_i h
      simp [h]
    · rename_i h
      by_cases he : name.endsWith w.extension = true <;> simp [h, he]

/-! ### Visits to a tree -/

theorem mem_filterMap_file {p : Bytes} {vs : List Visit} :
    p ∈ vs.filterMap Visit.file? ↔ .found p ∈ vs := by
  simp only [List.mem_filterMap]
  constructor
  · rintro ⟨v, hv, hp⟩
    cases v <;> simp [Visit.file?] at hp
    exact hp ▸ hv
  · intro h
    exact ⟨.found p, h, rfl⟩

theorem filterMap_verdict_of_dir (rel name : Bytes) {k : Kind} (h : k ≠ .leaf) :
    (w.verdict rel name k).filterMap Visit.file? = [] := by
  rw [List.eq_nil_iff_forall_not_mem]
  intro p hp
  exact h ((w.found_mem_verdict_iff).mp (mem_filterMap_file.mp hp)).1

theorem nodup_verdict_leaf (rel name : Bytes) :
    ((w.verdict rel name .leaf).filterMap Visit.file?).Nodup := by
  have hlen : (w.verdict rel name .leaf).length = 1 := by
    simp only [verdict]
    split <;> rfl
  obtain ⟨v, hv⟩ := List.length_eq_one_iff.mp hlen
  rw [hv]
  cases v <;> simp [List.filterMap_cons, Visit.file?]

/-- The node at `base`, under the name it is visited with. -/
structure Site (tree : Node) (base : Location) (name : Name) (node : Node) : Prop where
  get : tree.get? base = some node
  last : base.getLastD [] = name
  meets : Meets tree.shape w.leavesOut base

/-- What the walk says of the entries it meets at and below `base`. -/
def SaysBelow (tree : Node) (base : Location) (v : Visit) : Prop :=
  ∃ loc k, base <+: loc ∧ Meets tree.shape w.leavesOut loc ∧ tree.shape loc = some k ∧
    v ∈ w.verdict (relText loc) (loc.getLastD []) k

variable {w} {tree : Node} {base : Location} {name : Name} {node : Node} {v : Visit}

theorem Site.shape (h : w.Site tree base name node) : tree.shape base = some node.kind := by
  rw [Node.shape, h.get, Option.map_some]

theorem Site.enters_iff (h : w.Site tree base name node) :
    Enters tree.shape w.leavesOut base ↔
      node.kind = .openDir ∧ w.leavesOut (relText base) true = some false := by
  simp [Enters, h.shape, h.meets.1]

theorem Site.saysBelow_iff (h : w.Site tree base name node) :
    w.SaysBelow tree base v ↔ v ∈ w.verdict (relText base) name node.kind ∨
      ∃ n, w.SaysBelow tree (base ++ [n]) v := by
  constructor
  · rintro ⟨loc, k, ⟨rest, rfl⟩, hmeets, hk, hv⟩
    cases rest with
    | nil =>
      rw [List.append_nil] at hk hv
      rw [h.shape, Option.some.injEq] at hk
      subst hk
      rw [h.last] at hv
      exact Or.inl hv
    | cons n rest => exact Or.inr ⟨n, base ++ n :: rest, k, ⟨rest, by simp⟩, hmeets, hk, hv⟩
  · rintro (hv | ⟨n, loc, k, hpre, hrest⟩)
    · exact ⟨base, node.kind, List.prefix_rfl, h.meets, h.shape, h.last ▸ hv⟩
    · exact ⟨loc, k, (List.prefix_append base [n]).trans hpre, hrest⟩

theorem enters_of_saysBelow {n : Name} (h : w.SaysBelow tree (base ++ [n]) v) :
    Enters tree.shape w.leavesOut base := by
  obtain ⟨loc, k, ⟨rest, rfl⟩, hmeets, _⟩ := h
  rw [List.append_assoc] at hmeets
  exact hmeets.2.enters_of_append (by simp)

theorem mem_entries_of_nodes {start : Bytes} (hget : tree.get? base = some node)
    (hstart : ∀ n, start ++ n = relText (base ++ [n]))
    (hnode : ∀ e ∈ node.entries, v ∈ w.node (relText (base ++ [e.1])) e.1 e.2 ↔
      w.SaysBelow tree (base ++ [e.1]) v) :
    v ∈ w.entries start node.entries ↔ ∃ n, w.SaysBelow tree (base ++ [n]) v := by
  rw [w.mem_entries_iff]
  constructor
  · rintro ⟨e, hmem, hv⟩
    rw [hstart] at hv
    exact ⟨e.1, (hnode e hmem).mp hv⟩
  · rintro ⟨n, hsays⟩
    obtain ⟨loc, k, ⟨rest, rfl⟩, _, hk, _⟩ := id hsays
    obtain ⟨deeper, hdeeper, _⟩ := Node.shape_eq_some_iff.mp hk
    rw [List.append_assoc] at hdeeper
    obtain ⟨child, hmem⟩ := Node.entry_of_get?_append hget hdeeper
    refine ⟨(n, child), hmem, ?_⟩
    rw [hstart]
    exact (hnode _ hmem).mpr hsays

variable (htree : tree.WellFormed)
include htree

theorem site_entry (hget : tree.get? base = some node)
    (hclear : Clear tree.shape w.leavesOut base) (he : Enters tree.shape w.leavesOut base)
    {e : Name × Node} (hmem : e ∈ node.entries) : w.Site tree (base ++ [e.1]) e.1 e.2 :=
  ⟨htree.get?_entry hget hmem, List.getLastD_concat .., meets_concat hclear he e.1⟩

theorem mem_node_iff (hsite : w.Site tree base name node) :
    v ∈ w.node (relText base) name node ↔ w.SaysBelow tree base v := by
  induction node using Node.entries_induction generalizing base name with
  | step node ih =>
    rw [node_eq, List.mem_append, hsite.saysBelow_iff]
    by_cases he : Enters tree.shape w.leavesOut base
    · have hentries := mem_entries_of_nodes (v := v) hsite.get
        (fun n => (relText_concat hsite.meets.1 n).symm)
        (fun e hmem => ih e hmem (site_entry htree hsite.get hsite.meets.2 he hmem))
      rw [if_pos (hsite.enters_iff.mp he), hentries]
    · rw [if_neg (fun h => he (hsite.enters_iff.mpr h))]
      constructor
      · rintro (hv | hv)
        · exact Or.inl hv
        · simp at hv
      · rintro (hv | ⟨n, hn⟩)
        · exact Or.inl hv
        · exact absurd (enters_of_saysBelow hn) he

/-! ### No file is found twice -/

theorem prefix_of_found {p : Bytes} (hsite : w.Site tree base name node)
    (h : .found p ∈ w.node (relText base) name node) :
    ∃ loc, base <+: loc ∧ loc ≠ [] ∧ (∀ n ∈ loc, slash ∉ n) ∧ p = w.root ++ relText loc := by
  obtain ⟨loc, k, hpre, hmeets, hk, hv⟩ := (mem_node_iff htree hsite).mp h
  refine ⟨loc, hpre, hmeets.1, ?_, ((w.found_mem_verdict_iff).mp hv).2.2.2⟩
  intro n hn
  have hproper := htree.properName_of_shape hk n hn
  exact (Path.ordinary_of_properName hproper).slashFree

theorem found_once {p : Bytes} {base' : Location} {name' : Name} {node' : Node}
    (hsite : w.Site tree base name node) (hsite' : w.Site tree base' name' node')
    (hlen : base.length = base'.length) (h : .found p ∈ w.node (relText base) name node)
    (h' : .found p ∈ w.node (relText base') name' node') : base = base' := by
  obtain ⟨loc, hpre, hne, hfree, hp⟩ := prefix_of_found htree hsite h
  obtain ⟨loc', hpre', hne', hfree', hp'⟩ := prefix_of_found htree hsite' h'
  have heq : loc = loc' := by
    apply relText_injective hne hne' hfree hfree'
    exact List.append_cancel_left (hp.symm.trans hp')
  subst heq
  rw [List.prefix_iff_eq_take.mp hpre, List.prefix_iff_eq_take.mp hpre', hlen]

theorem nodup_entries {start : Bytes} {es : List (Name × Node)}
    (hstart : ∀ n, start ++ n = relText (base ++ [n]))
    (hes : es.Pairwise (fun a b => a.1 < b.1))
    (hsite : ∀ e ∈ es, w.Site tree (base ++ [e.1]) e.1 e.2)
    (hnode : ∀ e ∈ es,
      ((w.node (relText (base ++ [e.1])) e.1 e.2).filterMap Visit.file?).Nodup) :
    ((w.entries start es).filterMap Visit.file?).Nodup := by
  induction es with
  | nil => simp [Walk.entries]
  | cons e es ih =>
    obtain ⟨hlt, ht⟩ := List.pairwise_cons.mp hes
    rw [List.forall_mem_cons] at hsite hnode
    rw [Walk.entries, hstart, List.filterMap_append, List.nodup_append]
    refine ⟨hnode.1, ih ht hsite.2 hnode.2, ?_⟩
    rintro p hp q hq rfl
    obtain ⟨e', he', hq⟩ := (w.mem_entries_iff).mp (mem_filterMap_file.mp hq)
    rw [hstart] at hq
    have heq := found_once htree hsite.1 (hsite.2 e' he') (by simp) (mem_filterMap_file.mp hp) hq
    have hname : e.1 = e'.1 := by simpa using heq
    exact Std.lt_irrefl (hname ▸ hlt e' he')

theorem nodup_node (hsite : w.Site tree base name node) :
    ((w.node (relText base) name node).filterMap Visit.file?).Nodup := by
  induction node using Node.entries_induction generalizing base name with
  | step node ih =>
    rw [node_eq, List.filterMap_append]
    by_cases hleaf : node.kind = .leaf
    · rw [if_neg (by simp [hleaf]), List.filterMap_nil, List.append_nil, hleaf]
      exact w.nodup_verdict_leaf _ _
    · rw [w.filterMap_verdict_of_dir _ _ hleaf, List.nil_append]
      split
      · rename_i hent
        have hentry := fun (e : Name × Node) hmem =>
          site_entry (e := e) htree hsite.get hsite.meets.2 (hsite.enters_iff.mpr hent) hmem
        exact nodup_entries htree (fun n => (relText_concat hsite.meets.1 n).symm)
          (htree.get? hsite.get).1.ascending_entries hentry
          (fun e hmem => ih e hmem (hentry e hmem))
      · simp

/-! ### The whole walk -/

variable (w)

section Root

variable (hopen : tree.kind = .openDir)
include hopen

theorem site_root_entry {e : Name × Node} (hmem : e ∈ tree.entries) :
    w.Site tree ([] ++ [e.1]) e.1 e.2 := by
  refine site_entry htree (Node.get?_nil tree) ?_ ?_ hmem
  · intro k hk
    simp at hk
  · exact ⟨by simp [Node.shape, hopen], Or.inl rfl⟩

theorem mem_entries_root_iff :
    v ∈ w.entries [] tree.entries ↔
      ∃ loc k, Meets tree.shape w.leavesOut loc ∧ tree.shape loc = some k ∧
        v ∈ w.verdict (relText loc) (loc.getLastD []) k := by
  rw [mem_entries_of_nodes (Node.get?_nil tree) (fun n => by simp [relText])
    (fun e hmem => mem_node_iff htree (w.site_root_entry htree hopen hmem))]
  constructor
  · rintro ⟨n, loc, k, _, hrest⟩
    exact ⟨loc, k, hrest⟩
  · rintro ⟨loc, k, hmeets, hrest⟩
    cases loc with
    | nil => exact absurd rfl hmeets.1
    | cons n rest => exact ⟨n, n :: rest, k, ⟨rest, rfl⟩, hmeets, hrest⟩

theorem nodup_entries_root : ((w.entries [] tree.entries).filterMap Visit.file?).Nodup := by
  have hentry := fun (e : Name × Node) hmem => w.site_root_entry (e := e) htree hopen hmem
  have hstart : ∀ n : Name, [] ++ n = relText ([] ++ [n]) := fun n => by simp [relText]
  exact nodup_entries htree hstart htree.ascending_entries hentry
    (fun e hmem => nodup_node htree (hentry e hmem))

end Root

end Walk

theorem untilBroken_eq {vs : List Visit} (h : .broken ∉ vs) : untilBroken vs = vs := by
  induction vs with
  | nil => rfl
  | cons v vs ih =>
    rw [List.mem_cons, not_or] at h
    cases v <;> simp_all [untilBroken]

theorem broken_mem_untilBroken_iff {vs : List Visit} : .broken ∈ untilBroken vs ↔ .broken ∈ vs := by
  induction vs with
  | nil => rfl
  | cons v vs ih => cases v <;> simp [untilBroken, ih]

namespace Walk

variable (w : Walk) {tree : Node} (htree : tree.WellFormed)

theorem visits_of_open (h : tree.kind = .openDir) :
    w.visits tree = .passed :: untilBroken (w.entries [] tree.entries) := by
  obtain ⟨es, access, rfl, ha⟩ := Node.kind_eq_openDir_iff.mp h
  simp [visits, ha, Node.entries]

theorem visits_of_not_open (h : tree.kind ≠ .openDir) :
    .broken ∉ w.visits tree ∧ (w.visits tree).filterMap Visit.file? = [] := by
  cases tree with
  | dir es access =>
    have ha : access = .none := by
      by_contra ha
      exact h (Node.kind_eq_openDir_iff.mpr ⟨es, access, rfl, ha⟩)
    simp [visits, ha, List.filterMap_cons, Visit.file?]
  | file content access => simp [visits, List.filterMap_cons, Visit.file?]
  | device kind => simp [visits, List.filterMap_cons, Visit.file?]
  | link target => simp [visits, List.filterMap_cons, Visit.file?]

theorem meets_open {shape : Location → Option Kind} {out : Bytes → Bool → Option Bool}
    {loc : Location} (h : Meets shape out loc) : shape [] = some .openDir := by
  have hroot := h.2 0 (List.length_pos_iff.mpr h.1)
  exact hroot.1

include htree

/-- The walk ends early exactly where an entry is met for which the rules have no answer. -/
theorem broken_mem_visits_iff :
    .broken ∈ w.visits tree ↔ ∃ loc, Breaks tree.shape w.leavesOut loc := by
  by_cases hopen : tree.kind = .openDir
  · rw [w.visits_of_open hopen, List.mem_cons, broken_mem_untilBroken_iff,
      w.mem_entries_root_iff htree hopen]
    simp [Breaks, broken_mem_verdict_iff]
  · constructor
    · intro h
      exact absurd h (w.visits_of_not_open hopen).1
    · rintro ⟨loc, hmeets, _⟩
      exact absurd (by simpa [Node.shape] using meets_open hmeets) hopen

theorem found_mem_visits_iff (h : .broken ∉ w.visits tree) {p : Bytes} :
    p ∈ (w.visits tree).filterMap Visit.file? ↔
      ∃ loc, Finds tree.shape w.leavesOut w.extension loc ∧ p = w.root ++ relText loc := by
  by_cases hopen : tree.kind = .openDir
  · have hvisits := w.visits_of_open hopen
    rw [hvisits, List.mem_cons, broken_mem_untilBroken_iff, not_or] at h
    rw [hvisits, untilBroken_eq h.2, mem_filterMap_file, List.mem_cons,
      w.mem_entries_root_iff htree hopen]
    simp only [found_mem_verdict_iff, Finds]
    constructor
    · rintro (hp | ⟨loc, k, hmeets, hk, rfl, hout, hend, hp⟩)
      · simp at hp
      · exact ⟨loc, ⟨hmeets, hk, hout, hend⟩, hp⟩
    · rintro ⟨loc, ⟨hmeets, hk, hout, hend⟩, hp⟩
      exact Or.inr ⟨loc, .leaf, hmeets, hk, rfl, hout, hend, hp⟩
  · rw [(w.visits_of_not_open hopen).2]
    constructor
    · intro hp
      simp at hp
    · rintro ⟨loc, hfinds, _⟩
      exact absurd (by simpa [Node.shape] using meets_open hfinds.1) hopen

theorem nodup_visits (h : .broken ∉ w.visits tree) :
    ((w.visits tree).filterMap Visit.file?).Nodup := by
  by_cases hopen : tree.kind = .openDir
  · have hvisits := w.visits_of_open hopen
    rw [hvisits, List.mem_cons, broken_mem_untilBroken_iff, not_or] at h
    rw [hvisits, untilBroken_eq h.2]
    exact w.nodup_entries_root htree hopen
  · simp [(w.visits_of_not_open hopen).2]

end Walk

end DartReach.Discovery
