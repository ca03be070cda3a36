import Mathlib.Data.List.Basic
import DartReach.Host

/-!
# The shape of a directory tree

A walk sees of a tree which entries there are, which of them are directories, and which directories
can be listed. This is the shape of the tree; contents, link targets and the rights to files are no
part of it. Trees that come from a file system keep its invariant, wherever a path leads to.
-/

namespace DartReach

set_option autoImplicit false

/-- What a walk can tell of an entry. -/
inductive Kind where
  /-- A directory that can be listed. -/
  | openDir
  /-- A directory that cannot be listed. -/
  | closedDir
  /-- No directory; a link counts as a file, whatever it leads to. -/
  | leaf
deriving DecidableEq, Repr

/-- Whether the entry is a directory. -/
def Kind.isDir : Kind → Bool
  | .leaf => false
  | _ => true

namespace Node

/-- The kind of a node. -/
def kind : Node → Kind
  | .dir _ access => if access = .none then .closedDir else .openDir
  | _ => .leaf

theorem kind_eq_leaf_iff {node : Node} : node.kind = .leaf ↔ node.isDir = false := by
  cases node with
  | dir es access =>
    simp only [kind, isDir]
    split <;> simp
  | file content access => simp [kind, isDir]
  | device kind => simp [Node.kind, isDir]
  | link target => simp [kind, isDir]

theorem isDir_kind (node : Node) : node.kind.isDir = node.isDir := by
  cases node with
  | dir es access =>
    simp only [kind]
    split <;> rfl
  | file content access => rfl
  | device kind => rfl
  | link target => rfl

theorem kind_eq_openDir_iff {node : Node} :
    node.kind = .openDir ↔ ∃ es access, node = .dir es access ∧ access ≠ .none := by
  cases node with
  | dir es access =>
    simp only [kind]
    split <;> simp_all
  | file content access => simp [kind]
  | device kind => simp [Node.kind]
  | link target => simp [kind]

/-- Induction over a tree: a node has what all its entries have. -/
theorem entries_induction {motive : Node → Prop}
    (step : ∀ node, (∀ e ∈ node.entries, motive e.2) → motive node) (node : Node) :
    motive node := by
  refine @Node.rec motive (fun es => ∀ e ∈ es, motive e.2) (fun e => motive e.2)
    ?_ ?_ ?_ ?_ ?_ ?_ ?_ node
  · intro content access
    exact step _ (by simp [entries])
  · intro device
    exact step _ (by simp [entries])
  · intro target
    exact step _ (by simp [entries])
  · intro es access ih
    exact step _ ih
  · intro e he
    exact absurd he List.not_mem_nil
  · intro e es he hes x hx
    rcases List.mem_cons.mp hx with rfl | hx
    · exact he
    · exact hes x hx
  · intro name below ih
    exact ih

@[simp] theorem get?_nil (node : Node) : node.get? [] = some node := by
  cases node <;> rfl

theorem get?_cons (node : Node) (name : Name) (rest : Location) :
    node.get? (name :: rest) = (child? name node.entries).bind (·.get? rest) := by
  rw [get?]
  cases child? name node.entries <;> rfl

theorem get?_append (node : Node) (p q : Location) :
    node.get? (p ++ q) = (node.get? p).bind (·.get? q) := by
  induction p generalizing node with
  | nil => simp
  | cons name p ih =>
    rw [List.cons_append, get?_cons, get?_cons]
    cases child? name node.entries with
    | none => rfl
    | some child => exact ih child

theorem child?_of_mem {es : List (Name × Node)} (h : es.Pairwise (fun a b => a.1 < b.1))
    {name : Name} {child : Node} (hmem : (name, child) ∈ es) : child? name es = some child := by
  induction es with
  | nil => simp at hmem
  | cons e es ih =>
    obtain ⟨n, node⟩ := e
    obtain ⟨hlt, ht⟩ := List.pairwise_cons.mp h
    rcases List.mem_cons.mp hmem with heq | hmem
    · simp only [Prod.mk.injEq] at heq
      simp [child?, heq]
    · have hne : n ≠ name := by
        intro heq
        exact Std.lt_irrefl (heq ▸ hlt (name, child) hmem)
      rw [child?, if_neg hne]
      exact ih ht hmem

namespace WellFormed

variable {node : Node}

theorem ascending_entries (h : node.WellFormed) :
    node.entries.Pairwise (fun a b => a.1 < b.1) := by
  cases h with
  | dir es access proper below ascending => exact ascending
  | file content access => exact .nil
  | device kind => exact .nil
  | link target written => exact .nil

theorem properName_of_mem (h : node.WellFormed) {e : Name × Node} (he : e ∈ node.entries) :
    properName e.1 = true := by
  cases h with
  | dir es access proper below ascending => exact proper e he
  | file content access => simp [Node.entries] at he
  | device kind => simp [Node.entries] at he
  | link target written => simp [Node.entries] at he

theorem get? (h : node.WellFormed) {loc : Location} {below : Node}
    (hget : node.get? loc = some below) :
    below.WellFormed ∧ ∀ name ∈ loc, properName name = true := by
  induction loc generalizing node with
  | nil =>
    rw [get?_nil, Option.some.injEq] at hget
    exact ⟨hget ▸ h, by simp⟩
  | cons name rest ih =>
    rw [get?_cons, Option.bind_eq_some_iff] at hget
    obtain ⟨child, hc, hget⟩ := hget
    obtain ⟨hb, hn⟩ := ih (h.child hc) hget
    exact ⟨hb, List.forall_mem_cons.mpr ⟨h.properName_of_mem (mem_of_child? hc), hn⟩⟩

theorem get?_entry (h : node.WellFormed) {loc : Location} {below : Node}
    (hget : node.get? loc = some below) {e : Name × Node} (he : e ∈ below.entries) :
    node.get? (loc ++ [e.1]) = some e.2 := by
  rw [get?_append, hget, Option.bind_some, get?_cons,
    child?_of_mem (h.get? hget).1.ascending_entries he]
  exact get?_nil e.2

end WellFormed

theorem entry_of_get?_append {node below deeper : Node} {loc rest : Location} {name : Name}
    (hget : node.get? loc = some below) (h : node.get? (loc ++ name :: rest) = some deeper) :
    ∃ child, (name, child) ∈ below.entries := by
  rw [get?_append, hget, Option.bind_some, get?_cons, Option.bind_eq_some_iff] at h
  obtain ⟨child, hc, _⟩ := h
  exact ⟨child, mem_of_child? hc⟩

mutual

/-- All places of the tree below a node, its own first. -/
def places : Node → List Location
  | .dir entries _ => [] :: placesBelow entries
  | _ => [[]]

/-- The places of the entries of a directory. -/
def placesBelow : List (Name × Node) → List Location
  | [] => []
  | (name, node) :: rest => node.places.map (name :: ·) ++ placesBelow rest

end

theorem mem_placesBelow {es : List (Name × Node)} {name : Name} {child : Node} {loc : Location}
    (hmem : (name, child) ∈ es) (hloc : loc ∈ child.places) : name :: loc ∈ placesBelow es := by
  induction es with
  | nil => simp at hmem
  | cons e es ih =>
    obtain ⟨n, node⟩ := e
    rw [placesBelow, List.mem_append]
    rcases List.mem_cons.mp hmem with heq | hmem
    · cases heq
      exact Or.inl (List.mem_map_of_mem hloc)
    · exact Or.inr (ih hmem)

theorem mem_places_of_get? {node below : Node} {loc : Location}
    (h : node.get? loc = some below) : loc ∈ node.places := by
  induction loc generalizing node with
  | nil => cases node <;> simp [places]
  | cons name rest ih =>
    rw [get?_cons, Option.bind_eq_some_iff] at h
    obtain ⟨child, hc, hget⟩ := h
    cases node with
    | dir es access =>
      rw [places]
      exact List.mem_cons_of_mem _ (mem_placesBelow (mem_of_child? hc) (ih hget))
    | file content access => simp [entries, child?] at hc
    | device kind => simp [entries, child?] at hc
    | link target => simp [entries, child?] at hc

/-- The shape of the tree below a node. -/
def shape (node : Node) (loc : Location) : Option Kind := (node.get? loc).map kind

theorem shape_eq_some_iff {node : Node} {loc : Location} {k : Kind} :
    node.shape loc = some k ↔ ∃ below, node.get? loc = some below ∧ below.kind = k := by
  simp [shape]

theorem shape_of_not_mem_places {node : Node} {loc : Location} (h : loc ∉ node.places) :
    node.shape loc = none := by
  rw [shape, Option.map_eq_none_iff]
  by_contra hsome
  obtain ⟨below, hget⟩ := Option.ne_none_iff_exists'.mp hsome
  exact h (mem_places_of_get? hget)

theorem WellFormed.properName_of_shape {node : Node} (h : node.WellFormed) {loc : Location}
    {k : Kind} (hs : node.shape loc = some k) : ∀ name ∈ loc, properName name = true := by
  obtain ⟨below, hget, _⟩ := shape_eq_some_iff.mp hs
  exact (h.get? hget).2

end Node

namespace FileSystem

/-- A place that was reached keeps the invariant of the tree. -/
def Sound : Spot → Prop
  | .taken _ node _ => node.WellFormed
  | .vacant _ _ _ => True

theorem follow_sound {root : Node} (hroot : root.WellFormed)
    {jump : Location → Route → Except Cause Spot}
    (hjump : ∀ loc route spot, jump loc route = .ok spot → Sound spot) {last directory : Bool}
    {here : Location} {names : List Name} {spot : Spot}
    (h : follow root jump last directory here names = .ok spot) : Sound spot := by
  induction names generalizing here with
  | nil =>
    simp only [follow] at h
    split at h
    · rename_i node hget
      cases h
      exact (hroot.get? hget).1
    · simp at h
  | cons name rest ih =>
    rw [follow] at h
    split at h
    · simp at h
    · rename_i entries access hget
      split at h
      · simp at h
      split at h
      · exact ih h
      split at h
      · exact ih h
      split at h
      · simp at h
      split at h
      · split at h
        · cases h
          trivial
        · simp at h
      · rename_i target hchild
        split at h
        · cases h
          exact (hroot.get? hget).1.child hchild
        split at h
        · simp at h
        · exact hjump _ _ _ h
      · exact ih h
    · simp at h

theorem trace_sound {root : Node} (hroot : root.WellFormed) {last : Bool} {links : Nat}
    {here : Location} {route : Route} {spot : Spot}
    (h : trace root last links here route = .ok spot) : Sound spot := by
  induction links generalizing here route spot with
  | zero => exact follow_sound hroot (fun _ _ _ hj => by simp at hj) h
  | succ links ih => exact follow_sound hroot (fun _ _ _ hj => ih hj) h

/-- Without a current directory no relative path leads anywhere. -/
theorem locate_relative (fs : FileSystem) (last : Bool) {path : Bytes}
    (h : Path.isAbsolute path = false) : ∃ cause, fs.locate none last path = .error cause := by
  simp only [locate, h]
  split
  · exact ⟨_, rfl⟩
  split
  · exact ⟨_, rfl⟩
  split
  · exact ⟨_, rfl⟩
  · exact ⟨_, rfl⟩

theorem find_wellFormed {fs : FileSystem} {start : Option Location} {path : Bytes}
    {loc : Location} {node : Node} (h : fs.find start path = .ok (loc, node)) :
    node.WellFormed := by
  rw [find] at h
  split at h
  · simp at h
  · simp at h
  · rename_i found below directory hloc
    have hsound : Sound (.taken found below directory) := by
      simp only [locate] at hloc
      split at hloc
      · simp at hloc
      split at hloc
      · simp at hloc
      split at hloc
      · simp at hloc
      split at hloc
      · exact trace_sound fs.wellFormed hloc
      split at hloc
      · exact trace_sound fs.wellFormed hloc
      · simp at hloc
    split at h
    · simp at h
    · cases h
      exact hsound

end FileSystem

namespace Host

theorem stat_wellFormed {host : Host} {path : Bytes} {node : Node}
    (h : host.stat path = .ok node) : node.WellFormed := by
  rw [stat] at h
  split at h
  · rename_i loc below hfind
    cases h
    exact FileSystem.find_wellFormed hfind
  · simp at h

theorem stat_relative {host : Host} {path : Bytes} (hw : host.workingDir = none)
    (hp : Path.isAbsolute path = false) {node : Node} : host.stat path ≠ .ok node := by
  obtain ⟨cause, hc⟩ := FileSystem.locate_relative host.files true hp
  simp [stat, find, FileSystem.find, hw, hc]

/-- The shape of what lies below a path; nothing does if the path leads nowhere. -/
def shape (host : Host) (root : Bytes) (loc : Location) : Option Kind :=
  match host.stat root with
  | .ok node => node.shape loc
  | .error _ => none

theorem shape_of_stat {host : Host} {root : Bytes} {node : Node} (h : host.stat root = .ok node) :
    host.shape root = node.shape := by
  funext loc
  rw [shape, h]

theorem properName_of_shape {host : Host} {root : Bytes} {loc : Location} {k : Kind}
    (h : host.shape root loc = some k) : ∀ name ∈ loc, properName name = true := by
  simp only [shape] at h
  split at h
  · rename_i node hstat
    exact (stat_wellFormed hstat).properName_of_shape h
  · simp at h

end Host

end DartReach
