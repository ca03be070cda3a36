import DartReach.Files.Node
import DartReach.Path

/-!
# File-system states

A state is a tree whose directories list distinct proper names in ascending order, and whose links lead along
paths that can be written. Every change goes through the few operations here, which keep that invariant; so a
state can be compared with another one by looking up locations.
-/

namespace DartReach

set_option autoImplicit false

/-- Names an entry can have: not empty, without slash or zero byte, and neither `.` nor `..`. -/
def properName (name : Name) : Bool :=
  !name.isEmpty && !name.contains Bytes.slash && !name.contains 0 && name != Path.here
    && name != Path.up

namespace Node

/-- Every directory lists proper names, each once, in ascending order; no link has a zero byte. -/
inductive WellFormed : Node → Prop where
  | file (content : Bytes) (access : Access) : WellFormed (.file content access)
  | device (kind : Device) : WellFormed (.device kind)
  | link (target : Bytes) (written : target.contains 0 = false) : WellFormed (.link target)
  | dir (entries : List (Name × Node)) (access : Access)
      (proper : ∀ e ∈ entries, properName e.1 = true)
      (below : ∀ e ∈ entries, WellFormed e.2)
      (ascending : entries.Pairwise (fun a b => a.1 < b.1)) : WellFormed (.dir entries access)

theorem mem_putEntry {name : Name} {node : Node} {es : List (Name × Node)} {e : Name × Node}
    (h : e ∈ putEntry name node es) : e = (name, node) ∨ e ∈ es := by
  induction es with
  | nil => simpa [putEntry] using h
  | cons x es ih =>
    obtain ⟨n, old⟩ := x
    simp only [putEntry] at h
    split at h
    · rcases List.mem_cons.mp h with h | h
      · exact Or.inl h
      · exact Or.inr (List.mem_cons_of_mem _ h)
    · split at h
      · exact List.mem_cons.mp h
      · rcases List.mem_cons.mp h with h | h
        · exact Or.inr (h ▸ List.mem_cons_self)
        · rcases ih h with h | h
          · exact Or.inl h
          · exact Or.inr (List.mem_cons_of_mem _ h)

theorem putEntry_ascending (name : Name) (node : Node) {es : List (Name × Node)}
    (h : es.Pairwise (fun a b => a.1 < b.1)) :
    (putEntry name node es).Pairwise (fun a b => a.1 < b.1) := by
  induction es with
  | nil => simp [putEntry]
  | cons x es ih =>
    obtain ⟨n, old⟩ := x
    obtain ⟨hx, ht⟩ := List.pairwise_cons.mp h
    simp only [putEntry]
    split
    · rename_i heq
      exact List.pairwise_cons.mpr ⟨fun e he => heq ▸ hx e he, ht⟩
    · split
      · rename_i hlt
        refine List.pairwise_cons.mpr ⟨fun e he => ?_, h⟩
        rcases List.mem_cons.mp he with rfl | he
        · exact hlt
        · exact Std.lt_trans hlt (hx e he)
      · rename_i hne hlt
        refine List.pairwise_cons.mpr ⟨fun e he => ?_, ih ht⟩
        rcases mem_putEntry he with rfl | he
        · exact Std.lt_of_le_of_ne (List.not_lt.mp hlt) (Ne.symm hne)
        · exact hx e he

theorem dropEntry_sublist (name : Name) (es : List (Name × Node)) :
    (dropEntry name es).Sublist es := by
  induction es with
  | nil => simp [dropEntry]
  | cons x es ih =>
    obtain ⟨n, old⟩ := x
    simp only [dropEntry]
    split
    · exact List.sublist_cons_self _ _
    · exact ih.cons_cons _

theorem mem_of_child? {name : Name} {es : List (Name × Node)} {node : Node}
    (h : child? name es = some node) : (name, node) ∈ es := by
  induction es with
  | nil => simp [child?] at h
  | cons x es ih =>
    obtain ⟨n, old⟩ := x
    simp only [child?] at h
    split at h
    · rename_i heq
      simp only [Option.some.injEq] at h
      subst heq h
      exact List.mem_cons_self
    · exact List.mem_cons_of_mem _ (ih h)

namespace WellFormed

theorem child {name : Name} {node parent : Node} (h : parent.WellFormed)
    (he : child? name parent.entries = some node) : node.WellFormed := by
  cases h with
  | dir es access proper below ascending => exact below _ (mem_of_child? he)
  | file content access => simp [Node.entries, child?] at he
  | device kind => simp [Node.entries, child?] at he
  | link target written => simp [Node.entries, child?] at he

theorem put {name : Name} {node parent : Node} (h : parent.WellFormed)
    (hn : properName name = true) (hc : node.WellFormed) :
    (parent.mapEntries (putEntry name node)).WellFormed := by
  cases h with
  | dir es access proper below ascending =>
    refine .dir _ _ (fun e he => ?_) (fun e he => ?_) (putEntry_ascending name node ascending)
    · rcases mem_putEntry he with rfl | he
      · exact hn
      · exact proper e he
    · rcases mem_putEntry he with rfl | he
      · exact hc
      · exact below e he
  | file content access => exact .file content access
  | device kind => exact .device kind
  | link target written => exact .link target written

theorem drop {name : Name} {parent : Node} (h : parent.WellFormed) :
    (parent.mapEntries (dropEntry name)).WellFormed := by
  cases h with
  | dir es access proper below ascending =>
    have hs := dropEntry_sublist name es
    exact .dir _ _ (fun e he => proper e (hs.subset he)) (fun e he => below e (hs.subset he))
      (ascending.sublist hs)
  | file content access => exact .file content access
  | device kind => exact .device kind
  | link target written => exact .link target written

theorem modify {f : Node → Node} (hf : ∀ n : Node, n.WellFormed → (f n).WellFormed)
    (loc : Location) {node : Node} (h : node.WellFormed) : (node.modify f loc).WellFormed := by
  induction loc generalizing node with
  | nil => exact hf node h
  | cons name rest ih =>
    simp only [Node.modify]
    split
    · rename_i child he
      have hname : properName name = true := by
        cases h with
        | dir es access proper below ascending => exact proper _ (mem_of_child? he)
        | file content access => simp [Node.entries, child?] at he
        | device kind => simp [Node.entries, child?] at he
        | link target written => simp [Node.entries, child?] at he
      exact h.put hname (ih (h.child he))
    · exact h

end WellFormed

def setAccess (access : Access) : Node → Node
  | .file content _ => .file content access
  | .dir es _ => .dir es access
  | node => node

theorem WellFormed.setAccess (access : Access) {node : Node} (h : node.WellFormed) :
    (node.setAccess access).WellFormed := by
  cases h with
  | file content a => exact .file content access
  | device kind => exact .device kind
  | link target written => exact .link target written
  | dir es a proper below ascending => exact .dir es access proper below ascending

end Node

structure FileSystem where
  root : Node
  wellFormed : root.WellFormed

namespace FileSystem

def empty : FileSystem := ⟨.dir [] .full, .dir _ _ (by simp) (by simp) .nil⟩

def get? (fs : FileSystem) (loc : Location) : Option Node := fs.root.get? loc

/-- The state with `name` in directory `dir` standing for a file, a link or an empty directory. -/
def put (fs : FileSystem) (dir : Location) (name : Name) (node : Node) (h : node.WellFormed) :
    FileSystem :=
  if hn : properName name = true then
    ⟨fs.root.modify (Node.mapEntries (Node.putEntry name node)) dir,
      .modify (fun _ hw => hw.put hn h) dir fs.wellFormed⟩
  else fs

def putFile (fs : FileSystem) (dir : Location) (name : Name) (content : Bytes) : FileSystem :=
  fs.put dir name (.file content .full) (.file content .full)

/-- The state with a link at `name` in directory `dir`; no link can have a zero byte. -/
def putLink (fs : FileSystem) (dir : Location) (name : Name) (target : Bytes) : FileSystem :=
  if h : target.contains 0 = false then fs.put dir name (.link target) (.link target h) else fs

def putDevice (fs : FileSystem) (dir : Location) (name : Name) (kind : Device) : FileSystem :=
  fs.put dir name (.device kind) (.device kind)

def putDir (fs : FileSystem) (dir : Location) (name : Name) : FileSystem :=
  fs.put dir name Node.emptyDir (.dir _ _ (by simp) (by simp) .nil)

/-- The state without the entry `name` of directory `dir` and everything below it. -/
def drop (fs : FileSystem) (dir : Location) (name : Name) : FileSystem :=
  ⟨fs.root.modify (Node.mapEntries (Node.dropEntry name)) dir,
    .modify (fun _ hw => hw.drop) dir fs.wellFormed⟩

def setAccess (fs : FileSystem) (loc : Location) (access : Access) : FileSystem :=
  ⟨fs.root.modify (Node.setAccess access) loc,
    .modify (fun _ hw => hw.setAccess access) loc fs.wellFormed⟩

end FileSystem

end DartReach
