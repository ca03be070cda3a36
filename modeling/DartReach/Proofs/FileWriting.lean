import DartReach.Proofs.PathFollowing
import DartReach.Proofs.PathNormalForm
import DartReach.Proofs.TreeShape

/-!
# A file that was written is found again

A step along a path depends on what stands at a place: a directory, a link, or something else. Writing a
file changes this at one place only, the end of the path, where there was a file before or nothing. So the
same path leads to the same place afterwards, through the same links, and finds what was written.
-/

namespace DartReach

set_option autoImplicit false

theorem Bytes.mem_of_mem_split {sep b : UInt8} {p s : Bytes} (hs : s ∈ Bytes.split sep p) (hb : b ∈ s) :
    b ∈ p := by
  induction p generalizing s with
  | nil =>
    rw [Bytes.split, List.mem_singleton] at hs
    rw [hs] at hb
    exact hb
  | cons first rest ih =>
    rw [Bytes.split] at hs
    split at hs
    · rcases List.mem_cons.mp hs with rfl | hs
      · cases hb
      · exact List.mem_cons_of_mem _ (ih hs hb)
    · split at hs
      · rename_i hnil
        exact absurd hnil (Bytes.split_ne_nil sep rest)
      · rename_i piece pieces hsplit
        rcases List.mem_cons.mp hs with rfl | hs
        · rcases List.mem_cons.mp hb with rfl | hb
          · exact List.mem_cons_self
          · apply List.mem_cons_of_mem
            exact ih (by rw [hsplit]; exact List.mem_cons_self) hb
        · apply List.mem_cons_of_mem
          exact ih (by rw [hsplit]; exact List.mem_cons_of_mem _ hs) hb

namespace Node

/-- What following a path can tell of a node. -/
inductive Face where
  | file
  | device
  | link (target : Bytes)
  | dir (access : Access)

def face : Node → Face
  | .file _ _ => .file
  | .device _ => .device
  | .link target => .link target
  | .dir _ access => .dir access

theorem face_mapEntries (f : List (Name × Node) → List (Name × Node)) (node : Node) :
    (node.mapEntries f).face = node.face := by
  cases node <;> rfl

/-- A node without what lies below it. -/
def own : Node → Node
  | .dir _ access => .dir [] access
  | node => node

theorem own_mapEntries (f : List (Name × Node) → List (Name × Node)) (node : Node) :
    (node.mapEntries f).own = node.own := by
  cases node <;> rfl

theorem isDir_own (node : Node) : node.own.isDir = node.isDir := by
  cases node <;> rfl

/-- Nothing lies below a file. -/
theorem get?_cons_of_file {node : Node} (h : node.face = .file) (name : Name) (rest : Location) :
    node.get? (name :: rest) = none := by
  cases node with
  | file content access => simp [get?_cons, entries, child?]
  | device kind => cases h
  | link target => cases h
  | dir es access => cases h

theorem isLink_of_file {node : Node} (h : node.face = .file) : node.isLink = false := by
  cases node with
  | link target => cases h
  | file content access => rfl
  | device kind => rfl
  | dir entries access => rfl

theorem child?_putEntry_self (name : Name) (node : Node) (es : List (Name × Node)) :
    child? name (putEntry name node es) = some node := by
  induction es with
  | nil => simp [putEntry, child?]
  | cons e es ih =>
    obtain ⟨n, old⟩ := e
    simp only [putEntry]
    split
    · simp [child?]
    · rename_i hne
      split
      · simp [child?]
      · rw [child?, if_neg (Ne.symm hne), ih]

theorem child?_putEntry_of_ne {name other : Name} (h : other ≠ name) (node : Node)
    (es : List (Name × Node)) : child? other (putEntry name node es) = child? other es := by
  induction es with
  | nil => simp [putEntry, child?, h.symm]
  | cons e es ih =>
    obtain ⟨n, old⟩ := e
    simp only [putEntry]
    split
    · rename_i heq
      subst heq
      simp [child?, h.symm]
    · split
      · simp [child?, h.symm]
      · rw [child?, child?, ih]

theorem child?_mapEntries_self {name : Name} {parent child : Node} (node : Node)
    (h : child? name parent.entries = some child) :
    child? name (parent.mapEntries (putEntry name node)).entries = some node := by
  cases parent with
  | dir es access => exact child?_putEntry_self name node es
  | file content access => simp [entries, child?] at h
  | device kind => simp [entries, child?] at h
  | link target => simp [entries, child?] at h

theorem child?_mapEntries_of_ne {name other : Name} (h : other ≠ name) (parent node : Node) :
    child? other (parent.mapEntries (putEntry name node)).entries = child? other parent.entries := by
  cases parent with
  | dir es access => exact child?_putEntry_of_ne h node es
  | file content access => rfl
  | device kind => rfl
  | link target => rfl

theorem get?_modify {f : Node → Node} {loc : Location} {node below : Node}
    (h : node.get? loc = some below) : (node.modify f loc).get? loc = some (f below) := by
  induction loc generalizing node with
  | nil =>
    rw [get?_nil, Option.some.injEq] at h
    rw [modify, get?_nil, h]
  | cons name rest ih =>
    rw [get?_cons, Option.bind_eq_some_iff] at h
    obtain ⟨child, hchild, hrest⟩ := h
    rw [modify, hchild, get?_cons]
    dsimp only
    rw [child?_mapEntries_self _ hchild, Option.bind_some]
    exact ih hrest

theorem get?_concat {root : Node} {loc : Location} {es : List (Name × Node)} {access : Access}
    (h : root.get? loc = some (.dir es access)) (name : Name) :
    root.get? (loc ++ [name]) = child? name es := by
  rw [get?_append, h, Option.bind_some, get?_cons]
  cases hchild : child? name es with
  | none => simp [entries, hchild]
  | some child => simp [entries, hchild]

/--
A new entry is seen by no path that does not go through it, as far as `view` sees of a node nothing of
what lies below.
-/
theorem map_get?_modify {β : Type} {view : Node → β}
    (hview : ∀ f node, view (mapEntries f node) = view node) {dir loc : Location} {name : Name}
    (h : ¬ dir ++ [name] <+: loc) (node new : Node) :
    ((node.modify (mapEntries (putEntry name new)) dir).get? loc).map view
      = (node.get? loc).map view := by
  induction dir generalizing node loc with
  | nil =>
    rw [modify]
    cases loc with
    | nil => simp [hview]
    | cons other rest =>
      have hne : other ≠ name := by
        intro heq
        apply h
        simp [heq]
      rw [get?_cons, get?_cons, child?_mapEntries_of_ne hne]
  | cons first dir ih =>
    rw [modify]
    split
    · rename_i child hchild
      cases loc with
      | nil => simp [hview]
      | cons other rest =>
        rw [get?_cons, get?_cons]
        by_cases heq : other = first
        · subst heq
          rw [child?_mapEntries_self _ hchild, hchild, Option.bind_some, Option.bind_some]
          apply ih
          intro hprefix
          apply h
          simpa using hprefix
        · rw [child?_mapEntries_of_ne heq]
    · rfl

theorem putEntry_putEntry (name : Name) (first second : Node) (es : List (Name × Node)) :
    putEntry name second (putEntry name first es) = putEntry name second es := by
  induction es with
  | nil => simp [putEntry]
  | cons e es ih =>
    obtain ⟨n, old⟩ := e
    by_cases heq : name = n
    · simp [putEntry, heq]
    · by_cases hlt : name < n
      · simp [putEntry, heq, hlt]
      · simp [putEntry, heq, hlt, ih]

theorem mapEntries_putEntry (name : Name) (first second node : Node) :
    (node.mapEntries (putEntry name first)).mapEntries (putEntry name second)
      = node.mapEntries (putEntry name second) := by
  cases node with
  | dir es access => rw [mapEntries, mapEntries, mapEntries, putEntry_putEntry]
  | file content access => rfl
  | device kind => rfl
  | link target => rfl

theorem modify_modify {f g k : Node → Node} (h : ∀ node, g (f node) = k node) (loc : Location)
    (node : Node) : (node.modify f loc).modify g loc = node.modify k loc := by
  induction loc generalizing node with
  | nil => exact h node
  | cons name rest ih =>
    cases hchild : child? name node.entries with
    | none => simp only [modify, hchild]
    | some child =>
      have hfirst : node.modify f (name :: rest)
          = node.mapEntries (putEntry name (child.modify f rest)) := by
        rw [modify, hchild]
      have hlast : node.modify k (name :: rest)
          = node.mapEntries (putEntry name (child.modify k rest)) := by
        rw [modify, hchild]
      rw [hfirst, hlast, modify, child?_mapEntries_self _ hchild]
      dsimp only
      rw [mapEntries_putEntry, ih]

end Node

namespace FileSystem

open Node (face)

/-- Places where a file can be written: the end of a path, free or a file. -/
inductive IsSlot (target : Location) : Spot → Prop where
  | vacant (dir : Location) (name : Name) (h : dir ++ [name] = target) :
      IsSlot target (.vacant dir name false)
  | taken (content : Bytes) (access : Access) :
      IsSlot target (.taken target (.file content access) false)

theorem IsSlot.not_directory {target : Location} {spot : Spot} (h : IsSlot target spot) :
    Spot.directory spot = false := by
  cases h <;> rfl

/-- Names as they stand between the slashes of a path. -/
def Written (name : Name) : Prop := name ≠ [] ∧ Bytes.slash ∉ name ∧ 0 ∉ name

theorem written_of_mem_ofPath {path : Bytes} (h : path.contains 0 = false) {name : Name}
    (hname : name ∈ (Route.ofPath path).names) : Written name := by
  obtain ⟨hseg, hne⟩ := List.mem_filter.mp hname
  refine ⟨by simpa using hne, Path.slash_not_mem_segments hseg, ?_⟩
  intro hzero
  have hmem := Bytes.mem_of_mem_split hseg hzero
  simp [hmem] at h

theorem properName_of_written {name : Name} (h : Written name) (hhere : name ≠ Path.here)
    (hup : name ≠ Path.up) : properName name = true := by
  obtain ⟨hne, hslash, hzero⟩ := h
  simp [properName, hne, hslash, hzero, hhere, hup]

theorem Leads.properName {root : Node} (hroot : root.WellFormed) {last : Bool} {links : Nat}
    {here : Location} {route : Route} {spot : Spot} (h : Leads root last links here route spot)
    (hnames : ∀ name ∈ route.names, Written name) {dir : Location} {name : Name} {directory : Bool}
    (hspot : spot = .vacant dir name directory) : DartReach.properName name = true := by
  induction h with
  | arrive found => cases hspot
  | stay opens further ih =>
    exact ih (fun n hn => hnames n (List.mem_cons_of_mem _ hn)) hspot
  | climb opens further ih =>
    exact ih (fun n hn => hnames n (List.mem_cons_of_mem _ hn)) hspot
  | free asks =>
    cases hspot
    exact properName_of_written (hnames _ List.mem_cons_self) asks.notHere asks.notUp
  | stop asks stays => cases hspot
  | jump asks goes known further ih =>
    apply ih _ hspot
    intro n hn
    rcases List.mem_append.mp hn with hn | hn
    · obtain ⟨entries, access, hget, haccess, hchild⟩ := asks.dir
      have hlink := (hroot.get? hget).1.child hchild
      cases hlink with
      | link target written => exact written_of_mem_ofPath written hn
    · exact hnames n (List.mem_cons_of_mem _ hn)
  | enter asks plain further ih =>
    exact ih (fun n hn => hnames n (List.mem_cons_of_mem _ hn)) hspot

theorem Leads.openDir {root : Node} {last : Bool} {links : Nat} {here : Location} {route : Route}
    {spot : Spot} (h : Leads root last links here route spot) {dir : Location} {name : Name}
    {directory : Bool} (hspot : spot = .vacant dir name directory) : Asks root dir name none := by
  induction h with
  | arrive found => cases hspot
  | stay opens further ih => exact ih hspot
  | climb opens further ih => exact ih hspot
  | free asks =>
    cases hspot
    exact asks
  | stop asks stays => cases hspot
  | jump asks goes known further ih => exact ih hspot
  | enter asks plain further ih => exact ih hspot

theorem Leads.get? {root : Node} {last : Bool} {links : Nat} {here : Location} {route : Route}
    {spot : Spot} (h : Leads root last links here route spot) {loc : Location} {node : Node}
    {directory : Bool} (hspot : spot = .taken loc node directory) : root.get? loc = some node := by
  induction h with
  | arrive found =>
    cases hspot
    exact found
  | stay opens further ih => exact ih hspot
  | climb opens further ih => exact ih hspot
  | free asks => cases hspot
  | stop asks stays =>
    cases hspot
    obtain ⟨entries, access, hget, _, hchild⟩ := asks.dir
    rw [Node.get?_concat hget, hchild]
  | jump asks goes known further ih => exact ih hspot
  | enter asks plain further ih => exact ih hspot

/-- A tree that has gained a file where there was a file before or nothing. -/
structure Gains (old new : Node) (target : Location) (file : Node) : Prop where
  isFile : file.face = .file
  before : ∀ node, old.get? target = some node → node.face = .file
  found : new.get? target = some file
  elsewhere : ∀ loc, ¬ target <+: loc → (new.get? loc).map face = (old.get? loc).map face

namespace Gains

variable {old new : Node} {target : Location} {file : Node}

/-- No directory lies at the new file or below it. -/
theorem not_prefix_of_dir (h : Gains old new target file) {loc : Location}
    {entries : List (Name × Node)} {access : Access} (hdir : old.get? loc = some (.dir entries access)) :
    ¬ target <+: loc := by
  rintro ⟨rest, rfl⟩
  rw [Node.get?_append, Option.bind_eq_some_iff] at hdir
  obtain ⟨node, hnode, hrest⟩ := hdir
  have hface := h.before node hnode
  cases rest with
  | nil =>
    rw [Node.get?_nil, Option.some.injEq] at hrest
    rw [hrest] at hface
    cases hface
  | cons name rest =>
    rw [Node.get?_cons_of_file hface] at hrest
    cases hrest

/-- Nothing lies below the new file, as before. -/
theorem get?_below (h : Gains old new target file) (name : Name) (rest : Location) :
    old.get? (target ++ name :: rest) = none ∧ new.get? (target ++ name :: rest) = none := by
  rw [Node.get?_append, Node.get?_append, h.found, Option.bind_some,
    Node.get?_cons_of_file h.isFile]
  refine ⟨?_, rfl⟩
  cases hnode : old.get? target with
  | none => rfl
  | some node => exact Node.get?_cons_of_file (h.before node hnode) name rest

theorem dir (h : Gains old new target file) {loc : Location} {entries : List (Name × Node)}
    {access : Access} (hdir : old.get? loc = some (.dir entries access)) :
    ∃ entries', new.get? loc = some (.dir entries' access) := by
  have hface := h.elsewhere loc (h.not_prefix_of_dir hdir)
  rw [hdir, Option.map_some, Option.map_eq_some_iff] at hface
  obtain ⟨node, hnode, hface⟩ := hface
  cases node with
  | dir entries' access' =>
    cases hface
    exact ⟨entries', hnode⟩
  | file content access' => cases hface
  | device kind => cases hface
  | link target => cases hface

theorem opens (h : Gains old new target file) {loc : Location} (ho : Opens old loc) :
    Opens new loc := by
  obtain ⟨entries, access, hget, haccess⟩ := ho
  obtain ⟨entries', hget'⟩ := h.dir hget
  exact ⟨entries', access, hget', haccess⟩

theorem asks_target (h : Gains old new target file) {here : Location} {name : Name}
    {answer : Option Node} (ha : Asks old here name answer) (heq : here ++ [name] = target) :
    Asks new here name (some file) ∧ ∀ node ∈ answer, node.face = .file := by
  obtain ⟨entries, access, hget, haccess, hchild⟩ := ha.dir
  obtain ⟨entries', hget'⟩ := h.dir hget
  have hfound := h.found
  have hbefore := h.before
  rw [← heq, Node.get?_concat hget'] at hfound
  rw [← heq, Node.get?_concat hget] at hbefore
  refine ⟨⟨⟨entries', access, hget', haccess, hfound⟩, ha.notHere, ha.notUp, ha.short⟩, ?_⟩
  intro node hnode
  exact hbefore node (hchild.trans hnode)

/-- Away from the new file a directory answers as before, as far as following a path can tell. -/
theorem asks_elsewhere (h : Gains old new target file) {here : Location} {name : Name}
    {answer : Option Node} (ha : Asks old here name answer) (hne : here ++ [name] ≠ target) :
    ∃ answer', Asks new here name answer' ∧ answer'.map face = answer.map face := by
  obtain ⟨entries, access, hget, haccess, hchild⟩ := ha.dir
  obtain ⟨entries', hget'⟩ := h.dir hget
  have hsame := h.elsewhere (here ++ [name]) (by
    intro hprefix
    rcases List.prefix_concat_iff.mp hprefix with heq | hprefix
    · exact hne heq.symm
    · exact h.not_prefix_of_dir hget hprefix)
  rw [Node.get?_concat hget, Node.get?_concat hget', hchild] at hsame
  exact ⟨_, ⟨⟨entries', access, hget', haccess, rfl⟩, ha.notHere, ha.notUp, ha.short⟩, hsame⟩

/-- Every link is still there. -/
theorem asks_link (h : Gains old new target file) {here : Location} {name : Name} {link : Bytes}
    (ha : Asks old here name (some (.link link))) : Asks new here name (some (.link link)) := by
  by_cases heq : here ++ [name] = target
  · cases (h.asks_target ha heq).2 _ rfl
  · obtain ⟨answer, hasks, hface⟩ := h.asks_elsewhere ha heq
    obtain ⟨node, rfl, hlink⟩ := Option.map_eq_some_iff.mp hface
    cases node with
    | link link' =>
      cases hlink
      exact hasks
    | file content access => cases hlink
    | device kind => cases hlink
    | dir entries access => cases hlink

theorem asks_plain (h : Gains old new target file) {here : Location} {name : Name} {node : Node}
    (ha : Asks old here name (some node)) (hplain : node.isLink = false) :
    ∃ node', Asks new here name (some node') ∧ node'.isLink = false := by
  by_cases heq : here ++ [name] = target
  · exact ⟨file, (h.asks_target ha heq).1, Node.isLink_of_file h.isFile⟩
  · obtain ⟨answer, hasks, hface⟩ := h.asks_elsewhere ha heq
    obtain ⟨node', rfl, hsame⟩ := Option.map_eq_some_iff.mp hface
    refine ⟨node', hasks, ?_⟩
    cases node' with
    | link link =>
      cases node with
      | link link' => cases hplain
      | file content access => cases hsame
      | device kind => cases hsame
      | dir entries access => cases hsame
    | file content access => rfl
    | device kind => rfl
    | dir entries access => rfl

end Gains

theorem Leads.gains {old new : Node} {target : Location} {file : Node}
    (hg : Gains old new target file) {last : Bool} {links : Nat} {here : Location} {route : Route}
    {spot : Spot} (h : Leads old last links here route spot) (hslot : IsSlot target spot) :
    Leads new last links here route (.taken target file false) := by
  induction h with
  | arrive found =>
    cases hslot
    exact .arrive hg.found
  | stay opens further ih => exact .stay (hg.opens opens) (ih hslot)
  | climb opens further ih => exact .climb (hg.opens opens) (ih hslot)
  | @free links here name directory asks =>
    cases hslot with
    | vacant dir name heq =>
      have hfile : Leads new last links (here ++ [name]) ⟨[], false⟩ (.taken target file false) := by
        rw [heq]
        exact .arrive hg.found
      exact .enter (hg.asks_target asks heq).1 (Node.isLink_of_file hg.isFile) hfile
  | stop asks stays => cases hslot
  | jump asks goes known further ih => exact .jump (hg.asks_link asks) goes known (ih hslot)
  | enter asks plain further ih =>
    obtain ⟨node, hasks, hplain⟩ := hg.asks_plain asks plain
    exact .enter hasks hplain (ih hslot)

/-- A path to anything but the new file leads there as before, as far as `own` tells. -/
theorem Leads.gains_elsewhere {old new : Node} {target : Location} {file : Node}
    (hg : Gains old new target file)
    (hown : ∀ loc, loc ≠ target → (new.get? loc).map Node.own = (old.get? loc).map Node.own)
    {last : Bool} {links : Nat} {here : Location} {route : Route} {spot : Spot}
    (h : Leads old last links here route spot) {loc : Location} {node : Node} {directory : Bool}
    (hspot : spot = .taken loc node directory) (hne : loc ≠ target) :
    ∃ node', node'.own = node.own ∧ Leads new last links here route (.taken loc node' directory) := by
  induction h with
  | arrive found =>
    cases hspot
    have hsame := hown loc hne
    rw [found, Option.map_some, Option.map_eq_some_iff] at hsame
    obtain ⟨node', hget, hnode⟩ := hsame
    exact ⟨node', hnode, .arrive hget⟩
  | stay opens further ih =>
    obtain ⟨node', hnode, hleads⟩ := ih hspot
    exact ⟨node', hnode, .stay (hg.opens opens) hleads⟩
  | climb opens further ih =>
    obtain ⟨node', hnode, hleads⟩ := ih hspot
    exact ⟨node', hnode, .climb (hg.opens opens) hleads⟩
  | free asks => cases hspot
  | stop asks stays =>
    cases hspot
    exact ⟨_, rfl, .stop (hg.asks_link asks) stays⟩
  | jump asks goes known further ih =>
    obtain ⟨node', hnode, hleads⟩ := ih hspot
    exact ⟨node', hnode, .jump (hg.asks_link asks) goes known hleads⟩
  | enter asks plain further ih =>
    obtain ⟨node', hnode, hleads⟩ := ih hspot
    obtain ⟨next, hasks, hplain⟩ := hg.asks_plain asks plain
    exact ⟨node', hnode, .enter hasks hplain hleads⟩

theorem locate_eq_trace {fs : FileSystem} {start : Option Location} {last : Bool} {path : Bytes}
    {spot : Spot} (h : fs.locate start last path = .ok spot) :
    path.contains 0 = false ∧ ∃ here, ∀ (fs' : FileSystem) (last' : Bool),
      fs'.locate start last' path = trace fs'.root last' maxLinks here (Route.ofPath path) := by
  unfold locate at h
  split at h
  · cases h
  rename_i hzero
  split at h
  · cases h
  rename_i hempty
  split at h
  · cases h
  rename_i hlong
  refine ⟨by simpa using hzero, ?_⟩
  unfold locate
  split at h
  · rename_i habsolute
    refine ⟨[], fun fs' last' => ?_⟩
    rw [if_neg hzero, if_neg hempty, if_neg hlong, if_pos habsolute]
  · rename_i hrelative
    split at h
    · rename_i loc
      refine ⟨loc, fun fs' last' => ?_⟩
      rw [if_neg hzero, if_neg hempty, if_neg hlong, if_neg hrelative]
    · cases h

theorem locate_of_find {fs : FileSystem} {start : Option Location} {path : Bytes} {loc : Location}
    {node : Node} (h : fs.find start path = .ok (loc, node)) :
    ∃ directory, fs.locate start true path = .ok (.taken loc node directory) ∧
      ¬ (directory && !node.isDir) = true := by
  unfold find at h
  split at h
  · cases h
  · cases h
  rename_i hlocate
  split at h
  · cases h
  rename_i hkind
  cases h
  exact ⟨_, hlocate, hkind⟩

theorem isSlot_of_openForWriting {fs : FileSystem} {start : Option Location} {path : Bytes}
    {dir : Location} {name : Name} (h : fs.openForWriting start path = .ok (.file dir name)) :
    ∃ spot, fs.locate start (!(Route.ofPath path).directory) path = .ok spot ∧
      IsSlot (dir ++ [name]) spot := by
  unfold openForWriting at h
  split at h
  · cases h
  · rename_i loc free directory hlocate
    split at h
    · cases h
    rename_i hdirectory
    split at h
    · cases h
      rw [Bool.not_eq_true] at hdirectory
      rw [hdirectory] at hlocate
      exact ⟨_, hlocate, .vacant _ _ rfl⟩
    · cases h
  · rename_i loc node directory hlocate
    split at h
    · cases h
    rename_i hdirectory
    split at h
    · rename_i content last hlast
      cases h
      rw [Bool.not_eq_true] at hdirectory
      rw [hdirectory] at hlocate
      have hloc : loc.dropLast ++ [name] = loc := List.dropLast_append_getLast? name hlast
      rw [hloc]
      exact ⟨_, hlocate, .taken _ _⟩
    · cases h
    · cases h
    · cases h
    · cases h

theorem gains_putFile {fs : FileSystem} {dir : Location} {name : Name} {content : Bytes}
    {entries : List (Name × Node)} {access : Access} (hname : properName name = true)
    (hdir : fs.root.get? dir = some (.dir entries access))
    (hbefore : ∀ node, Node.child? name entries = some node → node.face = .file) :
    Gains fs.root (fs.putFile dir name content).root (dir ++ [name]) (.file content .full) := by
  have hroot : (fs.putFile dir name content).root
      = fs.root.modify (Node.mapEntries (Node.putEntry name (.file content .full))) dir := by
    rw [putFile, put, dif_pos hname]
  rw [hroot]
  refine ⟨rfl, ?_, ?_, fun loc hloc => Node.map_get?_modify Node.face_mapEntries hloc _ _⟩
  · intro node hnode
    rw [Node.get?_concat hdir] at hnode
    exact hbefore node hnode
  · have hget := Node.get?_modify (f := Node.mapEntries (Node.putEntry name (.file content .full))) hdir
    rw [Node.mapEntries] at hget
    rw [Node.get?_concat hget, Node.child?_putEntry_self]

/-- A place where a file can be written is a free name of a directory, or a file in one. -/
theorem gains_store {fs : FileSystem} {start : Option Location} {path : Bytes} {dir : Location}
    {name : Name} (h : fs.openForWriting start path = .ok (.file dir name)) (content : Bytes) :
    Gains fs.root (fs.store (.file dir name) content).root (dir ++ [name])
      (.file content .full) := by
  obtain ⟨spot, hlocate, hslot⟩ := isSlot_of_openForWriting h
  obtain ⟨hzero, here, hhere⟩ := locate_eq_trace hlocate
  rw [hhere] at hlocate
  have hleads := leads_of_trace hlocate
  cases hslot with
  | vacant dir' name' heq =>
    obtain ⟨rfl, hsame⟩ := List.append_inj' heq rfl
    obtain rfl := List.singleton_injective hsame
    obtain ⟨entries, access, hdir, _, hchild⟩ := (hleads.openDir rfl).dir
    refine gains_putFile ?_ hdir ?_
    · exact hleads.properName fs.wellFormed (fun n hn => written_of_mem_ofPath hzero hn) rfl
    · intro node hnode
      rw [hchild] at hnode
      cases hnode
  | taken before access =>
    have hget := hleads.get? rfl
    have hproper := (fs.wellFormed.get? hget).2 name (by simp)
    obtain ⟨parent, hparent, hchild⟩ := Option.bind_eq_some_iff.mp
      ((Node.get?_append fs.root dir [name]).symm.trans hget)
    cases parent with
    | dir entries access' =>
      refine gains_putFile hproper hparent ?_
      intro node hnode
      rw [← Node.get?_concat hparent, hget, Option.some.injEq] at hnode
      rw [← hnode]
      rfl
    | file content access' => simp [Node.get?_cons, Node.entries, Node.child?] at hchild
    | device kind => simp [Node.get?_cons, Node.entries, Node.child?] at hchild
    | link target => simp [Node.get?_cons, Node.entries, Node.child?] at hchild

/-- Afterwards the path of a file that was written leads to the file. -/
theorem locate_store {fs : FileSystem} {start : Option Location} {path : Bytes} {dir : Location}
    {name : Name} (h : fs.openForWriting start path = .ok (.file dir name)) (content : Bytes) :
    (Route.ofPath path).directory = false ∧
      (fs.store (.file dir name) content).locate start true path
        = .ok (.taken (dir ++ [name]) (.file content .full) false) := by
  obtain ⟨spot, hlocate, hslot⟩ := isSlot_of_openForWriting h
  obtain ⟨hzero, here, hhere⟩ := locate_eq_trace hlocate
  rw [hhere] at hlocate
  have hleads := leads_of_trace hlocate
  have hdirectory : (Route.ofPath path).directory = false := by
    by_contra hd
    have hspot := hleads.directory (by simpa using hd)
    rw [hslot.not_directory] at hspot
    cases hspot
  have htrace := trace_of_leads (hleads.gains (gains_store h content) hslot)
  rw [hdirectory] at htrace
  refine ⟨hdirectory, ?_⟩
  rw [hhere, show (true : Bool) = !false from rfl, htrace]

/-- A file that was opened for writing is found under the same path, with what was written. -/
theorem find_store {fs : FileSystem} {start : Option Location} {path : Bytes} {dir : Location}
    {name : Name} (h : fs.openForWriting start path = .ok (.file dir name)) (content : Bytes) :
    (fs.store (.file dir name) content).find start path
      = .ok (dir ++ [name], .file content .full) := by
  rw [find, (locate_store h content).2]
  rfl

/-- A slot that was written can be opened again. -/
theorem openForWriting_store {fs : FileSystem} {start : Option Location} {path : Bytes}
    {slot : Slot} (h : fs.openForWriting start path = .ok slot) (content : Bytes) :
    (fs.store slot content).openForWriting start path = .ok slot := by
  cases slot with
  | device kind => exact h
  | file dir name =>
    obtain ⟨hdirectory, hlocate⟩ := locate_store h content
    rw [openForWriting, hdirectory, Bool.not_false, hlocate]
    simp

/-- Writing a file changes no other entry. -/
theorem own_get?_store {fs : FileSystem} {start : Option Location} {path : Bytes} {dir : Location}
    {name : Name} (h : fs.openForWriting start path = .ok (.file dir name)) (content : Bytes)
    {loc : Location} (hne : loc ≠ dir ++ [name]) :
    ((fs.store (.file dir name) content).get? loc).map Node.own = (fs.get? loc).map Node.own := by
  by_cases hbelow : dir ++ [name] <+: loc
  · obtain ⟨rest, rfl⟩ := hbelow
    cases rest with
    | nil => exact absurd (List.append_nil _) hne
    | cons first rest =>
      obtain ⟨hold, hnew⟩ := (gains_store h content).get?_below first rest
      rw [FileSystem.get?, FileSystem.get?, hold, hnew]
  · rw [store, putFile, put]
    split
    · exact Node.map_get?_modify Node.own_mapEntries hbelow _ _
    · rfl

/-- A path to anything else finds it as before. -/
theorem find_store_elsewhere {fs : FileSystem} {start : Option Location} {path : Bytes}
    {dir : Location} {name : Name} (h : fs.openForWriting start path = .ok (.file dir name))
    (content : Bytes) {other : Bytes} {loc : Location} {node : Node}
    (hfind : fs.find start other = .ok (loc, node)) (hne : loc ≠ dir ++ [name]) :
    ∃ node', node'.own = node.own ∧
      (fs.store (.file dir name) content).find start other = .ok (loc, node') := by
  obtain ⟨directory, hlocate, hkind⟩ := locate_of_find hfind
  obtain ⟨_, here, hhere⟩ := locate_eq_trace hlocate
  rw [hhere] at hlocate
  obtain ⟨after, hown, hleads⟩ := (leads_of_trace hlocate).gains_elsewhere (gains_store h content)
    (fun _ => own_get?_store h content) rfl hne
  have hdir : after.isDir = node.isDir := by
    rw [← Node.isDir_own, hown, Node.isDir_own]
  refine ⟨after, hown, ?_⟩
  rw [find, hhere, trace_of_leads hleads]
  dsimp only
  rw [hdir, if_neg hkind]

/-- There is nothing at a free name. -/
theorem get?_of_vacant {fs : FileSystem} {start : Option Location} {last : Bool} {path : Bytes}
    {dir : Location} {name : Name} {directory : Bool}
    (h : fs.locate start last path = .ok (.vacant dir name directory)) :
    fs.get? (dir ++ [name]) = none := by
  obtain ⟨_, here, hhere⟩ := locate_eq_trace h
  rw [hhere] at h
  obtain ⟨entries, access, hget, _, hchild⟩ := ((leads_of_trace h).openDir rfl).dir
  rw [get?, Node.get?_concat hget, hchild]

/-- Where a path finds nothing, a file can be written only to a free name. -/
theorem vacant_of_open {fs : FileSystem} {start : Option Location} {path : Bytes} {dir : Location}
    {name : Name} (h : fs.openForWriting start path = .ok (.file dir name))
    (hnone : ∀ loc node, fs.find start path ≠ .ok (loc, node)) :
    fs.locate start true path = .ok (.vacant dir name false) := by
  obtain ⟨spot, hlocate, hslot⟩ := isSlot_of_openForWriting h
  rw [(locate_store h []).1, Bool.not_false] at hlocate
  cases hslot with
  | taken old access =>
    apply absurd _ (hnone (dir ++ [name]) (.file old access))
    rw [find, hlocate]
    rfl
  | vacant dir' name' heq =>
    obtain ⟨rfl, hsame⟩ := List.append_inj' heq rfl
    rw [hlocate, List.singleton_injective hsame]

/-- What a path finds is a node of the tree. -/
theorem get?_of_find {fs : FileSystem} {start : Option Location} {path : Bytes} {loc : Location}
    {node : Node} (h : fs.find start path = .ok (loc, node)) : fs.get? loc = some node := by
  obtain ⟨directory, hlocate, _⟩ := locate_of_find h
  obtain ⟨_, here, hhere⟩ := locate_eq_trace hlocate
  rw [hhere] at hlocate
  exact (leads_of_trace hlocate).get? rfl

/-- Of two writes to a slot the last counts. -/
theorem store_store (fs : FileSystem) (slot : Slot) (first second : Bytes) :
    (fs.store slot first).store slot second = fs.store slot second := by
  cases slot with
  | device kind => rfl
  | file dir name =>
    simp only [store, putFile, put]
    by_cases hname : properName name = true
    · simp only [hname, dif_pos]
      congr 1
      exact Node.modify_modify (Node.mapEntries_putEntry name _ _) dir fs.root
    · simp only [hname, dif_neg, not_false_eq_true, Bool.false_eq_true]

theorem find_of_open_device {fs : FileSystem} {start : Option Location} {path : Bytes} {kind : Device}
    (h : fs.openForWriting start path = .ok (.device kind)) :
    ∃ loc, fs.find start path = .ok (loc, .device kind) := by
  unfold openForWriting at h
  split at h
  · cases h
  · split at h
    · cases h
    split at h
    · cases h
    · cases h
  · rename_i loc node directory hlocate
    split at h
    · cases h
    rename_i hspot
    rw [Bool.not_eq_true] at hspot
    have hroute : (Route.ofPath path).directory = false := by
      obtain ⟨_, here, hhere⟩ := locate_eq_trace hlocate
      rw [hhere] at hlocate
      by_contra hd
      have hsame := (leads_of_trace hlocate).directory (by simpa using hd)
      rw [Spot.directory, hspot] at hsame
      cases hsame
    split at h
    · cases h
    · cases h
    · cases h
      rw [hroute] at hlocate
      refine ⟨loc, ?_⟩
      rw [find, show (true : Bool) = !false from rfl, hlocate]
      simp [hspot]
    · cases h
    · cases h

end FileSystem

/-- Two hosts that differ in nothing but the entry at one place. -/
structure Host.SameBut (place : Location) (host host' : Host) : Prop where
  workingDir : host'.workingDir = host.workingDir
  env : host'.env = host.env
  media : host'.media = host.media
  entries : ∀ loc, loc ≠ place →
    (host'.files.get? loc).map Node.own = (host.files.get? loc).map Node.own

/-! ### Media -/

namespace Medium

variable {m : Medium} {content : Bytes}

/-- A content that was written without a fault is stored whole. -/
theorem kept_of_sound (h : m.fault? content = none) : m.kept content = content := by
  unfold fault? at h
  unfold kept
  split
  · rfl
  · rename_i room cause hlimit
    rw [hlimit] at h
    dsimp only at h
    split at h
    · cases h
    · rename_i hle
      exact List.take_of_length_le (by omega)

theorem fault?_ne_none {cause : Cause} (h : m.closing? = some cause) (content : Bytes) :
    m.fault? content ≠ none := by
  unfold fault?
  rw [h]
  split
  · simp
  · split
    · simp
    · simp

/-- A fault is that of a write that finds too little room, or that of closing the whole file. -/
theorem fault?_cases {fault : Call × Cause} (h : m.fault? content = some fault) :
    (∃ room cause, m.limit? = some (room, cause) ∧ room < content.length ∧ fault = (.write, cause) ∧
        m.kept content = content.take room) ∨
      ∃ cause, m.closing? = some cause ∧ fault = (.close, cause) ∧ m.kept content = content := by
  unfold fault? at h
  unfold kept
  split at h
  · rename_i hlimit
    obtain ⟨cause, hclosing, rfl⟩ := Option.map_eq_some_iff.mp h
    rw [hlimit]
    exact .inr ⟨cause, hclosing, rfl, rfl⟩
  · rename_i room cause hlimit
    rw [hlimit]
    split at h
    · rename_i hlt
      cases h
      exact .inl ⟨room, cause, rfl, hlt, rfl, rfl⟩
    · rename_i hle
      obtain ⟨closing, hclosing, rfl⟩ := Option.map_eq_some_iff.mp h
      exact .inr ⟨closing, hclosing, rfl, List.take_of_length_le (by omega)⟩

end Medium

namespace Host

variable {host host' : Host} {path content : Bytes} {slot : Slot}

theorem create_eq_ok_iff {opened : Host} :
    host.create path = .ok (slot, opened) ↔
      host.files.openForWriting host.workingDir path = .ok slot ∧
        opened = { host with files := host.files.store slot [] } := by
  unfold create
  cases host.files.openForWriting host.workingDir path with
  | error cause => simp
  | ok slot' =>
    rw [Except.ok.injEq, Except.ok.injEq, Prod.mk.injEq]
    constructor
    · rintro ⟨rfl, rfl⟩
      exact ⟨rfl, rfl⟩
    · rintro ⟨rfl, rfl⟩
      exact ⟨rfl, rfl⟩

/-- Opening empties the file, which the content replaces anyway. -/
theorem fill_of_create {opened : Host} (h : host.create path = .ok (slot, opened)) (content : Bytes) :
    opened.fill slot content = host.fill slot content := by
  obtain ⟨_, rfl⟩ := create_eq_ok_iff.mp h
  unfold fill
  rw [FileSystem.store_store]
  rfl

theorem medium_of_create {opened : Host} (h : host.create path = .ok (slot, opened)) :
    opened.medium slot = host.medium slot := by
  obtain ⟨_, rfl⟩ := create_eq_ok_iff.mp h
  rfl

/-- All that writing a file can come to. -/
theorem writeFile_cases (host : Host) (path content : Bytes) :
    (∃ cause, host.files.openForWriting host.workingDir path = .error cause ∧
        host.writeFile path content = (host, .error ⟨.open, path, cause⟩)) ∨
      ∃ slot, host.files.openForWriting host.workingDir path = .ok slot ∧
        (host.writeFile path content).1 = host.fill slot content ∧
        (host.writeFile path content).2 =
          match (host.medium slot).fault? content with
          | some (call, cause) => .error ⟨call, path, cause⟩
          | none => .ok () := by
  cases hopen : host.files.openForWriting host.workingDir path with
  | error cause =>
    left
    refine ⟨cause, rfl, ?_⟩
    simp only [writeFile, create, hopen]
  | ok slot =>
    right
    have hcreate : host.create path = .ok (slot, _) := create_eq_ok_iff.mpr ⟨hopen, rfl⟩
    refine ⟨slot, rfl, ?_, ?_⟩
    · rw [writeFile, hcreate]
      exact fill_of_create hcreate content
    · rw [writeFile, hcreate]
      rfl

/-- A write that succeeds has filled the slot with the whole content. -/
theorem writeFile_ok (h : host.writeFile path content = (host', .ok ())) :
    ∃ slot, host.files.openForWriting host.workingDir path = .ok slot ∧
      host' = { host with files := host.files.store slot content } := by
  rcases host.writeFile_cases path content with ⟨cause, _, hwrite⟩ | ⟨slot, hopen, hhost, hresult⟩
  · rw [h] at hwrite
    cases hwrite
  · rw [h] at hhost hresult
    cases hfault : (host.medium slot).fault? content with
    | some fault =>
      rw [hfault] at hresult
      cases hresult
    | none =>
      refine ⟨slot, hopen, hhost.trans ?_⟩
      rw [fill, Medium.kept_of_sound hfault]

/-- What was written to a path is read from it, unless a device is there. -/
theorem read_writeFile (h : host.writeFile path content = (host', .ok ()))
    (hfile : ∀ kind, host.stat path ≠ .ok (.device kind)) : host'.read path = .ok content := by
  obtain ⟨slot, hopen, rfl⟩ := writeFile_ok h
  cases slot with
  | device kind =>
    obtain ⟨loc, hfind⟩ := FileSystem.find_of_open_device hopen
    refine absurd ?_ (hfile kind)
    rw [stat, find, hfind]
  | file dir name => simp [read, find, FileSystem.find_store hopen]

end Host

end DartReach
