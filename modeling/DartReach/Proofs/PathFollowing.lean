import DartReach.Files.Lookup

/-!
# Following a path as a relation

Following a path relates a route to the place it leads to, with one rule for each kind of step. The
relation holds exactly where the search succeeds, and facts about all paths are proved along its rules.
-/

namespace DartReach.FileSystem

set_option autoImplicit false

/-- A directory whose entries can be looked up. -/
def Opens (root : Node) (here : Location) : Prop :=
  ∃ entries access, root.get? here = some (.dir entries access) ∧ access ≠ .none

/-- The answer a directory on the way gives to a name. -/
structure Asks (root : Node) (here : Location) (name : Name) (answer : Option Node) : Prop where
  dir : ∃ entries access, root.get? here = some (.dir entries access) ∧ access ≠ .none ∧
    Node.child? name entries = answer
  notHere : name ≠ Path.here
  notUp : name ≠ Path.up
  short : name.length ≤ maxName

/-- Where a route leads from a directory, with at most `links` links on the way. -/
inductive Leads (root : Node) (last : Bool) : (links : Nat) → Location → Route → Spot → Prop where
  | arrive {links : Nat} {here : Location} {directory : Bool} {node : Node}
      (found : root.get? here = some node) :
      Leads root last links here ⟨[], directory⟩ (.taken here node directory)
  | stay {links : Nat} {here : Location} {rest : List Name} {directory : Bool} {spot : Spot}
      (opens : Opens root here) (further : Leads root last links here ⟨rest, directory⟩ spot) :
      Leads root last links here ⟨Path.here :: rest, directory⟩ spot
  | climb {links : Nat} {here : Location} {rest : List Name} {directory : Bool} {spot : Spot}
      (opens : Opens root here) (further : Leads root last links here.dropLast ⟨rest, directory⟩ spot) :
      Leads root last links here ⟨Path.up :: rest, directory⟩ spot
  | free {links : Nat} {here : Location} {name : Name} {directory : Bool}
      (asks : Asks root here name none) :
      Leads root last links here ⟨[name], directory⟩ (.vacant here name directory)
  /-- A link at the end that is not to be followed. -/
  | stop {links : Nat} {here : Location} {name : Name} {target : Bytes}
      (asks : Asks root here name (some (.link target))) (stays : last = false) :
      Leads root last links here ⟨[name], false⟩ (.taken (here ++ [name]) (.link target) false)
  | jump {links : Nat} {here : Location} {name : Name} {rest : List Name} {directory : Bool}
      {target : Bytes} {spot : Spot} (asks : Asks root here name (some (.link target)))
      (goes : rest = [] → directory = false → last = true) (known : target ≠ [])
      (further : Leads root last links (if Path.isAbsolute target then [] else here)
        ⟨(Route.ofPath target).names ++ rest,
          directory || (rest.isEmpty && (Route.ofPath target).directory)⟩ spot) :
      Leads root last (links + 1) here ⟨name :: rest, directory⟩ spot
  | enter {links : Nat} {here : Location} {name : Name} {rest : List Name} {directory : Bool}
      {node : Node} {spot : Spot} (asks : Asks root here name (some node))
      (plain : node.isLink = false)
      (further : Leads root last links (here ++ [name]) ⟨rest, directory⟩ spot) :
      Leads root last links here ⟨name :: rest, directory⟩ spot

theorem leads_of_follow {root : Node} {last : Bool} {links : Nat}
    {jump : Location → Route → Except Cause Spot}
    (hjump : ∀ loc route spot, jump loc route = .ok spot →
      ∃ fewer, links = fewer + 1 ∧ Leads root last fewer loc route spot)
    {directory : Bool} {here : Location} {names : List Name} {spot : Spot}
    (h : follow root jump last directory here names = .ok spot) :
    Leads root last links here ⟨names, directory⟩ spot := by
  induction names generalizing here with
  | nil =>
    rw [follow] at h
    split at h
    · rename_i node hget
      cases h
      exact .arrive hget
    · cases h
  | cons name rest ih =>
    rw [follow] at h
    split at h
    · cases h
    · rename_i entries access hget
      split at h
      · cases h
      rename_i haccess
      split at h
      · rename_i hname
        rw [hname]
        exact .stay ⟨entries, access, hget, haccess⟩ (ih h)
      rename_i hhere
      split at h
      · rename_i hname
        rw [hname]
        exact .climb ⟨entries, access, hget, haccess⟩ (ih h)
      rename_i hup
      split at h
      · cases h
      rename_i hlong
      have hasks : ∀ answer, Node.child? name entries = answer → Asks root here name answer :=
        fun answer hanswer =>
          ⟨⟨entries, access, hget, haccess, hanswer⟩, hhere, hup, Nat.le_of_not_lt hlong⟩
      split at h
      · rename_i hchild
        split at h
        · rename_i hrest
          cases h
          rw [List.isEmpty_iff.mp hrest]
          exact .free (hasks _ hchild)
        · cases h
      · rename_i target hchild
        split at h
        · rename_i hend
          simp only [Bool.and_eq_true, Bool.not_eq_true', List.isEmpty_iff] at hend
          obtain ⟨⟨hrest, hdir⟩, hlast⟩ := hend
          cases h
          rw [hrest, hdir]
          exact .stop (hasks _ hchild) hlast
        rename_i hend
        split at h
        · cases h
        rename_i hempty
        obtain ⟨fewer, rfl, hleads⟩ := hjump _ _ _ h
        refine .jump (hasks _ hchild) ?_ (by simpa using hempty) hleads
        intro hrest hdir
        simpa [hrest, hdir] using hend
      · rename_i node hlink hchild
        refine .enter (hasks _ hchild) ?_ (ih h)
        cases node with
        | link target => exact absurd rfl (hlink target)
        | file content access => rfl
        | device kind => rfl
        | dir entries access => rfl
    · cases h

theorem leads_of_trace {root : Node} {last : Bool} {links : Nat} {here : Location} {route : Route}
    {spot : Spot} (h : trace root last links here route = .ok spot) :
    Leads root last links here route spot := by
  induction links generalizing here route spot with
  | zero =>
    rw [trace] at h
    refine leads_of_follow ?_ h
    intro loc route spot hjump
    cases hjump
  | succ links ih =>
    rw [trace] at h
    refine leads_of_follow ?_ h
    intro loc route spot hjump
    exact ⟨links, rfl, ih hjump⟩

theorem follow_cons_of_asks {root : Node} {here : Location} {name : Name} {answer : Option Node}
    (jump : Location → Route → Except Cause Spot) (last directory : Bool) (rest : List Name) :
    Asks root here name answer →
    follow root jump last directory here (name :: rest)
      = match answer with
        | none => if rest.isEmpty then .ok (.vacant here name directory) else .error .notFound
        | some (.link target) =>
          if rest.isEmpty && !directory && !last then
            .ok (.taken (here ++ [name]) (.link target) directory)
          else if target.isEmpty then .error .notFound
          else
            jump (if Path.isAbsolute target then [] else here)
              ⟨(Route.ofPath target).names ++ rest,
                directory || (rest.isEmpty && (Route.ofPath target).directory)⟩
        | some _ => follow root jump last directory (here ++ [name]) rest := by
  intro ha
  obtain ⟨entries, access, hget, haccess, rfl⟩ := ha.dir
  rw [follow, hget]
  dsimp only
  rw [if_neg haccess, if_neg ha.notHere, if_neg ha.notUp]
  exact if_neg (Nat.not_lt.mpr ha.short)

theorem trace_of_leads {root : Node} {last : Bool} {links : Nat} {here : Location} {route : Route}
    {spot : Spot} (h : Leads root last links here route spot) :
    trace root last links here route = .ok spot := by
  induction h with
  | @arrive links here directory node found => cases links <;> simp only [trace, follow, found]
  | @stay links here rest directory spot opens further ih =>
    obtain ⟨entries, access, hget, haccess⟩ := opens
    cases links <;> simpa only [trace, follow, hget, if_neg haccess, if_true] using ih
  | @climb links here rest directory spot opens further ih =>
    obtain ⟨entries, access, hget, haccess⟩ := opens
    have hne : Path.up ≠ Path.here := by decide
    cases links <;> simpa only [trace, follow, hget, if_neg haccess, if_neg hne, if_true] using ih
  | @free links here name directory asks =>
    cases links <;> simp [trace, follow_cons_of_asks _ _ _ _ asks]
  | @stop links here name target asks stays =>
    cases links <;> simp [trace, follow_cons_of_asks _ _ _ _ asks, stays]
  | @jump links here name rest directory target spot asks goes known further ih =>
    have hend : ¬ (rest.isEmpty && !directory && !last) = true := by
      simp only [Bool.and_eq_true, Bool.not_eq_true', List.isEmpty_iff]
      rintro ⟨⟨hrest, hdir⟩, hlast⟩
      rw [goes hrest hdir] at hlast
      cases hlast
    have hempty : ¬ target.isEmpty = true := by simpa using known
    rw [trace, follow_cons_of_asks _ _ _ _ asks]
    dsimp only
    rw [if_neg hend, if_neg hempty]
    exact ih
  | @enter links here name rest directory node spot asks plain further ih =>
    cases node with
    | link target => cases plain
    | file content access => cases links <;> simpa only [trace, follow_cons_of_asks _ _ _ _ asks] using ih
    | device kind => cases links <;> simpa only [trace, follow_cons_of_asks _ _ _ _ asks] using ih
    | dir entries access => cases links <;> simpa only [trace, follow_cons_of_asks _ _ _ _ asks] using ih

def Spot.directory : Spot → Bool
  | .taken _ _ directory => directory
  | .vacant _ _ directory => directory

/-- A slash at the end of a path is not forgotten on the way. -/
theorem Leads.directory {root : Node} {last : Bool} {links : Nat} {here : Location} {route : Route}
    {spot : Spot} (h : Leads root last links here route spot) (hd : route.directory = true) :
    Spot.directory spot = true := by
  induction h with
  | arrive found => exact hd
  | stay opens further ih => exact ih hd
  | climb opens further ih => exact ih hd
  | free asks => exact hd
  | stop asks stays => cases hd
  | jump asks goes known further ih =>
    apply ih
    dsimp only at hd
    rw [hd]
    rfl
  | enter asks plain further ih => exact ih hd

end DartReach.FileSystem
