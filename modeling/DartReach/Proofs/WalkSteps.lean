import Mathlib.Data.List.Infix
import DartReach.Proofs.RunFailure

/-!
# A walk that can be called off at every step

A walk shows what it comes to, one thing after the other, to a visitor. The visitor first looks whether
the walk was called off, then takes notes, and says whether to go on, to skip a directory or to stop; a
directory that cannot be listed is shown twice. Skipping ends with the directory, whereas a stop passes
through all directories above. Told step by step in this way, the walk is the list of its visits, followed
until one of them is refused. So a discovery that is called off before its last visit returns no files at
all.
-/

namespace DartReach.Discovery

set_option autoImplicit false

open Bytes (slash)

/-- What a visitor says. -/
inductive Signal where
  | onward
  | skip
  | stop (e : Error)

/-- What a visitor is shown. -/
inductive Sight where
  | root
  | entry (rel name : Bytes) (isDir : Bool)
  | unlisted (isRoot : Bool) (e : SystemError)

structure Notes where
  /-- How often the visitor looked whether the walk was called off. -/
  asked : Nat
  log : List Log.Record
  files : List Bytes

def Notes.blank : Notes := ⟨0, [], []⟩

@[simp] theorem Notes.asked_blank : Notes.blank.asked = 0 := rfl

/-- Goes on only if nothing speaks against it. -/
def whenOnward (stage : Signal × Notes) (next : Notes → Signal × Notes) : Signal × Notes :=
  match stage with
  | (.onward, notes) => next notes
  | stage => stage

/-- What a directory tells the directory above: it was skipped, but nothing else is. -/
def endOfDir (stage : Signal × Notes) : Signal × Notes :=
  match stage with
  | (.skip, notes) => (.onward, notes)
  | stage => stage

namespace Walk

variable (w : Walk) (patience : Patience)

/-- What is said and noted of a sight while the walk is not called off. -/
def judge (sight : Sight) (notes : Notes) : Signal × Notes :=
  match sight with
  | .root => (.onward, notes)
  | .unlisted isRoot e =>
    (if isRoot then .onward else .skip, { notes with log := notes.log ++ (Visit.unlisted e).log })
  | .entry rel name isDir =>
    match w.leavesOut rel isDir with
    | none => (.stop .brokenRule, notes)
    | some true =>
      (if isDir then .skip else .onward, { notes with log := notes.log ++ (Visit.excluded rel).log })
    | some false =>
      if !isDir && name.endsWith w.extension then
        (.onward, { notes with files := notes.files ++ [w.root ++ rel] })
      else (.onward, notes)

/-- Shows something to the visitor. -/
def visit (sight : Sight) (notes : Notes) : Signal × Notes :=
  if patience.any (· ≤ notes.asked) then
    (.stop .cancelled, { notes with asked := notes.asked + 1 })
  else w.judge sight { notes with asked := notes.asked + 1 }

mutual

/-- Walks through a node whose path relative to the root is `rel`. -/
def stepNode (rel name : Bytes) : Node → Notes → Signal × Notes
  | .dir entries access, notes =>
    endOfDir (whenOnward (w.visit patience (.entry rel name true) notes) fun notes =>
      if access = .none then
        w.visit patience (.unlisted false ⟨.open, w.root ++ rel, .denied⟩) notes
      else stepEntries (rel ++ [slash]) entries notes)
  | _, notes => w.visit patience (.entry rel name false) notes

def stepEntries (start : Bytes) : List (Name × Node) → Notes → Signal × Notes
  | [], notes => (.onward, notes)
  | (name, node) :: rest, notes =>
    whenOnward (stepNode (start ++ name) name node notes) (stepEntries start rest)

end

/-- Walks through a whole tree, the root first. -/
def steps (tree : Node) : Signal × Notes :=
  endOfDir (whenOnward (w.visit patience .root .blank) fun notes =>
    match tree with
    | .dir entries access =>
      if access = .none then
        w.visit patience (.unlisted true ⟨.open, w.root, .denied⟩) notes
      else w.stepEntries patience [] entries notes
    | _ => (.onward, notes))

end Walk

/-- What the steps of a walk come to; `before` was logged before it began. -/
def outcomeOfSteps (before : List Log.Record) : Signal × Notes → Outcome
  | (.stop e, notes) => ⟨before ++ notes.log, .error e⟩
  | (_, notes) => ⟨before ++ notes.log, .ok (Bytes.sort notes.files)⟩

/-! ### The steps are the visits -/

def Notes.add (notes : Notes) (visits : List Visit) : Notes where
  asked := notes.asked + visits.length
  log := notes.log ++ visits.flatMap Visit.log
  files := notes.files ++ visits.filterMap Visit.file?

theorem Notes.add_append (notes : Notes) (xs ys : List Visit) :
    notes.add (xs ++ ys) = (notes.add xs).add ys := by
  simp [add, Nat.add_assoc]

theorem Notes.add_single (notes : Notes) (v : Visit) :
    notes.add [v] = ⟨notes.asked + 1, notes.log ++ v.log, notes.files ++ v.file?.toList⟩ := by
  cases v <;> simp [add, List.filterMap_cons, Visit.file?]

/-- Takes one visit after the other, until one is refused. -/
def follow (patience : Patience) : List Visit → Notes → Signal × Notes
  | [], notes => (.onward, notes)
  | v :: vs, notes =>
    if patience.any (· ≤ notes.asked) then
      (.stop .cancelled, { notes with asked := notes.asked + 1 })
    else if v = .broken then (.stop .brokenRule, notes.add [v])
    else follow patience vs (notes.add [v])

variable {patience : Patience}

theorem follow_append (xs ys : List Visit) (notes : Notes) :
    follow patience (xs ++ ys) notes =
      whenOnward (follow patience xs notes) (follow patience ys) := by
  induction xs generalizing notes with
  | nil => rfl
  | cons v xs ih =>
    rw [List.cons_append, follow, follow]
    split
    · rfl
    split
    · rfl
    · exact ih _

theorem endOfDir_follow (vs : List Visit) (notes : Notes) :
    endOfDir (follow patience vs notes) = follow patience vs notes := by
  induction vs generalizing notes with
  | nil => rfl
  | cons v vs ih =>
    rw [follow]
    split
    · rfl
    split
    · rfl
    · exact ih _

theorem endOfDir_whenOnward_follow {inside : Notes → Signal × Notes} {below : List Visit}
    (hbelow : ∀ notes, endOfDir (inside notes) = follow patience below notes) (vs : List Visit)
    (notes : Notes) :
    endOfDir (whenOnward (follow patience vs notes) inside) =
      follow patience (vs ++ below) notes := by
  induction vs generalizing notes with
  | nil => exact hbelow notes
  | cons v vs ih =>
    rw [List.cons_append, follow, follow]
    split
    · rfl
    split
    · rfl
    · exact ih _

namespace Walk

variable (w : Walk)

theorem visit_root (notes : Notes) :
    w.visit patience .root notes = follow patience [.passed] notes := by
  unfold visit
  rw [follow]
  split
  · rfl
  · rw [if_neg (by simp)]
    simp [judge, follow, Notes.add_single, Visit.log, Visit.file?]

theorem endOfDir_visit_unlisted (isRoot : Bool) (e : SystemError) (notes : Notes) :
    endOfDir (w.visit patience (.unlisted isRoot e) notes) = follow patience [.unlisted e] notes := by
  unfold visit
  rw [follow]
  split
  · rfl
  · rw [if_neg (by simp)]
    cases isRoot <;> simp [judge, endOfDir, follow, Notes.add_single, Visit.file?]

theorem visit_leaf (rel name : Bytes) (notes : Notes) :
    w.visit patience (.entry rel name false) notes =
      follow patience (w.verdict rel name .leaf) notes := by
  simp only [visit, judge, verdict, Kind.isDir]
  cases hout : w.leavesOut rel false with
  | none => simp [follow, Notes.add_single, Visit.log, Visit.file?]
  | some out =>
    cases out with
    | true => simp [follow, Notes.add_single, Visit.file?]
    | false =>
      by_cases hend : name.endsWith w.extension = true
      · simp [hend, follow, Notes.add_single, Visit.log, Visit.file?]
      · simp [hend, follow, Notes.add_single, Visit.log, Visit.file?]

theorem endOfDir_visit_dir (rel name : Bytes) (notes : Notes) {inside : Notes → Signal × Notes}
    {below : List Visit} (hbelow : ∀ notes, endOfDir (inside notes) = follow patience below notes) :
    endOfDir (whenOnward (w.visit patience (.entry rel name true) notes) inside) =
      follow patience
        (match w.leavesOut rel true with
          | none => [.broken]
          | some true => [.excluded rel]
          | some false => .passed :: below) notes := by
  simp only [visit, judge]
  by_cases hoff : patience.any (· ≤ notes.asked) = true
  · rw [if_pos hoff]
    cases w.leavesOut rel true with
    | none => simp [follow, hoff, whenOnward, endOfDir]
    | some out => cases out <;> simp [follow, hoff, whenOnward, endOfDir]
  · rw [if_neg hoff]
    cases w.leavesOut rel true with
    | none => simp [follow, hoff, whenOnward, endOfDir, Notes.add_single, Visit.log, Visit.file?]
    | some out =>
      cases out with
      | true => simp [follow, hoff, whenOnward, endOfDir, Notes.add_single, Visit.file?]
      | false =>
        simp [follow, hoff, whenOnward, hbelow, Notes.add_single, Visit.log, Visit.file?]

theorem stepEntries_eq {es : List (Name × Node)}
    (h : ∀ e ∈ es, ∀ rel name notes,
      w.stepNode patience rel name e.2 notes = follow patience (w.node rel name e.2) notes)
    (start : Bytes) (notes : Notes) :
    w.stepEntries patience start es notes = follow patience (w.entries start es) notes := by
  induction es generalizing notes with
  | nil => rfl
  | cons e es ih =>
    obtain ⟨name, node⟩ := e
    rw [List.forall_mem_cons] at h
    rw [stepEntries, Walk.entries, follow_append, h.1]
    congr 1
    funext notes
    exact ih h.2 notes

theorem stepNode_eq (node : Node) (rel name : Bytes) (notes : Notes) :
    w.stepNode patience rel name node notes = follow patience (w.node rel name node) notes := by
  induction node using Node.entries_induction generalizing rel name notes with
  | step node ih =>
    cases node with
    | dir es access =>
      rw [stepNode, Walk.node]
      apply w.endOfDir_visit_dir
      intro notes
      split
      · exact w.endOfDir_visit_unlisted false _ notes
      · have hentries := @stepEntries_eq patience w es ih
        rw [hentries, endOfDir_follow]
    | file content access => exact w.visit_leaf rel name notes
    | device kind => exact w.visit_leaf rel name notes
    | link target => exact w.visit_leaf rel name notes

end Walk

theorem follow_untilBroken (vs : List Visit) (notes : Notes) :
    follow patience (untilBroken vs) notes = follow patience vs notes := by
  induction vs generalizing notes with
  | nil => rfl
  | cons v vs ih => cases v <;> simp [untilBroken, follow, ih]

namespace Walk

variable (w : Walk)

/-- Told step by step, a walk takes its visits one after the other. -/
theorem steps_eq (tree : Node) :
    w.steps patience tree = follow patience (w.visits tree) .blank := by
  have hroot : ∀ (inside : Notes → Signal × Notes) (below : List Visit),
      (∀ notes, endOfDir (inside notes) = follow patience below notes) →
      endOfDir (whenOnward (w.visit patience .root .blank) inside) =
        follow patience (.passed :: below) .blank := by
    intro inside below hbelow
    rw [w.visit_root, endOfDir_whenOnward_follow hbelow]
    rfl
  cases tree with
  | dir es access =>
    rw [steps, visits]
    by_cases haccess : access = .none
    · simp only [haccess, if_true]
      exact hroot _ [_] fun notes => w.endOfDir_visit_unlisted true _ notes
    · have hentries := @stepEntries_eq patience w es fun e _ rel name => w.stepNode_eq e.2 rel name
      simp only [if_neg haccess]
      apply hroot
      intro notes
      -- The visits are cut off behind a broken rule, where the steps stop by themselves.
      rw [hentries, endOfDir_follow, follow_untilBroken]
  | file content access => exact hroot _ [] fun notes => rfl
  | device kind => exact hroot _ [] fun notes => rfl
  | link target => exact hroot _ [] fun notes => rfl

end Walk

/-! ### How far a walk comes -/

theorem untilBroken_untilBroken (vs : List Visit) : untilBroken (untilBroken vs) = untilBroken vs := by
  induction vs with
  | nil => rfl
  | cons v vs ih => cases v <;> simp [untilBroken, ih]

theorem Walk.untilBroken_visits (w : Walk) (tree : Node) :
    untilBroken (w.visits tree) = w.visits tree := by
  cases tree with
  | dir es access =>
    rw [visits]
    split
    · rfl
    · rw [untilBroken, untilBroken_untilBroken]
      simp
  | file content access => rfl
  | device kind => rfl
  | link target => rfl

/-- Nothing is visited behind a rule that cannot be applied. -/
theorem broken_not_mem_of_append {done rest : List Visit} {v : Visit}
    (h : untilBroken (done ++ v :: rest) = done ++ v :: rest) : .broken ∉ done := by
  induction done with
  | nil => simp
  | cons first done ih =>
    rw [List.cons_append] at h
    cases first with
    | broken => simp [untilBroken] at h
    | passed => simpa using ih (by simpa [untilBroken] using h)
    | found path => simpa using ih (by simpa [untilBroken] using h)
    | excluded rel => simpa using ih (by simpa [untilBroken] using h)
    | unlisted e => simpa using ih (by simpa [untilBroken] using h)

theorem not_any_le {k : Nat} (h : ∀ n, patience = some n → k < n) : ¬ patience.any (· ≤ k) = true := by
  cases patience with
  | none => simp
  | some n =>
    have hlt := h n rfl
    simp only [Option.any_some, decide_eq_true_eq]
    omega

theorem follow_onward {vs : List Visit} {notes : Notes} (hbroken : .broken ∉ vs)
    (hpatient : ∀ n, patience = some n → notes.asked + vs.length ≤ n) :
    follow patience vs notes = (.onward, notes.add vs) := by
  induction vs generalizing notes with
  | nil => simp [follow, Notes.add]
  | cons v vs ih =>
    rw [List.mem_cons, not_or] at hbroken
    simp only [List.length_cons] at hpatient
    have hgoing : ¬ patience.any (· ≤ notes.asked) = true := by
      apply not_any_le
      intro n hn
      have hle := hpatient n hn
      omega
    rw [follow, if_neg hgoing, if_neg (Ne.symm hbroken.1), ih hbroken.2]
    · rw [← Notes.add_append, List.singleton_append]
    · intro n hn
      have hle := hpatient n hn
      simp only [Notes.add_single]
      omega

theorem follow_cancelled {done rest : List Visit} {v : Visit} {notes : Notes}
    (hbroken : .broken ∉ done) :
    follow (some (notes.asked + done.length)) (done ++ v :: rest) notes =
      (.stop .cancelled, { notes.add done with asked := notes.asked + done.length + 1 }) := by
  have hdone := @follow_onward (some (notes.asked + done.length)) done notes hbroken (by simp)
  rw [follow_append, hdone]
  simp [whenOnward, follow, Notes.add]

theorem follow_broken {done : List Visit} {notes : Notes} (hbroken : .broken ∉ done)
    (hpatient : ∀ n, patience = some n → notes.asked + done.length < n) :
    follow patience (done ++ [.broken]) notes =
      (.stop .brokenRule, notes.add (done ++ [.broken])) := by
  have hdone := @follow_onward patience done notes hbroken fun n hn => Nat.le_of_lt (hpatient n hn)
  rw [follow_append, hdone, Notes.add_append]
  exact (if_neg (not_any_le hpatient)).trans (if_pos rfl)

section Visits

variable {visits : List Visit} (horder : untilBroken visits = visits)
include horder

theorem follow_short {n : Nat} (h : n < visits.length) :
    follow (some n) visits .blank =
      (.stop .cancelled, { Notes.blank.add (visits.take n) with asked := n + 1 }) := by
  obtain ⟨v, rest, hrest⟩ := List.exists_cons_of_ne_nil
    (List.ne_nil_of_length_pos (by rw [List.length_drop]; omega : 0 < (visits.drop n).length))
  have hsplit : visits.take n ++ v :: rest = visits := by
    rw [← hrest, List.take_append_drop]
  have hlength : Notes.blank.asked + (visits.take n).length = n := by
    rw [List.length_take, Notes.asked_blank]
    omega
  have hbroken : .broken ∉ visits.take n := broken_not_mem_of_append (by rw [hsplit, horder])
  have hfollow := @follow_cancelled _ rest v .blank hbroken
  rwa [hlength, hsplit] at hfollow

theorem follow_enough (h : ∀ n, patience = some n → visits.length ≤ n) :
    follow patience visits .blank =
      (if .broken ∈ visits then .stop .brokenRule else .onward, Notes.blank.add visits) := by
  by_cases hmem : .broken ∈ visits
  · obtain ⟨done, rest, rfl⟩ := List.append_of_mem hmem
    have hbroken := broken_not_mem_of_append horder
    -- A broken rule is the last visit, since otherwise it would stand before another one.
    obtain rfl : rest = [] := by
      cases rest with
      | nil => rfl
      | cons v rest =>
        have hlast : .broken ∉ done ++ [.broken] :=
          @broken_not_mem_of_append _ rest v (by simpa using horder)
        simp at hlast
    rw [if_pos hmem]
    apply follow_broken hbroken
    intro n hn
    have hle := h n hn
    rw [List.length_append, List.length_singleton] at hle
    rw [Notes.asked_blank]
    omega
  · rw [if_neg hmem]
    apply follow_onward hmem
    intro n hn
    have hle := h n hn
    rw [Notes.asked_blank]
    omega

/-- Followed step by step, the visits have the outcome of the walk. -/
theorem outcomeOfSteps_follow (before : List Log.Record) :
    outcomeOfSteps before (follow patience visits .blank) =
      ⟨before ++ (outcomeOf patience visits).log, (outcomeOf patience visits).files⟩ := by
  by_cases hshort : ∃ n, patience = some n ∧ n < visits.length
  · obtain ⟨n, rfl, hn⟩ := hshort
    rw [follow_short horder hn, outcomeOf, if_pos (by simpa using hn)]
    rfl
  · have henough : ∀ n, patience = some n → visits.length ≤ n := by
      intro n hn
      by_contra hlt
      exact hshort ⟨n, hn, by omega⟩
    have hpatient : ¬ patience.any (· < visits.length) = true := by
      rw [Patience.exhausted_iff]
      rintro ⟨k, hk, n, hn, hle⟩
      have := henough n hn
      omega
    rw [follow_enough horder henough, outcomeOf, if_neg hpatient]
    by_cases hmem : .broken ∈ visits
    · rw [if_pos hmem, if_pos (by simpa using hmem)]
      rfl
    · rw [if_neg hmem, if_neg (by simpa using hmem)]
      rfl

end Visits

namespace Walk

variable (w : Walk) (tree : Node)

theorem asked_steps : (w.steps none tree).2.asked = (w.visits tree).length := by
  rw [steps_eq, follow_enough (w.untilBroken_visits tree) (by simp)]
  simp [Notes.add]

theorem steps_enough {n : Nat} (h : (w.visits tree).length ≤ n) :
    w.steps (some n) tree = w.steps none tree := by
  have horder := w.untilBroken_visits tree
  have henough : ∀ m, some n = some m → (w.visits tree).length ≤ m := by
    intro m hm
    cases hm
    exact h
  rw [steps_eq, steps_eq, follow_enough horder henough, follow_enough horder (by simp)]

theorem steps_short {n : Nat} (h : n < (w.visits tree).length) :
    w.steps (some n) tree =
      (.stop .cancelled, { Notes.blank.add ((w.visits tree).take n) with asked := n + 1 }) := by
  rw [steps_eq]
  exact follow_short (w.untilBroken_visits tree) h

theorem log_steps : (w.steps none tree).2.log = (w.visits tree).flatMap Visit.log := by
  rw [steps_eq, follow_enough (w.untilBroken_visits tree) (by simp)]
  rfl

end Walk

theorem log_outcomeOfSteps (before : List Log.Record) (stage : Signal × Notes) :
    (outcomeOfSteps before stage).log = before ++ stage.2.log := by
  obtain ⟨signal, notes⟩ := stage
  cases signal <;> rfl

/-! ### Discoveries -/

/-- A discovery walks through a tree: the root is a directory, and there are rules to go by. -/
def Explores (host : Host) (root : Bytes) (options : Options) (w : Walk) (tree : Node) : Prop :=
  options.extension ≠ [] ∧ host.stat (host.normalize root) = .ok tree ∧ tree.isDir = true ∧
    ∃ patterns ignore, compileAll options.exclude = .ok patterns ∧
      (loadIgnoreFile host (host.normalize root) options.ignoreFile).rules? = some ignore ∧
      w = ⟨withSlash (host.normalize root), options.extension,
        leavesOut patterns ignore (withSlash (host.normalize root))⟩

section Explores

variable {host : Host} {root : Bytes} {options : Options} {w w' : Walk} {tree tree' : Node}

theorem Explores.unique (h : Explores host root options w tree)
    (h' : Explores host root options w' tree') : w = w' ∧ tree = tree' := by
  obtain ⟨_, hstat, _, patterns, ignore, hcomp, hload, rfl⟩ := h
  obtain ⟨_, hstat', _, patterns', ignore', hcomp', hload', rfl⟩ := h'
  rw [hstat, Except.ok.injEq] at hstat'
  rw [hcomp, Except.ok.injEq] at hcomp'
  rw [hload, Option.some.injEq] at hload'
  rw [hcomp', hload']
  exact ⟨rfl, hstat'⟩

theorem Explores.discover_eq (h : Explores host root options w tree) :
    ∃ before, ∀ patience,
      discover host patience root options = outcomeOfSteps before (w.steps patience tree) := by
  obtain ⟨hext, hstat, hdir, patterns, ignore, hcomp, hload, rfl⟩ := h
  have hbelow : ∀ patience, discover host patience root options =
      discoverBelow host patience (host.normalize root) tree options patterns := by
    intro patience
    simp only [discover]
    rw [if_neg (by simpa using hext), hcomp]
    simp only [hstat, hdir, if_true]
  simp only [hbelow, discoverBelow, Walk.steps_eq, outcomeOfSteps_follow (Walk.untilBroken_visits _ _)]
  cases hloaded : loadIgnoreFile host (host.normalize root) options.ignoreFile with
  | missing =>
    rw [hloaded, Loaded.rules?, Option.some.injEq] at hload
    exact ⟨[], fun patience => by rw [← hload]; rfl⟩
  | rules f =>
    rw [hloaded, Loaded.rules?, Option.some.injEq] at hload
    exact ⟨[], fun patience => by rw [← hload]; rfl⟩
  | broken =>
    rw [hloaded] at hload
    cases hload
  | unreadable e =>
    rw [hloaded, Loaded.rules?, Option.some.injEq] at hload
    exact ⟨[_], fun patience => by rw [← hload]; rfl⟩

theorem discover_of_not_explores (h : ∀ w tree, ¬ Explores host root options w tree)
    (patience : Patience) :
    discover host patience root options = discover host none root options := by
  simp only [discover]
  split
  · rfl
  rename_i hext
  rw [List.isEmpty_iff] at hext
  split
  · rfl
  rename_i patterns hcomp
  split
  · rfl
  rename_i tree hstat
  split
  · rename_i hdir
    have hload : ∀ ignore,
        (loadIgnoreFile host (host.normalize root) options.ignoreFile).rules? ≠ some ignore :=
      fun ignore hload => h _ _ ⟨hext, hstat, hdir, patterns, ignore, hcomp, hload, rfl⟩
    simp only [discoverBelow]
    cases hloaded : loadIgnoreFile host (host.normalize root) options.ignoreFile with
    | missing => exact absurd (by rw [hloaded]; rfl) (hload none)
    | rules f => exact absurd (by rw [hloaded]; rfl) (hload (some f))
    | broken => rfl
    | unreadable e => exact absurd (by rw [hloaded]; rfl) (hload none)
  · rfl

theorem Explores.cut_short (h : Explores host root options w tree) {n : Nat}
    (hn : n < (w.visits tree).length) :
    (discover host (some n) root options).files = .error .cancelled ∧
      (discover host (some n) root options).log <+: (discover host none root options).log := by
  obtain ⟨before, hsteps⟩ := h.discover_eq
  rw [hsteps, hsteps]
  constructor
  · rw [w.steps_short tree hn]
    rfl
  · rw [log_outcomeOfSteps, log_outcomeOfSteps, w.steps_short tree hn, w.log_steps]
    apply (List.prefix_append_right_inj before).mpr
    exact (List.take_prefix n (w.visits tree)).flatMap Visit.log

theorem Answered.exists_files (h : Answered host (host.normalize root) options)
    (hext : options.extension ≠ []) (hglobs : ∀ p ∈ options.exclude, ∃ m, Glob.compile p = .ok m) :
    ∃ files, (discover host none root options).files = .ok files := by
  cases hfiles : (discover host none root options).files with
  | ok files => exact ⟨files, rfl⟩
  | error e =>
    rcases discover_error h hfiles with hnone | ⟨p, hp, e, hpe⟩ | ⟨visits, _, k, _, n, hn, _⟩
    · exact absurd hnone hext
    · obtain ⟨m, hm⟩ := hglobs p hp
      rw [hm] at hpe
      cases hpe
    · cases hn

theorem Answered.exists_explores (h : Answered host (host.normalize root) options)
    (hext : options.extension ≠ []) (hglobs : ∀ p ∈ options.exclude, ∃ m, Glob.compile p = .ok m)
    (hstat : host.stat (host.normalize root) = .ok tree) (hdir : tree.isDir = true) :
    ∃ w, Explores host root options w tree := by
  obtain ⟨patterns, hcomp⟩ := compileAll_of_forall hglobs
  obtain ⟨ignore, hload⟩ := Option.ne_none_iff_exists'.mp h.loads
  exact ⟨_, hext, hstat, hdir, patterns, ignore, hcomp, hload, rfl⟩

end Explores

/--
A discovery asks as often as it has visits whether to go on, and not at all if the root is no directory.
If it may go on so often, it returns what it returns when it never asks. If it is called off earlier, it
stops at once without a list, and its log is the beginning of the whole log. Every answer is that of the
walk told step by step, and where rules and patterns do not break down there is a list to return.
-/
theorem discover_all_or_nothing (host : Host) (root : Bytes) (options : Options) :
    ∃ count,
      ((∀ tree, host.stat (host.normalize root) = .ok tree → tree.isDir = false) → count = 0) ∧
      (∀ w tree, Explores host root options w tree →
        (w.steps none tree).2.asked = count ∧
        (∀ n < count, (w.steps (some n) tree).2.asked = n + 1) ∧
        ∃ before, ∀ patience,
          discover host patience root options = outcomeOfSteps before (w.steps patience tree)) ∧
      (options.extension ≠ [] → (∀ p ∈ options.exclude, ∃ m, Glob.compile p = .ok m) →
        Answered host (host.normalize root) options →
        (∃ files, (discover host none root options).files = .ok files) ∧
        ∀ tree, host.stat (host.normalize root) = .ok tree → tree.isDir = true →
          ∃ w, Explores host root options w tree) ∧
      ∀ n,
        (count ≤ n →
          discover host (some n) root options = discover host none root options) ∧
        (n < count →
          (discover host (some n) root options).files = .error .cancelled ∧
          (discover host (some n) root options).log <+: (discover host none root options).log) := by
  have hlist (hext : options.extension ≠ [])
      (hglobs : ∀ p ∈ options.exclude, ∃ m, Glob.compile p = .ok m)
      (hanswered : Answered host (host.normalize root) options) :=
    And.intro (hanswered.exists_files hext hglobs)
      fun tree => @Answered.exists_explores host root options tree hanswered hext hglobs
  by_cases hwalk : ∃ w tree, Explores host root options w tree
  · obtain ⟨w, tree, hexplores⟩ := hwalk
    refine ⟨(w.visits tree).length, ?_, ?_, hlist, ?_⟩
    · intro hleaf
      have hdir := hexplores.2.2.1
      rw [hleaf tree hexplores.2.1] at hdir
      cases hdir
    · intro w' tree' hexplores'
      obtain ⟨rfl, rfl⟩ := hexplores.unique hexplores'
      refine ⟨w.asked_steps tree, fun n hn => ?_, hexplores.discover_eq⟩
      rw [w.steps_short tree hn]
    · intro n
      refine ⟨fun hn => ?_, hexplores.cut_short⟩
      obtain ⟨before, hsteps⟩ := hexplores.discover_eq
      rw [hsteps, hsteps, w.steps_enough tree hn]
  · have hnone : ∀ w tree, ¬ Explores host root options w tree :=
      fun w tree hexplores => hwalk ⟨w, tree, hexplores⟩
    refine ⟨0, fun _ => rfl, fun w tree hexplores => absurd hexplores (hnone w tree), hlist, ?_⟩
    intro n
    exact ⟨fun _ => discover_of_not_explores hnone (some n), fun hn => absurd hn (Nat.not_lt_zero n)⟩

theorem discover_all_or_nothing_last_visit :
    (discover sampleHost (some 10) (text "/lib") Analysis.savedAnalysis.search).files = .error .cancelled ∧
      ∃ files, (discover sampleHost none (text "/lib") Analysis.savedAnalysis.search).files = .ok files ∧
        (discover sampleHost (some 11) (text "/lib") Analysis.savedAnalysis.search).files = .ok files := by
  have hglobs : ∀ p ∈ Analysis.savedAnalysis.search.exclude, ∃ m, Glob.compile p = .ok m := by
    intro p hp
    rw [List.mem_singleton.mp hp]
    exact ⟨_, compile_sample⟩
  obtain ⟨count, _, hsteps, hlist, hcalled⟩ :=
    discover_all_or_nothing sampleHost (text "/lib") Analysis.savedAnalysis.search
  obtain ⟨⟨files, hfiles⟩, _⟩ := hlist (by decide) hglobs Analysis.answered_sample
  have hexplored : Explores sampleHost (text "/lib") Analysis.savedAnalysis.search
      ⟨withSlash (text "/lib"), text ".dart",
        leavesOut [.endingName ".g.dart".toList] (some sampleRules)
          (withSlash (text "/lib"))⟩ sampleLibrary :=
    ⟨by decide, rfl, rfl, _, _, compileAll_sample, loaded_sample, rfl⟩
  have hcount : count = 11 := by
    rw [← (hsteps _ _ hexplored).1, Walk.asked_steps]
    decide +kernel
  refine ⟨((hcalled 10).2 (by omega)).1, files, hfiles, ?_⟩
  rw [(hcalled 11).1 (by omega)]
  exact hfiles

end DartReach.Discovery
