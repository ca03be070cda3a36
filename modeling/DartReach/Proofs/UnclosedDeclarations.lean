import DartReach.Proofs.DeclarationTexts

/-!
# Texts that leave a declaration open

The target of a declaration goes on to the next quote, over the end of its line. So a declaration is lost
if the text in front of it ends inside another one: the quote that should open its target closes the other
one. This is the only way to lose it. Everything that was complete before is found as if the text ended
there.
-/

namespace DartReach.Declaration

set_option autoImplicit false

/-- A declaration starts here, and no quote closes it; `name` stands behind its opening quote. -/
def Unclosed (word s name : Bytes) : Prop :=
  ∃ blanks opening, s = word ++ (blanks ++ opening :: name) ∧ blanks ≠ [] ∧
    (∀ b ∈ blanks, b ∈ blankBytes) ∧ opening ∈ quoteBytes ∧ Quiet name

/-- A declaration starts here, whether it is closed or not. -/
def Starts (word s : Bytes) : Prop :=
  (∃ d : Span, d.text word <+: s) ∨ ∃ name, Unclosed word s name

/--
Read from the left, one complete declaration after the other, the text comes to a declaration that it does not
close; `name` is what it has of the target.
-/
inductive LeavesOpen (word : Bytes) : (s name : Bytes) → Prop where
  | here {s name : Bytes} (unclosed : Unclosed word s name) : LeavesOpen word s name
  | behind (d : Span) {s name : Bytes} (further : LeavesOpen word s name) :
      LeavesOpen word (d.text word ++ s) name
  | past {b : UInt8} {s name : Bytes} (nothing : ¬ Starts word (b :: s))
      (further : LeavesOpen word s name) : LeavesOpen word (b :: s) name

theorem LeavesOpen.exists_unclosed {word s name : Bytes} (h : LeavesOpen word s name) :
    ∃ front back, s = front ++ back ∧ Unclosed word back name := by
  induction h with
  | @here s name unclosed => exact ⟨[], s, rfl, unclosed⟩
  | behind d further ih =>
    obtain ⟨front, back, rfl, hback⟩ := ih
    exact ⟨d.text word ++ front, back, by simp, hback⟩
  | @past b s name nothing further ih =>
    obtain ⟨front, back, rfl, hback⟩ := ih
    exact ⟨b :: front, back, rfl, hback⟩

/-! ### One declaration at the end of a text -/

theorem exists_first_quote {s : Bytes} (h : ¬ Quiet s) :
    ∃ front quote back, s = front ++ quote :: back ∧ Quiet front ∧ quote ∈ quoteBytes := by
  induction s with
  | nil => exact absurd (by simp [Quiet]) h
  | cons b s ih =>
    by_cases hb : b ∈ quoteBytes
    · exact ⟨[], b, s, rfl, by simp [Quiet], hb⟩
    · have hs : ¬ Quiet s := fun hs => h (List.forall_mem_cons.mpr ⟨hb, hs⟩)
      obtain ⟨front, quote, back, rfl, hfront, hquote⟩ := ih hs
      exact ⟨b :: front, quote, back, rfl, List.forall_mem_cons.mpr ⟨hb, hfront⟩, hquote⟩

theorem Unclosed.countP_eq {word s name : Bytes} (hword : IsKeyword word) (h : Unclosed word s name) :
    s.countP isQuote = 1 := by
  obtain ⟨blanks, opening, rfl, -, hblank, hopens, hname⟩ := h
  rw [List.countP_append, List.countP_append, List.countP_cons_of_pos (isQuote_iff.mpr hopens),
    hword.quiet.countP_eq, (quiet_of_blank hblank).countP_eq, hname.countP_eq]

theorem at?_append {word s target rest : Bytes} (h : at? word s = some (target, rest)) (more : Bytes) :
    at? word (s ++ more) = some (target, rest ++ more) := by
  obtain ⟨d, hstart, htarget, rfl⟩ := (at?_eq_some_iff 0).mp h
  exact (at?_eq_some_iff 0).mpr ⟨d, hstart, htarget, by simp⟩

section Follow

variable {word gap : Bytes} (hword : IsKeyword word) (hgap : Quiet gap) (d : Span) (rest : Bytes)

include hword hgap

/-- What stands between an unclosed declaration and the quote that closes it in the end. -/
theorem quiet_between : Quiet (gap ++ (word ++ d.blanks)) :=
  hgap.append (hword.quiet.append (quiet_of_blank d.blank))

theorem at?_of_unclosed {s name : Bytes} (h : Unclosed word s name) :
    at? word (s ++ (gap ++ (d.text word ++ rest))) =
      some (name ++ (gap ++ (word ++ d.blanks)), d.target ++ d.closing :: rest) := by
  obtain ⟨blanks, opening, rfl, hspaced, hblank, hopens, hname⟩ := h
  have hnamed : name ++ (gap ++ (word ++ d.blanks)) ≠ [] := by
    simp [d.spaced]
  rw [at?_eq_some_iff 0]
  refine ⟨⟨0, blanks, opening, name ++ (gap ++ (word ++ d.blanks)), d.opening, hspaced, hblank, hopens,
    hnamed, hname.append (quiet_between hword hgap d), d.opens⟩, rfl, rfl, ?_⟩
  simp [Span.text]

/-- A declaration that starts in front of another one is complete there, or it is unclosed. -/
theorem at?_append_span {s : Bytes} (hne : s ≠ []) {target more : Bytes}
    (h : at? word (s ++ (gap ++ (d.text word ++ rest))) = some (target, more)) :
    (∃ before, at? word s = some (target, before)) ∨ ∃ name, Unclosed word s name := by
  obtain ⟨e, -, rfl, he⟩ := (at?_eq_some_iff 0).mp h
  have hopener : Quiet (word ++ e.blanks) := hword.quiet.append (quiet_of_blank e.blank)
  rw [Span.text_append word more e, ← List.append_assoc word] at he
  by_cases hs : Quiet s
  · rw [← List.append_assoc, at?_before_span hword (hs.append hgap) (by simp [hne])] at h
    cases h
  obtain ⟨front, quote, back, rfl, hfront, hquote⟩ := exists_first_quote hs
  rw [List.append_assoc, List.cons_append] at he
  obtain ⟨rfl, rfl, hback⟩ := run_unique (p := (· ∉ quoteBytes)) hfront hopener
    (not_not_intro hquote) (not_not_intro e.opens) he
  by_cases hquiet : Quiet back
  · exact Or.inr ⟨back, e.blanks, e.opening, by simp, e.spaced, e.blank, e.opens, hquiet⟩
  · -- There is a second quote in the text, so it ends the declaration.
    obtain ⟨name, closing, before, rfl, hname, hclosing⟩ := exists_first_quote hquiet
    rw [List.append_assoc, List.cons_append] at hback
    obtain ⟨rfl, rfl, -⟩ := run_unique (p := (· ∉ quoteBytes)) hname e.plain
      (not_not_intro hclosing) (not_not_intro e.closes) hback
    exact Or.inl ⟨before, (at?_eq_some_iff e.start).mpr ⟨e, rfl, rfl, by simp [Span.text]⟩⟩

/-! ### Scanning over the text -/

theorem at?_of_not_starts {b : UInt8} {s : Bytes} (h : ¬ Starts word (b :: s)) :
    at? word (b :: s) = none ∧ at? word (b :: (s ++ (gap ++ (d.text word ++ rest)))) = none := by
  have hnone : at? word (b :: s) = none := by
    by_contra hsome
    obtain ⟨⟨target, more⟩, hfound⟩ := Option.ne_none_iff_exists'.mp hsome
    obtain ⟨e, -, -, he⟩ := (at?_eq_some_iff 0).mp hfound
    exact h (Or.inl ⟨e, more, he.symm⟩)
  refine ⟨hnone, ?_⟩
  by_contra hsome
  obtain ⟨⟨target, more⟩, hfound⟩ := Option.ne_none_iff_exists'.mp hsome
  rcases at?_append_span hword hgap d rest (List.cons_ne_nil b s) hfound with ⟨before, hbefore⟩ | hopen
  · rw [hnone] at hbefore
    cases hbefore
  · exact h (Or.inr hopen)

/-- A declaration that is left open takes what follows, up to the quote of the next one. -/
theorem scanOnto_of_leavesOpen {s name : Bytes} (h : LeavesOpen word s name) (found : List Bytes) :
    scanOnto word found (s ++ (gap ++ (d.text word ++ rest))) =
      scanOnto word ((name ++ (gap ++ (word ++ d.blanks))) :: (scanOnto word found s).reverse)
        (d.target ++ d.closing :: rest) := by
  induction h generalizing found with
  | @here s name unclosed =>
    have hnothing : scanOnto word found s = found.reverse :=
      scanOnto_of_one_quote found (unclosed.countP_eq hword).le
    rw [scanOnto_of_at? found (at?_of_unclosed hword hgap d rest unclosed), hnothing, List.reverse_reverse]
  | @behind e s name further ih =>
    have hat : at? word (e.text word ++ s) = some (e.target, s) :=
      (at?_eq_some_iff e.start).mpr ⟨e, rfl, rfl, rfl⟩
    rw [scanOnto_of_at? found (at?_append hat _), scanOnto_of_at? found hat, ih]
  | @past b s name nothing further ih =>
    obtain ⟨hnone, hnone'⟩ := at?_of_not_starts hword hgap d rest nothing
    rw [List.cons_append, scanOnto_cons found hnone', scanOnto_cons found hnone, ih]

theorem scanOnto_of_closed {s : Bytes} (h : ∀ name, ¬ LeavesOpen word s name) (found : List Bytes) :
    scanOnto word found (s ++ (gap ++ (d.text word ++ rest))) =
      scanOnto word (d.target :: (scanOnto word found s).reverse) rest := by
  fun_induction scanOnto word found s with
  | case1 found s target more hat _ ih =>
    rw [scanOnto_of_at? found (at?_append hat _)]
    obtain ⟨e, -, -, rfl⟩ := (at?_eq_some_iff 0).mp hat
    exact ih fun name hopen => h name (.behind e hopen)
  | case2 found hat =>
    rw [List.nil_append, scanOnto_span hword found hgap d, List.reverse_reverse]
  | case3 found b s hat ih =>
    have hstarts : ¬ Starts word (b :: s) := by
      rintro (⟨e, more, he⟩ | ⟨name, hopen⟩)
      · rw [(at?_eq_some_iff e.start).mpr ⟨e, rfl, rfl, he.symm⟩] at hat
        cases hat
      · exact h name (.here hopen)
    rw [List.cons_append, scanOnto_cons found (at?_of_not_starts hword hgap d rest hstarts).2]
    exact ih fun name hopen => h name (.past hstarts hopen)

theorem scan_of_leavesOpen {s name : Bytes} (h : LeavesOpen word s name) :
    scan word (s ++ (gap ++ (d.text word ++ rest))) =
      scan word s ++ (name ++ (gap ++ (word ++ d.blanks))) :: scan word (d.target ++ d.closing :: rest) := by
  rw [scan, scanOnto_of_leavesOpen hword hgap d rest h, scanOnto_eq_append, List.reverse_cons,
    List.reverse_reverse, List.append_assoc]
  rfl

theorem scan_of_closed {s : Bytes} (h : ∀ name, ¬ LeavesOpen word s name) :
    scan word (s ++ (gap ++ (d.text word ++ rest))) = scan word s ++ d.target :: scan word rest := by
  rw [scan, scanOnto_of_closed hword hgap d rest h, scanOnto_eq_append, List.reverse_cons,
    List.reverse_reverse, List.append_assoc]
  rfl

end Follow

/-! ### Imports on a line of their own -/

def importLine (name : Bytes) : Bytes := text "\nimport '" ++ name ++ text "';\n"

/--
An import on a line of its own is found, behind the imports of the text before it, unless that text leaves
one open. In that case only, its line up to the quote ends the target of the open one, and the scan goes
on behind the quote.
-/
theorem targets_of_import_line {before name after : Bytes} (hnamed : name ≠ [])
    (hplain : ∀ b ∈ name, b ∉ quoteBytes) :
    ((∀ left, ¬ LeavesOpen (text "import") before left) →
      name ∈ targets (before ++ importLine name ++ after) ∧
      scan (text "import") (before ++ importLine name ++ after) =
        scan (text "import") before ++ name :: scan (text "import") (text ";\n" ++ after)) ∧
    ∀ left, LeavesOpen (text "import") before left →
      scan (text "import") (before ++ importLine name ++ after) =
        scan (text "import") before ++
          (left ++ text "\nimport ") :: scan (text "import") (name ++ text "';\n" ++ after) := by
  have hword : IsKeyword (text "import") := Or.inl rfl
  have hgap : Quiet [0x0A] := quiet_of_blank (by simp [blankBytes])
  let d : Span := ⟨0, [0x20], 0x27, name, 0x27, by simp, by simp [blankBytes], by simp [quoteBytes],
    hnamed, hplain, by simp [quoteBytes]⟩
  have hcontent : before ++ importLine name ++ after =
      before ++ ([0x0A] ++ (d.text (text "import") ++ (text ";\n" ++ after))) := by
    have hstart : text "\nimport '" = [0x0A] ++ (text "import" ++ ([0x20] ++ [0x27])) := rfl
    have hend : text "';\n" = [0x27] ++ text ";\n" := rfl
    simp only [importLine, Span.text, hstart, hend, List.append_assoc, d]
  rw [hcontent]
  constructor
  · intro hclosed
    have hscan := scan_of_closed hword hgap d (text ";\n" ++ after) hclosed
    refine ⟨?_, hscan⟩
    rw [targets, importWord, hscan]
    simp [d]
  · intro left hopen
    have hend : name ++ text "';\n" ++ after = d.target ++ d.closing :: (text ";\n" ++ after) := by
      rw [List.append_assoc]
      rfl
    rw [scan_of_leavesOpen hword hgap d _ hopen, hend]
    rfl

/-- A quote that does not follow white space opens nothing. -/
theorem not_leavesOpen_of_last {word front name left : Bytes} {quote : UInt8} (hquote : quote ∈ quoteBytes)
    (hname : Quiet name) (hlast : ∀ b ∈ front.getLast?, b ∉ blankBytes) :
    ¬ LeavesOpen word (front ++ quote :: name) left := by
  intro h
  obtain ⟨before, back, hback, blanks, opening, rfl, hspaced, hblank, hopens, hleft⟩ := h.exists_unclosed
  have hends : front ++ quote :: name = (before ++ word ++ blanks) ++ opening :: left := by
    rw [hback]
    simp
  obtain ⟨rfl, -, -⟩ := run_unique_at_end (p := (· ∉ quoteBytes)) hname hleft (not_not_intro hquote)
    (not_not_intro hopens) hends
  apply hlast (blanks.getLast hspaced)
  · rw [List.getLast?_append, List.getLast?_eq_some_getLast hspaced]
    rfl
  · exact hblank _ (List.getLast_mem hspaced)

theorem targets_of_import_line_sample :
    text "a b.dart" ∈
        targets (text "import 'x.dart'; // it's" ++ importLine (text "a b.dart") ++ text "import '") ∧
      scan (text "import") (text "import 'old" ++ importLine (text "a b.dart") ++ []) =
        scan (text "import") (text "import 'old") ++
          text "old\nimport " :: scan (text "import") (text "a b.dart';\n") := by
  have hplain : ∀ b ∈ text "a b.dart", b ∉ quoteBytes := quiet_of_all rfl
  constructor
  · apply ((targets_of_import_line (by decide) hplain).1 _).1
    intro left
    have hsplit : text "import 'x.dart'; // it's" = text "import 'x.dart'; // it" ++ 0x27 :: text "s" := rfl
    have hlast : ∀ b ∈ (text "import 'x.dart'; // it").getLast?, b ∉ blankBytes := by
      intro b hb
      obtain rfl : 0x74 = b := Option.some.inj hb
      decide
    rw [hsplit]
    exact not_leavesOpen_of_last (by simp [quoteBytes]) (quiet_of_all rfl) hlast
  · apply (targets_of_import_line (by decide) hplain).2 (text "old")
    exact .here ⟨[0x20], 0x27, rfl, by simp, by simp [blankBytes], by simp [quoteBytes], quiet_of_all rfl⟩

/-- The second line is part of what the first one leaves open. -/
theorem import_line_lost :
    ¬ ∀ before name after : Bytes, name ≠ [] → (∀ b ∈ name, b ∉ quoteBytes ∧ b ≠ 0x0A) →
      name ∈ targets (before ++ importLine name ++ after) := by
  intro h
  have hall : (text "a.dart").all (fun b => !isQuote b && b != 0x0A) = true := rfl
  have hplain : ∀ b ∈ text "a.dart", b ∉ quoteBytes ∧ b ≠ 0x0A := by
    intro b hb
    rw [← isQuote_iff]
    simpa using List.all_eq_true.mp hall b hb
  have hmem := h (text "// import 'old") (text "a.dart") [] (by decide) hplain
  revert hmem
  decide +kernel

end DartReach.Declaration
