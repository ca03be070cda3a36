import Mathlib.Data.List.Infix
import DartReach.Proofs.DeclarationSpans

/-!
# Texts made of declarations

A source file is a list of declarations with other text between them. If the other text has no quotes and no
target has white space in it, the two scans find what was written: a quote opens or closes a target, and the
keyword in front of an opening quote is that of the declaration it belongs to.
-/

namespace DartReach.Declaration

set_option autoImplicit false

def Quiet (s : Bytes) : Prop := ∀ b ∈ s, b ∉ quoteBytes

theorem Quiet.append {s s' : Bytes} (h : Quiet s) (h' : Quiet s') : Quiet (s ++ s') :=
  List.forall_mem_append.mpr ⟨h, h'⟩

theorem Quiet.suffix {s s' : Bytes} (h : Quiet s) (hs : s' <:+ s) : Quiet s' :=
  fun b hb => h b (hs.subset hb)

theorem quiet_of_blank {s : Bytes} (h : ∀ b ∈ s, b ∈ blankBytes) : Quiet s :=
  fun b hb hq => not_blank_of_quote hq (h b hb)

theorem quiet_of_all {s : Bytes} (h : s.all (!isQuote ·) = true) : Quiet s := by
  intro b hb
  rw [← isQuote_iff]
  simpa using List.all_eq_true.mp h b hb

def IsKeyword (word : Bytes) : Prop := word = importWord ∨ word = partWord

/-- A declaration and the text behind it, up to the next declaration. -/
structure Item where
  word : Bytes
  blanks : Bytes
  opening : UInt8
  target : Bytes
  closing : UInt8
  trailer : Bytes
  keyword : IsKeyword word
  spaced : blanks ≠ []
  blank : ∀ b ∈ blanks, b ∈ blankBytes
  opens : opening ∈ quoteBytes
  named : target ≠ []
  plain : ∀ b ∈ target, b ∉ quoteBytes ∧ b ∉ blankBytes
  closes : closing ∈ quoteBytes
  quiet : Quiet trailer

namespace Item

def text (i : Item) : Bytes :=
  i.word ++ i.blanks ++ [i.opening] ++ i.target ++ [i.closing] ++ i.trailer

/-- The part in front of the target. -/
def opener (i : Item) : Bytes := i.word ++ i.blanks

theorem text_append (i : Item) (rest : Bytes) :
    i.text ++ rest = i.opener ++ i.opening :: (i.target ++ i.closing :: (i.trailer ++ rest)) := by
  simp [text, opener]

theorem quiet_target (i : Item) : Quiet i.target := fun b hb => (i.plain b hb).1

end Item

/-! ### Keywords -/

namespace IsKeyword

variable {word word' : Bytes}

theorem ne_nil (h : IsKeyword word) : word ≠ [] := by
  rcases h with rfl | rfl <;> decide

theorem solid (h : IsKeyword word) : ∀ b ∈ word, b ∉ quoteBytes ∧ b ∉ blankBytes := by
  have hall : ∀ w ∈ [importWord, partWord],
      w.all (fun b => !quoteBytes.contains b && !blankBytes.contains b) = true := by
    decide
  have hword := hall word (by rcases h with rfl | rfl <;> simp)
  intro b hb
  simpa using List.all_eq_true.mp hword b hb

theorem quiet (h : IsKeyword word) : Quiet word := fun b hb => (h.solid b hb).1

/-- No keyword ends as the other one does. -/
theorem eq_of_suffix (h : IsKeyword word) (h' : IsKeyword word') {s : Bytes} (hs : word <:+ s)
    (hs' : word' <:+ s) : word = word' := by
  have hnot : ¬ (importWord <:+ s ∧ partWord <:+ s) := by
    rintro ⟨himport, hpart⟩
    rcases List.suffix_or_suffix_of_suffix himport hpart with hle | hle
    · exact absurd hle (by decide)
    · exact absurd hle (by decide)
  rcases h with rfl | rfl <;> rcases h' with rfl | rfl
  · rfl
  · exact absurd ⟨hs, hs'⟩ hnot
  · exact absurd ⟨hs', hs⟩ hnot
  · rfl

end IsKeyword

theorem Item.quiet_opener (i : Item) : Quiet i.opener :=
  i.keyword.quiet.append (quiet_of_blank i.blank)

/-! ### Where a declaration can start -/

/-- The end of a text says which keyword and which blanks it ends with. -/
theorem opener_unique {s s' word word' blanks blanks' : Bytes} (hword : IsKeyword word)
    (hword' : IsKeyword word') (hblank : ∀ b ∈ blanks, b ∈ blankBytes)
    (hblank' : ∀ b ∈ blanks', b ∈ blankBytes)
    (h : s ++ (word ++ blanks) = s' ++ (word' ++ blanks')) : word = word' ∧ blanks = blanks' := by
  obtain ⟨init, last, rfl⟩ := (List.eq_nil_or_concat' word).resolve_left hword.ne_nil
  obtain ⟨init', last', rfl⟩ := (List.eq_nil_or_concat' word').resolve_left hword'.ne_nil
  have hlast : last ∉ blankBytes := (hword.solid last (by simp)).2
  have hlast' : last' ∉ blankBytes := (hword'.solid last' (by simp)).2
  have hends : (s ++ init) ++ last :: blanks = (s' ++ init') ++ last' :: blanks' := by
    simpa using h
  obtain ⟨hinit, rfl, rfl⟩ := run_unique_at_end (p := (· ∈ blankBytes)) hblank hblank' hlast hlast' hends
  refine ⟨hword.eq_of_suffix hword' (s := s ++ init ++ [last]) ?_ ?_, rfl⟩
  · exact ⟨s, by simp⟩
  · exact ⟨s', by simp [hinit]⟩

/-- In front of the next quote stands the keyword with its blanks, and nothing else. -/
theorem run_of_at? {word run more : Bytes} {quote : UInt8} {found : Bytes × Bytes}
    (hrun : Quiet run) (hword : IsKeyword word) (hquote : quote ∈ quoteBytes)
    (h : at? word (run ++ quote :: more) = some found) :
    ∃ blanks : Bytes, blanks ≠ [] ∧ (∀ b ∈ blanks, b ∈ blankBytes) ∧ run = word ++ blanks := by
  obtain ⟨target, rest⟩ := found
  obtain ⟨d, -, -, hd⟩ := (at?_eq_some_iff 0).mp h
  rw [Span.text_append, ← List.append_assoc] at hd
  have hopener : Quiet (word ++ d.blanks) := hword.quiet.append (quiet_of_blank d.blank)
  obtain ⟨hsame, -, -⟩ := run_unique (p := (· ∉ quoteBytes)) hrun hopener (not_not_intro hquote)
    (not_not_intro d.opens) hd
  exact ⟨d.blanks, d.spaced, d.blank, hsame⟩

/-- A declaration takes two quotes. -/
theorem at?_of_one_quote {word s : Bytes} (h : s.countP isQuote ≤ 1) : at? word s = none := by
  by_contra hsome
  obtain ⟨⟨target, rest⟩, hfound⟩ := Option.ne_none_iff_exists'.mp hsome
  obtain ⟨d, -, -, rfl⟩ := (at?_eq_some_iff 0).mp hfound
  rw [Span.text_append, List.countP_append, List.countP_append,
    List.countP_cons_of_pos (isQuote_iff.mpr d.opens), List.countP_append,
    List.countP_cons_of_pos (isQuote_iff.mpr d.closes)] at h
  omega

/-- No declaration starts at a quote or in a target. -/
theorem at?_solid {word run more : Bytes} {quote : UInt8} (hword : IsKeyword word)
    (hrun : ∀ b ∈ run, b ∉ quoteBytes ∧ b ∉ blankBytes) (hquote : quote ∈ quoteBytes) :
    at? word (run ++ quote :: more) = none := by
  by_contra hsome
  obtain ⟨found, hfound⟩ := Option.ne_none_iff_exists'.mp hsome
  obtain ⟨blanks, hne, hblank, rfl⟩ := run_of_at? (fun b hb => (hrun b hb).1) hword hquote hfound
  obtain ⟨b, hb⟩ := List.exists_mem_of_ne_nil blanks hne
  exact (hrun b (List.mem_append_right word hb)).2 (hblank b hb)

/-- A start in front of a declaration would put more than the keyword and its blanks before the quote. -/
theorem at?_before_span {word gap : Bytes} (hword : IsKeyword word) (hgap : Quiet gap) (hne : gap ≠ [])
    (d : Span) (rest : Bytes) : at? word (gap ++ (d.text word ++ rest)) = none := by
  by_contra hsome
  obtain ⟨found, hfound⟩ := Option.ne_none_iff_exists'.mp hsome
  have hquiet : Quiet (gap ++ (word ++ d.blanks)) :=
    hgap.append (hword.quiet.append (quiet_of_blank d.blank))
  rw [Span.text_append, ← List.append_assoc word, ← List.append_assoc] at hfound
  obtain ⟨blanks, -, hblank, hrun⟩ := run_of_at? hquiet hword d.opens hfound
  rw [← List.nil_append (word ++ blanks)] at hrun
  obtain ⟨-, rfl⟩ := opener_unique hword hword d.blank hblank hrun
  exact hne (by simpa using hrun)

/-- In front of an opening quote a declaration starts with the keyword of the quote only. -/
theorem Item.of_at? (i : Item) {word gap run more : Bytes} {found : Bytes × Bytes}
    (hword : IsKeyword word) (hgap : Quiet gap) (hrun : run <:+ gap ++ i.opener)
    (h : at? word (run ++ i.opening :: more) = some found) : i.word = word := by
  have hquiet : Quiet run := (hgap.append i.quiet_opener).suffix hrun
  obtain ⟨blanks, -, hblank, rfl⟩ := run_of_at? hquiet hword i.opens h
  obtain ⟨before, hbefore⟩ := hrun
  exact (opener_unique hword i.keyword hblank i.blank hbefore).1.symm

/-! ### Scanning over the text -/

theorem scanOnto_of_at? {word s target rest : Bytes} (found : List Bytes)
    (h : at? word s = some (target, rest)) :
    scanOnto word found s = scanOnto word (target :: found) rest := by
  rw [scanOnto]
  split
  · rename_i heq
    rw [h] at heq
    cases heq
    rfl
  · rename_i hnone
    rw [h] at hnone
    cases hnone

theorem scanOnto_cons {word s : Bytes} {b : UInt8} (found : List Bytes)
    (h : at? word (b :: s) = none) : scanOnto word found (b :: s) = scanOnto word found s := by
  rw [scanOnto]
  split
  · rename_i heq
    rw [h] at heq
    cases heq
  · rfl

theorem scanOnto_skip {word skip rest : Bytes} (found : List Bytes)
    (h : ∀ s, s ≠ [] → s <:+ skip → at? word (s ++ rest) = none) :
    scanOnto word found (skip ++ rest) = scanOnto word found rest := by
  induction skip with
  | nil => rfl
  | cons b skip ih =>
    have hnone := h (b :: skip) (by simp) List.suffix_rfl
    rw [List.cons_append] at hnone ⊢
    rw [scanOnto_cons found hnone]
    apply ih
    intro s hne hs
    exact h s hne (hs.trans (List.suffix_cons b skip))

theorem scanOnto_skip_quote {word rest : Bytes} {quote : UInt8} (hword : IsKeyword word)
    (hquote : quote ∈ quoteBytes) (found : List Bytes) :
    scanOnto word found (quote :: rest) = scanOnto word found rest := by
  have hskip : scanOnto word found ([quote] ++ rest) = scanOnto word found rest := by
    apply scanOnto_skip
    intro s hne hs
    rcases List.suffix_cons_iff.mp hs with rfl | hs
    · have hnone : ∀ b ∈ ([] : Bytes), b ∉ quoteBytes ∧ b ∉ blankBytes := by simp
      exact at?_solid hword hnone hquote
    · exact absurd (List.suffix_nil.mp hs) hne
  exact hskip

/-- The scan takes the first declaration behind a text without quotes. -/
theorem scanOnto_span {word gap : Bytes} (hword : IsKeyword word) (found : List Bytes)
    (hgap : Quiet gap) (d : Span) (rest : Bytes) :
    scanOnto word found (gap ++ (d.text word ++ rest)) = scanOnto word (d.target :: found) rest := by
  have hstart : scanOnto word found (gap ++ (d.text word ++ rest)) =
      scanOnto word found (d.text word ++ rest) := by
    apply scanOnto_skip
    intro s hne hs
    exact at?_before_span hword (hgap.suffix hs) hne d rest
  have hat : at? word (d.text word ++ rest) = some (d.target, rest) :=
    (at?_eq_some_iff d.start).mpr ⟨d, rfl, rfl, rfl⟩
  rw [hstart, scanOnto_of_at? found hat]

/-- The scan for the keyword of a declaration takes its target. -/
theorem scanOnto_own {word gap rest : Bytes} (hword : IsKeyword word) (found : List Bytes)
    (hgap : Quiet gap) (i : Item) (hown : i.word = word) :
    scanOnto word found (gap ++ (i.text ++ rest)) =
      scanOnto word (i.target :: found) (i.trailer ++ rest) := by
  let d : Span := ⟨0, i.blanks, i.opening, i.target, i.closing, i.spaced, i.blank, i.opens, i.named,
    i.quiet_target, i.closes⟩
  have htext : i.text = d.text word ++ i.trailer := by
    simp [Item.text, Span.text, hown, d]
  rw [htext, List.append_assoc, scanOnto_span hword found hgap d]

/-- The scan for the other keyword passes over a declaration. -/
theorem scanOnto_other {word gap rest : Bytes} (hword : IsKeyword word) (found : List Bytes)
    (hgap : Quiet gap) (i : Item) (hother : i.word ≠ word) :
    scanOnto word found (gap ++ (i.text ++ rest)) =
      scanOnto word found (i.trailer ++ rest) := by
  have hopener : ∀ more, scanOnto word found (gap ++ i.opener ++ i.opening :: more) =
      scanOnto word found (i.opening :: more) := by
    intro more
    apply scanOnto_skip
    intro s _ hs
    by_contra hsome
    obtain ⟨target, hfound⟩ := Option.ne_none_iff_exists'.mp hsome
    exact hother (i.of_at? hword hgap hs hfound)
  have htarget : ∀ more, scanOnto word found (i.target ++ i.closing :: more) =
      scanOnto word found (i.closing :: more) := by
    intro more
    apply scanOnto_skip
    intro s _ hs
    exact at?_solid hword (fun b hb => i.plain b (hs.subset hb)) i.closes
  rw [i.text_append, ← List.append_assoc, hopener, scanOnto_skip_quote hword i.opens, htarget,
    scanOnto_skip_quote hword i.closes]

theorem scanOnto_nil (word : Bytes) (found : List Bytes) : scanOnto word found [] = found.reverse := by
  rw [scanOnto]
  split
  · rename_i heq
    rw [at?_of_one_quote (by simp)] at heq
    cases heq
  · rfl

theorem scanOnto_of_one_quote {word s : Bytes} (found : List Bytes)
    (h : s.countP isQuote ≤ 1) : scanOnto word found s = found.reverse := by
  have hskip : scanOnto word found (s ++ []) = scanOnto word found [] := by
    apply scanOnto_skip
    intro s' _ hs
    rw [List.append_nil]
    exact at?_of_one_quote (hs.sublist.countP_le.trans h)
  rw [List.append_nil] at hskip
  rw [hskip, scanOnto_nil]

theorem Quiet.countP_eq {s : Bytes} (h : Quiet s) : s.countP isQuote = 0 := by
  rw [List.countP_eq_zero]
  intro b hb
  rw [isQuote_iff]
  exact h b hb

theorem scanOnto_quiet {word s : Bytes} (found : List Bytes) (h : Quiet s) :
    scanOnto word found s = found.reverse :=
  scanOnto_of_one_quote found (by rw [h.countP_eq]; omega)

theorem scanOnto_items {word : Bytes} (hword : IsKeyword word) (items : List Item)
    (found : List Bytes) {gap : Bytes} (hgap : Quiet gap) :
    scanOnto word found (gap ++ items.flatMap Item.text) =
      found.reverse ++ (items.filter (·.word = word)).map Item.target := by
  -- The text behind a declaration is the gap in front of the next one.
  induction items generalizing found gap with
  | nil => simpa using scanOnto_quiet found hgap
  | cons i items ih =>
    rw [List.flatMap_cons]
    by_cases hown : i.word = word
    · rw [scanOnto_own hword found hgap i hown, ih _ i.quiet]
      simp [hown]
    · rw [scanOnto_other hword found hgap i hown, ih _ i.quiet]
      simp [hown]

/--
A text that is made of declarations has their targets and no others: those of the imports in the order of the
text, and behind them those of the parts. In front of the first declaration and behind each one may stand
anything without quotes, also a keyword.
-/
theorem targets_of_items {start : Bytes} (hstart : ∀ b ∈ start, b ∉ quoteBytes)
    (items : List Item) :
    targets (start ++ items.flatMap Item.text) =
      (items.filter (·.word = text "import")).map Item.target ++
        (items.filter (·.word = text "part")).map Item.target := by
  rw [targets, scan, scan, scanOnto_items (Or.inl rfl) items [] hstart,
    scanOnto_items (Or.inr rfl) items [] hstart]
  rfl

section Sample

def sampleItem (word target trailer : Bytes) (keyword : IsKeyword word) (named : target ≠ [])
    (plain : target.all (fun b => !isQuote b && !isBlank b) = true)
    (quiet : trailer.all (fun b => !isQuote b) = true) : Item where
  word := word
  blanks := [0x09, 0x0D, 0x0A]
  opening := 0x27
  target := target
  closing := 0x22
  trailer := trailer
  keyword := keyword
  spaced := by simp
  blank := by simp [blankBytes]
  opens := by simp [quoteBytes]
  named := named
  plain := by
    intro b hb
    rw [← isQuote_iff, ← isBlank_iff]
    simpa using List.all_eq_true.mp plain b hb
  closes := by simp [quoteBytes]
  quiet := quiet_of_all quiet

def sampleItems : List Item :=
  [sampleItem partWord (text "b.dart") (text " import ") (Or.inr rfl) (by decide) rfl rfl,
    sampleItem importWord (text "a.dart") (text " show part; im") (Or.inl rfl) (by decide) rfl rfl,
    sampleItem partWord (text "part") [] (Or.inr rfl) (by decide) rfl rfl]

def sampleText : Bytes :=
  text "part import part\t\r\n'b.dart\" import import\t\r\n'a.dart\" show part; impart\t\r\n'part\""

theorem targets_of_items_sample :
    targets sampleText = [text "a.dart", text "b.dart", text "part"] := by
  have hquiet : (text "part import ").all (fun b => !isQuote b) = true := rfl
  have hstart : ∀ b ∈ text "part import ", b ∉ quoteBytes := by
    intro b hb
    rw [← isQuote_iff]
    simpa using List.all_eq_true.mp hquiet b hb
  have htext : sampleText = text "part import " ++ sampleItems.flatMap Item.text := by
    decide +kernel
  rw [htext, targets_of_items hstart]
  decide +kernel

end Sample

end DartReach.Declaration
