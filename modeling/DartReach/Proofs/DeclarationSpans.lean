import Mathlib.Data.List.TakeWhile
import Mathlib.Data.Set.Subsingleton
import DartReach.Proofs.ByteRuns
import DartReach.Source.Declaration

/-!
# Declarations as spans of a text

A declaration is a keyword, white space and a target in quotes. All its parts are runs of bytes, so at
most one declaration with a given keyword starts at a place, and the scan knows it there. The scan takes
the first declaration, then the first one behind it, and so on to the end of the text.
-/

namespace DartReach.Declaration

set_option autoImplicit false

def blankBytes : List UInt8 := [0x09, 0x0A, 0x0C, 0x0D, 0x20]

def quoteBytes : List UInt8 := [0x22, 0x27]

theorem isBlank_iff {b : UInt8} : isBlank b = true ↔ b ∈ blankBytes := by
  simp [isBlank, blankBytes, or_assoc]

theorem isQuote_iff {b : UInt8} : isQuote b = true ↔ b ∈ quoteBytes := by
  simp [isQuote, quoteBytes]

theorem not_blank_of_quote {b : UInt8} (h : b ∈ quoteBytes) : b ∉ blankBytes := by
  simp only [quoteBytes, List.mem_cons, List.not_mem_nil, or_false] at h
  rcases h with rfl | rfl <;> decide

/-- A declaration that starts at some offset, in its parts. -/
@[ext] structure Span where
  start : Nat
  blanks : Bytes
  opening : UInt8
  target : Bytes
  closing : UInt8
  spaced : blanks ≠ []
  blank : ∀ b ∈ blanks, b ∈ blankBytes
  opens : opening ∈ quoteBytes
  named : target ≠ []
  plain : ∀ b ∈ target, b ∉ quoteBytes
  closes : closing ∈ quoteBytes

namespace Span

/-- The text of a declaration with keyword `word`. -/
def text (word : Bytes) (d : Span) : Bytes :=
  word ++ d.blanks ++ [d.opening] ++ d.target ++ [d.closing]

/-- The offset behind a declaration. -/
def stop (word : Bytes) (d : Span) : Nat := d.start + (d.text word).length

/-- The declaration stands in a text where it says. -/
def Matches (word content : Bytes) (d : Span) : Prop := d.text word <+: content.drop d.start

theorem text_append (word rest : Bytes) (d : Span) :
    d.text word ++ rest =
      word ++ (d.blanks ++ d.opening :: (d.target ++ d.closing :: rest)) := by
  simp [text]

theorem text_ne_nil (word : Bytes) (d : Span) : d.text word ≠ [] := by
  simp [text]

/-- The text of a declaration says where each of its parts ends. -/
theorem eq_of_text_append {word rest rest' : Bytes} {d d' : Span} (hstart : d.start = d'.start)
    (h : d.text word ++ rest = d'.text word ++ rest') : d = d' := by
  rw [text_append, text_append, List.append_cancel_left_eq] at h
  obtain ⟨hblanks, hopening, hmore⟩ := run_unique (p := (· ∈ blankBytes)) d.blank d'.blank
    (not_blank_of_quote d.opens) (not_blank_of_quote d'.opens) h
  obtain ⟨htarget, hclosing, _⟩ := run_unique (p := (· ∉ quoteBytes)) d.plain d'.plain
    (not_not_intro d.closes) (not_not_intro d'.closes) hmore
  exact Span.ext hstart hblanks hopening htarget hclosing

theorem Matches.unique {word content : Bytes} {d d' : Span} (h : d.Matches word content)
    (h' : d'.Matches word content) (hstart : d.start = d'.start) : d = d' := by
  obtain ⟨rest, hrest⟩ := h
  obtain ⟨rest', hrest'⟩ := h'
  have htexts : d.text word ++ rest = d'.text word ++ rest' := by
    rw [hrest, hrest', hstart]
  exact eq_of_text_append hstart htexts

theorem Matches.start_lt {word content : Bytes} {d : Span} (h : d.Matches word content) :
    d.start < content.length := by
  have hle := List.IsPrefix.length_le h
  have hpos := List.length_pos_iff.mpr (d.text_ne_nil word)
  rw [List.length_drop] at hle
  omega

end Span

/-! ### One declaration -/

theorem quoted?_eq_some_iff {s target rest : Bytes} :
    quoted? s = some (target, rest) ↔ ∃ opening closing,
      s = opening :: (target ++ closing :: rest) ∧ opening ∈ quoteBytes ∧ target ≠ [] ∧
        (∀ b ∈ target, b ∉ quoteBytes) ∧ closing ∈ quoteBytes := by
  constructor
  · intro h
    cases s with
    | nil => cases h
    | cons opening s =>
      rw [quoted?] at h
      split at h
      · rename_i hopening
        split at h
        · rename_i b bs closing more htake hdrop
          cases h
          refine ⟨opening, closing, ?_, isQuote_iff.mp hopening, by simp, ?_, ?_⟩
          · rw [← htake, ← hdrop, List.takeWhile_append_dropWhile]
          · intro c hc
            rw [← htake] at hc
            have hplain := List.mem_takeWhile_imp hc
            rw [← isQuote_iff]
            simpa using hplain
          · have hstop := List.head_dropWhile_not (fun b => !isQuote b) (l := s) (by simp [hdrop])
            simp only [hdrop, List.head_cons, Bool.not_eq_false'] at hstop
            exact isQuote_iff.mp hstop
        · cases h
      · cases h
  · rintro ⟨opening, closing, rfl, hopens, hnamed, hplain, hcloses⟩
    have hrun : ∀ b ∈ target, (!isQuote b) = true := by
      intro b hb
      rw [Bool.not_eq_true', ← Bool.not_eq_true, isQuote_iff]
      exact hplain b hb
    have hstop : (!isQuote closing) = false := by
      rw [Bool.not_eq_false', isQuote_iff]
      exact hcloses
    rw [quoted?, if_pos (isQuote_iff.mpr hopens), takeWhile_run hrun hstop,
      dropWhile_run hrun hstop]
    cases target with
    | nil => exact absurd rfl hnamed
    | cons b bs => rfl

/-- The scan knows the declarations that start where it stands. -/
theorem at?_eq_some_iff {word s target rest : Bytes} (i : Nat) :
    at? word s = some (target, rest) ↔
      ∃ d : Span, d.start = i ∧ d.target = target ∧ s = d.text word ++ rest := by
  constructor
  · intro h
    rw [at?] at h
    split at h
    · cases h
    · rename_i more hmore
      rw [Bytes.after?_eq_some_iff] at hmore
      split at h
      · cases h
      · rename_i hspaced
        obtain ⟨opening, closing, hquoted, hopens, hnamed, hplain, hcloses⟩ :=
          quoted?_eq_some_iff.mp h
        have hblank : ∀ b ∈ more.takeWhile isBlank, b ∈ blankBytes := by
          intro b hb
          exact isBlank_iff.mp (List.mem_takeWhile_imp hb)
        refine ⟨⟨i, more.takeWhile isBlank, opening, target, closing, by simpa using hspaced, hblank,
          hopens, hnamed, hplain, hcloses⟩, rfl, rfl, ?_⟩
        rw [Span.text_append, ← hquoted, List.takeWhile_append_dropWhile]
        exact hmore
  · rintro ⟨d, _, rfl, rfl⟩
    have hrun : ∀ b ∈ d.blanks, isBlank b = true := fun b hb => isBlank_iff.mpr (d.blank b hb)
    have hstop : isBlank d.opening = false := by
      rw [← Bool.not_eq_true, isBlank_iff]
      exact not_blank_of_quote d.opens
    rw [Span.text_append, at?, Bytes.after?_eq_some_iff.mpr rfl]
    simp only
    rw [takeWhile_run hrun hstop, dropWhile_run hrun hstop, if_neg (by simpa using d.spaced)]
    exact quoted?_eq_some_iff.mpr
      ⟨d.opening, d.closing, rfl, d.opens, d.named, d.plain, d.closes⟩

/-! ### All declarations -/

/--
The declarations from an offset on that a scan takes: the first one, then those from its end on, until none is
left.
-/
inductive Leftmost (word content : Bytes) : (offset : Nat) → List Span → Prop where
  | done {offset : Nat} (none : ∀ d : Span, d.Matches word content → d.start < offset) :
      Leftmost word content offset []
  | next {offset : Nat} {d : Span} {rest : List Span} (found : d.Matches word content)
      (ahead : offset ≤ d.start)
      (first : ∀ d' : Span, d'.Matches word content → offset ≤ d'.start → d.start ≤ d'.start)
      (further : Leftmost word content (d.stop word) rest) :
      Leftmost word content offset (d :: rest)

namespace Leftmost

variable {word content : Bytes} {offset : Nat} {spans : List Span}

theorem unique {spans' : List Span} (h : Leftmost word content offset spans)
    (h' : Leftmost word content offset spans') : spans = spans' := by
  induction h generalizing spans' with
  | done none =>
    cases h' with
    | done => rfl
    | next found ahead => exact absurd (none _ found) (by omega)
  | next found ahead first further ih =>
    cases h' with
    | done none => exact absurd (none _ found) (by omega)
    | next found' ahead' first' further' =>
      have hle := first _ found' ahead'
      have hge := first' _ found ahead
      obtain rfl := found.unique found' (by omega)
      rw [ih further']

/-- A place where no declaration starts can be passed over. -/
theorem pass (h : Leftmost word content (offset + 1) spans)
    (hnone : ∀ d : Span, d.Matches word content → d.start ≠ offset) :
    Leftmost word content offset spans := by
  cases h with
  | done none =>
    refine .done fun d hd => ?_
    have hlt := none d hd
    have hne := hnone d hd
    omega
  | next found ahead first further =>
    refine .next found (by omega) (fun d' hd' hle => ?_) further
    have hne := hnone d' hd'
    exact first d' hd' (by omega)

end Leftmost

/-- From every place of a text the scan goes on to take the declarations that are due. -/
theorem leftmost_scanOnto (word : Bytes) (found : List Bytes) (s before : Bytes) :
    ∃ spans, Leftmost word (before ++ s) before.length spans ∧
      scanOnto word found s = found.reverse ++ spans.map Span.target := by
  -- The recursion of the scan: what was read moves from `s` to `before`.
  fun_induction scanOnto word found s generalizing before with
  | case1 found s target rest hat _ ih =>
    obtain ⟨d, hstart, htarget, rfl⟩ := (at?_eq_some_iff before.length).mp hat
    obtain ⟨spans, hspans, hscan⟩ := ih (before ++ d.text word)
    rw [List.length_append, ← hstart, List.append_assoc] at hspans
    refine ⟨d :: spans, .next ?_ (Nat.le_of_eq hstart.symm) (fun d' _ hle => hstart ▸ hle) hspans, ?_⟩
    · rw [Span.Matches, hstart, List.drop_left]
      exact List.prefix_append _ _
    · rw [hscan, List.map_cons, htarget, List.reverse_cons, List.append_assoc]
      rfl
  | case2 found hat =>
    refine ⟨[], .done fun d hd => ?_, by simp⟩
    rw [List.append_nil] at hd
    exact hd.start_lt
  | case3 found b s hat ih =>
    obtain ⟨spans, hspans, hscan⟩ := ih (before ++ [b])
    rw [List.length_append, List.append_assoc, List.singleton_append] at hspans
    refine ⟨spans, hspans.pass fun d hd hstart => ?_, hscan⟩
    obtain ⟨rest, hrest⟩ := hd
    rw [hstart, List.drop_left] at hrest
    have hsome := (at?_eq_some_iff before.length).mpr ⟨d, hstart, rfl, hrest.symm⟩
    rw [hat] at hsome
    cases hsome

theorem leftmost_scan (word content : Bytes) :
    ∃ spans, Leftmost word content 0 spans ∧ scan word content = spans.map Span.target :=
  leftmost_scanOnto word [] content []

theorem scanOnto_eq_append (word : Bytes) (found : List Bytes) (s : Bytes) :
    scanOnto word found s = found.reverse ++ scan word s := by
  obtain ⟨spans, hspans, hscan⟩ := leftmost_scanOnto word found s []
  obtain ⟨spans', hspans', hscan'⟩ := leftmost_scan word s
  rw [hscan, hscan', hspans.unique hspans']

/--
The targets of a text are those of its imports and behind them those of its parts. For either keyword the
declarations are taken from the left without overlap, which determines them, because at most one of them
starts at a place.
-/
theorem targets_of_leftmost_spans (content : Bytes) :
    (∀ word start, {d : Span | d.Matches word content ∧ d.start = start}.Subsingleton) ∧
    ∃ imports parts : List Span,
      (∀ spans, Leftmost (text "import") content 0 spans ↔ spans = imports) ∧
      (∀ spans, Leftmost (text "part") content 0 spans ↔ spans = parts) ∧
      targets content = imports.map Span.target ++ parts.map Span.target := by
  constructor
  · rintro word start d ⟨hd, hstart⟩ d' ⟨hd', hstart'⟩
    exact hd.unique hd' (hstart.trans hstart'.symm)
  · obtain ⟨imports, himports, hscanImports⟩ := leftmost_scan importWord content
    obtain ⟨parts, hparts, hscanParts⟩ := leftmost_scan partWord content
    refine ⟨imports, parts, fun spans => ⟨fun h => h.unique himports, ?_⟩,
      fun spans => ⟨fun h => h.unique hparts, ?_⟩, ?_⟩
    · rintro rfl
      exact himports
    · rintro rfl
      exact hparts
    · rw [targets, hscanImports, hscanParts]

end DartReach.Declaration
