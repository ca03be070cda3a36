import Mathlib.Data.List.Basic
import DartReach.Yaml.Token.Scalar
import DartReach.Yaml.Writer

/-!
# How visible texts are written

A text of visible characters is written plain, in single quotes or in double quotes, on one line. Either
way it is a row of words with spaces between them; which words there can be depends on the way of writing.
-/

namespace DartReach.Yaml

set_option autoImplicit false

/-- Spaces and the printed characters of ASCII. -/
def IsVisible (c : Char) : Prop := 0x20 ≤ c.toNat ∧ c.toNat ≤ 0x7E

instance : DecidablePred IsVisible := fun _ => inferInstanceAs (Decidable (_ ∧ _))

namespace IsVisible

variable {c : Char}

theorem ne_of (h : IsVisible c) {d : Char} (hd : ¬ IsVisible d) : c ≠ d := by
  intro heq
  exact hd (heq ▸ h)

theorem isBreak_eq (h : IsVisible c) : isBreak c = false := by
  simp only [isBreak, Bool.or_eq_false_iff, decide_eq_false_iff_not]
  exact ⟨⟨⟨⟨h.ne_of (by decide), h.ne_of (by decide)⟩, h.ne_of (by decide)⟩, h.ne_of (by decide)⟩,
    h.ne_of (by decide)⟩

theorem isBlank_eq (h : IsVisible c) : isBlank c = decide (c = ' ') := by
  have htab : c ≠ '\t' := h.ne_of (by decide)
  simp [isBlank, htab]

theorem endsLine_eq (h : IsVisible c) : endsLine c = false := by
  have hnul : c ≠ nul := h.ne_of (by decide)
  simp [endsLine, h.isBreak_eq, hnul]

theorem endsWord_eq (h : IsVisible c) : endsWord c = decide (c = ' ') := by
  simp [endsWord, h.isBlank_eq, h.endsLine_eq]

theorem isPrintable_eq (h : IsVisible c) : Writer.isPrintable c = true := by
  obtain ⟨hlow, hhigh⟩ := h
  simp [Writer.isPrintable, hlow, hhigh]

end IsVisible

/-! ### How a visible text is written -/

namespace Writer

/-- Texts of visible characters, all on one line. -/
def Visible (cs : List Char) : Prop := ∀ c ∈ cs, IsVisible c

variable {cs : List Char}

theorem hasNeighbours_eq_false {p q : Char → Bool}
    (h : (∀ c ∈ cs, p c = false) ∨ ∀ c ∈ cs, q c = false) : hasNeighbours p q cs = false := by
  induction cs with
  | nil => rfl
  | cons a rest ih =>
    cases rest with
    | nil => rfl
    | cons b rest =>
      rw [hasNeighbours]
      rcases h with hp | hq
      · rw [ih (Or.inl fun c hc => hp c (List.mem_cons_of_mem _ hc)), hp a List.mem_cons_self]
        rfl
      · rw [ih (Or.inr fun c hc => hq c (List.mem_cons_of_mem _ hc)),
          hq b (List.mem_cons_of_mem _ List.mem_cons_self)]
        simp

theorem fitsSingle_of_visible (h : Visible cs) : fitsSingle cs = true := by
  have hhidden : hasHidden cs = false := by
    rw [hasHidden, List.any_eq_false]
    intro c hc
    simp [(h c hc).isPrintable_eq]
  have hbreak : ∀ c ∈ cs, isBreak c = false := fun c hc => (h c hc).isBreak_eq
  have htab : '\t' ∉ cs := fun hc => absurd (h _ hc) (by decide)
  simp [fitsSingle, hhidden, hasSpaceBreak, hasNeighbours_eq_false (Or.inr hbreak),
    hasNeighbours_eq_false (Or.inl hbreak), htab]

theorem styleOf_visible (h : Visible cs) :
    styleOf cs = if readsAsString cs then (if fitsPlain cs then .plain else .singleQuoted)
      else .doubleQuoted := by
  have hfeed : '\n' ∉ cs := fun hc => absurd (h _ hc) (by decide)
  simp [styleOf, hfeed, fitsSingle_of_visible h]

/-- A character between quotes. -/
def quoteChar (single : Bool) (c : Char) : List Char :=
  if single then (if c = '\'' then ['\'', '\''] else [c])
  else if c = '"' ∨ c = '\\' then ['\\', c]
  else [c]

/-- The sign that opens and closes quotes. -/
def quoteSign (single : Bool) : Char := if single then '\'' else '"'

def quotedText (single : Bool) (cs : List Char) : List Char :=
  quoteSign single :: (cs.flatMap (quoteChar single) ++ [quoteSign single])

theorem singleBody_visible (h : Visible cs) (indent : Nat) :
    singleBody indent false cs = cs.flatMap (quoteChar true) := by
  induction cs with
  | nil => rfl
  | cons c rest ih =>
    have hbreak := (h c List.mem_cons_self).isBreak_eq
    rw [singleBody, ih (fun d hd => h d (List.mem_cons_of_mem _ hd))]
    simp [hbreak, quoteChar]

theorem doubleChar_visible {c : Char} (h : IsVisible c) : doubleChar c = quoteChar false c := by
  have hprint := h.isPrintable_eq
  have hbreak := h.isBreak_eq
  by_cases hquote : c = '"'
  · subst hquote
    rfl
  by_cases hslash : c = '\\'
  · subst hslash
    rfl
  simp [doubleChar, quoteChar, hprint, hbreak, hquote, hslash]

theorem double_visible (h : Visible cs) : double cs = quotedText false cs := by
  have hbody : cs.flatMap doubleChar = cs.flatMap (quoteChar false) := by
    induction cs with
    | nil => rfl
    | cons c rest ih =>
      rw [List.flatMap_cons, List.flatMap_cons, doubleChar_visible (h c List.mem_cons_self),
        ih (fun d hd => h d (List.mem_cons_of_mem _ hd))]
  simp [double, hbody, quotedText, quoteSign]

/-- A visible text as it stands in its line. -/
def written (cs : List Char) : List Char :=
  match styleOf cs with
  | .plain => cs
  | .singleQuoted => quotedText true cs
  | _ => quotedText false cs

theorem textScalar_visible (h : Visible cs) (indent : Nat) :
    textScalar indent (styleOf cs) cs = written cs ++ ['\n'] := by
  unfold written
  rw [styleOf_visible h]
  split
  · split
    · rfl
    · simp [textScalar, single, singleBody_visible h, quotedText, quoteSign]
  · simp [textScalar, double_visible h]

end Writer

/-! ### Words and the spaces between them -/

namespace Scalar

open Writer (Visible hasInnerSign blankFollows)

/-- A text cut into words with spaces between them. -/
inductive Spaced (good : List Char → Prop) : List Char → Prop where
  | last {word : List Char} (isGood : good word) : Spaced good word
  | more (word spaces rest : List Char) (isGood : good word) (some : spaces ≠ [])
      (blank : ∀ c ∈ spaces, c = ' ') (starts : rest.head? ≠ Option.some ' ')
      (further : Spaced good rest) : Spaced good (word ++ (spaces ++ rest))

/-- A word between quotes; there is none between two spaces. -/
def QuotedWord (word : List Char) : Prop := Visible word ∧ ' ' ∉ word

/-- A word of a plain scalar. -/
structure PlainWord (word : List Char) : Prop where
  ne_nil : word ≠ []
  visible : Visible word
  noSpace : ' ' ∉ word
  noHash : word.head? ≠ some '#'
  noColon : word.getLast? ≠ some ':'

theorem spaced_quoted {cs : List Char} (h : Visible cs) : Spaced QuotedWord cs := by
  induction cs with
  | nil => exact .last ⟨h, by simp⟩
  | cons c rest ih =>
    have hc := h c List.mem_cons_self
    have hrest : Visible rest := fun d hd => h d (List.mem_cons_of_mem _ hd)
    have hspaced := ih hrest
    by_cases hspace : c = ' '
    · subst hspace
      cases hspaced with
      | last isGood =>
        have hhead : rest.head? ≠ some ' ' := fun hh => isGood.2 (List.mem_of_head? hh)
        exact .more [] [' '] _ ⟨by simp [Visible], by simp⟩ (by simp) (by simp)
          hhead (.last isGood)
      | more word spaces rest isGood hsome blank starts further =>
        cases word with
        | nil =>
          have hspaces : ∀ d ∈ ' ' :: spaces, d = ' ' := by
            intro d hd
            rcases List.mem_cons.mp hd with hd | hd
            · exact hd
            · exact blank d hd
          exact .more [] (' ' :: spaces) rest isGood (by simp) hspaces starts further
        | cons d word =>
          have hhead : (d :: word ++ (spaces ++ rest)).head? ≠ some ' ' := by
            intro hh
            apply isGood.2
            simp only [List.cons_append, List.head?_cons, Option.some.injEq] at hh
            simp [hh]
          exact .more [] [' '] _ ⟨by simp [Visible], by simp⟩ (by simp) (by simp)
            hhead (.more _ _ _ isGood hsome blank starts further)
    · have hword : ∀ word, QuotedWord word → QuotedWord (c :: word) := by
        intro word hgood
        refine ⟨?_, by simp [Ne.symm hspace, hgood.2]⟩
        intro d hd
        rcases List.mem_cons.mp hd with rfl | hd
        · exact hc
        · exact hgood.1 d hd
      cases hspaced with
      | last isGood => exact .last (hword _ isGood)
      | more word spaces rest isGood hsome blank starts further =>
        exact .more _ _ _ (hword _ isGood) hsome blank starts further

theorem hasInnerSign_append {previous c : Char} {xs ys : List Char}
    (h : hasInnerSign previous (xs ++ c :: ys) = false) : hasInnerSign c ys = false := by
  induction xs generalizing previous with
  | nil =>
    rw [List.nil_append, hasInnerSign, Bool.or_eq_false_iff] at h
    exact h.2
  | cons x xs ih =>
    rw [List.cons_append, hasInnerSign, Bool.or_eq_false_iff] at h
    exact ih h.2

theorem blankFollows_of_hasInnerSign {previous : Char} {xs ys : List Char}
    (h : hasInnerSign previous (xs ++ ':' :: ys) = false) : blankFollows ys = false := by
  induction xs generalizing previous with
  | nil =>
    rw [List.nil_append, hasInnerSign, Bool.or_eq_false_iff, Bool.or_eq_false_iff] at h
    simpa using h.1.1
  | cons x xs ih =>
    rw [List.cons_append, hasInnerSign, Bool.or_eq_false_iff] at h
    exact ih h.2

theorem plainWord_of_quoted {word rest : List Char} (hw : QuotedWord word) (hne : word ≠ [])
    (hsign : hasInnerSign ' ' (word ++ rest) = false) (hrest : blankFollows rest = true) :
    PlainWord word := by
  refine ⟨hne, hw.1, hw.2, ?_, ?_⟩
  · intro hhash
    obtain ⟨tail, rfl⟩ := List.head?_eq_some_iff.mp hhash
    rw [List.cons_append, hasInnerSign, Bool.or_eq_false_iff, Bool.or_eq_false_iff] at hsign
    simp [endsWord, isBlank] at hsign
  · intro hcolon
    obtain ⟨front, rfl⟩ := List.getLast?_eq_some_iff.mp hcolon
    rw [List.append_assoc, List.singleton_append] at hsign
    rw [blankFollows_of_hasInnerSign hsign] at hrest
    cases hrest

theorem spaced_plain {cs : List Char} (h : Spaced QuotedWord cs) (hne : cs ≠ [])
    (hfirst : cs.head? ≠ some ' ') (hlast : cs.getLast? ≠ some ' ')
    (hsign : hasInnerSign ' ' cs = false) : Spaced PlainWord cs := by
  induction h with
  | @last word isGood =>
    apply Spaced.last
    rw [← List.append_nil word] at hsign
    exact plainWord_of_quoted isGood hne hsign rfl
  | more word spaces rest isGood hsome blank starts further ih =>
    obtain ⟨first, spaces, rfl⟩ := List.exists_cons_of_ne_nil hsome
    obtain rfl : first = ' ' := blank first List.mem_cons_self
    have hword : word ≠ [] := by
      rintro rfl
      simp at hfirst
    have hrest : rest ≠ [] := by
      rintro rfl
      apply hlast
      rw [List.append_nil, List.getLast?_append, List.getLast?_eq_some_getLast hsome]
      simp [blank _ (List.getLast_mem hsome)]
    refine .more _ _ _ (plainWord_of_quoted isGood hword hsign rfl) hsome blank starts ?_
    apply ih hrest starts
    · rw [List.getLast?_append, List.getLast?_append] at hlast
      rw [List.getLast?_eq_some_getLast hrest] at hlast ⊢
      simpa using hlast
    · obtain ⟨front, hfront⟩ : ∃ front, ' ' :: spaces = front ++ [' '] := by
        refine ⟨(' ' :: spaces).dropLast, ?_⟩
        conv_lhs => rw [← List.dropLast_append_getLast hsome]
        rw [blank _ (List.getLast_mem hsome)]
      rw [hfront, List.append_assoc, List.singleton_append, ← List.append_assoc] at hsign
      exact hasInnerSign_append hsign

end Scalar

end DartReach.Yaml
