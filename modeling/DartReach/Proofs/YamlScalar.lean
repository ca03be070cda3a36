import DartReach.Proofs.YamlWords

/-!
# Scalars read back

The reader takes a scalar word by word: a word, the spaces behind it, and so on to the end of the line or
to the closing quote. Each of the three ways of writing gives the text back.
-/

namespace DartReach.Yaml

set_option autoImplicit false

/-! ### Moving along a line -/

theorem takeWhile_append_stop {p : Char → Bool} {run more : List Char}
    (hrun : ∀ c ∈ run, p c = true) (hmore : p (more.headD nul) = false) :
    (run ++ more).takeWhile p = run := by
  rw [List.takeWhile_append_of_pos hrun]
  cases more with
  | nil => simp
  | cons c more =>
    rw [List.headD_cons] at hmore
    rw [List.takeWhile_cons_of_neg (by simp [hmore]), List.append_nil]

namespace Cursor

variable {c : Cursor} {taken more : List Char}

theorem ensure_ok (h : c.fault = none) (n : Nat) : c.ensure n = .ok () := by
  rw [ensure, h]

@[simp] theorem past_nil (c : Cursor) : c.past [] = c := by
  simp [past]

@[simp] theorem past_past (c : Cursor) (xs ys : List Char) : (c.past xs).past ys = c.past (xs ++ ys) := by
  simp [past, Nat.add_assoc, Bool.and_assoc]

@[simp] theorem fault_past (c : Cursor) (taken : List Char) : (c.past taken).fault = c.fault := rfl

@[simp] theorem column_past (c : Cursor) (taken : List Char) :
    (c.past taken).mark.column = c.mark.column + taken.length := rfl

theorem rest_past (h : c.rest = taken ++ more) : (c.past taken).rest = more := by
  simp [past, h]

theorem head_eq {ch : Char} (h : c.rest = ch :: more) : c.head = ch := by
  rw [head, h, List.headD_cons]

theorem skip_eq (h : c.rest = taken ++ more) : c.skip taken.length = c.past taken := by
  rw [skip, h, List.take_left]

theorem skip_one {ch : Char} (h : c.rest = ch :: more) : c.skip 1 = c.past [ch] :=
  @skip_eq c [ch] more h

theorem takeRun_eq {p : Char → Bool} (hf : c.fault = none) (hr : c.rest = taken ++ more)
    (hrun : ∀ ch ∈ taken, p ch = true) (hmore : p (more.headD nul) = false) :
    c.takeRun p = .ok (taken, c.past taken) := by
  have htake : c.rest.takeWhile p = taken := by rw [hr, takeWhile_append_stop hrun hmore]
  unfold takeRun
  rw [htake]
  dsimp only
  rw [ensure_ok (c := c.past taken) hf]

theorem takeRun_none {p : Char → Bool} (hf : c.fault = none) (hp : p c.head = false) :
    c.takeRun p = .ok ([], c) := by
  have hrun := takeRun_eq hf (List.nil_append c.rest).symm (by simp) hp
  rw [past_nil] at hrun
  exact hrun

theorem not_atBoundary (h : 0 < c.mark.column) : c.atBoundary = false := by
  have hne : c.mark.column ≠ 0 := by omega
  simp [atBoundary, atDocument, hne]

/-- The cursor behind the break of its line and the spaces at the start of the next one. -/
def toLine (c : Cursor) (spaces : Nat) : Cursor := (c.pastBreak 1).past (List.replicate spaces ' ')

theorem rest_toLine {spaces : Nat} (h : c.rest = '\n' :: (List.replicate spaces ' ' ++ more)) :
    (c.toLine spaces).rest = more := by
  apply rest_past
  simp [pastBreak, h]

@[simp] theorem fault_toLine (c : Cursor) (spaces : Nat) : (c.toLine spaces).fault = c.fault := rfl

@[simp] theorem column_toLine (c : Cursor) (spaces : Nat) : (c.toLine spaces).mark.column = spaces := by
  simp [toLine, pastBreak]

theorem takeBreak_eq (h : c.rest = '\n' :: more) : c.takeBreak = (['\n'], c.pastBreak 1) := by
  unfold takeBreak
  rw [h]
  rfl

end Cursor

/-- What stands at the start of a line, behind its indentation: no blank, no break and no comment. -/
structure StartsToken (rest : List Char) : Prop where
  notBlank : isBlank (rest.headD nul) = false
  notBreak : isBreak (rest.headD nul) = false
  notHash : rest.headD nul ≠ '#'
  notMark : rest.headD nul ≠ '\ufeff'

namespace Scalar

open Writer (Visible hasInnerSign blankFollows)

theorem gap_in_line {c : Cursor} {floor : Nat} {began : Mark} {spaces more : List Char}
    (hf : c.fault = none) (hr : c.rest = spaces ++ more) (hs : ∀ ch ∈ spaces, ch = ' ')
    (hblank : isBlank (more.headD nul) = false) (hbreak : isBreak (more.headD nul) = false) :
    gap floor began c = .ok (.blanks spaces, c.past spaces) := by
  have hrun : c.takeRun isBlank = .ok (spaces, c.past spaces) := by
    apply Cursor.takeRun_eq hf hr _ hblank
    intro ch hch
    rw [hs ch hch]
    rfl
  have hhead : (c.past spaces).head = more.headD nul := by
    rw [Cursor.head, Cursor.rest_past hr]
  unfold gap
  rw [hrun]
  simp only [bind, Except.bind]
  rw [hhead, hbreak]
  rfl

theorem gap_at_end {c : Cursor} {floor spaces : Nat} {began : Mark} {rest : List Char}
    (hf : c.fault = none) (hr : c.rest = '\n' :: (List.replicate spaces ' ' ++ rest))
    (ht : StartsToken rest) :
    gap floor began c = .ok (.lines ['\n'] [], c.toLine spaces) := by
  have hrun : c.takeRun isBlank = .ok ([], c) := by
    apply Cursor.takeRun_none hf
    rw [Cursor.head_eq hr]
    rfl
  have hindent : (c.pastBreak 1).rest = List.replicate spaces ' ' ++ rest := by
    simp [Cursor.pastBreak, hr]
  have htake : (c.pastBreak 1).rest.takeWhile isBlank = List.replicate spaces ' ' := by
    rw [hindent]
    apply takeWhile_append_stop _ ht.notBlank
    intro ch hch
    rw [(List.mem_replicate.mp hch).2]
    rfl
  have hhead : ((c.pastBreak 1).past (List.replicate spaces ' ')).head = rest.headD nul := by
    rw [Cursor.head, Cursor.rest_past hindent]
  have htab : ∀ n, ((List.replicate spaces ' ').take n).contains '\t' = false := by
    intro n
    simp [List.take_replicate, List.mem_replicate]
  unfold gap
  rw [hrun]
  simp only [bind, Except.bind, Cursor.head_eq hr, Cursor.takeBreak_eq hr, Cursor.ensure_ok hf]
  rw [if_pos (show isBreak '\n' = true from rfl), moreBreaks]
  simp only [bind, Except.bind, htake, htab]
  rw [Cursor.ensure_ok (by exact hf), hhead, ht.notBreak]
  rfl

/-! ### Plain scalars -/

theorem plainWord_append {word more : List Char} (hword : ∀ ch ∈ word, endsWord ch = false)
    (hcolon : word.getLast? ≠ some ':') (hmore : plainWord false more = []) :
    plainWord false (word ++ more) = word := by
  induction word with
  | nil => exact hmore
  | cons ch word ih =>
    have hch := hword ch List.mem_cons_self
    have hgo : (ch = ':' && endsWord ((word ++ more).headD nul)) = false := by
      cases word with
      | nil =>
        have hne : ch ≠ ':' := by
          intro heq
          apply hcolon
          simp [heq]
        simp [hne]
      | cons d word =>
        rw [List.cons_append, List.headD_cons, hword d (by simp), Bool.and_false]
    have hrest : plainWord false (word ++ more) = word := by
      apply ih (fun d hd => hword d (List.mem_cons_of_mem _ hd))
      intro hlast
      apply hcolon
      cases word with
      | nil => cases hlast
      | cons d word => rwa [List.getLast?_cons_cons]
    rw [List.cons_append, plainWord, hch, hgo, hrest]
    rfl

theorem plainWord_eq_nil {more : List Char} (h : endsWord (more.headD nul) = true) :
    plainWord false more = [] := by
  cases more with
  | nil => rfl
  | cons ch more =>
    rw [List.headD_cons] at h
    rw [plainWord, h]
    rfl

theorem plainFrom_word {c c' : Cursor} {floor n : Nat} {began : Mark} {word rev : List Char}
    {g g' : Gap} (hf : c.fault = none) (hb : c.atBoundary = false) (hh : c.head ≠ '#')
    (hword : plainWord false c.rest = word) (hne : word ≠ [])
    (hgap : gap floor began (c.past word) = .ok (g', c')) :
    plainFrom false floor began (n + 1) c rev g
      = if g'.hasBreak && c'.mark.column < floor then
          .ok (word.reverse ++ (g.content.reverse ++ rev), true, c')
        else plainFrom false floor began n c' (word.reverse ++ (g.content.reverse ++ rev)) g' := by
  have hempty : word.isEmpty = false := by simpa using hne
  rw [plainFrom]
  simp only [bind, Except.bind, Cursor.ensure_ok hf, hb, hh, decide_false, Bool.or_self, hword, hempty,
    Cursor.ensure_ok (c := c.past word) hf, hgap, Bool.not_false, Bool.true_and]
  rfl

theorem Spaced.ne_nil {cs : List Char} (h : Spaced PlainWord cs) : cs ≠ [] := by
  cases h with
  | last isGood => exact isGood.ne_nil
  | more word spaces rest isGood hsome blank starts further => simp [isGood.ne_nil]

theorem Spaced.starts_plain {cs : List Char} (h : Spaced PlainWord cs) (more : List Char) :
    isBlank ((cs ++ more).headD nul) = false ∧ isBreak ((cs ++ more).headD nul) = false := by
  have hfirst : ∀ word tail, PlainWord word → isBlank ((word ++ tail).headD nul) = false ∧
      isBreak ((word ++ tail).headD nul) = false := by
    intro word tail hgood
    obtain ⟨ch, word, rfl⟩ := List.exists_cons_of_ne_nil hgood.ne_nil
    have hvisible := hgood.visible ch List.mem_cons_self
    have hne : ch ≠ ' ' := fun heq => hgood.noSpace (heq ▸ List.mem_cons_self)
    rw [List.cons_append, List.headD_cons]
    exact ⟨by simp [hvisible.isBlank_eq, hne], hvisible.isBreak_eq⟩
  cases h with
  | last isGood => exact hfirst _ _ isGood
  | more word spaces rest isGood hsome blank starts further =>
    rw [List.append_assoc]
    exact hfirst _ _ isGood

/-- A plain scalar reads up to the end of its line, if the next line is indented less. -/
theorem plainFrom_line {floor spaces : Nat} {began : Mark} {rest cs : List Char}
    (ht : StartsToken rest) (hs : spaces < floor) (h : Spaced PlainWord cs) {n : Nat} {c : Cursor}
    (rev : List Char) (g : Gap) (hn : cs.length < n) (hf : c.fault = none) (hcol : 0 < c.mark.column)
    (hr : c.rest = cs ++ '\n' :: (List.replicate spaces ' ' ++ rest)) :
    plainFrom false floor began n c rev g
      = .ok (cs.reverse ++ (g.content.reverse ++ rev), true, (c.past cs).toLine spaces) := by
  have hword : ∀ word, PlainWord word → ∀ ch ∈ word, endsWord ch = false := by
    intro word hgood ch hch
    have hne : ch ≠ ' ' := fun heq => hgood.noSpace (heq ▸ hch)
    simp [(hgood.visible ch hch).endsWord_eq, hne]
  have hhash : ∀ (c : Cursor) word more, PlainWord word → c.rest = word ++ more → c.head ≠ '#' := by
    intro c word more hgood hrest heq
    obtain ⟨first, tail, rfl⟩ := List.exists_cons_of_ne_nil hgood.ne_nil
    rw [Cursor.head_eq hrest] at heq
    exact hgood.noHash (by simp [heq])
  induction h generalizing n c rev g with
  | @last word isGood =>
    obtain ⟨n, rfl⟩ : ∃ m, n = m + 1 := ⟨n - 1, by omega⟩
    have htake : plainWord false c.rest = word := by
      rw [hr]
      exact plainWord_append (hword word isGood) isGood.noColon (plainWord_eq_nil rfl)
    have hgap : gap floor began (c.past word) = .ok (.lines ['\n'] [], (c.past word).toLine spaces) :=
      gap_at_end hf (Cursor.rest_past hr) ht
    rw [plainFrom_word hf (Cursor.not_atBoundary hcol) (hhash c word _ isGood hr) htake
      isGood.ne_nil hgap]
    simp [Gap.hasBreak, hs]
  | more word blanks cs isGood hsome blank starts further ih =>
    obtain ⟨n, rfl⟩ : ∃ m, n = m + 1 := ⟨n - 1, by omega⟩
    rw [List.append_assoc, List.append_assoc] at hr
    obtain ⟨first, blanks, rfl⟩ := List.exists_cons_of_ne_nil hsome
    obtain rfl : first = ' ' := blank first List.mem_cons_self
    have htake : plainWord false c.rest = word := by
      rw [hr]
      exact plainWord_append (hword word isGood) isGood.noColon (plainWord_eq_nil rfl)
    obtain ⟨hblank, hbreak⟩ := further.starts_plain ('\n' :: (List.replicate spaces ' ' ++ rest))
    have hgap : gap floor began (c.past word)
        = .ok (.blanks (' ' :: blanks), (c.past word).past (' ' :: blanks)) :=
      gap_in_line hf (Cursor.rest_past hr) blank hblank hbreak
    rw [plainFrom_word hf (Cursor.not_atBoundary hcol) (hhash c word _ isGood hr) htake
      isGood.ne_nil hgap]
    simp only [Gap.hasBreak, Bool.false_and]
    rw [Cursor.past_past, ih]
    · simp [Gap.content]
    · simp at hn
      omega
    · exact hf
    · rw [Cursor.column_past]
      omega
    · rw [← Cursor.past_past]
      exact Cursor.rest_past (Cursor.rest_past hr)

theorem plain_line {floor spaces : Nat} {rest cs : List Char} (ht : StartsToken rest)
    (hs : spaces < floor) (h : Spaced PlainWord cs) {c : Cursor} (hf : c.fault = none)
    (hcol : 0 < c.mark.column) (hr : c.rest = cs ++ '\n' :: (List.replicate spaces ' ' ++ rest)) :
    plain false floor c = .ok (cs, true, (c.past cs).toLine spaces) := by
  have hn : cs.length < c.rest.length + 1 := by
    rw [hr, List.length_append]
    omega
  unfold plain
  rw [plainFrom_line ht hs h [] (.blanks []) hn hf hcol hr]
  simp [bind, Except.bind, Gap.content]

theorem spaced_of_fitsPlain {cs : List Char} (h : Visible cs) (hne : cs ≠ [])
    (hfits : Writer.fitsPlain cs = true) : Spaced PlainWord cs := by
  simp only [Writer.fitsPlain, Writer.hasSign, Bool.and_eq_true, Bool.not_eq_true',
    Bool.or_eq_false_iff, decide_eq_true_eq] at hfits
  obtain ⟨⟨⟨_, hfirst⟩, hlast⟩, ⟨_, hstart⟩, hinner⟩ := hfits
  apply spaced_plain (spaced_quoted h) hne hfirst hlast
  obtain ⟨ch, cs, rfl⟩ := List.exists_cons_of_ne_nil hne
  simp only [Writer.startsWithSign, Bool.or_eq_false_iff] at hstart
  have hhash : ch ≠ '#' := by
    rintro rfl
    simp at hstart
  have hcolon : (ch = ':' && blankFollows cs) = false := by
    by_cases heq : ch = ':'
    · simpa [heq] using hstart.2
    · simp [heq]
  rw [hasInnerSign, hcolon]
  simpa [hhash] using hinner

theorem plainFrom_stop {c : Cursor} {floor n : Nat} {began : Mark} {rev : List Char} {g : Gap}
    (hf : c.fault = none) (hb : c.atBoundary = false) (hh : c.head ≠ '#')
    (hword : plainWord false c.rest = []) :
    plainFrom false floor began (n + 1) c rev g = .ok (rev, g.hasBreak, c) := by
  rw [plainFrom]
  simp [bind, Except.bind, Cursor.ensure_ok hf, hb, hh, hword]

/-- Characters of names that are written plain. -/
def IsLetter (c : Char) : Prop := c.isLower = true ∨ c = '_'

instance : DecidablePred IsLetter := fun _ => inferInstanceAs (Decidable (_ ∨ _))

theorem IsLetter.ne_of {c d : Char} (h : IsLetter c) (hd : ¬ IsLetter d) : c ≠ d := by
  intro heq
  exact hd (heq ▸ h)

theorem IsLetter.visible {c : Char} (h : IsLetter c) : IsVisible c := by
  rcases h with h | rfl
  · obtain ⟨h97, h122⟩ := Bool.and_eq_true_iff.mp h
    have hlow : 97 ≤ c.toNat := UInt32.le_iff_toNat_le.mp (of_decide_eq_true h97)
    have hhigh : c.toNat ≤ 122 := UInt32.le_iff_toNat_le.mp (of_decide_eq_true h122)
    constructor <;> omega
  · decide

/-- Names that are written plain. -/
structure IsName (name : List Char) : Prop where
  ne_nil : name ≠ []
  letters : ∀ c ∈ name, IsLetter c

theorem isName_of_all {name : List Char} (hne : name ≠ [])
    (h : name.all (fun c => decide (IsLetter c)) = true) : IsName name where
  ne_nil := hne
  letters c hc := of_decide_eq_true (List.all_eq_true.mp h c hc)

theorem IsName.plainWord {name : List Char} (h : IsName name) : PlainWord name where
  ne_nil := h.ne_nil
  visible c hc := (h.letters c hc).visible
  noSpace hc := (h.letters _ hc).ne_of (by decide) rfl
  noHash hc := (h.letters _ (List.mem_of_head? hc)).ne_of (by decide) rfl
  noColon hc := (h.letters _ (List.mem_of_getLast? hc)).ne_of (by decide) rfl

/-- A name before a colon reads up to the colon. -/
theorem plain_name {floor : Nat} {c : Cursor} {name more : List Char} {e : Char} (h : IsName name)
    (hf : c.fault = none) (hb : c.atBoundary = false) (he : endsWord e = true)
    (hr : c.rest = name ++ ':' :: e :: more) : plain false floor c = .ok (name, false, c.past name) := by
  have hcolon : plainWord false (':' :: e :: more) = [] := by
    simp [plainWord, he]
  have hletters : ∀ ch ∈ name, endsWord ch = false := by
    intro ch hch
    have hne : ch ≠ ' ' := (h.letters ch hch).ne_of (by decide)
    simp [(h.letters ch hch).visible.endsWord_eq, hne]
  have hword : plainWord false c.rest = name := by
    rw [hr]
    exact plainWord_append hletters h.plainWord.noColon hcolon
  have hhash : c.head ≠ '#' := by
    obtain ⟨ch, name, rfl⟩ := List.exists_cons_of_ne_nil h.ne_nil
    rw [Cursor.head_eq hr]
    exact (h.letters ch List.mem_cons_self).ne_of (by decide)
  have hrest : (c.past name).rest = ':' :: e :: more := Cursor.rest_past hr
  have hgap : gap floor c.mark (c.past name) = .ok (.blanks [], (c.past name).past []) :=
    gap_in_line (c := c.past name) hf hrest (by simp) rfl rfl
  have hcol : 0 < (c.past name).mark.column := by
    have := List.length_pos_iff.mpr h.ne_nil
    rw [Cursor.column_past]
    omega
  obtain ⟨n, hn⟩ : ∃ n, c.rest.length = n + 1 := by
    rw [hr]
    exact ⟨name.length + 1 + more.length, by simp; omega⟩
  unfold plain
  rw [hn, plainFrom_word hf hb hhash hword h.ne_nil hgap, Cursor.past_nil]
  simp only [Gap.hasBreak, Bool.false_and]
  rw [if_neg (by simp), plainFrom_stop (c := c.past name) hf (Cursor.not_atBoundary hcol)
    (by rw [Cursor.head_eq hrest]; decide) (by rw [hrest, hcolon])]
  simp [bind, Except.bind, Gap.content, Gap.hasBreak]

/-! ### Quoted scalars -/

section Quoted

open Writer (quoteChar quoteSign quotedText)

theorem QuotedWord.cons {ch : Char} {word : List Char} (h : QuotedWord (ch :: word)) :
    IsVisible ch ∧ endsWord ch = false ∧ QuotedWord word := by
  have hvisible := h.1 ch List.mem_cons_self
  have hne : ch ≠ ' ' := fun heq => h.2 (heq ▸ List.mem_cons_self)
  refine ⟨hvisible, by simp [hvisible.endsWord_eq, hne], ?_, fun hs => h.2 (List.mem_cons_of_mem _ hs)⟩
  exact fun d hd => h.1 d (List.mem_cons_of_mem _ hd)

theorem singleWord_eq {word more : List Char} (h : QuotedWord word)
    (hmore : endsWord (more.headD nul) = true ∨ ∃ d tail, more = '\'' :: d :: tail ∧ d ≠ '\'') {n : Nat}
    {c : Cursor} (rev : List Char) (hn : word.length < n) (hf : c.fault = none)
    (hr : c.rest = word.flatMap (quoteChar true) ++ more) :
    singleWord n c rev = .ok (word.reverse ++ rev, c.past (word.flatMap (quoteChar true))) := by
  induction word generalizing n c rev with
  | nil =>
    obtain ⟨n, rfl⟩ : ∃ m, n = m + 1 := ⟨n - 1, by omega⟩
    rw [List.flatMap_nil, List.nil_append] at hr
    rw [List.flatMap_nil, Cursor.past_nil, singleWord]
    rcases hmore with hend | ⟨d, tail, rfl, hd⟩
    · rw [Cursor.head, hr, hend]
      rfl
    · have hpeek : c.peek 1 = d := by simp [Cursor.peek, hr]
      rw [Cursor.head_eq hr, hpeek]
      simp [hd, show endsWord '\'' = false from rfl]
  | cons ch word ih =>
    obtain ⟨n, rfl⟩ : ∃ m, n = m + 1 := ⟨n - 1, by omega⟩
    obtain ⟨hvisible, hends, hword⟩ := h.cons
    rw [List.length_cons] at hn
    rw [List.flatMap_cons, List.append_assoc] at hr
    have hgo := ih (n := n) (c := c.past (quoteChar true ch)) hword (ch :: rev) (by omega) hf
      (Cursor.rest_past hr)
    rw [singleWord]
    by_cases hquote : ch = '\''
    · subst hquote
      have hskip : c.skip 2 = c.past (quoteChar true '\'') := Cursor.skip_eq hr
      have hpeek : c.peek 1 = '\'' := by simp [Cursor.peek, hr, quoteChar]
      have hhead : c.head = '\'' := by simp [Cursor.head, hr, quoteChar]
      rw [hhead, if_neg (by rw [hends]; simp), if_pos rfl, hpeek, if_pos rfl]
      simp only [bind, Except.bind]
      rw [hskip, Cursor.ensure_ok (c := c.past (quoteChar true '\'')) hf]
      dsimp only
      rw [hgo]
      simp
    · have hchar : quoteChar true ch = [ch] := by simp [quoteChar, hquote]
      rw [hchar] at hr hgo
      have hskip := Cursor.skip_one hr
      rw [Cursor.head_eq hr, if_neg (by rw [hends]; simp), if_neg hquote]
      simp only [bind, Except.bind]
      rw [hskip, Cursor.ensure_ok (c := c.past [ch]) hf]
      dsimp only
      rw [hgo]
      simp [hchar]

theorem doubleWord_eq {word more : List Char} {began : Mark} (h : QuotedWord word)
    (hmore : endsWord (more.headD nul) = true ∨ more.headD nul = '"') {n : Nat} {c : Cursor}
    (rev : List Char) (hn : word.length < n) (hf : c.fault = none)
    (hr : c.rest = word.flatMap (quoteChar false) ++ more) :
    doubleWord began n c rev
      = .ok (word.reverse ++ rev, false, c.past (word.flatMap (quoteChar false))) := by
  induction word generalizing n c rev with
  | nil =>
    obtain ⟨n, rfl⟩ : ∃ m, n = m + 1 := ⟨n - 1, by omega⟩
    rw [List.flatMap_nil, List.nil_append] at hr
    have hstop : (endsWord c.head || c.head = '"') = true := by
      rw [Cursor.head, hr, Bool.or_eq_true, decide_eq_true_eq]
      exact hmore
    rw [List.flatMap_nil, Cursor.past_nil, doubleWord, if_pos hstop]
    rfl
  | cons ch word ih =>
    obtain ⟨n, rfl⟩ : ∃ m, n = m + 1 := ⟨n - 1, by omega⟩
    obtain ⟨hvisible, hends, hword⟩ := h.cons
    rw [List.length_cons] at hn
    rw [List.flatMap_cons, List.append_assoc] at hr
    have hgo := ih (n := n) (c := c.past (quoteChar false ch)) hword (ch :: rev) (by omega) hf
      (Cursor.rest_past hr)
    rw [doubleWord]
    by_cases hescape : ch = '"' ∨ ch = '\\'
    · have hchar : quoteChar false ch = ['\\', ch] := by simp [quoteChar, hescape]
      rw [hchar] at hr hgo
      have hskip : c.skip 2 = c.past ['\\', ch] := Cursor.skip_eq hr
      have hpeek : c.peek 1 = ch := by simp [Cursor.peek, hr]
      have hnamed : escape? ch = some (.char ch) := by
        rcases hescape with rfl | rfl <;> rfl
      rw [Cursor.head_eq hr, if_neg (by decide), if_pos rfl, hpeek, hvisible.isBreak_eq, hnamed]
      simp only [bind, Except.bind]
      rw [hskip, Cursor.ensure_ok (c := c.past ['\\', ch]) hf]
      dsimp only
      rw [hgo]
      simp [hchar]
    · obtain ⟨hquote, hslash⟩ := not_or.mp hescape
      have hchar : quoteChar false ch = [ch] := by simp [quoteChar, hquote, hslash]
      rw [hchar] at hr hgo
      have hskip := Cursor.skip_one hr
      rw [Cursor.head_eq hr, if_neg (by simp [hends, hquote]), if_neg hslash]
      simp only [bind, Except.bind]
      rw [hskip, Cursor.ensure_ok (c := c.past [ch]) hf]
      dsimp only
      rw [hgo]
      simp [hchar]

theorem length_le_quoted (single : Bool) (cs : List Char) :
    cs.length ≤ (cs.flatMap (quoteChar single)).length := by
  induction cs with
  | nil => simp
  | cons ch cs ih =>
    have hpos : 1 ≤ (quoteChar single ch).length := by
      unfold quoteChar
      split
      · split <;> simp
      · split <;> simp
    rw [List.flatMap_cons, List.length_append, List.length_cons]
    omega

theorem quoted_spaces (single : Bool) {spaces : List Char} (h : ∀ c ∈ spaces, c = ' ') :
    spaces.flatMap (quoteChar single) = spaces := by
  induction spaces with
  | nil => rfl
  | cons c spaces ih =>
    have hspace : quoteChar single ' ' = [' '] := by cases single <;> rfl
    rw [List.flatMap_cons, ih (fun d hd => h d (List.mem_cons_of_mem _ hd)), h c List.mem_cons_self,
      hspace]
    rfl

/-- A word between quotes reads up to a space or the closing quote. -/
theorem quotedWord_eq (single : Bool) {word more : List Char} {began : Mark} (h : QuotedWord word)
    (hmore : more.head? = some ' ' ∨ ∃ tail, more = quoteSign single :: '\n' :: tail) {c : Cursor}
    (rev : List Char) (hf : c.fault = none) (hr : c.rest = word.flatMap (quoteChar single) ++ more) :
    quotedWord single began c rev
      = .ok (word.reverse ++ rev, false, c.past (word.flatMap (quoteChar single))) := by
  have hn : word.length < c.rest.length + 1 := by
    have := length_le_quoted single word
    rw [hr, List.length_append]
    omega
  have hspace : more.head? = some ' ' → endsWord (more.headD nul) = true := by
    intro hhead
    rw [List.headD_eq_head?_getD, hhead]
    rfl
  unfold quotedWord
  cases single with
  | true =>
    have hword := singleWord_eq h (hmore.imp hspace (by
      rintro ⟨tail, rfl⟩
      exact ⟨'\n', tail, rfl, by decide⟩)) rev hn hf hr
    rw [if_pos rfl, hword]
    rfl
  | false =>
    rw [if_neg (by simp)]
    apply doubleWord_eq h _ rev hn hf hr
    refine hmore.imp hspace ?_
    rintro ⟨tail, rfl⟩
    rfl

theorem quoted_head (single : Bool) {cs : List Char} (h : Visible cs) (tail : List Char) :
    ∃ ch more, cs.flatMap (quoteChar single) ++ quoteSign single :: tail = ch :: more ∧ IsVisible ch ∧
      (cs.head? ≠ some ' ' → ch ≠ ' ') := by
  cases cs with
  | nil =>
    refine ⟨quoteSign single, tail, rfl, ?_⟩
    cases single <;> decide
  | cons ch cs =>
    have hvisible := h ch List.mem_cons_self
    have hne : (ch :: cs).head? ≠ some ' ' → ch ≠ ' ' := by
      rintro hhead rfl
      exact hhead rfl
    rw [List.flatMap_cons]
    unfold quoteChar
    split
    · split
      · exact ⟨_, _, rfl, by decide, fun _ => by decide⟩
      · exact ⟨_, _, rfl, hvisible, hne⟩
    · split
      · exact ⟨_, _, rfl, by decide, fun _ => by decide⟩
      · exact ⟨_, _, rfl, hvisible, hne⟩

theorem Spaced.visible {cs : List Char} (h : Spaced QuotedWord cs) : Visible cs := by
  induction h with
  | last isGood => exact isGood.1
  | more word spaces rest isGood hsome blank starts further ih =>
    intro c hc
    rcases List.mem_append.mp hc with hc | hc
    · exact isGood.1 c hc
    · rcases List.mem_append.mp hc with hc | hc
      · rw [blank c hc]
        decide
      · exact ih c hc

theorem quotedFrom_word {single : Bool} {began : Mark} {c : Cursor} {n : Nat} {word more rev : List Char}
    (h : QuotedWord word) (hf : c.fault = none) (hcol : 0 < c.mark.column)
    (hr : c.rest = word.flatMap (quoteChar single) ++ more) (hnul : c.head ≠ nul)
    (hmore : more.head? = some ' ' ∨ ∃ tail, more = quoteSign single :: '\n' :: tail) :
    quotedFrom single began (n + 1) c rev
      = (let c' := c.past (word.flatMap (quoteChar single))
        if c'.head = quoteSign single then .ok (word.reverse ++ rev, c'.skip 1)
        else do
          let (g, c'') ← gap 0 began c'
          quotedFrom single began n c'' (g.content.reverse ++ (word.reverse ++ rev))) := by
  rw [quotedFrom, Cursor.ensure_ok hf, Cursor.not_atBoundary hcol]
  simp only [bind, Except.bind]
  rw [if_neg (by simp), if_neg hnul, quotedWord_eq single h hmore rev hf hr]
  dsimp only
  rw [Cursor.ensure_ok (c := c.past (word.flatMap (quoteChar single))) hf]
  dsimp only [quoteSign]
  rfl

theorem quotedFrom_line {single : Bool} {began : Mark} {cs : List Char} (h : Spaced QuotedWord cs)
    {n : Nat} {c : Cursor} (rev : List Char) {more : List Char} (hn : cs.length < n)
    (hf : c.fault = none) (hcol : 0 < c.mark.column)
    (hr : c.rest = cs.flatMap (quoteChar single) ++ quoteSign single :: '\n' :: more) :
    quotedFrom single began n c rev
      = .ok (cs.reverse ++ rev, c.past (cs.flatMap (quoteChar single) ++ [quoteSign single])) := by
  have hnul : c.head ≠ nul := by
    obtain ⟨ch, tail, hhead, hvisible, _⟩ := quoted_head single h.visible ('\n' :: more)
    rw [Cursor.head_eq (hr.trans hhead)]
    exact hvisible.ne_of (by decide)
  induction h generalizing n c rev with
  | @last word isGood =>
    obtain ⟨n, rfl⟩ : ∃ m, n = m + 1 := ⟨n - 1, by omega⟩
    have hrest := Cursor.rest_past hr
    have hskip := Cursor.skip_one hrest
    rw [quotedFrom_word isGood hf hcol hr hnul (Or.inr ⟨more, rfl⟩)]
    dsimp only
    rw [Cursor.head_eq hrest, if_pos rfl]
    simpa using hskip
  | more word blanks rest isGood hsome blank starts further ih =>
    obtain ⟨n, rfl⟩ : ∃ m, n = m + 1 := ⟨n - 1, by omega⟩
    obtain ⟨first, blanks, rfl⟩ := List.exists_cons_of_ne_nil hsome
    obtain rfl : first = ' ' := blank first List.mem_cons_self
    have hblanks := quoted_spaces single blank
    rw [List.flatMap_append, List.flatMap_append, hblanks, List.append_assoc, List.append_assoc] at hr
    obtain ⟨ch, tail, hhead, hvisible, hne⟩ := quoted_head single further.visible ('\n' :: more)
    have hrest := Cursor.rest_past hr
    have hgap : gap 0 began (c.past (word.flatMap (quoteChar single)))
        = .ok (.blanks (' ' :: blanks),
            (c.past (word.flatMap (quoteChar single))).past (' ' :: blanks)) := by
      apply gap_in_line (c := c.past (word.flatMap (quoteChar single))) hf hrest blank
      · rw [hhead, List.headD_cons, hvisible.isBlank_eq]
        simp [hne starts]
      · rw [hhead, List.headD_cons, hvisible.isBreak_eq]
    have hsign : ' ' ≠ quoteSign single := by cases single <;> decide
    rw [quotedFrom_word isGood hf hcol hr hnul (Or.inl rfl)]
    dsimp only
    rw [Cursor.head_eq hrest, if_neg hsign, hgap]
    simp only [bind, Except.bind]
    rw [ih]
    · rw [List.flatMap_append, List.flatMap_append, hblanks]
      simp [Gap.content]
    · simp at hn
      omega
    · exact hf
    · rw [Cursor.column_past, Cursor.column_past]
      omega
    · exact Cursor.rest_past hrest
    · rw [Cursor.head_eq ((Cursor.rest_past hrest).trans hhead)]
      exact hvisible.ne_of (by decide)

/-- A quoted text reads back. -/
theorem quoted_line (single : Bool) {cs more : List Char} (h : Visible cs) {c : Cursor}
    (hf : c.fault = none) (hr : c.rest = quotedText single cs ++ '\n' :: more) :
    quoted single c = .ok (cs, c.past (quotedText single cs)) := by
  have hopen : c.rest = [quoteSign single]
      ++ (cs.flatMap (quoteChar single) ++ quoteSign single :: '\n' :: more) := by
    rw [hr]
    simp [quotedText]
  have hskip := Cursor.skip_one hopen
  have hn : cs.length < c.rest.length + 1 := by
    have := length_le_quoted single cs
    rw [hopen, List.length_append, List.length_append]
    omega
  have hbody : quotedFrom single c.mark (c.rest.length + 1) (c.past [quoteSign single]) [] = _ :=
    quotedFrom_line (spaced_quoted h) [] hn hf (by simp) (Cursor.rest_past hopen)
  unfold quoted
  rw [hskip, hbody]
  simp [bind, Except.bind, quotedText]

/-- The two ways a visible text is written, with what the reader needs to know of them. -/
theorem written_cases {cs : List Char} (h : Visible cs) :
    (Writer.styleOf cs = .plain ∧ Writer.written cs = cs ∧ Spaced PlainWord cs ∧
      Writer.startsWithSign cs = false) ∨
    ∃ single, Writer.styleOf cs = (if single then .singleQuoted else .doubleQuoted) ∧
      Writer.written cs = quotedText single cs := by
  have hstyle := Writer.styleOf_visible h
  unfold Writer.written
  split at hstyle
  · rename_i hstring
    split at hstyle
    · rename_i hfits
      have hne : cs ≠ [] := by
        rintro rfl
        exact absurd hstring (by decide)
      refine Or.inl ⟨hstyle, by rw [hstyle], spaced_of_fitsPlain h hne hfits, ?_⟩
      simp only [Writer.fitsPlain, Writer.hasSign, Bool.and_eq_true, Bool.not_eq_true',
        Bool.or_eq_false_iff] at hfits
      exact hfits.2.1.2
    · exact Or.inr ⟨true, hstyle, by rw [hstyle]⟩
  · exact Or.inr ⟨false, hstyle, by rw [hstyle]⟩

theorem startsToken_plain {cs : List Char} (h : Visible cs) (hs : Spaced PlainWord cs)
    (hsign : Writer.startsWithSign cs = false) (tail : List Char) : StartsToken (cs ++ tail) := by
  obtain ⟨hblank, hbreak⟩ := hs.starts_plain tail
  cases cs with
  | nil => exact absurd rfl hs.ne_nil
  | cons ch cs =>
    have hvisible := h ch List.mem_cons_self
    refine ⟨hblank, hbreak, ?_, hvisible.ne_of (by decide)⟩
    intro hhash
    rw [List.cons_append, List.headD_cons] at hhash
    simp [Writer.startsWithSign, hhash] at hsign

theorem startsToken_quoted (single : Bool) (cs tail : List Char) :
    StartsToken (quotedText single cs ++ tail) := by
  cases single <;> exact ⟨rfl, rfl, by simp [quotedText, quoteSign], by simp [quotedText, quoteSign]⟩

theorem startsToken_written {cs : List Char} (h : Visible cs) (tail : List Char) :
    StartsToken (Writer.written cs ++ tail) := by
  rcases written_cases h with ⟨_, hwritten, hspaced, hsign⟩ | ⟨single, _, hwritten⟩
  · rw [hwritten]
    exact startsToken_plain h hspaced hsign tail
  · rw [hwritten]
    exact startsToken_quoted single cs tail

end Quoted

end Scalar

end DartReach.Yaml
