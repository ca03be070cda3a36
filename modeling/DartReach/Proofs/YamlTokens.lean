import DartReach.Proofs.YamlLexer

/-!
# The tokens of a written document

A document is a mapping: each name with its colon is a key, and under it stands a scalar, a list of items
with dashes, or empty brackets. The tokens of the whole are those of its entries, one after the other.
-/

namespace DartReach.Yaml

set_option autoImplicit false

namespace Writer

/-- The line of an item of a list. -/
def itemLine (cs : List Char) : List Char :=
  List.replicate step ' ' ++ '-' :: ' ' :: (written cs ++ ['\n'])

def itemKinds (cs : List Char) : List Token.Kind := [.dash, .scalar cs (styleOf cs)]

def flagWord (on : Bool) : List Char := (if on then "true" else "false").toList

theorem isName_flagWord (on : Bool) : Scalar.IsName (flagWord on) := by
  cases on <;> exact Scalar.isName_of_all (by decide) (by decide)

/-- The lines of a name and what stands under it. -/
def entryLines (name : List Char) : Entry → List Char
  | .string s => name ++ ':' :: ' ' :: (written (Utf8.decode s) ++ ['\n'])
  | .strings [] => name ++ [':', ' ', '[', ']', '\n']
  | .strings (s :: items) => name ++ ':' :: '\n' :: ((s :: items).map Utf8.decode).flatMap itemLine
  | .flag on => name ++ ':' :: ' ' :: (flagWord on ++ ['\n'])

def valueKinds : Entry → List Token.Kind
  | .string s => [.scalar (Utf8.decode s) (styleOf (Utf8.decode s))]
  | .strings [] => [.openBracket, .closeBracket]
  | .strings (s :: items) =>
    .blockSequence :: (((s :: items).map Utf8.decode).flatMap itemKinds ++ [.blockEnd])
  | .flag on => [.scalar (flagWord on) .plain]

def entryKinds (name : List Char) (e : Entry) : List Token.Kind :=
  .key :: .scalar name .plain :: .value :: valueKinds e

/-- The characters of a document. -/
def lines (entries : List (String × Entry)) : List Char :=
  entries.flatMap (fun e => entryLines e.1.toList e.2)

def kinds (entries : List (String × Entry)) : List Token.Kind :=
  entries.flatMap (fun e => entryKinds e.1.toList e.2)

def VisibleEntry : Entry → Prop
  | .string s => Visible (Utf8.decode s)
  | .strings items => ∀ s ∈ items, Visible (Utf8.decode s)
  | .flag _ => True

/-- What can be written and read again: a name of letters, and something visible under it. -/
structure Legible (e : String × Entry) : Prop where
  name : Scalar.IsName e.1.toList
  short : e.1.toList.length ≤ 1024
  visible : VisibleEntry e.2

end Writer

namespace Lexer

section

variable {l : Lexer} {kinds : List Token.Kind} {indent : Int} {outer : List Int}

/-! ### Values -/

theorem At.holds_behind {allowed allowed' : Bool} {column : Nat} {rest content : List Char}
    (h : l.At kinds indent outer allowed column rest) (hin : indent < (column : Int)) (style : Style)
    {c : Cursor} (hf : c.fault = none) :
    (l.behind content style allowed' c).Holds (kinds ++ [.scalar content style]) indent outer := by
  have hrequired : ¬ l.indent = (l.cursor.mark.column : Int) := by
    rw [h.indent, h.column]
    omega
  refine ⟨hf, h.going, ?_, ?_, h.indent, h.outer, ?_⟩
  · simp [behind, h.tokens]
  · simp [behind, h.count]
  · obtain ⟨k, hk, hloose⟩ := h.loose
    by_cases ha : l.keyAllowed = true
    · exact ⟨_, by rw [behind, if_pos ha], by simp [hrequired]⟩
    · exact ⟨k, by rw [behind, if_neg ha, hk], hloose⟩

theorem At.read_plain {allowed : Bool} {column next : Nat} {cs rest : List Char}
    (h : l.At kinds indent outer allowed column (cs ++ '\n' :: (List.replicate next ' ' ++ rest)))
    (hv : Writer.Visible cs) (hs : Scalar.Spaced Scalar.PlainWord cs)
    (hsign : Writer.startsWithSign cs = false) (ht : StartsToken rest) (hnext : (next : Int) ≤ indent)
    (hin : indent < (column : Int)) :
    l.read = .ok (l.behind cs .plain true ((l.cursor.past cs).toLine next)) := by
  have hcol : 0 < l.cursor.mark.column := by
    rw [h.column]
    omega
  have hfloor : next < l.floor := by
    rw [floor, h.indent]
    omega
  have hread := h.plainScalar_eq (Scalar.plain_line ht hfloor hs h.fault hcol h.rest)
  have hrest : ((l.cursor.past cs).toLine next).rest = rest :=
    Cursor.rest_toLine (Cursor.rest_past h.rest)
  obtain ⟨ch, tail, rfl⟩ := List.exists_cons_of_ne_nil hs.ne_nil
  have hhead : l.cursor.head = ch := Cursor.head_eq h.rest
  have hvisible := hv ch List.mem_cons_self
  have hpeek : endsWord (l.cursor.peek 1) = Writer.blankFollows tail := by
    rw [Cursor.peek, h.rest]
    cases tail with
    | nil => rfl
    | cons d tail =>
      have hd := hv d (by simp)
      show endsWord d = isBlank d
      rw [hd.endsWord_eq, hd.isBlank_eq]
  simp only [Writer.startsWithSign, Bool.or_eq_false_iff] at hsign
  have hplain : l.readToken = l.plainScalar := by
    apply readToken_plain h.inFlow
    · obtain ⟨hblank, _⟩ := hs.starts_plain []
      rw [List.append_nil, List.headD_cons] at hblank
      rw [hhead, hvisible.endsWord_eq, ← hvisible.isBlank_eq, hblank]
    · have hnone := hsign.1
      rw [List.contains_eq_mem, decide_eq_false_iff_not] at hnone
      rw [hhead]
      exact hnone
    · rw [hhead, hpeek]
      rintro (rfl | rfl | rfl) <;> simpa using hsign.2
  apply read_in_line (by rw [hhead]; exact hvisible.ne_of (by decide)) hcol (hplain.trans hread)
  show NoComment ((l.cursor.past (ch :: tail)).toLine next).rest
  rw [hrest]
  exact ht.noComment

theorem readToken_quote {single : Bool} (hhead : l.cursor.head = Writer.quoteSign single) :
    l.readToken = l.quotedScalar single := by
  unfold readToken
  rw [hhead]
  cases single <;> simp [Writer.quoteSign]

theorem At.read_quoted {allowed single : Bool} {column : Nat} {cs more : List Char}
    (h : l.At kinds indent outer allowed column (Writer.quotedText single cs ++ '\n' :: more))
    (hv : Writer.Visible cs) (hcol : 0 < column) :
    l.read = .ok (l.behind cs (if single then .singleQuoted else .doubleQuoted) false
      (l.cursor.past (Writer.quotedText single cs))) := by
  have hhead : l.cursor.head = Writer.quoteSign single := Cursor.head_eq h.rest
  have hread := h.quotedScalar_eq (Scalar.quoted_line single hv h.fault h.rest)
  have hnul : l.cursor.head ≠ nul := by
    rw [hhead]
    cases single <;> decide
  apply read_in_line hnul (by rw [h.column]; exact hcol) ((readToken_quote hhead).trans hread)
  show NoComment (l.cursor.past (Writer.quotedText single cs)).rest
  rw [Cursor.rest_past h.rest]
  exact noComment_of_head _ rfl (by decide)

section

variable {allowed : Bool} {column : Nat} (spaces next : Nat) {cs : List Char} (rest : List Char)
  {kinds' : List Token.Kind}

theorem At.yields_of_plain (h : l.At kinds indent outer allowed column (List.replicate spaces ' '
      ++ (cs ++ '\n' :: (List.replicate next ' ' ++ rest))))
    (hv : Writer.Visible cs) (hs : Scalar.Spaced Scalar.PlainWord cs)
    (hsign : Writer.startsWithSign cs = false) (ht : StartsToken rest) (hnext : (next : Int) ≤ indent)
    (hin : indent < ((column + spaces : Nat) : Int))
    (hgo : ∀ b : Lexer, b.Holds (kinds ++ [.scalar cs .plain]) indent outer → b.Reaches next rest →
      b.Yields kinds') : l.Yields kinds' := by
  obtain ⟨m, hgoes, hm⟩ := h.arrive_in_line spaces h.rest (Scalar.startsToken_plain hv hs hsign _)
    (by rw [h.column]; omega)
  rw [h.column] at hm
  have hrest : ((m.cursor.past cs).toLine next).rest = rest :=
    Cursor.rest_toLine (Cursor.rest_past hm.rest)
  apply hgoes.yields hm.fault (hm.read_plain hv hs hsign ht hnext hin)
  · show ((m.cursor.past cs).toLine next).rest.length < _
    rw [hrest, hm.rest]
    simp
    omega
  · apply hgo
    · exact hm.holds_behind hin .plain hm.fault
    · exact reaches_at_start (l := m.behind cs .plain true ((m.cursor.past cs).toLine next)) hm.fault rfl
        (Cursor.column_toLine _ _) hrest ht

theorem At.yields_of_quoted {single : Bool} (h : l.At kinds indent outer allowed column
      (List.replicate spaces ' '
        ++ (Writer.quotedText single cs ++ '\n' :: (List.replicate next ' ' ++ rest))))
    (hv : Writer.Visible cs) (ht : StartsToken rest) (hnext : (next : Int) ≤ indent)
    (hin : indent < ((column + spaces : Nat) : Int))
    (hgo : ∀ b : Lexer,
      b.Holds (kinds ++ [.scalar cs (if single then .singleQuoted else .doubleQuoted)]) indent outer →
      b.Reaches next rest → b.Yields kinds') : l.Yields kinds' := by
  obtain ⟨m, hgoes, hm⟩ := h.arrive_in_line spaces h.rest (Scalar.startsToken_quoted single cs _)
    (by rw [h.column]; omega)
  rw [h.column] at hm
  have hrest := Cursor.rest_past hm.rest
  apply hgoes.yields hm.fault (hm.read_quoted hv (by omega))
  · show (m.cursor.past (Writer.quotedText single cs)).rest.length < _
    rw [hrest, hm.rest]
    simp [Writer.quotedText]
    omega
  · apply hgo
    · exact hm.holds_behind hin _ hm.fault
    · exact reaches_at_end (l := m.behind cs _ false (m.cursor.past (Writer.quotedText single cs)))
        hm.fault hrest ht

/-- A text that was written is read as one scalar, up to the next line. -/
theorem At.yields_of_text (h : l.At kinds indent outer allowed column (List.replicate spaces ' '
      ++ (Writer.written cs ++ '\n' :: (List.replicate next ' ' ++ rest))))
    (hv : Writer.Visible cs) (ht : StartsToken rest) (hnext : (next : Int) ≤ indent)
    (hin : indent < ((column + spaces : Nat) : Int))
    (hgo : ∀ b : Lexer, b.Holds (kinds ++ [.scalar cs (Writer.styleOf cs)]) indent outer →
      b.Reaches next rest → b.Yields kinds') : l.Yields kinds' := by
  rcases Scalar.written_cases hv with ⟨hstyle, hwritten, hspaced, hsign⟩ | ⟨single, hstyle, hwritten⟩
  · rw [hwritten] at h
    rw [hstyle] at hgo
    exact h.yields_of_plain spaces next rest hv hspaced hsign ht hnext hin hgo
  · rw [hwritten] at h
    rw [hstyle] at hgo
    exact h.yields_of_quoted spaces next rest hv ht hnext hin hgo

end

/-- The reader behind an opening bracket, where a key may start. -/
def inBrackets (l : Lexer) (k : Option KeyCandidate) : Lexer :=
  { l with
    cursor := l.cursor.past ['[']
    tokens := ⟨.openBracket, l.cursor.mark⟩ :: l.tokens
    count := l.count + 1
    candidates := [none, k]
    keyAllowed := true }

/-- The reader behind two brackets with nothing between them. -/
def behindBrackets (l : Lexer) (k : Option KeyCandidate) : Lexer :=
  { l with
    cursor := l.cursor.past ['[', ']']
    tokens := ⟨.closeBracket, (l.inBrackets k).cursor.mark⟩ :: ⟨.openBracket, l.cursor.mark⟩ :: l.tokens
    count := l.count + 2
    keyAllowed := false }

theorem readToken_openBracket {more : List Char} {k : Option KeyCandidate} (hallowed : l.keyAllowed = false)
    (hk : l.candidates = [k]) (hr : l.cursor.rest = '[' :: more) : l.readToken = .ok (l.inBrackets k) := by
  unfold readToken
  rw [Cursor.head_eq hr, if_pos rfl]
  simp [openFlow, saveCandidate, hallowed, bind, Except.bind, flowDepth, maxDepth, hk, pushSign, push,
    Cursor.skip_one hr, inBrackets]

theorem readToken_closeBracket {more : List Char} {k : Option KeyCandidate} (hk : l.candidates = [k])
    (hr : l.cursor.rest = '[' :: ']' :: more) : (l.inBrackets k).readToken = .ok (l.behindBrackets k) := by
  have hrest : (l.inBrackets k).cursor.rest = ']' :: more := @Cursor.rest_past l.cursor ['['] _ hr
  have hflow : (l.inBrackets k).inFlow = true := rfl
  have hdrop : (l.inBrackets k).dropCandidate = .ok (l.inBrackets k) := rfl
  have hskip : (l.inBrackets k).cursor.skip 1 = l.cursor.past ['[', ']'] := by
    rw [Cursor.skip_one hrest]
    exact Cursor.past_past _ _ _
  have hsign : (l.inBrackets k).readToken = (l.inBrackets k).closeFlow .closeBracket := by
    simp [readToken, Cursor.head_eq hrest]
  rw [hsign, closeFlow, hdrop]
  simp only [bind, Except.bind, pushSign, push, hflow, if_true, hskip]
  rw [behindBrackets, hk]
  rfl

theorem goes_inBrackets {more : List Char} {k : Option KeyCandidate} (h : l.Holds kinds indent outer)
    (hk : l.candidates = [k]) (hr : l.cursor.rest = '[' :: ']' :: more) :
    (l.inBrackets k).Goes (l.inBrackets k) := by
  have hrest : (l.inBrackets k).cursor.rest = ']' :: more := @Cursor.rest_past l.cursor ['['] _ hr
  obtain ⟨k', hk', hloose⟩ := h.loose
  obtain rfl : k' = k := by simpa [hk'] using hk
  refine goes_self h.going ?_ h.fault ?_ ?_
  · intro c hc hrequired
    simp only [inBrackets, List.mem_cons, List.not_mem_nil, or_false, reduceCtorEq, false_or] at hc
    rw [hloose c hc.symm] at hrequired
    cases hrequired
  · rw [hrest]
    exact ⟨rfl, rfl, by simp, by simp⟩
  · have hflow : (l.inBrackets k').inFlow = true := rfl
    rw [unroll, hflow, if_pos rfl]

/-- An empty list is read as two brackets. -/
theorem At.yields_of_brackets {column : Nat} {rest : List Char} {kinds' : List Token.Kind}
    (h : l.At kinds 0 [-1] false column (' ' :: '[' :: ']' :: '\n' :: rest)) (ht : StartsToken rest)
    (hgo : ∀ b : Lexer, b.Holds (kinds ++ [.openBracket, .closeBracket]) 0 [-1] →
      b.Reaches 0 rest → b.Yields kinds') : l.Yields kinds' := by
  obtain ⟨m, hgoes, hm⟩ := h.arrive_in_line 1 h.rest ⟨rfl, rfl, by simp, by simp⟩ (by omega)
  rw [h.column, h.allowed] at hm
  obtain ⟨k, hk, hloose⟩ := hm.loose
  have hcol : 0 < m.cursor.mark.column := by
    rw [hm.column]
    omega
  have hrest : (m.inBrackets k).cursor.rest = ']' :: '\n' :: rest :=
    @Cursor.rest_past m.cursor ['['] _ hm.rest
  have hafter : (m.behindBrackets k).cursor.rest = '\n' :: rest :=
    @Cursor.rest_past m.cursor ['[', ']'] _ hm.rest
  have hopen : m.read = .ok (m.inBrackets k) := by
    apply read_in_line (by rw [Cursor.head_eq hm.rest]; decide) hcol
      (readToken_openBracket hm.allowed hk hm.rest)
    rw [hrest]
    exact noComment_of_head _ rfl (by decide)
  have hclose : (m.inBrackets k).read = .ok (m.behindBrackets k) := by
    apply read_in_line (by rw [Cursor.head_eq hrest]; decide) _ (readToken_closeBracket hk hm.rest)
    · rw [hafter]
      exact noComment_of_head _ rfl (by decide)
    · show 0 < m.cursor.mark.column + 1
      omega
  apply hgoes.yields hm.fault hopen
  · rw [hrest, hm.rest]
    simp
  apply (goes_inBrackets hm.toHolds hk hm.rest).yields hm.fault hclose
  · rw [hafter, hrest]
    simp
  apply hgo
  · refine ⟨hm.fault, hm.going, ?_, ?_, hm.indent, hm.outer, hm.loose⟩
    · simp [behindBrackets, hm.tokens]
    · simp [behindBrackets, hm.count]
  · exact reaches_at_end (l := m.behindBrackets k) hm.fault hafter ht

/-- Where the items of a list stand: before the list starts, or inside of it. -/
inductive ListLevel : Int → List Int → List Token.Kind → Prop where
  | outside : ListLevel 0 [-1] [.blockSequence]
  | inside : ListLevel 4 [0, -1] []

/-- The reader inside of a list that stands at its first dash. -/
def inList (l : Lexer) (opening : List Token.Kind) : Lexer :=
  { l with
    tokens := opening.map (fun kind => ⟨kind, l.cursor.mark⟩) ++ l.tokens
    count := l.count + opening.length
    indent := 4
    outer := [0, -1] }

/-- The reader behind a dash. -/
def behindDash (l : Lexer) (opening : List Token.Kind) : Lexer :=
  { l.inList opening with
    cursor := l.cursor.past ['-']
    tokens := ⟨.dash, l.cursor.mark⟩ :: (l.inList opening).tokens
    count := (l.inList opening).count + 1
    candidates := [none]
    keyAllowed := true }

theorem openBlock_inList {opening : List Token.Kind} {rest : List Char}
    (h : l.At kinds indent outer true 4 rest) (hlevel : ListLevel indent outer opening) :
    l.openBlock l.cursor.mark.column l.count .blockSequence l.cursor.mark = .ok (l.inList opening) := by
  unfold openBlock
  rw [h.inFlow, if_neg (by simp), h.column]
  cases hlevel with
  | outside =>
    rw [if_pos (show l.indent < ((4 : Nat) : Int) by rw [h.indent]; decide),
      if_neg (show ¬ maxDepth ≤ l.outer.length by rw [h.outer]; decide),
      insert_eq [] l.tokens rfl rfl]
    simp [inList, h.indent, h.outer]
  | inside =>
    rw [if_neg (show ¬ l.indent < ((4 : Nat) : Int) by rw [h.indent]; decide)]
    simp [inList, ← h.indent, ← h.outer]

theorem dash_eq {opening : List Token.Kind} {more : List Char}
    (h : l.At kinds indent outer true 4 ('-' :: ' ' :: more)) (hlevel : ListLevel indent outer opening) :
    l.dash = .ok (l.behindDash opening) ∧
      (l.behindDash opening).At (kinds ++ (opening ++ [.dash])) 4 [0, -1] true 5 (' ' :: more) := by
  obtain ⟨k, hk, hloose⟩ := h.loose
  have hskip := Cursor.skip_one h.rest
  have hrest : (l.cursor.past ['-']).rest = ' ' :: more := @Cursor.rest_past l.cursor ['-'] _ h.rest
  have hdrop : (l.inList opening).dropCandidate = .ok { l.inList opening with candidates := [none] } :=
    dropCandidate_eq hk hloose
  have hopening : opening.reverse = opening := by cases hlevel <;> rfl
  refine ⟨?_, ⟨h.fault, h.going, ?_, ?_, rfl, rfl, ⟨none, rfl, by simp⟩⟩, rfl, ?_, hrest⟩
  · unfold dash
    rw [h.inFlow, h.allowed]
    simp only [bind, Except.bind]
    rw [if_neg (by simp), openBlock_inList h hlevel]
    dsimp only
    rw [hdrop]
    simp [pushSign, push, hskip, behindDash, inList]
  · simp [behindDash, inList, h.tokens, hopening, Function.comp_def]
  · simp [behindDash, inList, h.count]
    omega
  · simp [behindDash, h.column]

theorem readToken_dash (hhead : l.cursor.head = '-') (hnext : endsWord (l.cursor.peek 1) = true) :
    l.readToken = l.dash := by
  simp [readToken, hhead, hnext]

theorem Holds.yields_of_dash {opening kinds' : List Token.Kind} {more : List Char}
    (h : l.Holds kinds indent outer) (hr : l.Reaches 4 ('-' :: ' ' :: more)) (ht : StartsToken more)
    (hlevel : ListLevel indent outer opening)
    (hgo : ∀ d : Lexer, d.At (kinds ++ (opening ++ [.dash])) 4 [0, -1] true 5 (' ' :: more) →
      d.Yields kinds') : l.Yields kinds' := by
  obtain ⟨m, hgoes, hm⟩ := h.arrive_of_reaches hr (by cases hlevel <;> decide)
  obtain ⟨hdash, hd⟩ := dash_eq hm hlevel
  have hhead := Cursor.head_eq hm.rest
  have hpeek : m.cursor.peek 1 = ' ' := by
    rw [Cursor.peek, hm.rest]
    rfl
  apply hgoes.yields hm.fault (read_in_line (by rw [hhead]; decide) (by rw [hm.column]; decide)
    ((readToken_dash hhead (by rw [hpeek]; rfl)).trans hdash) _)
  · rw [hd.rest, hm.rest]
    simp
  · exact hgo _ hd
  · rw [hd.rest]
    exact ht.noComment_space

/-- The reader behind the mapping that is the document. -/
def behindMapping (l : Lexer) : Lexer :=
  { l with
    tokens := ⟨.blockEnd, l.cursor.mark⟩ :: l.tokens
    count := l.count + 1
    indent := -1
    outer := [] }

/-- The reader that has read a document. -/
def atEnd (l : Lexer) : Lexer :=
  { l.behindMapping with
    tokens := ⟨.streamEnd, l.cursor.mark⟩ :: l.behindMapping.tokens
    count := l.behindMapping.count + 1
    candidates := [none]
    keyAllowed := false
    finished := true }

theorem leaveBlocks_eq {rest : List Char} (h : l.At kinds 0 [-1] true 0 rest) :
    l.leaveBlocks = .ok { l.behindMapping with candidates := [none], keyAllowed := false } := by
  obtain ⟨k, hk, hloose⟩ := h.loose
  have hunroll : l.unroll (-1) l.cursor.mark = l.behindMapping := by
    unfold unroll
    rw [h.inFlow, if_neg (by simp), h.outer, closeBlocks,
      if_pos (show (-1 : Int) < l.indent by rw [h.indent]; decide)]
    rfl
  have hdrop : l.behindMapping.dropCandidate = .ok { l.behindMapping with candidates := [none] } :=
    dropCandidate_eq hk hloose
  unfold leaveBlocks
  rw [hunroll, hdrop]

/-- The end of the document ends the mapping. -/
theorem Goes.yields_of_end {m : Lexer} (hgo : l.Goes m) (h : m.At kinds 0 [-1] true 0 []) :
    l.Yields (kinds ++ [.blockEnd, .streamEnd]) := by
  have hread : m.read = .ok m.atEnd := by
    have hnul : m.cursor.head = nul := by
      rw [Cursor.head, h.rest]
      rfl
    unfold read
    rw [if_pos hnul]
    unfold endStream
    dsimp only
    rw [if_pos h.column,
      show ({ m with cursor := { m.cursor with mark := m.cursor.mark } } : Lexer) = m from rfl,
      leaveBlocks_eq h]
    rfl
  apply Yields.of_last hgo.going hgo.steady ((next_of_arrive hgo.arrive h.fault).trans hread) rfl
  simp [atEnd, behindMapping, h.tokens]

end

/-! ### Documents -/

open Writer (Entry written styleOf step)

/-- The reader before a line of the document that is not indented. -/
def Stands (l : Lexer) (kinds : List Token.Kind) (indent : Int) (outer : List Int) (rest : List Char) :
    Prop :=
  ∃ m, l.Goes m ∧ m.At kinds indent outer true 0 rest

theorem Holds.yields_of_items {items : List (List Char)} {rest : List Char} {kinds' : List Token.Kind}
    (ht : StartsToken rest) {l : Lexer} {kinds opening : List Token.Kind} {indent : Int} {outer : List Int}
    {cs : List Char} (hlevel : ListLevel indent outer opening) (h : l.Holds kinds indent outer)
    (hv : ∀ cs' ∈ cs :: items, Writer.Visible cs')
    (hr : l.Reaches 4 ('-' :: ' ' :: (written cs ++ '\n' :: (items.flatMap Writer.itemLine ++ rest))))
    (hgo : ∀ l' : Lexer, l'.Stands (kinds ++ (opening ++ ((cs :: items).flatMap Writer.itemKinds
      ++ [.blockEnd]))) 0 [-1] rest → l'.Yields kinds') : l.Yields kinds' := by
  induction items generalizing l kinds opening indent outer cs with
  | nil =>
    have hcs := hv cs List.mem_cons_self
    refine h.yields_of_dash hr (Scalar.startsToken_written hcs _) hlevel ?_
    intro d hd
    refine At.yields_of_text 1 0 rest hd hcs ht (by decide) (by decide) ?_
    intro b hb hreach
    apply hgo
    obtain ⟨m, hgoes, hm⟩ := hb.arrive_leaving hreach (by decide) (by decide)
    refine ⟨m, hgoes, ?_⟩
    simpa [Writer.itemKinds] using hm
  | cons cs' items ih =>
    have hcs := hv cs List.mem_cons_self
    have hline : (cs' :: items).flatMap Writer.itemLine ++ rest = List.replicate 4 ' '
        ++ ('-' :: ' ' :: (written cs' ++ '\n' :: (items.flatMap Writer.itemLine ++ rest))) := by
      simp [Writer.itemLine, step]
    rw [hline] at hr
    refine h.yields_of_dash hr (Scalar.startsToken_written hcs _) hlevel ?_
    intro d hd
    refine At.yields_of_text 1 4 _ hd hcs ⟨rfl, rfl, by simp, by simp⟩ (by decide)
      (by decide) ?_
    intro b hb hreach
    refine ih .inside hb (fun c hc => hv c (List.mem_cons_of_mem _ hc)) hreach ?_
    intro l' hl'
    apply hgo
    simpa [Writer.itemKinds] using hl'

/-- The reader goes from the line of one entry to the line of the next one. -/
theorem Stands.yields_of_entry {l : Lexer} {kinds opening kinds' : List Token.Kind} {indent : Int}
    {outer : List Int} {name rest : List Char} {e : Entry}
    (h : l.Stands kinds indent outer (Writer.entryLines name e ++ rest))
    (hlevel : Level indent outer opening) (hn : Scalar.IsName name) (hlength : name.length ≤ 1024)
    (hv : Writer.VisibleEntry e) (ht : StartsToken rest)
    (hgo : ∀ l' : Lexer, l'.Stands (kinds ++ (opening ++ Writer.entryKinds name e)) 0 [-1] rest →
      l'.Yields kinds') : l.Yields kinds' := by
  obtain ⟨m, hgoes, hm⟩ := h
  have hstands : ∀ (b : Lexer) ks, b.Holds ks 0 [-1] → b.Reaches 0 rest → b.Stands ks 0 [-1] rest :=
    fun b ks hb hreach => hb.arrive_of_reaches hreach (by decide)
  cases e with
  | string s =>
    have hline : Writer.entryLines name (.string s) ++ rest
        = name ++ ':' :: ' ' :: (written (Utf8.decode s) ++ '\n' :: rest) := by simp [Writer.entryLines]
    rw [hline] at hm
    refine hgoes.yields_of_key hm hlevel hn hlength rfl (Scalar.startsToken_written hv _).noComment_space ?_
    intro d column hcol hd
    refine At.yields_of_text 1 0 rest hd hv ht (by decide) (by omega) ?_
    intro b hb hreach
    apply hgo
    simpa [Writer.entryKinds, Writer.valueKinds] using hstands b _ hb hreach
  | flag on =>
    have hline : Writer.entryLines name (.flag on) ++ rest
        = name ++ ':' :: ' ' :: (Writer.flagWord on ++ '\n' :: rest) := by simp [Writer.entryLines]
    have hword := Writer.isName_flagWord on
    have hvisible := hword.plainWord.visible
    have hsign : Writer.startsWithSign (Writer.flagWord on) = false := by cases on <;> rfl
    have hspaced : Scalar.Spaced Scalar.PlainWord (Writer.flagWord on) := .last hword.plainWord
    rw [hline] at hm
    refine hgoes.yields_of_key hm hlevel hn hlength rfl
      (Scalar.startsToken_plain hvisible hspaced hsign _).noComment_space ?_
    intro d column hcol hd
    refine At.yields_of_plain 1 0 rest hd hvisible hspaced hsign ht
      (by decide) (by omega) ?_
    intro b hb hreach
    apply hgo
    simpa [Writer.entryKinds, Writer.valueKinds] using hstands b _ hb hreach
  | strings items =>
    cases items with
    | nil =>
      have hline : Writer.entryLines name (.strings []) ++ rest
          = name ++ ':' :: ' ' :: '[' :: ']' :: '\n' :: rest := by simp [Writer.entryLines]
      rw [hline] at hm
      refine hgoes.yields_of_key hm hlevel hn hlength rfl
        (StartsToken.noComment_space ⟨rfl, rfl, by simp, by simp⟩) ?_
      intro d column hcol hd
      refine hd.yields_of_brackets ht ?_
      intro b hb hreach
      apply hgo
      simpa [Writer.entryKinds, Writer.valueKinds] using hstands b _ hb hreach
    | cons s items =>
      have hline : Writer.entryLines name (.strings (s :: items)) ++ rest = name ++ ':' :: '\n'
          :: (List.replicate 4 ' ' ++ '-' :: ' ' :: (written (Utf8.decode s)
            ++ '\n' :: ((items.map Utf8.decode).flatMap Writer.itemLine ++ rest))) := by
        simp [Writer.entryLines, Writer.itemLine, step]
      rw [hline] at hm
      refine hgoes.yields_of_key hm hlevel hn hlength rfl (noComment_of_head _ rfl (by decide)) ?_
      intro d column hcol hd
      have hreach := reaches_at_end hd.fault hd.rest ⟨rfl, rfl, by simp, by simp⟩
      refine hd.toHolds.yields_of_items ht .outside ?_ hreach ?_
      · intro cs hcs
        obtain ⟨s', hs', rfl⟩ := List.mem_map.mp (show cs ∈ (s :: items).map Utf8.decode from hcs)
        exact hv s' hs'
      · intro l' hl'
        apply hgo
        simpa [Writer.entryKinds, Writer.valueKinds] using hl'

theorem startsToken_entryLines {name : List Char} (hn : Scalar.IsName name) (e : Entry) (tail : List Char) :
    StartsToken (Writer.entryLines name e ++ tail) := by
  obtain ⟨more, hmore⟩ : ∃ more, Writer.entryLines name e = name ++ more := by
    cases e with
    | string s => exact ⟨_, rfl⟩
    | flag on => exact ⟨_, rfl⟩
    | strings items => cases items <;> exact ⟨_, rfl⟩
  obtain ⟨ch, name, rfl⟩ := List.exists_cons_of_ne_nil hn.ne_nil
  have hletter := hn.letters ch List.mem_cons_self
  have hne : ch ≠ ' ' := hletter.ne_of (by decide)
  rw [hmore, List.append_assoc, List.cons_append]
  refine ⟨?_, hletter.visible.isBreak_eq, hletter.ne_of (by decide), hletter.ne_of (by decide)⟩
  rw [List.headD_cons, hletter.visible.isBlank_eq, decide_eq_false hne]

theorem startsToken_lines {entries : List (String × Entry)} (h : ∀ e ∈ entries, Writer.Legible e) :
    StartsToken (Writer.lines entries) := by
  cases entries with
  | nil => exact ⟨rfl, rfl, by decide, by decide⟩
  | cons e entries =>
    rw [Writer.lines, List.flatMap_cons]
    exact startsToken_entryLines (h e List.mem_cons_self).name _ _

theorem Stands.yields_of_lines {entries : List (String × Entry)} (h : ∀ e ∈ entries, Writer.Legible e)
    {l : Lexer} {kinds : List Token.Kind} (hl : l.Stands kinds 0 [-1] (Writer.lines entries)) :
    l.Yields (kinds ++ (Writer.kinds entries ++ [.blockEnd, .streamEnd])) := by
  induction entries generalizing l kinds with
  | nil =>
    obtain ⟨m, hgoes, hm⟩ := hl
    exact hgoes.yields_of_end hm
  | cons e entries ih =>
    have hrest : ∀ e ∈ entries, Writer.Legible e := fun e' he' => h e' (List.mem_cons_of_mem _ he')
    have he := h e List.mem_cons_self
    rw [Writer.lines, List.flatMap_cons] at hl
    refine hl.yields_of_entry .inside he.name he.short he.visible (startsToken_lines hrest) ?_
    intro l' hl'
    have hyields := ih hrest hl'
    simpa [Writer.kinds] using hyields

/-- The reader at the start of a document. -/
def begun (cs : List Char) : Lexer := (Lexer.start ⟨cs, none⟩).push .streamStart ⟨0, 0, 0⟩

end Lexer

/-- The tokens of a document that was written. -/
theorem Tokens.ofSource_lines {entries : List (String × Writer.Entry)} (hne : entries ≠ [])
    (h : ∀ e ∈ entries, Writer.Legible e) :
    (Tokens.ofSource ⟨Writer.lines entries, none⟩).fault = none ∧
      (Tokens.ofSource ⟨Writer.lines entries, none⟩).items.map Token.kind
        = .streamStart :: .blockMapping :: (Writer.kinds entries ++ [.blockEnd, .streamEnd]) := by
  have hholds : (Lexer.begun (Writer.lines entries)).Holds [.streamStart] (-1) [] :=
    ⟨rfl, rfl, rfl, rfl, rfl, rfl, ⟨none, rfl, by simp⟩⟩
  have hstands : (Lexer.begun (Writer.lines entries)).Stands [.streamStart] (-1) []
      (Writer.lines entries) := by
    refine ⟨_, Lexer.goes_self rfl hholds.steady rfl ?_ (Lexer.unroll_of_le
      (show (-1 : Int) ≤ ((0 : Nat) : Int) by decide) _), hholds, rfl, rfl, rfl⟩
    exact Lexer.startsToken_lines h
  have hyields : (Lexer.begun (Writer.lines entries)).Yields
      (.streamStart :: .blockMapping :: (Writer.kinds entries ++ [.blockEnd, .streamEnd])) := by
    obtain ⟨e, entries, rfl⟩ := List.exists_cons_of_ne_nil hne
    have he := h e List.mem_cons_self
    have hrest : ∀ e ∈ entries, Writer.Legible e := fun e' he' => h e' (List.mem_cons_of_mem _ he')
    rw [Writer.lines, List.flatMap_cons] at hstands
    refine hstands.yields_of_entry .outside he.name he.short he.visible
      (Lexer.startsToken_lines hrest) ?_
    intro l' hl'
    have hlast := hl'.yields_of_lines hrest
    simpa [Writer.kinds] using hlast
  unfold Tokens.ofSource
  exact hyields ((Writer.lines entries).length + 2) 0 (by
    show (Writer.lines entries).length < _
    omega)

end DartReach.Yaml
