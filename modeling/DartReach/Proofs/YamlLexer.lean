import DartReach.Proofs.YamlScalar
import DartReach.Yaml.Token.Lexer

/-!
# From token to token

Between two tokens the reader stands in a line or at its end. It first goes to the next token, which may
end block collections, and then reads it. What a reader yields is what it yields after its next token, so
the reading of a text is put together from its end.
-/

namespace DartReach.Yaml

set_option autoImplicit false

/-- What may stand behind a token in its line: blanks, but no comment. -/
def NoComment (rest : List Char) : Prop :=
  ∃ blanks more, rest = blanks ++ more ∧ (∀ ch ∈ blanks, isBlank ch = true) ∧
    isBlank (more.headD nul) = false ∧ more.headD nul ≠ '#'

theorem StartsToken.noComment {rest : List Char} (h : StartsToken rest) : NoComment rest :=
  ⟨[], rest, rfl, by simp, h.notBlank, h.notHash⟩

theorem StartsToken.noComment_space {rest : List Char} (h : StartsToken rest) : NoComment (' ' :: rest) :=
  ⟨[' '], rest, rfl, by simp [isBlank], h.notBlank, h.notHash⟩

theorem noComment_of_head {ch : Char} (rest : List Char) (hblank : isBlank ch = false) (hhash : ch ≠ '#') :
    NoComment (ch :: rest) :=
  ⟨[], ch :: rest, rfl, by simp, hblank, hhash⟩

theorem Cursor.skipLineComment_eq {c : Cursor} (h : NoComment c.rest) : c.skipLineComment = .ok c := by
  obtain ⟨blanks, more, hr, hblanks, hmore, hhash⟩ := h
  have htake : c.rest.takeWhile isBlank = blanks := by rw [hr, takeWhile_append_stop hblanks hmore]
  have hpeek : c.peek blanks.length ≠ '#' := by
    have hsame : c.peek blanks.length = more.headD nul := by
      cases more <;> simp [Cursor.peek, hr]
    rw [hsame]
    exact hhash
  unfold Cursor.skipLineComment
  rw [htake]
  simp [hpeek]

namespace Lexer

/-! ### Going to the next token -/

theorem toNextToken_succ {inFlow allowed : Bool} {c c' : Cursor} {n : Nat} (hf : c.fault = none)
    (hmark : c.head ≠ '\ufeff')
    (hskip : c.skipRun (fun ch => ch = ' ' || ((inFlow || !allowed) && ch = '\t')) = .ok c')
    (hf' : c'.fault = none) (hhash : c'.head ≠ '#') :
    toNextToken inFlow (n + 1) allowed c
      = if isBreak c'.head then toNextToken inFlow n (allowed || !inFlow) c'.skipBreak
        else .ok (allowed, c') := by
  have hnone : (c.mark.column = 0 && c.head = '\ufeff') = false := by simp [hmark]
  rw [toNextToken]
  simp only [bind, Except.bind, Cursor.ensure_ok hf, hnone, Bool.false_eq_true, if_false, hskip, hhash,
    Cursor.ensure_ok hf']

theorem toNextToken_in_line {inFlow allowed : Bool} {c : Cursor} {n : Nat} (spaces : Nat)
    {rest : List Char} (hf : c.fault = none) (hr : c.rest = List.replicate spaces ' ' ++ rest)
    (ht : StartsToken rest) :
    toNextToken inFlow (n + 1) allowed c = .ok (allowed, c.past (List.replicate spaces ' ')) := by
  have hmark : c.head ≠ '\ufeff' := by
    rw [Cursor.head, hr]
    cases spaces with
    | zero => exact ht.notMark
    | succ spaces =>
      rw [List.replicate_succ, List.cons_append, List.headD_cons]
      decide
  have hblank := ht.notBlank
  simp only [isBlank, Bool.or_eq_false_iff, decide_eq_false_iff_not] at hblank
  have hskip : c.skipRun (fun ch => ch = ' ' || ((inFlow || !allowed) && ch = '\t'))
      = .ok (c.past (List.replicate spaces ' ')) := by
    unfold Cursor.skipRun
    rw [Cursor.takeRun_eq hf hr]
    · intro ch hch
      simp [(List.mem_replicate.mp hch).2]
    · rw [decide_eq_false hblank.1, decide_eq_false hblank.2]
      simp
  have hhead : (c.past (List.replicate spaces ' ')).head = rest.headD nul := by
    rw [Cursor.head, Cursor.rest_past hr]
  rw [toNextToken_succ hf hmark hskip hf (by rw [hhead]; exact ht.notHash), hhead, ht.notBreak]
  rfl

theorem toNextToken_at_end {allowed : Bool} {c : Cursor} {n spaces : Nat} {rest : List Char}
    (hf : c.fault = none) (hr : c.rest = '\n' :: (List.replicate spaces ' ' ++ rest))
    (ht : StartsToken rest) :
    toNextToken false (n + 2) allowed c = .ok (true, c.toLine spaces) := by
  have hhead : c.head = '\n' := Cursor.head_eq hr
  have hskip : c.skipRun (fun ch => ch = ' ' || ((false || !allowed) && ch = '\t')) = .ok c := by
    unfold Cursor.skipRun
    rw [Cursor.takeRun_none hf]
    rw [hhead]
    simp
  have hnext : toNextToken false (n + 1) true (c.pastBreak 1) = .ok (true, c.toLine spaces) := by
    apply toNextToken_in_line (c := c.pastBreak 1) spaces hf _ ht
    simp [Cursor.pastBreak, hr]
  rw [toNextToken_succ hf (by rw [hhead]; decide) hskip hf (by rw [hhead]; decide), hhead,
    if_pos (by decide), Cursor.skipBreak, Cursor.takeBreak_eq hr, Bool.not_false, Bool.or_true, hnext]

/-- Going to the next token: the first part of reading it. -/
def arrive (l : Lexer) : Except Error Lexer :=
  match toNextToken l.inFlow (l.cursor.rest.length + 1) l.keyAllowed l.cursor with
  | .error e => .error e
  | .ok (keyAllowed, c) =>
    .ok ({ l with keyAllowed := keyAllowed, cursor := c }.unroll c.mark.column l.cursor.mark)

/-- Reading the token at the cursor: the second part. -/
def read (l : Lexer) : Except Error Lexer :=
  if l.cursor.head = nul then l.endStream
  else if l.cursor.mark.column = 0 && l.cursor.head = '%' then l.directive
  else if l.cursor.atDocument '-' then l.boundary .documentStart
  else if l.cursor.atDocument '.' then l.boundary .documentEnd
  else do
    let l ← l.readToken
    l.afterToken

theorem cursor_closeBlocks (column : Int) (mark : Mark) (l : Lexer) (outer : List Int) :
    (closeBlocks column mark l outer).cursor = l.cursor := by
  induction outer generalizing l with
  | nil => rfl
  | cons indent outer ih =>
    rw [closeBlocks]
    split
    · rw [ih]
      rfl
    · rfl

@[simp] theorem cursor_unroll (l : Lexer) (column : Int) (mark : Mark) :
    (l.unroll column mark).cursor = l.cursor := by
  unfold unroll
  split
  · rfl
  · exact cursor_closeBlocks column mark l l.outer

theorem next_of_arrive {l m : Lexer} (h : l.arrive = .ok m) (hf : m.cursor.fault = none) :
    l.next = m.read := by
  unfold arrive at h
  unfold next
  split at h
  · cases h
  · rename_i keyAllowed c hgo
    cases h
    rw [cursor_unroll] at hf
    simp only [hgo, bind, Except.bind, Cursor.ensure_ok (c := c) hf, read, cursor_unroll]

/-! ### What a reader yields -/

/-- No required key lies too far back. -/
def Steady (l : Lexer) : Prop :=
  ∀ k, some k ∈ l.candidates → k.required = true → l.isStale k = false

theorem reveal_ok {l : Lexer} (h : l.Steady) (n seen : Nat) : (l.reveal n seen).2 = .ok () := by
  induction n generalizing seen with
  | zero => rfl
  | succ n ih =>
    rw [reveal]
    split
    · split
      · exact ih _
      · rename_i k hk
        have hmem : some k ∈ l.candidates := by
          simpa using List.mem_of_find?_eq_some hk
        split
        · rename_i hstale
          split
          · rename_i hrequired
            rw [h k hmem hrequired] at hstale
            cases hstale
          · exact ih _
        · rfl
    · rfl

/-- The kinds of all tokens that are read from here on, those read before included. -/
def Yields (l : Lexer) (kinds : List Token.Kind) : Prop :=
  ∀ n seen, l.cursor.rest.length < n →
    (l.finish n seen).fault = none ∧ (l.finish n seen).items.map Token.kind = kinds

theorem finish_succ {l m : Lexer} (hgoing : l.finished = false) (hsteady : l.Steady)
    (hnext : l.next = .ok m) (n seen : Nat) :
    ∃ seen', l.finish (n + 1) seen = m.finish n seen' := by
  have hok := reveal_ok hsteady (l.count + 1) seen
  cases hreveal : l.reveal (l.count + 1) seen with
  | mk seen' outcome =>
    rw [hreveal] at hok
    simp only at hok
    refine ⟨seen', ?_⟩
    rw [finish, hgoing, if_neg (by simp), hreveal, hok]
    simp only [hnext]

theorem Yields.of_next {l m : Lexer} {kinds : List Token.Kind} (hgoing : l.finished = false)
    (hsteady : l.Steady) (hnext : l.next = .ok m) (hless : m.cursor.rest.length < l.cursor.rest.length)
    (hm : m.Yields kinds) : l.Yields kinds := by
  intro n seen hn
  obtain ⟨n, rfl⟩ : ∃ k, n = k + 1 := ⟨n - 1, by omega⟩
  obtain ⟨seen', heq⟩ := finish_succ hgoing hsteady hnext n seen
  rw [heq]
  exact hm n seen' (by omega)

theorem Yields.of_last {l m : Lexer} {kinds : List Token.Kind} (hgoing : l.finished = false)
    (hsteady : l.Steady) (hnext : l.next = .ok m) (hdone : m.finished = true)
    (hkinds : m.tokens.map Token.kind = kinds.reverse) : l.Yields kinds := by
  intro n seen hn
  obtain ⟨n, rfl⟩ : ∃ k, n = k + 1 := ⟨n - 1, by omega⟩
  obtain ⟨seen', heq⟩ := finish_succ hgoing hsteady hnext n seen
  have hfinish : m.finish n seen' = ⟨m.tokens.reverse, none⟩ := by
    cases n with
    | zero => rfl
    | succ n => rw [finish, if_pos hdone]
  rw [heq, hfinish]
  simp [hkinds]

/-! ### Between tokens -/

/-- The reader outside of brackets: its tokens so far, its indentation, and no key that is required. -/
structure Holds (l : Lexer) (kinds : List Token.Kind) (indent : Int) (outer : List Int) : Prop where
  fault : l.cursor.fault = none
  going : l.finished = false
  tokens : l.tokens.map Token.kind = kinds.reverse
  count : l.count = kinds.length
  indent : l.indent = indent
  outer : l.outer = outer
  loose : ∃ k, l.candidates = [k] ∧ ∀ c ∈ k, c.required = false

/-- The reader at a token. -/
structure At (l : Lexer) (kinds : List Token.Kind) (indent : Int) (outer : List Int) (allowed : Bool)
    (column : Nat) (rest : List Char) : Prop extends Holds l kinds indent outer where
  allowed : l.keyAllowed = allowed
  column : l.cursor.mark.column = column
  rest : l.cursor.rest = rest

/-- The reader at the end of a line, or behind it: the next token stands on a later line. -/
def Reaches (l : Lexer) (column : Nat) (rest : List Char) : Prop :=
  rest.length ≤ l.cursor.rest.length ∧
  ∃ c, toNextToken false (l.cursor.rest.length + 1) l.keyAllowed l.cursor = .ok (true, c) ∧
    c.fault = none ∧ c.mark.column = column ∧ c.rest = rest

/-- The reader goes to its next token. -/
structure Goes (l m : Lexer) : Prop where
  going : l.finished = false
  steady : l.Steady
  arrive : l.arrive = .ok m
  shorter : m.cursor.rest.length ≤ l.cursor.rest.length

theorem Goes.yields {l m d : Lexer} {kinds : List Token.Kind} (h : l.Goes m) (hf : m.cursor.fault = none)
    (hread : m.read = .ok d) (hless : d.cursor.rest.length < m.cursor.rest.length)
    (hd : d.Yields kinds) : l.Yields kinds := by
  apply Yields.of_next h.going h.steady ((next_of_arrive h.arrive hf).trans hread) _ hd
  have := h.shorter
  omega

section

variable {l : Lexer} {kinds : List Token.Kind} {indent : Int} {outer : List Int}

theorem Holds.steady (h : l.Holds kinds indent outer) : l.Steady := by
  obtain ⟨k, hk, hloose⟩ := h.loose
  intro c hc hrequired
  rw [hk, List.mem_singleton] at hc
  rw [hloose c hc.symm] at hrequired
  cases hrequired

theorem Holds.inFlow (h : l.Holds kinds indent outer) : l.inFlow = false := by
  obtain ⟨k, hk, _⟩ := h.loose
  simp [Lexer.inFlow, flowDepth, hk]

theorem reaches_at_start (hf : l.cursor.fault = none) (ha : l.keyAllowed = true) {column : Nat}
    {rest : List Char} (hc : l.cursor.mark.column = column) (hr : l.cursor.rest = rest)
    (ht : StartsToken rest) : l.Reaches column rest := by
  refine ⟨Nat.le_of_eq (by rw [hr]), l.cursor, ?_, hf, hc, hr⟩
  rw [ha, toNextToken_in_line 0 hf hr ht, List.replicate_zero, Cursor.past_nil]

theorem reaches_at_end (hf : l.cursor.fault = none) {next : Nat} {rest : List Char}
    (hr : l.cursor.rest = '\n' :: (List.replicate next ' ' ++ rest)) (ht : StartsToken rest) :
    l.Reaches next rest := by
  refine ⟨?_, l.cursor.toLine next, ?_, hf, Cursor.column_toLine _ _, Cursor.rest_toLine hr⟩
  · rw [hr, List.length_cons, List.length_append]
    omega
  · rw [hr, List.length_cons, toNextToken_at_end hf hr ht]

theorem unroll_of_le {column : Int} (h : l.indent ≤ column) (mark : Mark) : l.unroll column mark = l := by
  unfold unroll
  split
  · rfl
  · cases l.outer with
    | nil => rfl
    | cons first outer => rw [closeBlocks, if_neg (by omega)]

theorem goes_self (hgoing : l.finished = false) (hsteady : l.Steady) (hf : l.cursor.fault = none)
    (ht : StartsToken l.cursor.rest) (hu : l.unroll l.cursor.mark.column l.cursor.mark = l) : l.Goes l := by
  refine ⟨hgoing, hsteady, ?_, Nat.le_refl _⟩
  unfold arrive
  rw [toNextToken_in_line 0 hf rfl ht, List.replicate_zero, Cursor.past_nil]
  exact congrArg Except.ok hu

theorem Holds.arrive_in_line (h : l.Holds kinds indent outer) (spaces : Nat) {rest : List Char}
    (hr : l.cursor.rest = List.replicate spaces ' ' ++ rest) (ht : StartsToken rest)
    (hi : indent ≤ ((l.cursor.mark.column + spaces : Nat) : Int)) :
    ∃ m, l.Goes m ∧
      m.At kinds indent outer l.keyAllowed (l.cursor.mark.column + spaces) rest := by
  refine ⟨{ l with cursor := l.cursor.past (List.replicate spaces ' ') },
    ⟨h.going, h.steady, ?_, by simp [Cursor.past]⟩,
    ⟨h.fault, h.going, h.tokens, h.count, h.indent, h.outer, h.loose⟩, rfl, ?_, ?_⟩
  · unfold arrive
    rw [h.inFlow, toNextToken_in_line spaces h.fault hr ht]
    dsimp only
    rw [unroll_of_le]
    rw [Cursor.column_past, List.length_replicate, h.indent]
    exact hi
  · simp
  · exact Cursor.rest_past hr

theorem Holds.arrive_of_reaches (h : l.Holds kinds indent outer) {column : Nat} {rest : List Char}
    (hr : l.Reaches column rest) (hi : indent ≤ (column : Int)) :
    ∃ m, l.Goes m ∧ m.At kinds indent outer true column rest := by
  obtain ⟨hlength, c, hgo, hf, hc, hrest⟩ := hr
  refine ⟨{ l with keyAllowed := true, cursor := c }, ⟨h.going, h.steady, ?_, by rw [hrest]; exact hlength⟩,
    ⟨hf, h.going, h.tokens, h.count, h.indent, h.outer, h.loose⟩, rfl, hc, hrest⟩
  unfold arrive
  rw [h.inFlow, hgo]
  dsimp only
  rw [unroll_of_le]
  rw [hc, h.indent]
  exact hi

/-- The reader behind a collection, at the token that ended it. -/
def behindBlock (l : Lexer) (c : Cursor) (indent : Int) (outer : List Int) : Lexer :=
  { l with
    keyAllowed := true
    cursor := c
    tokens := ⟨.blockEnd, l.cursor.mark⟩ :: l.tokens
    count := l.count + 1
    indent := indent
    outer := outer }

/-- A token with less indentation ends a collection. -/
theorem Holds.arrive_leaving {inner : Int} (h : l.Holds kinds inner (indent :: outer)) {column : Nat}
    {rest : List Char} (hr : l.Reaches column rest) (hin : (column : Int) < inner)
    (hi : indent ≤ (column : Int)) :
    ∃ m, l.Goes m ∧ m.At (kinds ++ [.blockEnd]) indent outer true column rest := by
  obtain ⟨hlength, c, hgo, hf, hc, hrest⟩ := hr
  have hclose : ∀ os, closeBlocks c.mark.column l.cursor.mark (l.behindBlock c indent outer) os =
      l.behindBlock c indent outer := by
    intro os
    cases os with
    | nil => rfl
    | cons o os =>
      rw [closeBlocks, if_neg]
      rw [hc]
      show ¬ (column : Int) < indent
      omega
  refine ⟨l.behindBlock c indent outer,
    ⟨h.going, h.steady, ?_, by rw [← hrest] at hlength; exact hlength⟩,
    ⟨hf, h.going, ?_, ?_, rfl, rfl, h.loose⟩, rfl, hc, hrest⟩
  · have hflow : ({ l with keyAllowed := true, cursor := c } : Lexer).inFlow = false := h.inFlow
    unfold arrive
    rw [h.inFlow, hgo]
    dsimp only
    unfold unroll
    rw [hflow, if_neg (by simp), h.outer, closeBlocks, if_pos]
    · exact congrArg Except.ok (hclose outer)
    · rw [hc, h.indent]
      exact hin
  · simp [behindBlock, h.tokens]
  · simp [behindBlock, h.count]

end

/-! ### Scalars and keys -/

theorem afterToken_eq {l : Lexer} (h : NoComment l.cursor.rest) : l.afterToken = .ok l := by
  unfold afterToken
  rw [Cursor.skipLineComment_eq h]
  split
  · rfl
  · rfl

theorem read_in_line {l m : Lexer} (hnul : l.cursor.head ≠ nul) (hcol : 0 < l.cursor.mark.column)
    (hread : l.readToken = .ok m) (hm : NoComment m.cursor.rest) : l.read = .ok m := by
  have hne : l.cursor.mark.column ≠ 0 := by omega
  unfold read
  rw [if_neg hnul, hread]
  simp [Cursor.atDocument, hne, bind, Except.bind, afterToken_eq hm]

/-- Signs that start no plain scalar, whatever follows them. -/
def signs : List Char := "#,[]\x7b\x7d&*!|>'\"%@`".toList

theorem readToken_plain {l : Lexer} (hflow : l.inFlow = false) (hword : endsWord l.cursor.head = false)
    (hsign : l.cursor.head ∉ signs)
    (hnext : l.cursor.head = '?' ∨ l.cursor.head = ':' ∨ l.cursor.head = '-' →
      endsWord (l.cursor.peek 1) = false) : l.readToken = l.plainScalar := by
  have hne : ∀ d ∈ signs, l.cursor.head ≠ d := by
    rintro d hd rfl
    exact hsign hd
  have hmark : ∀ d, d = '?' ∨ d = ':' ∨ d = '-' →
      (l.cursor.head = d && endsWord (l.cursor.peek 1)) = false := by
    intro d hd
    by_cases heq : l.cursor.head = d
    · rw [hnext (heq ▸ hd), Bool.and_false]
    · simp [heq]
  have hstarts : l.startsPlain = true := by
    unfold startsPlain
    dsimp only
    rw [hflow, hword]
    by_cases hmarked : l.cursor.head = '?' ∨ l.cursor.head = ':' ∨ l.cursor.head = '-'
    · have hends := hnext hmarked
      have hblank : isBlank (l.cursor.peek 1) = false := by
        rw [endsWord, Bool.or_eq_false_iff] at hends
        exact hends.1
      rcases hmarked with hmarked | hmarked | hmarked <;> simp [hmarked, hends, hblank]
    · have hindicator : isIndicator l.cursor.head = false := by
        have hall : "-?:,[]\x7b\x7d#&*!|>'\"%@`".toList.all
            (fun d => decide (d ∈ signs ∨ d = '?' ∨ d = ':' ∨ d = '-')) = true := by decide
        unfold isIndicator
        rw [List.contains_eq_mem, decide_eq_false_iff_not]
        intro hmem
        rcases of_decide_eq_true (List.all_eq_true.mp hall _ hmem) with hsigned | hmarked'
        · exact hsign hsigned
        · exact hmarked hmarked'
      simp [hindicator]
  unfold readToken
  simp only [hflow, Bool.false_or, hmark '-' (by simp), hmark '?' (by simp), hmark ':' (by simp),
    hne '[' (by decide), hne ']' (by decide), hne '\x7b' (by decide), hne '\x7d' (by decide),
    hne ',' (by decide), hne '*' (by decide), hne '&' (by decide), hne '!' (by decide),
    hne '|' (by decide), hne '>' (by decide), hne '\'' (by decide), hne '"' (by decide), hstarts]
  simp

/-- A key that is not required can be given up. -/
theorem dropCandidate_eq {l : Lexer} {k : Option KeyCandidate} (hk : l.candidates = [k])
    (hloose : ∀ c ∈ k, c.required = false) : l.dropCandidate = .ok { l with candidates := [none] } := by
  unfold dropCandidate candidate
  rw [hk, List.headD_cons]
  cases k with
  | none => simp [← hk]
  | some k => simp [hloose k rfl, setCandidate, hk]

theorem insert_eq {l : Lexer} (front back : List Token) {number : Nat} (ht : l.tokens = front ++ back)
    (hc : l.count = number + front.length) (kind : Token.Kind) (mark : Mark) :
    l.insert number kind mark
      = { l with tokens := front ++ ⟨kind, mark⟩ :: back, count := l.count + 1 } := by
  have hbehind : l.count - number = front.length := by omega
  unfold insert
  rw [hbehind, ht]
  simp

theorem readToken_colon {l : Lexer} (hhead : l.cursor.head = ':')
    (hnext : endsWord (l.cursor.peek 1) = true) : l.readToken = l.colon := by
  simp [readToken, hhead, hnext]

/-- Where keys stand: outside, before the mapping starts, or inside of it. -/
inductive Level : Int → List Int → List Token.Kind → Prop where
  | outside : Level (-1) [] [.blockMapping]
  | inside : Level 0 [-1] []

theorem colon_eq {b : Lexer} {k : KeyCandidate} {t : Token} {tokens : List Token}
    {opening : List Token.Kind} {indent : Int} {outer : List Int} (hi : b.indent = indent)
    (ho : b.outer = outer) (hlevel : Level indent outer opening) (ht : b.tokens = t :: tokens)
    (hc : b.count = k.number + 1) (hk : b.candidates = [some k]) (hlive : b.isStale k = false)
    (hcol : k.mark.column = 0) :
    ∃ d, b.colon = .ok d ∧ d.cursor = b.cursor.skip 1 ∧ d.keyAllowed = false ∧
      d.finished = b.finished ∧ d.candidates = [none] ∧ d.indent = 0 ∧ d.outer = [-1] ∧
      d.count = b.count + opening.length + 2 ∧
      d.tokens.map Token.kind = .value :: t.kind :: .key :: (opening ++ tokens.map Token.kind) := by
  have hflow : b.inFlow = false := by simp [inFlow, flowDepth, hk]
  have hinsert : b.insert k.number .key k.mark
      = { b with tokens := t :: ⟨.key, k.mark⟩ :: tokens, count := b.count + 1 } :=
    insert_eq [t] tokens ht hc .key k.mark
  have hopen : ({ b with tokens := t :: ⟨.key, k.mark⟩ :: tokens, count := b.count + 1 } : Lexer).openBlock
      k.mark.column k.number .blockMapping k.mark
      = .ok { b with
          tokens := t :: ⟨.key, k.mark⟩ :: (opening.map (fun kind => ⟨kind, k.mark⟩) ++ tokens)
          count := b.count + opening.length + 1
          indent := 0
          outer := [-1] } := by
    have hflow' : ({ b with tokens := t :: ⟨.key, k.mark⟩ :: tokens, count := b.count + 1 } : Lexer).inFlow
        = false := hflow
    unfold openBlock
    rw [hflow', if_neg (by simp), hcol]
    cases hlevel with
    | outside =>
      rw [if_pos (show b.indent < ((0 : Nat) : Int) by rw [hi]; decide),
        if_neg (show ¬ maxDepth ≤ b.outer.length by rw [ho]; decide),
        insert_eq [t, ⟨.key, k.mark⟩] tokens rfl (by simp [hc])]
      simp [hi, ho]
    | inside =>
      rw [if_neg (show ¬ b.indent < ((0 : Nat) : Int) by rw [hi]; decide)]
      simp [hi, ho]
  have hcandidate : b.liveCandidate = .ok (some k) := by simp [liveCandidate, candidate, hk, hlive]
  unfold colon
  rw [hcandidate]
  simp only [bind, Except.bind]
  rw [hinsert, hopen]
  refine ⟨_, rfl, rfl, rfl, rfl, ?_, rfl, rfl, ?_, ?_⟩
  · simp [setCandidate, pushSign, push, hk]
  · simp [setCandidate, pushSign, push]
  · simp [setCandidate, pushSign, push, Function.comp_def]

/-- The reader behind a scalar; where a key may start the scalar can turn out to be one. -/
def behind (l : Lexer) (content : List Char) (style : Style) (allowed : Bool) (c : Cursor) : Lexer :=
  { l with
    cursor := c
    tokens := ⟨.scalar content style, l.cursor.mark⟩ :: l.tokens
    count := l.count + 1
    candidates :=
      if l.keyAllowed then
        [some ⟨l.count, l.cursor.mark, l.indent = (l.cursor.mark.column : Int)⟩]
      else l.candidates
    keyAllowed := allowed }

/-- The reader behind a plain scalar that ends in its line. -/
def behindName (l : Lexer) (name : List Char) : Lexer := l.behind name .plain false (l.cursor.past name)

section

variable {l : Lexer} {kinds : List Token.Kind} {indent : Int} {outer : List Int}

theorem Holds.saveCandidate_eq (h : l.Holds kinds indent outer) :
    l.saveCandidate = .ok { l with
      candidates :=
        if l.keyAllowed then
          [some ⟨l.count, l.cursor.mark, l.indent = (l.cursor.mark.column : Int)⟩]
        else l.candidates } := by
  obtain ⟨k, hk, hloose⟩ := h.loose
  have hflow := h.inFlow
  unfold saveCandidate dropCandidate candidate
  split
  · rw [hk, List.headD_cons]
    cases k with
    | none => simp [setCandidate, hk, hflow]
    | some k =>
      have hrequired := hloose k rfl
      simp [setCandidate, hk, hrequired, Lexer.inFlow, flowDepth]
  · rfl

theorem Holds.inFlow_saved (h : l.Holds kinds indent outer) (k : Option KeyCandidate) :
    ({ l with candidates := if l.keyAllowed then [k] else l.candidates } : Lexer).inFlow = false := by
  obtain ⟨k', hk, _⟩ := h.loose
  simp only [Lexer.inFlow, flowDepth]
  split <;> simp [hk]

theorem Holds.plainScalar_eq (h : l.Holds kinds indent outer) {content : List Char} {allowed : Bool}
    {c : Cursor} (hp : Scalar.plain false l.floor l.cursor = .ok (content, allowed, c)) :
    l.plainScalar = .ok (l.behind content .plain allowed c) := by
  unfold plainScalar
  rw [h.saveCandidate_eq]
  simp only [bind, Except.bind]
  rw [h.inFlow_saved]
  unfold floor at hp ⊢
  simp only [hp]
  rfl

theorem Holds.quotedScalar_eq (h : l.Holds kinds indent outer) {single : Bool} {content : List Char}
    {c : Cursor} (hq : Scalar.quoted single l.cursor = .ok (content, c)) :
    l.quotedScalar single
      = .ok (l.behind content (if single then .singleQuoted else .doubleQuoted) false c) := by
  unfold quotedScalar
  rw [h.saveCandidate_eq]
  simp only [bind, Except.bind, hq]
  rfl

theorem At.read_name {name more : List Char} {e : Char}
    (h : l.At kinds indent outer true 0 (name ++ ':' :: e :: more)) (hn : Scalar.IsName name)
    (he : endsWord e = true) : l.read = .ok (l.behindName name) := by
  obtain ⟨ch, tail, hname⟩ := List.exists_cons_of_ne_nil hn.ne_nil
  have hletter : Scalar.IsLetter ch := hn.letters ch (by simp [hname])
  have hhead : l.cursor.head = ch := by
    rw [Cursor.head, h.rest, hname]
    rfl
  have hboundary : ∀ sign, ¬ Scalar.IsLetter sign → l.cursor.atDocument sign = false := by
    intro sign hsign
    have hpeek : l.cursor.peek 0 = ch := by
      rw [Cursor.peek, h.rest, hname]
      rfl
    simp [Cursor.atDocument, hpeek, hletter.ne_of hsign]
  have hdash := hboundary '-' (by decide)
  have hpoint := hboundary '.' (by decide)
  have hplain : l.readToken = l.plainScalar := by
    apply readToken_plain h.inFlow
    · have hne : ch ≠ ' ' := hletter.ne_of (by decide)
      rw [hhead, hletter.visible.endsWord_eq, decide_eq_false hne]
    · intro hsign
      rw [hhead] at hsign
      have hnone : signs.all (fun d => decide (¬ Scalar.IsLetter d)) = true := by decide
      exact of_decide_eq_true (List.all_eq_true.mp hnone ch hsign) hletter
    · rintro (hmark | hmark | hmark) <;> exact absurd (hhead.symm.trans hmark) (hletter.ne_of (by decide))
  have hread : l.plainScalar = .ok (l.behindName name) := h.plainScalar_eq (Scalar.plain_name hn h.fault
    (by simp [Cursor.atBoundary, hdash, hpoint]) he h.rest)
  have hafter : (l.behindName name).afterToken = .ok (l.behindName name) := by
    apply afterToken_eq
    rw [show (l.behindName name).cursor.rest = ':' :: e :: more from
      Cursor.rest_past h.rest]
    exact noComment_of_head _ rfl (by decide)
  unfold read
  rw [hhead, if_neg (hletter.ne_of (by decide)), hdash, hpoint, hplain, hread]
  simp [bind, Except.bind, hletter.ne_of (show ¬ Scalar.IsLetter '%' by decide), hafter]

/-- A name that was just read may be a key, if it is short. -/
theorem At.candidate_name {name more : List Char} (h : l.At kinds indent outer true 0 (name ++ more))
    (hlength : name.length ≤ 1024) :
    ∃ k, (l.behindName name).candidates = [some k] ∧
      (l.behindName name).isStale k = false ∧
      k.number = l.count ∧ k.mark.column = 0 := by
  have hnear : ¬ l.cursor.mark.index + 1024 < l.cursor.mark.index + name.length := by omega
  refine ⟨⟨l.count, l.cursor.mark, l.indent = (l.cursor.mark.column : Int)⟩, ?_, ?_, rfl, h.column⟩
  · rw [behindName, behind, h.allowed, if_pos rfl]
  · simp [isStale, behindName, behind, Cursor.past, hnear]

/-- Behind a name the reader stands at the next token already. -/
theorem At.goes_behind_name {opening : List Token.Kind} {name more : List Char}
    (h : l.At kinds indent outer true 0 (name ++ ':' :: more)) (hlevel : Level indent outer opening)
    (hlength : name.length ≤ 1024) :
    (l.behindName name).Goes (l.behindName name) := by
  obtain ⟨k, hk, hlive, _, _⟩ := h.candidate_name hlength
  have hrest : (l.behindName name).cursor.rest = ':' :: more :=
    Cursor.rest_past h.rest
  refine goes_self h.going ?_ h.fault ?_ (unroll_of_le ?_ _)
  · intro k' hk' _
    rw [hk, List.mem_singleton, Option.some.injEq] at hk'
    rw [hk', hlive]
  · rw [hrest]
    exact ⟨rfl, rfl, by simp, by simp⟩
  · show l.indent ≤ _
    rw [h.indent]
    cases hlevel <;> omega

/-- The colon behind a name makes the name a key. -/
theorem At.read_colon {opening : List Token.Kind} {name more : List Char} {e : Char}
    (h : l.At kinds indent outer true 0 (name ++ ':' :: e :: more)) (hlevel : Level indent outer opening)
    (hne : name ≠ []) (hlength : name.length ≤ 1024) (he : endsWord e = true) (hc : NoComment (e :: more)) :
    ∃ d, (l.behindName name).read = .ok d ∧
      d.At (kinds ++ (opening ++ [.key, .scalar name .plain, .value])) 0 [-1] false (name.length + 1)
        (e :: more) := by
  obtain ⟨k, hk, hlive, hnumber, hcolumn⟩ := h.candidate_name hlength
  have hpos := List.length_pos_iff.mpr hne
  have hrest : (l.behindName name).cursor.rest = ':' :: e :: more := Cursor.rest_past h.rest
  obtain ⟨d, hcolon, hcursor, hallowed, hfinished, hcandidates, hindent, houter, hcount, htokens⟩ :=
    colon_eq (b := l.behindName name) h.indent h.outer hlevel rfl (by rw [hnumber]; rfl) hk hlive hcolumn
  have hafter : d.cursor.rest = e :: more := by
    rw [hcursor, Cursor.skip_one hrest]
    exact @Cursor.rest_past (l.behindName name).cursor [':'] _ hrest
  have hopening : opening.reverse = opening := by cases hlevel <;> rfl
  refine ⟨d, ?_, ⟨?_, hfinished.trans h.going, ?_, ?_, hindent, houter, ⟨none, hcandidates, by simp⟩⟩,
    hallowed, ?_, hafter⟩
  · have hhead : (l.behindName name).cursor.head = ':' := Cursor.head_eq hrest
    have hpeek : (l.behindName name).cursor.peek 1 = e := by
      rw [Cursor.peek, hrest]
      rfl
    have hcol : 0 < (l.behindName name).cursor.mark.column := by
      show 0 < l.cursor.mark.column + name.length
      omega
    apply read_in_line (by rw [hhead]; decide) hcol
    · rw [readToken_colon hhead (by rw [hpeek, he]), hcolon]
    · rw [hafter]
      exact hc
  · rw [hcursor]
    exact h.fault
  · rw [htokens, h.tokens]
    simp [hopening]
  · rw [hcount, show (l.behindName name).count = l.count + 1 from rfl, h.count]
    simp
    omega
  · rw [hcursor, Cursor.skip_one hrest]
    show l.cursor.mark.column + name.length + 1 = _
    rw [h.column]
    omega

/-- A name and its colon are a key of the mapping. -/
theorem Goes.yields_of_key {m : Lexer} {opening kinds' : List Token.Kind} {name more : List Char} {e : Char}
    (hgo : l.Goes m) (h : m.At kinds indent outer true 0 (name ++ ':' :: e :: more))
    (hlevel : Level indent outer opening) (hn : Scalar.IsName name) (hlength : name.length ≤ 1024)
    (he : endsWord e = true) (hc : NoComment (e :: more))
    (hnext : ∀ (d : Lexer) column, 0 < column →
      d.At (kinds ++ (opening ++ [.key, .scalar name .plain, .value])) 0 [-1] false column (e :: more) →
      d.Yields kinds') : l.Yields kinds' := by
  have hpos := List.length_pos_iff.mpr hn.ne_nil
  have hrest : (m.behindName name).cursor.rest = ':' :: e :: more :=
    Cursor.rest_past h.rest
  obtain ⟨d, hread, hd⟩ := h.read_colon hlevel hn.ne_nil hlength he hc
  apply hgo.yields h.fault (h.read_name hn he)
  · rw [hrest, h.rest, List.length_append]
    omega
  apply (h.goes_behind_name hlevel hlength).yields h.fault hread
  · rw [hd.rest, hrest]
    simp
  · exact hnext d (name.length + 1) (by omega) hd

end

end Lexer

end DartReach.Yaml
