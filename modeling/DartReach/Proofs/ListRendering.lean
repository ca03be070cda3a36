import DartReach.CommandLine.Flag
import DartReach.Proofs.Utf8Codec

/-!
# Lists that are shown and read back

A list is shown as a record in brackets. A field is quoted if it would be taken apart otherwise, and the
reader goes through it byte by byte: up to the next comma, or between its quotes. So it comes back as it
was, but for line ends, which the reader makes plain, and for a single empty field, which is shown as
nothing.
-/

namespace DartReach

set_option autoImplicit false

namespace Bytes

theorem unixLines_cons {b : UInt8} {s : Bytes} (h : b ≠ 0x0D ∨ s.head? ≠ some 0x0A) :
    unixLines (b :: s) = b :: unixLines s := by
  rw [unixLines.eq_def]
  split
  · rename_i heq
    cases heq
  · rename_i heq
    cases heq
    rfl
  · rename_i heq
    cases heq
    rcases h with h | h
    · exact absurd rfl h
    · exact absurd rfl h
  · rename_i heq
    cases heq
    rfl

theorem unixLines_append {s rest : Bytes} (h : ∀ b ∈ s, b ≠ 0x0D) :
    unixLines (s ++ rest) = s ++ unixLines rest := by
  induction s with
  | nil => rfl
  | cons b s ih =>
    rw [List.forall_mem_cons] at h
    rw [List.cons_append, unixLines_cons (.inl h.1), ih h.2, List.cons_append]

theorem unixLines_of_not_mem {s : Bytes} (h : ∀ b ∈ s, b ≠ 0x0D) : unixLines s = s := by
  have happend := @unixLines_append s [] h
  rw [List.append_nil] at happend
  rw [happend]
  exact List.append_nil s

theorem unixLines_ne_nil {s : Bytes} (h : s ≠ []) : unixLines s ≠ [] := by
  rw [unixLines.eq_def]
  split
  · exact absurd rfl h
  · simp
  · simp
  · simp

end Bytes

namespace Csv

/-- A byte that does not have to be quoted, wherever it stands in a field. -/
def Plain (b : UInt8) : Prop := b ≠ comma ∧ b ≠ mark ∧ b ≠ 0x0D ∧ b ≠ Bytes.newline

theorem plain_of_not_quoted {field : Bytes} (h : needsQuotes field = false) : ∀ b ∈ field, Plain b := by
  intro b hb
  simp only [needsQuotes, Bool.or_eq_false_iff, List.any_eq_false, Bool.or_eq_true, decide_eq_true_eq] at h
  have hplain := h.1.2 b hb
  simp only [not_or] at hplain
  exact ⟨hplain.1.1.1, hplain.1.1.2, hplain.1.2, hplain.2⟩

theorem needsQuotes_of_mem {field : Bytes} {b : UInt8} (hb : b ∈ field) (h : b = 0x0D ∨ b = Bytes.newline) :
    needsQuotes field = true := by
  cases hquotes : needsQuotes field with
  | true => rfl
  | false =>
    obtain ⟨_, _, hreturn, hnewline⟩ := plain_of_not_quoted hquotes b hb
    rcases h with h | h
    · exact absurd h hreturn
    · exact absurd h hnewline

/-! ### Line ends -/

theorem lineEnd_of_return {s : Bytes} (h : 0x0D ∈ s) :
    ∃ b ∈ Bytes.unixLines s, b = 0x0D ∨ b = Bytes.newline := by
  induction s using Bytes.unixLines.induct with
  | case1 => cases h
  | case2 b =>
    rw [List.mem_singleton] at h
    exact ⟨b, List.mem_singleton_self b, .inl h.symm⟩
  | case3 rest ih => exact ⟨0x0A, List.mem_cons_self, .inr rfl⟩
  | case4 b rest hne hpair ih =>
    have hcons : Bytes.unixLines (b :: rest) = b :: Bytes.unixLines rest := by
      rw [Bytes.unixLines]
      · exact hne
      · exact hpair
    rw [hcons]
    rcases List.mem_cons.mp h with heq | h
    · exact ⟨b, List.mem_cons_self, .inl heq.symm⟩
    · obtain ⟨c, hc, hend⟩ := ih h
      exact ⟨c, List.mem_cons_of_mem b hc, hend⟩

/-- Plain line ends are quoted like others. -/
theorem needsQuotes_unixLines (field : Bytes) : needsQuotes (Bytes.unixLines field) = needsQuotes field := by
  by_cases h : 0x0D ∈ field
  · obtain ⟨b, hb, hend⟩ := lineEnd_of_return h
    rw [needsQuotes_of_mem hb hend, needsQuotes_of_mem h (.inl rfl)]
  · rw [Bytes.unixLines_of_not_mem]
    intro b hb heq
    exact h (heq ▸ hb)

theorem doubled_cons (b : UInt8) (s : Bytes) :
    doubled (b :: s) = (if b = mark then [mark, mark] else [b]) ++ doubled s := rfl

theorem unixLines_doubled_cons {b : UInt8} {s : Bytes} (h : b ≠ 0x0D ∨ s.head? ≠ some 0x0A) :
    Bytes.unixLines ((if b = mark then [mark, mark] else [b]) ++ s)
      = (if b = mark then [mark, mark] else [b]) ++ Bytes.unixLines s := by
  have hmark : mark ≠ 0x0D := by decide
  split
  · apply Bytes.unixLines_append
    simp [hmark]
  · exact Bytes.unixLines_cons h

theorem head?_doubled {field rest : Bytes} (h : (doubled field ++ mark :: rest).head? = some 0x0A) :
    ∃ more, field = 0x0A :: more := by
  cases field with
  | nil => cases h
  | cons b more =>
    rw [doubled_cons] at h
    split at h
    · cases h
    · cases h
      exact ⟨more, rfl⟩

/-- Inside quotes no line end is lost or made. -/
theorem unixLines_doubled (field rest : Bytes) :
    Bytes.unixLines (doubled field ++ mark :: rest)
      = doubled (Bytes.unixLines field) ++ mark :: Bytes.unixLines rest := by
  have hmark : Bytes.unixLines (mark :: rest) = mark :: Bytes.unixLines rest :=
    Bytes.unixLines_cons (.inl (by decide))
  induction field using Bytes.unixLines.induct with
  | case1 => exact hmark
  | case2 b =>
    have hstep := @unixLines_doubled_cons b (mark :: rest) (.inr (by simp [mark]))
    rw [hmark] at hstep
    rw [Bytes.unixLines, doubled_cons, show doubled [] = [] from rfl, List.append_nil, hstep]
  | case3 field ih =>
    have hends : (0x0D : UInt8) ≠ mark ∧ (0x0A : UInt8) ≠ mark := by decide
    rw [Bytes.unixLines, doubled_cons, doubled_cons, doubled_cons, if_neg hends.1, if_neg hends.2,
      List.append_assoc, List.append_assoc, List.append_assoc, ← ih]
    rfl
  | case4 b field hne hpair ih =>
    have hcons : Bytes.unixLines (b :: field) = b :: Bytes.unixLines field := by
      rw [Bytes.unixLines]
      · exact hne
      · exact hpair
    have hstep := @unixLines_doubled_cons b (doubled field ++ mark :: rest) (by
      by_cases hb : b = 0x0D
      · right
        intro hhead
        obtain ⟨more, rfl⟩ := head?_doubled hhead
        exact hpair more hb rfl
      · exact .inl hb)
    rw [ih] at hstep
    rw [hcons, doubled_cons, doubled_cons, List.append_assoc, hstep, List.append_assoc]

theorem unixLines_written (field rest : Bytes) :
    Bytes.unixLines (written field ++ rest) = written (Bytes.unixLines field) ++ Bytes.unixLines rest := by
  unfold written
  rw [needsQuotes_unixLines]
  cases hquotes : needsQuotes field with
  | true =>
    rw [if_pos rfl, if_pos rfl, List.cons_append, List.append_assoc, List.singleton_append,
      Bytes.unixLines_cons (.inl (by decide)), unixLines_doubled, List.cons_append, List.append_assoc,
      List.singleton_append]
  | false =>
    have hplain : ∀ b ∈ field, b ≠ 0x0D := fun b hb => (plain_of_not_quoted hquotes b hb).2.2.1
    rw [if_neg (by decide), if_neg (by decide), Bytes.unixLines_append hplain,
      Bytes.unixLines_of_not_mem hplain]

theorem render_cons {field : Bytes} {rest : List Bytes} (h : rest ≠ []) :
    render (field :: rest) = written field ++ comma :: render rest := by
  cases rest with
  | nil => exact absurd rfl h
  | cons next rest => rfl

theorem unixLines_render (fields : List Bytes) :
    Bytes.unixLines (render fields) = render (fields.map Bytes.unixLines) := by
  induction fields with
  | nil => rfl
  | cons field rest ih =>
    cases rest with
    | nil =>
      have hlast := unixLines_written field []
      rw [List.append_nil, show Bytes.unixLines [] = [] from rfl, List.append_nil] at hlast
      exact hlast
    | cons next rest =>
      rw [@render_cons field (next :: rest) (by simp), List.map_cons,
        @render_cons (Bytes.unixLines field) ((next :: rest).map Bytes.unixLines) (by simp),
        unixLines_written, Bytes.unixLines_cons (.inl (by decide)), ih]

/-! ### The reader -/

/-- Reading on after a whole field. -/
structure Behind (r : Reading) (fields : List Bytes) (field : Bytes) : Prop where
  fields : r.fields = fields
  current : r.current = field.reverse
  mode : r.mode ≠ .quoted

variable {first : Nat} {r : Reading} {field rest : Bytes}

/-- A field without quotes ends where something else than its bytes comes. -/
theorem scan_plain (hmode : r.mode = .start ∨ r.mode = .plain) (hplain : ∀ b ∈ field, Plain b) :
    ∃ r', r'.fields = r.fields ∧ r'.current = field.reverse ++ r.current ∧ r'.mode ≠ .quoted ∧
      scan first r (field ++ rest) = scan first r' rest := by
  induction field generalizing r with
  | nil =>
    refine ⟨r, rfl, rfl, ?_, rfl⟩
    rcases hmode with hmode | hmode
    · simp [hmode]
    · simp [hmode]
  | cons b field ih =>
    rw [List.forall_mem_cons] at hplain
    obtain ⟨⟨hcomma, hmark, _, hnewline⟩, hplain⟩ := hplain
    have hstep : scan first r (b :: field ++ rest) =
        scan first (r.take b .plain).advance (field ++ rest) := by
      rw [List.cons_append, scan]
      rcases hmode with hmode | hmode
      · simp only [hmode, if_neg hcomma, if_neg hmark, if_neg hnewline]
      · simp only [hmode, if_neg hcomma, if_neg hmark, if_neg hnewline]
    obtain ⟨r', hfields, hcurrent, hend, hscan⟩ := @ih (r.take b .plain).advance (.inr rfl) hplain
    refine ⟨r', hfields, ?_, hend, hstep.trans hscan⟩
    rw [hcurrent, List.reverse_cons, List.append_assoc]
    rfl

/-- Inside quotes the reader comes to the closing quote with every byte of the field. -/
theorem scan_doubled (hmode : r.mode = .quoted) :
    ∃ r', r'.fields = r.fields ∧ r'.current = field.reverse ++ r.current ∧ r'.mode = .closing ∧
      scan first r (doubled field ++ mark :: rest) = scan first r' rest := by
  induction field generalizing r with
  | nil =>
    refine ⟨{ r.advance with mode := .closing }, rfl, rfl, rfl, ?_⟩
    rw [show doubled [] = [] from rfl, List.nil_append, scan]
    simp only [hmode, if_pos]
  | cons b field ih =>
    -- A quote is met twice: the first one seems to close the field, the second one takes that back.
    have hstep : ∃ next, next.fields = r.fields ∧ next.current = b :: r.current ∧ next.mode = .quoted ∧
        scan first r (doubled (b :: field) ++ mark :: rest) =
          scan first next (doubled field ++ mark :: rest) := by
      rw [doubled_cons]
      by_cases hb : b = mark
      · subst hb
        refine ⟨({ r.advance with mode := .closing }.take mark .quoted).advance, rfl, rfl, rfl, ?_⟩
        rw [if_pos rfl, List.append_assoc, List.cons_append, List.singleton_append, scan]
        simp only [hmode, if_pos]
        rw [scan]
        simp only [if_pos]
      · rw [if_neg hb, List.append_assoc, List.singleton_append, scan]
        simp only [hmode, if_neg hb]
        split
        · exact ⟨(r.take b .quoted).nextLine, rfl, rfl, rfl, rfl⟩
        · exact ⟨(r.take b .quoted).advance, rfl, rfl, rfl, rfl⟩
    obtain ⟨next, hfields, hcurrent, hquoted, hscan⟩ := hstep
    obtain ⟨r', hfields', hcurrent', hend, hscan'⟩ := @ih next hquoted
    refine ⟨r', hfields'.trans hfields, ?_, hend, hscan.trans hscan'⟩
    rw [hcurrent', hcurrent, List.reverse_cons, List.append_assoc]
    rfl

theorem scan_written (hmode : r.mode = .start) (hcurrent : r.current = []) :
    ∃ r', Behind r' r.fields field ∧ scan first r (written field ++ rest) = scan first r' rest := by
  unfold written
  cases hquotes : needsQuotes field with
  | true =>
    have hopen : scan first r (mark :: (doubled field ++ mark :: rest)) =
        scan first { r.advance with mode := .quoted } (doubled field ++ mark :: rest) := by
      rw [scan]
      simp only [hmode, if_pos]
    obtain ⟨r', hfields, hread, hend, hscan⟩ :=
      @scan_doubled first { r.advance with mode := .quoted } field rest rfl
    refine ⟨r', ⟨hfields, ?_, by simp [hend]⟩, ?_⟩
    · rw [hread, show ({ r.advance with mode := .quoted } : Reading).current = r.current from rfl, hcurrent,
        List.append_nil]
    · rw [if_pos rfl, List.cons_append, List.append_assoc, List.singleton_append, hopen, hscan]
  | false =>
    obtain ⟨r', hfields, hread, hend, hscan⟩ :=
      @scan_plain first r field rest (.inl hmode) (plain_of_not_quoted hquotes)
    refine ⟨r', ⟨hfields, ?_, hend⟩, ?_⟩
    · rw [hread, hcurrent, List.append_nil]
    · rw [if_neg (by decide), hscan]

theorem Behind.scan_end {fields : List Bytes} (h : Behind r fields field) :
    scan first r [] = .ok (fields.reverse ++ [field]) := by
  rw [scan, if_neg h.mode, Reading.record, Reading.closeField, h.fields, h.current, List.reverse_reverse,
    List.reverse_cons]

theorem Behind.scan_comma {fields : List Bytes} (h : Behind r fields field) :
    ∃ r', r'.mode = .start ∧ r'.current = [] ∧ r'.fields = field :: fields ∧
      scan first r (comma :: rest) = scan first r' rest := by
  have hcomma : comma ≠ mark := by decide
  refine ⟨r.closeField.advance, rfl, rfl, ?_, ?_⟩
  · rw [← h.fields, ← List.reverse_reverse field, ← h.current]
    rfl
  · rw [scan]
    cases hmode : r.mode with
    | quoted => exact absurd hmode h.mode
    | start => simp only [if_neg hcomma, if_pos]
    | plain => simp only [if_neg hcomma, if_pos]
    | closing => simp only [if_neg hcomma, if_pos]

/-- The reader takes a record apart into its fields. -/
theorem scan_render {fields : List Bytes} (hne : fields ≠ []) (hmode : r.mode = .start)
    (hcurrent : r.current = []) : scan first r (render fields) = .ok (r.fields.reverse ++ fields) := by
  induction fields generalizing r with
  | nil => exact absurd rfl hne
  | cons field rest ih =>
    cases rest with
    | nil =>
      obtain ⟨r', hbehind, hscan⟩ := @scan_written first r field [] hmode hcurrent
      rw [List.append_nil] at hscan
      exact hscan.trans hbehind.scan_end
    | cons next rest =>
      obtain ⟨r', hbehind, hscan⟩ :=
        @scan_written first r field (comma :: render (next :: rest)) hmode hcurrent
      obtain ⟨r'', hstart, hempty, hfields, hcomma⟩ :=
        @Behind.scan_comma first r' field (render (next :: rest)) _ hbehind
      rw [render_cons (by simp), hscan, hcomma, ih (by simp) hstart hempty, hfields]
      simp

/-! ### Records -/

theorem written_eq_nil_iff : written field = [] ↔ field = [] := by
  constructor
  · intro h
    unfold written at h
    split at h
    · cases h
    · exact h
  · rintro rfl
    rw [written, needsQuotes, Utf8.decode_nil]
    rfl

theorem render_eq_nil {fields : List Bytes} (h : render fields = []) : fields = [] ∨ fields = [[]] := by
  cases fields with
  | nil => exact .inl rfl
  | cons field rest =>
    cases rest with
    | nil =>
      right
      rw [written_eq_nil_iff.mp h]
    | cons next rest =>
      rw [render_cons (by simp)] at h
      simp at h

theorem head?_written (field : Bytes) : (written field).head? ≠ some Bytes.newline := by
  unfold written
  cases hquotes : needsQuotes field with
  | true => simp [mark, Bytes.newline]
  | false =>
    rw [if_neg (by decide)]
    intro hhead
    exact (plain_of_not_quoted hquotes _ (List.mem_of_head? hhead)).2.2.2 rfl

theorem head?_render (fields : List Bytes) : (render fields).head? ≠ some Bytes.newline := by
  cases fields with
  | nil => simp [render]
  | cons field rest =>
    cases rest with
    | nil => exact head?_written field
    | cons next rest =>
      rw [render_cons (by simp), List.head?_append]
      cases hhead : (written field).head? with
      | none => simp [comma, Bytes.newline]
      | some b =>
        rw [Option.some_or, ← hhead]
        exact head?_written field

theorem getLast?_written (field : Bytes) : (written field).getLast? ≠ some 0x0D := by
  unfold written
  cases hquotes : needsQuotes field with
  | true =>
    rw [if_pos rfl, ← List.cons_append, List.getLast?_concat]
    decide
  | false =>
    rw [if_neg (by decide)]
    intro hlast
    exact (plain_of_not_quoted hquotes _ (List.mem_of_getLast? hlast)).2.2.1 rfl

theorem getLast?_render (fields : List Bytes) : (render fields).getLast? ≠ some 0x0D := by
  induction fields with
  | nil => simp [render]
  | cons field rest ih =>
    cases rest with
    | nil => exact getLast?_written field
    | cons next rest =>
      rw [render_cons (by simp), List.getLast?_append, List.getLast?_cons, Option.some_or]
      cases hlast : (render (next :: rest)).getLast? with
      | none => simp [comma]
      | some b =>
        rw [hlast] at ih
        exact ih

/-- A record comes back with plain line ends; a single empty field leaves no trace. -/
theorem record_render (fields : List Bytes) :
    record (render fields) = .ok (if fields = [[]] then [] else fields.map Bytes.unixLines) := by
  by_cases hempty : render fields = []
  · rw [hempty]
    rcases render_eq_nil hempty with rfl | rfl
    · rfl
    · rfl
  have hfields : fields ≠ [] := by
    rintro rfl
    exact hempty rfl
  have hsingle : fields ≠ [[]] := by
    rintro rfl
    exact hempty (written_eq_nil_iff.mpr rfl)
  have hlines : plainLines (render fields) = render (fields.map Bytes.unixLines) := by
    rw [plainLines, unixLines_render]
    exact if_neg (getLast?_render _)
  have hsome : render (fields.map Bytes.unixLines) ≠ [] := by
    rw [← unixLines_render]
    exact Bytes.unixLines_ne_nil hempty
  have hbody : (render (fields.map Bytes.unixLines)).dropWhile (· = Bytes.newline)
      = render (fields.map Bytes.unixLines) := by
    have hhead := head?_render (fields.map Bytes.unixLines)
    cases hrender : render (fields.map Bytes.unixLines) with
    | nil => rfl
    | cons b rest =>
      rw [hrender, List.head?_cons] at hhead
      apply List.dropWhile_cons_of_neg
      simpa using hhead
  rw [record, if_neg (by simpa using hempty), if_neg hsingle]
  dsimp only
  rw [hlines, hbody, if_neg (by simpa using hsome)]
  exact scan_render (by simpa using hfields) rfl rfl

theorem unbracketed_bracketed (s : Bytes) : unbracketed (text "[" ++ s ++ text "]") = s := by
  have hafter : Bytes.after? (text "[") (text "[" ++ s ++ text "]") = some (s ++ text "]") := rfl
  have hends : (s ++ text "]").endsWith (text "]") = true := by
    rw [Bytes.endsWith, List.isSuffixOf_iff_suffix]
    exact List.suffix_append s _
  rw [unbracketed, hafter, Option.getD_some, if_pos hends]
  exact List.dropLast_concat

end Csv

end DartReach
