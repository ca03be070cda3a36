import DartReach.Proofs.Utf8Codec
import DartReach.Proofs.YamlTokens

/-!
# The characters of a written document

A document of printable text is written in lines of visible characters. Their bytes are decoded into the same
characters, one for each byte, so the reader starts with exactly what was written.
-/

namespace DartReach.Yaml

set_option autoImplicit false

/-! ### Characters -/

/-- What the lines of a document are made of. -/
def IsLineChar (c : Char) : Prop := IsVisible c ∨ c = '\n'

namespace IsLineChar

variable {c : Char}

theorem lt (h : IsLineChar c) : c.toNat < 0x80 := by
  rcases h with h | rfl
  · obtain ⟨_, hhigh⟩ := h
    omega
  · decide

theorem isAllowed_eq (h : IsLineChar c) : isAllowed c = true := by
  rcases h with ⟨hlow, hhigh⟩ | rfl
  · simp [isAllowed, hlow, hhigh]
  · decide

end IsLineChar

theorem stepOf_char {c : Char} (h : IsLineChar c) (width : Nat) : stepOf c.toNat width = .ok (c, width) := by
  have hvalid : c.toNat.isValidChar := c.valid
  have hsame : (⟨UInt32.ofNat c.toNat, by
      have hlt : c.toNat < 2 ^ 32 := by rcases hvalid with h | h <;> omega
      simpa [UInt32.isValidChar, UInt32.toNat_ofNat_of_lt' hlt] using hvalid⟩ : Char) = c := by
    apply Char.ext
    exact UInt32.ofNat_toNat
  rw [stepOf, dif_pos hvalid]
  simp only [hsame, h.isAllowed_eq, if_true]

theorem utf8Step_char {c : Char} (h : IsLineChar c) (rest : Bytes) :
    utf8Step (UInt8.ofNat c.toNat) rest = .ok (c, 1) := by
  have hlt : c.toNat < 0x80 := h.lt
  have hbyte : (UInt8.ofNat c.toNat).toNat = c.toNat := Utf8.toNat_byte (Nat.lt_trans hlt (by decide))
  have hwidth : sequenceWidth (UInt8.ofNat c.toNat) = 1 := by
    rw [sequenceWidth, if_pos]
    rw [UInt8.lt_iff_toNat_lt, hbyte]
    exact hlt
  have htail : rest.take (1 - 1) = [] := rfl
  have hlead : leadingBits (UInt8.ofNat c.toNat) 1 = c.toNat := hbyte
  have hleast : ¬ c.toNat < leastOfWidth 1 := Nat.not_lt_zero _
  unfold utf8Step
  simp only [hwidth, htail, List.foldl_nil, hlead, stepOf_char h, if_neg hleast]
  rfl

theorem length_le_encode (cs : List Char) : cs.length ≤ (encode cs).length := by
  induction cs with
  | nil => simp
  | cons c cs ih =>
    have hc : 0 < (String.utf8EncodeChar c).length := by
      rw [String.length_utf8EncodeChar]
      exact Char.utf8Size_pos c
    rw [Utf8.encode_cons, List.length_append, List.length_cons]
    omega

theorem decodeFrom_encode {cs : List Char} (h : ∀ c ∈ cs, IsLineChar c) {n : Nat} (hn : cs.length ≤ n)
    (d : Decoding) : decodeFrom .utf8 n d (encode cs) = ⟨d.chars.reverse ++ cs, none⟩ := by
  induction cs generalizing n d with
  | nil => cases n <;> simp [decodeFrom, encode]
  | cons c cs ih =>
    cases n with
    | zero => simp at hn
    | succ n =>
      have hc := h c List.mem_cons_self
      have hrest := ih (fun e he => h e (List.mem_cons_of_mem _ he)) (n := n) (by simpa using hn)
      rw [Utf8.encode_cons, Utf8.encodeChar_of_ascii hc.lt, List.singleton_append, decodeFrom]
      simp only [Encoding.step, utf8Step_char hc, Nat.sub_self, List.drop_zero, hrest, List.reverse_cons,
        List.append_assoc, List.singleton_append]
      unfold Decoding.pass
      split <;> rfl

theorem encodingOf_ascii {b : UInt8} (h : b.toNat < 0x80) (rest : Bytes) :
    encodingOf (b :: rest) = (.utf8, 0) := by
  unfold encodingOf
  split
  case h_4 => rfl
  all_goals
    rename_i heq
    cases heq
    simp at h

theorem Source.ofBytes_encode {cs : List Char} (hne : cs ≠ []) (h : ∀ c ∈ cs, IsLineChar c) :
    Source.ofBytes (encode cs) = ⟨cs, none⟩ := by
  cases cs with
  | nil => exact absurd rfl hne
  | cons c cs =>
    have hc := (h c List.mem_cons_self).lt
    have hbyte : (UInt8.ofNat c.toNat).toNat = c.toNat := Utf8.toNat_byte (by omega)
    have hencode : encode (c :: cs) = UInt8.ofNat c.toNat :: encode cs := by
      rw [Utf8.encode_cons, Utf8.encodeChar_of_ascii hc, List.singleton_append]
    have hlength : (c :: cs).length ≤ (encode (c :: cs)).length := by
      exact length_le_encode _
    have hmark : encodingOf (encode (c :: cs)) = (.utf8, 0) := by
      rw [hencode]
      exact encodingOf_ascii (by omega) _
    have hfull : (encode (c :: cs)).isEmpty = false := by
      rw [hencode]
      rfl
    rw [Source.ofBytes, hfull]
    simp only [Bool.false_eq_true, if_false, hmark, List.drop_zero, decodeFrom_encode h hlength,
      List.reverse_nil, List.nil_append]

/-! ### Printable text -/

/-- Bytes that are one visible character each. -/
def Printable (s : Bytes) : Prop := ∀ b ∈ s, 0x20 ≤ b ∧ b ≤ 0x7E

instance : DecidablePred Printable := fun s =>
  decidable_of_iff (s.all (fun b => decide (0x20 ≤ b ∧ b ≤ 0x7E)) = true) (by simp [Printable])

theorem Printable.exists_visible {s : Bytes} (h : Printable s) : ∃ cs, Writer.Visible cs ∧ s = encode cs := by
  induction s with
  | nil => exact ⟨[], by simp [Writer.Visible], rfl⟩
  | cons b s ih =>
    obtain ⟨cs, hvisible, rfl⟩ := ih (fun x hx => h x (List.mem_cons_of_mem _ hx))
    obtain ⟨hlow, hhigh⟩ := h b List.mem_cons_self
    rw [UInt8.le_iff_toNat_le] at hlow hhigh
    have hlow : 0x20 ≤ b.toNat := hlow
    have hhigh : b.toNat ≤ 0x7E := hhigh
    have hc : (Char.ofNat b.toNat).toNat = b.toNat := by
      rw [Char.ofNat, dif_pos (Or.inl (by omega))]
      rfl
    refine ⟨Char.ofNat b.toNat :: cs, ?_, ?_⟩
    · intro c hmem
      rcases List.mem_cons.mp hmem with rfl | hmem
      · exact ⟨by omega, by omega⟩
      · exact hvisible c hmem
    · rw [Utf8.encode_cons, Utf8.encodeChar_of_ascii (by omega), Utf8.byte_eq hc, List.singleton_append]

theorem Printable.visible {s : Bytes} (h : Printable s) : Writer.Visible (Utf8.decode s) := by
  obtain ⟨cs, hvisible, rfl⟩ := h.exists_visible
  rw [Utf8.decode_encode]
  exact hvisible

theorem Printable.valid {s : Bytes} (h : Printable s) : Utf8.valid s = true := by
  obtain ⟨cs, _, rfl⟩ := h.exists_visible
  exact Utf8.valid_encode cs

namespace Writer

def PrintableEntry : Entry → Prop
  | .string s => Printable s
  | .strings items => ∀ s ∈ items, Printable s
  | .flag _ => True

/-- What can be written and read again: a short name that is a text, and printable text under it. -/
structure Clear (e : String × Entry) : Prop where
  name : Scalar.IsName e.1.toList
  short : e.1.toList.length ≤ 1024
  isText : Plain.meaning true e.1.toList = .string
  printable : PrintableEntry e.2

theorem Clear.legible {e : String × Entry} (h : Clear e) : Legible e where
  name := h.name
  short := h.short
  visible := by
    have hprintable := h.printable
    cases he : e.2 with
    | string s =>
      rw [he] at hprintable
      exact Printable.visible hprintable
    | strings items =>
      rw [he] at hprintable
      exact fun s hs => Printable.visible (hprintable s hs)
    | flag on => trivial

theorem scalar_printable {s : Bytes} (h : Printable s) (indent : Nat) :
    scalar indent s = encode (written (Utf8.decode s) ++ ['\n']) := by
  rw [scalar, if_pos h.valid]
  exact congrArg encode (textScalar_visible h.visible indent)

theorem item_printable {s : Bytes} (h : Printable s) : item s = encode (itemLine (Utf8.decode s)) := by
  have hdash : text "- " = encode ['-', ' '] := rfl
  rw [item, scalar_printable h, hdash, ← Utf8.encode_append, ← Utf8.encode_append, itemLine]
  simp

theorem items_printable {items : List Bytes} (h : ∀ s ∈ items, Printable s) :
    items.flatMap item = encode ((items.map Utf8.decode).flatMap itemLine) := by
  induction items with
  | nil => rfl
  | cons s items ih =>
    rw [List.flatMap_cons, item_printable (h s List.mem_cons_self),
      ih (fun x hx => h x (List.mem_cons_of_mem _ hx)), ← Utf8.encode_append]
    rfl

theorem entry_printable (name : String) {e : Entry} (h : PrintableEntry e) :
    entry name e = encode (entryLines name.toList e) := by
  cases e with
  | string s =>
    have hcolon : text ": " = encode [':', ' '] := rfl
    rw [entry, scalar_printable h, hcolon, text, ← Utf8.encode_append, ← Utf8.encode_append, entryLines]
    simp
  | strings items =>
    cases items with
    | nil =>
      have hempty : text ": []\n" = encode [':', ' ', '[', ']', '\n'] := rfl
      rw [entry, hempty, text, ← Utf8.encode_append, entryLines]
    | cons s items =>
      have hcolon : text ":\n" = encode [':', '\n'] := rfl
      rw [entry, items_printable h, hcolon, text, ← Utf8.encode_append, ← Utf8.encode_append, entryLines]
      simp
  | flag on =>
    have hflag : text (if on then ": true\n" else ": false\n") =
        encode (':' :: ' ' :: (flagWord on ++ ['\n'])) := by
      cases on <;> rfl
    rw [entry, hflag, text, ← Utf8.encode_append, entryLines]

theorem document_eq_encode {entries : List (String × Entry)} (h : ∀ e ∈ entries, PrintableEntry e.2) :
    document entries = encode (lines entries) := by
  induction entries with
  | nil => rfl
  | cons e entries ih =>
    have hrest := ih (fun x hx => h x (List.mem_cons_of_mem _ hx))
    rw [document] at hrest
    rw [document, List.flatMap_cons, hrest, entry_printable e.1 (h e List.mem_cons_self),
      ← Utf8.encode_append]
    rfl

/-! ### The characters of lines -/

theorem visible_quotedText {cs : List Char} (h : Visible cs) (single : Bool) :
    Visible (quotedText single cs) := by
  have hsign : IsVisible (quoteSign single) := by cases single <;> decide
  have hquote : ∀ c, IsVisible c → Visible (quoteChar single c) := by
    intro c hc d hd
    unfold quoteChar at hd
    split at hd
    · split at hd
      · rename_i heq
        simp_all
      · simp_all
    · split at hd
      · rcases List.mem_cons.mp hd with rfl | hd
        · decide
        · simp_all
      · simp_all
  intro c hc
  simp only [quotedText, List.mem_cons, List.mem_append, List.mem_flatMap, List.not_mem_nil, or_false] at hc
  rcases hc with rfl | ⟨d, hd, hc⟩ | rfl
  · exact hsign
  · exact hquote d (h d hd) c hc
  · exact hsign

theorem visible_written {cs : List Char} (h : Visible cs) : Visible (written cs) := by
  unfold written
  split
  · exact h
  · exact visible_quotedText h true
  · exact visible_quotedText h false

theorem lineChar_of_visible {cs : List Char} (h : Visible cs) : ∀ c ∈ cs, IsLineChar c :=
  fun c hc => Or.inl (h c hc)

theorem lineChar_written {s : Bytes} (h : Printable s) : ∀ c ∈ written (Utf8.decode s), IsLineChar c :=
  lineChar_of_visible (visible_written h.visible)

theorem lineChar_itemLine {s : Bytes} (h : Printable s) : ∀ c ∈ itemLine (Utf8.decode s), IsLineChar c := by
  have hspaces : ∀ c ∈ List.replicate step ' ', IsLineChar c := by
    intro c hc
    rw [List.eq_of_mem_replicate hc]
    exact Or.inl (by decide)
  simp only [itemLine, List.forall_mem_append, List.forall_mem_cons, List.not_mem_nil, false_implies,
    implies_true, and_true]
  exact ⟨hspaces, Or.inl (by decide), Or.inl (by decide), lineChar_written h, Or.inr rfl⟩

theorem lineChar_entryLines {name : List Char} (hname : Scalar.IsName name) {e : Entry}
    (h : PrintableEntry e) :
    ∀ c ∈ entryLines name e, IsLineChar c := by
  have hletters : ∀ c ∈ name, IsLineChar c := fun c hc => Or.inl (hname.letters c hc).visible
  have hcolon : IsLineChar ':' := Or.inl (by decide)
  have hspace : IsLineChar ' ' := Or.inl (by decide)
  have hfeed : IsLineChar '\n' := Or.inr rfl
  unfold entryLines
  split
  · simp only [List.forall_mem_append, List.forall_mem_cons, List.not_mem_nil, false_implies, implies_true,
      and_true]
    exact ⟨hletters, hcolon, hspace, lineChar_written h, hfeed⟩
  · simp only [List.forall_mem_append, List.forall_mem_cons, List.not_mem_nil, false_implies, implies_true,
      and_true]
    exact ⟨hletters, hcolon, hspace, Or.inl (by decide), Or.inl (by decide), hfeed⟩
  · simp only [List.forall_mem_append, List.forall_mem_cons]
    refine ⟨hletters, hcolon, hfeed, ?_⟩
    intro c hc
    obtain ⟨cs, hcs, hc⟩ := List.mem_flatMap.mp hc
    obtain ⟨s, hs, rfl⟩ := List.mem_map.mp hcs
    exact lineChar_itemLine (h s hs) c hc
  · rename_i on
    have hflag : Visible (flagWord on) := (isName_flagWord on).plainWord.visible
    simp only [List.forall_mem_append, List.forall_mem_cons, List.not_mem_nil, false_implies, implies_true,
      and_true]
    exact ⟨hletters, hcolon, hspace, lineChar_of_visible hflag, hfeed⟩

theorem lines_ne_nil {entries : List (String × Entry)} (hne : entries ≠ [])
    (h : ∀ e ∈ entries, Clear e) : lines entries ≠ [] := by
  cases entries with
  | nil => exact absurd rfl hne
  | cons e entries =>
    have hname := (h e List.mem_cons_self).name.ne_nil
    rw [lines, List.flatMap_cons]
    unfold entryLines
    split <;> simp [hname]

end Writer

theorem Source.ofBytes_document {entries : List (String × Writer.Entry)} (hne : entries ≠ [])
    (h : ∀ e ∈ entries, Writer.Clear e) :
    Source.ofBytes (Writer.document entries) = ⟨Writer.lines entries, none⟩ := by
  rw [Writer.document_eq_encode fun e he => (h e he).printable]
  apply Source.ofBytes_encode (Writer.lines_ne_nil hne h)
  intro c hc
  obtain ⟨e, he, hc⟩ := List.mem_flatMap.mp hc
  exact Writer.lineChar_entryLines (h e he).name (h e he).printable c hc

end DartReach.Yaml
