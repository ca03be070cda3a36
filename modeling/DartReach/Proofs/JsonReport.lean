import DartReach.Proofs.ByteOrder
import DartReach.Proofs.Delivery
import DartReach.Proofs.JsonGrammar
import DartReach.Proofs.PathNormalForm

/-!
# The JSON report reads back

Every value that is rendered is read again as what it stands for, at any depth and before whatever may
follow a value. So the JSON text of a result is a document with the fields of its report, and if all strings
are text, the document tells everything about the report.
-/

namespace DartReach

set_option autoImplicit false

namespace JsonValue

open JsonText

/-! ### Strings -/

theorem symbol_escape (c : Char) (rest : List Char) : symbol (escape c ++ rest) = some (c, rest) := by
  unfold escape
  split
  · rfl
  · rfl
  · rfl
  · rfl
  · rfl
  · rename_i hquote hback hnewline hreturn htab
    simp only
    split_ifs with hb hf hu
    · rw [← Utf8.char_eq hb.symm]
      rfl
    · rw [← Utf8.char_eq hf.symm]
      rfl
    · apply unicode_hex
      rcases hu with hu | rfl | rfl | rfl | hu | hu
      · omega
      · decide
      · decide
      · decide
      · omega
      · omega
    · rw [List.singleton_append, symbol]
      · rw [if_neg (by tauto)]
      · simpa using hback

theorem escape_ne_quote (c : Char) (rest t : List Char) : escape c ++ rest ≠ '"' :: t := by
  unfold escape
  split
  · simp
  · simp
  · simp
  · simp
  · simp
  · rename_i hquote hback hnewline hreturn htab
    simp only
    split_ifs
    · simp
    · simp
    · simp
    · simpa using fun h => absurd h hquote

theorem body_escape (s rest : List Char) {bound : Nat} (h : (s.flatMap escape).length < bound) :
    body bound (s.flatMap escape ++ '"' :: rest) = some (s, rest) := by
  induction s generalizing bound with
  | nil =>
    cases bound with
    | zero => simp at h
    | succ bound => rfl
  | cons c s ih =>
    cases bound with
    | zero => simp at h
    | succ bound =>
      have hpos : 0 < (escape c).length := by
        rw [List.length_pos_iff]
        intro hnil
        have hsymbol := symbol_escape c []
        simp [hnil, symbol] at hsymbol
      rw [List.flatMap_cons, List.length_append] at h
      rw [List.flatMap_cons, List.append_assoc, body, symbol_escape]
      · simp [ih (show (s.flatMap escape).length < bound by omega)]
      · exact fun t => escape_ne_quote c _ t

theorem string_escape (s rest : List Char) :
    JsonText.string (s.flatMap escape ++ '"' :: rest) = some (s, rest) := by
  apply body_escape
  simp

theorem decode_quote_append (s rest : Bytes) :
    Utf8.decode (quote s ++ rest) =
      '"' :: ((Utf8.decode s).flatMap escape ++ '"' :: Utf8.decode rest) := by
  simp [quote, Utf8.decode_encode_append]

/-! ### Values -/

mutual

/-- The value that is read where a value was rendered. -/
def meaning : JsonValue → Json
  | .number n => .ofNat n
  | .string s => .string (Utf8.decode s)
  | .array items => .array (meanings items)
  | .object fields => .object (fieldMeanings fields)

def meanings : List JsonValue → List Json
  | [] => []
  | v :: vs => v.meaning :: meanings vs

def fieldMeanings : List (String × JsonValue) → List (List Char × Json)
  | [] => []
  | (k, v) :: fs => (k.toList, v.meaning) :: fieldMeanings fs

end

/-- Induction over a value: what all items or fields have, the array or object has. -/
theorem parts_induction {motive : JsonValue → Prop} (number : ∀ n, motive (.number n))
    (string : ∀ s, motive (.string s))
    (array : ∀ vs, (∀ v ∈ vs, motive v) → motive (.array vs))
    (object : ∀ fs, (∀ f ∈ fs, motive f.2) → motive (.object fs)) (v : JsonValue) : motive v := by
  refine @JsonValue.rec motive (fun vs => ∀ v ∈ vs, motive v) (fun fs => ∀ f ∈ fs, motive f.2)
    (fun f => motive f.2) number string array object ?_ ?_ ?_ ?_ ?_ v
  · simp
  · exact fun v vs hv hvs => List.forall_mem_cons.mpr ⟨hv, hvs⟩
  · simp
  · exact fun f fs hf hfs => List.forall_mem_cons.mpr ⟨hf, hfs⟩
  · exact fun k v hv => hv

theorem indent_eq (depth : Nat) : indent depth = encode ('\n' :: List.replicate depth '\t') := by
  have htabs : encode (List.replicate depth '\t') = List.replicate depth 0x09 := by
    induction depth with
    | zero => rfl
    | succ depth ih => 
      rw [List.replicate_succ, Utf8.encode_cons, ih]
      rfl
  rw [Utf8.encode_cons, htabs]
  rfl

theorem value_indent (depth bound : Nat) (rest : Bytes) :
    value bound (Utf8.decode (indent depth ++ rest)) = value bound (Utf8.decode rest) := by
  rw [indent_eq, Utf8.decode_encode_append]
  apply value_append
  simp [isBlank]

theorem skipBlanks_indent (depth : Nat) (rest : Bytes) :
    skipBlanks (Utf8.decode (indent depth ++ rest)) = skipBlanks (Utf8.decode rest) := by
  rw [indent_eq, Utf8.decode_encode_append]
  apply skipBlanks_append
  simp [isBlank]

theorem ends_indent (depth : Nat) (rest : Bytes) : Ends (Utf8.decode (indent depth ++ rest)) := by
  rw [indent_eq, Utf8.decode_encode_append]
  rintro c ⟨⟩
  decide

theorem ends_comma (rest : Bytes) : Ends (Utf8.decode (text "," ++ rest)) := by
  rw [text, Utf8.decode_encode_append]
  rintro c ⟨⟩
  decide

theorem skipBlanks_text {s : String} {c : Char} {cs : List Char} (hs : s.toList = c :: cs)
    (hc : isBlank c = false) (rest : Bytes) :
    skipBlanks (Utf8.decode (text s ++ rest)) = c :: (cs ++ Utf8.decode rest) := by
  rw [text, Utf8.decode_encode_append, hs]
  exact skipBlanks_cons hc _

/-- No value begins with a blank or closes an array. -/
theorem decode_render_head (v : JsonValue) (depth : Nat) (rest : Bytes) :
    ∃ c cs, Utf8.decode (v.render depth ++ rest) = c :: cs ∧ isBlank c = false ∧ c ≠ ']' := by
  cases v with
  | number n =>
    obtain ⟨d, ds, heq, hother⟩ := toDigits_sign n
    refine ⟨d, ds ++ Utf8.decode rest, ?_, by simp [isBlank, hother], hother _ rfl⟩
    rw [render, decimal, Utf8.decode_encode_append, heq, List.cons_append]
  | string s => exact ⟨'"', _, by rw [render, decode_quote_append], by decide, by decide⟩
  | array vs =>
    cases vs with
    | nil => exact ⟨'[', _, Utf8.decode_encode_append _ _, by decide, by decide⟩
    | cons v vs =>
      rw [render, List.append_assoc, List.append_assoc, List.append_assoc]
      exact ⟨'[', _, Utf8.decode_encode_append _ _, by decide, by decide⟩
  | object fs =>
    cases fs with
    | nil => exact ⟨'\x7b', _, Utf8.decode_encode_append _ _, by decide, by decide⟩
    | cons f fs =>
      rw [render, List.append_assoc, List.append_assoc, List.append_assoc]
      exact ⟨'\x7b', _, Utf8.decode_encode_append _ _, by decide, by decide⟩

theorem render_length_pos (v : JsonValue) (depth : Nat) : 0 < (v.render depth).length := by
  rw [List.length_pos_iff]
  intro hnil
  obtain ⟨c, cs, heq, _⟩ := decode_render_head v depth []
  simp [hnil] at heq

/-- The value is read where it was rendered, before anything that does not continue a number. -/
def ReadsBack (v : JsonValue) : Prop :=
  ∀ (depth bound : Nat) (rest : Bytes), 2 * (v.render depth).length ≤ bound →
    Ends (Utf8.decode rest) →
      value bound (Utf8.decode (v.render depth ++ rest)) = some (v.meaning, Utf8.decode rest)

theorem exists_bound {v : JsonValue} {depth bound : Nat}
    (h : 2 * (v.render depth).length ≤ bound) : ∃ b, bound = b + 1 := by
  have := render_length_pos v depth
  exact ⟨bound - 1, by omega⟩

theorem readsBack_number (n : Nat) : ReadsBack (.number n) := by
  intro depth bound rest hbound hends
  obtain ⟨bound, rfl⟩ := exists_bound hbound
  rw [render, decimal, Utf8.decode_encode_append, meaning]
  exact value_toDigits n bound hends

theorem readsBack_string (s : Bytes) : ReadsBack (.string s) := by
  intro depth bound rest hbound _
  obtain ⟨bound, rfl⟩ := exists_bound hbound
  rw [render, decode_quote_append, value, skipBlanks_cons (by decide), meaning]
  simp [string_escape]

@[simp] theorem length_indent (depth : Nat) : (indent depth).length = depth + 1 := by
  simp [indent]

theorem renderItems_cons_cons (depth : Nat) (v v' : JsonValue) (vs : List JsonValue) :
    renderItems depth (v :: v' :: vs) =
      indent depth ++ (v.render depth ++ (text "," ++ renderItems depth (v' :: vs))) := by
  simp [renderItems]

theorem items_renderItems {vs : List JsonValue} (hne : vs ≠ []) (h : ∀ v ∈ vs, ReadsBack v)
    (depth outer bound : Nat) (rest : Bytes)
    (hbound : 2 * (renderItems depth vs).length ≤ bound) :
    items bound (Utf8.decode (renderItems depth vs ++ (indent outer ++ (text "]" ++ rest)))) =
      some (meanings vs, Utf8.decode rest) := by
  induction vs generalizing bound with
  | nil => exact absurd rfl hne
  | cons v vs ih =>
    rw [List.forall_mem_cons] at h
    cases vs with
    | nil =>
      simp only [renderItems, List.length_append, length_indent] at hbound
      obtain ⟨bound, rfl⟩ : ∃ b, bound = b + 1 := ⟨bound - 1, by omega⟩
      have hv := h.1 depth bound (indent outer ++ (text "]" ++ rest)) (by omega) (ends_indent _ _)
      rw [renderItems, List.append_assoc, items, value_indent, hv]
      simp only [skipBlanks_indent, skipBlanks_text (show "]".toList = [']'] from rfl) rfl]
      rfl
    | cons v' vs =>
      rw [renderItems_cons_cons] at hbound ⊢
      simp only [List.length_append, length_indent] at hbound
      obtain ⟨bound, rfl⟩ : ∃ b, bound = b + 1 := ⟨bound - 1, by omega⟩
      have hv := fun tail => h.1 depth bound (text "," ++ tail) (by omega) (ends_comma _)
      have hvs := ih (by simp) h.2 bound (by omega)
      simp only [List.append_assoc]
      rw [items, value_indent, hv]
      simp only [skipBlanks_text (show ",".toList = [','] from rfl) rfl, List.nil_append, hvs]
      rfl

theorem skipBlanks_renderItems {vs : List JsonValue} (hne : vs ≠ []) (depth : Nat) (rest : Bytes)
    (t : List Char) : skipBlanks (Utf8.decode (renderItems depth vs ++ rest)) ≠ ']' :: t := by
  obtain ⟨v, tail, heq⟩ : ∃ v tail, renderItems depth vs = indent depth ++ (render depth v ++ tail) := by
    cases vs with
    | nil => exact absurd rfl hne
    | cons v vs =>
      cases vs with
      | nil => exact ⟨v, [], by simp [renderItems]⟩
      | cons v' vs => exact ⟨v, _, renderItems_cons_cons depth v v' vs⟩
  obtain ⟨c, cs, hhead, hblank, hbracket⟩ := decode_render_head v depth (tail ++ rest)
  rw [heq, List.append_assoc, List.append_assoc, skipBlanks_indent, hhead, skipBlanks_cons hblank]
  exact fun h => hbracket (List.cons.inj h).1

theorem readsBack_array {vs : List JsonValue} (h : ∀ v ∈ vs, ReadsBack v) :
    ReadsBack (.array vs) := by
  intro depth bound rest hbound _
  obtain ⟨bound, rfl⟩ := exists_bound hbound
  cases vs with
  | nil =>
    rw [render, value, skipBlanks_text (show "[]".toList = ['[', ']'] from rfl) rfl]
    rfl
  | cons v vs =>
    simp only [render, List.length_append, length_indent] at hbound
    have hitems := items_renderItems (by simp) h (depth + 1) depth bound rest (by omega)
    rw [render, value]
    simp only [List.append_assoc, skipBlanks_text (show "[".toList = ['['] from rfl) rfl,
      List.nil_append]
    split
    · rename_i heq
      exact absurd heq (skipBlanks_renderItems (by simp) _ _ _)
    · rw [hitems]
      rfl

theorem renderFields_cons_cons (depth : Nat) (k : String) (v : JsonValue) (f : String × JsonValue)
    (fs : List (String × JsonValue)) :
    renderFields depth ((k, v) :: f :: fs) =
      indent depth ++ (quote (text k) ++ (text ": " ++ (v.render depth ++
        (text "," ++ renderFields depth (f :: fs))))) := by
  simp [renderFields]

/-- The start of a field: its key, and what is read behind the colon. -/
theorem fields_key (depth bound : Nat) (k : String) (v : JsonValue) (rest : Bytes)
    (h : ReadsBack v) (hbound : 2 * (v.render depth).length ≤ bound)
    (hends : Ends (Utf8.decode rest)) :
    fields (bound + 1)
        (Utf8.decode (indent depth ++ (quote (text k) ++ (text ": " ++ (v.render depth ++ rest))))) =
      match skipBlanks (Utf8.decode rest) with
      | '\x7d' :: rest => some ([(k.toList, v.meaning)], rest)
      | ',' :: rest =>
        (fields bound rest).map (fun (fs, rest) => ((k.toList, v.meaning) :: fs, rest))
      | _ => none := by
  have hv := h depth bound rest hbound hends
  have hspace : ∀ c ∈ [' '], isBlank c = true := by
    intro c hc
    rw [List.mem_singleton.mp hc]
    rfl
  have hblank : value bound ([' '] ++ Utf8.decode (v.render depth ++ rest)) =
      value bound (Utf8.decode (v.render depth ++ rest)) := value_append hspace bound _
  have hkey : Utf8.decode (text k) = k.toList := by rw [text, Utf8.decode_encode]
  rw [fields, skipBlanks_indent, decode_quote_append, skipBlanks_cons (by decide)]
  simp only [string_escape, skipBlanks_text (show ": ".toList = [':', ' '] from rfl) rfl,
    hblank, hv]
  exact hkey ▸ rfl

theorem fields_renderFields {fs : List (String × JsonValue)} (hne : fs ≠ [])
    (h : ∀ f ∈ fs, ReadsBack f.2) (depth outer bound : Nat) (rest : Bytes)
    (hbound : 2 * (renderFields depth fs).length ≤ bound) :
    fields bound (Utf8.decode (renderFields depth fs ++ (indent outer ++ (text "\x7d" ++ rest)))) =
      some (fieldMeanings fs, Utf8.decode rest) := by
  induction fs generalizing bound with
  | nil => exact absurd rfl hne
  | cons f fs ih =>
    obtain ⟨k, v⟩ := f
    rw [List.forall_mem_cons] at h
    cases fs with
    | nil =>
      simp only [renderFields, List.length_append, length_indent] at hbound
      obtain ⟨bound, rfl⟩ : ∃ b, bound = b + 1 := ⟨bound - 1, by omega⟩
      simp only [renderFields, List.append_assoc]
      rw [fields_key depth bound k v _ h.1 (by omega) (ends_indent _ _), skipBlanks_indent,
        skipBlanks_text (show "\x7d".toList = ['\x7d'] from rfl) rfl]
      rfl
    | cons f' fs =>
      rw [renderFields_cons_cons] at hbound ⊢
      simp only [List.length_append, length_indent] at hbound
      obtain ⟨bound, rfl⟩ : ∃ b, bound = b + 1 := ⟨bound - 1, by omega⟩
      have hfs := ih (by simp) h.2 bound (by omega)
      simp only [List.append_assoc]
      rw [fields_key depth bound k v _ h.1 (by omega) (ends_comma _),
        skipBlanks_text (show ",".toList = [','] from rfl) rfl]
      simp only [List.nil_append, hfs]
      rfl

theorem skipBlanks_renderFields {fs : List (String × JsonValue)} (hne : fs ≠ []) (depth : Nat)
    (rest : Bytes) (t : List Char) :
    skipBlanks (Utf8.decode (renderFields depth fs ++ rest)) ≠ '\x7d' :: t := by
  obtain ⟨k, tail, heq⟩ : ∃ k tail, renderFields depth fs = indent depth ++ (quote k ++ tail) := by
    cases fs with
    | nil => exact absurd rfl hne
    | cons f fs =>
      cases fs with
      | nil => exact ⟨text f.1, _, by simp [renderFields]; rfl⟩
      | cons f' fs => exact ⟨text f.1, _, renderFields_cons_cons depth f.1 f.2 f' fs⟩
  rw [heq, List.append_assoc, List.append_assoc, skipBlanks_indent, decode_quote_append,
    skipBlanks_cons (by decide)]
  simp

theorem readsBack_object {fs : List (String × JsonValue)} (h : ∀ f ∈ fs, ReadsBack f.2) :
    ReadsBack (.object fs) := by
  intro depth bound rest hbound _
  obtain ⟨bound, rfl⟩ := exists_bound hbound
  cases fs with
  | nil =>
    rw [render, value, skipBlanks_text (show "\x7b\x7d".toList = ['\x7b', '\x7d'] from rfl) rfl]
    rfl
  | cons f fs =>
    simp only [render, List.length_append, length_indent] at hbound
    have hfields := fields_renderFields (by simp) h (depth + 1) depth bound rest (by omega)
    rw [render, value]
    simp only [List.append_assoc, skipBlanks_text (show "\x7b".toList = ['\x7b'] from rfl) rfl,
      List.nil_append]
    split
    · rename_i heq
      exact absurd heq (skipBlanks_renderFields (by simp) _ _ _)
    · rw [hfields]
      rfl

theorem readsBack (v : JsonValue) : ReadsBack v := by
  induction v using parts_induction with
  | number n => exact readsBack_number n
  | string s => exact readsBack_string s
  | array vs h => exact readsBack_array h
  | object fs h => exact readsBack_object h

theorem valid_indent_append (depth : Nat) (rest : Bytes) :
    Utf8.valid (indent depth ++ rest) = Utf8.valid rest := by
  rw [indent_eq, Utf8.valid_encode_append]

theorem valid_renderItems {vs : List JsonValue} (depth : Nat)
    (h : ∀ v ∈ vs, Utf8.valid (v.render depth) = true) :
    Utf8.valid (renderItems depth vs) = true := by
  induction vs with
  | nil => simp [renderItems]
  | cons v vs ih =>
    rw [List.forall_mem_cons] at h
    cases vs with
    | nil => rw [renderItems, valid_indent_append, h.1]
    | cons v' vs =>
      rw [renderItems_cons_cons, valid_indent_append, Utf8.valid_append h.1, text,
        Utf8.valid_encode_append, ih h.2]

theorem valid_renderFields {fs : List (String × JsonValue)} (depth : Nat)
    (h : ∀ f ∈ fs, Utf8.valid (f.2.render depth) = true) :
    Utf8.valid (renderFields depth fs) = true := by
  induction fs with
  | nil => simp [renderFields]
  | cons f fs ih =>
    obtain ⟨k, v⟩ := f
    rw [List.forall_mem_cons] at h
    cases fs with
    | nil =>
      simp only [renderFields, List.append_assoc]
      rw [valid_indent_append, quote, Utf8.valid_encode_append, text, Utf8.valid_encode_append, h.1]
    | cons f' fs =>
      rw [renderFields_cons_cons, valid_indent_append, quote, Utf8.valid_encode_append, text,
        Utf8.valid_encode_append, Utf8.valid_append h.1, text, Utf8.valid_encode_append, ih h.2]

theorem valid_render (v : JsonValue) (depth : Nat) : Utf8.valid (v.render depth) = true := by
  induction v using parts_induction generalizing depth with
  | number n => rw [render, decimal, Utf8.valid_encode]
  | string s => rw [render, quote, Utf8.valid_encode]
  | array vs h =>
    cases vs with
    | nil => rw [render, text, Utf8.valid_encode]
    | cons v vs =>
      have hitems := valid_renderItems (depth + 1) (fun v hv => h v hv (depth + 1))
      rw [render, List.append_assoc, List.append_assoc, text, Utf8.valid_encode_append,
        Utf8.valid_append hitems, valid_indent_append, text, Utf8.valid_encode]
  | object fs h =>
    cases fs with
    | nil => rw [render, text, Utf8.valid_encode]
    | cons f fs =>
      have hfields := valid_renderFields (depth + 1) (fun f hf => h f hf (depth + 1))
      rw [render, List.append_assoc, List.append_assoc, text, Utf8.valid_encode_append,
        Utf8.valid_append hfields, valid_indent_append, text, Utf8.valid_encode]

/-- The text of a value is a document, and its value is what was meant. -/
theorem read_render (v : JsonValue) : JsonText.read (v.render 0) = some v.meaning := by
  have hvalue := v.readsBack 0 (2 * (v.render 0).length) [] (Nat.le_refl _) (by simp [Ends])
  rw [List.append_nil] at hvalue
  rw [JsonText.read, if_pos (v.valid_render 0), hvalue]
  simp [skipBlanks]

theorem meanings_map {α : Type} (f : α → JsonValue) (xs : List α) :
    meanings (xs.map f) = xs.map (fun x => (f x).meaning) := by
  induction xs with
  | nil => rfl
  | cons x xs ih => rw [List.map_cons, meanings, ih, List.map_cons]

end JsonValue

/-! ### Paths of valid text -/

namespace Path

open Bytes (slash)

theorem valid_of_mem_segments {p s : Bytes} (h : Utf8.valid p = true) (hs : s ∈ segments p) :
    Utf8.valid s = true := by
  induction hn : p.length using Nat.strongRecOn generalizing p with
  | ind n ih =>
    by_cases hslash : slash ∈ p
    · obtain ⟨q, r, rfl, hfree⟩ := List.eq_append_cons_of_mem hslash
      obtain ⟨hq, hr⟩ := Utf8.valid_cut (by decide) h
      rw [segments_append_slash, List.mem_append] at hs
      rcases hs with hs | hs
      · rw [segments, Bytes.split_of_not_mem hfree, List.mem_singleton] at hs
        exact hs ▸ hq
      · refine ih r.length ?_ hr hs rfl
        rw [List.length_append, List.length_cons] at hn
        omega
    · rw [segments, Bytes.split_of_not_mem hslash, List.mem_singleton] at hs
      exact hs ▸ h

theorem valid_join {pieces : List Bytes} (h : ∀ s ∈ pieces, Utf8.valid s = true) :
    Utf8.valid (Bytes.join [slash] pieces) = true := by
  induction pieces with
  | nil => simp
  | cons x xs ih =>
    rw [List.forall_mem_cons] at h
    cases xs with
    | nil => rw [Bytes.join_singleton, h.1]
    | cons y ys =>
      have hslash : [slash] = text "/" := rfl
      rw [Bytes.join_cons_cons, List.append_assoc, Utf8.valid_append h.1, hslash, text,
        Utf8.valid_encode_append, ← text, ← hslash, ih h.2]

theorem mem_of_mem_dropCommon {as bs : List Bytes} {x : Bytes} (h : x ∈ (dropCommon as bs).2) :
    x ∈ bs := by
  obtain ⟨common, rest, down, hdrop, rfl, rfl⟩ := exists_common as bs
  rw [hdrop] at h
  exact List.mem_append_right common h

theorem valid_here : Utf8.valid here = true := Utf8.valid_encode ['.']

theorem valid_up : Utf8.valid up = true := Utf8.valid_encode ['.', '.']

theorem valid_of_mem_targetSegments {p s : Bytes} (h : Utf8.valid p = true)
    (hs : s ∈ targetSegments p) : Utf8.valid s = true := by
  have hbase : ∀ s ∈ baseSegments p, Utf8.valid s = true := by
    intro s hs
    rcases mem_foldl_step (List.mem_reverse.mp hs) with hnil | rfl | ⟨hseg, _⟩
    · simp at hnil
    · exact valid_up
    · exact valid_of_mem_segments h hseg
  unfold targetSegments at hs
  split at hs
  · split at hs
    · simp at hs
    · rw [List.mem_singleton.mp hs]
      exact valid_here
  · exact hbase s hs

theorem valid_relativeOrSame {root p : Bytes} (h : Utf8.valid p = true) :
    Utf8.valid (relativeOrSame root p) = true := by
  unfold relativeOrSame relative?
  split
  · exact valid_here
  split
  · exact h
  have hdown : ∀ s ∈ (dropCommon (baseSegments root) (targetSegments p)).2, Utf8.valid s = true :=
    fun s hs => valid_of_mem_targetSegments h (mem_of_mem_dropCommon hs)
  split
  · rename_i heq
    rw [heq] at hdown
    exact valid_join hdown
  · rename_i heq
    rw [heq] at hdown
    split
    · exact h
    · apply valid_join
      intro s hs
      rcases List.mem_append.mp hs with hs | hs
      · obtain ⟨_, _, rfl⟩ := List.mem_map.mp hs
        exact valid_up
      · exact hdown s (List.mem_filter.mp hs).1

end Path

theorem valid_relativePaths {root : Bytes} {paths : List Bytes}
    (h : ∀ p ∈ paths, Utf8.valid p = true) : ∀ p ∈ relativePaths root paths, Utf8.valid p = true := by
  intro p hp
  rw [relativePaths, Bytes.mem_sort] at hp
  obtain ⟨q, hq, rfl⟩ := List.mem_map.mp hp
  exact Path.valid_relativeOrSame (h q hq)

/-! ### The report -/

/-- The strings of a result that its report shows, as paths from the root or as they are. -/
def Result.strings (res : Result) : List Bytes :=
  res.reach.entries ++ res.reach.missing ++ res.reach.unused ++ res.reach.visited ++
    res.failures.flatMap (fun f => [f.path, f.message])

/-- A report whose strings are all text. -/
structure Report.Textual (rep : Report) : Prop where
  entryPoints : ∀ s ∈ rep.entryPoints, Utf8.valid s = true
  missingEntryPoints : ∀ s ∈ rep.missingEntryPoints, Utf8.valid s = true
  unusedFiles : ∀ s ∈ rep.unusedFiles, Utf8.valid s = true
  usedFiles : ∀ s ∈ rep.usedFiles, Utf8.valid s = true
  failures : ∀ f ∈ rep.failures, Utf8.valid f.path = true ∧ Utf8.valid f.message = true

theorem Result.textual_report {res : Result} (h : ∀ s ∈ res.strings, Utf8.valid s = true) :
    res.report.Textual := by
  simp only [strings, List.forall_mem_append, List.forall_mem_flatMap] at h
  obtain ⟨⟨⟨⟨hentries, hmissing⟩, hunused⟩, hvisited⟩, hfailures⟩ := h
  refine ⟨valid_relativePaths hentries, valid_relativePaths hmissing, valid_relativePaths hunused,
    valid_relativePaths hvisited, ?_⟩
  intro f hf
  obtain ⟨g, hg, rfl⟩ := List.mem_map.mp hf
  have hboth := hfailures g hg
  exact ⟨Path.valid_relativeOrSame (hboth _ (by simp)), hboth _ (by simp)⟩

theorem Json.ofNat_injective {m n : Nat} (h : Json.ofNat m = Json.ofNat n) : m = n := by
  rw [ofNat, ofNat, Json.number.injEq, Rat.mkRat_one, Rat.mkRat_one] at h
  exact Int.ofNat_inj.mp (Rat.intCast_inj.mp h)

namespace Report

/-- The report as a JSON value. -/
theorem meaning_toJson (rep : Report) :
    rep.toJson.meaning = .object
      [("total".toList, .ofNat rep.total),
        ("reachable".toList, .ofNat rep.reachable),
        ("unused".toList, .ofNat rep.unused),
        ("entry_points".toList, .array (rep.entryPoints.map (fun s => .string (Utf8.decode s)))),
        ("missing_entry_points".toList,
          .array (rep.missingEntryPoints.map (fun s => .string (Utf8.decode s)))),
        ("unused_files".toList, .array (rep.unusedFiles.map (fun s => .string (Utf8.decode s)))),
        ("used_files".toList, .array (rep.usedFiles.map (fun s => .string (Utf8.decode s)))),
        ("failures".toList, .array (rep.failures.map (fun f => .object
          [("file".toList, .string (Utf8.decode f.path)),
            ("error".toList, .string (Utf8.decode f.message))])))] := by
  simp only [toJson, JsonValue.strings, JsonValue.meaning, JsonValue.fieldMeanings,
    JsonValue.meanings_map]

theorem eq_of_map_eq {α : Type} {f : α → Json} {xs ys : List α}
    (hf : ∀ x ∈ xs, ∀ y ∈ ys, f x = f y → x = y) (h : xs.map f = ys.map f) : xs = ys := by
  induction xs generalizing ys with
  | nil => simpa using h.symm
  | cons x xs ih =>
    cases ys with
    | nil => simp at h
    | cons y ys =>
      rw [List.map_cons, List.map_cons, List.cons.injEq] at h
      rw [hf x (by simp) y (by simp) h.1,
        ih (fun x hx y hy => hf x (by simp [hx]) y (by simp [hy])) h.2]

theorem strings_injective {xs ys : List Bytes} (hx : ∀ s ∈ xs, Utf8.valid s = true)
    (hy : ∀ s ∈ ys, Utf8.valid s = true)
    (h : Json.array (xs.map (fun s => .string (Utf8.decode s))) =
      .array (ys.map (fun s => .string (Utf8.decode s)))) : xs = ys := by
  refine eq_of_map_eq ?_ (Json.array.inj h)
  intro s hs t ht heq
  exact Utf8.decode_injective (hx s hs) (hy t ht) (Json.string.inj heq)

/-- Reports of text with the same JSON value are equal. -/
theorem Textual.eq_of_meaning {rep rep' : Report} (h : rep.Textual) (h' : rep'.Textual)
    (heq : rep.toJson.meaning = rep'.toJson.meaning) : rep = rep' := by
  rw [meaning_toJson, meaning_toJson] at heq
  simp only [Json.object.injEq, List.cons.injEq, Prod.mk.injEq, true_and, and_true] at heq
  obtain ⟨htotal, hreachable, hunused, hentries, hmissing, hunusedFiles, hused, hfailures⟩ := heq
  have hsame : rep.failures = rep'.failures := by
    refine eq_of_map_eq ?_ (Json.array.inj hfailures)
    intro f hf g hg heq
    simp only [Json.object.injEq, List.cons.injEq, Prod.mk.injEq, Json.string.injEq, true_and,
      and_true] at heq
    obtain ⟨hpath, hmessage⟩ := h.failures f hf
    obtain ⟨hpath', hmessage'⟩ := h'.failures g hg
    cases f
    cases g
    rw [Failure.mk.injEq]
    exact ⟨Utf8.decode_injective hpath hpath' heq.1,
      Utf8.decode_injective hmessage hmessage' heq.2⟩
  cases rep
  cases rep'
  rw [Report.mk.injEq]
  exact ⟨Json.ofNat_injective htotal, Json.ofNat_injective hreachable,
    Json.ofNat_injective hunused, strings_injective h.entryPoints h'.entryPoints hentries,
    strings_injective h.missingEntryPoints h'.missingEntryPoints hmissing,
    strings_injective h.unusedFiles h'.unusedFiles hunusedFiles,
    strings_injective h.usedFiles h'.usedFiles hused, hsame⟩

end Report

/--
The JSON text of a result is one document and a newline. Read by the grammar of JSON, the document is an
object with the fields of the report, every string with each byte that starts no character as U+FFFD. So if
the strings are valid text, results with the same JSON text have the same report.
-/
theorem Result.printJson_reads_back (res : Result) :
    (∃ doc, (res.printJson Sink.unlimited).1.written = doc ++ [Bytes.newline] ∧
      (res.printJson Sink.unlimited).2 = .ok () ∧
      JsonText.read doc = some (.object
        [("total".toList, .ofNat res.report.total),
          ("reachable".toList, .ofNat res.report.reachable),
          ("unused".toList, .ofNat res.report.unused),
          ("entry_points".toList,
            .array (res.report.entryPoints.map (fun s => .string (Utf8.decode s)))),
          ("missing_entry_points".toList,
            .array (res.report.missingEntryPoints.map (fun s => .string (Utf8.decode s)))),
          ("unused_files".toList,
            .array (res.report.unusedFiles.map (fun s => .string (Utf8.decode s)))),
          ("used_files".toList,
            .array (res.report.usedFiles.map (fun s => .string (Utf8.decode s)))),
          ("failures".toList, .array (res.report.failures.map (fun f => .object
            [("file".toList, .string (Utf8.decode f.path)),
              ("error".toList, .string (Utf8.decode f.message))])))])) ∧
    (∀ s, Utf8.Reads s (Utf8.decode s)) ∧
    ∀ res' : Result, (∀ s ∈ res.strings, Utf8.valid s = true) →
      (∀ s ∈ res'.strings, Utf8.valid s = true) →
      (res.printJson Sink.unlimited).1.written = (res'.printJson Sink.unlimited).1.written →
        res.report = res'.report := by
  have hwritten : ∀ r : Result,
      (r.printJson Sink.unlimited).1.written = r.report.toJson.render 0 ++ [Bytes.newline] ∧
        (r.printJson Sink.unlimited).2 = .ok () := by
    intro r
    exact (r.receives_printJson (show Sink.unlimited.written = [] from rfl)).whole
      (by simp [Sink.Holds, Sink.unlimited])
  refine ⟨⟨res.report.toJson.render 0, (hwritten res).1, (hwritten res).2, ?_⟩, ?_, ?_⟩
  · rw [JsonValue.read_render, Report.meaning_toJson]
  · exact fun s => Utf8.reads_iff.mpr rfl
  · intro res' h h' hsame
    rw [(hwritten res).1, (hwritten res').1, List.append_cancel_right_eq] at hsame
    have hread := congrArg JsonText.read hsame
    rw [JsonValue.read_render, JsonValue.read_render, Option.some.injEq] at hread
    exact (textual_report h).eq_of_meaning (textual_report h') hread

/-- A result with a quote, a sign of markup and an umlaut in its strings. -/
def Result.sampleText (bytes : Nat) : Result where
  libRoot := text "/lib"
  files := [text "/lib/<ü>.dart"]
  graph := []
  failures := [⟨text "/lib/<ü>.dart", text "\"no\" text"⟩]
  bytes := bytes
  reach := ⟨[], [text "/lib/main.dart"], [], [text "/lib/<ü>.dart"]⟩

theorem Result.printJson_reads_back_sample :
    (∃ doc json, ((sampleText 0).printJson Sink.unlimited).1.written = doc ++ [Bytes.newline] ∧
      JsonText.read doc = some json) ∧ (sampleText 0).report = (sampleText 1).report := by
  have hvalid : ∀ n, ∀ s ∈ (sampleText n).strings, Utf8.valid s = true := by
    intro n s hs
    simp only [strings, sampleText, List.flatMap_cons, List.flatMap_nil, List.nil_append,
      List.cons_append, List.append_nil, List.mem_cons, List.not_mem_nil, or_false] at hs
    rcases hs with rfl | rfl | rfl | rfl <;> exact Utf8.valid_encode _
  obtain ⟨⟨doc, hdoc, _, hread⟩, _, hinj⟩ := printJson_reads_back (sampleText 0)
  exact ⟨⟨doc, _, hdoc, hread⟩, hinj (sampleText 1) (hvalid 0) (hvalid 1) rfl⟩

end DartReach
