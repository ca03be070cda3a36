import Mathlib.Tactic.SplitIfs
import DartReach.Text.Utf8

/-!
# Reading what was encoded

Characters and their bytes determine each other: reading an encoding gives the character back, and a
symbol that is a character takes exactly the bytes of its encoding. So a byte string is valid if and only
if it is the encoding of some characters, and these are the characters that reading gives.
-/

namespace DartReach.Utf8

set_option autoImplicit false

/-! ### One character -/

theorem toNat_byte {n : Nat} (h : n < 256) : (UInt8.ofNat n).toNat = n := by
  rw [UInt8.toNat_ofNat']
  exact Nat.mod_eq_of_lt h

theorem byte_eq {b : UInt8} {n : Nat} (h : n = b.toNat) : UInt8.ofNat n = b := by
  rw [h]
  exact UInt8.ofNat_toNat

theorem char_eq {c : Char} {n : Nat} (h : n = c.toNat) : Char.ofNat n = c := by
  rw [h]
  exact Char.ofNat_toNat c

theorem encodeChar_ofNat {v : Nat} (h : v.isValidChar) :
    String.utf8EncodeChar (Char.ofNat v) =
      if v ≤ 0x7F then [UInt8.ofNat v]
      else if v ≤ 0x7FF then [UInt8.ofNat (v / 64 % 32 + 192), UInt8.ofNat (v % 64 + 128)]
      else if v ≤ 0xFFFF then
        [UInt8.ofNat (v / 4096 % 16 + 224), UInt8.ofNat (v / 64 % 64 + 128), UInt8.ofNat (v % 64 + 128)]
      else
        [UInt8.ofNat (v / 262144 % 8 + 240), UInt8.ofNat (v / 4096 % 64 + 128),
          UInt8.ofNat (v / 64 % 64 + 128), UInt8.ofNat (v % 64 + 128)] := by
  have hv : (Char.ofNat v).val.toNat = v := by
    rw [Char.ofNat, dif_pos h]
    rfl
  rw [String.utf8EncodeChar, hv]

theorem encodeChar_of_ascii {c : Char} (h : c.toNat < 0x80) :
    String.utf8EncodeChar c = [UInt8.ofNat c.toNat] := by
  have hvalid : c.toNat.isValidChar := Or.inl (by omega)
  have hencode := encodeChar_ofNat hvalid
  rw [char_eq rfl, if_pos (by omega)] at hencode
  exact hencode

/-- What the second byte of an encoding can be: a tail, less what overlong forms and surrogates take. -/
theorem second_iff {a b : UInt8} :
    secondMin a ≤ b ∧ b ≤ secondMax a ↔
      0x80 ≤ b.toNat ∧ b.toNat ≤ 0xBF ∧ (a.toNat = 0xE0 → 0xA0 ≤ b.toNat) ∧
        (a.toNat = 0xF0 → 0x90 ≤ b.toNat) ∧ (a.toNat = 0xED → b.toNat ≤ 0x9F) ∧
        (a.toNat = 0xF4 → b.toNat ≤ 0x8F) := by
  simp only [secondMin, secondMax, UInt8.le_iff_toNat_le, ← UInt8.toNat_inj, apply_ite UInt8.toNat,
    UInt8.reduceToNat]
  split_ifs <;> omega

theorem isTail_iff {b : UInt8} : isTail b = true ↔ 0x80 ≤ b.toNat ∧ b.toNat ≤ 0xBF := by
  simp [isTail, UInt8.le_iff_toNat_le]

/-- The encoding of a character is its first symbol, whatever follows. -/
theorem first_encodeChar (c : Char) (rest : Bytes) :
    ∃ a more, String.utf8EncodeChar c = a :: more ∧
      first a (more ++ rest) = ⟨some c, more.length + 1⟩ := by
  have hvalid : c.toNat < 0xD800 ∨ 0xDFFF < c.toNat ∧ c.toNat < 0x110000 := c.valid
  generalize hv : c.toNat = v at hvalid
  have henc := encodeChar_ofNat (v := v) hvalid
  rw [char_eq hv.symm] at henc
  rw [henc]
  split
  · have ha := toNat_byte (n := v) (by omega)
    refine ⟨_, _, rfl, ?_⟩
    rw [first, if_pos (by rw [UInt8.lt_iff_toNat_lt, ha]; change v < 128; omega), ha,
      char_eq hv.symm]
    rfl
  split
  · have ha := toNat_byte (n := v / 64 % 32 + 192) (by omega)
    have hb := toNat_byte (n := v % 64 + 128) (by omega)
    refine ⟨_, _, rfl, ?_⟩
    simp only [first, long?, isTail_iff, tailBits, List.cons_append, List.nil_append, ha, hb,
      UInt8.lt_iff_toNat_lt, UInt8.le_iff_toNat_le, UInt8.reduceToNat, Bool.and_eq_true,
      decide_eq_true_eq]
    rw [if_neg (by omega), if_pos (by omega), if_pos (by omega), char_eq (c := c) (by omega)]
    rfl
  split
  · have ha := toNat_byte (n := v / 4096 % 16 + 224) (by omega)
    have hb := toNat_byte (n := v / 64 % 64 + 128) (by omega)
    have hc := toNat_byte (n := v % 64 + 128) (by omega)
    refine ⟨_, _, rfl, ?_⟩
    simp only [first, long?, isTail_iff, tailBits, List.cons_append, List.nil_append, Bool.and_eq_true,
      decide_eq_true_eq, second_iff]
    simp only [ha, hb, hc, UInt8.lt_iff_toNat_lt, UInt8.le_iff_toNat_le, UInt8.reduceToNat]
    rw [if_neg (by omega), if_neg (by omega), if_pos (by omega), if_pos (by omega),
      char_eq (c := c) (by omega)]
    rfl
  · have ha := toNat_byte (n := v / 262144 % 8 + 240) (by omega)
    have hb := toNat_byte (n := v / 4096 % 64 + 128) (by omega)
    have hc := toNat_byte (n := v / 64 % 64 + 128) (by omega)
    have hd := toNat_byte (n := v % 64 + 128) (by omega)
    refine ⟨_, _, rfl, ?_⟩
    simp only [first, long?, isTail_iff, tailBits, List.cons_append, List.nil_append, Bool.and_eq_true,
      decide_eq_true_eq, second_iff]
    simp only [ha, hb, hc, hd, UInt8.lt_iff_toNat_lt, UInt8.le_iff_toNat_le, UInt8.reduceToNat]
    rw [if_neg (by omega), if_neg (by omega), if_neg (by omega), if_pos (by omega),
      if_pos (by omega), char_eq (c := c) (by omega)]
    rfl

theorem encodeChar_of_long? {a : UInt8} {rest : Bytes} {c : Char} {w : Nat}
    (h : long? a rest = some (c, w)) : a :: rest = String.utf8EncodeChar c ++ rest.drop (w - 1) := by
  simp only [long?, UInt8.le_iff_toNat_le, UInt8.reduceToNat, Bool.and_eq_true, decide_eq_true_eq] at h
  split at h
  · rename_i ha
    split at h
    · rename_i b tail
      split at h
      · rename_i hb
        cases h
        rw [isTail_iff] at hb
        rw [encodeChar_ofNat (Or.inl (by rw [tailBits]; omega)), tailBits, if_neg (by omega),
          if_pos (by omega), byte_eq (b := a) (by omega), byte_eq (b := b) (by omega)]
        rfl
      · cases h
    · cases h
  split at h
  · rename_i ha
    split at h
    · rename_i b c' tail
      split at h
      · rename_i hmore
        cases h
        rw [← UInt8.le_iff_toNat_le, ← UInt8.le_iff_toNat_le, second_iff, isTail_iff] at hmore
        obtain ⟨hb, hc⟩ := hmore
        rw [encodeChar_ofNat (by rw [tailBits, tailBits, Nat.isValidChar]; omega), tailBits, tailBits,
          if_neg (by omega), if_neg (by omega), if_pos (by omega), byte_eq (b := a) (by omega),
          byte_eq (b := b) (by omega), byte_eq (b := c') (by omega)]
        rfl
      · cases h
    · cases h
  split at h
  · rename_i ha
    split at h
    · rename_i b c' d tail
      split at h
      · rename_i hmore
        cases h
        rw [← UInt8.le_iff_toNat_le, ← UInt8.le_iff_toNat_le, second_iff, isTail_iff,
          isTail_iff] at hmore
        obtain ⟨⟨hb, hc⟩, hd⟩ := hmore
        rw [encodeChar_ofNat (by rw [tailBits, tailBits, tailBits, Nat.isValidChar]; omega), tailBits,
          tailBits, tailBits, if_neg (by omega), if_neg (by omega), if_neg (by omega),
          byte_eq (b := a) (by omega), byte_eq (b := b) (by omega), byte_eq (b := c') (by omega),
          byte_eq (b := d) (by omega)]
        rfl
      · cases h
    · cases h
  · cases h

theorem next?_encodeChar (c : Char) (rest : Bytes) :
    ∃ w, next? (String.utf8EncodeChar c ++ rest) = some (⟨some c, w⟩, rest) := by
  obtain ⟨a, more, henc, hfirst⟩ := first_encodeChar c rest
  refine ⟨more.length + 1, ?_⟩
  rw [henc, List.cons_append, next?]
  simp only [hfirst, Nat.add_sub_cancel, List.drop_left]

/-- A symbol that is a character takes the bytes of its encoding. -/
theorem eq_encodeChar_of_next? {s rest : Bytes} {c : Char} {w : Nat}
    (h : next? s = some (⟨some c, w⟩, rest)) : s = String.utf8EncodeChar c ++ rest := by
  cases s with
  | nil => cases h
  | cons a s =>
    simp only [next?, Option.some.injEq, Prod.mk.injEq] at h
    obtain ⟨hfirst, hrest⟩ := h
    rw [hfirst] at hrest
    rw [← hrest]
    unfold first at hfirst
    split at hfirst
    · rename_i ha
      simp only [Symbol.mk.injEq, Option.some.injEq] at hfirst
      obtain ⟨rfl, rfl⟩ := hfirst
      rw [UInt8.lt_iff_toNat_lt] at ha
      change a.toNat < 128 at ha
      rw [encodeChar_ofNat (Or.inl (by omega)), if_pos (by omega), byte_eq rfl]
      rfl
    · split at hfirst
      · rename_i c' w' hlong
        simp only [Symbol.mk.injEq, Option.some.injEq] at hfirst
        obtain ⟨rfl, rfl⟩ := hfirst
        exact encodeChar_of_long? hlong
      · simp at hfirst

/-! ### Whole texts -/

theorem symbolsOnto_eq (seen : List Symbol) (s : Bytes) :
    symbolsOnto seen s = seen.reverse ++ symbols s := by
  induction hn : s.length using Nat.strongRecOn generalizing seen s with
  | ind n ih =>
    unfold symbols
    rw [symbolsOnto, symbolsOnto]
    split
    · rename_i hnext
      simp
    · rename_i u rest hnext
      have hlen := next?_length hnext
      rw [ih rest.length (by omega) (u :: seen) rest rfl, ih rest.length (by omega) [u] rest rfl]
      simp

theorem symbols_of_next? {s rest : Bytes} {u : Symbol} (h : next? s = some (u, rest)) :
    symbols s = u :: symbols rest := by
  rw [symbols, symbolsOnto]
  split
  · rename_i hnone
    rw [h] at hnone
    cases hnone
  · rename_i u' rest' hsome
    rw [h] at hsome
    cases hsome
    rw [symbolsOnto_eq]
    rfl

@[simp] theorem decode_nil : decode [] = [] := by
  rw [decode, symbols, symbolsOnto]
  rfl

theorem decode_of_next? {s rest : Bytes} {u : Symbol} (h : next? s = some (u, rest)) :
    decode s = u.char :: decode rest := by
  rw [decode, symbols_of_next? h]
  rfl

theorem valid_of_next? {s rest : Bytes} {u : Symbol} (h : next? s = some (u, rest)) :
    valid s = (u.char?.isSome && valid rest) := by
  rw [valid]
  split
  · rename_i hnone
    rw [h] at hnone
    cases hnone
  · rename_i u' rest' hsome
    rw [h] at hsome
    cases hsome
    rfl

@[simp] theorem valid_nil : valid [] = true := by
  rw [valid]
  rfl

theorem encode_cons (c : Char) (cs : List Char) :
    encode (c :: cs) = String.utf8EncodeChar c ++ encode cs := rfl

@[simp] theorem encode_append (cs ds : List Char) : encode (cs ++ ds) = encode cs ++ encode ds := by
  simp [encode]

theorem decode_encode_append (cs : List Char) (rest : Bytes) :
    decode (encode cs ++ rest) = cs ++ decode rest := by
  induction cs with
  | nil => rfl
  | cons c cs ih =>
    obtain ⟨w, hnext⟩ := next?_encodeChar c (encode cs ++ rest)
    rw [encode_cons, List.append_assoc, decode_of_next? hnext, ih]
    rfl

@[simp] theorem decode_encode (cs : List Char) : decode (encode cs) = cs := by
  have h := decode_encode_append cs []
  simpa using h

theorem valid_encode_append (cs : List Char) (rest : Bytes) :
    valid (encode cs ++ rest) = valid rest := by
  induction cs with
  | nil => rfl
  | cons c cs ih =>
    obtain ⟨w, hnext⟩ := next?_encodeChar c (encode cs ++ rest)
    rw [encode_cons, List.append_assoc, valid_of_next? hnext, ih]
    rfl

@[simp] theorem valid_encode (cs : List Char) : valid (encode cs) = true := by
  have h := valid_encode_append cs []
  simpa using h

/-- A valid byte string is the encoding of its characters. -/
theorem encode_decode {s : Bytes} (h : valid s = true) : encode (decode s) = s := by
  induction hn : s.length using Nat.strongRecOn generalizing s with
  | ind n ih =>
    cases hnext : next? s with
    | none =>
      cases s with
      | nil => simp [encode]
      | cons a s => simp [next?] at hnext
    | some found =>
      obtain ⟨⟨char?, w⟩, rest⟩ := found
      rw [valid_of_next? hnext, Bool.and_eq_true] at h
      obtain ⟨c, rfl⟩ := Option.isSome_iff_exists.mp h.1
      have hlen := next?_length hnext
      rw [decode_of_next? hnext, encode_cons, ih rest.length (by omega) h.2 rfl]
      exact (eq_encodeChar_of_next? hnext).symm

theorem valid_iff {s : Bytes} : valid s = true ↔ ∃ cs, s = encode cs := by
  constructor
  · intro h
    exact ⟨decode s, (encode_decode h).symm⟩
  · rintro ⟨cs, rfl⟩
    exact valid_encode cs

theorem valid_append {s t : Bytes} (h : valid s = true) : valid (s ++ t) = valid t := by
  obtain ⟨cs, rfl⟩ := valid_iff.mp h
  exact valid_encode_append cs t

theorem decode_injective {s t : Bytes} (hs : valid s = true) (ht : valid t = true)
    (h : decode s = decode t) : s = t := by
  rw [← encode_decode hs, ← encode_decode ht, h]

/--
A byte string read as characters: where a character is encoded it is read, and a byte at which none starts
counts as U+FFFD.
-/
inductive Reads : Bytes → List Char → Prop where
  | nil : Reads [] []
  | char (c : Char) {s : Bytes} {cs : List Char} (rest : Reads s cs) :
      Reads (String.utf8EncodeChar c ++ s) (c :: cs)
  | stray (b : UInt8) {s : Bytes} {cs : List Char}
      (none : ∀ c t, b :: s ≠ String.utf8EncodeChar c ++ t) (rest : Reads s cs) :
      Reads (b :: s) (replacement :: cs)

theorem next?_stray {b : UInt8} {s : Bytes} (h : ∀ c t, b :: s ≠ String.utf8EncodeChar c ++ t) :
    next? (b :: s) = some (⟨none, 1⟩, s) := by
  cases hnext : next? (b :: s) with
  | none => simp [next?] at hnext
  | some out =>
    obtain ⟨⟨char?, w⟩, rest⟩ := out
    cases char? with
    | some c => exact absurd (eq_encodeChar_of_next? hnext) (h c rest)
    | none =>
      simp only [next?, Option.some.injEq, Prod.mk.injEq] at hnext
      obtain ⟨hfirst, hrest⟩ := hnext
      have hw : w = 1 := by
        unfold first at hfirst
        split at hfirst
        · simp at hfirst
        · split at hfirst <;> simp at hfirst
          exact hfirst.symm
      subst hw
      rw [hfirst] at hrest
      rw [← hrest]
      rfl

/-- Decoding is the only way to read a byte string. -/
theorem reads_iff {s : Bytes} {cs : List Char} : Reads s cs ↔ cs = decode s := by
  constructor
  · intro h
    induction h with
    | nil => simp
    | char c rest ih =>
      obtain ⟨w, hnext⟩ := next?_encodeChar c _
      rw [decode_of_next? hnext, ih]
      rfl
    | stray b none rest ih =>
      rw [decode_of_next? (next?_stray none), ih]
      rfl
  · rintro rfl
    induction hn : s.length using Nat.strongRecOn generalizing s with
    | ind n ih =>
      cases hnext : next? s with
      | none =>
        cases s with
        | nil => simpa using Reads.nil
        | cons a s => simp [next?] at hnext
      | some out =>
        obtain ⟨⟨char?, w⟩, rest⟩ := out
        have hrest := ih rest.length (hn ▸ next?_length hnext) rfl
        rw [decode_of_next? hnext]
        cases char? with
        | some c =>
          rw [eq_encodeChar_of_next? hnext]
          exact .char c hrest
        | none =>
          cases s with
          | nil => simp [next?] at hnext
          | cons b s =>
            have hnone : ∀ c t, b :: s ≠ String.utf8EncodeChar c ++ t := by
              intro c t heq
              obtain ⟨w', hchar⟩ := next?_encodeChar c t
              rw [heq, hchar] at hnext
              simp at hnext
            have hs := next?_stray hnone
            rw [hnext, Option.some.injEq, Prod.mk.injEq] at hs
            rw [← hs.2] 
            exact .stray b (hs.2 ▸ hnone) hrest

/-! ### Cutting at ASCII bytes -/

theorem encodeChar_tail {c : Char} {a : UInt8} {more : Bytes}
    (h : String.utf8EncodeChar c = a :: more) :
    (∀ b ∈ more, 0x80 ≤ b.toNat) ∧ (a.toNat < 0x80 → more = []) := by
  rw [← Char.ofNat_toNat c, encodeChar_ofNat (show c.toNat.isValidChar from c.valid)] at h
  generalize c.toNat = v at h
  split_ifs at h <;> cases h
  · simp
  all_goals
    constructor
    · intro b hb
      simp only [List.mem_cons, List.not_mem_nil, or_false] at hb
      rcases hb with rfl | rfl | rfl <;> rw [toNat_byte (by omega)] <;> omega
    · rw [toNat_byte (by omega)]
      omega

/-- An ASCII byte is a character, so a valid byte string can be cut there. -/
theorem encode_cut {cs : List Char} {s t : Bytes} {b : UInt8} (hb : b.toNat < 0x80)
    (h : encode cs = s ++ b :: t) : (∃ ds, s = encode ds) ∧ ∃ es, t = encode es := by
  induction cs generalizing s with
  | nil => simp [encode] at h
  | cons c cs ih =>
    rw [encode_cons, List.append_eq_append_iff] at h
    rcases h with ⟨s', rfl, h⟩ | ⟨s', hc, h⟩
    · obtain ⟨⟨ds, rfl⟩, hes⟩ := ih h
      exact ⟨⟨c :: ds, (encode_cons c ds).symm⟩, hes⟩
    cases s' with
    | nil =>
      obtain ⟨_, hes⟩ := ih (s := []) h.symm
      exact ⟨⟨[c], by simp [encode, hc]⟩, hes⟩
    | cons b' more =>
      rw [List.cons_append, List.cons.injEq] at h
      obtain ⟨rfl, rfl⟩ := h
      cases s with
      | nil =>
        rw [(encodeChar_tail hc).2 hb]
        exact ⟨⟨[], rfl⟩, cs, rfl⟩
      | cons a s =>
        have hge := (encodeChar_tail hc).1 b (by simp)
        omega

theorem valid_cut {s t : Bytes} {b : UInt8} (hb : b.toNat < 0x80)
    (h : valid (s ++ b :: t) = true) : valid s = true ∧ valid t = true := by
  obtain ⟨cs, hcs⟩ := valid_iff.mp h
  obtain ⟨hs, ht⟩ := encode_cut hb hcs.symm
  exact ⟨valid_iff.mpr hs, valid_iff.mpr ht⟩

end DartReach.Utf8
