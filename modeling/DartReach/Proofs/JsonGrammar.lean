import Mathlib.Tactic.IntervalCases
import DartReach.Proofs.Utf8Codec
import DartReach.Text.Quoted

/-!
# JSON texts

A reader for the grammar of JSON, and the value a text stands for: numbers as exact rationals, strings as
characters with all escapes resolved, fields in the order they are written. Blanks may stand around every
value and every sign. The reader asks for one value and nothing but blanks behind it.
-/

namespace DartReach

set_option autoImplicit false

/-- A JSON value. -/
inductive Json where
  | null
  | bool (b : Bool)
  | number (q : Rat)
  | string (s : List Char)
  | array (items : List Json)
  | object (fields : List (List Char × Json))

namespace Json

/-- A whole number. -/
def ofNat (n : Nat) : Json := .number (mkRat n 1)

end Json

namespace JsonText

def isBlank (c : Char) : Bool := c == ' ' || c == '\t' || c == '\n' || c == '\r'

def skipBlanks (cs : List Char) : List Char := cs.dropWhile isBlank

/-! ### Numbers -/

/-- One or more digits. -/
def digits (cs : List Char) : Option (List Char × List Char) :=
  if cs.takeWhile Char.isDigit = [] then none
  else some (cs.takeWhile Char.isDigit, cs.dropWhile Char.isDigit)

/-- The whole part of a number; a zero has no digits behind it. -/
def wholePart : List Char → Option (List Char × List Char)
  | '0' :: rest => some (['0'], rest)
  | cs => digits cs

/-- The digits behind the point, if there is one. -/
def fraction : List Char → Option (List Char × List Char)
  | '.' :: rest => digits rest
  | cs => some ([], cs)

/-- The value of digits. -/
def natural (ds : List Char) : Nat := Nat.ofDigitChars 10 ds 0

/-- The exponent, with its sign. -/
def signedExponent : List Char → Option (Int × List Char)
  | '-' :: rest => (digits rest).map (fun (ds, rest) => (-(natural ds : Int), rest))
  | '+' :: rest => (digits rest).map (fun (ds, rest) => ((natural ds : Int), rest))
  | cs => (digits cs).map (fun (ds, rest) => ((natural ds : Int), rest))

/-- The exponent, if there is one. -/
def exponent : List Char → Option (Int × List Char)
  | 'e' :: rest => signedExponent rest
  | 'E' :: rest => signedExponent rest
  | cs => some (0, cs)

/-- `m` times ten to the power of `e`. -/
def scaled (m e : Int) : Rat := mkRat (m * (10 : Int) ^ e.toNat) (10 ^ (-e).toNat)

/-- A number without its sign: digits, and the power of ten they are multiplied with. -/
def magnitude (cs : List Char) : Option (Nat × Int × List Char) :=
  match wholePart cs with
  | none => none
  | some (whole, cs) =>
    match fraction cs with
    | none => none
    | some (part, cs) =>
      match exponent cs with
      | none => none
      | some (e, cs) => some (natural (whole ++ part), e - part.length, cs)

/-- A number with its sign. -/
def number : List Char → Option (Json × List Char)
  | '-' :: rest => (magnitude rest).map (fun (m, e, rest) => (.number (scaled (-(m : Int)) e), rest))
  | cs => (magnitude cs).map (fun (m, e, rest) => (.number (scaled m e), rest))

/-- What stands behind a number does not continue it. -/
def Ends (cs : List Char) : Prop :=
  ∀ c, cs.head? = some c → c.isDigit = false ∧ c ≠ '.' ∧ c ≠ 'e' ∧ c ≠ 'E'

theorem toDigits_head {n : Nat} (h : n ≠ 0) :
    ∃ d ds, Nat.toDigits 10 n = d :: ds ∧ d ≠ '0' := by
  induction n using Nat.strongRecOn with
  | ind n ih =>
    rw [Nat.toDigits_eq_if (by omega)]
    split
    · rename_i hlt
      refine ⟨_, _, rfl, ?_⟩
      interval_cases n <;> simp_all [Nat.digitChar]
    · obtain ⟨d, ds, heq, hd⟩ := ih (n / 10) (by omega) (by omega)
      exact ⟨d, ds ++ _, by rw [heq, List.cons_append], hd⟩

theorem toDigits_sign (n : Nat) :
    ∃ d ds, Nat.toDigits 10 n = d :: ds ∧ ∀ c, c.isDigit = false → d ≠ c := by
  obtain ⟨d, ds, heq⟩ := List.exists_cons_of_ne_nil (Nat.toDigits_ne_nil (n := n) (b := 10))
  have hd : d.isDigit = true :=
    Nat.isDigit_of_mem_toDigits (n := n) (b := 10) (by omega) (by omega) (by simp [heq])
  refine ⟨d, ds, heq, ?_⟩
  rintro c hc rfl
  rw [hd] at hc
  exact Bool.noConfusion hc

theorem digits_append {ds rest : List Char} (hne : ds ≠ []) (hds : ∀ d ∈ ds, d.isDigit = true)
    (h : Ends rest) : digits (ds ++ rest) = some (ds, rest) := by
  have htake : rest.takeWhile Char.isDigit = [] ∧ rest.dropWhile Char.isDigit = rest := by
    cases rest with
    | nil => exact ⟨rfl, rfl⟩
    | cons c rest => simp [(h c rfl).1]
  rw [digits, List.takeWhile_append_of_pos hds, List.dropWhile_append_of_pos hds, htake.1, htake.2,
    List.append_nil, if_neg hne]

theorem wholePart_toDigits (n : Nat) {rest : List Char} (h : Ends rest) :
    wholePart (Nat.toDigits 10 n ++ rest) = some (Nat.toDigits 10 n, rest) := by
  by_cases hn : n = 0
  · subst hn
    rfl
  · have hdigits := digits_append Nat.toDigits_ne_nil
      (fun d hd => Nat.isDigit_of_mem_toDigits (by omega) (by omega) hd : ∀ d ∈ Nat.toDigits 10 n, _) h
    obtain ⟨d, ds, heq, hd⟩ := toDigits_head hn
    rw [heq] at hdigits ⊢
    rw [List.cons_append, wholePart]
    · exact hdigits
    · intro rest' hzero
      exact hd (List.cons.inj hzero).1

theorem magnitude_toDigits (n : Nat) {rest : List Char} (h : Ends rest) :
    magnitude (Nat.toDigits 10 n ++ rest) = some (n, 0, rest) := by
  have hfraction : fraction rest = some ([], rest) := by
    rw [fraction]
    rintro rest' rfl
    exact (h _ rfl).2.1 rfl
  have hexponent : exponent rest = some (0, rest) := by
    rw [exponent]
    · rintro rest' rfl
      exact (h _ rfl).2.2.1 rfl
    · rintro rest' rfl
      exact (h _ rfl).2.2.2 rfl
  simp [magnitude, wholePart_toDigits n h, hfraction, hexponent, natural,
    Nat.ofDigitChars_ten_toDigits]

/-! ### Strings -/

def hexDigit? (c : Char) : Option Nat :=
  if '0' ≤ c ∧ c ≤ '9' then some (c.toNat - 48)
  else if 'a' ≤ c ∧ c ≤ 'f' then some (c.toNat - 87)
  else if 'A' ≤ c ∧ c ≤ 'F' then some (c.toNat - 55)
  else none

/-- The number that four hexadecimal digits give. -/
def unit : List Char → Option (Nat × List Char)
  | a :: b :: c :: d :: rest =>
    match hexDigit? a, hexDigit? b, hexDigit? c, hexDigit? d with
    | some a, some b, some c, some d => some (((a * 16 + b) * 16 + c) * 16 + d, rest)
    | _, _, _, _ => none
  | _ => none

/-- The second half of a surrogate pair. -/
def lowHalf : List Char → Option (Nat × List Char)
  | '\\' :: 'u' :: rest => (unit rest).filter (fun (n, _) => 0xDC00 ≤ n && n < 0xE000)
  | _ => none

/-- The character of a `\u` escape; half of a surrogate pair alone is U+FFFD. -/
def unicode (cs : List Char) : Option (Char × List Char) :=
  match unit cs with
  | none => none
  | some (n, rest) =>
    if n < 0xD800 ∨ 0xE000 ≤ n then some (Char.ofNat n, rest)
    else if 0xDC00 ≤ n then some (Utf8.replacement, rest)
    else
      match lowHalf rest with
      | some (m, rest) => some (Char.ofNat (0x10000 + (n - 0xD800) * 0x400 + (m - 0xDC00)), rest)
      | none => some (Utf8.replacement, rest)

/-- The character of an escape, without its backslash. -/
def escaped : List Char → Option (Char × List Char)
  | '"' :: rest => some ('"', rest)
  | '\\' :: rest => some ('\\', rest)
  | '/' :: rest => some ('/', rest)
  | 'b' :: rest => some (Char.ofNat 0x08, rest)
  | 'f' :: rest => some (Char.ofNat 0x0C, rest)
  | 'n' :: rest => some ('\n', rest)
  | 'r' :: rest => some ('\r', rest)
  | 't' :: rest => some ('\t', rest)
  | 'u' :: rest => unicode rest
  | _ => none

theorem hexDigit?_hexDigit (n : Nat) : hexDigit? (Quoted.hexDigit n) = some (n % 16) := by
  have hlt : n % 16 < 16 := Nat.mod_lt n (by omega)
  rw [Quoted.hexDigit]
  generalize n % 16 = k at hlt
  interval_cases k <;> rfl

theorem unit_hex {n : Nat} (h : n < 0x10000) (rest : List Char) :
    unit (Quoted.hex 4 n ++ rest) = some (n, rest) := by
  simp only [Quoted.hex, List.nil_append, List.cons_append, unit, hexDigit?_hexDigit,
    Option.some.injEq, Prod.mk.injEq, and_true]
  omega

theorem unicode_hex {c : Char} (h : c.toNat < 0xD800) (rest : List Char) :
    unicode (Quoted.hex 4 c.toNat ++ rest) = some (c, rest) := by
  rw [unicode, unit_hex (by omega)]
  simp [h, Char.ofNat_toNat]

/-- One character of a string. Control characters have to be escaped. -/
def symbol : List Char → Option (Char × List Char)
  | [] => none
  | '\\' :: rest => escaped rest
  | c :: rest => if c.toNat < 0x20 then none else some (c, rest)

/-- The characters up to the closing quote; there are fewer than `bound`. -/
def body : Nat → List Char → Option (List Char × List Char)
  | 0, _ => none
  | _ + 1, '"' :: rest => some ([], rest)
  | bound + 1, cs =>
    match symbol cs with
    | none => none
    | some (c, rest) => (body bound rest).map (fun (s, rest) => (c :: s, rest))

/-- The characters of a string whose opening quote was read. -/
def string (cs : List Char) : Option (List Char × List Char) := body cs.length cs

/-! ### Values -/

mutual

/-- A value, with what stands behind it; reading it takes no more than `bound` nested steps. -/
def value : (bound : Nat) → List Char → Option (Json × List Char)
  | 0, _ => none
  | bound + 1, cs =>
    match skipBlanks cs with
    | 'n' :: 'u' :: 'l' :: 'l' :: rest => some (.null, rest)
    | 't' :: 'r' :: 'u' :: 'e' :: rest => some (.bool true, rest)
    | 'f' :: 'a' :: 'l' :: 's' :: 'e' :: rest => some (.bool false, rest)
    | '"' :: rest => (string rest).map (fun (s, rest) => (.string s, rest))
    | '[' :: rest =>
      match skipBlanks rest with
      | ']' :: rest => some (.array [], rest)
      | _ => (items bound rest).map (fun (vs, rest) => (.array vs, rest))
    | '\x7b' :: rest =>
      match skipBlanks rest with
      | '\x7d' :: rest => some (.object [], rest)
      | _ => (fields bound rest).map (fun (fs, rest) => (.object fs, rest))
    | cs => number cs

/-- The items of an array up to its bracket. -/
def items : (bound : Nat) → List Char → Option (List Json × List Char)
  | 0, _ => none
  | bound + 1, cs =>
    match value bound cs with
    | none => none
    | some (v, rest) =>
      match skipBlanks rest with
      | ']' :: rest => some ([v], rest)
      | ',' :: rest => (items bound rest).map (fun (vs, rest) => (v :: vs, rest))
      | _ => none

/-- The fields of an object up to its brace. -/
def fields : (bound : Nat) → List Char → Option (List (List Char × Json) × List Char)
  | 0, _ => none
  | bound + 1, cs =>
    match skipBlanks cs with
    | '"' :: rest =>
      match string rest with
      | none => none
      | some (k, rest) =>
        match skipBlanks rest with
        | ':' :: rest =>
          match value bound rest with
          | none => none
          | some (v, rest) =>
            match skipBlanks rest with
            | '\x7d' :: rest => some ([(k, v)], rest)
            | ',' :: rest => (fields bound rest).map (fun (fs, rest) => ((k, v) :: fs, rest))
            | _ => none
        | _ => none
    | _ => none

end

theorem skipBlanks_cons {c : Char} (h : isBlank c = false) (cs : List Char) :
    skipBlanks (c :: cs) = c :: cs := by
  simp [skipBlanks, h]

theorem skipBlanks_append {bs : List Char} (h : ∀ c ∈ bs, isBlank c = true) (cs : List Char) :
    skipBlanks (bs ++ cs) = skipBlanks cs :=
  List.dropWhile_append_of_pos h

theorem value_append {bs : List Char} (h : ∀ c ∈ bs, isBlank c = true) (bound : Nat)
    (cs : List Char) : value bound (bs ++ cs) = value bound cs := by
  cases bound with
  | zero => rfl
  | succ bound => rw [value, value, skipBlanks_append h]

theorem value_of_number {c : Char} (hblank : isBlank c = false)
    (h : c ∉ ['n', 't', 'f', '"', '[', '\x7b']) (bound : Nat) (cs : List Char) :
    value (bound + 1) (c :: cs) = number (c :: cs) := by
  rw [value, skipBlanks_cons hblank]
  split
  case h_7 => rfl
  all_goals
    rename_i heq
    rw [(List.cons.inj heq).1] at h
    simp at h

theorem value_toDigits (n bound : Nat) {rest : List Char} (h : Ends rest) :
    value (bound + 1) (Nat.toDigits 10 n ++ rest) = some (.ofNat n, rest) := by
  have hmagnitude := magnitude_toDigits n h
  obtain ⟨d, ds, heq, hother⟩ := toDigits_sign n
  have hblank : isBlank d = false := by simp [isBlank, hother]
  have hsign : d ∉ ['n', 't', 'f', '"', '[', '\x7b'] := by simp [hother]
  rw [heq, List.cons_append] at hmagnitude ⊢
  rw [value_of_number hblank hsign, number]
  · simp [hmagnitude, scaled, Json.ofNat]
  · intro rest' hminus
    exact hother '-' rfl (List.cons.inj hminus).1

/-- The value of a document in UTF-8. -/
def read (doc : Bytes) : Option Json :=
  if Utf8.valid doc then
    match value (2 * doc.length) (Utf8.decode doc) with
    | some (v, rest) => if skipBlanks rest = [] then some v else none
    | none => none
  else none

end JsonText

end DartReach
