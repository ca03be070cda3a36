import DartReach.Text.Bytes

/-!
# Import and part declarations

A plain text scan for `import '…'` and `part '…'`. It knows nothing of comments or of string
literals around a declaration: the text of a declaration counts wherever it stands. For each of the
two keywords the leftmost declaration is taken, then the leftmost one behind it, and so on.
-/

namespace DartReach.Declaration

set_option autoImplicit false

/-- White space between the keyword and the quote: tab, line feed, form feed, return and space. -/
def isBlank (b : UInt8) : Bool :=
  b == 0x09 || b == 0x0A || b == 0x0C || b == 0x0D || b == 0x20

/-- Either kind of quote; the closing one need not be of the opening kind. -/
def isQuote (b : UInt8) : Bool := b == 0x22 || b == 0x27

/-- Reads `'target'`: what stands between two quotes, and what follows the second one. -/
def quoted? : Bytes → Option (Bytes × Bytes)
  | [] => none
  | q :: s =>
    if isQuote q then
      match s.takeWhile (!isQuote ·), s.dropWhile (!isQuote ·) with
      | target@(_ :: _), _ :: rest => some (target, rest)
      | _, _ => none
    else none

/-- The declaration that starts right here: its target and what follows it. -/
def at? (word s : Bytes) : Option (Bytes × Bytes) :=
  match Bytes.after? word s with
  | none => none
  | some s => if (s.takeWhile isBlank).isEmpty then none else quoted? (s.dropWhile isBlank)

theorem length_dropWhile_le {p : UInt8 → Bool} (s : Bytes) : (s.dropWhile p).length ≤ s.length :=
  (List.dropWhile_sublist p).length_le

theorem length_after? {word s rest : Bytes} (h : Bytes.after? word s = some rest) :
    rest.length ≤ s.length := by
  induction word generalizing s with
  | nil => simp [Bytes.after?] at h; simp [h]
  | cons b word ih =>
    cases s with
    | nil => simp [Bytes.after?] at h
    | cons c s =>
      simp only [Bytes.after?] at h
      split at h
      · have := ih h
        simp only [List.length_cons]
        omega
      · simp at h

theorem length_quoted? {s target rest : Bytes} (h : quoted? s = some (target, rest)) :
    rest.length < s.length := by
  cases s with
  | nil => simp [quoted?] at h
  | cons q s =>
    simp only [quoted?] at h
    split at h
    · split at h
      · rename_i x r hr
        have hl := length_dropWhile_le (p := (!isQuote ·)) s
        rw [hr] at hl
        simp only [Option.some.injEq, Prod.mk.injEq] at h
        rw [← h.2]
        simp only [List.length_cons] at hl ⊢
        omega
      · simp at h
    · simp at h

theorem length_at? {word s target rest : Bytes} (h : at? word s = some (target, rest)) :
    rest.length < s.length := by
  unfold at? at h
  split at h
  · simp at h
  · rename_i s' hs
    split at h
    · simp at h
    · have h1 := length_after? hs
      have h2 := length_dropWhile_le (p := isBlank) s'
      have h3 := length_quoted? h
      omega

/-- Scans on, with the targets found so far in reverse order. -/
def scanOnto (word : Bytes) (found : List Bytes) (s : Bytes) : List Bytes :=
  match h : at? word s with
  | some (target, rest) =>
    have := length_at? h
    scanOnto word (target :: found) rest
  | none =>
    match s with
    | [] => found.reverse
    | _ :: s => scanOnto word found s
termination_by s.length

/-- The targets of all declarations with keyword `word`, in text order. -/
def scan (word s : Bytes) : List Bytes := scanOnto word [] s

def importWord : Bytes := text "import"

def partWord : Bytes := text "part"

/-- The targets of all imports and behind them those of all parts, each in text order. -/
def targets (content : Bytes) : List Bytes := scan importWord content ++ scan partWord content

end DartReach.Declaration
