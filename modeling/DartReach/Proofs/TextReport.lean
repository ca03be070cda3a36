import DartReach.Proofs.ByteOrder
import DartReach.Proofs.ByteRuns
import DartReach.Proofs.Delivery
import DartReach.Proofs.Utf8Codec

/-!
# The text report is read in one way

Nothing in the text report is escaped, and a path may look like a heading or like a count. But every path
is a line that is not empty, and an empty line closes each list of paths: so the bytes tell where the
lists end, and what was printed can be cut off piece by piece from the left.
-/

namespace DartReach

set_option autoImplicit false

open Bytes (newline)

/-! ### Counts -/

theorem decimal_injective {m n : Nat} (h : decimal m = decimal n) : m = n := by
  have hdigits := congrArg Utf8.decode h
  rw [decimal, decimal, Utf8.decode_encode, Utf8.decode_encode] at hdigits
  have hnumber := congrArg (Nat.ofDigitChars 10 · 0) hdigits
  simpa only [Nat.ofDigitChars_ten_toDigits] using hnumber

theorem newline_not_mem_decimal (n : Nat) : newline ∉ decimal n := by
  intro h
  rw [decimal, encode, List.mem_flatMap] at h
  obtain ⟨c, hc, hbyte⟩ := h
  have hdigit : c.isDigit = true := Nat.isDigit_of_mem_toDigits (by omega) (by omega) hc
  have hrange : 0x30 ≤ c.toNat ∧ c.toNat ≤ 0x39 := by
    simp only [Char.isDigit, Bool.and_eq_true, decide_eq_true_eq] at hdigit
    exact hdigit
  rw [Utf8.encodeChar_of_ascii (by omega), List.mem_singleton] at hbyte
  have hnat : (0x0A : UInt8).toNat = (UInt8.ofNat c.toNat).toNat := congrArg UInt8.toNat hbyte
  rw [Utf8.toNat_byte (by omega)] at hnat
  change 0x0A = c.toNat at hnat
  omega

namespace Result

/-! ### Lines -/

theorem line_append (x rest : Bytes) : line x ++ rest = x ++ newline :: rest := by
  rw [line, List.append_assoc, List.singleton_append]

theorem line_unique {x y rest rest' : Bytes} (hx : newline ∉ x) (hy : newline ∉ y)
    (h : line x ++ rest = line y ++ rest') : x = y ∧ rest = rest' := by
  rw [line_append, line_append] at h
  have hrun : ∀ {z : Bytes}, newline ∉ z → ∀ b ∈ z, b ≠ newline := by
    intro z hz b hb heq
    exact hz (heq ▸ hb)
  obtain ⟨heq, _, hrest⟩ := run_unique (p := (· ≠ newline)) (hrun hx) (hrun hy)
    (not_not_intro rfl) (not_not_intro rfl) h
  exact ⟨heq, hrest⟩

theorem count_unique {label rest rest' : Bytes} {m n : Nat}
    (h : label ++ line (decimal m) ++ rest = label ++ line (decimal n) ++ rest') :
    m = n ∧ rest = rest' := by
  rw [List.append_assoc, List.append_assoc, List.append_cancel_left_eq] at h
  obtain ⟨hdecimal, hrest⟩ :=
    line_unique (newline_not_mem_decimal m) (newline_not_mem_decimal n) h
  exact ⟨decimal_injective hdecimal, hrest⟩

/-- Paths that can stand on lines of their own. -/
def Listable (paths : List Bytes) : Prop := ∀ p ∈ paths, p ≠ [] ∧ newline ∉ p

/-- What closes a list of paths: the end of the text, or an empty line. -/
def Closes (rest : Bytes) : Prop := ∀ b ∈ rest.head?, b = newline

theorem Closes.not_line {rest more x : Bytes} (h : Closes rest) (hne : x ≠ [])
    (hx : newline ∉ x) : rest ≠ line x ++ more := by
  rintro rfl
  cases x with
  | nil => exact hne rfl
  | cons b x => exact hx (h b rfl ▸ List.mem_cons_self)

theorem lines_unique {xs ys : List Bytes} {rest rest' : Bytes} (hxs : Listable xs)
    (hys : Listable ys) (hrest : Closes rest) (hrest' : Closes rest')
    (h : (xs.map line).flatten ++ rest = (ys.map line).flatten ++ rest') :
    xs = ys ∧ rest = rest' := by
  induction xs generalizing ys with
  | nil =>
    cases ys with
    | nil => exact ⟨rfl, h⟩
    | cons y ys =>
      obtain ⟨hne, hy⟩ := hys y List.mem_cons_self
      rw [List.map_cons, List.flatten_cons, List.append_assoc] at h
      exact absurd h (hrest.not_line hne hy)
  | cons x xs ih =>
    obtain ⟨hne, hx⟩ := hxs x List.mem_cons_self
    cases ys with
    | nil =>
      rw [List.map_cons, List.flatten_cons, List.append_assoc] at h
      exact absurd h.symm (hrest'.not_line hne hx)
    | cons y ys =>
      rw [List.map_cons, List.map_cons, List.flatten_cons, List.flatten_cons, List.append_assoc,
        List.append_assoc] at h
      obtain ⟨hxy, hmore⟩ := line_unique hx (hys y List.mem_cons_self).2 h
      obtain ⟨hsame, hclosing⟩ := ih (fun p hp => hxs p (List.mem_cons_of_mem x hp))
        (fun p hp => hys p (List.mem_cons_of_mem y hp)) hmore
      exact ⟨by rw [hxy, hsame], hclosing⟩

/-! ### The whole report -/

variable {res res' : Result}

theorem closes_usedHeading (rest : Bytes) : Closes (text "\n--- Used Files ---\n" ++ rest) := by
  rintro b hb
  cases hb
  rfl

theorem closes_warning (res : Result) : Closes res.warningPieces.flatten := by
  rw [warningPieces]
  split
  · rintro b hb
    cases hb
    rfl
  · rintro b hb
    cases hb

theorem warning_unique (h : res.warningPieces.flatten = res'.warningPieces.flatten) :
    res.reach.noEntryPoints = res'.reach.noEntryPoints ∧
      (res.reach.noEntryPoints = true →
        Bytes.join (text ", ") res.report.missingEntryPoints =
          Bytes.join (text ", ") res'.report.missingEntryPoints) := by
  have hfull : ∀ r : Result, r.warningPieces.flatten = [] ↔ r.reach.noEntryPoints = false := by
    intro r
    cases hno : r.reach.noEntryPoints with
    | false => simp [warningPieces, hno]
    | true => simp [warningPieces, hno, text, encode]
  cases hno : res.reach.noEntryPoints with
  | false =>
    rw [(hfull res).mpr hno] at h
    exact ⟨((hfull res').mp h.symm).symm, fun htrue => absurd htrue Bool.false_ne_true⟩
  | true =>
    have hno' : res'.reach.noEntryPoints = true := by
      by_contra hfalse
      rw [Bool.not_eq_true, ← hfull, ← h, hfull, hno] at hfalse
      cases hfalse
    refine ⟨hno'.symm, fun _ => ?_⟩
    simpa [warningPieces, hno, hno'] using h

theorem flatten_textPieces (res : Result) :
    res.textPieces.flatten =
      text "Total Dart files found: " ++ line (decimal res.report.total) ++
      (text "Reachable files: " ++ line (decimal res.report.reachable) ++
      (text "Unused files: " ++ line (decimal res.report.unused) ++
      ([newline] ++ text "--- Unused Files ---\n" ++
      ((res.report.unusedFiles.map line).flatten ++
      (text "\n--- Used Files ---\n" ++
      ((res.report.usedFiles.map line).flatten ++ res.warningPieces.flatten)))))) := by
  simp [textPieces]

/--
Results that are printed as the same text have the same counts, the same lists of files, and the same
warning, whatever their paths look like, as long as every path is a line.
-/
theorem printText_unambiguous (hunused : Listable res.report.unusedFiles)
    (hused : Listable res.report.usedFiles) (hunused' : Listable res'.report.unusedFiles)
    (hused' : Listable res'.report.usedFiles)
    (hsame : (res.printText Sink.unlimited).1.written =
      (res'.printText Sink.unlimited).1.written) :
    res.report.total = res'.report.total ∧ res.report.reachable = res'.report.reachable ∧
      res.report.unused = res'.report.unused ∧
      res.report.unusedFiles = res'.report.unusedFiles ∧
      res.report.usedFiles = res'.report.usedFiles ∧
      res.reach.noEntryPoints = res'.reach.noEntryPoints ∧
      (res.reach.noEntryPoints = true →
        Bytes.join (text ", ") res.report.missingEntryPoints =
          Bytes.join (text ", ") res'.report.missingEntryPoints) := by
  rw [written_printText, written_printText, flatten_textPieces, flatten_textPieces] at hsame
  obtain ⟨htotal, hsame⟩ := count_unique hsame
  obtain ⟨hreachable, hsame⟩ := count_unique hsame
  obtain ⟨hcount, hsame⟩ := count_unique hsame
  rw [List.append_cancel_left_eq] at hsame
  obtain ⟨hunusedFiles, hsame⟩ :=
    lines_unique hunused hunused' (closes_usedHeading _) (closes_usedHeading _) hsame
  rw [List.append_cancel_left_eq] at hsame
  obtain ⟨husedFiles, hsame⟩ :=
    lines_unique hused hused' (closes_warning res) (closes_warning res') hsame
  exact ⟨htotal, hreachable, hcount, hunusedFiles, husedFiles, warning_unique hsame⟩

/-! ### Paths that look like the report -/

/-- A result with paths that look like parts of the report. -/
def imitating (root : Bytes) : Result where
  libRoot := root
  files := [root ++ text "/--- Used Files ---", root ++ text "/Reachable files: 7"]
  graph := []
  failures := []
  bytes := 0
  reach := ⟨[], [root ++ text "/main.dart"], [],
    [root ++ text "/--- Used Files ---", root ++ text "/Reachable files: 7"]⟩

theorem report_imitating {root : Bytes} (h : root = text "/a" ∨ root = text "/b") :
    (imitating root).report =
      ⟨2, 0, 2, Bytes.sort [], Bytes.sort [text "main.dart"],
        Bytes.sort [text "--- Used Files ---", text "Reachable files: 7"], Bytes.sort [], []⟩ := by
  have hunused : (imitating root).reach.unused.map (Path.relativeOrSame root) =
      [text "--- Used Files ---", text "Reachable files: 7"] := by
    rcases h with rfl | rfl <;> decide +kernel
  have hmissing : (imitating root).reach.missing.map (Path.relativeOrSame root) =
      [text "main.dart"] := by
    rcases h with rfl | rfl <;> decide +kernel
  rw [← hunused, ← hmissing]
  rfl

theorem printText_unambiguous_imitated :
    text "--- Used Files ---" ∈ (imitating (text "/a")).report.unusedFiles ∧
      (imitating (text "/a")).report.unusedFiles = (imitating (text "/b")).report.unusedFiles ∧
      (imitating (text "/a")).reach.noEntryPoints = (imitating (text "/b")).reach.noEntryPoints := by
  have ha := report_imitating (.inl (Eq.refl (text "/a")))
  have hb := report_imitating (.inr (Eq.refl (text "/b")))
  have hunused : Listable
      (Bytes.sort [text "--- Used Files ---", text "Reachable files: 7"]) := by
    intro p hp
    rw [Bytes.mem_sort, List.mem_cons, List.mem_singleton] at hp
    rcases hp with rfl | rfl <;> decide +kernel
  have hused : Listable (Bytes.sort []) := by
    intro p hp
    cases Bytes.mem_sort.mp hp
  have hsame : ((imitating (text "/a")).printText Sink.unlimited).1.written =
      ((imitating (text "/b")).printText Sink.unlimited).1.written := by
    have hno : ∀ root, (imitating root).reach.noEntryPoints = true := fun _ => rfl
    rw [written_printText, written_printText, textPieces, textPieces, warningPieces, warningPieces,
      ha, hb, hno, hno]
  obtain ⟨_, _, _, hfiles, _, hwarning, _⟩ := printText_unambiguous (by rwa [ha]) (by rwa [ha])
    (by rwa [hb]) (by rwa [hb]) hsame
  refine ⟨?_, hfiles, hwarning⟩
  rw [ha, Bytes.mem_sort]
  exact List.mem_cons_self

end Result

end DartReach
