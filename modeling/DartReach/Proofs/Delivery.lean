import DartReach.Analysis
import DartReach.Proofs.FileWriting

/-!
# Whether a report arrives

A report is one text, in whatever pieces and through whatever buffer it is printed: an empty sink takes the
whole text if it has room for it, and is filled up by its beginning otherwise. So a report is delivered if
there is room for its text where it goes, be it the terminal or a file.
-/

namespace DartReach

set_option autoImplicit false

namespace Sink

/-- A sink has room for `k` bytes in all. -/
def Holds (s : Sink) (k : Nat) : Prop := ∀ n, s.limit = some n → k ≤ n

theorem holds_unlimited (k : Nat) : unlimited.Holds k := by
  simp [Holds, unlimited]

theorem holds_or_limited (s : Sink) (k : Nat) : s.Holds k ∨ ∃ n, s.limit = some n ∧ n < k := by
  cases hl : s.limit with
  | none => exact .inl (fun n hn => by simp [hl] at hn)
  | some n =>
    by_cases hle : k ≤ n
    · refine .inl fun m hm => ?_
      rw [hl, Option.some.injEq] at hm
      omega
    · exact .inr ⟨n, rfl, by omega⟩

theorem write_of_holds {s : Sink} {bytes : Bytes} (h : s.Holds (s.written ++ bytes).length) :
    s.write bytes = ({ s with written := s.written ++ bytes }, true) := by
  rw [write]
  split
  · rfl
  · rename_i n hn
    have hle := h n hn
    rw [List.length_append] at hle
    rw [if_pos hle]

theorem write_of_limited {s : Sink} {bytes : Bytes} {n : Nat} (hn : s.limit = some n)
    (hlt : n < (s.written ++ bytes).length) :
    s.write bytes = ({ s with written := s.written ++ bytes.take (n - s.written.length) }, false) := by
  rw [List.length_append] at hlt
  simp only [write]
  split
  · rename_i hnone
    simp [hnone] at hn
  · rename_i m hm
    rw [hm, Option.some.injEq] at hn
    subst hn
    rw [if_neg (by omega)]

end Sink

namespace Buffered

/--
What has become of `all` bytes written through a buffer before an empty sink. They are in the sink or still
pending; or there were too many, and the sink is filled up by the first of them.
-/
inductive Tracks (limit : Option Nat) (all : Bytes) (b : Buffered) : Prop where
  | going (sameLimit : b.sink.limit = limit) (sound : b.failed = false)
      (complete : b.sink.written ++ b.pending = all) (room : b.sink.Holds b.sink.written.length)
  | stuck (sameLimit : b.sink.limit = limit) (failed : b.failed = true) (n : Nat)
      (limited : limit = some n) (short : n < all.length) (full : b.sink.written = all.take n)

variable {limit : Option Nat} {all : Bytes} {b : Buffered}

theorem Tracks.of_failed (h : Tracks limit all b) (hfailed : b.failed = true) (bytes : Bytes) :
    Tracks limit (all ++ bytes) b := by
  cases h with
  | going _ sound => simp [sound] at hfailed
  | stuck sameLimit failed n limited short full =>
    refine .stuck sameLimit failed n limited ?_ ?_
    · rw [List.length_append]
      omega
    · rw [full, List.take_append_of_le_length (by omega)]

theorem pending_pass (b : Buffered) (bytes : Bytes) : (b.pass bytes).pending = [] := rfl

theorem tracks_pass (hlimit : b.sink.limit = limit) (hroom : b.sink.Holds b.sink.written.length)
    (bytes : Bytes) : Tracks limit (b.sink.written ++ bytes) (b.pass bytes) := by
  rw [pass]
  rcases b.sink.holds_or_limited (b.sink.written ++ bytes).length with hholds | ⟨n, hn, hlt⟩
  · rw [Sink.write_of_holds hholds]
    exact .going hlimit rfl (by simp) hholds
  · rw [Sink.write_of_limited hn hlt]
    refine .stuck hlimit rfl n (hlimit ▸ hn) hlt ?_
    rw [List.take_append, List.take_of_length_le (hroom n hn)]

theorem Tracks.refill (h : Tracks limit all b) (hempty : b.pending = []) (bytes : Bytes) :
    Tracks limit (all ++ bytes) (b.refill bytes) := by
  rw [Buffered.refill]
  split
  · rename_i hfailed
    exact h.of_failed hfailed bytes
  rename_i hsound
  cases h with
  | stuck _ failed => exact absurd failed hsound
  | going sameLimit sound complete room =>
    rw [hempty, List.append_nil] at complete
    subst complete
    split
    · exact .going sameLimit sound rfl room
    · exact tracks_pass sameLimit room bytes

theorem Tracks.write (h : Tracks limit all b) (bytes : Bytes) :
    Tracks limit (all ++ bytes) (b.write bytes) := by
  rw [Buffered.write]
  split
  · rename_i hfailed
    exact h.of_failed hfailed bytes
  rename_i hsound
  cases h with
  | stuck _ failed => exact absurd failed hsound
  | going sameLimit sound complete room =>
    subst complete
    split
    · exact .going sameLimit sound (by simp) room
    split
    · rename_i hempty
      rw [List.isEmpty_iff] at hempty
      rw [hempty, List.append_nil]
      exact tracks_pass sameLimit room bytes
    · have hpass := tracks_pass sameLimit room
        (b.pending ++ bytes.take (blockSize - b.pending.length))
      have hrest := hpass.refill (pending_pass _ _) (bytes.drop (blockSize - b.pending.length))
      rw [← List.append_assoc, List.append_assoc, List.take_append_drop] at hrest
      exact hrest

theorem Tracks.foldl_write (h : Tracks limit all b) (pieces : List Bytes) :
    Tracks limit (all ++ pieces.flatten) (pieces.foldl Buffered.write b) := by
  induction pieces generalizing b all with
  | nil => simpa using h
  | cons piece pieces ih =>
    rw [List.flatten_cons, ← List.append_assoc]
    exact ih (h.write piece)

theorem Tracks.flush (h : Tracks limit all b) :
    Tracks limit all b.flush ∧ (b.flush.failed = false → b.flush.pending = []) := by
  rw [Buffered.flush]
  split
  · rename_i hstop
    refine ⟨h, fun hsound => ?_⟩
    simpa [hsound] using hstop
  · rename_i hgo
    rw [Bool.or_eq_true, not_or] at hgo
    cases h with
    | stuck _ failed => exact absurd failed hgo.1
    | going sameLimit sound complete room =>
      exact ⟨complete ▸ tracks_pass sameLimit room b.pending, fun _ => rfl⟩

end Buffered

/-- What an empty sink stores of a text, and what is said of it. -/
structure Sink.Receives (s : Sink) (all : Bytes) (out : Sink × Except WriteError Unit) : Prop where
  whole : s.Holds all.length → out.1.written = all ∧ out.2 = .ok ()
  cut : ∀ n, s.limit = some n → n < all.length →
    out.1.written = all.take n ∧ out.2 = .error ⟨s.refusal⟩

namespace Result

theorem receives_printText (res : Result) {sink : Sink} (hempty : sink.written = []) :
    sink.Receives res.textPieces.flatten (res.printText sink) := by
  have hstart : Buffered.Tracks sink.limit [] (Buffered.start sink) :=
    .going rfl rfl (by simp [Buffered.start, hempty])
      (by simp [Sink.Holds, Buffered.start, hempty])
  obtain ⟨hend, hpending⟩ := (hstart.foldl_write res.textPieces).flush
  rw [List.nil_append] at hend
  rw [printText]
  cases hend with
  | going sameLimit sound complete room =>
    rw [hpending sound, List.append_nil] at complete
    rw [Sink.Holds, sameLimit, complete] at room
    constructor
    · intro _
      simp [sound, complete]
    · intro n hn hlt
      have := room n hn
      omega
  | stuck sameLimit failed n limited short full =>
    constructor
    · intro hholds
      have := hholds n limited
      omega
    · intro m hm _
      rw [limited, Option.some.injEq] at hm
      subst hm
      simp [failed, full]

theorem written_printText (res : Result) :
    (res.printText Sink.unlimited).1.written = res.textPieces.flatten :=
  ((res.receives_printText rfl).whole (Sink.holds_unlimited _)).1

/--
A sink with room for `n` bytes takes the whole text report if it is no longer than that, and otherwise the
first `n` bytes of it and nothing more. The second case is always an error, although only the last flush
is looked at.
-/
theorem printText_whole_or_cut (res : Result) (n : Nat) (refusal : SinkError) :
    let unlimited := res.printText Sink.unlimited
    let limited := res.printText ⟨[], some n, refusal⟩
    unlimited.1.written = res.textPieces.flatten ∧ unlimited.2 = .ok () ∧
      (unlimited.1.written.length ≤ n →
        limited.1.written = unlimited.1.written ∧ limited.2 = .ok ()) ∧
      (n < unlimited.1.written.length →
        limited.1.written = unlimited.1.written.take n ∧
        ∃ e, limited.2 = .error e ∧ e.message = text "failed to write report: " ++ refusal.message) := by
  intro unlimited limited
  have htext : unlimited.1.written = res.textPieces.flatten := res.written_printText
  have hall := res.receives_printText (show Sink.unlimited.written = [] from rfl)
  have hsome := @receives_printText res ⟨[], some n, refusal⟩ rfl
  rw [htext]
  refine ⟨rfl, (hall.whole (Sink.holds_unlimited _)).2, ?_, ?_⟩
  · intro hle
    apply hsome.whole
    intro m hm
    cases hm
    exact hle
  · intro hlt
    obtain ⟨hcut, herror⟩ := hsome.cut n rfl hlt
    exact ⟨hcut, _, herror, rfl⟩

/-- A result with more lines than a block has bytes. -/
def crowded : Result where
  libRoot := text "/lib"
  files := []
  graph := []
  failures := []
  bytes := 0
  reach := ⟨[], [], [], List.replicate 5000 (text "/lib/a.dart")⟩

theorem length_le_flatten_lines (paths : List Bytes) : paths.length ≤ (paths.map line).flatten.length := by
  induction paths with
  | nil => simp
  | cons path paths ih =>
    rw [List.map_cons, List.flatten_cons, List.length_append, List.length_cons, line, List.length_append,
      List.length_singleton]
    omega

theorem printText_whole_or_cut_block :
    let limited := crowded.printText ⟨[], some Buffered.blockSize, .full⟩
    limited.1.written = (crowded.printText Sink.unlimited).1.written.take Buffered.blockSize ∧
      ∃ e, limited.2 = .error e ∧ e.message = text "failed to write report: writer is full" := by
  have hlines : 5000 ≤ (crowded.report.unusedFiles.map line).flatten.length := by
    have hcount : crowded.report.unusedFiles.length = 5000 := by
      simp only [report, relativePaths, Bytes.sort, List.length_mergeSort, List.length_map]
      exact List.length_replicate
    have hle := length_le_flatten_lines crowded.report.unusedFiles
    omega
  have hlong : Buffered.blockSize < (crowded.printText Sink.unlimited).1.written.length := by
    rw [written_printText, textPieces, Buffered.blockSize]
    simp only [List.flatten_append, List.length_append]
    omega
  exact (printText_whole_or_cut crowded Buffered.blockSize .full).2.2.2 hlong

theorem receives_printJson (res : Result) {sink : Sink} (hempty : sink.written = []) :
    sink.Receives (res.report.toJson.render 0 ++ [Bytes.newline]) (res.printJson sink) := by
  rw [printJson]
  constructor
  · intro hholds
    rw [Sink.write_of_holds (by rwa [hempty])]
    simp [hempty]
  · intro n hn hlt
    rw [Sink.write_of_limited hn (by rwa [hempty])]
    simp [hempty]

end Result

namespace Analysis

/-- The whole text of a report. -/
def reportText (format : Bytes) (res : Result) : Bytes :=
  if format = AnalysisOptions.jsonFormat then res.report.toJson.render 0 ++ [Bytes.newline]
  else res.textPieces.flatten

theorem receives_printReport (format : Bytes) (res : Result) {sink : Sink}
    (hempty : sink.written = []) :
    sink.Receives (reportText format res) (printReport format res sink) := by
  rw [reportText, printReport]
  split
  · exact res.receives_printJson hempty
  · exact res.receives_printText hempty

theorem written_sinkOf (path : Bytes) (m : Medium) : (sinkOf path m).written = [] := by
  unfold sinkOf
  split
  · rfl
  · rfl

/-- The error of a report that is lost at a call after the first. -/
def lost (path : Bytes) : Call × Cause → AnalysisError
  | (.close, cause) => .close ⟨.close, path, cause⟩
  | (call, cause) => .write ⟨.system ⟨call, path, cause⟩⟩

/-- An opened file keeps of a report what its medium keeps of the text. -/
theorem saveReport_of_create {host opened : Host} {options : AnalysisOptions} {res : Result} {slot : Slot}
    (h : host.create options.output = .ok (slot, opened)) :
    saveReport host options res =
      (host.fill slot (reportText options.format res),
        match (host.medium slot).fault? (reportText options.format res) with
        | some fault => .error (lost options.output fault)
        | none => .ok ()) := by
  have hprint := receives_printReport options.format res
    (written_sinkOf options.output (host.medium slot))
  unfold saveReport
  rw [h, ← Host.fill_of_create h]
  dsimp only
  rw [Host.medium_of_create h, Host.fill, Host.medium_of_create h, Medium.kept, Medium.fault?]
  cases hlimit : (host.medium slot).limit? with
  | none =>
    have hsink : sinkOf options.output (host.medium slot) = Sink.unlimited := by
      rw [sinkOf, hlimit]
    rw [hsink] at hprint ⊢
    obtain ⟨hwritten, hok⟩ := hprint.whole (Sink.holds_unlimited _)
    rw [hwritten, hok]
    cases (host.medium slot).closing? with
    | none => rfl
    | some cause => rfl
  | some limit =>
    obtain ⟨room, cause⟩ := limit
    have hsink : sinkOf options.output (host.medium slot) =
        ⟨[], some room, .system ⟨.write, options.output, cause⟩⟩ := by
      rw [sinkOf, hlimit]
    rw [hsink] at hprint ⊢
    dsimp only
    by_cases hlt : room < (reportText options.format res).length
    · obtain ⟨hwritten, herror⟩ := hprint.cut room rfl hlt
      rw [hwritten, herror, if_pos hlt]
      rfl
    · obtain ⟨hwritten, hok⟩ := hprint.whole (by
        intro n hn
        cases hn
        omega)
      rw [hwritten, hok, if_neg hlt, List.take_of_length_le (by omega)]
      cases (host.medium slot).closing? with
      | none => rfl
      | some cause => rfl

/-- A report that is not meant for the terminal is saved, and a summary is printed if that succeeded. -/
theorem deliver_file {host : Host} {terminal : Terminal} {options : AnalysisOptions} {res : Result}
    (hterm : options.output ≠ AnalysisOptions.terminal) :
    (deliver host terminal options res).1 = (saveReport host options res).1 ∧
      (deliver host terminal options res).2.2 = (saveReport host options res).2 ∧
        ((saveReport host options res).2 ≠ .ok () → (deliver host terminal options res).2.1 = []) := by
  rw [deliver, if_neg hterm]
  split
  · rename_i heq
    simp [heq]
  · rename_i heq
    simp [heq]

/-- A report for the terminal arrives there if there is room for it. -/
theorem deliver_terminal {host : Host} {terminal : Terminal} {options : AnalysisOptions} {res : Result}
    (hterm : options.output = AnalysisOptions.terminal)
    (hroom : terminal.sink.Holds (reportText options.format res).length) :
    deliver host terminal options res = (host, reportText options.format res, .ok ()) := by
  obtain ⟨hwritten, hok⟩ :=
    (receives_printReport options.format res (show terminal.sink.written = [] from rfl)).whole hroom
  rw [deliver, if_pos hterm]
  split
  · rename_i heq
    rw [heq] at hwritten
    rw [hwritten]
  · rename_i heq
    simp [heq] at hok

/-- A terminal with too little room is filled up by the beginning of the report. -/
theorem deliver_terminal_cut {host : Host} {terminal : Terminal} {options : AnalysisOptions} {res : Result}
    (hterm : options.output = AnalysisOptions.terminal) {room : Nat} (hlimit : terminal.limit = some room)
    (hlt : room < (reportText options.format res).length) :
    deliver host terminal options res =
      (host, (reportText options.format res).take room, .error (.write ⟨terminal.refusal⟩)) := by
  obtain ⟨hwritten, herror⟩ :=
    (receives_printReport options.format res (show terminal.sink.written = [] from rfl)).cut room hlimit hlt
  rw [deliver, if_pos hterm]
  split
  · rename_i heq
    simp [heq] at herror
  · rename_i heq
    rw [heq] at hwritten herror
    cases herror
    rw [hwritten]
    rfl

/-- A text can be delivered to an output. -/
inductive Arrives (host : Host) (terminal : Terminal) (output content : Bytes) : Prop where
  | shown (isTerminal : output = AnalysisOptions.terminal) (room : terminal.sink.Holds content.length)
  | saved (isFile : output ≠ AnalysisOptions.terminal) (slot : Slot) (opened : Host)
      (created : host.create output = .ok (slot, opened))
      (sound : (host.medium slot).fault? content = none)

/-- Whether a report is delivered depends on where it goes and on the length of its text. -/
theorem deliver_ok_iff {host : Host} {terminal : Terminal} {options : AnalysisOptions} {res : Result} :
    (deliver host terminal options res).2.2 = .ok () ↔
      Arrives host terminal options.output (reportText options.format res) := by
  by_cases hterm : options.output = AnalysisOptions.terminal
  · rcases terminal.sink.holds_or_limited (reportText options.format res).length with hroom | ⟨n, hn, hlt⟩
    · rw [deliver_terminal hterm hroom]
      exact iff_of_true rfl (.shown hterm hroom)
    · rw [deliver_terminal_cut hterm hn hlt]
      refine iff_of_false (by simp) ?_
      intro h
      cases h with
      | shown _ room =>
        have hle := room n hn
        omega
      | saved isFile => exact isFile hterm
  rw [(deliver_file hterm).2.1]
  constructor
  · intro hok
    cases hcreate : host.create options.output with
    | error e => simp [saveReport, hcreate] at hok
    | ok made =>
      obtain ⟨slot, opened⟩ := made
      rw [saveReport_of_create hcreate] at hok
      cases hfault : (host.medium slot).fault? (reportText options.format res) with
      | none => exact .saved hterm slot opened hcreate hfault
      | some fault => simp [hfault] at hok
  · intro h
    cases h with
    | shown isTerminal => exact absurd isTerminal hterm
    | saved _ slot opened created sound =>
      rw [saveReport_of_create created, sound]

theorem arrives_of_endless {host : Host} {terminal : Terminal} {output : Bytes}
    (hterm : output = AnalysisOptions.terminal) (hlimit : terminal.limit = none) (content : Bytes) :
    Arrives host terminal output content := by
  apply Arrives.shown hterm
  intro n hn
  rw [show terminal.sink.limit = terminal.limit from rfl, hlimit] at hn
  cases hn

end Analysis

end DartReach
