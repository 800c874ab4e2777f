import Mathlib.Data.List.DropRight
import TinyScript.Repl

namespace TinyScript

namespace Text

variable {line rest input : Text} {ls : List Text} {b : Byte}

/-- Every line with a line break behind it. -/
def unlines (lines : List Text) : Text := lines.flatMap (· ++ [newline])

theorem lines_newline_cons (rest : Text) : lines (newline :: rest) = [] :: lines rest := by
  rw [lines, if_pos rfl]

theorem lines_cons_of_ne (other : b ≠ newline) (more : lines rest = line :: ls) :
    lines (b :: rest) = (b :: line) :: ls := by
  rw [lines, if_neg other, more]

theorem lines_append_newline (plain : newline ∉ line) (rest : Text) :
    lines (line ++ newline :: rest) = line :: lines rest := by
  induction line with
  | nil => exact lines_newline_cons rest
  | cons b line ih =>
    rw [List.mem_cons, not_or] at plain
    exact lines_cons_of_ne (Ne.symm plain.1) (ih plain.2)

/-- Bytes behind the last line break are a line too. -/
theorem lines_eq_singleton (plain : newline ∉ line) (some : line ≠ []) : lines line = [line] := by
  induction line with
  | nil => exact absurd rfl some
  | cons b line ih =>
    rw [List.mem_cons, not_or] at plain
    match line with
    | [] => rw [lines, if_neg (Ne.symm plain.1), lines]
    | c :: line => exact lines_cons_of_ne (Ne.symm plain.1) (ih plain.2 (List.cons_ne_nil c line))

theorem lines_unlines_append (plain : ∀ line ∈ ls, newline ∉ line) (rest : Text) :
    lines (unlines ls ++ rest) = ls ++ lines rest := by
  induction ls with
  | nil => rfl
  | cons line ls ih =>
    rw [List.forall_mem_cons] at plain
    calc lines (unlines (line :: ls) ++ rest)
      _ = lines (line ++ newline :: (unlines ls ++ rest)) := by simp [unlines]
      _ = line :: ls ++ lines rest := by rw [lines_append_newline plain.1, ih plain.2, List.cons_append]

theorem lines_unlines (plain : ∀ line ∈ ls, newline ∉ line) : lines (unlines ls) = ls := by
  simpa [lines] using lines_unlines_append plain []

/-- A line break at the end does not make one more line. -/
theorem lines_append_newline_of_ne (other : b ≠ newline) (input : Text) :
    lines (input ++ [b, newline]) = lines (input ++ [b]) := by
  induction input with
  | nil => simp [lines, other]
  | cons c input ih =>
    rw [List.cons_append, List.cons_append, lines, lines, ih]

end Text

namespace Repl

open Text

variable {steps : Nat} {debug : Bool} {s mid last : Session} {line leave : Text} {ls more : List Text}
  {reports former latter : List Report} {t : Transcript}

/-- The lines are run one after the other, each in the session that the one before it has left. -/
inductive Replies (steps : Nat) : Session → List Text → List Report → Session → Prop
  | none {s : Session} : Replies steps s [] [] s
  | next {s last : Session} {line : Text} {more : List Text} {report : Report} {reports : List Report}
      (run : s.run steps line filename = some report) (rest : Replies steps report.session more reports last) :
      Replies steps s (line :: more) (report :: reports) last

theorem replies_nil : Replies steps s [] reports last ↔ reports = [] ∧ last = s := by
  constructor
  · rintro ⟨⟩
    exact ⟨rfl, rfl⟩
  · rintro ⟨rfl, rfl⟩
    exact .none

theorem replies_cons : Replies steps s (line :: ls) reports last ↔ ∃ report rest,
    s.run steps line filename = some report ∧ Replies steps report.session ls rest last ∧ reports = report :: rest := by
  constructor
  · rintro (_ | ⟨run, rest⟩)
    exact ⟨_, _, run, rest, rfl⟩
  · rintro ⟨report, rest, run, replies, rfl⟩
    exact .next run replies

theorem replies_append : Replies steps s (ls ++ more) reports last ↔ ∃ former latter mid,
    Replies steps s ls former mid ∧ Replies steps mid more latter last ∧ reports = former ++ latter := by
  constructor
  · intro replies
    induction ls generalizing s reports with
    | nil => exact ⟨[], reports, s, .none, replies, rfl⟩
    | cons line ls ih =>
      obtain _ | ⟨run, rest⟩ := replies
      obtain ⟨former, latter, mid, first, second, rfl⟩ := ih rest
      exact ⟨_ :: former, latter, mid, .next run first, second, rfl⟩
  · rintro ⟨former, latter, mid, first, second, rfl⟩
    induction first with
    | none => exact second
    | next run _ ih => exact .next run (ih second)

/-- What is written to the output for a line: what it prints, its value, and the globals if `debug` asks for them. -/
def reply (debug : Bool) (report : Report) : Text :=
  report.printed ++ echo report.session report.ending.value? ++ (if debug then report.session.dump else [])

/-- What is written for lines that have been run: a prompt and a reply for each, and at last a prompt that is answered
with the farewell. -/
def transcript (debug : Bool) (reports : List Report) (last : Session) : Transcript :=
  ⟨reports.flatMap (fun report => prompt ++ reply debug report) ++ (prompt ++ farewell),
    reports.flatMap fun report => diagnosticLines report.ending.diagnostics, last⟩

theorem answer_run (w : Outputs) : (answer .keeping steps debug line s).run w =
    if isExit line then some (.done s, w)
    else (s.run steps line filename).map fun report => (.yield report.session,
      ⟨w.output ++ (reply debug report ++ prompt), w.errors ++ diagnosticLines report.ending.diagnostics⟩) := by
  unfold answer
  split
  · rfl
  · cases run : s.run steps line filename <;> simp [run, reply]

/-- The loop runs the lines up to one that asks to leave, and adds to what has been written already. -/
theorem forIn_answer {w w' : Outputs} : (forIn ls s (answer .keeping steps debug)).run w = some (last, w') ↔
    ∃ reports, Replies steps s (ls.takeWhile fun line => !isExit line) reports last ∧
      w' = ⟨w.output ++ reports.flatMap (fun report => reply debug report ++ prompt),
        w.errors ++ reports.flatMap fun report => diagnosticLines report.ending.diagnostics⟩ := by
  induction ls generalizing s w with
  | nil => simp [replies_nil, eq_comm]
  | cons line ls ih =>
    rw [List.forIn_cons, StateT.run_bind, answer_run]
    cases leaves : isExit line with
    | true => simp [leaves, replies_nil, eq_comm]
    | false =>
      cases run : s.run steps line filename with
      | none => simp [leaves, run, replies_cons]
      | some report => simp [leaves, run, replies_cons, ih]

/-- A prompt comes before the first line and behind the reply to each. -/
theorem prompt_flatMap (reports : List Report) :
    prompt ++ reports.flatMap (fun report => reply debug report ++ prompt) =
      reports.flatMap (fun report => prompt ++ reply debug report) ++ prompt := by
  induction reports with
  | nil => simp
  | cons report reports ih => simp [List.flatMap_cons, ← ih]

theorem converse_run {w w' : Outputs} : (converse .keeping steps debug s ls).run w = some (last, w') ↔
    ∃ reports, Replies steps s (ls.takeWhile fun line => !isExit line) reports last ∧
      w' = ⟨w.output ++ (transcript debug reports last).output,
        w.errors ++ (transcript debug reports last).errors⟩ := by
  have ends : (converse .keeping steps debug s ls).run w =
      ((forIn ls s (answer .keeping steps debug)).run ⟨w.output ++ prompt, w.errors⟩).bind fun ended =>
        some (ended.1, ⟨ended.2.output ++ farewell, ended.2.errors⟩) := by
    simp [converse]
  simp only [ends, Option.bind_eq_some_iff, Prod.exists, forIn_answer, Option.some.injEq, Prod.mk.injEq, transcript,
    ← List.append_assoc, ← prompt_flatMap]
  constructor
  · rintro ⟨_, _, ⟨reports, replies, rfl⟩, rfl, rfl⟩
    exact ⟨reports, replies, by simp⟩
  · rintro ⟨reports, replies, rfl⟩
    exact ⟨last, _, ⟨reports, replies, rfl⟩, rfl, by simp⟩

theorem runLines_eq_some_iff : runLines steps debug s ls = some t ↔ ∃ reports last,
    Replies steps s (ls.takeWhile fun line => !isExit line) reports last ∧ t = transcript debug reports last := by
  simp only [runLines, Option.map_eq_some_iff, Prod.exists, converse_run, List.nil_append]
  constructor
  · rintro ⟨last, _, ⟨reports, replies, rfl⟩, rfl⟩
    exact ⟨reports, last, replies, rfl⟩
  · rintro ⟨reports, last, replies, rfl⟩
    exact ⟨last, _, ⟨reports, replies, rfl⟩, rfl⟩

/-- What has been written before the loop begins makes no difference to it. -/
theorem converse_run_eq (w : Outputs) : (converse .keeping steps debug s ls).run w =
    (runLines steps debug s ls).map fun t => (t.session, ⟨w.output ++ t.output, w.errors ++ t.errors⟩) := by
  ext ⟨last, w'⟩
  rw [converse_run, Option.map_eq_some_iff]
  simp only [runLines_eq_some_iff]
  constructor
  · rintro ⟨reports, replies, rfl⟩
    exact ⟨_, ⟨reports, last, replies, rfl⟩, rfl⟩
  · rintro ⟨_, ⟨reports, last, replies, rfl⟩, same⟩
    cases same
    exact ⟨reports, replies, rfl⟩

/-- Lines behind the first one that asks to leave do not matter. -/
theorem runLines_congr (same : (ls.takeWhile fun line => !isExit line) = more.takeWhile fun line => !isExit line) :
    runLines steps debug s ls = runLines steps debug s more := by
  ext t
  rw [runLines_eq_some_iff, runLines_eq_some_iff, same]

/-- Two transcripts, the first one without its last prompt and farewell. -/
def Transcript.followedBy (first second : Transcript) : Transcript :=
  ⟨first.output.rdrop (prompt ++ farewell).length ++ second.output, first.errors ++ second.errors, second.session⟩

theorem transcript_followedBy : (transcript debug former mid).followedBy (transcript debug latter last) =
    transcript debug (former ++ latter) last := by
  rw [Transcript.followedBy, transcript, List.rdrop_append_length]
  simp [transcript]

theorem takeWhile_self (plain : ∀ line ∈ ls, isExit line = false) : (ls.takeWhile fun line => !isExit line) = ls :=
  List.takeWhile_eq_self_iff.2 fun line mem => by rw [plain line mem, Bool.not_false]

theorem takeWhile_append (plain : ∀ line ∈ ls, isExit line = false) :
    ((ls ++ more).takeWhile fun line => !isExit line) = ls ++ more.takeWhile fun line => !isExit line :=
  List.takeWhile_append_of_pos fun line mem => by rw [plain line mem, Bool.not_false]

theorem runLines_append (plain : ∀ line ∈ ls, isExit line = false) : runLines steps debug s (ls ++ more) =
    (runLines steps debug s ls).bind fun first => (runLines steps debug first.session more).map first.followedBy := by
  ext t
  simp only [Option.bind_eq_some_iff, Option.map_eq_some_iff, runLines_eq_some_iff, takeWhile_append plain,
    takeWhile_self plain, replies_append]
  constructor
  · rintro ⟨_, last, ⟨former, latter, mid, first, second, rfl⟩, rfl⟩
    exact ⟨_, ⟨former, mid, first, rfl⟩, _, ⟨latter, last, second, rfl⟩, transcript_followedBy⟩
  · rintro ⟨_, ⟨former, mid, first, rfl⟩, _, ⟨latter, last, second, rfl⟩, rfl⟩
    exact ⟨_, last, ⟨former, latter, mid, first, second, rfl⟩, transcript_followedBy⟩

theorem ne_nil_of_isExit (leaves : isExit leave = true) : leave ≠ [] := by
  rintro rfl
  exact absurd leaves (by decide)

/-- The loop answers input that comes in parts part by part, however the lines of the first part have ended, and leaves
at the first line that asks to. A line break at the end of the input makes no difference, and what has been written
when the loop leaves is a prompt and a reply for every line, in order, and one farewell. -/
theorem run_compositional (steps : Nat) (debug : Bool) (s : Session) (ls : List Text)
    (plain : ∀ line ∈ ls, newline ∉ line ∧ isExit line = false) :
    (∀ rest, run steps debug s (unlines ls ++ rest) =
      (run steps debug s (unlines ls)).bind fun first => (run steps debug first.session rest).map first.followedBy) ∧
    (∀ leave rest, newline ∉ leave → isExit leave = true →
      run steps debug s (unlines ls ++ (leave ++ newline :: rest)) = run steps debug s (unlines ls) ∧
      run steps debug s (unlines ls ++ leave) = run steps debug s (unlines ls)) ∧
    (∀ input b, b ≠ newline → run steps debug s (input ++ [b, newline]) = run steps debug s (input ++ [b])) ∧
    ∀ input t, run steps debug s input = some t ↔ ∃ reports last,
      Replies steps s (input.lines.takeWhile fun line => !isExit line) reports last ∧
        t = transcript debug reports last := by
  have broken : ∀ line ∈ ls, newline ∉ line := fun line mem => (plain line mem).1
  have stays : ∀ line ∈ ls, isExit line = false := fun line mem => (plain line mem).2
  have left {leave : Text} (leaves : isExit leave = true) (more : List Text) :
      runLines steps debug s (ls ++ leave :: more) = runLines steps debug s ls := by
    refine runLines_congr ?_
    rw [takeWhile_append stays, List.takeWhile_cons_of_neg (by simp [leaves]), List.append_nil, takeWhile_self stays]
  refine ⟨fun rest => ?parts, fun leave rest unbroken leaves => ⟨?left, ?last⟩, fun input b other => ?ends,
    fun input t => runLines_eq_some_iff⟩
  case parts =>
    simp only [run, lines_unlines_append broken, lines_unlines broken]
    exact runLines_append stays
  case left =>
    rw [run, run, lines_unlines_append broken, lines_append_newline unbroken, lines_unlines broken, left leaves]
  case last =>
    rw [run, run, lines_unlines_append broken, lines_eq_singleton unbroken (ne_nil_of_isExit leaves),
      lines_unlines broken, left leaves]
  case ends => rw [run, run, lines_append_newline_of_ne other]

/-- A line that is rejected and one that fails stand between a name and its use. -/
theorem run_compositional_broken : ∃ first second,
    run 60 false (Session.start 8 0) (unlines ["var x = 1;", "x +", "x();"]) = some first ∧
      run 60 false first.session "x;\nquit\nx;" = some second ∧
      run 60 false (Session.start 8 0) (unlines ["var x = 1;", "x +", "x();"] ++ "x;\nquit\nx;") =
        some (first.followedBy second) ∧
      first.output = "> > > > Goodbye!\n" ∧ second.output = "> 1\n> Goodbye!\n" ∧ first.errors.breaks = 2 := by
  have runs : ((run 60 false (Session.start 8 0) (unlines ["var x = 1;", "x +", "x();"])).bind fun first =>
      (run 60 false first.session "x;\nquit\nx;").map fun second =>
        (first.output, second.output, first.errors.breaks)) =
      some (("> > > > Goodbye!\n" : Text), ("> 1\n> Goodbye!\n" : Text), 2) := by
    decide +kernel
  obtain ⟨first, begun, shown⟩ := Option.bind_eq_some_iff.1 runs
  obtain ⟨second, ended, shown⟩ := Option.map_eq_some_iff.1 shown
  obtain ⟨output, shown⟩ := Prod.mk.inj shown
  refine ⟨first, second, begun, ended, ?_, output, (Prod.mk.inj shown).1, (Prod.mk.inj shown).2⟩
  rw [(run_compositional 60 false (Session.start 8 0) ["var x = 1;", "x +", "x();"] (by decide)).1 "x;\nquit\nx;",
    begun, Option.bind_some, ended, Option.map_some]

end Repl

end TinyScript
