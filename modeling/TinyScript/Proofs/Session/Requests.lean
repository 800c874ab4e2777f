import TinyScript.Proofs.Session.Reset

namespace TinyScript

/-- What is seen of a value. -/
structure Shown where
  kind : Value.Kind
  display : Text
  inspect : Text
  deriving DecidableEq

/-- What is seen of a program that was run. -/
structure Result where
  value : Option Shown
  printed : Text
  diagnostics : List Diagnostic
  hadSyntaxError : Bool
  hadRuntimeError : Bool
  deriving DecidableEq

inductive Request where
  | run (source filename : Text)
  | interpret (p : Program)
  | get (name : Text)
  | dump
  | reset

inductive Answer where
  | result (r : Result)
  | value (v : Option Shown)
  | lines (t : Text)
  | nothing
  deriving DecidableEq

def Session.shown (s : Session) (v : Value) : Shown := ⟨v.kind, s.display v, s.inspect v⟩

def Report.result (r : Report) : Result :=
  ⟨r.ending.value?.map r.session.shown, r.printed, r.ending.diagnostics, r.ending.isRejected, r.ending.isFailed⟩

/-- A session and the values that its caller holds. -/
structure Caller where
  session : Session
  held : List Value

namespace Caller

/-- The caller that begins with a new session. -/
def start (callLimit : Nat) (time : Float) : Caller := ⟨.start callLimit time, []⟩

/-- A report is answered, and its value is held. -/
def told (c : Caller) (r : Report) : Answer × Caller :=
  (.result r.result, ⟨r.session, r.ending.value?.toList ++ c.held⟩)

/-- The answer to a request, and the caller behind it. Programs may take some steps. -/
def ask (steps : Nat) (c : Caller) : Request → Option (Answer × Caller)
  | .run source filename => (c.session.run steps source filename).map c.told
  | .interpret p => (c.session.interpret steps p).map c.told
  | .get name =>
    let found := c.session.get? name
    some (.value (found.map c.session.shown), { c with held := found.toList ++ c.held })
  | .dump => some (.lines c.session.dump, c)
  | .reset => some (.nothing, { c with session := c.session.reset c.held })

/-- All requests with their answers, and the caller behind them. -/
def talk (steps : Nat) (c : Caller) : List Request → Option (List (Request × Answer) × Caller)
  | [] => some ([], c)
  | request :: more =>
    match c.ask steps request with
    | none => none
    | some (answer, next) => (next.talk steps more).map fun (log, last) => ((request, answer) :: log, last)

/-- All requests with their answers. -/
def answers (steps : Nat) (c : Caller) (requests : List Request) : Option (List (Request × Answer)) :=
  (c.talk steps requests).map Prod.fst

variable {steps : Nat} {c d : Caller} {request : Request} {more requests : List Request} {answer : Answer}
  {log : List (Request × Answer)} {before : Store}

theorem talk_cons : c.talk steps (request :: more) = some (log, d) ↔ ∃ answer next rest,
    c.ask steps request = some (answer, next) ∧ next.talk steps more = some (rest, d) ∧
      log = (request, answer) :: rest := by
  rw [talk]
  cases asked : c.ask steps request with
  | none => simp
  | some found =>
    obtain ⟨answer, next⟩ := found
    dsimp only
    constructor
    · intro talked
      obtain ⟨⟨rest, last⟩, later, same⟩ := Option.map_eq_some_iff.1 talked
      cases same
      exact ⟨answer, next, rest, rfl, later, rfl⟩
    · rintro ⟨_, _, rest, ⟨⟩, later, rfl⟩
      rw [later]
      rfl

theorem answers_cons : c.answers steps (request :: more) =
    (c.ask steps request).bind fun said => (said.2.answers steps more).map ((request, said.1) :: ·) := by
  rw [answers, talk]
  cases c.ask steps request with
  | none => rfl
  | some said =>
    rw [Option.bind_some, answers, Option.map_map, Option.map_map]
    rfl

/-- The requests in the answers are those that have been made. -/
theorem talk_requests (talked : c.talk steps requests = some (log, d)) : log.map Prod.fst = requests := by
  induction requests generalizing c log with
  | nil =>
    cases talked
    rfl
  | cons request more ih =>
    obtain ⟨answer, next, rest, _, later, rfl⟩ := talk_cons.1 talked
    rw [List.map_cons, ih later]

theorem log_eq_zip {answers : List Answer} (talked : c.talk steps requests = some (log, d))
    (given : log.map Prod.snd = answers) : log = requests.zip answers := by
  rw [← talk_requests talked, ← given, ← List.unzip_fst, ← List.unzip_snd, List.zip_unzip]

theorem ask_reached (reached : Reached before c.session c.held) (asked : c.ask steps request = some (answer, d))
    (stays : request ≠ .reset) : Reached before d.session d.held := by
  cases request with
  | run source filename =>
    obtain ⟨report, run, same⟩ := Option.map_eq_some_iff.1 asked
    cases same
    exact reached.ran run
  | interpret p =>
    obtain ⟨report, run, same⟩ := Option.map_eq_some_iff.1 asked
    cases same
    exact reached.interpreted run
  | get name =>
    cases asked
    cases found : c.session.get? name with
    | none => exact reached
    | some v => exact reached.got found
  | dump =>
    cases asked
    exact reached
  | reset => exact absurd rfl stays

/-- As long as it is not reset a session goes on from where it began. -/
theorem talk_reached (reached : Reached before c.session c.held) (talked : c.talk steps requests = some (log, d))
    (stays : Request.reset ∉ requests) : Reached before d.session d.held := by
  induction requests generalizing c log with
  | nil =>
    cases talked
    exact reached
  | cons request more ih =>
    obtain ⟨stay, stays⟩ := not_or.1 fun mem => stays (List.mem_cons.2 mem)
    obtain ⟨answer, next, rest, asked, later, rfl⟩ := talk_cons.1 talked
    exact ih (ask_reached reached asked (Ne.symm stay)) later stays

end Caller

end TinyScript
