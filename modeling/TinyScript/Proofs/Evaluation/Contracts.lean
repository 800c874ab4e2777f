import TinyScript.Proofs.Evaluation.Moments

namespace TinyScript

variable {α β : Type}

/-- What is required of the moments of a run, how the tasks in a task are related to it, how states follow each other,
and what is promised of the outcomes. -/
structure Contract where
  requires : Moment → Prop
  parts : Moment → Moment → Prop
  follows : State → State → Prop
  ensures : (m : Moment) → Outcome m.task.Result → Prop
  refl : ∀ st, follows st st
  trans : ∀ {a b c}, follows a b → follows b c → follows a c
  ends : ∀ {m outcome last}, ensures m outcome → outcome.state? = some last → follows m.state last

/-- From a state the work comes only to tasks that are as required and stand where they should, and when these end as
promised it ends as described. -/
def Step.Meets (c : Contract) (A : Moment → Prop) (P : Outcome α → Prop) : Step α → State → Prop
  | ended outcome, st => P outcome ∧ ∀ last, outcome.state? = some last → c.follows st last
  | part m next, st => (c.requires m ∧ A m ∧ c.follows st m.state) ∧ ∀ outcome, c.ensures m outcome →
    match outcome with
    | .done a last => (next a last).Meets c A P last
    | .failed error last => P (.failed error last)
    | .unfinished => P .unfinished

/-- Every task that is as required keeps its promise when the tasks in it do. -/
structure Contract.Holds (c : Contract) : Prop where
  unfinished : ∀ m, c.ensures m .unfinished
  scripts : ∀ m, c.requires m → m.script.Meets c (c.parts m) (c.ensures m) m.state

variable {c : Contract} {A : Moment → Prop} {P : Outcome α → Prop} {Q : Outcome β → Prop} {step : Step α}
  {st st' last : State} {m w root : Moment} {n k : Nat}

namespace Step.Meets

theorem before (meets : step.Meets c A P st') (follows : c.follows st st') : step.Meets c A P st := by
  cases step with
  | ended outcome => exact ⟨meets.1, fun last ends => c.trans follows (meets.2 last ends)⟩
  | part m next => exact ⟨⟨meets.1.1, meets.1.2.1, c.trans follows meets.1.2.2⟩, meets.2⟩

theorem mono {Q : Outcome α → Prop} (meets : step.Meets c A P st) (imp : ∀ outcome, P outcome → Q outcome) :
    step.Meets c A Q st := by
  induction step generalizing st with
  | ended outcome => exact ⟨imp outcome meets.1, meets.2⟩
  | part m next ih =>
    refine ⟨meets.1, fun outcome ensured => ?_⟩
    have next := meets.2 outcome ensured
    cases outcome with
    | done a last => exact ih a last next
    | failed error last => exact imp _ next
    | unfinished => exact imp _ next

/-- What comes behind some work needs to be as described only when the work is done. -/
theorem bind {f : α → State → Step β} (meets : step.Meets c A P st)
    (later : ∀ a last, P (.done a last) → (f a last).Meets c A Q last)
    (failed : ∀ error last, P (.failed error last) → Q (.failed error last))
    (unfinished : P .unfinished → Q .unfinished) :
    (step.bind f).Meets c A Q st := by
  induction step generalizing st with
  | ended outcome =>
    obtain ⟨described, follows⟩ := meets
    cases outcome with
    | done a last => exact (later a last described).before (follows last rfl)
    | failed error last => exact ⟨failed error last described, follows⟩
    | unfinished => exact ⟨unfinished described, follows⟩
  | part m next ih =>
    refine ⟨meets.1, fun outcome ensured => ?_⟩
    have next := meets.2 outcome ensured
    cases outcome with
    | done a last => exact ih a last next
    | failed error last => exact failed error last next
    | unfinished => exact unfinished next

/-- Work that meets a contract ends as described, in a state that follows the one from which it began. -/
theorem run (meets : step.Meets c A P st) (all : ∀ m, c.requires m → c.ensures m (m.run n)) :
    P (step.run n) ∧ ∀ last, (step.run n).state? = some last → c.follows st last := by
  induction step generalizing st with
  | ended outcome => exact meets
  | part m next ih =>
    obtain ⟨⟨required, _, first⟩, later⟩ := meets
    have ensured := all m required
    have later := later _ ensured
    rw [Step.run]
    cases run : m.run n with
    | done a between =>
      rw [run] at later ensured
      have rest := ih a between later
      exact ⟨rest.1, fun last ends => c.trans first (c.trans (c.ends ensured rfl) (rest.2 last ends))⟩
    | failed error between =>
      rw [run] at later ensured
      exact ⟨later, fun last ends => c.trans first (c.ends ensured ends)⟩
    | unfinished =>
      rw [run] at later
      exact ⟨later, fun last ends => by cases ends⟩

/-- What is true of the work is true of it from where its first part begins. -/
theorem begun {next : m.task.Result → State → Step α} (meets : (Step.part m next).Meets c A P st) :
    (Step.part m next).Meets c A P m.state := ⟨⟨meets.1.1, meets.1.2.1, c.refl _⟩, meets.2⟩

end Step.Meets

namespace Contract.Holds

/-- A run keeps the promise. -/
theorem run (holds : c.Holds) (required : c.requires m) (n : Nat) : c.ensures m (m.run n) := by
  induction n generalizing m with
  | zero =>
    rw [m.run_zero]
    exact holds.unfinished m
  | succ n ih =>
    rw [m.run_succ]
    exact ((holds.scripts m required).run fun m required => ih required).1

/-- The tasks that the work comes to are as required, stand where they should, and follow. -/
theorem comes (holds : c.Holds) (meets : step.Meets c A P st) (comes : step.Comes w) :
    c.requires w ∧ A w ∧ c.follows st w.state := by
  induction comes generalizing st with
  | here => exact meets.1
  | @behind m w next n a between done _ ih =>
    have ensured := holds.run meets.1.1 n
    rw [done] at ensured
    obtain ⟨required, stands, later⟩ := ih (meets.2 _ ensured)
    exact ⟨required, stands, c.trans meets.1.2.2 (c.trans (c.ends ensured rfl) later)⟩

theorem part (holds : c.Holds) (required : c.requires m) (comes : m.script.Comes w) :
    c.requires w ∧ c.parts m w ∧ c.follows m.state w.state := holds.comes (holds.scripts m required) comes

/-- At every moment of a run what is required holds. -/
theorem within (holds : c.Holds) (required : c.requires root) (within : Within root k m) :
    c.requires m ∧ c.follows root.state m.state := by
  induction within with
  | start => exact ⟨required, c.refl _⟩
  | part _ comes ih =>
    obtain ⟨required, _, follows⟩ := holds.part ih.1 comes
    exact ⟨required, c.trans ih.2 follows⟩

end Contract.Holds

end TinyScript
