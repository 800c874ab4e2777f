import TinyScript.Proofs.Evaluation.Tasks

namespace TinyScript

variable {α β : Type}

namespace Moment

theorem run_zero (m : Moment) : m.run 0 = .unfinished := by
  obtain ⟨context, task, st⟩ := m
  cases task <;> rfl

end Moment

/-- More steps do not change what has been done. -/
theorem Step.run_mono {n k : Nat} (same : ∀ m : Moment, m.run n ≠ .unfinished → m.run k = m.run n) (step : Step α)
    (ends : step.run n ≠ .unfinished) : step.run k = step.run n := by
  induction step with
  | ended outcome => rfl
  | part m next ih =>
    rw [run] at ends
    rw [run, run]
    cases run : m.run n with
    | done a st =>
      rw [run] at ends
      rw [same m (by simp [run]), run]
      exact ih a st ends
    | failed error st => rw [same m (by simp [run]), run]
    | unfinished =>
      rw [run] at ends
      exact absurd rfl ends

theorem Moment.run_mono {n k : Nat} (le : n ≤ k) (m : Moment) (ends : m.run n ≠ .unfinished) : m.run k = m.run n := by
  induction n generalizing k m with
  | zero => exact absurd m.run_zero ends
  | succ n ih =>
    obtain ⟨k, rfl⟩ := Nat.exists_eq_add_of_le' (Nat.le_trans (Nat.succ_le_succ (Nat.zero_le n)) le)
    rw [m.run_succ] at ends
    rw [m.run_succ, m.run_succ]
    exact Step.run_mono (fun m => ih (Nat.le_of_succ_le_succ le) m) m.script ends

/-- A task that is done is always done like that. -/
theorem Moment.run_unique {n k : Nat} (m : Moment) (ends : m.run n ≠ .unfinished) (again : m.run k ≠ .unfinished) :
    m.run n = m.run k := by
  rcases Nat.le_total n k with le | le
  · exact (m.run_mono le ends).symm
  · exact m.run_mono le again

/-- Work that goes on behind a task ends as what is left of it does when the task has been done. -/
theorem Moment.behind {n : Nat} {m : Moment} {a : m.task.Result} {st : State} {whole rest : Nat → Outcome β}
    {o : Outcome β} (ends : o ≠ .unfinished) (first : m.run n = .done a st) (zero : whole 0 = .unfinished)
    (unfinished : ∀ n, m.run n = .unfinished → whole (n + 1) = .unfinished)
    (done : ∀ n, m.run n = .done a st → whole (n + 1) = rest n)
    (mono : ∀ {n k}, n ≤ k → rest n ≠ .unfinished → rest k = rest n) : (∃ n, whole n = o) ↔ ∃ n, rest n = o := by
  constructor
  · rintro ⟨k, rfl⟩
    cases k with
    | zero => exact absurd zero ends
    | succ k =>
      have same : m.run k = m.run n := m.run_unique (fun stuck => ends (unfinished k stuck)) (by simp [first])
      exact ⟨k, (done k (same.trans first)).symm⟩
  · rintro ⟨k, rfl⟩
    have again : m.run (max n k) = m.run n := m.run_mono (Nat.le_max_left n k) (by simp [first])
    exact ⟨max n k + 1, (done _ (again.trans first)).trans (mono (Nat.le_max_right n k) ends)⟩

/-- Work comes to a task. The tasks before it have been done. -/
inductive Step.Comes : Step α → Moment → Prop
  | here {m : Moment} {next : m.task.Result → State → Step α} : Comes (.part m next) m
  | behind {m w : Moment} {next : m.task.Result → State → Step α} {n : Nat} {a : m.task.Result} {st : State} :
      m.run n = .done a st → Comes (next a st) w → Comes (.part m next) w

/-- How many calls of closures a task adds to those that are active in its parts. A builtin has no parts. -/
def Task.calls : Task → Nat
  | apply _ _ _ => 1
  | _ => 0

/-- While one task is done another one is begun inside of it, with some calls of closures between them. -/
inductive Within (root : Moment) : Nat → Moment → Prop
  | start : Within root 0 root
  | part {k : Nat} {m w : Moment} : Within root k m → m.script.Comes w → Within root (k + m.task.calls) w

theorem Within.head {root p w : Moment} {k : Nat} (comes : root.script.Comes p) (within : Within p k w) :
    Within root (root.task.calls + k) w := by
  induction within with
  | start =>
    have first := Within.part (.start : Within root 0 root) comes
    rwa [Nat.zero_add] at first
  | part _ further ih =>
    rw [← Nat.add_assoc]
    exact .part ih further

/-- All tasks that the work comes to pass a check, and end in some steps. -/
def Step.all (n : Nat) (check : Moment → Bool) : Step α → Bool
  | ended _ => true
  | part m next => check m && match m.run n with
    | .done a st => (next a st).all n check
    | .failed _ _ => true
    | .unfinished => false

/-- All moments of a run that ends in some steps pass a check. -/
def Moment.all (check : Moment → Bool) : Nat → Moment → Bool
  | 0, _ => false
  | n + 1, m => check m && m.script.all n (Moment.all check n)

theorem Step.all_comes {n : Nat} {check : Moment → Bool} {step : Step α} {w : Moment} (comes : step.Comes w)
    (all : step.all n check = true) : check w = true := by
  induction comes with
  | here =>
    rw [Step.all, Bool.and_eq_true] at all
    exact all.1
  | @behind m w next k a st done _ ih =>
    rw [Step.all, Bool.and_eq_true] at all
    have later := all.2
    have again : m.run n = .done a st := by
      rw [← done]
      refine m.run_unique (fun unfinished => ?_) (by simp [done])
      rw [unfinished] at later
      cases later
    rw [again] at later
    exact ih later

theorem Moment.all_within {n k : Nat} {check : Moment → Bool} {root w : Moment} (within : Within root k w)
    (all : root.all check n = true) : check w = true := by
  suffices ∃ n, w.all check n = true by
    obtain ⟨n, all⟩ := this
    cases n with
    | zero => cases all
    | succ n => exact (Bool.and_eq_true_iff.1 all).1
  induction within with
  | start => exact ⟨n, all⟩
  | part _ comes ih =>
    obtain ⟨n, all⟩ := ih
    cases n with
    | zero => cases all
    | succ n => exact ⟨n, Step.all_comes comes (Bool.and_eq_true_iff.1 all).2⟩

/-- The state in which a run ends. -/
def Outcome.state? : Outcome α → Option State
  | done _ st | failed _ st => some st
  | unfinished => none

/-- The work leads from a state to states that stand in a relation to it, and the tasks that it comes to are as
described. -/
def Step.Keeps (R : State → State → Prop) (P : Moment → Prop) (st : State) : Step α → Prop
  | ended outcome => ∀ st', outcome.state? = some st' → R st st'
  | part m next => R st m.state ∧ P m ∧ ∀ a st', R m.state st' → (next a st').Keeps R P st'

namespace Step.Keeps

variable {R : State → State → Prop} {P : Moment → Prop} {step : Step α} {a b : State}

theorem before (trans : ∀ {a b c}, R a b → R b c → R a c) (first : R a b) (keeps : step.Keeps R P b) :
    step.Keeps R P a := by
  cases step with
  | ended outcome => exact fun st ends => trans first (keeps st ends)
  | part m next => exact ⟨trans first keeps.1, keeps.2⟩

theorem bind {f : α → State → Step β} (trans : ∀ {a b c}, R a b → R b c → R a c) (keeps : step.Keeps R P a)
    (later : ∀ v st, (f v st).Keeps R P st) : (step.bind f).Keeps R P a := by
  induction step generalizing a with
  | ended outcome =>
    cases outcome with
    | done v st => exact (later v st).before trans (keeps st rfl)
    | failed error st => exact keeps
    | unfinished => exact keeps
  | part m next ih => exact ⟨keeps.1, keeps.2.1, fun v st leads => ih v st (keeps.2.2 v st leads)⟩

end Step.Keeps

/-- What all scripts keep: how states follow each other, and how the tasks in a task are related to it. -/
structure Kept (R : State → State → Prop) (P : Moment → Moment → Prop) : Prop where
  refl : ∀ st, R st st
  trans : ∀ {a b c}, R a b → R b c → R a c
  scripts : ∀ m : Moment, m.script.Keeps R (P m) m.state

namespace Kept

variable {R : State → State → Prop} {P : Moment → Moment → Prop} {Q : Moment → Prop} {m w root : Moment}
  {st st' : State} {step : Step α} {n k : Nat}

theorem step_run (kept : Kept R P) (all : ∀ m : Moment, ∀ st, (m.run n).state? = some st → R m.state st)
    (keeps : step.Keeps R Q st) (ends : (step.run n).state? = some st') : R st st' := by
  induction step generalizing st with
  | ended outcome => exact keeps st' ends
  | part m next ih =>
    obtain ⟨first, _, later⟩ := keeps
    have inside := all m
    rw [Step.run] at ends
    cases run : m.run n with
    | done a between =>
      rw [run] at ends inside
      have second := inside between rfl
      exact kept.trans first (kept.trans second (ih a between (later a between second) ends))
    | failed error between =>
      rw [run] at ends inside
      exact kept.trans first (inside st' ends)
    | unfinished =>
      rw [run] at ends
      cases ends

/-- What every script keeps, every run keeps. -/
theorem run (kept : Kept R P) (m : Moment) (ends : (m.run n).state? = some st) : R m.state st := by
  induction n generalizing m st with
  | zero =>
    rw [m.run_zero] at ends
    cases ends
  | succ n ih =>
    rw [m.run_succ] at ends
    exact kept.step_run (fun m _ ends => ih m ends) (kept.scripts m) ends

theorem run_done (kept : Kept R P) {a : m.task.Result} (done : m.run n = .done a st) : R m.state st := by
  have ends : (m.run n).state? = some st := by
    rw [done]
    rfl
  exact kept.run m ends

/-- The tasks in a task are as described. -/
theorem comes (kept : Kept R P) (keeps : step.Keeps R Q st) (comes : step.Comes w) : Q w := by
  induction comes generalizing st with
  | here => exact keeps.2.1
  | @behind m w next n a between done _ ih => exact ih (keeps.2.2 a between (kept.run_done done))

/-- When the work ends the tasks that it came to have ended before, and if one of them has failed so has the work. -/
theorem step_ends (kept : Kept R P) (keeps : step.Keeps R Q st) (comes : step.Comes w)
    (ends : (step.run n).state? = some st') : ∃ between, (w.run n).state? = some between ∧ R between st' ∧
      ∀ error, w.run n = .failed error between → step.run n = .failed error between := by
  induction comes generalizing st with
  | @here m next =>
    have inside : ∀ st, (m.run n).state? = some st → R m.state st := fun _ => kept.run m
    rw [Step.run] at ends ⊢
    cases run : m.run n with
    | done a between =>
      rw [run] at ends inside
      have later := kept.step_run (fun m _ => kept.run m) (keeps.2.2 a between (inside between rfl)) ends
      exact ⟨between, rfl, later, by simp⟩
    | failed error between =>
      rw [run] at ends
      cases ends
      exact ⟨st', rfl, kept.refl st', fun _ same => by cases same; rfl⟩
    | unfinished =>
      rw [run] at ends
      cases ends
  | @behind m w next k a between done comes ih =>
    have inside := kept.run_done done
    have again : m.run n = .done a between := by
      rw [← done]
      refine m.run_unique (fun unfinished => ?_) (by simp [done])
      rw [Step.run, unfinished] at ends
      cases ends
    rw [Step.run, again] at ends ⊢
    exact ih (keeps.2.2 a between inside) ends

/-- When a task has ended, so have the tasks in it, and if one of them has failed so has the task. -/
theorem ends (kept : Kept R P) (within : Within root k m) (ends : (root.run n).state? = some st) :
    ∃ between, (m.run n).state? = some between ∧ R between st ∧
      ∀ error, m.run n = .failed error between → root.run n = .failed error between := by
  induction within with
  | start => exact ⟨st, ends, kept.refl st, fun _ failed => failed⟩
  | @part k m w _ comes ih =>
    obtain ⟨last, ended, later, fails⟩ := ih
    cases n with
    | zero =>
      rw [m.run_zero] at ended
      cases ended
    | succ n =>
      rw [m.run_succ] at ended fails
      obtain ⟨between, ended', later', fails'⟩ := kept.step_ends (kept.scripts m) comes ended
      have again : w.run (n + 1) = w.run n := w.run_mono (Nat.le_succ n) fun unfinished => by
        rw [unfinished] at ended'
        cases ended'
      rw [again]
      refine ⟨between, ended', kept.trans later' later, fun error failed => ?_⟩
      have failed := fails' error failed
      rw [failed] at ended
      cases ended
      exact fails error failed

end Kept

end TinyScript
