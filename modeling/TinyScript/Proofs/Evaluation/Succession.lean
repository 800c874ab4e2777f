import TinyScript.Proofs.Evaluation.Contracts

namespace TinyScript

variable {α : Type}

/-- The moments of the work, when those of its parts are known. -/
def Step.moments (n : Nat) (inside : Moment → List Moment) : Step α → List Moment
  | ended _ => []
  | part m next => inside m ++ match m.run n with
    | .done a st => (next a st).moments n inside
    | .failed _ _ => []
    | .unfinished => []

/-- The moments that a run comes to in some steps, in order. -/
def Moment.moments : Nat → Moment → List Moment
  | 0, _ => []
  | n + 1, m => m :: m.script.moments n (moments n)

variable {root m w p : Moment} {n k : Nat} {step : Step α} {inside : Moment → List Moment}

theorem Step.mem_moments_part {next : m.task.Result → State → Step α} :
    w ∈ (part m next).moments n inside ↔
      w ∈ inside m ∨ ∃ a st, m.run n = .done a st ∧ w ∈ (next a st).moments n inside := by
  rw [moments, List.mem_append]
  cases m.run n with
  | done a st => simp [and_assoc]
  | failed error st => simp
  | unfinished => simp

theorem Step.comes_of_mem_moments (mem : w ∈ step.moments n inside) : ∃ p, step.Comes p ∧ w ∈ inside p := by
  induction step with
  | ended outcome =>
    rw [moments] at mem
    cases mem
  | part m next ih =>
    rcases mem_moments_part.1 mem with here | ⟨a, st, done, behind⟩
    · exact ⟨m, .here, here⟩
    · obtain ⟨p, comes, mem⟩ := ih a st behind
      exact ⟨p, .behind done comes, mem⟩

/-- With enough steps the moments of a part are among those of the work. -/
theorem Step.mem_moments_of_comes (comes : step.Comes p) :
    ∃ n, ∀ k, n ≤ k → ∀ inside : Moment → List Moment, ∀ w ∈ inside p, w ∈ step.moments k inside := by
  induction comes with
  | here => exact ⟨0, fun k _ inside w mem => mem_moments_part.2 (.inl mem)⟩
  | @behind m p next before a st done _ ih =>
    obtain ⟨n, all⟩ := ih
    refine ⟨max before n, fun k le inside w mem => mem_moments_part.2 (.inr ⟨a, st, ?_, ?_⟩)⟩
    · rw [m.run_mono (Nat.le_trans (Nat.le_max_left before n) le) (by simp [done]), done]
    · exact all k (Nat.le_trans (Nat.le_max_right before n) le) inside w mem

namespace Moment

theorem mem_moments_mono (le : n ≤ k) (mem : w ∈ m.moments n) : w ∈ m.moments k := by
  induction n generalizing k m with
  | zero => cases mem
  | succ n ih =>
    obtain ⟨k, rfl⟩ := Nat.exists_eq_add_of_le' (Nat.le_trans (Nat.succ_le_succ (Nat.zero_le n)) le)
    have le := Nat.le_of_succ_le_succ le
    have all {α : Type} (step : Step α) (mem : w ∈ step.moments n (moments n)) : w ∈ step.moments k (moments k) := by
      induction step with
      | ended outcome =>
        rw [Step.moments] at mem
        cases mem
      | part m next ih' =>
        rcases Step.mem_moments_part.1 mem with here | ⟨a, st, done, behind⟩
        · exact Step.mem_moments_part.2 (.inl (ih le here))
        · refine Step.mem_moments_part.2 (.inr ⟨a, st, ?_, ih' a st behind⟩)
          rw [m.run_mono le (by simp [done]), done]
    rcases List.mem_cons.1 mem with rfl | mem
    · exact List.mem_cons_self
    · exact List.mem_cons_of_mem _ (all m.script mem)

/-- More steps come to no other moments when the task has ended. -/
theorem moments_eq (le : n ≤ k) (ends : m.run n ≠ .unfinished) : m.moments k = m.moments n := by
  induction n generalizing k m with
  | zero => exact absurd m.run_zero ends
  | succ n ih =>
    obtain ⟨k, rfl⟩ := Nat.exists_eq_add_of_le' (Nat.le_trans (Nat.succ_le_succ (Nat.zero_le n)) le)
    have le := Nat.le_of_succ_le_succ le
    have all {α : Type} (step : Step α) (ends : step.run n ≠ .unfinished) :
        step.moments k (moments k) = step.moments n (moments n) := by
      induction step with
      | ended outcome => rfl
      | part m next ih' =>
        rw [Step.run] at ends
        have part : m.run n ≠ .unfinished := fun unfinished => ends (by rw [unfinished])
        rw [Step.moments, Step.moments, ih le part, m.run_mono le part]
        cases run : m.run n with
        | done a st =>
          rw [run] at ends
          exact congrArg (m.moments n ++ ·) (ih' a st ends)
        | failed error st => rfl
        | unfinished => rfl
    rw [m.run_succ] at ends
    rw [moments, moments, all m.script ends]

theorem within_of_mem_moments (mem : w ∈ m.moments n) : ∃ calls, Within m calls w := by
  induction n generalizing m with
  | zero => cases mem
  | succ n ih =>
    rcases List.mem_cons.1 mem with rfl | mem
    · exact ⟨0, .start⟩
    · obtain ⟨p, comes, mem⟩ := Step.comes_of_mem_moments mem
      obtain ⟨calls, within⟩ := ih mem
      exact ⟨_, within.head comes⟩

/-- When a part of a moment of a run is reached, it is a moment of the run. -/
theorem mem_moments_of_part (mem : m ∈ root.moments n) (comes : m.script.Comes w) : ∃ k, w ∈ root.moments k := by
  induction n generalizing root with
  | zero => cases mem
  | succ n ih =>
    rcases List.mem_cons.1 mem with rfl | mem
    · obtain ⟨k, all⟩ := Step.mem_moments_of_comes comes
      have here : w ∈ w.moments (k + 1) := List.mem_cons_self
      exact ⟨k + 2, List.mem_cons_of_mem _ (all (k + 1) (Nat.le_succ k) _ w here)⟩
    · obtain ⟨p, reached, mem⟩ := Step.comes_of_mem_moments mem
      obtain ⟨k, all⟩ := Step.mem_moments_of_comes reached
      obtain ⟨l, mem⟩ := ih mem
      have mem := mem_moments_mono (Nat.le_max_right k l) mem
      exact ⟨max k l + 1, List.mem_cons_of_mem _ (all _ (Nat.le_max_left k l) _ w mem)⟩

/-- The moments of a run are those that it comes to in some number of steps. -/
theorem mem_moments_iff : (∃ n, w ∈ root.moments n) ↔ ∃ calls, Within root calls w := by
  constructor
  · rintro ⟨n, mem⟩
    exact within_of_mem_moments mem
  · rintro ⟨calls, within⟩
    induction within with
    | start => exact ⟨1, List.mem_cons_self⟩
    | part _ comes ih =>
      obtain ⟨n, mem⟩ := ih
      exact mem_moments_of_part mem comes

end Moment

/-- What a task settles is settled when its parts begin and when it ends, and stays settled. -/
structure Contract.Settles (c : Contract) (S : Moment → State → Prop) : Prop where
  mono : ∀ {m st st'}, S m st → c.follows st st' → S m st'
  parts : ∀ {m w}, c.requires m → m.script.Comes w → S m w.state
  ends : ∀ {m n st}, c.requires m → (m.run n).state? = some st → S m st

namespace Contract

variable {c : Contract} {S : Moment → State → Prop} {A : Moment → Prop} {P : Outcome α → Prop} {st : State}

/-- Each moment has settled its own when a later one begins. All have when the work ends. -/
structure Settled (c : Contract) (S : Moment → State → Prop) (st : State) (moments : List Moment) (o : Outcome α) :
    Prop where
  pairwise : moments.Pairwise fun w m => S w m.state
  follows : ∀ w ∈ moments, c.follows st w.state
  ends : ∀ w ∈ moments, ∀ last, o.state? = some last → S w last

/-- The work settles what its parts settle. -/
theorem Holds.step_settled (holds : c.Holds) (settles : c.Settles S)
    (parts : ∀ m, c.requires m → c.Settled S m.state (m.moments n) (m.run n)) (meets : step.Meets c A P st) :
    c.Settled S st (step.moments n (Moment.moments n)) (step.run n) := by
  have runs (m : Moment) (required : c.requires m) : c.ensures m (m.run n) := holds.run required n
  induction step generalizing st with
  | ended outcome => exact ⟨.nil, by simp [Step.moments], by simp [Step.moments]⟩
  | part m next ih =>
    obtain ⟨⟨required, _, first⟩, later⟩ := meets
    have part := parts m required
    have ensured := runs m required
    have later := later _ ensured
    have followed (w : Moment) (mem : w ∈ m.moments n) := c.trans first (part.follows w mem)
    rw [Step.moments, Step.run]
    cases run : m.run n with
    | done a between =>
      rw [run] at part later ensured
      have rest := ih a between later
      have done (w : Moment) (mem : w ∈ m.moments n) : S w between := part.ends w mem between rfl
      constructor
      · -- All that happens behind the part follows the state in which it is done.
        refine List.pairwise_append.2 ⟨part.pairwise, rest.pairwise, fun w mem v behind => ?_⟩
        exact settles.mono (done w mem) (rest.follows v behind)
      · intro w mem
        rcases List.mem_append.1 mem with mem | mem
        · exact followed w mem
        · exact c.trans first (c.trans (c.ends ensured rfl) (rest.follows w mem))
      · intro w mem last ends
        rcases List.mem_append.1 mem with mem | mem
        · exact settles.mono (done w mem) ((later.run runs).2 last ends)
        · exact rest.ends w mem last ends
    | failed error between =>
      rw [run] at part
      rw [List.append_nil]
      exact ⟨part.pairwise, followed, part.ends⟩
    | unfinished =>
      rw [List.append_nil]
      exact ⟨part.pairwise, followed, fun w _ last ends => by cases ends⟩

/-- What a moment of a run settles is settled at all later moments, and when the run ends. -/
theorem Holds.settled (holds : c.Holds) (settles : c.Settles S) (required : c.requires m) (n : Nat) :
    c.Settled S m.state (m.moments n) (m.run n) := by
  induction n generalizing m with
  | zero => exact ⟨.nil, by simp [Moment.moments], by simp [Moment.moments]⟩
  | succ n ih =>
    have inside := holds.step_settled settles (fun m required => ih required) (holds.scripts m required)
    constructor
    · -- A task has settled its own when its first part begins, and all its moments are in some part.
      refine List.pairwise_cons.2 ⟨fun w mem => ?_, inside.pairwise⟩
      obtain ⟨p, comes, mem⟩ := Step.comes_of_mem_moments mem
      exact settles.mono (settles.parts required comes) ((ih (holds.part required comes).1).follows w mem)
    · exact List.forall_mem_cons.2 ⟨c.refl _, inside.follows⟩
    · refine List.forall_mem_cons.2 ⟨fun last ends => settles.ends required ends, fun w mem last ends => ?_⟩
      rw [m.run_succ] at ends
      exact inside.ends w mem last ends

end Contract

end TinyScript
