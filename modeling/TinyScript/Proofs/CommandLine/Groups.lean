import TinyScript.Proofs.CommandLine.Depths
import TinyScript.Proofs.CommandLine.Process

namespace TinyScript.CommandLine

/-- Arguments that stand together. A depth has the argument that asks for it. -/
inductive Group where
  | help
  | debug
  | depth (argument : Text) (callLimit : Nat)
  | script (name : Text)
  deriving DecidableEq

/-- A script may have any name that does not begin with a dash, and a lone dash is a name as well. -/
def IsScript (argument : Text) : Prop := argument = "-" ∨ ∃ b t, argument = b :: t ∧ b ≠ ascii '-'

/-- An option is a dash with something behind it. -/
def IsOption (argument : Text) : Prop := ∃ b t, argument = ascii '-' :: b :: t

namespace Group

def arguments : Group → List Text
  | help => ["-h"]
  | debug => ["-d"]
  | depth argument _ => ["-s", argument]
  | script name => [name]

def callLimit? : Group → Option Nat
  | depth _ callLimit => some callLimit
  | _ => none

def script? : Group → Option Text
  | script name => some name
  | _ => none

/-- The argument of a depth asks for it, and the name of a script is one. -/
def Fits : Group → Prop
  | help | debug => True
  | depth argument callLimit => IsDepth argument callLimit
  | script name => IsScript name

/-- What a group says. -/
def apply (settings : Settings) : Group → Settings
  | help => { settings with help := true }
  | debug => { settings with debug := true }
  | depth _ callLimit => { settings with callLimit }
  | script name => { settings with script := some name }

end Group

/-- The scripts that are named, by what has been read already or by groups behind it. -/
def scripts (settings : Settings) (groups : List Group) : List Text :=
  settings.script.toList ++ groups.filterMap Group.script?

/-- The groups fit behind what has been read already, and there is no second script. -/
structure Accepted (settings : Settings) (groups : List Group) : Prop where
  fits : ∀ g ∈ groups, g.Fits
  single : (scripts settings groups).length ≤ 1

/-- What groups say together: whether help and dumps are asked for, the last depth, and the script. -/
def settingsOf (groups : List Group) : Settings where
  help := .help ∈ groups
  debug := .debug ∈ groups
  callLimit := (groups.filterMap Group.callLimit?).getLast?.getD Session.defaultCallLimit
  script := (groups.filterMap Group.script?).head?

/-- Arguments that do not begin with a group that fits, perhaps behind a script, and what is said about them. -/
inductive Fails (scripted : Prop) : List Text → UsageError → Prop
  | option {argument : Text} {more : List Text} : IsOption argument → argument ≠ "-h" → argument ≠ "-d" →
      argument ≠ "-s" → Fails scripted (argument :: more) (.invalidOption argument)
  | missing : Fails scripted ["-s"] .missingDepth
  | noNumber {argument : Text} {more : List Text} : ¬ HasNumber argument →
      Fails scripted ("-s" :: argument :: more) (.depthNotNumber argument)
  | noDepth {argument : Text} {more : List Text} : HasNumber argument → (∀ depth, ¬ IsDepth argument depth) →
      Fails scripted ("-s" :: argument :: more) (.depthNotPositive argument)
  | script {argument : Text} {more : List Text} : scripted → IsScript argument →
      Fails scripted (argument :: more) (.secondScript argument)

variable {argument : Text} {arguments more : List Text} {settings : Settings} {groups : List Group} {g : Group}

theorem ofText_of_isScript (isScript : IsScript argument) : Argument.ofText argument = .script := by
  rcases isScript with rfl | ⟨b, t, rfl, other⟩
  · decide
  · exact if_pos (.inr (mt Option.some.inj other))

theorem ofText_of_isOption (isOption : IsOption argument) : Argument.ofText argument =
    if argument = "-h" then .help else if argument = "-d" then .debug else if argument = "-s" then .depth
    else .unknown := by
  obtain ⟨b, t, rfl⟩ := isOption
  exact if_neg (by simp)

theorem isScript_or_isOption (nonempty : argument ≠ []) : IsScript argument ∨ IsOption argument := by
  obtain ⟨b, t, rfl⟩ := List.exists_cons_of_ne_nil nonempty
  by_cases dash : b = ascii '-'
  · subst dash
    cases t with
    | nil => exact .inl (.inl rfl)
    | cons c t => exact .inr ⟨c, t, rfl⟩
  · exact .inl (.inr ⟨b, t, rfl, dash⟩)

/-- How an argument is taken that is not the value of an option. -/
theorem ofText_spec (nonempty : argument ≠ []) :
    match Argument.ofText argument with
    | .help => argument = "-h"
    | .debug => argument = "-d"
    | .depth => argument = "-s"
    | .unknown => IsOption argument ∧ argument ≠ "-h" ∧ argument ≠ "-d" ∧ argument ≠ "-s"
    | .script => IsScript argument := by
  rcases isScript_or_isOption nonempty with isScript | isOption
  · rw [ofText_of_isScript isScript]
    exact isScript
  · rw [ofText_of_isOption isOption]
    by_cases help : argument = "-h"
    · rw [if_pos help]
      exact help
    · rw [if_neg help]
      by_cases debug : argument = "-d"
      · rw [if_pos debug]
        exact debug
      · rw [if_neg debug]
        by_cases depth : argument = "-s"
        · rw [if_pos depth]
          exact depth
        · rw [if_neg depth]
          exact ⟨isOption, help, debug, depth⟩

/-- A group that fits is read as it is meant, unless it is a second script. -/
theorem readArguments_group (fits : g.Fits) (free : g.script? = none ∨ settings.script = none) :
    readArguments settings (g.arguments ++ more) = readArguments (g.apply settings) more := by
  cases g with
  | help => rfl
  | debug => rfl
  | depth argument callLimit =>
    have read : readDepth argument = .ok callLimit := readDepth_eq_ok_iff.2 fits
    have option : Argument.ofText "-s" = .depth := by decide
    simp only [Group.arguments, List.cons_append, List.nil_append, readArguments, option, read]
    rfl
  | script name =>
    have free : settings.script = none := free.resolve_left nofun
    have nonempty : name ≠ [] := by
      rintro rfl
      rcases fits with empty | ⟨b, t, empty, _⟩ <;> cases empty
    rw [Group.arguments, List.singleton_append, readArguments.eq_def]
    simp only [ofText_of_isScript fits, free, if_neg nonempty]
    rfl

theorem Accepted.free (accepted : Accepted settings (g :: groups)) : g.script? = none ∨ settings.script = none := by
  have single := accepted.single
  cases named : g.script? with
  | none => exact .inl rfl
  | some name =>
    cases already : settings.script with
    | none => exact .inr rfl
    | some script => simp [scripts, named, already] at single

/-- A group that has been read counts like a group that is still to be read. -/
theorem scripts_apply (free : g.script? = none ∨ settings.script = none) (groups : List Group) :
    scripts (g.apply settings) groups = scripts settings (g :: groups) := by
  cases g with
  | script name =>
    have free : settings.script = none := free.resolve_left nofun
    simp [scripts, Group.apply, Group.script?, free]
  | _ => rfl

theorem accepted_cons : Accepted settings (g :: groups) ↔
    g.Fits ∧ (g.script? = none ∨ settings.script = none) ∧ Accepted (g.apply settings) groups := by
  constructor
  · intro accepted
    obtain ⟨here, later⟩ := List.forall_mem_cons.1 accepted.fits
    exact ⟨here, accepted.free, later, scripts_apply accepted.free groups ▸ accepted.single⟩
  · rintro ⟨here, free, later, single⟩
    exact ⟨List.forall_mem_cons.2 ⟨here, later⟩, scripts_apply free groups ▸ single⟩

/-- Groups that are accepted are read one after the other. -/
theorem readArguments_groups (accepted : Accepted settings groups) (more : List Text) :
    readArguments settings (groups.flatMap Group.arguments ++ more) =
      readArguments (groups.foldl Group.apply settings) more := by
  induction groups generalizing settings with
  | nil => rfl
  | cons g groups ih =>
    obtain ⟨here, free, later⟩ := accepted_cons.1 accepted
    rw [List.flatMap_cons, List.append_assoc, readArguments_group here free, ih later, List.foldl_cons]

/-- What groups say one after the other is what they say together. -/
theorem foldl_apply (accepted : Accepted settings groups) : groups.foldl Group.apply settings =
    { help := settings.help || .help ∈ groups
      debug := settings.debug || .debug ∈ groups
      callLimit := (groups.filterMap Group.callLimit?).getLast?.getD settings.callLimit
      script := (scripts settings groups).head? } := by
  induction groups generalizing settings with
  | nil => simp [scripts]
  | cons g groups ih =>
    obtain ⟨-, free, later⟩ := accepted_cons.1 accepted
    rw [List.foldl_cons, ih later, scripts_apply free]
    cases g <;> simp [Group.apply, Group.callLimit?, List.getLast?_cons]

/-- What does not fit is complained about. -/
theorem Fails.error {e : UsageError} (fails : Fails (settings.script ≠ none) arguments e) :
    readArguments settings arguments = .error e := by
  have option : Argument.ofText "-s" = .depth := by decide
  cases fails with
  | option isOption noHelp noDebug noDepth =>
    rw [readArguments.eq_def]
    simp only [ofText_of_isOption isOption, if_neg noHelp, if_neg noDebug, if_neg noDepth]
  | missing => rfl
  | noNumber none => simp only [readArguments, option, readDepth_of_not_hasNumber none]
  | noDepth number none => simp only [readArguments, option, readDepth_of_not_isDepth number none]
  | script already isScript =>
    obtain ⟨name, already⟩ := Option.ne_none_iff_exists'.1 already
    rw [readArguments.eq_def]
    simp only [ofText_of_isScript isScript, already]

/-- Groups that are accepted, behind which nothing is left or what is left does not fit. -/
structure Stops (settings : Settings) (arguments : List Text) (groups : List Group) (rest : List Text) : Prop where
  whole : arguments = groups.flatMap Group.arguments ++ rest
  accepted : Accepted settings groups
  ending : rest = [] ∨ ∃ e, Fails (scripts settings groups ≠ []) rest e

namespace Stops

theorem start (ending : arguments = [] ∨ ∃ e, Fails (settings.script ≠ none) arguments e) :
    Stops settings arguments [] arguments where
  whole := rfl
  accepted := ⟨nofun, by cases named : settings.script <;> simp [scripts, named]⟩
  ending := by simpa [scripts] using ending

theorem cons {rest : List Text} (fits : g.Fits) (free : g.script? = none ∨ settings.script = none)
    (stops : Stops (g.apply settings) arguments groups rest) :
    Stops settings (g.arguments ++ arguments) (g :: groups) rest where
  whole := by rw [List.flatMap_cons, List.append_assoc, ← stops.whole]
  accepted := accepted_cons.2 ⟨fits, free, stops.accepted⟩
  ending := scripts_apply free groups ▸ stops.ending

end Stops

/-- Arguments are groups that are accepted, up to where something does not fit. -/
theorem exists_stops (nonempty : ∀ argument ∈ arguments, argument ≠ []) :
    ∃ groups rest, Stops settings arguments groups rest := by
  fun_induction readArguments settings arguments with
  | case1 settings => exact ⟨[], [], .start (.inl rfl)⟩
  | case2 settings argument more option ih =>
    obtain ⟨here, later⟩ := List.forall_mem_cons.1 nonempty
    obtain rfl : argument = "-h" := by simpa only [option] using ofText_spec here
    obtain ⟨groups, rest, stops⟩ := ih later
    exact ⟨.help :: groups, rest, .cons (g := .help) trivial (.inl rfl) stops⟩
  | case3 settings argument more option ih =>
    obtain ⟨here, later⟩ := List.forall_mem_cons.1 nonempty
    obtain rfl : argument = "-d" := by simpa only [option] using ofText_spec here
    obtain ⟨groups, rest, stops⟩ := ih later
    exact ⟨.debug :: groups, rest, .cons (g := .debug) trivial (.inl rfl) stops⟩
  | case4 settings argument option =>
    obtain ⟨here, -⟩ := List.forall_mem_cons.1 nonempty
    obtain rfl : argument = "-s" := by simpa only [option] using ofText_spec here
    exact ⟨[], _, .start (.inr ⟨_, .missing⟩)⟩
  | case5 settings argument option depth more callLimit read ih =>
    obtain ⟨here, later⟩ := List.forall_mem_cons.1 nonempty
    obtain rfl : argument = "-s" := by simpa only [option] using ofText_spec here
    obtain ⟨groups, rest, stops⟩ := ih (List.forall_mem_cons.1 later).2
    have fits : IsDepth depth callLimit := readDepth_eq_ok_iff.1 read
    exact ⟨.depth depth callLimit :: groups, rest, .cons (g := .depth depth callLimit) fits (.inl rfl) stops⟩
  | case6 settings argument option depth more e read =>
    obtain ⟨here, -⟩ := List.forall_mem_cons.1 nonempty
    obtain rfl : argument = "-s" := by simpa only [option] using ofText_spec here
    by_cases number : HasNumber depth
    · have none : ∀ callLimit, ¬ IsDepth depth callLimit := fun callLimit isDepth => by
        rw [readDepth_eq_ok_iff.2 isDepth] at read
        cases read
      exact ⟨[], _, .start (.inr ⟨_, .noDepth number none⟩)⟩
    · exact ⟨[], _, .start (.inr ⟨_, .noNumber number⟩)⟩
  | case7 settings argument more option =>
    obtain ⟨here, -⟩ := List.forall_mem_cons.1 nonempty
    obtain ⟨isOption, noHelp, noDebug, noDepth⟩ : IsOption argument ∧ argument ≠ "-h" ∧ argument ≠ "-d" ∧
      argument ≠ "-s" := by simpa only [option] using ofText_spec here
    exact ⟨[], _, .start (.inr ⟨_, .option isOption noHelp noDebug noDepth⟩)⟩
  | case8 settings argument more option script already =>
    obtain ⟨here, -⟩ := List.forall_mem_cons.1 nonempty
    have isScript : IsScript argument := by simpa only [option] using ofText_spec here
    exact ⟨[], _, .start (.inr ⟨_, .script (by simp [already]) isScript⟩)⟩
  | case9 settings argument more option free ih =>
    obtain ⟨here, later⟩ := List.forall_mem_cons.1 nonempty
    have isScript : IsScript argument := by simpa only [option] using ofText_spec here
    rw [if_neg here] at ih
    obtain ⟨groups, rest, stops⟩ := ih later
    exact ⟨.script argument :: groups, rest, .cons (g := .script argument) isScript (.inr free) stops⟩

/-- Arguments that are made of groups. -/
def MadeOf (arguments : List Text) (groups : List Group) : Prop :=
  Accepted .default groups ∧ groups.flatMap Group.arguments = arguments

/-- With these arguments the process ends so, whatever it could read and run. -/
def Ends (arguments : List Text) (exit : Text → Exit) : Prop :=
  ∀ steps time program read input, run steps time program arguments read input = some (exit program)

/-- With the one arguments the process does what it does with the others. -/
def RunsLike (arguments others : List Text) : Prop :=
  ∀ steps time program read input,
    run steps time program arguments read input = run steps time program others read input

theorem MadeOf.read (made : MadeOf arguments groups) : readArguments .default arguments = .ok (settingsOf groups) := by
  obtain ⟨accepted, rfl⟩ := made
  have read := readArguments_groups accepted []
  rw [List.append_nil, foldl_apply accepted] at read
  rw [read]
  simp [readArguments, settingsOf, scripts, Settings.default]

theorem MadeOf.runsLike {others : List Text} {groups' : List Group} (made : MadeOf arguments groups)
    (made' : MadeOf others groups') (same : settingsOf groups' = settingsOf groups) : RunsLike others arguments := by
  intro steps time program read input
  simp only [run_arguments, made.read, made'.read, same]

theorem MadeOf.help (made : MadeOf arguments groups) (asked : .help ∈ groups) :
    Ends arguments fun program => ⟨0, usage program, []⟩ := by
  intro steps time program read input
  have helped : (settingsOf groups).help = true := decide_eq_true asked
  simp only [run_arguments, made.read, helped, if_true, Exit.help]

/-- Behind accepted groups the first one that does not fit is complained about. -/
theorem Accepted.read_fails {rest : List Text} {e : UsageError} (accepted : Accepted .default groups)
    (fails : Fails (scripts .default groups ≠ []) rest e) :
    readArguments .default (groups.flatMap Group.arguments ++ rest) = .error e := by
  have named : (scripts .default groups ≠ []) = ((groups.foldl Group.apply .default).script ≠ none) := by
    rw [foldl_apply accepted]
    simp
  rw [named] at fails
  rw [readArguments_groups accepted, fails.error]

/-- The order of accepted groups does not matter, except that of the depths. -/
theorem Accepted.perm {groups' : List Group} (accepted : Accepted .default groups) (perm : groups'.Perm groups)
    (limits : groups'.filterMap Group.callLimit? = groups.filterMap Group.callLimit?) :
    Accepted .default groups' ∧ settingsOf groups' = settingsOf groups := by
  have named : (groups'.filterMap Group.script?).Perm (groups.filterMap Group.script?) := perm.filterMap _
  have single : (groups.filterMap Group.script?).length ≤ 1 := accepted.single
  have same : groups'.filterMap Group.script? = groups.filterMap Group.script? := by
    rcases Nat.le_one_iff_eq_zero_or_eq_one.1 single with none | one
    · rw [List.length_eq_zero_iff.1 none] at named ⊢
      exact named.eq_nil
    · obtain ⟨name, one⟩ := List.length_eq_one_iff.1 one
      rw [one] at named ⊢
      exact List.perm_singleton.1 named
  constructor
  · exact ⟨fun g mem => accepted.fits g (perm.mem_iff.1 mem), (congrArg List.length same).trans_le single⟩
  · simp only [settingsOf, perm.mem_iff, limits, same]

/-- Arguments that are not empty are accepted exactly if they are made of groups. Then only four things matter: whether
help is asked for, whether dumps are, the last depth, and the script. So the groups may change their order as long as
the depths keep theirs, and where help is asked for nothing is read and nothing is run. Other arguments are made of
groups up to the first one that does not fit, and nothing but a complaint about this one happens. -/
theorem run_groups (nonempty : ∀ argument ∈ arguments, argument ≠ []) :
    ((∃ settings, readArguments .default arguments = .ok settings) ↔ ∃ groups, MadeOf arguments groups) ∧
      (∀ groups, MadeOf arguments groups →
        readArguments .default arguments = .ok (settingsOf groups) ∧
        (.help ∈ groups → Ends arguments fun program => ⟨0, usage program, []⟩) ∧
        (∀ others groups', MadeOf others groups' →
          (.help ∈ groups' ↔ .help ∈ groups) → (.debug ∈ groups' ↔ .debug ∈ groups) →
          (groups'.filterMap Group.callLimit?).getLast? = (groups.filterMap Group.callLimit?).getLast? →
          groups'.filterMap Group.script? = groups.filterMap Group.script? → RunsLike others arguments) ∧
        ∀ groups' : List Group, groups'.Perm groups →
          groups'.filterMap Group.callLimit? = groups.filterMap Group.callLimit? →
          MadeOf (groups'.flatMap Group.arguments) groups' ∧ RunsLike (groups'.flatMap Group.arguments) arguments) ∧
      ((¬ ∃ groups, MadeOf arguments groups) → ∃ groups rest e, arguments = groups.flatMap Group.arguments ++ rest ∧
        Accepted .default groups ∧ Fails (scripts .default groups ≠ []) rest e) ∧
      ∀ groups rest e, arguments = groups.flatMap Group.arguments ++ rest → Accepted .default groups →
        Fails (scripts .default groups ≠ []) rest e →
        Ends arguments fun program => ⟨64, usage program, "Error: " ++ e.message ++ [newline]⟩ := by
  have made_or_fails : (∃ groups, MadeOf arguments groups) ∨ ∃ groups rest e,
      arguments = groups.flatMap Group.arguments ++ rest ∧ Accepted .default groups ∧
        Fails (scripts .default groups ≠ []) rest e := by
    obtain ⟨groups, rest, whole, accepted, rfl | ⟨e, fails⟩⟩ := exists_stops nonempty
    · exact .inl ⟨groups, accepted, by rw [whole, List.append_nil]⟩
    · exact .inr ⟨groups, rest, e, whole, accepted, fails⟩
  refine ⟨⟨?_, ?_⟩, fun groups made => ⟨made.read, made.help, ?_, ?_⟩, made_or_fails.resolve_left, ?_⟩
  · rintro ⟨settings, read⟩
    refine made_or_fails.resolve_right ?_
    rintro ⟨groups, rest, e, rfl, accepted, fails⟩
    rw [accepted.read_fails fails] at read
    cases read
  · rintro ⟨groups, made⟩
    exact ⟨_, made.read⟩
  · intro others groups' made' help debug limit script
    refine made.runsLike made' ?_
    simp only [settingsOf, help, debug, limit, script]
  · intro groups' perm limits
    obtain ⟨accepted, same⟩ := made.1.perm perm limits
    exact ⟨⟨accepted, rfl⟩, made.runsLike ⟨accepted, rfl⟩ same⟩
  · rintro groups rest e rfl accepted fails steps time program read input
    rw [run_arguments, accepted.read_fails fails]
    rfl

/-- A depth that looks like an option, in groups that change their order, and a complaint where help is asked for. -/
theorem run_groups_reordered :
    (∀ argument ∈ (["-s", "-1", "a.js", "-d", "-s", "5"] : List Text), argument ≠ []) ∧
      RunsLike ["a.js", "-s", "-1", "-s", "5", "-d"] ["-s", "-1", "a.js", "-d", "-s", "5"] ∧
      (∀ argument ∈ (["-h", "a.js", "-s", "-h"] : List Text), argument ≠ []) ∧
      Ends ["-h", "a.js", "-s", "-h"] fun program => ⟨64, usage program, "Error: invalid call depth -h: stoul\n"⟩ := by
  have nonempty : ∀ argument ∈ (["-s", "-1", "a.js", "-d", "-s", "5"] : List Text), argument ≠ [] := by decide
  have nonempty' : ∀ argument ∈ (["-h", "a.js", "-s", "-h"] : List Text), argument ≠ [] := by decide
  have wrapped : IsDepth "-1" 18446744073709551615 := readDepth_eq_ok_iff.1 (by decide +kernel)
  have five : IsDepth "5" 5 := readDepth_eq_ok_iff.1 (by decide +kernel)
  have isScript : IsScript "a.js" := .inr ⟨ascii 'a', ".js", rfl, by decide⟩
  have noNumber : ¬ HasNumber "-h" := mt hasNumber_iff.1 (by decide +kernel)
  let groups : List Group := [.depth "-1" 18446744073709551615, .script "a.js", .debug, .depth "5" 5]
  let reordered : List Group := [.script "a.js", .depth "-1" 18446744073709551615, .depth "5" 5, .debug]
  have made : MadeOf ["-s", "-1", "a.js", "-d", "-s", "5"] groups :=
    ⟨⟨by simp [groups, Group.Fits, wrapped, five, isScript], by decide⟩, rfl⟩
  have runsLike := ((run_groups nonempty).2.1 groups made).2.2.2 reordered (by decide +kernel) rfl
  have accepted : Accepted .default [.help, .script "a.js"] := ⟨by simp [Group.Fits, isScript], by decide⟩
  exact ⟨nonempty, runsLike.2, nonempty',
    (run_groups nonempty').2.2.2 [.help, .script "a.js"] ["-s", "-h"] _ rfl accepted (.noNumber noNumber)⟩

end TinyScript.CommandLine
