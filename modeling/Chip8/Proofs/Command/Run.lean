import Chip8.Command.Run
import Chip8.Proofs.Keypad.Script
import Chip8.Proofs.Session.Alike
import Chip8.Proofs.Session.FaultModes
import Chip8.Proofs.Session.Pacing
import Chip8.Proofs.Settings

/-!
# The exit codes of a run

The command that runs a program refuses its input at once or sets up a session
(`refused_iff_prepare`). What it does not refuse passes the checks of the keypad, the memory and the
clock (`checked_of_make?`). A session that is run without a clock faults within its frames or it
does not, and that decides the exit code (`exitCode_headless`); as a fault stops a session in the
same place whether it is thrown or not, the code does not depend on the mode (`exits`).
-/

namespace Chip8

/-! ## Faults within some frames -/

namespace Play

variable {σ α : Type} [Quantity α] {h : Host σ} {p : Play σ α}

/-- The session has stopped with a fault after so many frames or earlier. -/
def FaultsWithin (h : Host σ) (p : Play σ α) (n : Nat) : Prop :=
  ∃ k ≤ n, ∃ f, (p.frames h k).session.status = .halted (.fault f)

theorem frames_of_halted (halted : p.session.isHalted = true) (k : Nat) : p.frames h k = p := by
  induction k with
  | zero => rfl
  | succ k ih => rw [frames, ih, runFrame, advance_of_halted halted]

theorem frames_runFrame (h : Host σ) (p : Play σ α) (k : Nat) :
    (p.runFrame h).2.frames h k = p.frames h (k + 1) := by
  induction k with
  | zero => rfl
  | succ k ih => rw [frames, ih, ← frames]

theorem frames_withMode (h : Host σ) (p : Play σ α) (mode : FaultMode) (k : Nat) :
    (p.withMode mode).frames h k = (p.frames h k).withMode mode := by
  induction k with
  | zero => rfl
  | succ k ih =>
    rw [frames, ih]
    exact advance_withMode h (p.frames h k) mode _

theorem faultsWithin_withMode {mode : FaultMode} {n : Nat} :
    (p.withMode mode).FaultsWithin h n ↔ p.FaultsWithin h n := by
  simp only [FaultsWithin, frames_withMode]
  rfl

theorem faultsWithin_of_halted {reason : HaltReason} (halted : p.session.status = .halted reason)
    (n : Nat) :
    p.FaultsWithin h n ↔ ∃ f, reason = .fault f := by
  have stays (k : Nat) : (p.frames h k).session.status = .halted reason := by
    rwa [frames_of_halted (Session.isHalted_iff.2 ⟨reason, halted⟩)]
  simp only [FaultsWithin, stays, Status.halted.injEq]
  exact ⟨fun ⟨_, _, fault⟩ => fault, fun fault => ⟨0, Nat.zero_le n, fault⟩⟩

theorem not_faultsWithin_zero (alive : ¬ p.session.isHalted = true) : ¬ p.FaultsWithin h 0 := by
  rintro ⟨k, le, f, stopped⟩
  rw [Nat.le_zero.1 le] at stopped
  exact alive (Session.isHalted_iff.2 ⟨_, stopped⟩)

theorem faultsWithin_succ_iff (alive : ¬ p.session.isHalted = true) (n : Nat) :
    p.FaultsWithin h (n + 1) ↔ (p.runFrame h).2.FaultsWithin h n := by
  simp only [FaultsWithin, frames_runFrame]
  constructor
  · rintro ⟨k, le, f, stopped⟩
    cases k with
    | zero => exact absurd (Session.isHalted_iff.2 ⟨_, stopped⟩) alive
    | succ k => exact ⟨k, Nat.le_of_succ_le_succ le, f, stopped⟩
  · rintro ⟨k, le, f, stopped⟩
    exact ⟨k + 1, Nat.succ_le_succ le, f, stopped⟩

end Play

namespace Command.Run

variable {ρ : Type}

/-! ## Running -/

/-- The exit code for the end of the running part. -/
def Ending.code : Ending → Nat
  | .halted reason => exitCode reason
  | .thrown _ => exitFault

theorem exitCode_finish {plan : Plan} (shown : plan.picturePath = none) (world : Surroundings)
    (ending : Ending) (s : Stage ρ) : (finish plan world ending s).exitCode = ending.code := by
  unfold finish
  cases ending with
  | thrown i => rfl
  | halted reason =>
    dsimp only
    rw [shown]
    rfl

section Headless

variable {h : Host (Player ρ)} {s : Stage ρ}

theorem headless_of_halted {reason : HaltReason} (halted : s.play.session.status = .halted reason)
    (n : Nat) :
    headless h n s = (.halted reason, s) := by
  unfold headless
  rw [Session.haltReason?_eq_some_iff.2 halted]

theorem headless_zero (alive : ¬ s.play.session.isHalted = true) :
    headless h 0 s = (.halted .userQuit, s) := by
  unfold headless
  rw [Session.haltReason?_of_alive alive]

theorem headless_succ (alive : ¬ s.play.session.isHalted = true) (n : Nat) :
    headless h (n + 1) s =
      let next := { s with play := (s.play.runFrame h).2 }.flush
      match (s.play.runFrame h).1 with
      | some i => (.thrown i, next)
      | none => headless h n next := by
  rcases framed : s.play.runFrame h with ⟨_ | i, play⟩ <;>
    rw [headless, Session.haltReason?_of_alive alive, framed]

/-- The exit code tells whether there was a fault. -/
def Tells (code : Nat) (faults : Prop) : Prop :=
  code = exitFault ∧ faults ∨ code = exitOk ∧ ¬ faults

theorem Tells.congr {code : Nat} {faults faults' : Prop} (tells : Tells code faults)
    (same : faults ↔ faults') :
    Tells code faults' := by
  rwa [Tells, ← same]

theorem Tells.eq {code code' : Nat} {faults : Prop} (tells : Tells code faults)
    (tells' : Tells code' faults) :
    code' = code := by
  rcases tells with ⟨rfl, fault⟩ | ⟨rfl, none⟩
  · exact (tells'.resolve_right fun ok => ok.2 fault).1
  · exact (tells'.resolve_left fun bad => none bad.2).1

theorem Tells.iffs {code : Nat} {faults : Prop} (tells : Tells code faults) :
    code ≠ exitRefused ∧ (code = exitFault ↔ faults) ∧ (code = exitOk ↔ ¬ faults) := by
  rcases tells with ⟨rfl, fault⟩ | ⟨rfl, none⟩
  · exact ⟨by decide, iff_of_true rfl fault, iff_of_false (by decide) (not_not_intro fault)⟩
  · exact ⟨by decide, iff_of_false (by decide) none, iff_of_true rfl none⟩

theorem tells_of_halted {p : Play (Player ρ) Float} {reason : HaltReason}
    (stopped : p.session.status = .halted reason) (n : Nat) :
    Tells (exitCode reason) (p.FaultsWithin h n) := by
  rw [Tells, Play.faultsWithin_of_halted stopped]
  cases reason with
  | userQuit => exact .inr ⟨rfl, fun ⟨f, fault⟩ => nomatch fault⟩
  | fault f => exact .inl ⟨rfl, f, rfl⟩

/-- A run of frames ends with the code for a fault exactly if the session faults in one of them.
What was shown in between does not matter, nor whether a fault is thrown. -/
theorem tells_headless {p : Play (Player ρ) Float} (sound : SoundAt p.session.core)
    (same : Play.InStep Eq s.play p) (n : Nat) :
    Tells (headless h n s).1.code (p.FaultsWithin h n) := by
  induction n generalizing s p with
  | zero =>
    by_cases halted : p.session.isHalted = true
    · obtain ⟨reason, stopped⟩ := Session.isHalted_iff.1 halted
      rw [headless_of_halted (same.session ▸ stopped)]
      exact tells_of_halted stopped 0
    · rw [headless_zero (same.session ▸ halted)]
      exact .inr ⟨rfl, Play.not_faultsWithin_zero halted⟩
  | succ n ih =>
    by_cases halted : p.session.isHalted = true
    · obtain ⟨reason, stopped⟩ := Session.isHalted_iff.1 halted
      rw [headless_of_halted (same.session ▸ stopped)]
      exact tells_of_halted stopped (n + 1)
    obtain ⟨answer, framed⟩ := same.runFrame (Host.Alike.refl h)
    have told := Play.told_advance h halted p.session.clock.timerPeriod
    have kept : SoundAt (p.runFrame h).2.session.core := Play.soundAt_frames sound h 1
    have flushed : Play.InStep Eq ({ s with play := (s.play.runFrame h).2 } : Stage ρ).flush.play
        (p.runFrame h).2 :=
      ⟨framed.session, framed.host⟩
    rw [headless_succ (same.session ▸ halted), answer]
    refine Tells.congr ?_ (Play.faultsWithin_succ_iff halted n).symm
    change Play.Told _ (p.runFrame h).2 (p.runFrame h).1 at told
    cases thrown : (p.runFrame h).1 with
    | none => exact ih kept flushed
    | some i =>
      obtain ⟨f, stopped, -⟩ | ⟨-, none⟩ | ⟨-, empty, -⟩ := told
      · exact .inl ⟨rfl, (Play.faultsWithin_of_halted stopped n).2 ⟨f, rfl⟩⟩
      · cases thrown.symm.trans none
      · obtain ⟨a, counter, -, -⟩ := kept.machine.counter
        cases counter.symm.trans empty

end Headless

/-! ## What is refused -/

/-- The path of the program as it is given: by option, by position or by the environment. -/
def givenPath (args : Arguments) (env : String → Option String) : Option String :=
  args.options.get? "rom" <|> args.positionals.head? <|> env "CHIP8_ROM"

/-- The key script as it is given. -/
def givenKeys (args : Arguments) : List Char := ((args.options.get? "keys").getD "").toList

/-- The command refuses its input: there is no path, or an empty one, a setting or the key script
cannot be read, or the program cannot be read or does not fit. -/
inductive Refused (args : Arguments) (env : String → Option String) (files : Files) : Prop
  | path (none : ∀ path, givenPath args env = some path → path = "")
  | settings {e : SettingsError} (refused : Settings.resolve env args.options = .error e)
  | keys {e : KeyScriptError} (refused : KeyScript.parse? (givenKeys args) = .error e)
  | unreadable {path : String} {cause : FileError} (given : givenPath args env = some path)
      (unreadable : files.read path = .error cause)
  | oversize {path : String} {bytes : List UInt8} (given : givenPath args env = some path)
      (read : files.read path = .ok bytes) (big : 3584 < bytes.length)

/-- What the checks inside accept. -/
structure Checked (plan : Plan) (program : List UInt8) : Prop where
  keys : ∃ keypad, Keypad.create? plan.keys (.infinite false) = .ok keypad
  program : ∃ machine, Machine.start.loadProgram program = .ok machine
  clock : ∃ clock, Clock.create? plan.settings.instructionHz plan.settings.timerHz = .ok clock

/-- The number that a text gives if that is finite, but one at least. -/
def oneOrMore (raw : Option String) (fallback : Rat) : Rat :=
  match (raw.bind fun s => Text.numeral? s.toList).map Number.ofFloat with
  | some (.finite q) => max 1 q
  | _ => fallback

/-- The number of frames that the arguments ask for, a started one counted as whole: 600 if they
give no finite number. -/
def frameBudget (args : Arguments) : Nat :=
  (oneOrMore (args.options.get? "frames") 600).ceil.toNat

/-- What a plan is made of. -/
structure MadeOf (args : Arguments) (env : String → Option String) (plan : Plan) : Prop where
  programPath : givenPath args env = some plan.programPath
  named : plan.programPath ≠ ""
  settings : Settings.resolve env args.options = .ok plan.settings
  keys : ∃ entries, KeyScript.parse? (givenKeys args) = .ok entries ∧
    plan.keys = entries.map (·.event)
  realtime : plan.realtime = Settings.flag (args.options.get? "realtime") false
  frames : Number.ofFloat plan.frames = .finite (oneOrMore (args.options.get? "frames") 600)
  scale : Number.ofFloat plan.scale = .finite (oneOrMore (args.options.get? "scale") 8)
  picturePath : plan.picturePath = path? (args.options.get? "out")

section Prepare

variable {args : Arguments} {env : String → Option String} {files : Files} {plan : Plan}
  {program : List UInt8}

theorem path?_eq_none_iff {raw : Option String} :
    path? raw = none ↔ ∀ path, raw = some path → path = "" := by
  unfold path?
  rw [Option.filter_eq_none_iff]
  simp only [decide_eq_true_eq, not_not]

theorem path?_eq_some_iff {raw : Option String} {path : String} :
    path? raw = some path ↔ raw = some path ∧ path ≠ "" := by
  unfold path?
  rw [Option.filter_eq_some_iff, decide_eq_true_eq]

theorem ofFloat_atLeastOne (raw : Option String) {fallback : Float} {q : Rat}
    (value : Number.ofFloat fallback = .finite q) :
    Number.ofFloat (atLeastOne raw fallback) = .finite (oneOrMore raw q) := by
  have one : Number.ofFloat 1 = .finite 1 := by rw [Number.ofFloat_eq]; decide +kernel
  unfold atLeastOne oneOrMore
  cases raw.bind fun s => Text.numeral? s.toList with
  | none => exact value
  | some x =>
    dsimp only [Option.map_some]
    by_cases finite : x.isFinite = true
    · obtain ⟨p, given⟩ := (Number.isFinite_iff x).1 finite
      rw [if_pos finite, given]
      exact Number.ofFloat_atLeast one given
    · rw [if_neg finite]
      cases given : Number.ofFloat x with
      | finite p => exact absurd ((Number.isFinite_iff x).2 ⟨p, given⟩) finite
      | infinite negative => exact value
      | nan => exact value

/-- A run without a clock makes as many periods as the arguments ask for. -/
theorem MadeOf.periods (madeOf : MadeOf args env plan) : plan.periods = frameBudget args := by
  rw [Plan.periods, madeOf.frames, frameBudget]

/-- A plan is made unless the path, the settings or the key script are refused. -/
theorem make?_cases (args : Arguments) (env : String → Option String) :
    (∃ e, Plan.make? args env = .error e ∧ ∀ files, Refused args env files) ∨
      ∃ plan, Plan.make? args env = .ok plan ∧ MadeOf args env plan := by
  unfold Plan.make?
  dsimp only
  cases path : path? (args.options.get? "rom" <|> args.positionals.head? <|> env "CHIP8_ROM") with
  | none => exact .inl ⟨_, rfl, fun _ => .path (path?_eq_none_iff.1 path)⟩
  | some programPath =>
    obtain ⟨given, named⟩ := path?_eq_some_iff.1 path
    cases resolved : Settings.resolve env args.options with
    | error e => exact .inl ⟨_, rfl, fun _ => .settings resolved⟩
    | ok settings =>
      cases script : KeyScript.parse? ((args.options.get? "keys").getD "").toList with
      | error e => exact .inl ⟨_, rfl, fun _ => .keys script⟩
      | ok entries =>
        have frames : Number.ofFloat 600 = .finite 600 := by rw [Number.ofFloat_eq]; decide +kernel
        have scale : Number.ofFloat 8 = .finite 8 := by rw [Number.ofFloat_eq]; decide +kernel
        exact .inr ⟨_, rfl, given, named, resolved, ⟨entries, script, rfl⟩, rfl,
          ofFloat_atLeastOne _ frames, ofFloat_atLeastOne _ scale, rfl⟩

theorem madeOf_of_make? (made : Plan.make? args env = .ok plan) : MadeOf args env plan := by
  rcases make?_cases args env with ⟨e, error, -⟩ | ⟨other, ok, madeOf⟩
  · cases made.symm.trans error
  · cases made.symm.trans ok
    exact madeOf

/-- The program in a file that can be read and is not too long. -/
theorem programOfFile_eq_ok_iff {path : String} {contents : Except FileError (List UInt8)} :
    programOfFile path contents = .ok program ↔ contents = .ok program ∧
    program.length ≤ maxProgramSize := by
  cases contents with
  | error cause => exact iff_of_false nofun (fun ⟨read, _⟩ => nomatch read)
  | ok bytes =>
    rw [programOfFile]
    rcases Nat.lt_or_ge maxProgramSize bytes.length with big | fits
    · rw [checkProgram_of_lt big]
      refine iff_of_false nofun fun ⟨read, fits⟩ => ?_
      cases read
      exact absurd fits (Nat.not_le.2 big)
    · rw [checkProgram_of_le fits]
      refine ⟨fun read => ?_, fun ⟨read, _⟩ => ?_⟩
      · cases read
        exact ⟨rfl, fits⟩
      · cases read
        rfl

/-- What passes the checks of the command passes the checks inside. -/
theorem checked_of_make? (made : Plan.make? args env = .ok plan)
    (read : programOfFile plan.programPath (files.read plan.programPath) = .ok program) :
    Checked plan program := by
  have madeOf := madeOf_of_make? made
  obtain ⟨-, fits⟩ := programOfFile_eq_ok_iff.1 read
  refine ⟨?_, ?_, ?_⟩
  · obtain ⟨entries, -, keys⟩ := madeOf.keys
    rw [keys]
    exact ⟨_, KeyScript.create?_of_entries entries _⟩
  · rw [Machine.loadProgram_start, if_neg (Nat.not_lt.2 fits)]
    exact ⟨_, rfl⟩
  · have rated : Settings.Rated plan.settings := by
      rcases Settings.resolve_cases env args.options with ⟨e, error, -⟩ | ⟨s, ok, -, -, rated⟩
      · cases madeOf.settings.symm.trans error
      · cases madeOf.settings.symm.trans ok
        exact rated
    have positive {x : Float} (good : Settings.isRate x = true) :
        Quantity.lt (Quantity.ofNat 0) x = true :=
      (Bool.and_eq_true_iff.1 good).1
    refine ⟨_, if_pos ?_⟩
    rw [positive rated.1, positive rated.2, Bool.and_self]

theorem exists_start (checked : Checked plan program) (random : ρ) :
    ∃ stage, start plan program random = .ok stage ∧ SoundAt stage.play.session.core := by
  obtain ⟨keypad, keys⟩ := checked.keys
  obtain ⟨machine, loaded⟩ := checked.program
  obtain ⟨clock, created⟩ := checked.clock
  obtain ⟨session, setup⟩ : ∃ session, Session.ofProgram? program plan.settings = .ok session := by
    rw [Session.ofProgram?, loaded, created]
    exact ⟨_, rfl⟩
  obtain ⟨-, _, -, eq⟩ := Session.ofProgram?_eq_ok_iff.1 setup
  unfold start
  rw [keys, setup]
  refine ⟨_, rfl, ?_⟩
  rw [eq]
  exact ⟨Machine.Sound.startWith program, nofun⟩

theorem not_refused_of_read (madeOf : MadeOf args env plan)
    (read : programOfFile plan.programPath (files.read plan.programPath) = .ok program) :
    ¬ Refused args env files := by
  obtain ⟨contents, fits⟩ := programOfFile_eq_ok_iff.1 read
  intro refused
  cases refused with
  | path none => exact madeOf.named (none _ madeOf.programPath)
  | settings error => cases madeOf.settings.symm.trans error
  | keys error =>
    obtain ⟨entries, ok, -⟩ := madeOf.keys
    cases ok.symm.trans error
  | unreadable given error =>
    cases madeOf.programPath.symm.trans given
    cases contents.symm.trans error
  | oversize given other big =>
    cases madeOf.programPath.symm.trans given
    cases contents.symm.trans other
    exact absurd fits (Nat.not_le.2 big)

theorem refused_of_not_read {e : ProgramError} (madeOf : MadeOf args env plan)
    (error : programOfFile plan.programPath (files.read plan.programPath) = .error e) :
    Refused args env files := by
  cases contents : files.read plan.programPath with
  | error cause => exact .unreadable madeOf.programPath contents
  | ok bytes =>
    rcases Nat.lt_or_ge maxProgramSize bytes.length with big | fits
    · exact .oversize madeOf.programPath contents big
    · cases error.symm.trans (programOfFile_eq_ok_iff.2 ⟨contents, fits⟩)

theorem prepare_eq_ok {world : Surroundings} {random : ρ} {stage : Stage ρ}
    (made : Plan.make? (Arguments.parse world.args) world.env = .ok plan)
    (read : programOfFile plan.programPath (world.files.read plan.programPath) = .ok program)
    (started : start plan program random = .ok stage) :
    prepare world random = .ok (plan, stage) := by
  unfold prepare
  rw [made]
  dsimp only
  rw [read]
  dsimp only
  rw [started]

/-- The command either refuses its input, with the exit code for that, or sets up a session. -/
theorem prepare_cases (world : Surroundings) (random : ρ) :
    (∃ result, prepare world random = .error result ∧ result.exitCode = exitRefused ∧
        Refused (Arguments.parse world.args) world.env world.files) ∨
      ∃ plan program stage, Plan.make? (Arguments.parse world.args) world.env = .ok plan ∧
        programOfFile plan.programPath (world.files.read plan.programPath) = .ok program ∧
        start plan program random = .ok stage ∧ SoundAt stage.play.session.core ∧
        ¬ Refused (Arguments.parse world.args) world.env world.files := by
  unfold prepare
  rcases make?_cases (Arguments.parse world.args) world.env with
    ⟨e, error, refused⟩ | ⟨plan, made, madeOf⟩
  · rw [error]
    exact .inl ⟨_, rfl, rfl, refused world.files⟩
  rw [made]
  dsimp only
  cases read : programOfFile plan.programPath (world.files.read plan.programPath) with
  | error e => exact .inl ⟨_, rfl, rfl, refused_of_not_read madeOf read⟩
  | ok program =>
    obtain ⟨stage, started, sound⟩ := exists_start (checked_of_make? made read) random
    exact .inr ⟨plan, program, stage, rfl, read, started, sound, not_refused_of_read madeOf read⟩

end Prepare

/-! ## The fault mode -/

/-- Arguments that differ in the value of one option alone. -/
structure AgreeBut (name : String) (args args' : Arguments) : Prop where
  options : ∀ key ≠ name, args'.options.get? key = args.options.get? key
  positionals : args'.positionals = args.positionals

theorem AgreeBut.add {name : String} {args args' : Arguments} (agree : AgreeBut name args args')
    (arg : String) :
    AgreeBut name (args.add arg) (args'.add arg) := by
  unfold Arguments.add
  cases Arguments.option? arg.toList with
  | none => exact ⟨agree.options, congrArg (· ++ [arg]) agree.positionals⟩
  | some option =>
    dsimp only
    split
    · exact agree
    · refine ⟨fun key other => ?_, agree.positionals⟩
      rw [Options.get?_set, Options.get?_set, agree.options key other]

theorem AgreeBut.foldl {name : String} {args args' : Arguments} (agree : AgreeBut name args args')
    (rest : List String) :
    AgreeBut name (rest.foldl Arguments.add args) (rest.foldl Arguments.add args') := by
  induction rest generalizing args args' with
  | nil => exact agree
  | cons arg rest ih => exact ih (agree.add arg)

theorem add_onFault (args : Arguments) :
    args.add "--onFault=halt" = { args with options := args.options.set "onFault" "halt" } ∧
      args.add "--onFault=throw" = { args with options := args.options.set "onFault" "throw" } :=
  ⟨rfl, rfl⟩

theorem agreeBut_set (name value value' : String) (args : Arguments) :
    AgreeBut name { args with options := args.options.set name value }
      { args with options := args.options.set name value' } := by
  refine ⟨fun key other => ?_, rfl⟩
  rw [Options.get?_set, Options.get?_set, if_neg other, if_neg other]

/-- Command lines that differ in the fault mode alone. -/
theorem agree_parse (before after : List String) :
    AgreeBut "onFault" (.parse (before ++ "--onFault=halt" :: after))
      (.parse (before ++ "--onFault=throw" :: after)) := by
  unfold Arguments.parse
  rw [List.foldl_append, List.foldl_append, List.foldl_cons, List.foldl_cons, (add_onFault _).1,
    (add_onFault _).2]
  exact (agreeBut_set ..).foldl after

def Plan.withMode (plan : Plan) (faultMode : FaultMode) : Plan :=
  { plan with settings := { plan.settings with faultMode } }

def Stage.withMode (s : Stage ρ) (faultMode : FaultMode) : Stage ρ :=
  { s with play := s.play.withMode faultMode }

theorem layer_of_agree {names : Settings.Names} {value value' : String → Option String}
    (agree : ∀ key ≠ names.faultMode, value' key = value key) (distinct : names.faultMode ∉
      [names.instructionHz, names.timerHz, names.addIndexSetsFlag, names.traceEvery])
        (base : Settings Float) :
    Settings.layer base names value' = (Settings.layer base names value).map fun s =>
      { s with faultMode := Settings.mode (value' names.faultMode) base.faultMode } := by
  simp only [List.mem_cons, List.not_mem_nil, or_false, not_or] at distinct
  obtain ⟨hz, timer, flag, trace⟩ := distinct
  unfold Settings.layer
  rw [agree _ (Ne.symm hz), agree _ (Ne.symm timer), agree _ (Ne.symm flag),
    agree _ (Ne.symm trace)]
  cases Settings.rate names.instructionHz (value names.instructionHz) base.instructionHz with
  | error e => rfl
  | ok x => cases Settings.rate names.timerHz (value names.timerHz) base.timerHz <;> rfl

theorem ofProgram?_withMode (program : List UInt8) (settings : Settings Float)
    (faultMode : FaultMode) :
    Session.ofProgram? program { settings with faultMode } =
      (Session.ofProgram? program settings).map fun s => { s with faultMode } := by
  unfold Session.ofProgram?
  cases Machine.start.loadProgram program with
  | error e => rfl
  | ok machine => cases Clock.create? settings.instructionHz settings.timerHz <;> rfl

theorem start_withMode (plan : Plan) (program : List UInt8) (random : ρ) (mode : FaultMode) :
    start (plan.withMode mode) program random =
      (start plan program random).map (·.withMode mode) := by
  have setup := ofProgram?_withMode program plan.settings mode
  unfold start Plan.withMode
  dsimp only
  rw [setup]
  cases Keypad.create? plan.keys (.infinite false) with
  | error e => rfl
  | ok keypad => cases Session.ofProgram? program plan.settings <;> rfl

section Modes

variable {args args' : Arguments} (agree : AgreeBut "onFault" args args')

include agree

theorem exists_resolve_of_agree (env : String → Option String) :
    ∃ mode, Settings.resolve env args'.options =
      (Settings.resolve env args.options).map fun s => { s with faultMode := mode } := by
  unfold Settings.resolve
  cases Settings.ofVariables env with
  | error e => exact ⟨.halt, rfl⟩
  | ok base => exact ⟨_, layer_of_agree agree.options (by decide) base⟩

theorem exists_make?_of_agree (env : String → Option String) :
    ∃ mode, Plan.make? args' env = (Plan.make? args env).map (·.withMode mode) := by
  obtain ⟨mode, resolved⟩ := exists_resolve_of_agree agree env
  have same (key : String) (other : key ≠ "onFault") := agree.options key other
  refine ⟨mode, ?_⟩
  unfold Plan.make?
  dsimp only
  rw [resolved, agree.positionals, same "rom" (by decide), same "keys" (by decide),
    same "realtime" (by decide), same "frames" (by decide), same "scale" (by decide),
    same "out" (by decide), same "bell" (by decide), same "dump" (by decide)]
  cases path? (args.options.get? "rom" <|> args.positionals.head? <|> env "CHIP8_ROM") with
  | none => rfl
  | some programPath =>
    cases Settings.resolve env args.options with
    | error e => rfl
    | ok settings => cases KeyScript.parse? ((args.options.get? "keys").getD "").toList <;> rfl

theorem refused_of_agree {env : String → Option String} {files : Files}
    (refused : Refused args env files) :
    Refused args' env files := by
  have path : givenPath args' env = givenPath args env := by
    unfold givenPath
    rw [agree.options "rom" (by decide), agree.positionals]
  cases refused with
  | path none => exact .path (path ▸ none)
  | @settings e error =>
    obtain ⟨mode, resolved⟩ := exists_resolve_of_agree agree env
    rw [error] at resolved
    exact .settings resolved
  | @keys e error =>
    have keys : givenKeys args' = givenKeys args := by
      unfold givenKeys
      rw [agree.options "keys" (by decide)]
    exact .keys (keys ▸ error)
  | unreadable given error => exact .unreadable (path ▸ given) error
  | oversize given read big => exact .oversize (path ▸ given) read big

end Modes

/-! ## The exit code -/

/-- The command neither writes a picture nor runs against the wall clock. -/
structure Plain (args : Arguments) : Prop where
  shown : path? (args.options.get? "out") = none
  headless : Settings.flag (args.options.get? "realtime") false = false

theorem plain_of_agree {args args' : Arguments} (agree : AgreeBut "onFault" args args')
    (plain : Plain args) :
    Plain args' where
  shown := by rw [agree.options "out" (by decide), plain.shown]
  headless := by rw [agree.options "realtime" (by decide), plain.headless]

section Exit

variable {world : Surroundings} (draw : ρ → UInt8 × ρ) {random : ρ} (readings : List Float)

theorem exists_run_of_start (plain : Plain (Arguments.parse world.args)) {plan : Plan}
    {program : List UInt8} {stage : Stage ρ}
    (made : Plan.make? (Arguments.parse world.args) world.env = .ok plan)
    (read : programOfFile plan.programPath (world.files.read plan.programPath) = .ok program)
    (started : start plan program random = .ok stage) (sound : SoundAt stage.play.session.core) :
    ∃ result, run world draw random readings = some result ∧
      Tells result.exitCode
        (stage.play.FaultsWithin (host draw) (frameBudget (Arguments.parse world.args))) := by
  have madeOf := madeOf_of_make? made
  have tells := tells_headless (h := host draw) sound ⟨rfl, rfl⟩ plan.periods
  unfold run
  rw [prepare_eq_ok made read started]
  dsimp only
  rw [madeOf.realtime, plain.headless, if_neg Bool.false_ne_true]
  refine ⟨_, rfl, ?_⟩
  rw [exitCode_finish (madeOf.picturePath.trans plain.shown), ← madeOf.periods]
  exact tells

/-- The command refuses its input with exit code one. Else it sets up a session as the arguments and
the environment ask for, and the exit code is two if that faults within the frames the arguments ask
for, and zero if not; whether a fault is thrown makes no difference. The checks inside accept
whatever the command does not refuse, in a run against the wall clock and with a picture too. -/
theorem exits (world : Surroundings) (draw : ρ → UInt8 × ρ) (random : ρ) (readings : List Float) :
    (∀ plan program, Plan.make? (Arguments.parse world.args) world.env = .ok plan →
        programOfFile plan.programPath (world.files.read plan.programPath) = .ok program →
        Checked plan program) ∧
      (Plain (Arguments.parse world.args) →
        ∃ result, run world draw random readings = some result ∧
        (result.exitCode = 1 ↔ Refused (Arguments.parse world.args) world.env world.files) ∧
        (¬ Refused (Arguments.parse world.args) world.env world.files →
          ∃ plan program stage, Plan.make? (Arguments.parse world.args) world.env = .ok plan ∧
            MadeOf (Arguments.parse world.args) world.env plan ∧
            programOfFile plan.programPath (world.files.read plan.programPath) = .ok program ∧
            start plan program random = .ok stage ∧
            (result.exitCode = 2 ↔
              stage.play.FaultsWithin (host draw) (frameBudget (Arguments.parse world.args))) ∧
            (result.exitCode = 0 ↔
              ¬ stage.play.FaultsWithin (host draw) (frameBudget (Arguments.parse world.args)))) ∧
        ∀ before after, world.args = before ++ "--onFault=halt" :: after →
          ∃ result', run { world with args := before ++ "--onFault=throw" :: after } draw random
              readings = some result' ∧
            result'.exitCode = result.exitCode) := by
  refine ⟨fun plan program made read => checked_of_make? made read, fun plain => ?_⟩
  have agree {before after : List String}
      (line : world.args = before ++ "--onFault=halt" :: after) :
      AgreeBut "onFault" (.parse world.args) (.parse (before ++ "--onFault=throw" :: after)) := by
    rw [line]
    exact agree_parse before after
  rcases prepare_cases world random with
    ⟨result, error, code, refused⟩ | ⟨plan, program, stage, made, read, started, sound, accepted⟩
  · have ends : run world draw random readings = some result := by rw [run, error]
    refine ⟨result, ends, iff_of_true code refused, fun accepted => absurd refused accepted,
      fun before after line => ?_⟩
    rcases prepare_cases { world with args := before ++ "--onFault=throw" :: after } random with
      ⟨result', error', code', -⟩ | ⟨-, -, -, -, -, -, -, accepted⟩
    · exact ⟨result', by rw [run, error'], code'.trans code.symm⟩
    · exact absurd (refused_of_agree (agree line) refused) accepted
  · obtain ⟨result, ends, tells⟩ :=
      exists_run_of_start draw readings plain made read started sound
    obtain ⟨known, fault, ok⟩ := tells.iffs
    refine ⟨result, ends, iff_of_false known accepted,
      fun _ => ⟨plan, program, stage, made, madeOf_of_make? made, read, started, fault, ok⟩,
      fun before after line => ?_⟩
    obtain ⟨mode, made'⟩ := exists_make?_of_agree (agree line) world.env
    have started' := start_withMode plan program random mode
    rw [made] at made'
    rw [started] at started'
    let other : Surroundings := { world with args := before ++ "--onFault=throw" :: after }
    have plain' : Plain (Arguments.parse other.args) := plain_of_agree (agree line) plain
    obtain ⟨result', ends', tells'⟩ :=
      exists_run_of_start draw readings plain' made' read started' sound
    have budget : frameBudget (Arguments.parse other.args) =
        frameBudget (Arguments.parse world.args) := by
      rw [frameBudget, (agree line).options "frames" (by decide), frameBudget]
    rw [budget] at tells'
    exact ⟨result', ends', tells.eq (tells'.congr Play.faultsWithin_withMode)⟩

end Exit

/-- A program that returns with nothing to return to in its second frame, the last one asked for,
in both modes. -/
theorem exits_with_fault :
    let line (mode : String) : List String := ["a.ch8", mode, "--frames=1.5"]
    let program : List UInt8 := (List.replicate 10 [0x60, 0x05]).flatten ++ [0x00, 0xEE]
    let world (mode : String) : Surroundings :=
      ⟨line mode, fun _ => none, ⟨fun _ => .ok program, fun _ => .ok ()⟩, .standard⟩
    let code (mode : String) : Option Nat :=
      (run (world mode) (fun u : Unit => (0, u)) () []).map (·.exitCode)
    Plain (Arguments.parse (line "--onFault=halt")) ∧
      frameBudget (Arguments.parse (line "--onFault=halt")) = 2 ∧
      ¬ Refused (Arguments.parse (line "--onFault=halt")) (world "").env (world "").files ∧
      code "--onFault=halt" = some 2 ∧ code "--onFault=throw" = some 2 := by
  intro line program world code
  have plain : Plain (Arguments.parse (line "--onFault=halt")) :=
    ⟨by decide +kernel, by decide +kernel⟩
  have halting : code "--onFault=halt" = some 2 := by decide +kernel
  obtain ⟨result, ends, refused, -, modes⟩ :=
    (exits (world "--onFault=halt") (fun u : Unit => (0, u)) () []).2 plain
  obtain ⟨result', ends', same⟩ := modes ["a.ch8"] ["--frames=1.5"] rfl
  have other : ({ world "--onFault=halt" with
      args := ["a.ch8"] ++ "--onFault=throw" :: ["--frames=1.5"] } : Surroundings) =
        world "--onFault=throw" := by
    dsimp only [world]
    rfl
  rw [other] at ends'
  have two : result.exitCode = 2 := by
    simp only [code, ends, Option.map_some, Option.some.injEq] at halting
    exact halting
  refine ⟨plain, by decide +kernel, fun bad => ?_, halting, ?_⟩
  · rw [refused.2 bad] at two
    cases two
  · simp only [code, ends', Option.map_some, same, two]

end Command.Run

end Chip8
