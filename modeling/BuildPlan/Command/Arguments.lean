import BuildPlan.Command.Basic

/-!
# Command line arguments

Options come before or after the command. A long option takes its value as the next argument or
after an equals sign; short options can be run together, and the last of them may have its value
attached. An option may be given once before the command and once after it, where the later one
counts. Everything that does not fit is refused.
-/

namespace BuildPlan

/-- A command with the options that all commands share. -/
structure Invocation where
  verbose : Bool
  config : Text
  command : Command
deriving DecidableEq

/-- What the arguments ask for. -/
inductive Request where
  | run (i : Invocation)
  | version
  | help
  | refused
deriving DecidableEq

namespace Arguments

/-! ## Options -/

/-- An option. -/
inductive Flag where
  | verbose
  | config
  | output
  | format
  | version
  | help
deriving DecidableEq

/-- The option has a value. -/
def Flag.takesValue : Flag → Bool
  | .config | .output | .format => true
  | .verbose | .version | .help => false

/-- Where an argument stands: before the command, or after it. -/
inductive Stage where
  | before
  | gen
  | show
  | vars
deriving DecidableEq

/-- The long options of a stage. -/
def Stage.long (s : Stage) (name : Text) : Option Flag :=
  if name = "verbose" then some .verbose
  else if name = "config" then some .config
  else if name = "help" then some .help
  else if name = "version" && s = .before then some .version
  else if name = "output" && s = .gen then some .output
  else if name = "output-format" && s = .vars then some .format
  else none

/-- The short options of a stage. -/
def Stage.short (s : Stage) (c : Char) : Option Flag :=
  match c with
  | 'v' => some .verbose
  | 'c' => some .config
  | 'h' => some .help
  | 'V' => if s = .before then some .version else none
  | 'o' => if s = .gen then some .output else none
  | _ => none

/-- The stage that a command opens. -/
def Stage.ofCommand? (name : Text) : Option Stage :=
  if name = "gen" then some .gen
  else if name = "show" then some .show
  else if name = "vars" then some .vars
  else none

/-- The options given at one stage. -/
structure Given where
  verbose : Bool := false
  config : Option Text := none
  output : Option Text := none
  format : Option ListingFormat := none

/-- The listing format of that name. -/
def format? (t : Text) : Option ListingFormat :=
  if t = "text" then some .text else if t = "json" then some .json else none

/-! ## Reading -/

/-- Why reading stops early. -/
inductive Stop where
  | version
  | help
  | refused

/-- Take note of an option without value. -/
def Given.flag (g : Given) : Flag → Except Stop Given
  | .verbose => if g.verbose then .error .refused else .ok { g with verbose := true }
  | .version => .error .version
  | .help => .error .help
  | _ => .error .refused

/-- Take note of an option with its value. An option is given once, and a path is not empty. -/
def Given.value (g : Given) (f : Flag) (v : Text) : Except Stop Given :=
  match f with
  | .config =>
    if g.config.isSome || v.isEmpty then .error .refused else .ok { g with config := some v }
  | .output =>
    if g.output.isSome || v.isEmpty then .error .refused else .ok { g with output := some v }
  | .format =>
    match g.format, format? v with
    | none, some format => .ok { g with format := some format }
    | _, _ => .error .refused
  | _ => .error .refused

/-- An argument that begins with a dash and is more than a dash. -/
def looksLikeOption : Text → Bool
  | '-' :: _ :: _ => true
  | _ => false

/-- What reading one argument leads to: the options so far, and the option, if any, whose value
must be the next argument. -/
abbrev Progress := Given × Option Flag

/-- Read short options that are run together. -/
def readShort (s : Stage) (g : Given) : Text → Except Stop Progress
  | [] => .ok (g, none)
  | c :: cs =>
    match s.short c with
    | none => .error .refused
    | some f =>
      if f.takesValue then
        match cs with
        | [] => .ok (g, some f)
        | '=' :: v => (g.value f v).map fun g => (g, none)
        | v => (g.value f v).map fun g => (g, none)
      else
        match g.flag f with
        | .ok g => readShort s g cs
        | .error stop => .error stop

/-- Read a long option, given without its dashes. -/
def readLong (s : Stage) (g : Given) (t : Text) : Except Stop Progress :=
  let (name, attached) :=
    match cutAtFirst (· == '=') t with
    | some (name, v) => (name, some v)
    | none => (t, none)
  match s.long name, attached with
  | none, _ => .error .refused
  | some f, some v => if f.takesValue then (g.value f v).map fun g => (g, none) else .error .refused
  | some f, none => if f.takesValue then .ok (g, some f) else (g.flag f).map fun g => (g, none)

/-- What a stage ends with: the options given, and the command with the arguments after it, if
a command was found. -/
abbrev StageEnd := Given × Option (Text × List Text)

/-- Read the arguments of a stage. `pending` is the option whose value comes next. -/
def readStage (s : Stage) : Given → Option Flag → List Text → Except Stop StageEnd
  | g, none, [] => .ok (g, none)
  | _, some _, [] => .error .refused
  | g, some f, arg :: args =>
    if looksLikeOption arg then .error .refused
    else
      match g.value f arg with
      | .ok g => readStage s g none args
      | .error stop => .error stop
  | g, none, arg :: args =>
    match arg with
    | '-' :: '-' :: [] => if args.isEmpty then .ok (g, none) else .error .refused
    | '-' :: '-' :: t =>
      match readLong s g t with
      | .ok (g, pending) => readStage s g pending args
      | .error stop => .error stop
    | '-' :: c :: cs =>
      match readShort s g (c :: cs) with
      | .ok (g, pending) => readStage s g pending args
      | .error stop => .error stop
    | _ => if s = .before then .ok (g, some (arg, args)) else .error .refused

/-- The build description that is read if none is named. -/
def defaultConfig : Text := "build.cfg"

/-- The file that `gen` writes if none is named. -/
def defaultOutput : Text := "build.ninja"

/-- The command of a stage. -/
def command (s : Stage) (g : Given) : Except Stop Command :=
  match s with
  | .before => .error .refused
  | .gen => .ok (.gen (g.output.getD defaultOutput))
  | .show => .ok .show
  | .vars => .ok (.vars (g.format.getD .text))

/-- Read all arguments. -/
def readAll (args : List Text) : Except Stop Invocation := do
  let (g, found) ← readStage .before {} none args
  match found with
  | none => throw .refused
  | some (name, rest) =>
    if name = "help" then throw .help
    match Stage.ofCommand? name with
    | none => throw .refused
    | some stage =>
      let (g', _) ← readStage stage {} none rest
      let c ← command stage g'
      return ⟨g.verbose || g'.verbose, (g'.config <|> g.config).getD defaultConfig, c⟩

/-- What the arguments ask for. -/
def read (args : List Text) : Request :=
  match readAll args with
  | .ok i => .run i
  | .error .version => .version
  | .error .help => .help
  | .error .refused => .refused

end Arguments

end BuildPlan
