import PvNet.Text.Blank
import PvNet.Text.Decimal
set_option autoImplicit false

/-!
# The command line

A command line names a command and gives options and channel names.  Options that
concern all commands may stand in front of the command or after it, where they win.
An option is given at most once in each place.  Arguments are taken from left to
right, and the first one that asks for help or makes no sense decides.
-/

namespace PvNet.Cli

/-- The forms in which results are printed. -/
inductive OutputFormat where
  | json
  | table
  /-- A line of text for a reader. -/
  | pretty
  /-- The bare values. -/
  | raw
  deriving DecidableEq, Repr, Inhabited

def OutputFormat.ofName? : String → Option OutputFormat
  | "json" => some .json
  | "table" => some .table
  | "pretty" => some .pretty
  | "raw" => some .raw
  | _ => none

/-- What the program is asked to do. -/
inductive Action where
  /-- Relay searches to the other servers of this host. -/
  | forward (duration : Option String)
  /-- Print the servers that appear and change. -/
  | beacons (count : Option Nat) (duration : Option String) (all : Bool)
  /-- Find the servers of channels. -/
  | search (channels : List String) (timeout : String) (connect : Bool)
  /-- Answer searches for channels and accept connections. -/
  | serve (channels : List String) (duration : Option String)
  /-- Print the settings and the network. -/
  | envinfo
  | version (extended : Bool)
  deriving DecidableEq, Repr

/-- A command line. -/
structure Invocation where
  format : Option OutputFormat
  action : Action
  deriving DecidableEq, Repr

/-- Why a command line names no command. -/
inductive NoCommand where
  | help
  | versionText
  /-- The command line makes no sense. -/
  | misuse
  deriving DecidableEq, Repr, Inhabited

/-- An option that a command takes. -/
structure OptionRule where
  name : String
  /-- Which values it takes; none at all for a flag. -/
  accepts : Option (String → Bool)

/-- What the arguments of a command may be. -/
structure ArgumentRules where
  options : List OptionRule
  /-- Whether arguments that are no options are accepted. -/
  positionals : Bool

/-- The arguments of a command. -/
structure Arguments where
  /-- The options with their values, empty for flags. -/
  options : List (String × String) := []
  positionals : List String := []
  deriving DecidableEq, Repr, Inhabited

namespace Arguments

/-- The value of an option. -/
def option? (a : Arguments) (name : String) : Option String := a.options.lookup name

/-- Whether a flag is given. -/
def flag (a : Arguments) (name : String) : Bool := (a.option? name).isSome

/-- The arguments with an option, unless it is given already. -/
def addOption (a : Arguments) (name value : String) : Except NoCommand Arguments :=
  if a.flag name then .error .misuse else .ok { a with options := (name, value) :: a.options }

/-- The arguments with one that is no option. -/
def addPositional (a : Arguments) (rules : ArgumentRules) (arg : String) :
    Except NoCommand Arguments :=
  if rules.positionals then .ok { a with positionals := a.positionals ++ [arg] }
  else .error .misuse

end Arguments

/-- Any value. -/
def anyText (_ : String) : Bool := true

/-- The options of all commands. -/
def commonOptions : List OptionRule :=
  [ ⟨"format", some fun v => (OutputFormat.ofName? v).isSome⟩,
    ⟨"log-format", some fun v => v ∈ ["text", "json"]⟩,
    ⟨"log-level", some fun v => v ∈ ["error", "warn", "info", "debug", "trace"]⟩ ]

/-- Whether an argument has the form of an option. -/
def isOption (arg : String) : Bool :=
  match arg.toList with
  | '-' :: _ :: _ => true
  | _ => false

/-- What an argument is taken for. -/
inductive Token where
  /-- All arguments after this one are no options. -/
  | separator
  /-- An option with two dashes, and what stands after its equals sign. -/
  | long (name : String) (attached : Option String)
  /-- An option with one dash, given by its first letter. -/
  | short (letter : Char)
  | word (arg : String)
  deriving DecidableEq, Repr

/-- What an argument is taken for. -/
def Token.ofText (arg : String) : Token :=
  match arg.toList with
  | ['-', '-'] => .separator
  | '-' :: '-' :: rest =>
    match Text.cutFirst? '=' (String.ofList rest) with
    | some (name, value) => .long name (some value)
    | none => .long (String.ofList rest) none
  | '-' :: letter :: _ => .short letter
  | _ => .word arg

/-- A long option and the arguments after it.  Returns what is left of those. -/
def takeOption (rules : ArgumentRules) (a : Arguments) (name : String) (attached : Option String)
    (rest : List String) : Except NoCommand (Arguments × List String) :=
  match rules.options.find? (·.name = name) with
  | none =>
    if name = "help" ∧ attached = none then .error .help else .error .misuse
  | some rule =>
    match rule.accepts, attached, rest with
    | none, none, rest => return (← a.addOption name "", rest)
    | none, some _, _ => .error .misuse
    | some accepts, some value, rest =>
      if accepts value then return (← a.addOption name value, rest) else .error .misuse
    | some accepts, none, value :: rest =>
      if !isOption value && accepts value then return (← a.addOption name value, rest)
      else .error .misuse
    | some _, none, [] => .error .misuse

theorem length_le_of_takeOption {rules : ArgumentRules} {a a' : Arguments} {name : String}
    {attached : Option String} {rest rest' : List String}
    (h : takeOption rules a name attached rest = .ok (a', rest')) : rest'.length ≤ rest.length := by
  unfold takeOption at h
  split at h
  · split at h <;> simp at h
  · split at h
    · simp only [bind, Except.bind] at h
      split at h <;> simp_all [pure, Except.pure]
    · simp at h
    · split at h
      · simp only [bind, Except.bind] at h
        split at h <;> simp_all [pure, Except.pure]
      · simp at h
    · split at h
      · simp only [bind, Except.bind] at h
        split at h
        · simp at h
        · simp only [pure, Except.pure, Except.ok.injEq, Prod.mk.injEq] at h
          simp [← h.2]
      · simp at h
    · simp at h

def takeArguments (rules : ArgumentRules) (a : Arguments) :
    List String → Except NoCommand Arguments
  | [] => .ok a
  | arg :: rest =>
    match Token.ofText arg with
    | .separator => rest.foldlM (fun a arg => a.addPositional rules arg) a
    | .word arg => do takeArguments rules (← a.addPositional rules arg) rest
    | .short letter => .error (if letter = 'h' then .help else .misuse)
    | .long name attached =>
      match _h : takeOption rules a name attached rest with
      | .error e => .error e
      | .ok (a, rest) => takeArguments rules a rest
termination_by args => args.length
decreasing_by
  · simp
  · have := length_le_of_takeOption ‹_›
    simp only [List.length_cons]
    omega

/-- What the arguments of a command may be. -/
def rulesOf? : String → Option ArgumentRules
  | "forward" => some ⟨[⟨"duration", some anyText⟩], false⟩
  | "beacons" =>
    some
      ⟨[ ⟨"count", some fun v => (Decimal.below? UInt64.size v).isSome⟩,
         ⟨"duration", some anyText⟩,
         ⟨"all", none⟩ ], false⟩
  | "search" => some ⟨[⟨"timeout", some anyText⟩, ⟨"connect", none⟩], true⟩
  | "serve" => some ⟨[⟨"duration", some anyText⟩], true⟩
  | "envinfo" => some ⟨[], false⟩
  | "version" => some ⟨[⟨"extended", none⟩], false⟩
  | _ => none

/-- What a command with a name and arguments asks for; some commands need a channel. -/
def actionOf (name : String) (a : Arguments) : Except NoCommand Action :=
  let duration := a.option? "duration"
  match name with
  | "forward" => .ok (.forward duration)
  | "beacons" =>
    .ok (.beacons ((a.option? "count").bind (Decimal.below? UInt64.size)) duration (a.flag "all"))
  | "search" =>
    if a.positionals.isEmpty then .error .misuse
    else .ok (.search a.positionals ((a.option? "timeout").getD "5s") (a.flag "connect"))
  | "serve" =>
    if a.positionals.isEmpty then .error .misuse else .ok (.serve a.positionals duration)
  | "envinfo" => .ok .envinfo
  | "version" => .ok (.version (a.flag "extended"))
  | _ => .error .misuse

/-- What asking for help on some commands leads to. -/
def helpOn : List String → NoCommand
  | [] => .help
  | ["help"] => .help
  | [name] => if (rulesOf? name).isSome then .help else .misuse
  | _ => .misuse

/-- The command line after the options in front of the command. -/
def Invocation.ofCommand (before : Arguments) (name : String) (rest : List String) :
    Except NoCommand Invocation :=
  if name = "help" then .error (helpOn rest)
  else
    match rulesOf? name with
    | none => .error .misuse
    | some rules => do
      let rules := { rules with options := rules.options ++ commonOptions }
      let after ← takeArguments rules {} rest
      let format := (after.option? "format").or (before.option? "format")
      return ⟨format.bind OutputFormat.ofName?, ← actionOf name after⟩

/-- The command line with the options in front of the command. -/
def Invocation.parseFrom (before : Arguments) : List String → Except NoCommand Invocation
  | [] => .error .misuse
  | arg :: rest =>
    match Token.ofText arg with
    | .separator => .error .misuse
    | .word name => ofCommand before name rest
    | .short letter =>
      .error (if letter = 'h' then .help else if letter = 'V' then .versionText else .misuse)
    | .long name attached =>
      if name = "version" ∧ attached = none then .error .versionText
      else
        match _h : takeOption ⟨commonOptions, false⟩ before name attached rest with
        | .error e => .error e
        | .ok (before, rest) => parseFrom before rest
termination_by args => args.length
decreasing_by
  have := length_le_of_takeOption ‹_›
  simp only [List.length_cons]
  omega

/-- The command line that arguments make up. -/
def Invocation.parse (args : List String) : Except NoCommand Invocation := parseFrom {} args

end PvNet.Cli
