/-!
# Arguments

Options stand before or behind the words of a command, in long form (`--name`, `--name=value`,
`--name value`) or in short form (`-n`, several in one argument). Two dashes end the options. The
first argument that breaks a rule, or asks for help or the version, decides.
-/

namespace DefectScan.CommandLine

inductive OptionKind
  | flag
  /-- May be given several times. -/
  | count
  /-- Takes a value; an empty one may be refused. -/
  | value (mayBeEmpty : Bool)
deriving DecidableEq, Repr

structure OptionSpec where
  name : String
  short : Option Char
  kind : OptionKind

/-- Why no command is run. -/
inductive Stop
  | help
  | version
  | usage
deriving DecidableEq, Repr

/-- What a command takes. -/
structure Spec where
  options : List OptionSpec
  /-- Whether the version can be asked for. -/
  version : Bool := false
  /-- Whether the first word names a command, with arguments of its own. -/
  commands : Bool := false
  /-- How many words there may be; any number if nothing is said. -/
  words : Option Nat := none

/-- What was given. -/
structure Given where
  options : List (String × String) := []
  words : List String := []

namespace Given

def has (g : Given) (name : String) : Bool := g.options.any (·.1 = name)

def value? (g : Given) (name : String) : Option String := g.options.lookup name

/-- Adds an option; only those that are counted may be repeated. -/
def add (g : Given) (o : OptionSpec) (value : String) : Except Stop Given :=
  if g.has o.name && o.kind ≠ .count then .error .usage
  else if value.isEmpty && o.kind = .value false then .error .usage
  else .ok { g with options := g.options ++ [(o.name, value)] }

end Given

/-- Adds words, if there may be so many. -/
def addWords (spec : Spec) (g : Given) (words : List String) : Except Stop Given :=
  let words := g.words ++ words
  if spec.words.any (· < words.length) then .error .usage else .ok { g with words }

def looksLikeOption (arg : String) : Bool :=
  match arg.toList with
  | '-' :: _ :: _ => true
  | _ => false

/-- What one argument does. -/
inductive Step
  | done (g : Given)
  /-- The value of this option is the next argument. -/
  | awaits (o : OptionSpec) (g : Given)

/-- The options that end everything, by their long or short names. -/
def stopOf? (spec : Spec) (name : String) : Option Stop :=
  if name = "help" || name = "h" then some .help
  else if spec.version && (name = "version" || name = "V") then some .version
  else none

def longOption (spec : Spec) (g : Given) (body : List Char) : Except Stop Step :=
  let name := String.ofList (body.takeWhile (· ≠ '='))
  let value := match body.dropWhile (· ≠ '=') with
    | _ :: v => some (String.ofList v)
    | [] => none
  match spec.options.find? (·.name = name) with
  | none =>
    match stopOf? spec name, value with
    | some s, none => if name.length = 1 then .error .usage else .error s
    | _, _ => .error .usage
  | some o =>
    match o.kind, value with
    | .value _, some v => (g.add o v).map .done
    | .value _, none => .ok (.awaits o g)
    | _, some _ => .error .usage
    | _, none => (g.add o "").map .done

def shortOptions (spec : Spec) (g : Given) : List Char → Except Stop Step
  | [] => .ok (.done g)
  | c :: rest =>
    match spec.options.find? (·.short = some c) with
    | none =>
      match stopOf? spec c.toString with
      | some s => .error s
      | none => .error .usage
    | some o =>
      match o.kind with
      | .value _ =>
        match rest with
        | [] => .ok (.awaits o g)
        | '=' :: v => (g.add o (String.ofList v)).map .done
        | v => (g.add o (String.ofList v)).map .done
      | _ =>
        match g.add o "" with
        | .ok g => shortOptions spec g rest
        | .error s => .error s

/-- Reads arguments; those of a further command are left over. -/
def readArguments (spec : Spec) : List String → Given → Except Stop (Given × List String)
  | [], g => .ok (g, [])
  | arg :: rest, g =>
    match arg.toList with
    -- all that follows is words, whatever it looks like
    | ['-', '-'] =>
      if spec.commands then .error .usage else (addWords spec g rest).map fun g => (g, [])
    | '-' :: c :: cs =>
      let step := if c = '-' then longOption spec g cs else shortOptions spec g (c :: cs)
      match step with
      | .error s => .error s
      | .ok (.done g) => readArguments spec rest g
      | .ok (.awaits o g) =>
        match rest with
        | [] => .error .usage
        | v :: rest =>
          -- an option is never taken for the value of another
          if looksLikeOption v then .error .usage
          else
            match g.add o v with
            | .ok g => readArguments spec rest g
            | .error s => .error s
    | _ =>
      if spec.commands then .ok (g, arg :: rest)
      else
        match addWords spec g [arg] with
        | .ok g => readArguments spec rest g
        | .error s => .error s

/-! ## Commands -/

inductive Command
  | analyze (paths : List String) (json noStore : Bool)
  | fixes (file : String) (patch : Bool)
  | train (examples : Option String) (fromStore seed : Bool)
  | findings (category : Option String) (json : Bool)
  | configInit
  | configShow
deriving DecidableEq, Repr

structure Invocation where
  workspace : String
  command : Command
deriving DecidableEq, Repr

def flag (name : String) : OptionSpec := ⟨name, none, .flag⟩

def topSpec : Spec where
  options := [⟨"workspace", some 'w', .value false⟩, ⟨"verbose", some 'v', .count⟩,
    ⟨"quiet", some 'q', .flag⟩]
  version := true
  commands := true

/-- The arguments of a command that has no commands of its own. -/
def only (options : List OptionSpec) (words : Option Nat) (args : List String) :
    Except Stop Given :=
  (readArguments { options, words } args {}).map (·.1)

/-- Help on a command that exists, or on all. -/
def helpOn (names : List String) (args : List String) : Stop :=
  match args with
  | [] => .help
  | name :: _ => if ("help" :: names).contains name then .help else .usage

def arePaths (words : List String) : Bool := words.all fun w => !w.isEmpty

def configCommand (args : List String) : Except Stop Command := do
  let (_, rest) ← readArguments { options := [], commands := true } args {}
  match rest with
  | "init" :: args =>
    let _ ← only [] (some 0) args
    return .configInit
  | "show" :: args =>
    let _ ← only [] (some 0) args
    return .configShow
  | "help" :: args => .error (helpOn ["init", "show"] args)
  | _ => .error .usage

def command (args : List String) : Except Stop Command := do
  match args with
  | "analyze" :: args =>
    let g ← only [flag "json", flag "no-store"] none args
    if g.words.isEmpty || !arePaths g.words then .error .usage
    else return .analyze g.words (g.has "json") (g.has "no-store")
  | "fixes" :: args =>
    let g ← only [flag "patch"] (some 1) args
    match g.words with
    | [file] => if file.isEmpty then .error .usage else return .fixes file (g.has "patch")
    | _ => .error .usage
  | "train" :: args =>
    let g ← only [⟨"examples", none, .value false⟩, flag "from-store", flag "seed"] (some 0) args
    return .train (g.value? "examples") (g.has "from-store") (g.has "seed")
  | "findings" :: args =>
    let g ← only [⟨"category", none, .value true⟩, flag "json"] (some 0) args
    return .findings (g.value? "category") (g.has "json")
  | "config" :: args => configCommand args
  | "help" :: args => .error (helpOn ["analyze", "fixes", "train", "findings", "config"] args)
  | _ => .error .usage

/-- What a list of arguments asks for. -/
def invocation (args : List String) : Except Stop Invocation := do
  let (g, rest) ← readArguments topSpec args {}
  return ⟨(g.value? "workspace").getD ".", ← command rest⟩

end DefectScan.CommandLine
