import ElementBundle.Text.Search
import ElementBundle.Text.Word

/-!
# The command line

A command line has general options, a command, and what belongs to the command. A long option may be
cut short as long as only one option starts like that, and may carry its value behind an equals sign;
options of one letter may be joined. Behind two dashes everything is a word.
-/

namespace ElementBundle.Command

open ElementBundle.Text

inductive Flag where
  | help
  | version
  | project
  | verbose
  | components
  | yes
  | quiet
  | dryRun
  | diff
  deriving DecidableEq, Repr

def Flag.takesValue : Flag → Bool
  | .project | .components => true
  | _ => false

abbrev Options := List (String × Flag)

def generalOptions : Options :=
  [("-h", .help), ("--help", .help), ("-v", .version), ("--version", .version),
    ("--project", .project), ("--verbose", .verbose)]

inductive Name where
  | init
  | create
  | build
  | watch
  deriving DecidableEq, Repr

def Name.ofWord? : String → Option Name
  | "init" => some .init
  | "create" => some .create
  | "build" => some .build
  | "watch" => some .watch
  | _ => none

def Name.options : Name → Options
  | .init =>
    [("-h", .help), ("--help", .help), ("--components", .components), ("-y", .yes), ("--yes", .yes)]
  | .build =>
    [("-h", .help), ("--help", .help), ("--quiet", .quiet), ("--dry-run", .dryRun), ("--diff", .diff)]
  | .create | .watch => [("-h", .help), ("--help", .help)]

/-- What an argument is. An option that is not known has no flag. A value may stand in the same
argument as its option, behind an equals sign or directly. -/
inductive Piece where
  | word
  | dashes
  | option (flag : Option Flag) (name : List Char) (given : Option (List Char))
  deriving DecidableEq, Repr

def splitEquals (s : List Char) : List Char × Option (List Char) :=
  match s.dropWhile (· ≠ '=') with
  | [] => (s, none)
  | _ :: value => (s.takeWhile (· ≠ '='), some value)

def isNegative (s : List Char) : Bool :=
  let digit (c : Char) := (digitValue? c).isSome
  match s with
  | '-' :: rest =>
    let more := rest.dropWhile digit
    match more with
    | [] | ['\n'] => !rest.isEmpty && more.length < rest.length
    | '.' :: fraction =>
      let tail := fraction.dropWhile digit
      (tail.isEmpty || tail == ['\n']) && tail.length < fraction.length
    | _ => false
  | _ => false

/-- The options that an argument may mean, each with its name and a value. -/
def candidates (options : Options) (s : List Char) : List (Flag × List Char × Option (List Char)) :=
  match s with
  | '-' :: '-' :: _ =>
    let (start, given) := splitEquals s
    options.filterMap fun (name, flag) =>
      if startsWith start name.toList then some (flag, name.toList, given) else none
  | _ =>
    options.filterMap fun (name, flag) =>
      if name.toList = s.take 2 then some (flag, name.toList, some (s.drop 2))
      else if startsWith s name.toList then some (flag, name.toList, none)
      else none

/-- Tells what an argument is; an argument that may mean several options is none. -/
def readPiece? (options : Options) (argument : String) : Option Piece :=
  let s := argument.toList
  match s with
  | '-' :: _ :: _ =>
    match options.lookup argument with
    | some flag => some (.option (some flag) s none)
    | none =>
      let (start, given) := splitEquals s
      match given, options.lookup (String.ofList start) with
      | some value, some flag => some (.option (some flag) start (some value))
      | _, _ =>
        match candidates options s with
        | [(flag, name, given)] => some (.option (some flag) name given)
        | [] => some (if isNegative s || s.contains ' ' then .word else .option none s none)
        | _ => none
  | _ => some .word

def readPieces? (options : Options) : List String → Option (List (String × Piece))
  | [] => some []
  | "--" :: rest => some (("--", .dashes) :: rest.map (·, .word))
  | a :: rest => do
    let piece ← readPiece? options a
    let pieces ← readPieces? options rest
    return (a, piece) :: pieces

inductive Halt where
  | help (command : Option Name)
  | version
  | misuse
  deriving DecidableEq, Repr

/-- Takes the letters that stand in the same argument behind an option of one letter, each as an
option of its own. There has to be one, and all have to be known. -/
def takeJoined (options : Options) : List Char → Option (List (Flag × String))
  | [] => none
  | c :: cs => do
    let flag ← options.lookup (String.ofList ['-', c])
    if cs.isEmpty then return [(flag, "")]
    else return (flag, "") :: (← takeJoined options cs)

def takeOption (options : Options) (rest : List (String × Piece)) (flag : Flag) (name : List Char) :
    Option (List Char) → Option (List (Flag × String) × List (String × Piece))
  | none =>
    if flag.takesValue then
      match rest with
      | (value, .word) :: rest => some ([(flag, value)], rest)
      | _ => none
    else some ([(flag, "")], rest)
  | some given =>
    if flag.takesValue then some ([(flag, String.ofList given)], rest)
    else if (name.drop 1).head? = some '-' then none
    else (takeJoined options given).map fun joined => ((flag, "") :: joined, rest)

def halting? (command : Option Name) (taken : List (Flag × String)) : Option Halt :=
  taken.findSome? fun
    | (.help, _) => some (.help command)
    | (.version, _) => some .version
    | _ => none

/-- What a command has read: its options, its words, and whether there is something that it does not
understand. -/
structure Read where
  taken : List (Flag × String) := []
  words : List String := []
  stray : Bool := false

def Read.add (r : Read) (taken : List (Flag × String)) : Read :=
  { r with taken := r.taken ++ taken }

def Read.has (r : Read) (flag : Flag) : Bool :=
  r.taken.any (·.1 = flag)

def Read.value? (r : Read) (flag : Flag) : Option String :=
  (r.taken.reverse.find? (·.1 = flag)).map (·.2)

/-- Reads the options and words of a command. The fuel bounds the number of arguments. -/
def readRest (command : Name) : Nat → Read → List (String × Piece) → Except Halt Read
  | 0, r, _ => .ok r
  | _, r, [] => .ok r
  | fuel + 1, r, (a, .word) :: rest => readRest command fuel { r with words := r.words ++ [a] } rest
  | fuel + 1, r, (_, .dashes) :: rest =>
    readRest command fuel { r with stray := r.stray || command ≠ .create } rest
  | fuel + 1, r, (_, .option none _ _) :: rest => readRest command fuel { r with stray := true } rest
  | fuel + 1, r, (_, .option (some flag) name given) :: rest =>
    match takeOption command.options rest flag name given with
    | none => .error .misuse
    | some (taken, rest) =>
      match halting? (some command) taken with
      | some halt => .error halt
      | none => readRest command fuel (r.add taken) rest

inductive Action where
  | init (components : Option String) (yes : Bool)
  | create (tag : Option String)
  | build (quiet dryRun diff : Bool)
  | watch
  deriving DecidableEq, Repr

/-- What the command that was read is to do. Only `create` takes a word, and only one. -/
def Read.action (r : Read) : Name → Except Halt Action
  | .create =>
    if r.stray || 1 < r.words.length then .error .misuse else .ok (.create r.words.head?)
  | name =>
    if r.stray || !r.words.isEmpty then .error .misuse
    else
      match name with
      | .init => .ok (.init (r.value? .components) (r.has .yes))
      | .build => .ok (.build (r.has .quiet) (r.has .dryRun) (r.has .diff))
      | _ => .ok .watch

structure Invocation where
  project : String := "."
  verbose : Bool := false
  action : Option Action := none
  deriving DecidableEq, Repr

def readCommand (name : Name) (arguments : List String) (stray : Bool) : Except Halt Action :=
  match readPieces? name.options arguments with
  | none => .error .misuse
  | some pieces => do
    let r ← readRest name pieces.length {} pieces
    Read.action { r with stray := r.stray || stray } name

/-- Reads the general options up to the command. The fuel bounds the number of arguments. -/
def readGeneral : Nat → Read → List (String × Piece) → Except Halt Invocation
  | 0, _, _ => .error .misuse
  | _, r, [] =>
    if r.stray then .error .misuse
    else .ok { project := (r.value? .project).getD ".", verbose := r.has .verbose }
  | _, r, (a, .word) :: rest =>
    match Name.ofWord? a with
    | none => .error .misuse
    | some name => do
      let action ← readCommand name (rest.map (·.1)) r.stray
      return { project := (r.value? .project).getD ".", verbose := r.has .verbose, action }
  | _, _, (_, .dashes) :: _ => .error .misuse
  | fuel + 1, r, (_, .option none _ _) :: rest => readGeneral fuel { r with stray := true } rest
  | fuel + 1, r, (_, .option (some flag) name given) :: rest =>
    match takeOption generalOptions rest flag name given with
    | none => .error .misuse
    | some (taken, rest) =>
      match halting? none taken with
      | some halt => .error halt
      | none => readGeneral fuel (r.add taken) rest

def readLine (arguments : List String) : Except Halt Invocation :=
  match readPieces? generalOptions arguments with
  | none => .error .misuse
  | some pieces => readGeneral (pieces.length + 1) {} pieces

end ElementBundle.Command
