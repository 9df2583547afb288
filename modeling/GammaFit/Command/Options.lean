import GammaFit.Text.Lines

/-!
# Command-line options

The command takes the spectrum file and these options:

* `--config FILE`, `--calibration A,B`, `--fwhm-calibration A,B`, `--output-dir DIR`,
  `--save-fit FILE`, each with one value;
* `--max-iterations N` and `--workers N`, each with a whole number;
* the switches `--sum4-only`, `--verbose` and `--quiet`;
* `--help` (`-h`) and `--version`, which end the command successfully.

A long option may be shortened to any prefix that names it alone, and its value may follow an
equal sign. An argument that starts with a dash is an option unless it is a negative number or
holds a space; after `--` every argument is a value. Options may come in any order and the last
value of an option counts. A missing or extra argument, an option without its value, a value
given to a switch, an unknown or ambiguous option, or a number that does not read ends the
command with status 2.
-/

namespace GammaFit

/-- The options of one run of the command. -/
structure Options where
  spectrum : String
  config : Option String := none
  calibration : Option String := none
  fwhmCalibration : Option String := none
  maxIterations : Option Int := none
  sum4Only : Bool := false
  workers : Int := 1
  outputDir : String := "."
  saveFit : Option String := none
  verbose : Bool := false
  quiet : Bool := false
deriving Inhabited

/-- What an option does. -/
inductive OptionKind where
  | help
  | version
  | config
  | calibration
  | fwhmCalibration
  | maxIterations
  | sum4Only
  | workers
  | outputDir
  | saveFit
  | verbose
  | quiet
deriving DecidableEq

/-- The option names, in the order the command declares them. -/
def optionNames : List (String × OptionKind) :=
  [("-h", .help), ("--help", .help), ("--config", .config), ("--calibration", .calibration),
   ("--fwhm-calibration", .fwhmCalibration), ("--max-iterations", .maxIterations),
   ("--sum4-only", .sum4Only), ("--workers", .workers), ("--output-dir", .outputDir),
   ("--save-fit", .saveFit), ("--verbose", .verbose), ("--quiet", .quiet),
   ("--version", .version)]

/-- Whether an option takes a value. -/
def OptionKind.takesValue : OptionKind → Bool
  | .config | .calibration | .fwhmCalibration | .maxIterations | .workers | .outputDir
  | .saveFit => true
  | _ => false

/-- How an argument reads: a value, a known option (with a value after `=`), an unknown
option, or an option prefix naming several options. -/
inductive ArgumentRole where
  | value
  | known (kind : OptionKind) (attached : Option String)
  | unknown
  | ambiguous

/-- Whether a text is a negative number: a dash and digits, or a dash, digits and a point
followed by digits. -/
def looksNegative (s : String) : Bool :=
  match s.toList with
  | '-' :: rest =>
    let (whole, tail) := rest.span Char.isDigit
    match tail with
    | [] => !whole.isEmpty
    | '.' :: frac => !frac.isEmpty && frac.all Char.isDigit
    | _ => false
  | _ => false

/-- The text before and after the first equal sign. -/
def splitAtEquals (s : String) : Option (String × String) :=
  let cs := s.toList
  match cs.idxOf? '=' with
  | some i => some (String.ofList (cs.take i), String.ofList (cs.drop (i + 1)))
  | none => none

/-- How an argument reads. -/
def argumentRole (s : String) : ArgumentRole :=
  if !s.startsWith "-" then .value else
  match optionNames.find? (·.1 == s) with
  | some (_, k) => .known k none
  | none =>
    if s.length == 1 then .value else
    let exact := match splitAtEquals s with
      | some (name, v) => (optionNames.find? (·.1 == name)).map fun (_, k) => ArgumentRole.known k (some v)
      | none => none
    match exact with
    | some r => r
    | none =>
      let (prefixText, attached) := match splitAtEquals s with
        | some (name, v) => (name, some v)
        | none => (s, none)
      let short := String.ofList (s.toList.take 2)
      let candidates :=
        if s.startsWith "--" then
          optionNames.filter fun (p : String × OptionKind) => p.1.startsWith prefixText
        else optionNames.filter fun (p : String × OptionKind) => p.1 == short || p.1.startsWith s
      match candidates with
      | [(n, k)] =>
        if !s.startsWith "--" && n == short then .known k (some (String.ofList (s.toList.drop 2)))
        else .known k attached
      | _ :: _ :: _ => .ambiguous
      | [] =>
        if looksNegative s || s.contains ' ' then .value else .unknown

/-- A whole number as text: blanks around, an optional sign, digits with single underscores
between them. -/
def readWhole? (s : String) : Option Int :=
  let cs := (Text.trim s).toList
  let (neg, ds) := match cs with
    | '-' :: rest => (true, rest)
    | '+' :: rest => (false, rest)
    | rest => (false, rest)
  let groups := (String.ofList ds).splitOn "_"
  if ds.isEmpty || groups.any (fun g => g.isEmpty || !g.toList.all Char.isDigit) then none else
  let n := (String.join groups).toNat!
  some (if neg then -(n : Int) else n)

/-- How reading the command line ends: options to run with, or an exit status. -/
inductive Parsed where
  | run (o : Options)
  | exit (status : Nat)

/-- Apply one option with its value. -/
def applyOption (o : Options) (k : OptionKind) (v : String) : Option Options :=
  match k with
  | .config => some { o with config := some v }
  | .calibration => some { o with calibration := some v }
  | .fwhmCalibration => some { o with fwhmCalibration := some v }
  | .maxIterations => (readWhole? v).map fun n => { o with maxIterations := some n }
  | .workers => (readWhole? v).map fun n => { o with workers := n }
  | .outputDir => some { o with outputDir := v }
  | .saveFit => some { o with saveFit := some v }
  | .sum4Only => some { o with sum4Only := true }
  | .verbose => some { o with verbose := true }
  | .quiet => some { o with quiet := true }
  | .help | .version => some o

/-- The state of reading arguments: options so far, whether the spectrum was given, and whether
an argument was left over. -/
structure Reading where
  options : Options := { spectrum := "" }
  haveSpectrum : Bool := false
  leftOver : Bool := false

/-- Read the arguments, each with its role. -/
def readArguments : List (String × ArgumentRole) → Reading → Parsed
  | [], r =>
    if !r.haveSpectrum || r.leftOver then .exit 2 else .run r.options
  | (s, .value) :: rest, r =>
    if r.haveSpectrum then readArguments rest { r with leftOver := true }
    else readArguments rest { r with options := { r.options with spectrum := s }, haveSpectrum := true }
  | (_, .unknown) :: rest, r => readArguments rest { r with leftOver := true }
  | (_, .ambiguous) :: _, _ => .exit 2
  | (_, .known k attached) :: rest, r =>
    match k with
    | .help | .version => if attached.isSome then .exit 2 else .exit 0
    | k =>
      if k.takesValue then
        match attached with
        | some v =>
          match applyOption r.options k v with
          | some o => readArguments rest { r with options := o }
          | none => .exit 2
        | none =>
          match rest with
          | (v, .value) :: rest' =>
            match applyOption r.options k v with
            | some o => readArguments rest' { r with options := o }
            | none => .exit 2
          | _ => .exit 2
      else if attached.isSome then .exit 2
      else
        match applyOption r.options k "" with
        | some o => readArguments rest { r with options := o }
        | none => .exit 2
termination_by args => args.length

/-- The roles of the arguments; everything after a first `--` is a value. -/
def argumentRoles : List String → List (String × ArgumentRole)
  | [] => []
  | "--" :: rest => rest.map fun s => (s, .value)
  | s :: rest => (s, argumentRole s) :: argumentRoles rest

/-- Read a command line. -/
def parseOptions (args : List String) : Parsed :=
  readArguments (argumentRoles args) {}

end GammaFit
