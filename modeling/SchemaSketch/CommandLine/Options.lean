import SchemaSketch.Decimal.Numeral
import SchemaSketch.Session

/-!
The arguments of the command line: options with values, flags, and the name of one file.
-/
namespace SchemaSketch.CommandLine

structure Options where
  file : Option String
  script : Option String
  output : Option String
  settings : Option String
  format : Option Format
  width : Option Float
  height : Option Float
  logLevel : Option String
  yes : Bool
  deriving DecidableEq

def Options.none : Options :=
  ⟨.none, .none, .none, .none, .none, .none, .none, .none, false⟩

inductive Request
  | draw (options : Options)
  | help
  | misuse
  deriving DecidableEq

inductive Key
  | script
  | output
  | format
  | settings
  | width
  | height
  | logLevel
  deriving DecidableEq

def Key.ofLetter? (c : Char) : Option Key :=
  match c with
  | 's' => some .script
  | 'o' => some .output
  | 'f' => some .format
  | 'c' => some .settings
  | _ => none

def Key.ofName? (name : List Char) : Option Key :=
  if name = "script".toList then some .script
  else if name = "output".toList then some .output
  else if name = "format".toList then some .format
  else if name = "config".toList then some .settings
  else if name = "width".toList then some .width
  else if name = "height".toList then some .height
  else if name = "log-level".toList then some .logLevel
  else none

def once? {α : Type} (old new : Option α) : Option α :=
  match old with
  | none => new
  | some _ => none

def path? (value : List Char) : Option String :=
  if value.isEmpty then none else some (String.ofList value)

def format? (value : List Char) : Option Format :=
  if value = "svg".toList then some .vector
  else if value = "text".toList then some .text
  else none

def Options.set? (o : Options) (key : Key) (value : List Char) : Option Options :=
  match key with
  | .script => (once? o.script (path? value)).map fun v => { o with script := some v }
  | .output => (once? o.output (path? value)).map fun v => { o with output := some v }
  | .format => (once? o.format (format? value)).map fun v => { o with format := some v }
  | .settings => (once? o.settings (path? value)).map fun v => { o with settings := some v }
  | .width => (once? o.width (Decimal.ofText? value)).map fun v => { o with width := some v }
  | .height => (once? o.height (Decimal.ofText? value)).map fun v => { o with height := some v }
  | .logLevel =>
    (once? o.logLevel (some (String.ofList value))).map fun v => { o with logLevel := some v }

def Options.setFile? (o : Options) (value : List Char) : Option Options :=
  (once? o.file (path? value)).map fun v => { o with file := some v }

inductive Form
  | endOfOptions
  /-- An option, with its value if that is written in the same argument. -/
  | option (key : Key) (value : Option (List Char))
  | yes
  | help
  | plain
  | unknown

def attached? : List Char → Option (List Char)
  | [] => none
  | '=' :: value => some value
  | value => some value

def longForm (name : List Char) (value : Option (List Char)) : Form :=
  match Key.ofName? name with
  | some key => .option key value
  | none =>
    if value.isSome then .unknown
    else if name = "help".toList then .help
    else if name = "yes".toList then .yes
    else .unknown

def letterForm (c : Char) (value : Option (List Char)) : Form :=
  match Key.ofLetter? c with
  | some key => .option key value
  | none => if c = 'h' then .help else .unknown

def form : List Char → Form
  | ['-', '-'] => .endOfOptions
  | '-' :: '-' :: s =>
    match s.dropWhile (· ≠ '=') with
    | [] => longForm s none
    | _ :: value => longForm (s.takeWhile (· ≠ '=')) (some value)
  | '-' :: c :: s => letterForm c (attached? s)
  | _ => .plain

/-- Whether an argument can be the value of the option before it. A single hyphen can. -/
def isValue : List Char → Bool
  | '-' :: _ :: _ => false
  | _ => true

inductive Item
  | set (key : Key) (value : List Char)
  | file (path : List Char)
  | yes
  | help
  | wrong
  deriving DecidableEq

def items : List (List Char) → List Item
  | [] => []
  | arg :: args =>
    match form arg with
    | .endOfOptions => args.map .file
    | .plain => .file arg :: items args
    | .yes => .yes :: items args
    | .help => .help :: items args
    | .unknown => [.wrong]
    | .option key (some value) => .set key value :: items args
    | .option key none =>
      match args with
      | [] => [.wrong]
      | value :: args => if isValue value then .set key value :: items args else [.wrong]

/-- Collects options item by item. The first that is wrong, or asks for help, decides. -/
def collect (o : Options) : List Item → Request
  | [] => .draw o
  | .help :: _ => .help
  | .wrong :: _ => .misuse
  | .yes :: rest => if o.yes then .misuse else collect { o with yes := true } rest
  | .file path :: rest =>
    match o.setFile? path with
    | some o => collect o rest
    | none => .misuse
  | .set key value :: rest =>
    match o.set? key value with
    | some o => collect o rest
    | none => .misuse

def request (args : List String) : Request :=
  collect .none (items (args.map String.toList))

end SchemaSketch.CommandLine
