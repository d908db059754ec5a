import SchemaSketch.CommandLine.Options
import SchemaSketch.SettingsFile

/-!
One run of the command: settings, source and script are read, the session is played, and the
result is written. All that a run knows of files goes through a record of operations, so that the
same run works on real files and on a folder held in memory.
-/
namespace SchemaSketch.CommandLine

/-- How a run reaches files and its input. An operation that fails answers nothing. -/
structure World (m : Type → Type) where
  isThere : String → m Bool
  read? : String → m (Option String)
  /-- Whether the file could be written. -/
  write : String → String → m Bool
  input? : m (Option String)

inductive Problem
  | file
  | settings
  | missingSettings (path : String)
  | script (error : ScriptError)
  deriving DecidableEq

def Problem.message : Problem → String
  | .file => "I/O error"
  | .settings => "failed to parse TOML configuration"
  | .missingSettings path => "missing configuration file: " ++ path
  | .script error => error.message

inductive Ending
  | done
  | failed (problem : Problem)
  | misuse
  | crashed (fault : Fault)
  deriving DecidableEq

def Ending.code : Ending → Nat
  | .done => 0
  | .failed _ => 1
  | .misuse => 2
  | .crashed _ => 101

structure Outcome where
  ending : Ending
  printed : String
  deriving DecidableEq

def Outcome.silent (ending : Ending) : Outcome :=
  ⟨ending, ""⟩

def localSettings : String := "sqlerd.toml"

variable {m : Type → Type} [Monad m]

def readSettings (world : World m) (path : String) : m (Except Problem Settings) := do
  match ← world.read? path with
  | none => pure (.error .file)
  | some text =>
    match SettingsFile.settings? text with
    | none => pure (.error .settings)
    | some settings => pure (.ok settings)

def loadSettings (world : World m) (path : Option String) : m (Except Problem Settings) := do
  match path with
  | some path =>
    if ← world.isThere path then readSettings world path
    else pure (.error (.missingSettings path))
  | none =>
    if ← world.isThere localSettings then readSettings world localSettings
    else pure (.ok .standard)

def Options.override (o : Options) (settings : Settings) : Settings :=
  { settings with canvas :=
    ⟨o.width.getD settings.canvas.width, o.height.getD settings.canvas.height⟩ }

def readSource (world : World m) (o : Options) : m (Option String) :=
  match o.file with
  | some path => world.read? path
  | none => world.input?

def readEvents (world : World m) (o : Options) : m (Except Problem (List Event)) :=
  match o.script with
  | none => pure (.ok [])
  | some path => do
    match ← world.read? path with
    | none => pure (.error .file)
    | some text =>
      match Script.events text with
      | .error e => pure (.error (.script e))
      | .ok events => pure (.ok events)

def deliver (world : World m) (o : Options) (result : String) : m Outcome :=
  match o.output with
  | none => pure ⟨.done, result ++ "\n"⟩
  | some path => do
    if ← world.write path result then pure (.silent .done) else pure (.silent (.failed .file))

def draw (world : World m) (o : Options) : m Outcome := do
  match ← loadSettings world o.settings with
  | .error problem => pure (.silent (.failed problem))
  | .ok loaded =>
    let settings := o.override loaded
    match ← readSource world o with
    | none => pure (.silent (.failed .file))
    | some source =>
      match ← readEvents world o with
      | .error problem => pure (.silent (.failed problem))
      | .ok events =>
        let confirmed := o.yes || settings.interaction.confirmDeletes
        match Session.render settings (o.format.getD .vector) source confirmed events with
        | .error fault => pure (.silent (.crashed fault))
        | .ok result => deliver world o result

def helpText : String :=
  String.intercalate "\n"
    ["Draw CREATE TABLE statements as an entity-relationship diagram", "",
      "Usage: sqlerd [OPTIONS] [FILE]", "",
      "Arguments:",
      "  [FILE]  DDL file (reads from stdin if not provided)", "",
      "Options:",
      "  -s, --script <SCRIPT>        Event script to replay on the generated diagram",
      "  -o, --output <OUTPUT>        Output file (writes to stdout if not provided)",
      "  -f, --format <FORMAT>        Output format [default: svg] [possible values: svg, text]",
      "  -c, --config <CONFIG>        Path to configuration file (TOML)",
      "      --width <WIDTH>          Canvas width in pixels",
      "      --height <HEIGHT>        Canvas height in pixels",
      "      --yes                    Accept every delete in the script",
      "      --log-level <LOG_LEVEL>  Log level (off, error, warn, info, debug, trace) " ++
        "[default: warn]",
      "  -h, --help                   Print help", ""]

def run (world : World m) (args : List String) : m Outcome :=
  match request args with
  | .misuse => pure (.silent .misuse)
  | .help => pure ⟨.done, helpText⟩
  | .draw o => draw world o

end SchemaSketch.CommandLine
