import Phrasebook.Host
import Phrasebook.Json.Basic
import Phrasebook.Manifest.Reading
import Phrasebook.Schema
import Phrasebook.Session.Start
import Phrasebook.Settings
import Phrasebook.Text.Basic
import Phrasebook.Validation

/-!
# The programs

One shows strings: it starts a session on the configuration of a manifest, changes the language if
it is asked to, and prints the language and then one line for each key, the JSON text of a list or
a text with the given variables put in. The other checks datasets: it loads those of a manifest and
prints what validation finds in them. Its code is 1 if a dataset does not load or has errors;
warnings do not count.
-/

namespace Phrasebook

/-! ## Arguments

`--lang CODE` asks for a language, `name=value` sets a variable, and every other argument is a
key to show.
-/

structure Arguments where
  /-- The language asked for last. -/
  language : Option String := none
  keys : List String := []
  vars : Fields := []

namespace Arguments

def add (arguments : Arguments) (argument : String) : Arguments :=
  match Text.splitFirst? '=' argument.toList with
  | some (name, value) =>
    { arguments with
      vars := arguments.vars.put (String.ofList name) (.str (String.ofList value)) }
  | none => { arguments with keys := arguments.keys ++ [argument] }

/-- Reads arguments after those in `arguments`. A `--lang` at the end lacks its code. -/
def readFrom (arguments : Arguments) : List String → Option Arguments
  | [] => some arguments
  | ["--lang"] => none
  | "--lang" :: code :: rest => readFrom { arguments with language := some code } rest
  | argument :: rest => readFrom (arguments.add argument) rest

def read (arguments : List String) : Option Arguments := readFrom {} arguments

end Arguments

/-! ## How a program ends

With the lines that it has printed and a code; if something stopped it, with a complaint.
-/

/-- What stops a program. -/
inductive Obstacle where
  | languageCodeMissing
  | noManifest
  | settings (fault : SettingsFault)
  | failure (failure : Failure)
  | fault (fault : Fault)
  deriving DecidableEq, Repr

namespace Obstacle

def complaint : Obstacle → List String
  | .languageCodeMissing => ["--lang needs a language code"]
  | .noManifest => ["Pass a manifest path or set STRINGS_MANIFEST"]
  | .settings cause => cause.headline :: cause.cause?.toList
  | .failure cause => cause.chain
  | .fault cause => [cause.message]

end Obstacle

structure Exit where
  lines : List String
  code : Nat
  /-- What is said of the obstacle that stopped it, outermost first. -/
  complaint : List String := []
  deriving DecidableEq, Repr

namespace Exit

def stopped (obstacle : Obstacle) : Exit := ⟨[], 1, obstacle.complaint⟩

/-- The end of a program that ran to its end or was stopped before it printed anything. -/
def ofResult : Except Obstacle Exit → Exit
  | .ok exit => exit
  | .error obstacle => stopped obstacle

end Exit

/-! ## Showing strings -/

namespace CommandLine

/-- The schema has an array where a key leads to. -/
def isArrayKey (schema : Schema) (key : String) : Bool :=
  let pointer := "/" ++ String.ofList (key.toList.map fun c => if c = '.' then '/' else c)
  match schema.value.pointer? pointer with
  | some (.arr _) => true
  | _ => false

def keyLine (schema : Schema) (strings : Strings) (lists : Lists) (vars : Fields) (key : String) :
    String :=
  match lists.get? key with
  | some items =>
    if isArrayKey schema key then key ++ " = " ++ (Json.arr items).text
    else key ++ " = " ++ strings.text key (some vars)
  | none => key ++ " = " ++ strings.text key (some vars)

def languageLine (snapshot : Snapshot) : String :=
  "language: " ++ snapshot.language ++ " (" ++ snapshot.direction.word ++ ")"

def sessionLines {L : Type} (session : Session L) (keys : List String) (vars : Fields) :
    List String :=
  let snapshot := session.snapshot
  languageLine snapshot
    :: keys.map (keyLine session.default.schema snapshot.strings snapshot.lists vars)

variable {m : Type → Type} [Monad m]

/-- The services of a program that keeps the chosen language in `folder`, if there is one. -/
def services (host : Host m) (folder : Option String) : Services m DatasetSource where
  store :=
    match folder with
    | some folder => .inFolder host folder
    | none => .forgetful
  load := DatasetSource.load host
  wait := host.wait

def orElse {ε α : Type} (obstacle : ε → Obstacle) (answer : m (Except ε α)) :
    ExceptT Obstacle m α :=
  ExceptT.mk (return (← answer).mapError obstacle)

/-- The configuration of the manifest in a file. -/
def configurationOf (host : Host m) (path : String) :
    ExceptT Obstacle m (Configuration DatasetSource) := do
  let manifest ← orElse .failure (Manifest.ofFile host path)
  orElse .failure (manifest.configure host)

def changed (services : Services m DatasetSource) (language : Option String)
    (session : Session DatasetSource) : ExceptT Obstacle m (Session DatasetSource) := do
  match language with
  | none => return session
  | some code =>
    let (session, result) ← (session.change services code : m _)
    discard (orElse .fault (pure result))
    return session

def show? (host : Host m) (env : Environment) (arguments : List String) :
    ExceptT Obstacle m Exit := do
  match Arguments.read arguments with
  | none => throw .languageCodeMissing
  | some arguments =>
    let settings ← orElse .settings (pure (Settings.ofEnvironment env))
    let config ← configurationOf host settings.manifestPath
    let services := services host settings.preferenceFolder
    let session ← orElse .fault
      (Session.start (settings.apply config) settings.locale services.store
        (preferredLanguages env))
    let session ← (session.serveAll services : m _)
    let session ← changed services arguments.language session
    return ⟨sessionLines session arguments.keys arguments.vars, 0, []⟩

def showStrings (host : Host m) (env : Environment) (arguments : List String) : m Exit :=
  return .ofResult (← (show? host env arguments).run)

/-! ## Checking datasets -/

def reportLines (code : String) (report : Report) : List String :=
  if report.isClean then [code ++ ": ok"]
  else
    (code ++ ": " ++ toString report.errors.length ++ " error(s), "
      ++ toString report.warnings.length ++ " warning(s)")
    :: (report.errors.map fun finding => "  error: " ++ finding.message)
    ++ report.warnings.map fun finding => "  warning: " ++ finding.message

structure LanguageCheck where
  lines : List String
  failed : Bool
  deriving DecidableEq, Repr

/-- The check of a language whose source has answered. -/
def LanguageCheck.of (schema : Schema) (code : String) :
    Except Failure Json → LanguageCheck
  | .ok value =>
    let report := Report.of schema.value (unwrapModule value)
    ⟨reportLines code report, report.hasErrors⟩
  | .error _ => ⟨[code ++ ": failed to load"], true⟩

variable {L : Type}

def askSource (load : L → m (Except Failure Json)) : Source L → m (Except Failure Json)
  | .inline dataset => return .ok dataset
  | .loader loader => load loader

def checkLanguages (load : L → m (Except Failure Json)) (config : Configuration L) :
    m (List LanguageCheck) :=
  config.languages.mapM fun (code, info) => do
    return .of config.default.schema code (← askSource load info.source)

/-- The end of a program that made these checks. -/
def exitOf (checks : List LanguageCheck) : Exit where
  lines := checks.flatMap (·.lines)
  code := if checks.any (·.failed) then 1 else 0

def check? (host : Host m) (env : Environment) (arguments : List String) :
    ExceptT Obstacle m Exit := do
  match arguments.head? <|> env.lookup "STRINGS_MANIFEST" with
  | none => throw .noManifest
  | some path =>
    let config ← configurationOf host path
    return exitOf (← (checkLanguages (DatasetSource.load host) config : m _))

def checkDatasets (host : Host m) (env : Environment) (arguments : List String) : m Exit :=
  return .ofResult (← (check? host env arguments).run)

end CommandLine

end Phrasebook
