import Phrasebook.Language
import Phrasebook.Registry

/-!
# Settings

What a user sets in the environment: the manifest, and a few things that override it. A locale
that is blank and a fade that is no number count as not set; a mode that is none is a fault.
-/

namespace Phrasebook

inductive SettingsFault where
  | manifestNotSet
  /-- A mode that there is not, in lower case. -/
  | unknownMode (lower : String)
  deriving DecidableEq, Repr

namespace SettingsFault

def headline : SettingsFault → String
  | manifestNotSet => "STRINGS_MANIFEST not set"
  | unknownMode _ => "Invalid STRINGS_MODE"

/-- What is behind the headline, if there is more to say. -/
def cause? : SettingsFault → Option String
  | manifestNotSet => none
  | unknownMode lower => some (FallbackMode.unknownMessage lower)

end SettingsFault

structure Settings where
  manifestPath : String
  mode : Option FallbackMode
  /-- The language to which a session is locked. -/
  locale : Option String
  /-- The folder in which the chosen language is stored. -/
  preferenceFolder : Option String
  fadeMillis : Option Nat
  deriving DecidableEq, Repr

/-- The number that a text writes: decimal digits, perhaps after a plus sign, and a value below
2^64. -/
def wholeNumber? (text : String) : Option Nat :=
  let digits :=
    match text.toList with
    | '+' :: rest => rest
    | s => s
  if digits.isEmpty || !digits.all Char.isDigit then none
  else
    let n := Nat.ofDigitChars 10 digits 0
    if n < Nat.pow 2 64 then some n else none

namespace Settings

def modeIn (env : Environment) : Except SettingsFault (Option FallbackMode) :=
  match env.lookup "STRINGS_MODE" with
  | none => .ok none
  | some text =>
    match FallbackMode.parse text with
    | .ok mode => .ok (some mode)
    | .error lower => .error (.unknownMode lower)

def ofEnvironment (env : Environment) : Except SettingsFault Settings := do
  match env.lookup "STRINGS_MANIFEST" with
  | none => .error .manifestNotSet
  | some manifestPath =>
    let mode ← modeIn env
    return {
      manifestPath
      mode
      locale := (env.lookup "STRINGS_LOCALE").filter fun text => !(Text.trimmed text).isEmpty
      preferenceFolder := env.lookup "STRINGS_PREFERENCE_DIR"
      fadeMillis := (env.lookup "STRINGS_FADE_MS").bind wholeNumber? }

def apply {L : Type} (settings : Settings) (config : Configuration L) : Configuration L :=
  { config with
    mode := settings.mode.getD config.mode
    fade :=
      { config.fade with
        duration := (settings.fadeMillis.map Duration.ofMillis).getD config.fade.duration } }

end Settings

end Phrasebook
