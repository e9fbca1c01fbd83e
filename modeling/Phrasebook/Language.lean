import Phrasebook.Text.Basic

/-!
# Languages

A language code is a text such as `fr-CA`; its base is what stands before the first hyphen. A
host's preferences are tried in order, each as it stands and then by its base. POSIX locales such
as `fr_FR.UTF-8@euro` are turned into language tags, and the locale variables of an environment
into one list of preferences.
-/

namespace Phrasebook

inductive Direction where
  | ltr
  | rtl
  deriving DecidableEq, Repr, Inhabited

namespace Direction

def word : Direction → String
  | ltr => "ltr"
  | rtl => "rtl"

def name : Direction → String
  | ltr => "Ltr"
  | rtl => "Rtl"

/-- Reads a direction in any mixture of ASCII case; a text that is none comes back in lower
case. -/
def parse (text : String) : Except String Direction :=
  let lower := text.map Char.toLower
  if lower = "ltr" then .ok ltr
  else if lower = "rtl" then .ok rtl
  else .error lower

def unknownMessage (lower : String) : String := "unknown text direction '" ++ lower ++ "'"

end Direction

/-! ## Negotiation -/

/-- The primary part of a language tag. -/
def baseTag (tag : String) : String := String.ofList (Text.before '-' tag.toList)

/-- The supported code for one preferred tag: the tag itself, else its base. -/
def accept? (supported : List String) (tag : String) : Option String :=
  if tag ∈ supported then some tag
  else if baseTag tag ∈ supported then some (baseTag tag)
  else none

/-- The first preferred language that is supported; `fallback` if there is none, or no list. -/
def negotiate (supported : List String) (preferences : Option (List String))
    (fallback : String) : String :=
  ((preferences.getD []).findSome? (accept? supported)).getD fallback

/-! ## Locales -/

abbrev Environment := List (String × String)

/-- The language tag of a POSIX locale, without its modifier and encoding. An empty locale and
the locales `C` and `POSIX` have none. -/
def posixTag? (locale : String) : Option String :=
  let language := Text.trim (Text.before '.' (Text.before '@' locale.toList))
  if language.isEmpty || language = ['C'] || language = ['P', 'O', 'S', 'I', 'X'] then none
  else some (String.ofList (language.map fun c => if c = '_' then '-' else c))

/-- The variables that hold locales, the most important first. -/
def localeVariables : List String := ["LANGUAGE", "LC_ALL", "LC_MESSAGES", "LANG"]

/-- The tags of all locale variables, in order; each variable may hold a list with colons. -/
def allTags (env : Environment) : List String :=
  localeVariables.flatMap fun name =>
    match env.lookup name with
    | some value => (Text.parts ':' value).filterMap posixTag?
    | none => []

/-- `tags` with only the first occurrence of each tag. -/
def firstOccurrences (tags : List String) : List String :=
  tags.foldl (fun seen tag => if tag ∈ seen then seen else seen ++ [tag]) []

/-- The preferences of an environment; it has none if no variable names a language. -/
def preferredLanguages (env : Environment) : Option (List String) :=
  match firstOccurrences (allTags env) with
  | [] => none
  | tags => some tags

end Phrasebook
