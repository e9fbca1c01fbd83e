import Phrasebook.Json.Basic
import Phrasebook.Markup
import Phrasebook.Text.Basic

/-!
# Templates

A template is the text of a string leaf. Two tests on its source decide what evaluating it takes:
variables are put in only where a `{{` is followed by a `}}`, and markup is parsed only where an
opener is followed by a `}}`. Both look at the source alone, so a variable cannot bring markup
into a template that has none.

A placeholder is `{{`, a run of one or more characters other than `}`, and `}}`. `pieces` reads a
text from left to right as literal characters and placeholders that do not overlap, and
`Piece.written` undoes it. What is put in for a placeholder is not read again.
-/

namespace Phrasebook

/-- A literal character, or a placeholder by what stands between its braces. -/
inductive Piece where
  | literal (c : Char)
  | placeholder (run : List Char)
  deriving DecidableEq, Repr

/-- The run of the placeholder at the start of `s`, and what follows the placeholder. -/
def placeholder? : List Char → Option (List Char × List Char)
  | '{' :: '{' :: rest =>
    let run := rest.takeWhile (· ≠ '}')
    match rest.dropWhile (· ≠ '}') with
    | '}' :: '}' :: after => if run.isEmpty then none else some (run, after)
    | _ => none
  | _ => none

theorem eq_of_placeholder? {s run after : List Char} (h : placeholder? s = some (run, after)) :
    s = '{' :: '{' :: (run ++ '}' :: '}' :: after) := by
  unfold placeholder? at h
  split at h
  · next rest =>
    simp only at h
    split at h
    · next tail hd =>
      split at h
      · cases h
      · simp only [Option.some.injEq, Prod.mk.injEq] at h
        obtain ⟨rfl, rfl⟩ := h
        rw [← hd, List.takeWhile_append_dropWhile]
    · cases h
  · cases h

theorem length_lt_of_placeholder? {s run after : List Char}
    (h : placeholder? s = some (run, after)) : after.length < s.length := by
  have hlen := congrArg List.length (eq_of_placeholder? h)
  simp only [List.length_cons, List.length_append] at hlen
  omega

namespace Piece

def written : Piece → List Char
  | literal c => [c]
  | placeholder run => '{' :: '{' :: (run ++ ['}', '}'])

/-- The name in a placeholder: its run without outer white space, or the last character of a run
that is all white space. -/
def nameOf (run : List Char) : List Char :=
  match Text.trim run with
  | [] => run.getLast?.toList
  | name => name

def name? : Piece → Option String
  | literal _ => none
  | placeholder run => some (String.ofList (nameOf run))

end Piece

/-- A text as literal characters and placeholders. -/
def pieces (s : List Char) : List Piece :=
  match s with
  | [] => []
  | c :: rest =>
    match h : placeholder? (c :: rest) with
    | some (run, after) =>
      have : after.length < rest.length + 1 := length_lt_of_placeholder? h
      .placeholder run :: pieces after
    | none => .literal c :: pieces rest
termination_by s.length

/-- Reading a text as pieces loses nothing. -/
theorem written_pieces (s : List Char) : (pieces s).flatMap Piece.written = s := by
  fun_induction pieces s with
  | case1 => rfl
  | case2 c rest run after h _ ih => rw [eq_of_placeholder? h]; simp [Piece.written, ih]
  | case3 c rest h ih => simp [Piece.written, ih]

def placeholders (text : String) : List String := (pieces text.toList).filterMap Piece.name?

mutual

/-- The text of a variable: nothing for null, a string as it is, the items of an array with
commas between them, and compact JSON for an object. -/
def Json.display : Json → String
  | .null => ""
  | .str s => s
  | .bool true => "true"
  | .bool false => "false"
  | .num n => n.text
  | .arr items => ",".intercalate (Json.displays items)
  | .obj fields => (Json.obj fields).text
termination_by structural value => value

def Json.displays : List Json → List String
  | [] => []
  | item :: rest => Json.display item :: Json.displays rest
termination_by structural items => items

end

/-- The text that stands for a variable; an unknown variable has none. -/
def valueText (vars : Option Fields) (name : String) : String :=
  match (vars.getD []).get? name with
  | some value => value.display
  | none => ""

/-- A piece with its variable put in. -/
def Piece.filled (vars : Option Fields) : Piece → List Char
  | literal c => [c]
  | placeholder run => (valueText vars (String.ofList (nameOf run))).toList

def interpolate (text : String) (vars : Option Fields) : String :=
  String.ofList ((pieces text.toList).flatMap (Piece.filled vars))

/-! ## Evaluating -/

structure Template where
  source : String
  deriving DecidableEq, Repr

namespace Template

/-- The source has a `{{` and a `}}` after it. -/
def hasVars (t : Template) : Bool :=
  ((Text.after? ['{', '{'] t.source.toList).bind (Text.after? ['}', '}'])).isSome

/-- The source has an opener and a `}}` after it. -/
def hasTags (t : Template) : Bool := hasClosableOpener t.source.toList

/-- The source with its variables put in, if it may have any. -/
def interpolated (t : Template) (vars : Option Fields) : String :=
  if t.hasVars then interpolate t.source vars else t.source

def render (t : Template) (vars : Option Fields) : Rendered :=
  if t.hasTags then parseTags (t.interpolated vars) else .text (t.interpolated vars)

end Template

end Phrasebook
