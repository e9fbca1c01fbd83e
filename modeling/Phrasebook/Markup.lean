import Phrasebook.Text.Basic

/-!
# Markup

The result of evaluating a template is plain text or a tree of text and elements. A tree can be
flattened to plain text or written as an HTML fragment with its text escaped.

`{tag{content}}` becomes an element when `tag` is one of the recognized tags and fewer than
`maxTagDepth` elements enclose it; every other span stays text, its braces and its content
included. The spans of the text are found first, and then a cursor walks over it once with a stack
of the elements that are open.
-/

namespace Phrasebook

/-! ## Tags -/

inductive Tag where
  | bold
  | italic
  | underline
  | small
  | superscript
  | subscript
  deriving DecidableEq, Repr

namespace Tag

/-- The word for a tag in a text, which is also the name of its HTML element. -/
def name : Tag → String
  | bold => "b"
  | italic => "i"
  | underline => "u"
  | small => "small"
  | superscript => "sup"
  | subscript => "sub"

def all : List Tag := [bold, italic, underline, small, superscript, subscript]

def ofName? (name : String) : Option Tag := all.find? (·.name = name)

theorem ofName?_name (tag : Tag) : ofName? tag.name = some tag := by
  cases tag <;> decide

theorem name_of_ofName? {name : String} {tag : Tag} (h : ofName? name = some tag) :
    tag.name = name := by
  simpa using List.find?_some h

end Tag

/-! ## Rendered text -/

inductive Node where
  | text (s : String)
  | element (tag : Tag) (children : List Node)
  deriving Repr

/-- `c` as it is written in HTML text and attributes. -/
def htmlEscape (c : Char) : String :=
  if c = '&' then "&amp;"
  else if c = '<' then "&lt;"
  else if c = '>' then "&gt;"
  else if c = '"' then "&quot;"
  else if c = '\'' then "&#39;"
  else c.toString

/-- `s` with every character that HTML gives a meaning escaped. -/
def htmlEscaped (s : String) : String := String.join (s.toList.map htmlEscape)

namespace Node

mutual

def plain : Node → String
  | text s => s
  | element _ children => plainAll children
termination_by structural node => node

def plainAll : List Node → String
  | [] => ""
  | node :: rest => plain node ++ plainAll rest
termination_by structural nodes => nodes

end

mutual

def html : Node → String
  | text s => htmlEscaped s
  | element tag children =>
    "<" ++ tag.name ++ ">" ++ htmlAll children ++ "</" ++ tag.name ++ ">"
termination_by structural node => node

def htmlAll : List Node → String
  | [] => ""
  | node :: rest => html node ++ htmlAll rest
termination_by structural nodes => nodes

end

end Node

/-- Plain text, or text interleaved with elements. -/
inductive Rendered where
  | text (s : String)
  | markup (nodes : List Node)
  deriving Repr

namespace Rendered

/-- Nodes as a result: no node or a single text is plain text. -/
def ofNodes : List Node → Rendered
  | [] => text ""
  | [.text s] => text s
  | nodes => markup nodes

def text? : Rendered → Option String
  | text s => some s
  | markup _ => none

def isMarkup : Rendered → Bool
  | text _ => false
  | markup _ => true

def plain : Rendered → String
  | text s => s
  | markup nodes => Node.plainAll nodes

def html : Rendered → String
  | text s => htmlEscaped s
  | markup nodes => Node.htmlAll nodes

end Rendered

/-! ## Spans

A span is an opener `{word{`, its content and the `}}` that closes it. `scan` pairs openers with
their closers in one pass from left to right: openers do not overlap, and a `}}` closes the
innermost opener that is still open. Only four classes of character matter to it, so it reads
`Mark`s, and positions count marks.
-/

inductive Mark where
  | opening
  | closing
  | word
  | other
  deriving DecidableEq, Repr

namespace Mark

/-- The class of a character: the braces, and the ASCII letters, digits and underscore. -/
def ofChar (c : Char) : Mark :=
  if c = '{' then opening
  else if c = '}' then closing
  else if c.isAlphanum || c = '_' then word
  else other

def ofText (s : List Char) : List Mark := s.map ofChar

/-- The length of the opener `{word{` at the start of `marks`, if there is one. -/
def openerLength? (marks : List Mark) : Option Nat :=
  match marks with
  | opening :: rest =>
    let length := (rest.takeWhile (· = word)).length
    if length = 0 then none
    else if (rest.drop length).head? = some opening then some (length + 2)
    else none
  | _ => none

theorem two_lt_of_openerLength? {marks : List Mark} {n : Nat} (h : openerLength? marks = some n) :
    2 < n := by
  unfold openerLength? at h
  split at h
  · simp only at h
    split at h
    · cases h
    · split at h
      · cases h; omega
      · cases h
  · cases h

end Mark

/-- A closed span: `start` is where its opener starts, `inner` where its content starts, and
`close` where its closing `}}` starts. -/
structure Span where
  start : Nat
  inner : Nat
  close : Nat
  deriving DecidableEq, Repr

namespace Span

/-- The spans of `marks`, which stand at position `pos`, in the order in which they close.
`opened` holds the start and the inner position of every opener still open, innermost first. -/
def scan (marks : List Mark) (pos : Nat) (opened : List (Nat × Nat)) : List Span :=
  match marks with
  | [] => []
  | mark :: rest =>
    match h : Mark.openerLength? (mark :: rest) with
    | some length =>
      have : 2 < length := Mark.two_lt_of_openerLength? h
      scan ((mark :: rest).drop length) (pos + length) ((pos, pos + length) :: opened)
    | none =>
      if mark = .closing ∧ rest.head? = some .closing then
        match opened with
        | (start, inner) :: outer => ⟨start, inner, pos⟩ :: scan (rest.drop 1) (pos + 2) outer
        | [] => scan rest (pos + 1) []
      else scan rest (pos + 1) opened
termination_by marks.length
decreasing_by all_goals simp only [List.length_drop, List.length_cons]; omega

def all (marks : List Mark) : List Span := scan marks 0 []

/-- The closed spans of `marks` by the position of their opener. -/
def table (marks : List Mark) : Array (Option Span) :=
  (all marks).foldl (fun table span => table.setIfInBounds span.start (some span))
    (Array.replicate marks.length none)

end Span

/-- The words of all openers of a text, closed or not, from left to right. -/
def openerWords (s : List Char) : List String :=
  match s with
  | [] => []
  | c :: rest =>
    match h : Mark.openerLength? (Mark.ofText (c :: rest)) with
    | some length =>
      have : 2 < length := Mark.two_lt_of_openerLength? h
      String.ofList (rest.take (length - 2)) :: openerWords ((c :: rest).drop length)
    | none => openerWords rest
termination_by s.length

/-- Some opener of the text is followed by a `}}`. -/
def hasClosableOpener : List Char → Bool
  | [] => false
  | c :: rest =>
    (match Mark.openerLength? (Mark.ofText (c :: rest)) with
      | some length => (Text.after? ['}', '}'] (rest.drop (length - 1))).isSome
      | none => false)
    || hasClosableOpener rest

/-! ## Parsing -/

def maxTagDepth : Nat := 16

/-- The characters of `text` from `first` up to but not including `last`. There is no such part
unless `first ≤ last ≤ text.length`. -/
def cut? (text : List Char) (first last : Nat) : Option (List Char) :=
  if first ≤ last ∧ last ≤ text.length then some ((text.drop first).take (last - first)) else none

/-- An element that is open, or the whole text, which has no tag. -/
structure Frame where
  tag : Option Tag
  /-- The position at which its content ends. -/
  stop : Nat
  /-- Its nodes so far, newest first. -/
  nodes : List Node

namespace Frame

def addText (frame : Frame) (part : List Char) : Frame :=
  if part.isEmpty then frame
  else { frame with nodes := .text (String.ofList part) :: frame.nodes }

def addElement (frame : Frame) (tag : Tag) (children : List Node) : Frame :=
  { frame with nodes := .element tag children :: frame.nodes }

end Frame

/-- A place in the walk over a text. -/
structure Cursor where
  pos : Nat
  /-- Where the text begins that is not yet part of a node. -/
  pending : Nat
  /-- The open frames, innermost first. -/
  frames : List Frame

inductive Walk where
  | walking (cursor : Cursor)
  | finished (nodes : List Node)

namespace Cursor

def start (length : Nat) : Cursor := ⟨0, 0, [⟨none, length, []⟩]⟩

/-- One step: closes the innermost frame at its end, opens an element at a recognized span, and
passes over everything else. There is no step if a position lies outside the text. -/
def step (text : List Char) (spans : Array (Option Span)) (cursor : Cursor) : Option Walk :=
  match cursor.frames with
  | [] => none
  | top :: below =>
    if top.stop ≤ cursor.pos then
      match cut? text cursor.pending top.stop with
      | none => none
      | some part =>
        let nodes := (top.addText part).nodes.reverse
        match top.tag, below with
        | some tag, parent :: outer =>
          let next := top.stop + 2
          some (.walking ⟨next, next, parent.addElement tag nodes :: outer⟩)
        | _, _ => some (.finished nodes)
    else
      match spans[cursor.pos]? with
      | none => none
      | some none => some (.walking { cursor with pos := cursor.pos + 1 })
      | some (some span) =>
        match cut? text (cursor.pos + 1) (span.inner - 1) with
        | none => none
        | some word =>
          match if below.length < maxTagDepth then Tag.ofName? (String.ofList word) else none with
          | none => some (.walking { cursor with pos := span.close + 2 })
          | some tag =>
            match cut? text cursor.pending cursor.pos with
            | none => none
            | some part =>
              some (.walking
                ⟨span.inner, span.inner, ⟨some tag, span.close, []⟩ :: top.addText part :: below⟩)

/-- At most `steps` steps; `none` if the walk cannot go on or is not over by then. -/
def run (text : List Char) (spans : Array (Option Span)) : Nat → Cursor → Option (List Node)
  | 0, _ => none
  | steps + 1, cursor =>
    match cursor.step text spans with
    | none => none
    | some (.finished nodes) => some nodes
    | some (.walking next) => run text spans steps next

end Cursor

/-- The nodes of a text. The position grows with every step until the walk is over, so there is
at most one step more than there are characters. -/
def parseNodes (text : List Char) : List Node :=
  let spans := Span.table (Mark.ofText text)
  ((Cursor.start text.length).run text spans (text.length + 1)).getD []

def parseTags (text : String) : Rendered := Rendered.ofNodes (parseNodes text.toList)

end Phrasebook
