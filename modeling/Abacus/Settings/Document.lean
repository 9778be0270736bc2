import Abacus.Settings.Flow
import Abacus.Text.Lines

/-!
Settings documents: mappings of one key to a line, lists of one item to a line, and indentation for
what belongs to a key or an item.

Comments run from a number sign to the end of the line. A line of three hyphens may start the
document and a line of three points may end it.

This is an approximation. Documents are YAML, of which only the part is read that settings are
written in; anchors, tags, block scalars and texts over several lines are not. The program uses it,
and no result is about it.
-/
namespace Abacus.Document

/-- A line without its comment, and how far it is indented. -/
structure Line where
  indent : Nat
  content : List Char

/-- Whether a quote behind this character opens a quoted text. -/
def opensQuote (previous : Char) : Bool :=
  Flow.isBlank previous || ['[', '{', ',', ':', '-'].contains previous

/-- A line without its comment; `quote` is the quote that is open, and `previous` the character
before. -/
def uncomment (quote : Option Char) (previous : Char) : List Char → List Char
  | [] => []
  | c :: cs =>
    match quote with
    | some q => c :: uncomment (if c = q ∧ previous ≠ '\\' then none else quote) c cs
    | none =>
      if c = '#' ∧ Flow.isBlank previous then []
      else if (c = '"' ∨ c = Text.singleQuote) ∧ opensQuote previous then
        c :: uncomment (some c) c cs
      else c :: uncomment none c cs

def splitBreaks : List Char → List (List Char)
  | [] => [[]]
  | c :: cs =>
    match splitBreaks cs with
    | [] => [[c]]
    | line :: rest => if c = '\n' then [] :: line :: rest else (c :: line) :: rest

def lineOf (cs : List Char) : Line :=
  let content := Flow.trimRight (uncomment none ' ' cs)
  ⟨(content.takeWhile (· == ' ')).length, content.dropWhile (· == ' ')⟩

/-- The lines of a document that hold something. -/
def linesOf (text : String) : List Line :=
  ((splitBreaks (Text.plainBreaks text.toList)).map lineOf).filter (!·.content.isEmpty)

def isMarker (marker : String) (l : Line) : Bool :=
  l.indent == 0 && l.content == marker.toList

/-- What stands behind the hyphens on the line that starts a document. -/
def afterHyphens (l : Line) : Option Line :=
  match l.indent, l.content with
  | 0, '-' :: '-' :: '-' :: ' ' :: rest => some ⟨4, rest.dropWhile (· == ' ')⟩
  | _, _ => none

/-- The lines between the markers; `none` if there is more than one document. -/
def body (lines : List Line) : Option (List Line) :=
  let lines :=
    match lines with
    | [] => []
    | l :: rest =>
      if isMarker "---" l then rest
      else
        match afterHyphens l with
        | some inner => inner :: rest
        | none => l :: rest
  let inside := lines.takeWhile (!isMarker "..." ·)
  let after := lines.dropWhile (!isMarker "..." ·)
  if after.all (isMarker "...") && !inside.any (isMarker "---") then some inside else none

/-- A key and what follows it on its line. -/
def key? (content : List Char) : Option (Datum × List Char) :=
  match content with
  | [] => none
  | c :: _ =>
    if c = '"' ∨ c = Text.singleQuote then
      match Flow.quotedText? content with
      | some (body, rest) =>
        match Flow.skipBlanks rest with
        | [':'] => some (.text (String.ofList body), [])
        | ':' :: d :: tail =>
          if Flow.isBlank d then
            some (.text (String.ofList body), (d :: tail).dropWhile (· == ' '))
          else none
        | _ => none
      | none => none
    else if c = '[' ∨ c = '{' ∨ Flow.isReserved c then none
    else plainKey [] content
where
  plainKey (before : List Char) : List Char → Option (Datum × List Char)
    | [] => none
    | ':' :: rest =>
      let key := Scalar.resolve (String.ofList (Flow.trimRight before.reverse))
      match rest with
      | [] => some (key, [])
      | d :: tail =>
        if Flow.isBlank d then some (key, (d :: tail).dropWhile (· == ' '))
        else plainKey (':' :: before) (d :: tail)
    | c :: rest => plainKey (c :: before) rest

/-- A text that goes on in the lines below it, joined by spaces. -/
def joined (first : List Char) (lines : List Line) : List Char :=
  lines.foldl (fun text l => text ++ ' ' :: l.content) first

mutual

/-- The datum at the front of some lines and the lines that are left. Lines belong to it if they
are indented by at least `least`. -/
def node (fuel least : Nat) (lines : List Line) : Option (Datum × List Line) :=
  match fuel, lines with
  | 0, _ => none
  | _, [] => some (.null, [])
  | fuel + 1, l :: rest =>
    if l.indent < least then some (.null, l :: rest)
    else if Flow.isItem l.content then do
      let (items, left) ← blockItems fuel l.indent (l :: rest)
      return (.list items, left)
    else if (key? l.content).isSome then do
      let (entries, left) ← blockEntries fuel l.indent [] (l :: rest)
      return (.mapping entries, left)
    else do
      let d ← Flow.whole (joined l.content (rest.takeWhile (least ≤ ·.indent)))
      return (d, rest.dropWhile (least ≤ ·.indent))

/-- Items of a list, each behind a hyphen at the given indentation. -/
def blockItems (fuel indent : Nat) (lines : List Line) : Option (List Datum × List Line) :=
  match fuel, lines with
  | 0, _ => none
  | _, [] => some ([], [])
  | fuel + 1, l :: rest =>
    if l.indent < indent || (l.indent == indent && !Flow.isItem l.content) then
      some ([], l :: rest)
    else if indent < l.indent then none
    else do
      let tail := l.content.drop 1
      let inner := tail.dropWhile (· == ' ')
      let lines :=
        if inner.isEmpty then rest
        else ⟨indent + 1 + (tail.length - inner.length), inner⟩ :: rest
      let (item, left) ← node fuel (indent + 1) lines
      let (items, left) ← blockItems fuel indent left
      return (item :: items, left)

/-- Entries of a mapping, each starting at the given indentation; a later value of a key replaces
an earlier one. A list that is the value of a key need not be indented further. -/
def blockEntries (fuel indent : Nat) (found : List (Datum × Datum)) (lines : List Line) :
    Option (List (Datum × Datum) × List Line) :=
  match fuel, lines with
  | 0, _ => none
  | _, [] => some (found, [])
  | fuel + 1, l :: rest =>
    if l.indent < indent then some (found, l :: rest)
    else if indent < l.indent then none
    else do
      let (key, tail) ← key? l.content
      let (value, left) ←
        if !tail.isEmpty then do
          let d ← Flow.whole (joined tail (rest.takeWhile (indent < ·.indent)))
          some (d, rest.dropWhile (indent < ·.indent))
        else
          match rest with
          | next :: _ =>
            if next.indent == indent && Flow.isItem next.content then do
              let (items, left) ← blockItems fuel indent rest
              some (.list items, left)
            else node fuel (indent + 1) rest
          | [] => some (.null, [])
      blockEntries fuel indent (Datum.putEntry key value found) left

end

/-- The datum of a document; `none` if it is malformed. -/
def parse? (text : String) : Option Datum := do
  let lines ← body (linesOf text)
  let (d, left) ← node (3 * lines.length + 1) 0 lines
  if left.isEmpty then some d else none

end Abacus.Document
