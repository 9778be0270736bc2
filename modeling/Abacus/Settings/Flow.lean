import Abacus.Settings.Scalar

/-!
Data written on one line: quoted texts, lists in brackets, mappings in braces and plain scalars.

Every reader takes the characters in front and returns what is left; `none` is a malformed text.
-/
namespace Abacus.Flow

def isBlank (c : Char) : Bool := c == ' ' || c == '\t'

def skipBlanks (cs : List Char) : List Char := cs.dropWhile isBlank

def trimRight (cs : List Char) : List Char := (cs.reverse.dropWhile isBlank).reverse

/-- Characters that end a plain scalar inside brackets or braces. -/
def isDelimiter (c : Char) : Bool := [',', '[', ']', '{', '}'].contains c

/-- Characters that a plain scalar cannot start with. -/
def isReserved (c : Char) : Bool :=
  ['&', '*', '!', '|', '>', '%', '@', Char.ofNat 96, '#', '\t', ',', ']', '}'].contains c

/-- The character behind a backslash in double quotes. -/
def escaped? : Char → Option Char
  | '0' => some (Char.ofNat 0)
  | 'a' => some (Char.ofNat 7)
  | 'b' => some (Char.ofNat 8)
  | 't' => some '\t'
  | 'n' => some '\n'
  | 'v' => some (Char.ofNat 11)
  | 'f' => some (Char.ofNat 12)
  | 'r' => some '\r'
  | 'e' => some (Char.ofNat 27)
  | ' ' => some ' '
  | '"' => some '"'
  | '/' => some '/'
  | '\\' => some '\\'
  | _ => none

/-- The rest of a text in double quotes. -/
def doubleQuoted : List Char → Option (List Char × List Char)
  | [] => none
  | '"' :: rest => some ([], rest)
  | '\\' :: c :: rest => do
    let e ← escaped? c
    let (body, rest) ← doubleQuoted rest
    return (e :: body, rest)
  | c :: rest => do
    let (body, rest) ← doubleQuoted rest
    return (c :: body, rest)

/-- The rest of a text in single quotes, where a quote is written twice. -/
def singleQuoted : List Char → Option (List Char × List Char)
  | [] => none
  | c :: d :: rest =>
    if c = Text.singleQuote then
      if d = Text.singleQuote then do
        let (body, rest) ← singleQuoted rest
        return (c :: body, rest)
      else some ([], d :: rest)
    else do
      let (body, rest) ← singleQuoted (d :: rest)
      return (c :: body, rest)
  | [c] => if c = Text.singleQuote then some ([], []) else none

/-- A text in quotes of either kind. -/
def quotedText? : List Char → Option (List Char × List Char)
  | '"' :: rest => doubleQuoted rest
  | c :: rest => if c = Text.singleQuote then singleQuoted rest else none
  | [] => none

/-- Whether a colon in front of `rest` ends a key. -/
def endsKey (rest : List Char) : Bool :=
  match rest with
  | [] => true
  | c :: _ => isBlank c || isDelimiter c

/-- A plain scalar up to a delimiter or to the end of a key. -/
def plain : List Char → List Char × List Char
  | [] => ([], [])
  | c :: rest =>
    if isDelimiter c || (c == ':' && endsKey rest) then ([], c :: rest)
    else
      let (body, left) := plain rest
      (c :: body, left)

mutual

/-- One datum; `fuel` bounds the number of readers that call each other. -/
def datum (fuel : Nat) (cs : List Char) : Option (Datum × List Char) :=
  match fuel with
  | 0 => none
  | fuel + 1 =>
    match skipBlanks cs with
    | [] => none
    | '[' :: rest => do
      let (items, rest) ← items fuel (skipBlanks rest)
      return (.list items, rest)
    | '{' :: rest => do
      let (entries, rest) ← entries fuel [] (skipBlanks rest)
      return (.mapping entries, rest)
    | c :: rest =>
      if c = '"' ∨ c = Text.singleQuote then do
        let (body, rest) ← quotedText? (c :: rest)
        return (.text (String.ofList body), rest)
      else if isReserved c then none
      else
        let (body, rest) := plain (c :: rest)
        some (Scalar.resolve (String.ofList (trimRight body)), rest)

/-- The items of a list up to its closing bracket. A key and a value as an item are a mapping. -/
def items (fuel : Nat) (cs : List Char) : Option (List Datum × List Char) :=
  match fuel with
  | 0 => none
  | fuel + 1 =>
    match cs with
    | ']' :: rest => some ([], rest)
    | cs => do
      let (first, rest) ← datum fuel cs
      let (item, rest) ←
        match skipBlanks rest with
        | ':' :: rest => do
          let (value, rest) ← datum fuel rest
          some (.mapping [(first, value)], skipBlanks rest)
        | rest => some (first, rest)
      match rest with
      | ',' :: rest => do
        let (tail, rest) ← items fuel (skipBlanks rest)
        return (item :: tail, rest)
      | ']' :: rest => return ([item], rest)
      | _ => none

/-- The entries of a mapping up to its closing brace; a later value of a key replaces an earlier
one. -/
def entries (fuel : Nat) (found : List (Datum × Datum)) (cs : List Char) :
    Option (List (Datum × Datum) × List Char) :=
  match fuel with
  | 0 => none
  | fuel + 1 =>
    match cs with
    | '}' :: rest => some (found, rest)
    | cs => do
      let (key, rest) ← datum fuel cs
      let (value, rest) ←
        match skipBlanks rest with
        | ':' :: rest =>
          match skipBlanks rest with
          | ',' :: rest => some (.null, ',' :: rest)
          | '}' :: rest => some (.null, '}' :: rest)
          | rest => do
            let (value, rest) ← datum fuel rest
            some (value, skipBlanks rest)
        | rest => some (.null, rest)
      let found := Datum.putEntry key value found
      match rest with
      | ',' :: rest => entries fuel found (skipBlanks rest)
      | '}' :: rest => return (found, rest)
      | _ => none

end

/-- Whether a colon that ends a key occurs in a plain scalar. -/
def holdsKey : List Char → Bool
  | [] => false
  | ':' :: rest =>
    match rest with
    | [] => true
    | c :: _ => isBlank c || holdsKey rest
  | _ :: rest => holdsKey rest

/-- Whether a text starts like an item of a block list. -/
def isItem : List Char → Bool
  | ['-'] => true
  | '-' :: c :: _ => isBlank c
  | _ => false

/-- A datum that takes up a whole text. Outside brackets and braces a plain scalar goes on to the
end and holds no key. -/
def whole (cs : List Char) : Option Datum :=
  match cs with
  | [] => some .null
  | c :: rest =>
    if c = '[' ∨ c = '{' ∨ c = '"' ∨ c = Text.singleQuote then do
      let (d, left) ← datum (2 * cs.length) cs
      if (skipBlanks left).isEmpty then some d else none
    else if isReserved c || isItem cs || holdsKey cs then none
    else some (Scalar.resolve (String.ofList (c :: rest)))

end Abacus.Flow
