import Abacus.Numeric.Checked
import Abacus.Script.Token
import Abacus.Text.Letter
import Abacus.Text.Lines

/-!
From source text to tokens.

Spaces, tabs, carriage returns and comments separate tokens and are dropped. A line feed is a token
of its own, except inside parentheses, where it is dropped too. Each token is the longest one that
starts where it starts, with one exception: a built-in name followed by digits only ends before the
digits, so `sind90` is `sind` and `90`.
-/
namespace Abacus

/-- One token at the front of a text: its kind, the characters it takes and the rest. -/
structure Reading where
  kind : TokenKind
  taken : List Char
  rest : List Char

namespace Reading

/-- The digits of a number: those before the point, those behind it, and the rest. A point counts
only if a digit follows. -/
def numberParts (cs : List Char) : List Char × List Char × List Char :=
  let whole := cs.takeWhile Char.isDigit
  match cs.dropWhile Char.isDigit with
  | '.' :: d :: rest =>
    if d.isDigit then (whole, d :: rest.takeWhile Char.isDigit, rest.dropWhile Char.isDigit)
    else (whole, [], '.' :: d :: rest)
  | rest => (whole, [], rest)

def number (cs : List Char) : Except ErrorKind Reading :=
  let (whole, fraction, rest) := numberParts cs
  let taken := if fraction.isEmpty then whole else whole ++ '.' :: fraction
  (Numeric.literal whole fraction).map fun value => ⟨.number value, taken, rest⟩

/-- What a whole word means. -/
def wordKind (word : String) : TokenKind :=
  match Keyword.ofWord? word with
  | some k => .keyword k
  | none =>
    match Operator.builtin? word with
    | some op => .builtin op
    | none => .identifier word

/-- The built-in function at the front of a word that goes on with digits only. -/
def gluedBuiltin? (word : List Char) : Option Operator :=
  let digits := word.dropWhile (!·.isDigit)
  if digits.isEmpty || !digits.all Char.isDigit then none
  else Operator.builtin? (String.ofList (word.takeWhile (!·.isDigit)))

def word (cs : List Char) : Reading :=
  let taken := cs.takeWhile Text.isWordChar
  let rest := cs.dropWhile Text.isWordChar
  match gluedBuiltin? taken with
  | some op => ⟨.builtin op, taken.takeWhile (!·.isDigit), taken.dropWhile (!·.isDigit) ++ rest⟩
  | none => ⟨wordKind (String.ofList taken), taken, rest⟩

def mark (c : Char) (cs : List Char) : Except ErrorKind Reading :=
  match c, cs with
  | '=', '=' :: rest => .ok ⟨.mark .equal, ['=', '='], rest⟩
  | '!', '=' :: rest => .ok ⟨.mark .unequal, ['!', '='], rest⟩
  | c, rest =>
    match Mark.ofChar? c with
    | some m => .ok ⟨.mark m, [c], rest⟩
    | none => .error .malformed

/-- The token that starts with `c`. -/
def first (c : Char) (cs : List Char) : Except ErrorKind Reading :=
  if c = '\n' then .ok ⟨.newline, [c], cs⟩
  else if c.isDigit then number (c :: cs)
  else if Text.isWordStart c then .ok (word (c :: cs))
  else mark c cs

theorem numberParts_rest_length (c : Char) (cs : List Char) (h : c.isDigit = true) :
    (numberParts (c :: cs)).2.2.length ≤ cs.length := by
  have hd : (c :: cs).dropWhile Char.isDigit = cs.dropWhile Char.isDigit := by
    simp [h]
  have hl : (cs.dropWhile Char.isDigit).length ≤ cs.length :=
    (List.dropWhile_suffix _).length_le
  unfold numberParts
  rw [hd]
  split
  · rename_i d rest heq
    rw [heq] at hl
    have hr : (rest.dropWhile Char.isDigit).length ≤ rest.length :=
      (List.dropWhile_suffix _).length_le
    simp only [List.length_cons] at hl
    split
    · simp only; omega
    · simp only [List.length_cons]; omega
  · exact hl

theorem word_rest_length (c : Char) (cs : List Char) (h : Text.isWordStart c = true)
    (hd : c.isDigit = false) : (word (c :: cs)).rest.length ≤ cs.length := by
  have hw : Text.isWordChar c = true := by simp [Text.isWordChar, h]
  have hl : (cs.takeWhile Text.isWordChar).length + (cs.dropWhile Text.isWordChar).length
      = cs.length := by
    rw [← List.length_append, List.takeWhile_append_dropWhile]
  have hg : ((cs.takeWhile Text.isWordChar).dropWhile (!·.isDigit)).length
      ≤ (cs.takeWhile Text.isWordChar).length := (List.dropWhile_suffix _).length_le
  unfold word
  simp only [List.takeWhile_cons, List.dropWhile_cons, hw, if_true]
  split
  · simp only [hd, Bool.not_false, if_true, List.length_append]
    omega
  · simp only; omega

theorem mark_rest_length {c : Char} {cs : List Char} {r : Reading} (h : mark c cs = .ok r) :
    r.rest.length ≤ cs.length := by
  unfold mark at h
  split at h
  · injection h with h; subst h; simp
  · injection h with h; subst h; simp
  · split at h
    · injection h with h; subst h; simp
    · cases h

/-- A token takes at least its first character. -/
theorem first_rest_length {c : Char} {cs : List Char} {r : Reading} (h : first c cs = .ok r) :
    r.rest.length ≤ cs.length := by
  unfold first at h
  split at h
  · injection h with h; subst h; simp
  split at h
  · rename_i hd
    have hn := numberParts_rest_length c cs hd
    unfold number at h
    cases hv : Numeric.literal (numberParts (c :: cs)).1 (numberParts (c :: cs)).2.1 with
    | error e => simp [hv, Except.map] at h
    | ok v =>
      simp only [hv, Except.map] at h
      injection h with h
      subst h
      exact hn
  split at h
  · rename_i hd hw
    injection h with h
    subst h
    exact word_rest_length c cs hw (by simpa using hd)
  · exact mark_rest_length h

end Reading

namespace Scan

/-- Drops blanks, comments and, inside parentheses, line feeds. -/
def skip (depth : Nat) : Bool → Location → List Char → Location × List Char
  | _, l, [] => (l, [])
  | inComment, l, c :: cs =>
    if c = '\n' then
      if depth = 0 then (l, c :: cs) else skip depth false (l.next c) cs
    else if inComment then skip depth true (l.next c) cs
    else if c = ' ' ∨ c = '\t' ∨ c = '\r' then skip depth false (l.next c) cs
    else if c = '#' then skip depth true (l.next c) cs
    else (l, c :: cs)

theorem skip_length (depth : Nat) (inComment : Bool) (l : Location) (cs : List Char) :
    (skip depth inComment l cs).2.length ≤ cs.length := by
  induction cs generalizing inComment l with
  | nil => simp [skip]
  | cons c cs ih =>
    unfold skip
    have := ih false (l.next c)
    have := ih true (l.next c)
    split
    · split
      · exact Nat.le_refl _
      · simp only [List.length_cons]; omega
    split
    · simp only [List.length_cons]; omega
    split
    · simp only [List.length_cons]; omega
    split
    · simp only [List.length_cons]; omega
    · exact Nat.le_refl _

/-- Open parentheses behind a token; a closing one too many is not counted. -/
def depthAfter (depth : Nat) : TokenKind → Nat
  | .mark .leftParen => depth + 1
  | .mark .rightParen => depth - 1
  | _ => depth

/-- The source text that a token shows; a line feed is shown by its escape. -/
def lexemeOf (r : Reading) : String :=
  if r.kind = .newline then "\\n" else String.ofList r.taken

end Scan

/-- A text read up to its end, or up to the first place where no token starts. -/
structure Scan where
  tokens : List Token
  /-- Parentheses that are still open. -/
  depth : Nat
  failure : Option Diagnostic

namespace Scan

/-- A fault at a place of the source, shown with the line it stands on. -/
def faultAt (source : List Char) (l : Location) (kind : ErrorKind) : Diagnostic :=
  ⟨Text.lineAt source l.line, (l.column : Int) - 1, kind⟩

/-- Scans `cs`, what is left of `source` from the place `l` on. -/
def readFrom (source : List Char) (depth : Nat) (l : Location) (cs : List Char) : Scan :=
  match hs : skip depth false l cs with
  | (here, []) => ⟨[⟨.endOfInput, "", here, here⟩], depth, none⟩
  | (here, c :: more) =>
    match hf : Reading.first c more with
    | .error kind => ⟨[], depth, some (faultAt source here kind)⟩
    | .ok r =>
      have : r.rest.length < cs.length := by
        have h₁ := skip_length depth false l cs
        have h₂ := Reading.first_rest_length hf
        rw [hs] at h₁
        simp only [List.length_cons] at h₁
        omega
      let there := here.after r.taken
      let tail := readFrom source (depthAfter depth r.kind) there r.rest
      { tail with tokens := ⟨r.kind, lexemeOf r, here, there⟩ :: tail.tokens }
termination_by cs.length

def ofSource (source : String) : Scan := readFrom source.toList 0 .start source.toList

end Scan

/-- The tokens of a source, the last of them the end of input. -/
def tokenize (source : String) : Except Diagnostic (List Token) :=
  let s := Scan.ofSource source
  match s.failure with
  | none => .ok s.tokens
  | some d => .error d

end Abacus
