import Abacus.Run.Session

/-!
The interactive prompt as a function of the lines that are typed.

A line that ends with a backslash is continued by the next one. Empty inputs are passed over. A few
words are commands; everything else goes to the session, and an answer that is not empty is
printed.
-/
namespace Abacus.Prompt

def banner : String := "[fnCalc v1.0]"

/-- Shown where a line is expected. -/
def invitation : String := ">>> "

/-- A line without the line feeds at its end. -/
def bareLine (line : String) : List Char :=
  (line.toList.reverse.dropWhile (· == '\n')).reverse

/-- A line that is continued, without its backslash. -/
def continued? (line : List Char) : Option (List Char) :=
  match line.reverse with
  | '\\' :: rest => some rest.reverse
  | _ => none

/-- The lines of one input, joined by line feeds. -/
def joinLines (lines : List (List Char)) : String := String.ofList (['\n'].intercalate lines)

/-- The next input that is not empty, and the lines behind it; `pending` are the continued lines
before the first one, the latest first. `none` if the lines end first. -/
def nextInput (pending : List (List Char)) : List String → Option (String × List String)
  | [] => none
  | line :: rest =>
    match continued? (bareLine line) with
    | some part => nextInput (part :: pending) rest
    | none =>
      if (joinLines (bareLine line :: pending).reverse).isEmpty then nextInput [] rest
      else some (joinLines (bareLine line :: pending).reverse, rest)

theorem nextInput_length {pending : List (List Char)} {lines rest : List String} {text : String}
    (h : nextInput pending lines = some (text, rest)) : rest.length < lines.length := by
  induction lines generalizing pending with
  | nil => simp [nextInput] at h
  | cons line lines ih =>
    unfold nextInput at h
    split at h
    · have := ih h
      simp only [List.length_cons]; omega
    · split at h
      · have := ih h
        simp only [List.length_cons]; omega
      · injection h with h
        injection h with _ h
        subst h
        simp

/-- All inputs in some lines. -/
def inputs (lines : List String) : List String :=
  match h : nextInput [] lines with
  | none => []
  | some (text, rest) =>
    have := nextInput_length h
    text :: inputs rest
termination_by lines.length

inductive Command where
  | quit | clear | reset
  | evaluate (text : String)

def command (text : String) : Command :=
  if text = "q" ∨ text = "Q" ∨ text = "exit" then .quit
  else if text = "clear" then .clear
  else if text = "reset" then .reset
  else .evaluate text

/-- Clears the terminal. -/
def clearText : String := String.ofList [Char.ofNat 27, 'c']

/-- What an input does: the text it prints, the session behind it, the events, and whether the
prompt goes on. -/
structure Step where
  printed : Except Defect String
  environment : Environment
  events : List Event
  goesOn : Bool := true

/-- An answer on a line of its own, unless it is empty. -/
def answerText (text : String) : String := if text.isEmpty then "" else text ++ "\n"

def step (env : Environment) (text : String) : Step :=
  match command text with
  | .quit => ⟨.ok "", env, [], false⟩
  | .clear => ⟨.ok clearText, env, [], true⟩
  | .reset => ⟨.ok "", env.reset, [.reset], true⟩
  | .evaluate text =>
    let reply := Session.process env text
    ⟨reply.text.map answerText, reply.environment, reply.events, true⟩

/-- What a whole run of the prompt does. -/
structure Transcript where
  printed : Except Defect String
  environment : Environment
  events : List Event

/-- Carries out inputs until one of them quits; at the end of the lines a line feed is printed. -/
def carryOut (env : Environment) : List String → Transcript
  | [] => ⟨.ok "\n", env, []⟩
  | text :: rest =>
    let s := step env text
    match s.printed with
    | .error d => ⟨.error d, s.environment, s.events⟩
    | .ok printed =>
      if s.goesOn then
        let tail := carryOut s.environment rest
        { tail with printed := tail.printed.map (printed ++ ·), events := s.events ++ tail.events }
      else ⟨.ok printed, s.environment, s.events⟩

/-- Runs the prompt on the given lines. -/
def run (env : Environment) (lines : List String) : Transcript :=
  let t := carryOut env (inputs lines)
  { t with printed := t.printed.map (banner ++ "\n" ++ ·) }

end Abacus.Prompt
