import Abacus.Proofs.Script.Kinds
import Abacus.Proofs.Script.Scanning

/-!
Tokens with single spaces between them.

Every token of a source can be read again from its own text with a space behind it, whatever stood
behind it in the source: a number does not go on there, nor does a word, and an equals sign is not
doubled. A space is dropped, and so the parentheses that are open before a token are the same; a
line feed that was a token stood outside of parentheses and is a token again. So the text of the
tokens, with single spaces between them and without comments and other blanks, is read as the same
tokens, and makes the same program.
-/
namespace Abacus

/-- The text of a token in a source, where a line feed stands for itself. -/
def Token.written (t : Token) : String := if t.isNewline then "\n" else t.lexeme

/-- The text of some tokens with single spaces between them. -/
def spaced (ts : List Token) : String := " ".intercalate (ts.map Token.written)

namespace Reading

theorem isWordChar_space : Text.isWordChar ' ' = false := by decide

/-- A token that is read from the whole of a text is read before a space too. -/
theorem number_before_space {cs : List Char} {k : TokenKind}
    (h : number cs = .ok ⟨k, cs, []⟩) (after : List Char) :
    number (cs ++ ' ' :: after) = .ok ⟨k, cs, ' ' :: after⟩ := by
  obtain ⟨whole, fraction, rest, hparts⟩ :
      ∃ whole fraction rest, numberParts cs = (whole, fraction, rest) := ⟨_, _, _, rfl⟩
  obtain ⟨hcs, hdigits, -⟩ := numberParts_spec hparts
  have hstops : NumberStops fraction (' ' :: after) :=
    ⟨by simp [Stops], fun _ d more heq => by simp at heq⟩
  cases hx : Numeric.literal whole fraction with
  | error e => simp [number, hparts, hx, Except.map] at h
  | ok x =>
    simp only [number, hparts, hx, Except.map, Except.ok.injEq, Reading.mk.injEq] at h
    obtain ⟨rfl, htaken, rfl⟩ := h
    rw [List.append_nil] at hcs
    have hagain := numberParts_numeral hdigits hstops
    rw [← hcs] at hagain
    simp only [number, hagain, hx, Except.map, htaken]

theorem word_before_space {cs : List Char} {k : TokenKind} (h : word cs = ⟨k, cs, []⟩)
    (after : List Char) : word (cs ++ ' ' :: after) = ⟨k, cs, ' ' :: after⟩ := by
  have hstops : Stops Text.isWordChar (' ' :: after) := by simp [Stops, isWordChar_space]
  have hword : ∀ c ∈ cs.takeWhile Text.isWordChar, Text.isWordChar c = true := fun c hc =>
    List.mem_takeWhile_imp hc
  cases hglued : gluedBuiltin? (cs.takeWhile Text.isWordChar) with
  | none =>
    simp only [word, hglued, Reading.mk.injEq] at h
    obtain ⟨hkind, htaken, -⟩ := h
    rw [htaken] at hword hglued hkind
    rw [word_of_stops hword hstops, hglued, hkind]
  | some op =>
    -- the digits behind a built-in name are left, so that the name is not the whole text
    simp only [word, hglued, Reading.mk.injEq, List.append_eq_nil_iff] at h
    obtain ⟨-, -, hdigits, -⟩ := h
    simp [gluedBuiltin?, hdigits] at hglued

theorem mark_before_space {c : Char} {more : List Char} {k : TokenKind}
    (h : mark c more = .ok ⟨k, c :: more, []⟩) (after : List Char) :
    mark c (more ++ ' ' :: after) = .ok ⟨k, c :: more, ' ' :: after⟩ := by
  unfold mark at h
  split at h
  · cases h
    rfl
  · cases h
    rfl
  · split at h
    · next m hm =>
      cases h
      exact mark_of_ofChar? hm fun _ => by simp [Stops]
    · cases h

theorem first_before_space {c : Char} {cs : List Char} {r : Reading} (h : first c cs = .ok r)
    {more : List Char} (htaken : r.taken = c :: more) (after : List Char) :
    first c (more ++ ' ' :: after) = .ok { r with rest := ' ' :: after } := by
  obtain ⟨k, taken, rest⟩ := r
  obtain rfl : taken = c :: more := htaken
  obtain ⟨more', htaken', -, -, hagain⟩ := first_spec h
  obtain rfl : more = more' := (List.cons.inj htaken').2
  -- the token alone, with nothing behind it
  have halone := hagain [] (cut_of_front List.nil_prefix)
  rw [List.append_nil] at halone
  unfold first at halone ⊢
  split at halone
  · next hc =>
    cases halone
    rw [if_pos hc]
    rfl
  next hc =>
  rw [if_neg hc]
  split at halone
  · next hdigit =>
    rw [if_pos hdigit]
    exact number_before_space halone after
  next hdigit =>
  rw [if_neg hdigit]
  split at halone
  · next hstart =>
    rw [if_pos hstart]
    exact congrArg Except.ok (word_before_space (Except.ok.inj halone) after)
  · next hstart =>
    rw [if_neg hstart]
    exact mark_before_space halone after

end Reading

namespace Scan

/-- The characters of some tokens, with a space behind each. -/
def spacedChars (ts : List Token) : List Char := ts.flatMap fun t => t.written.toList ++ [' ']

theorem toList_spaced (ts : List Token) (here : Location) :
    (spaced (ts ++ [ending here])).toList = spacedChars ts := by
  induction ts with
  | nil => simp [spaced, spacedChars, ending, Token.written, Token.isNewline]
  | cons t ts ih =>
    have hne : (ts ++ [ending here]).map Token.written ≠ [] := by simp
    rw [spaced, List.cons_append, List.map_cons, String.intercalate_cons_of_ne_nil hne]
    simp only [String.toList_append]
    rw [show (" ".intercalate ((ts ++ [ending here]).map Token.written)).toList
      = spacedChars ts from ih]
    simp [spacedChars]

/-- A token is read again behind blanks and before a space. -/
theorem Step.spaced {p q : Point} {t : Token} (h : Step p t q) (l : Location)
    {blanks : List Char} (hblanks : Blanks p.depth false blanks false) (after : List Char) :
    ∃ t' l', Step ⟨p.depth, l, blanks ++ (t.written.toList ++ ' ' :: after)⟩ t'
        ⟨q.depth, l', ' ' :: after⟩ ∧
      t'.kind = t.kind ∧ t'.lexeme = t.lexeme := by
  cases h with
  | @mk depth blanks' cs inComment c r l₀ hblanks' hstop hfirst =>
    obtain ⟨more, htaken, -, hspells, -⟩ := Reading.first_spec hfirst
    have hwritten : Token.written ⟨r.kind, lexemeOf r, l₀.after blanks',
        l₀.after (blanks' ++ r.taken)⟩ = String.ofList r.taken := by
      by_cases hk : r.kind = .newline
      · rw [hk] at hspells
        simp only [Token.written, Token.isNewline, hk]
        rw [show r.taken = ['\n'] from hspells]
        rfl
      · simp [Token.written, Token.isNewline, lexemeOf, hk]
    have hstep := Step.mk l hblanks (dropped_outside_comment hstop)
      (Reading.first_before_space hfirst htaken after)
    rw [← List.cons_append, ← htaken] at hstep
    rw [hwritten, String.toList_ofList]
    exact ⟨_, _, hstep, rfl, rfl⟩

theorem Steps.spaced {p s : Point} {ts : List Token} (h : Steps p ts s) (l : Location)
    {blanks : List Char} (hblanks : Blanks p.depth false blanks false) :
    ∃ ts' s' here, Steps ⟨p.depth, l, blanks ++ spacedChars ts⟩ ts' s' ∧ Ended s' here ∧
      ts'.map Token.kind = ts.map Token.kind ∧ ts'.map Token.lexeme = ts.map Token.lexeme := by
  induction h generalizing l blanks with
  | nil p =>
    refine ⟨[], _, l.after blanks, .nil _, ?_, rfl, rfl⟩
    rw [spacedChars, List.flatMap_nil, List.append_nil]
    exact .mk l hblanks
  | @cons p q s t ts hstep _ ih =>
    obtain ⟨t', l', hstep', hkind, hlexeme⟩ := hstep.spaced l hblanks (spacedChars ts)
    have hspace : Blanks q.depth false [' '] false := .cons (by simp [dropped]) (.nil false)
    obtain ⟨ts', s', here, hsteps, hended, hkinds, hlexemes⟩ := ih l' hspace
    refine ⟨t' :: ts', s', here, ?_, hended, ?_, ?_⟩
    · have htext : spacedChars (t :: ts) = t.written.toList ++ ' ' :: spacedChars ts := by
        simp [spacedChars]
      rw [htext]
      exact .cons hstep' hsteps
    · rw [List.map_cons, List.map_cons, hkind, hkinds]
    · rw [List.map_cons, List.map_cons, hlexeme, hlexemes]

end Scan

/-- The tokens of a source are the tokens of their own text with single spaces. -/
theorem tokenize_spaced {source : String} {ts : List Token} (h : tokenize source = .ok ts) :
    ∃ ts', tokenize (spaced ts) = .ok ts' ∧ ts'.map Token.kind = ts.map Token.kind ∧
      ts'.map Token.lexeme = ts.map Token.lexeme := by
  obtain ⟨us, s, here, hsteps, -, rfl⟩ := tokenize_eq_ok_iff.mp h
  obtain ⟨us', s', here', hsteps', hended, hkinds, hlexemes⟩ := hsteps.spaced .start (.nil false)
  rw [List.nil_append, ← Scan.toList_spaced us here] at hsteps'
  refine ⟨us' ++ [Scan.ending here'], tokenize_eq_ok_iff.mpr ⟨us', s', here', hsteps', hended, rfl⟩,
    ?_, ?_⟩
  · rw [List.map_append, List.map_append, hkinds]
    rfl
  · rw [List.map_append, List.map_append, hlexemes]
    rfl

theorem parse_bare_of_kinds {source source' : String} {ts ts' : List Token}
    (h : tokenize source = .ok ts) (h' : tokenize source' = .ok ts')
    (hkinds : ts'.map Token.kind = ts.map Token.kind) :
    (parse source').toOption.map Program.bare = (parse source).toOption.map Program.bare := by
  have hbare := Parse.program_bare source'.toList source.toList (Parse.sameKinds_of_map_eq hkinds)
  have hparse : ∀ {text : String} {us : List Token}, tokenize text = .ok us →
      (parse text).toOption = (Parse.program text.toList us).toOption := by
    intro text us hus
    simp only [parse, hus, bind, Except.bind, parseTokens]
    cases Parse.program text.toList us <;> rfl
  rw [hparse h', hparse h, hbare]

/-- The tokens of a source with single spaces between them are read as the same tokens, and make a
program if and only if the source does, which then is the same up to texts and positions. -/
theorem respacing_is_lossless {source : String} {ts : List Token} (h : tokenize source = .ok ts) :
    (∃ ts', tokenize (spaced ts) = .ok ts' ∧ ts'.map Token.kind = ts.map Token.kind ∧
      ts'.map Token.lexeme = ts.map Token.lexeme) ∧
    (parse (spaced ts)).isOk = (parse source).isOk ∧
    ∀ p p', parse source = .ok p → parse (spaced ts) = .ok p' → p'.bare = p.bare := by
  obtain ⟨ts', hts', hkinds, hlexemes⟩ := tokenize_spaced h
  have hbare := parse_bare_of_kinds h hts' hkinds
  refine ⟨⟨ts', hts', hkinds, hlexemes⟩, ?_, fun p p' hp hp' => ?_⟩
  · have hisOk : ∀ x : Except Diagnostic Program,
        x.isOk = (x.toOption.map Program.bare).isSome := by
      rintro (d | p) <;> rfl
    rw [hisOk, hisOk, hbare]
  · rw [hp, hp'] at hbare
    exact Option.some.inj hbare

/-- Comments, a line feed inside parentheses, a built-in name glued to its digits, and an equals
sign before a negative number. -/
theorem respacing_is_lossless_of_glued :
    let source := "y=f(1.50 # (\n,sind90)\t# )\nif y!=-2\x7bprint y\x7d"
    ∃ ts, tokenize source = .ok ts ∧
      spaced ts = "y = f ( 1.50 , sind 90 ) \n if y != - 2 \x7b print y \x7d " ∧
      ∃ p p', parse source = .ok p ∧ parse (spaced ts) = .ok p' ∧ p'.bare = p.bare := by
  intro source
  have hspaced : (tokenize source).toOption.map spaced
      = some "y = f ( 1.50 , sind 90 ) \n if y != - 2 \x7b print y \x7d " := by decide +kernel
  have hok : (parse source).isOk = true := by decide +kernel
  cases hts : tokenize source with
  | error d =>
    rw [hts] at hspaced
    cases hspaced
  | ok ts =>
    obtain ⟨-, hagain, hsame⟩ := respacing_is_lossless hts
    rw [hok] at hagain
    rw [hts] at hspaced
    cases hp : parse source with
    | error d =>
      rw [hp] at hok
      cases hok
    | ok p =>
      cases hp' : parse (spaced ts) with
      | error d =>
        rw [hp'] at hagain
        cases hagain
      | ok p' => exact ⟨ts, rfl, Option.some.inj hspaced, p, p', rfl, hp', hsame p p' hp hp'⟩

end Abacus
