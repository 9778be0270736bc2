import Abacus.Proofs.Numeric.Rounding
import Abacus.Proofs.Script.Coverage

/-!
Where scanning fails, and how a fault is shown.

A scan fails where it comes, behind tokens and blanks, to a text that no token starts with, or to a
number that is too large. The diagnostic shows the line of that place and counts characters from the
start of the line. If line feeds are the only line breaks of a source, its lines are what stands
between them.
-/
namespace Abacus

/-! ### Lines -/

namespace Text

/-- Line feeds are the only line breaks. -/
def PlainLines (cs : List Char) : Prop := ∀ c ∈ cs, isLineBreak c = true → c = '\n'

theorem PlainLines.tail {c : Char} {cs : List Char} (h : PlainLines (c :: cs)) : PlainLines cs :=
  fun d hd => h d (List.mem_cons_of_mem c hd)

theorem lines_newline (cs : List Char) : lines ('\n' :: cs) = [] :: lines cs := by
  rw [lines]
  · simp [isLineBreak, breakCodes]
  · simp

theorem lines_cons {c : Char} (hc : isLineBreak c = false) (cs : List Char) :
    lines (c :: cs)
      = match lines cs with
        | [] => [[c]]
        | line :: rest => (c :: line) :: rest := by
  rw [lines]
  · exact if_neg (by simp [hc])
  · rintro _ rfl
    exact absurd hc (by decide)

theorem lines_head {cs : List Char} (h : PlainLines cs) :
    (lines cs)[0]?.getD [] = cs.takeWhile (· ≠ '\n') := by
  induction cs with
  | nil => rfl
  | cons c cs ih =>
    by_cases hc : c = '\n'
    · subst hc
      rw [lines_newline]
      simp
    · have hbreak : isLineBreak c = false := Bool.eq_false_iff.mpr fun hb => hc (h c (by simp) hb)
      rw [lines_cons hbreak, List.takeWhile_cons_of_pos (by simpa using hc), ← ih h.tail]
      cases lines cs <;> rfl

/-- What stands behind the last line feed, seen from the front. -/
theorem rtakeWhile_cons (c : Char) (cs : List Char) :
    (c :: cs).rtakeWhile (· ≠ '\n')
      = if '\n' ∈ cs ∨ c = '\n' then cs.rtakeWhile (· ≠ '\n') else c :: cs := by
  induction cs using List.reverseRecOn with
  | nil => by_cases hc : c = '\n' <;> simp [List.rtakeWhile, hc]
  | append_singleton cs d ih =>
    rw [← List.cons_append]
    by_cases hd : d = '\n'
    · rw [if_pos (.inl (by simp [hd])), List.rtakeWhile_concat_neg _ _ _ (by simpa using hd),
        List.rtakeWhile_concat_neg _ _ _ (by simpa using hd)]
    · rw [List.rtakeWhile_concat_pos _ _ _ (by simpa using hd),
        List.rtakeWhile_concat_pos _ _ _ (by simpa using hd), ih]
      simp only [List.mem_append, List.mem_singleton, Ne.symm hd, or_false]
      split <;> rfl

/-- The line around a place between two characters. -/
theorem lines_around (front : List Char) {rest : List Char} (h : PlainLines (front ++ rest)) :
    (lines (front ++ rest))[front.count '\n']?.getD []
      = front.rtakeWhile (· ≠ '\n') ++ rest.takeWhile (· ≠ '\n') := by
  induction front with
  | nil => exact lines_head h
  | cons c front ih =>
    have ih := ih h.tail
    rw [List.cons_append, rtakeWhile_cons]
    by_cases hc : c = '\n'
    · subst hc
      rw [lines_newline, List.count_cons_self, List.getElem?_cons_succ, ih, if_pos (.inr rfl)]
    have hbreak : isLineBreak c = false := Bool.eq_false_iff.mpr fun hb => hc (h c (by simp) hb)
    rw [lines_cons hbreak, List.count_cons_of_ne hc]
    by_cases hmem : '\n' ∈ front
    · -- the line is not the first one, to which the character is added
      obtain ⟨n, hn⟩ := Nat.exists_eq_add_of_lt (List.count_pos_iff.mpr hmem)
      rw [if_pos (.inl hmem), ← ih, hn, Nat.zero_add]
      cases lines (front ++ rest) <;> rfl
    · have hcount : front.count '\n' = 0 := List.count_eq_zero.mpr hmem
      have hfront : front.rtakeWhile (· ≠ '\n') = front := by
        rw [List.rtakeWhile_eq_self_iff]
        intro d hd
        simpa using fun heq : d = '\n' => hmem (heq ▸ hd)
      rw [hcount, hfront] at ih
      rw [hcount, if_neg (by simp [hmem, hc]), List.cons_append, ← ih]
      cases lines (front ++ rest) <;> rfl

/-- Its number counts the line feeds before it. -/
theorem lineAt_around {front rest : List Char} (h : PlainLines (front ++ rest)) :
    lineAt (front ++ rest) ((Location.start.after front).line)
      = String.ofList (front.rtakeWhile (· ≠ '\n') ++ rest.takeWhile (· ≠ '\n')) := by
  rw [Location.line_start_after, lineAt, if_neg (by omega), ← lines_around front h]
  congr 3
  omega

end Text

namespace Scan

/-- How a fault behind some text of the source is shown. -/
theorem faultAt_position (source front : List Char) (kind : ErrorKind) :
    (faultAt source (Location.start.after front) kind).position
      = (front.rtakeWhile (· ≠ '\n')).length := by
  rw [faultAt, Location.column_start_after]
  simp only
  omega

theorem faultAt_context {front rest : List Char} (h : Text.PlainLines (front ++ rest))
    (kind : ErrorKind) :
    (faultAt (front ++ rest) (Location.start.after front) kind).context
      = String.ofList (front.rtakeWhile (· ≠ '\n') ++ rest.takeWhile (· ≠ '\n')) :=
  Text.lineAt_around h

end Scan

/-! ### Where no token starts -/

/-- The text starts with some token. A name starts with a character that can start a word. -/
def TokenStarts (cs : List Char) : Prop :=
  ∃ (k : TokenKind) (front rest : List Char), cs = front ++ rest ∧ front ≠ [] ∧ k.Spells front ∧
    ∀ name, k = .identifier name → ∀ c ∈ front.head?, Text.isWordStart c = true

/-- The text starts with a number that is too large. -/
def HugeNumber (cs : List Char) : Prop :=
  ∃ whole fraction rest, cs = numeral whole fraction ++ rest ∧ whole ≠ [] ∧
    (∀ c ∈ whole ++ fraction, c.isDigit = true) ∧ Reading.NumberStops fraction rest ∧
    (10 ^ 29 - 5 : ℚ) ≤ Decimal.natOfDigits (whole ++ fraction) / 10 ^ fraction.length

namespace Reading

theorem mark_of_text {m : Mark} {c : Char} {front : List Char} (h : m.text = c :: front)
    (rest : List Char) : ∃ r, mark c (front ++ rest) = .ok r := by
  have hsimple : ∀ {c : Char} (cs : List Char), (Mark.ofChar? c).isSome = true →
      ∃ r, mark c cs = .ok r := by
    intro c cs hc
    obtain ⟨m, hm⟩ := Option.isSome_iff_exists.mp hc
    unfold mark
    split
    · exact ⟨_, rfl⟩
    · exact ⟨_, rfl⟩
    · simp only [hm]
      exact ⟨_, rfl⟩
  cases m <;> cases h
  case unequal => exact ⟨_, rfl⟩
  all_goals exact hsimple _ rfl

/-- Operators are written as words or as marks. -/
theorem symbol_starts (op : Operator) :
    (∃ c ∈ op.symbol.toList.head?, Text.isWordStart c = true) ∨
      ∃ m : Mark, m.text = op.symbol.toList := by
  cases op with
  | assign => exact .inr ⟨.assign, rfl⟩
  | less => exact .inr ⟨.less, rfl⟩
  | greater => exact .inr ⟨.greater, rfl⟩
  | equal => exact .inr ⟨.equal, rfl⟩
  | unequal => exact .inr ⟨.unequal, rfl⟩
  | add => exact .inr ⟨.plus, rfl⟩
  | subtract => exact .inr ⟨.minus, rfl⟩
  | multiply => exact .inr ⟨.star, rfl⟩
  | divide => exact .inr ⟨.slash, rfl⟩
  | remainder => exact .inr ⟨.percent, rfl⟩
  | power => exact .inr ⟨.caret, rfl⟩
  | negate => exact .inr ⟨.minus, rfl⟩
  | _ => exact .inl ⟨_, rfl, rfl⟩

theorem word_starts (k : Keyword) :
    ∃ c ∈ k.word.toList.head?, Text.isWordStart c = true := by
  cases k <;> exact ⟨_, rfl, rfl⟩

theorem not_tokenStarts {c : Char} {cs : List Char} (hnewline : c ≠ '\n')
    (hdigit : c.isDigit = false) (hstart : Text.isWordStart c = false)
    (hmark : ∀ r, mark c cs ≠ .ok r) : ¬ TokenStarts (c :: cs) := by
  rintro ⟨k, front, rest, hsplit, hne, hspells, hname⟩
  obtain ⟨d, front, rfl⟩ := List.exists_cons_of_ne_nil hne
  obtain ⟨rfl, rfl⟩ := List.cons.inj hsplit
  have hnotext : ∀ m : Mark, m.text ≠ c :: front := fun m hm => by
    obtain ⟨r, hr⟩ := mark_of_text hm rest
    exact hmark r hr
  have hnoword : ¬ ∃ d ∈ (c :: front).head?, Text.isWordStart d = true := by simp [hstart]
  cases k with
  | number x =>
    obtain ⟨whole, fraction, htext, hwhole, hdigits, -⟩ := hspells
    obtain ⟨e, whole, rfl⟩ := List.exists_cons_of_ne_nil hwhole
    have hce : c = e := by
      unfold numeral at htext
      split at htext <;> exact (List.cons.inj htext).1
    rw [hce, hdigits e (by simp)] at hdigit
    cases hdigit
  | identifier n => exact hnoword ⟨c, rfl, hname n rfl c rfl⟩
  | builtin op =>
    obtain hstarts | ⟨m, hm⟩ := symbol_starts op
    · exact hnoword (hspells ▸ hstarts)
    · exact hnotext m (hm.trans hspells.symm)
  | keyword w => exact hnoword (hspells ▸ word_starts w)
  | mark m => exact hnotext m hspells.symm
  | newline => exact hnewline (List.cons.inj hspells).1
  | endOfInput => cases hspells

theorem number_error {c : Char} {cs : List Char} (hc : c.isDigit = true) {kind : ErrorKind}
    (h : number (c :: cs) = .error kind) : kind = .invalidNumber ∧ HugeNumber (c :: cs) := by
  obtain ⟨whole, fraction, rest, hparts⟩ :
      ∃ whole fraction rest, numberParts (c :: cs) = (whole, fraction, rest) := ⟨_, _, _, rfl⟩
  obtain ⟨hcs, hdigits, hrest⟩ := numberParts_spec hparts
  have hwhole : whole ≠ [] := by
    have htake : whole = c :: cs.takeWhile Char.isDigit := by
      rw [← List.takeWhile_cons_of_pos hc, ← numberParts_whole, hparts]
    simp [htake]
  have hliteral : Numeric.literal whole fraction = .error kind := by
    unfold number at h
    cases hx : Numeric.literal whole fraction with
    | ok x => simp [hparts, hx, Except.map] at h
    | error e => simpa [hparts, hx, Except.map] using h
  have hcomputes := Numeric.literal_computes whole fraction
  have hlarge : (10 ^ 29 - 5 : ℚ)
      ≤ |(Decimal.natOfDigits (whole ++ fraction) / 10 ^ fraction.length : ℚ)| := by
    refine not_lt.mp fun hsmall => ?_
    obtain ⟨z, hz, -⟩ := hcomputes.rounds hsmall
    rw [hz] at hliteral
    cases hliteral
  have hkind := hcomputes.fails_iff.mpr hlarge
  rw [hliteral] at hkind
  rw [abs_of_nonneg (by positivity)] at hlarge
  exact ⟨Except.error.inj hkind, whole, fraction, rest, hcs, hwhole, hdigits, hrest, hlarge⟩

theorem first_error {c : Char} {cs : List Char} {kind : ErrorKind} (h : first c cs = .error kind) :
    kind = .malformed ∧ ¬ TokenStarts (c :: cs) ∨ kind = .invalidNumber ∧ HugeNumber (c :: cs) := by
  unfold first at h
  split at h
  · cases h
  next hnewline =>
  split at h
  · next hdigit => exact .inr (number_error hdigit h)
  next hdigit =>
  split at h
  · cases h
  next hstart =>
  have hkind : kind = .malformed := by
    unfold mark at h
    split at h
    · cases h
    · cases h
    · split at h
      · cases h
      · cases h
        rfl
  refine .inl ⟨hkind, not_tokenStarts hnewline (by simpa using hdigit) (by simpa using hstart) ?_⟩
  intro r hr
  rw [hr] at h
  cases h

end Reading

namespace Scan

/-- A scan that fails has read some tokens and dropped blanks behind them, up to where no token can
be read. -/
theorem exists_fault (source : List Char) (depth : Nat) (l : Location) (cs : List Char)
    {d : Diagnostic} (h : (readFrom source depth l cs).failure = some d) :
    ∃ ts q blanks inComment c more kind, Steps ⟨depth, l, cs⟩ ts q ∧ q.rest = blanks ++ c :: more ∧
      Blanks q.depth false blanks inComment ∧ dropped q.depth inComment c = none ∧
      Reading.first c more = .error kind ∧ d = faultAt source (q.location.after blanks) kind := by
  obtain ⟨blanks, stop, rest, rfl, hblanks, hrest⟩ := exists_blanks depth false cs
  have hskip := hblanks.skip rest hrest l
  rw [readFrom] at h
  split at h
  · cases h
  next here c more heq =>
    rw [hskip] at heq
    cases heq
    split at h
    · next kind hfirst =>
      cases h
      exact ⟨[], _, blanks, stop, c, more, kind, .nil _, rfl, hblanks, hrest c (by simp), hfirst,
        rfl⟩
    · next r hfirst =>
      have hlength : r.rest.length < (blanks ++ c :: more).length := by
        have := Reading.first_rest_length hfirst
        simp only [List.length_append, List.length_cons]
        omega
      have hstep := Step.mk l hblanks (hrest c (by simp)) hfirst
      obtain ⟨ts, q, blanks', inComment, c', more', kind, hsteps, hfault⟩ :=
        exists_fault source (depthAfter depth r.kind) (l.after (blanks ++ r.taken)) r.rest
          (by simpa only [Location.after_append] using h)
      exact ⟨_, q, blanks', inComment, c', more', kind, .cons hstep hsteps, hfault⟩
termination_by cs.length

theorem not_blank_of_dropped {depth : Nat} {c : Char} (h : dropped depth false c = none) :
    c ≠ ' ' ∧ c ≠ '\t' ∧ c ≠ '\r' ∧ c ≠ '#' := by
  refine ⟨?_, ?_, ?_, ?_⟩
  all_goals
    rintro rfl
    simp [dropped] at h

/-- Behind tokens, blanks and comments a scan comes to a character at the offset `o` that is neither
a blank nor the start of a comment, and cannot go on: no token starts there, or it is a number that
is too large. -/
def StopsAt (source : List Char) (o : Nat) (kind : ErrorKind) : Prop :=
  ∃ us q gap, Steps ⟨0, .start, source⟩ us q ∧ q.rest = gap ++ source.drop o ∧
    Gap q.depth (source.drop o) gap ∧
    (∃ c ∈ source[o]?, c ≠ ' ' ∧ c ≠ '\t' ∧ c ≠ '\r' ∧ c ≠ '#') ∧
    (kind = .malformed ∧ ¬ TokenStarts (source.drop o) ∨
      kind = .invalidNumber ∧ HugeNumber (source.drop o))

end Scan

/-- A source without tokens fails where its scan cannot go on. -/
theorem tokenize_error {source : String} {d : Diagnostic} (h : tokenize source = .error d) :
    ∃ front rest kind, source.toList = front ++ rest ∧
      Scan.StopsAt source.toList front.length kind ∧
      d = Scan.faultAt source.toList (Location.start.after front) kind := by
  have hfailure : (Scan.ofSource source).failure = some d := by
    unfold tokenize at h
    simp only at h
    split at h
    · cases h
    · next hfailure =>
      cases h
      exact hfailure
  obtain ⟨us, q, blanks, inComment, c, more, kind, hsteps, hrest, hblanks, hstop, hfirst, rfl⟩ :=
    Scan.exists_fault _ _ _ _ hfailure
  obtain ⟨front, hsource, hlocation, -⟩ := hsteps.exists_front
  have hsplit : source.toList = (front ++ blanks) ++ c :: more := by
    rw [hsource, hrest, List.append_assoc]
  have hdrop : source.toList.drop (front ++ blanks).length = c :: more := by
    rw [hsplit, List.drop_left]
  refine ⟨front ++ blanks, c :: more, kind, hsplit, ⟨us, q, blanks, hsteps, ?_, ?_, ?_, ?_⟩, ?_⟩
  · rw [hdrop, hrest]
  · rw [hdrop]
    exact hblanks.gap_outside (by simpa using hstop)
  · refine ⟨c, ?_, Scan.not_blank_of_dropped (Scan.dropped_outside_comment hstop)⟩
    rw [hsplit, List.getElem?_append_right (Nat.le_refl _), Nat.sub_self]
    rfl
  · rw [hdrop]
    exact Reading.first_error hfirst
  · rw [hlocation, ← Location.after_append]

end Abacus
