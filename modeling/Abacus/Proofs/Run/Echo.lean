import Abacus.Proofs.Decimal.Plain
import Abacus.Proofs.Run.Joining

/-!
What is shown can be given back.

The text that shows a number is an expression: a numeral, behind a minus sign if the number is
negative. Its value is the number as it is shown, and giving it to a session leads to the same text
and changes nothing.
-/
namespace Abacus

open Format (calculator)
open Decimal (signText)

/-! ### A numeral with its sign -/

/-- Tokens on one line without an opening parenthesis are not nested. -/
theorem Nesting.isTooDeep_of_flat (settings : Settings) {ts : List Token}
    (h : ∀ t ∈ ts, t.isMark .leftParen = false ∧ t.start.line = 1 ∧ t.stop.line = 1) :
    isTooDeep settings ts = false := by
  have hflat : deepest 0 ts = 0 ∧ widestGap 1 ts = 0 := by
    induction ts with
    | nil => exact ⟨rfl, rfl⟩
    | cons t ts ih =>
      obtain ⟨⟨ht, hstart, hstop⟩, hts⟩ := List.forall_mem_cons.mp h
      obtain ⟨hdeepest, hgap⟩ := ih hts
      have hopen : openAfter 0 t = 0 := by simp [openAfter, ht]
      rw [deepest, widestGap, hopen, hstart, hstop, hdeepest, hgap]
      exact ⟨rfl, rfl⟩
  rw [isTooDeep_eq_false, hflat.1, hflat.2]
  exact ⟨Nat.zero_le _, Nat.zero_le _⟩

/-- Tokens of a derivation that are all there is on the only line are read without nesting. -/
theorem Derivation.reads_flat {text : String} {d : Statements .top} {here : Location}
    (hsteps : Scan.Steps ⟨0, .start, text.toList⟩ d.tokens ⟨0, here, []⟩)
    (hflat : ∀ t ∈ d.tokens, t.isMark .leftParen = false ∧ t.start.line = 1 ∧ t.stop.line = 1)
    (hline : here.line = 1) :
    ∃ ts, tokenize text = .ok ts ∧ (∀ settings, Nesting.isTooDeep settings ts = false) ∧
      parse text = .ok ⟨d.statements text.toList, d.functions text.toList⟩ := by
  have hended : Scan.Ended ⟨0, here, []⟩ here := .mk here (.nil false)
  refine ⟨d.tokens ++ [Scan.ending here], tokenize_eq_ok_iff.mpr ⟨_, _, _, hsteps, hended, rfl⟩,
    fun settings => ?_, parse_eq_ok_iff.mpr ⟨d, _, _, hsteps, hended, rfl⟩⟩
  refine Nesting.isTooDeep_of_flat settings fun t ht => ?_
  rcases List.mem_append.mp ht with ht | ht
  · exact hflat t ht
  · rw [List.mem_singleton.mp ht]
    exact ⟨rfl, hline, hline⟩

theorem Scan.step_minus (l : Location) (cs : List Char) :
    Step ⟨0, l, '-' :: cs⟩ ⟨.mark .minus, "-", l, l.next '-'⟩ ⟨0, l.next '-', cs⟩ := by
  have hfirst : Reading.first '-' cs = .ok ⟨.mark .minus, ['-'], cs⟩ := rfl
  exact Step.mk l (.nil false) (by decide) hfirst

/-- A number and its sign in the order of evaluation. -/
def signedTerms (negative : Bool) (p : Int) (x : Decimal) : List Term :=
  .number p x :: if negative then [.operator 0 .negate] else []

section Numeral

variable {whole fraction : List Char} {y : Decimal} (hwhole : whole ≠ [])
  (hdigits : ∀ c ∈ whole ++ fraction, c.isDigit = true)
  (hliteral : Numeric.literal whole fraction = .ok y)
include hwhole hdigits hliteral

/-- A numeral at the end of a text is read as one token. -/
theorem Scan.step_numeral (l : Location) :
    Step ⟨0, l, numeral whole fraction⟩
      ⟨.number y, String.ofList (numeral whole fraction), l, l.after (numeral whole fraction)⟩
      ⟨0, l.after (numeral whole fraction), []⟩ := by
  have hparts : Reading.numberParts (numeral whole fraction ++ []) = (whole, fraction, []) :=
    Reading.numberParts_numeral hdigits ⟨by simp [Stops], by simp⟩
  rw [List.append_nil] at hparts
  have hnumber : Reading.number (numeral whole fraction)
      = .ok ⟨.number y, numeral whole fraction, []⟩ := by
    simp only [Reading.number, hparts, hliteral, Except.map]
    rfl
  obtain ⟨c, more, rfl⟩ := List.exists_cons_of_ne_nil hwhole
  have hc : c.isDigit = true := hdigits c (by simp)
  have hne : ∀ d : Char, d.isDigit = false → c ≠ d := by
    rintro d hd rfl
    simp [hc] at hd
  obtain ⟨cs, hcs⟩ : ∃ cs, numeral (c :: more) fraction = c :: cs := by
    unfold numeral
    split
    · exact ⟨more, rfl⟩
    · exact ⟨more ++ '.' :: fraction, rfl⟩
  have hfirst : Reading.first c cs = .ok ⟨.number y, c :: cs, []⟩ := by
    rw [Reading.first, if_neg (hne '\n' (by decide)), if_pos hc, ← hcs, hnumber]
  have hstop : dropped 0 false c = none := by
    simp [dropped, hne '\n' (by decide), hne ' ' (by decide), hne '\t' (by decide),
      hne '\r' (by decide), hne '#' (by decide)]
  rw [hcs]
  exact Step.mk l (.nil false) hstop hfirst

theorem Scan.line_after_numeral (l : Location) :
    (l.after (numeral whole fraction)).line = l.line := by
  have hspells : (TokenKind.number y).Spells (numeral whole fraction) :=
    ⟨whole, fraction, rfl, hwhole, hdigits, hliteral⟩
  exact l.line_after_of_notMem (Reading.spells_without_newline hspells (by simp))

/-- A numeral with its sign is an expression on its own, and not nested. -/
theorem reads_signed (negative : Bool) :
    let text := String.ofList (signText negative ++ numeral whole fraction)
    ∃ ts context p, tokenize text = .ok ts ∧ (∀ settings, Nesting.isTooDeep settings ts = false) ∧
      parse text = .ok ⟨[.expression ⟨context, signedTerms negative p y⟩], []⟩ := by
  intro text
  have htext : text.toList = signText negative ++ numeral whole fraction := String.toList_ofList
  have hstep := Scan.step_numeral hwhole hdigits hliteral
  have hline := Scan.line_after_numeral hwhole hdigits hliteral
  let number (l : Location) : Token :=
    ⟨.number y, String.ofList (numeral whole fraction), l, l.after (numeral whole fraction)⟩
  cases negative with
  | false =>
    let t := number .start
    let d : Derivation.Statements .top :=
      .last [] (.expression (.operand (.primary (.number ⟨t, y, rfl⟩))))
    have hsteps : Scan.Steps ⟨0, .start, text.toList⟩ d.tokens ⟨0, t.stop, []⟩ := by
      rw [htext]
      exact .cons (hstep .start) (.nil _)
    have hflat : ∀ u ∈ d.tokens, u.isMark .leftParen = false ∧ u.start.line = 1 ∧ u.stop.line = 1 :=
      List.forall_mem_singleton.mpr ⟨rfl, rfl, hline .start⟩
    obtain ⟨ts, hts, hdeep, hparse⟩ := Derivation.reads_flat hsteps hflat (hline .start)
    exact ⟨ts, _, _, hts, hdeep, hparse⟩
  | true =>
    let l : Location := Location.start.next '-'
    let m : Token := ⟨.mark .minus, "-", .start, l⟩
    let t := number l
    let d : Derivation.Statements .top :=
      .last [] (.expression (.operand (.prefixed ⟨m, .negate, rfl⟩ rfl
        (.primary (.number ⟨t, y, rfl⟩)))))
    have hsteps : Scan.Steps ⟨0, .start, text.toList⟩ d.tokens ⟨0, t.stop, []⟩ := by
      rw [htext]
      exact .cons (Scan.step_minus .start _) (.cons (hstep l) (.nil _))
    have hflat : ∀ u ∈ d.tokens, u.isMark .leftParen = false ∧ u.start.line = 1 ∧ u.stop.line = 1 :=
      List.forall_mem_cons.mpr ⟨⟨rfl, rfl, rfl⟩,
        List.forall_mem_singleton.mpr ⟨rfl, rfl, hline l⟩⟩
    obtain ⟨ts, hts, hdeep, hparse⟩ := Derivation.reads_flat hsteps hflat (hline l)
    exact ⟨ts, _, _, hts, hdeep, hparse⟩

end Numeral

/-! ### Its value -/

namespace Session

theorem ran_signed (env : Environment) (context : String) (p : Int) {negative : Bool}
    {y z : Decimal} (hz : (if negative then Numeric.negate y else .ok y) = .ok z) :
    ran env ⟨[.expression ⟨context, signedTerms negative p y⟩], []⟩
      = ⟨.ok (.finished (some z)), env, "", []⟩ := by
  let r : Run.Regime := .of env.rules
  let s : State := { store := env.store }
  have hterms : Run.Derives r env.depth (.terms context (signedTerms negative p y) []) s
      (.ok [.value z] s) {} := by
    cases negative with
    | false =>
      cases hz
      exact .number .noTerms
    | true =>
      have happly : Run.apply context 0 .negate [.value y] s = .ok [.value z] s := by
        have hz : Numeric.negate y = .ok z := hz
        simp only [Run.apply, Operator.meaning, Run.pop, Run.resolve, pure_bind, hz, Run.arithmetic]
        rfl
      exact .number (.operator happly .noTerms)
  have hsingle : ∀ c q n text es,
      (⟨context, signedTerms negative p y⟩ : Expression) ≠ ⟨c, [.call q n text es]⟩ := by
    simp [signedTerms]
  have hstatement := Run.Derives.expression (.statementValue hsingle (.evaluate hterms))
  have hrun : Run.statements env.rules env.depth none
      [.expression ⟨context, signedTerms negative p y⟩] s = .ok (.finished (some z)) s :=
    (Run.Derives.afterValue hstatement .finished).run_eq
  rw [ran_of_plain env rfl, Environment.run_eq_of_ok hrun]
  rfl

/-! ### Giving back what is shown -/

/-- The text that shows a number of the calculator is an expression. In every session that shows as
many decimal places, its value is the number rounded to these places, ties to even; the session
answers with the same text, and nothing changes. -/
theorem shown_reads_back {x : Decimal} (hx : calculator.Fits x) (places : Nat) :
    ∃ text e, x.display? places = some text ∧ parse text = .ok ⟨[.expression e], []⟩ ∧
      ∀ env : Environment, env.settings.displayPlaces = places →
        (∃ y, (ran env ⟨[.expression e], []⟩).result = .ok (.finished (some y)) ∧
          RoundsTo places x.value y.value) ∧
        (process env text).text = .ok text ∧ (process env text).environment = env := by
  obtain ⟨negative, whole, fraction, y, z, hshown, hwhole, hdigits, hliteral, hz, hvalue⟩ :=
    Decimal.display?_numeral hx places
  obtain ⟨ts, context, p, hts, hdeep, hparse⟩ := reads_signed hwhole hdigits hliteral negative
  obtain ⟨us, hus, hparsed⟩ := Derivation.parse_bind_iff.mp hparse
  obtain rfl := Except.ok.inj (hts.symm.trans hus)
  refine ⟨_, _, hshown, hparse, fun env hplaces => ?_⟩
  have hran := ran_signed env context p hz
  have hprocess := process_eq_execute hts (hdeep env.settings) hparsed
  have hagain : z.display? env.settings.displayPlaces = x.display? places := by
    rw [hplaces, Decimal.display?_of_rounded hvalue]
  refine ⟨⟨z, by rw [hran], hvalue ▸ Decimal.quantize_roundsTo places x⟩, ?_, ?_⟩
  · rw [hprocess, execute_text_of_ok (congrArg Ran.result hran), hran, conclude, if_pos (by rfl),
      formatLast, format, hagain, hshown]
  · rw [hprocess, execute_environment, hran]

/-- A tie behind a minus sign: the sign is read as an operator. -/
theorem shown_reads_back_on_negative_tie :
    let x : Decimal := ⟨true, 25, -1⟩
    let env : Environment := { settings := { displayPlaces := 0 } }
    calculator.Fits x ∧ x.display? 0 = some "-2" ∧ (process env "-2").text = .ok "-2" ∧
      (process env "-2").environment = env := by
  intro x env
  have hx : calculator.Fits x := by
    refine Format.calculator_fits_iff.mpr ⟨by decide, by decide, ?_⟩
    decide +kernel
  have hshown : x.display? 0 = some "-2" := by decide +kernel
  obtain ⟨text, e, htext, -, hsession⟩ := shown_reads_back hx 0
  obtain rfl : text = "-2" := Option.some.inj (htext.symm.trans hshown)
  exact ⟨hx, hshown, (hsession env rfl).2⟩

end Session

end Abacus
