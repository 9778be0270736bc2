import Abacus.Proofs.Derivation.Occurrence
import Abacus.Proofs.Derivation.Relocation
import Mathlib

/-!
The stretches of source that programs hold can stand alone.

Where an expression, a loop or a function stands no parenthesis is open, so scanning its text from a
fresh start reads the same tokens, and their derivation is all there is to the script.
-/
namespace Abacus.Derivation

open Parse (startOffset)
open Grammar (textOf stopOffset)
open Scan (Point Steps Takes Ended depthBehind)

/-- The text of some tokens in a row: the source from the first to the last of them, which a scan
takes as a whole. -/
theorem exists_text {source : List Char} {us part ws : List Token} {last : Point}
    (hsteps : Steps ⟨0, .start, source⟩ (us ++ (part ++ ws)) last) (hne : part ≠ []) :
    ∃ (front text : List Char) (l : Location) (s : Point),
      source = front ++ (text ++ s.rest) ∧ l.offset = front.length ∧
      startOffset part = front.length ∧ textOf source part = String.ofList text ∧
      Takes ⟨depthBehind 0 us, l, text ++ s.rest⟩ s part text := by
  obtain ⟨p, hfront, hback⟩ := hsteps.split
  obtain ⟨s, hpart, -⟩ := hback.split
  have hlast := hpart.location hne
  obtain ⟨t, rest, rfl⟩ := List.exists_cons_of_ne_nil hne
  obtain ⟨blanks, more, hmore, hstart, hread⟩ := hpart.trim
  obtain ⟨before, htaken⟩ := hfront.text
  obtain ⟨text, htakes⟩ := hread.text
  have hp : source = before ++ p.rest := htaken.rest
  obtain rfl : more = text ++ s.rest := htakes.rest
  have hsource : source = (before ++ blanks) ++ (text ++ s.rest) := by
    rw [hp, hmore, List.append_assoc]
  have hoffset : t.start.offset = (before ++ blanks).length := by
    rw [hstart, htaken.location, ← Location.after_append, Location.offset_after]
    exact Nat.zero_add _
  have hstop : stopOffset (t :: rest) = (before ++ blanks).length + text.length := by
    rw [stopOffset, List.getLast?_eq_some_getLast hne]
    simp only [hlast, htakes.location, Location.offset_after, hoffset]
  have htext : textOf source (t :: rest) = String.ofList text := by
    rw [textOf, hstop, startOffset, hoffset, hsource, Text.slice_middle]
  rw [hfront.depth] at htakes
  exact ⟨before ++ blanks, text, t.start, s, hsource, hoffset, hoffset, htext, htakes⟩

/-- The tokens of a part that stands behind balanced ones, read again from its own text. -/
theorem exists_reading {source : List Char} {ts part : List Token} {last : Point}
    (hsteps : Steps ⟨0, .start, source⟩ ts last) (hstands : Stands part ts) (hne : part ≠ []) :
    ∃ (g : Location → Location) (shift : Int) (s : Point) (here : Location),
      Steps ⟨0, .start, (textOf source part).toList⟩ (part.map (Token.relocate g)) s ∧
      Ended s here ∧ Carries g shift source (textOf source part).toList part := by
  obtain ⟨us, ws, rfl, hus⟩ := hstands
  obtain ⟨front, text, l, s, hsource, hl, -, htext, htakes⟩ := exists_text hsteps hne
  have hagain := htakes.again .start [] (cut_of_front List.nil_prefix)
  have hcarries : Carries (.moved l .start) _ (front ++ (text ++ s.rest)) ([] ++ (text ++ []))
      part := carries_of_takes htakes front [] hl rfl
  rw [List.append_nil, hus.depth] at hagain
  rw [← hsource, List.append_nil, List.nil_append] at hcarries
  rw [htext, String.toList_ofList]
  exact ⟨_, _, _, _, hagain, .mk (Location.start.after text) (.nil false), hcarries⟩

/-- Statements that stand in a source are the script of their own text. -/
theorem parse_text {source : List Char} {ts : List Token} {last : Point}
    (hsteps : Steps ⟨0, .start, source⟩ ts last) (d : Statements .top) (hd : Stands d.tokens ts)
    (hne : d.tokens ≠ []) :
    parse (textOf source d.tokens) = .ok ⟨d.statements source, d.functions source⟩ := by
  obtain ⟨g, shift, s, here, hread, hended, hcarries⟩ := exists_reading hsteps hd hne
  obtain ⟨d', hd', hstatements, hfunctions⟩ := d.exists_moved hcarries
  rw [← hd'] at hread
  exact parse_eq_ok_iff.mpr ⟨d', s, here, hread, hended, by rw [hstatements, hfunctions]⟩

theorem Definition.function_text (source : List Char) (f : Definition) :
    (f.function source).text = textOf source f.tokens := by
  cases f
  rfl

/-- For every expression that is not an argument of a call, every loop and every function of a
program, parsing the text that the program holds of it gives this part again, and nothing else. -/
theorem slices_are_self_contained {source : String} {p : Program} (h : parse source = .ok p) :
    (∀ s, p.Contains s → ∀ e ∈ s.expression?,
      parse e.context = .ok ⟨[.expression e], []⟩) ∧
    (∀ text condition body, p.Contains (.loop text condition body) →
      parse text = .ok ⟨[.loop text condition body], []⟩) ∧
    ∀ f ∈ p.functions, parse f.text = .ok ⟨[], [f]⟩ := by
  obtain ⟨d, last, -, hsteps, -, rfl⟩ := parse_eq_ok_iff.mp h
  refine ⟨fun s hs e he => ?_, fun text condition body hloop => ?_, fun f hf => ?_⟩
  · obtain ⟨c, rfl, hc⟩ := (d.contains_traced hs).expression e he
    exact parse_text hsteps (.last [] (.expression c)) hc c.begins.ne_nil
  · obtain ⟨c, hloop, rfl, hc⟩ := (d.contains_traced hloop).loop text condition body rfl
    let d' : Statements .top := .compound [] c (.done [])
    have htokens : d'.tokens = c.tokens := by simp [d', Statements.tokens]
    have hparse := parse_text hsteps d'
    rw [htokens] at hparse
    rw [hloop]
    exact hparse hc c.begins.ne_nil
  · obtain ⟨g, rfl, hg⟩ := d.function_traced hf
    let d' : Statements .top := .function [] g (.done [])
    have htokens : d'.tokens = g.tokens := by simp [d', Statements.tokens]
    have hparse := parse_text hsteps d'
    rw [htokens] at hparse
    rw [g.function_text]
    exact hparse hg g.begins.ne_nil

/-- A loop in a function, with a comment and a line break in its condition. -/
theorem slices_are_self_contained_in_function :
    let condition : Expression := ⟨"f(a, # )\n b)",
      [.call 0 "f" "f(a, # )\n b)" [⟨"a", [.name 0 "a"]⟩, ⟨"b", [.name 0 "b"]⟩]]⟩
    let text := "while f(a, # )\n b) \x7bbreak\x7d"
    let loop : Statement := .loop text condition [.breaking]
    let f : Function :=
      ⟨"f", "fn f(a) \x7bwhile f(a, # )\n b) \x7bbreak\x7d\x7d", ["a"], [loop]⟩
    parse ("# f\n" ++ f.text ++ ";") = .ok ⟨[], [f]⟩ ∧
      parse condition.context = .ok ⟨[.expression condition], []⟩ ∧
      parse text = .ok ⟨[loop], []⟩ ∧ parse f.text = .ok ⟨[], [f]⟩ := by
  intro condition text loop f
  have h : parse ("# f\n" ++ f.text ++ ";") = .ok ⟨[], [f]⟩ := by cbv
  have hloop : Program.Contains ⟨[], [f]⟩ loop :=
    .inr ⟨f, List.mem_singleton_self f, loop, List.mem_singleton_self loop, .self⟩
  obtain ⟨hexpressions, hloops, hfunctions⟩ := slices_are_self_contained h
  exact ⟨h, hexpressions loop hloop condition rfl, hloops text condition [.breaking] hloop,
    hfunctions f (List.mem_singleton_self f)⟩

end Abacus.Derivation
