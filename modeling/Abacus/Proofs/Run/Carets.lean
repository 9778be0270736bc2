import Abacus.Proofs.Derivation.Positions
import Abacus.Proofs.Run.Blame
import Abacus.Proofs.Run.Sessions

/-!
Carets.

A diagnostic of a run is raised against an expression of the input or of a function that an earlier
input has defined. It is shown with the text of the expression on one line, where every character
keeps its column, and with a caret below the token that it is about.
-/
namespace Abacus

/-! ### How diagnostics are shown -/

namespace Diagnostic

/-- The diagnostic is shown as its text on one line and a caret below, in the column where the given
characters start. -/
def PointsAt (d : Diagnostic) (lexeme : List Char) : Prop :=
  ∃ line caret : List Char,
    d.render.toList = line ++ '\n' :: (caret ++ '\n' :: d.summary.toList) ∧
    '\n' ∉ line ∧ line.length = d.context.toList.length ∧
    caret = List.replicate d.position.toNat ' ' ++ ['^'] ∧
    lexeme <+: line.drop d.position.toNat

theorem toList_oneLine (text : String) :
    (oneLine text).toList = text.toList.map fun c => if c = '\n' then ' ' else c :=
  String.toList_map

theorem newline_notMem_oneLine (text : String) : '\n' ∉ (oneLine text).toList := by
  rw [toList_oneLine, List.mem_map]
  rintro ⟨c, -, hc⟩
  split at hc
  · cases hc
  · contradiction

/-- Characters other than line feeds stay where they are on the line. -/
theorem prefix_drop_oneLine {lexeme : List Char} {text : String} {n : Nat}
    (h : lexeme <+: text.toList.drop n) (hlexeme : '\n' ∉ lexeme) :
    lexeme <+: (oneLine text).toList.drop n := by
  have hsame : lexeme.map (fun c => if c = '\n' then ' ' else c) = lexeme := by
    calc lexeme.map (fun c => if c = '\n' then ' ' else c)
      _ = lexeme.map id :=
        List.map_congr_left fun c hc => if_neg (by rintro rfl; exact hlexeme hc)
      _ = lexeme := List.map_id lexeme
  rw [toList_oneLine, ← List.map_drop, ← hsame]
  exact h.map _

theorem pointsAt {d : Diagnostic} (hkind : d.kind.isFatal = false) {lexeme : List Char}
    (h : lexeme <+: d.context.toList.drop d.position.toNat) (hlexeme : '\n' ∉ lexeme) :
    d.PointsAt lexeme := by
  refine ⟨(oneLine d.context).toList, _, ?_, newline_notMem_oneLine _, ?_, rfl,
    prefix_drop_oneLine h hlexeme⟩
  · simp [render, hkind]
  · rw [toList_oneLine, List.length_map]

end Diagnostic

theorem Table.All.imp {α : Type} {holds holds' : α → Prop} {t : Table α} (h : t.All holds)
    (himp : ∀ a, holds a → holds' a) : t.All holds' := fun e he => himp e.2 (h e he)

theorem Function.Every.imp {holds holds' : Expression → Prop} {f : Function} (h : f.Every holds)
    (himp : ∀ e, holds e → holds' e) : f.Every holds' :=
  fun s hs t ht e he a ha => himp a (h s hs t ht e he a ha)

theorem Environment.functions_defineAll {holds : Function → Prop} {env : Environment}
    (h : env.functions.All holds) {fs : List Function} (hfs : ∀ f ∈ fs, holds f) :
    (env.defineAll fs).1.functions.All holds := by
  induction fs generalizing env with
  | nil => exact h
  | cons f rest ih =>
    obtain ⟨hf, hrest⟩ := List.forall_mem_cons.mp hfs
    have hdefined : (env.define f).functions.All holds := h.put f.name hf
    exact ih hdefined hrest

namespace Session

/-! ### Inputs and what a session keeps of them -/

/-- The inputs since a session started or was reset, the latest first, and the environment that they
led to. -/
inductive History (settings : Settings) : List String → Environment → Prop
  | fresh : History settings [] { settings := settings }
  | process {sources : List String} {env : Environment} (h : History settings sources env)
      (source : String) : History settings (source :: sources) (process env source).environment
  | reset {sources : List String} {env : Environment} (h : History settings sources env) :
      History settings [] env.reset

/-- The expressions of some inputs. -/
def Held (sources : List String) (e : Expression) : Prop :=
  ∃ source ∈ sources, ∃ p, parse source = .ok p ∧ p.Holds e

theorem held_cons {sources : List String} {t : Table Function}
    (h : t.All (Function.Every (Held sources))) (source : String) :
    t.All (Function.Every (Held (source :: sources))) := by
  refine h.imp fun f hf => hf.imp fun e ⟨input, hinput, hp⟩ => ?_
  exact ⟨input, List.mem_cons_of_mem _ hinput, hp⟩

/-- Once an input's functions are defined, all functions come from it or from earlier inputs. -/
theorem held_defineAll {sources : List String} {env : Environment}
    (h : env.functions.All (Function.Every (Held sources))) {source : String} {p : Program}
    (hp : parse source = .ok p) :
    (env.defineAll p.functions).1.functions.All (Function.Every (Held (source :: sources))) := by
  refine Environment.functions_defineAll (held_cons h source) fun f hf => ?_
  exact (p.every_function f hf).imp fun e he => ⟨source, List.mem_cons_self, p, hp, he⟩

theorem ran_functions (env : Environment) (p : Program) :
    (ran env p).environment.functions = (env.defineAll p.functions).1.functions := by
  rw [ran, Environment.run_environment]

theorem held_process {sources : List String} {env : Environment}
    (h : env.functions.All (Function.Every (Held sources))) (source : String) :
    (process env source).environment.functions.All (Function.Every (Held (source :: sources))) := by
  have hkept := held_cons h source
  unfold process
  split
  · exact hkept
  next ts hts =>
  split
  · exact hkept
  split
  · exact hkept
  next p hp =>
  rw [execute_environment, ran_functions]
  exact held_defineAll h (Derivation.parse_bind_iff.mpr ⟨ts, hts, hp⟩)

theorem History.held {settings : Settings} {sources : List String} {env : Environment}
    (h : History settings sources env) : env.functions.All (Function.Every (Held sources)) := by
  induction h with
  | fresh => exact fun e he => absurd he List.not_mem_nil
  | process _ source ih => exact held_process ih source
  | reset _ _ => exact fun e he => absurd he List.not_mem_nil

/-- A diagnostic of an input marks an expression of it or of an earlier one. -/
theorem History.marks {settings : Settings} {sources : List String} {env : Environment}
    (h : History settings sources env) {source : String} {p : Program}
    (hp : parse source = .ok p) {d : Diagnostic} (hd : (ran env p).result = .error (.diagnosed d)) :
    ∃ e, Held (source :: sources) e ∧ d.Marks e := by
  have hrules : (env.defineAll p.functions).1.rules.Every (Held (source :: sources)) :=
    held_defineAll h.held hp
  have hstatements : ∀ s ∈ p.statements, s.Every (Held (source :: sources)) :=
    fun s hs t ht e he a ha =>
      ⟨source, List.mem_cons_self, p, hp, p.every_statement s hs t ht e he a ha⟩
  have hblames := Run.statements_blames hrules (env.defineAll p.functions).1.depth none hstatements
    { store := (env.defineAll p.functions).1.store }
  unfold ran Environment.run at hd
  rw [Environment.rules] at hblames
  simp only [EStateM.run] at hd
  split at hd
  · cases hd
  · next failure _ hr =>
    rw [hr] at hblames
    exact hblames d (by simpa using hd)

open Abacus.Derivation (Located exists_located parse_bind_iff)
open Parse (startOffset)

/-- Every expression of a program has the text from its first to its last token, and each of its
terms points to its own token there. So does every diagnostic that a run of a session stops with:
it is about an expression of this input or of an earlier one, and the caret stands below the token
of one of its terms. -/
theorem carets_point_at_tokens :
    (∀ source ts p, tokenize source = .ok ts → parseTokens source ts = .ok p →
      ∀ e, p.Holds e → ∃ c, Located source ts c e) ∧
    ∀ settings sources env, History settings sources env →
      ∀ source ts p, tokenize source = .ok ts → parseTokens source ts = .ok p →
      ∀ d, (ran env p).result = .error (.diagnosed d) →
      (Nesting.isTooDeep env.settings ts = false → (process env source).text = .ok d.render) ∧
      ∃ input ∈ source :: sources, ∃ us q e c,
        tokenize input = .ok us ∧ parseTokens input us = .ok q ∧ q.Holds e ∧
        Located input us c e ∧ d.context = e.context ∧
        ∃ x ∈ e.terms, ∃ t ∈ c.tokens, d.position = x.position ∧
          x.PointsTo t (startOffset c.tokens) d.context.toList ∧ d.PointsAt t.lexeme.toList := by
  refine ⟨fun source ts p hts hp e he => exists_located hts hp he, ?_⟩
  intro settings sources env henv source ts p hts hp d hd
  refine ⟨fun hdeep => ?_, ?_⟩
  · rw [process_eq_execute hts hdeep hp]
    exact execute_text_of_error hd
  obtain ⟨e, ⟨input, hinput, q, hq, he⟩, hcontext, ⟨x, hx, hposition⟩, hkind⟩ :=
    henv.marks (parse_bind_iff.mpr ⟨ts, hts, hp⟩) hd
  obtain ⟨us, hus, hq⟩ := parse_bind_iff.mp hq
  obtain ⟨c, hlocated⟩ := exists_located hus hq he
  obtain ⟨t, ht, hpoints⟩ := hlocated.points x hx
  rw [← hcontext] at hpoints
  refine ⟨input, hinput, us, q, e, c, hus, hq, he, hlocated, hcontext, x, hx, t, ht, hposition,
    hpoints, ?_⟩
  exact Diagnostic.pointsAt hkind (hposition ▸ hpoints.here) hpoints.oneLine

/-- An unknown name in a function of an earlier input, on the second line of its expression. -/
theorem carets_point_at_tokens_of_earlier_input :
    let earlier := "fn f() \x7breturn (-\n y)\x7d"
    let e : Expression := ⟨"(-\n y)", [.name 4 "y", .operator 1 .negate]⟩
    let f : Function := ⟨"f", earlier, [], [.returning e]⟩
    let call : Expression := ⟨"f()", [.call 0 "f" "f()" []]⟩
    let env := (process {} earlier).environment
    let d : Diagnostic := ⟨"(-\n y)", 4, .unknownName⟩
    History {} [earlier] env ∧ parse earlier = .ok ⟨[], [f]⟩ ∧
      parse "f()" = .ok ⟨[.expression call], []⟩ ∧
      (ran env ⟨[.expression call], []⟩).result = .error (.diagnosed d) ∧
      (∃ ts c, tokenize earlier = .ok ts ∧ Located earlier ts c e) ∧
      ∃ input ∈ ["f()", earlier], ∃ us q e c,
        tokenize input = .ok us ∧ parseTokens input us = .ok q ∧ q.Holds e ∧
        Located input us c e ∧ d.context = e.context ∧
        ∃ x ∈ e.terms, ∃ t ∈ c.tokens, d.position = x.position ∧
          x.PointsTo t (startOffset c.tokens) d.context.toList ∧ d.PointsAt t.lexeme.toList := by
  intro earlier e f call env d
  have hearlier : parse earlier = .ok ⟨[], [f]⟩ := by cbv
  have hparse : parse "f()" = .ok ⟨[.expression call], []⟩ := by cbv
  have henv : History {} [earlier] env := .process .fresh earlier
  obtain ⟨ts, hts, hp⟩ := parse_bind_iff.mp hearlier
  obtain ⟨us, hus, hq⟩ := parse_bind_iff.mp hparse
  have hdeep : Nesting.isTooDeep {} ts = false := by
    have hall : ((tokenize earlier).map (Nesting.isTooDeep {})).toOption = some false := by
      decide +kernel
    simpa [hts, Except.map, Except.toOption] using hall
  have hran : (ran env ⟨[.expression call], []⟩).result = .error (.diagnosed d) := by
    have hdefined : env = { functions := [("f", f)] } := by
      rw [show env = (execute {} ⟨[], [f]⟩).environment from
        congrArg (·.environment) (process_eq_execute hts hdeep hp)]
      cbv
    rw [hdefined]
    cbv
  have he : Program.Holds ⟨[], [f]⟩ e :=
    ⟨.returning e, .inr ⟨f, List.mem_singleton_self f, _, List.mem_singleton_self _, .self⟩, e,
      rfl, .self⟩
  obtain ⟨c, hc⟩ := carets_point_at_tokens.1 earlier ts _ hts hp e he
  exact ⟨henv, hearlier, hparse, hran, ⟨ts, c, hts, hc⟩,
    (carets_point_at_tokens.2 {} [earlier] env henv "f()" us _ hus hq d hran).2⟩

end Session

end Abacus
