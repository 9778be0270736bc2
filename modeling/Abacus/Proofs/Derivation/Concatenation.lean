import Abacus.Proofs.Derivation.Relocation

/-!
Sources joined by a line feed.

At the end of the first source no parenthesis is open, so the line feed ends its last comment and is
a separator. Behind it the second source is scanned as from the start. The program of the whole is
that of both parts, one behind the other.
-/
namespace Abacus.Derivation

open Scan (Point Step Ended)

/-! ### Statements one behind the other -/

theorem Statements.exists_prepend {place : Place} (source : List Char) (separators : List Separator)
    (d : Statements place) :
    ∃ d' : Statements place, d'.tokens = separators.unattach ++ d.tokens ∧
      d'.statements source = d.statements source ∧ d'.functions source = d.functions source := by
  cases d with
  | done own => exact ⟨.done (separators ++ own), by simp [Statements.tokens], rfl, rfl⟩
  | last own s => exact ⟨.last (separators ++ own) s, by simp [Statements.tokens], rfl, rfl⟩
  | simple own s separator rest =>
    exact ⟨.simple (separators ++ own) s separator rest, by simp [Statements.tokens], rfl, rfl⟩
  | compound own c rest =>
    exact ⟨.compound (separators ++ own) c rest, by simp [Statements.tokens], rfl, rfl⟩
  | function own f rest =>
    exact ⟨.function (separators ++ own) f rest, by simp [Statements.tokens], rfl, rfl⟩

theorem Statements.exists_append (source : List Char) (d e : Statements .top)
    (separator : Separator) :
    ∃ d' : Statements .top, d'.tokens = d.tokens ++ separator.val :: e.tokens ∧
      d'.statements source = d.statements source ++ e.statements source ∧
      d'.functions source = d.functions source ++ e.functions source := by
  match d with
  | .done separators =>
    obtain ⟨d', hd', hstatements, hfunctions⟩ :=
      e.exists_prepend source (separators ++ [separator])
    exact ⟨d', by simp [hd', Statements.tokens], hstatements, hfunctions⟩
  | .last separators s =>
    exact ⟨.simple separators s separator e, by simp [Statements.tokens], rfl, rfl⟩
  | .simple separators s own rest =>
    obtain ⟨d', hd', hstatements, hfunctions⟩ := exists_append source rest e separator
    refine ⟨.simple separators s own d', by simp [hd', Statements.tokens], ?_, hfunctions⟩
    simp [Statements.statements, hstatements]
  | .compound separators c rest =>
    obtain ⟨d', hd', hstatements, hfunctions⟩ := exists_append source rest e separator
    refine ⟨.compound separators c d', by simp [hd', Statements.tokens], ?_, hfunctions⟩
    simp [Statements.statements, hstatements]
  | .function separators f rest =>
    obtain ⟨d', hd', hstatements, hfunctions⟩ := exists_append source rest e separator
    refine ⟨.function separators f d', by simp [hd', Statements.tokens], hstatements, ?_⟩
    simp [Statements.functions, hfunctions]

/-! ### Sources one behind the other -/

/-- With no parenthesis open, a line feed at the end of a source is a token. -/
theorem step_newline {s : Point} {here : Location} (h : Ended s here) (hdepth : s.depth = 0)
    (l : Location) (more : List Char) :
    ∃ (separator : Separator), Step ⟨0, l, s.rest ++ '\n' :: more⟩ separator.val
      ⟨0, l.after (s.rest ++ ['\n']), more⟩ := by
  cases h with
  | @mk depth blanks inComment l₀ hblanks =>
    obtain rfl : depth = 0 := hdepth
    have hfirst : Reading.first '\n' more = .ok ⟨.newline, ['\n'], more⟩ := by
      simp [Reading.first]
    exact ⟨⟨_, rfl⟩, .mk l hblanks (by simp [Scan.dropped]) hfirst⟩

/-- The program of two sources with a line feed between them is that of the first, followed by
that of the second. -/
theorem parse_joined {s₁ s₂ : String} {p₁ p₂ : Program} (h₁ : parse s₁ = .ok p₁)
    (h₂ : parse s₂ = .ok p₂) :
    parse (s₁ ++ "\n" ++ s₂)
      = .ok ⟨p₁.statements ++ p₂.statements, p₁.functions ++ p₂.functions⟩ := by
  obtain ⟨d₁, t₁, here₁, hsteps₁, hended₁, rfl⟩ := parse_eq_ok_iff.mp h₁
  obtain ⟨d₂, t₂, here₂, hsteps₂, hended₂, rfl⟩ := parse_eq_ok_iff.mp h₂
  obtain ⟨text₁, htakes₁⟩ := hsteps₁.text
  obtain ⟨text₂, htakes₂⟩ := hsteps₂.text
  have hsource₁ : s₁.toList = text₁ ++ t₁.rest := htakes₁.rest
  have hsource₂ : s₂.toList = text₂ ++ t₂.rest := htakes₂.rest
  have hsource : (s₁ ++ "\n" ++ s₂).toList = text₁ ++ (t₁.rest ++ '\n' :: s₂.toList) := by
    simp [hsource₁]
  have hdepth₁ : t₁.depth = 0 := hsteps₁.depth.trans (d₁.balanced.depth 0)
  -- the first source, up to its last token
  have hagain₁ := htakes₁.again .start _ (cut_newline t₁.rest s₂.toList)
  have hcarries₁ : Carries (.moved .start .start) 0 s₁.toList (s₁ ++ "\n" ++ s₂).toList
      d₁.tokens := by
    rw [hsource, hsource₁]
    exact carries_of_takes htakes₁ [] [] rfl rfl
  obtain ⟨d₁', hd₁', hstatements₁, hfunctions₁⟩ := d₁.exists_moved hcarries₁
  -- the line feed, behind which the second source starts
  obtain ⟨separator, hnewline⟩ :=
    step_newline hended₁ hdepth₁ (Location.start.after text₁) s₂.toList
  let l := (Location.start.after text₁).after (t₁.rest ++ ['\n'])
  have hagain₂ := htakes₂.again l t₂.rest (cut_of_front (List.prefix_refl _))
  have hl : l.offset = (text₁ ++ t₁.rest ++ ['\n']).length := by
    simp only [l, Location.offset_after, Location.start, List.length_append]
    omega
  have hcarries₂ : Carries (.moved .start l) (l.offset - 0) s₂.toList (s₁ ++ "\n" ++ s₂).toList
      d₂.tokens := by
    have hwhole : (s₁ ++ "\n" ++ s₂).toList
        = (text₁ ++ t₁.rest ++ ['\n']) ++ (text₂ ++ t₂.rest) := by
      simp [hsource₁, hsource₂]
    rw [hwhole, hsource₂]
    exact carries_of_takes htakes₂ [] _ rfl hl
  obtain ⟨d₂', hd₂', hstatements₂, hfunctions₂⟩ := d₂.exists_moved hcarries₂
  -- both parts together
  obtain ⟨d, hd, hstatements, hfunctions⟩ :=
    d₁'.exists_append (s₁ ++ "\n" ++ s₂).toList d₂' separator
  refine parse_eq_ok_iff.mpr ⟨d, _, _, ?_, hended₂.moved (l.after text₂), ?_⟩
  · rw [hd, hd₁', hd₂', hsource]
    rw [hdepth₁] at hagain₁
    rw [← hsource₂] at hagain₂
    exact hagain₁.trans (.cons hnewline hagain₂)
  · rw [hstatements, hfunctions, hstatements₁, hfunctions₁, hstatements₂, hfunctions₂]

/-- A comment at the end of the first source ends at its seam, and a function behind it is
defined. -/
theorem parse_joined_behind_comment :
    let s₁ := "y = f(1,\n 2) # ("
    let s₂ := "fn f(a, b) \x7breturn sin90 + b\x7d"
    ∃ p₁ p₂, parse s₁ = .ok p₁ ∧ parse s₂ = .ok p₂ ∧
      parse (s₁ ++ "\n" ++ s₂)
        = .ok ⟨p₁.statements ++ p₂.statements, p₁.functions ++ p₂.functions⟩ := by
  intro s₁ s₂
  obtain ⟨p₁, h₁⟩ := exists_of_isOk (x := parse s₁) (by decide +kernel)
  obtain ⟨p₂, h₂⟩ := exists_of_isOk (x := parse s₂) (by decide +kernel)
  exact ⟨p₁, p₂, h₁, h₂, parse_joined h₁ h₂⟩

end Abacus.Derivation
