import Abacus.Proofs.Derivation.Unambiguous

/-!
Derivations moved along.

Programs hold stretches of their source and positions within them, and no places of the source. So
when the tokens of a derivation are moved to where the same text stands in another source, the
derivation moves with them, and its program stays the same.
-/
namespace Abacus

namespace Text

theorem slice_within {front text : List Char} {start stop : Nat} (hstop : stop ≤ text.length)
    (more : List Char) :
    slice (front ++ (text ++ more)) (front.length + start) (front.length + stop)
      = slice text start stop := by
  have hdrop : (front ++ (text ++ more)).drop (front.length + start)
      = (text ++ more).drop start := by
    rw [← List.drop_drop, List.drop_left]
  rw [slice, slice, hdrop]
  congr 1
  by_cases hstart : start ≤ text.length
  · rw [List.drop_append_of_le_length hstart, List.take_append_of_le_length]
    · congr 1
      omega
    · rw [List.length_drop]
      omega
  · have hempty : stop - start = 0 := by omega
    have hempty' : front.length + stop - (front.length + start) = 0 := by omega
    rw [hempty, hempty', List.take_zero, List.take_zero]

theorem slice_middle (front text more : List Char) :
    slice (front ++ (text ++ more)) front.length (front.length + text.length)
      = String.ofList text := by
  simp [slice]

end Text

namespace Derivation

open Parse (positionIn startOffset)
open Grammar (textOf stopOffset)
open Scan (Point Takes)

/-- Between the places of the tokens the other source reads as the first one, `shift` further
on. -/
structure Carries (g : Location → Location) (shift : Int) (source source' : List Char)
    (ts : List Token) : Prop where
  start : ∀ t ∈ ts, ((g t.start).offset : Int) = t.start.offset + shift
  text : ∀ t ∈ ts, ∀ u ∈ ts,
    Text.slice source' (g t.start).offset (g u.stop).offset
      = Text.slice source t.start.offset u.stop.offset

/-- Wherever the text of some steps stands, their tokens move with it. -/
theorem carries_of_takes {p s : Point} {ts : List Token} {text : List Char}
    (h : Takes p s ts text) (front front' : List Char) {more more' : List Char} {l : Location}
    (hp : p.location.offset = front.length) (hl : l.offset = front'.length) :
    Carries (.moved p.location l) (l.offset - p.location.offset) (front ++ (text ++ more))
      (front' ++ (text ++ more')) ts where
  start t ht := by
    obtain ⟨before, taken, after, -, hstart, -⟩ := h.stands t ht
    rw [hstart, Location.moved_after, Location.offset_after, Location.offset_after]
    omega
  text t ht u hu := by
    obtain ⟨before, taken, after, rfl, hstart, hstop, -⟩ := h.stands t ht
    obtain ⟨before', taken', after', htext, hstart', hstop', -⟩ := h.stands u hu
    have hlength : (before' ++ taken').length ≤ (before ++ (taken ++ after)).length := by
      rw [htext]
      simp only [List.length_append]
      omega
    rw [hstart, hstop', Location.moved_after, Location.moved_after, Location.offset_after,
      Location.offset_after, Location.offset_after, Location.offset_after, hp, hl,
      Text.slice_within hlength, Text.slice_within hlength]

section Move

variable {g : Location → Location} {shift : Int} {source source' : List Char}

theorem Carries.mono {ts us : List Token} (h : Carries g shift source source' ts) (hus : us ⊆ ts) :
    Carries g shift source source' us :=
  ⟨fun t ht => h.start t (hus ht), fun t ht u hu => h.text t (hus ht) u (hus hu)⟩

theorem Carries.left {ts us : List Token} (h : Carries g shift source source' (ts ++ us)) :
    Carries g shift source source' ts := h.mono (List.subset_append_left ts us)

theorem Carries.right {ts us : List Token} (h : Carries g shift source source' (ts ++ us)) :
    Carries g shift source source' us := h.mono (List.subset_append_right ts us)

theorem Carries.tail {t : Token} {us : List Token}
    (h : Carries g shift source source' (t :: us)) : Carries g shift source source' us :=
  h.mono (List.subset_cons_self t us)

theorem Carries.textOf {ts : List Token} (h : Carries g shift source source' ts) (hts : ts ≠ []) :
    textOf source' (ts.map (Token.relocate g)) = textOf source ts := by
  obtain ⟨t, us, rfl⟩ := List.exists_cons_of_ne_nil hts
  have hlast := List.getLast?_eq_some_getLast hts
  have hlast' : ((t :: us).map (Token.relocate g)).getLast?
      = some (((t :: us).getLast hts).relocate g) := by
    rw [List.getLast?_map, hlast]
    rfl
  simp only [Grammar.textOf, stopOffset, hlast, hlast']
  exact h.text t (by simp) _ (List.getLast_mem hts)

theorem Carries.startOffset {ts : List Token} (h : Carries g shift source source' ts)
    (hts : ts ≠ []) :
    (startOffset (ts.map (Token.relocate g)) : Int) = startOffset ts + shift := by
  obtain ⟨t, us, rfl⟩ := List.exists_cons_of_ne_nil hts
  exact h.start t (by simp)

theorem Carries.position {ts : List Token} (h : Carries g shift source source' ts) {t : Token}
    (ht : t ∈ ts) {base base' : Nat} (hbase : (base' : Int) = base + shift) :
    positionIn base' (t.relocate g) = positionIn base t := by
  have hstart := h.start t ht
  simp only [positionIn, Token.relocate]
  omega

theorem exists_moved_list {q : Token → Bool} (hq : ∀ t, q (t.relocate g) = q t)
    (skipped : List { t : Token // q t = true }) :
    ∃ skipped' : List { t : Token // q t = true },
      skipped'.unattach = skipped.unattach.map (Token.relocate g) := by
  refine ⟨skipped.map fun t => ⟨t.val.relocate g, (hq _).trans t.property⟩, ?_⟩
  rw [List.unattach, List.unattach, List.map_map, List.map_map]
  rfl

/-! ### Expressions -/

mutual

theorem Primary.exists_moved (p : Primary) (h : Carries g shift source source' p.tokens) :
    ∃ p' : Primary, p'.tokens = p.tokens.map (Token.relocate g) ∧
      ∀ {base base' : Nat}, (base' : Int) = base + shift →
        p'.terms source' base' = p.terms source base := by
  match p with
  | .number t =>
    refine ⟨.number ⟨t.token.relocate g, t.value, t.reads⟩, rfl, fun hbase => ?_⟩
    simp only [Primary.terms, h.position (t := t.token) (by simp [Primary.tokens]) hbase]
  | .pi t =>
    refine ⟨.pi ⟨t.val.relocate g, t.property⟩, rfl, fun hbase => ?_⟩
    simp only [Primary.terms, h.position (t := t.val) (by simp [Primary.tokens]) hbase]
  | .name t =>
    refine ⟨.name ⟨t.token.relocate g, t.value, t.reads⟩, rfl, fun hbase => ?_⟩
    simp only [Primary.terms, h.position (t := t.token) (by simp [Primary.tokens]) hbase]
  | .emptyCall t opening closing =>
    refine ⟨.emptyCall ⟨t.token.relocate g, t.value, t.reads⟩
      ⟨opening.val.relocate g, opening.property⟩ ⟨closing.val.relocate g, closing.property⟩, rfl,
      fun hbase => ?_⟩
    have htext := h.textOf (by simp [Primary.tokens])
    simp only [Primary.terms, h.position (t := t.token) (by simp [Primary.tokens]) hbase]
    rw [← htext]
    rfl
  | .call t opening arguments closing =>
    obtain ⟨a, ha, hexpressions⟩ := arguments.exists_moved h.tail.tail.left
    have hposition := fun {base base' : Nat} (hbase : (base' : Int) = base + shift) =>
      h.position (t := t.token) (by simp [Primary.tokens]) hbase
    let p' : Primary := .call ⟨t.token.relocate g, t.value, t.reads⟩
      ⟨opening.val.relocate g, opening.property⟩ a ⟨closing.val.relocate g, closing.property⟩
    have hp' : p'.tokens = (Primary.call t opening arguments closing).tokens.map
        (Token.relocate g) := by
      simp [p', Primary.tokens, ha]
    refine ⟨p', hp', fun hbase => ?_⟩
    -- the text of the call lies between its own tokens, so it moves along with them
    have htext := h.textOf (by simp [Primary.tokens])
    rw [← hp'] at htext
    simp only [p', Primary.terms, hposition hbase, hexpressions]
    rw [← htext]
  | .parens opening inner closing =>
    obtain ⟨c, hc, hterms⟩ := inner.exists_moved h.tail.left
    refine ⟨.parens ⟨opening.val.relocate g, opening.property⟩ c
      ⟨closing.val.relocate g, closing.property⟩, by simp [Primary.tokens, hc], fun hbase => ?_⟩
    simp only [Primary.terms, hterms hbase,
      h.position (t := opening.val) (by simp [Primary.tokens]) hbase,
      h.position (t := closing.val) (by simp [Primary.tokens]) hbase]

theorem Operand.exists_moved (o : Operand) (h : Carries g shift source source' o.tokens) :
    ∃ o' : Operand, o'.tokens = o.tokens.map (Token.relocate g) ∧
      ∀ {base base' : Nat}, (base' : Int) = base + shift →
        o'.terms source' base' = o.terms source base := by
  match o with
  | .primary p =>
    obtain ⟨p', hp', hterms⟩ := p.exists_moved h
    exact ⟨.primary p', hp', hterms⟩
  | .prefixed t hunary o =>
    obtain ⟨o', ho', hterms⟩ := o.exists_moved h.tail
    refine ⟨.prefixed ⟨t.token.relocate g, t.value, t.reads⟩ hunary o',
      by simp [Operand.tokens, ho'], fun hbase => ?_⟩
    simp only [Operand.terms, hterms hbase,
      h.position (t := t.token) (by simp [Operand.tokens]) hbase]

theorem Chain.exists_moved (c : Chain) (h : Carries g shift source source' c.tokens) :
    ∃ c' : Chain, c'.tokens = c.tokens.map (Token.relocate g) ∧
      ∀ {base base' : Nat}, (base' : Int) = base + shift →
        c'.terms source' base' = c.terms source base := by
  match c with
  | .operand o =>
    obtain ⟨o', ho', hterms⟩ := o.exists_moved h
    exact ⟨.operand o', ho', hterms⟩
  | .link o t rest =>
    obtain ⟨o', ho', hterms⟩ := o.exists_moved h.left
    obtain ⟨rest', hrest', hmore⟩ := rest.exists_moved h.right.tail
    refine ⟨.link o' ⟨t.token.relocate g, t.value, t.reads⟩ rest',
      by simp [Chain.tokens, ho', hrest'], fun hbase => ?_⟩
    simp only [Chain.terms, hterms hbase, hmore hbase,
      h.position (t := t.token) (by simp [Chain.tokens]) hbase]

theorem Arguments.exists_moved (a : Arguments) (h : Carries g shift source source' a.tokens) :
    ∃ a' : Arguments, a'.tokens = a.tokens.map (Token.relocate g) ∧
      a'.expressions source' = a.expressions source := by
  match a with
  | .one c =>
    rw [Arguments.tokens] at h
    obtain ⟨c', hc', hterms⟩ := c.exists_moved h
    refine ⟨.one c', hc', ?_⟩
    rw [Arguments.expressions, Arguments.expressions, hc', h.textOf c.begins.ne_nil,
      hterms (h.startOffset c.begins.ne_nil)]
  | .more c comma rest =>
    obtain ⟨c', hc', hterms⟩ := c.exists_moved h.left
    obtain ⟨rest', hrest', hmore⟩ := rest.exists_moved h.right.tail
    refine ⟨.more c' ⟨comma.val.relocate g, comma.property⟩ rest',
      by simp [Arguments.tokens, hc', hrest'], ?_⟩
    rw [Arguments.expressions, Arguments.expressions, hc', h.left.textOf c.begins.ne_nil,
      hterms (h.left.startOffset c.begins.ne_nil), hmore]

end

theorem Chain.exists_expression (c : Chain) (h : Carries g shift source source' c.tokens) :
    ∃ c' : Chain, c'.tokens = c.tokens.map (Token.relocate g) ∧
      c'.expression source' = c.expression source := by
  obtain ⟨c', hc', hterms⟩ := c.exists_moved h
  refine ⟨c', hc', ?_⟩
  rw [Chain.expression, Chain.expression, hc', h.textOf c.begins.ne_nil,
    hterms (h.startOffset c.begins.ne_nil)]

/-! ### Statements -/

theorem Parameters.exists_moved (g : Location → Location) (ps : Parameters) :
    ∃ ps' : Parameters, ps'.tokens = ps.tokens.map (Token.relocate g) ∧ ps'.names = ps.names := by
  induction ps with
  | one name => exact ⟨.one ⟨name.token.relocate g, name.value, name.reads⟩, rfl, rfl⟩
  | more name comma rest ih =>
    obtain ⟨rest', hrest', hnames⟩ := ih
    refine ⟨.more ⟨name.token.relocate g, name.value, name.reads⟩
      ⟨comma.val.relocate g, comma.property⟩ rest', ?_, ?_⟩
    · simp [Parameters.tokens, hrest']
    · simp [Parameters.names, hnames]

theorem exists_moved_parameters (g : Location → Location) (parameters : Option Parameters) :
    ∃ parameters' : Option Parameters,
      parameterTokens parameters' = (parameterTokens parameters).map (Token.relocate g) ∧
      parameterNames parameters' = parameterNames parameters := by
  cases parameters with
  | none => exact ⟨none, rfl, rfl⟩
  | some ps =>
    obtain ⟨ps', hps', hnames⟩ := ps.exists_moved g
    exact ⟨some ps', hps', hnames⟩

theorem Simple.exists_moved {place : Place} (s : Simple place)
    (h : Carries g shift source source' s.tokens) :
    ∃ s' : Simple place, s'.tokens = s.tokens.map (Token.relocate g) ∧
      s'.statement source' = s.statement source := by
  cases s with
  | expression c =>
    obtain ⟨c', hc', hexpression⟩ := c.exists_expression h
    exact ⟨.expression c', hc', congrArg Statement.expression hexpression⟩
  | returning word c =>
    obtain ⟨c', hc', hexpression⟩ := c.exists_expression h.tail
    exact ⟨.returning ⟨word.val.relocate g, word.property⟩ c', by simp [Simple.tokens, hc'],
      congrArg Statement.returning hexpression⟩
  | printing word c =>
    obtain ⟨c', hc', hexpression⟩ := c.exists_expression h.tail
    exact ⟨.printing ⟨word.val.relocate g, word.property⟩ c', by simp [Simple.tokens, hc'],
      congrArg Statement.printing hexpression⟩
  | breaking word hplace => exact ⟨.breaking ⟨word.val.relocate g, word.property⟩ hplace, rfl, rfl⟩

mutual

theorem Branch.exists_moved (b : Branch) (h : Carries g shift source source' b.tokens) :
    ∃ b' : Branch, b'.tokens = b.tokens.map (Token.relocate g) ∧
      b'.statement source' = b.statement source := by
  match b with
  | .mk condition body otherwise =>
    obtain ⟨c, hc, hexpression⟩ := condition.exists_expression h.left.left
    obtain ⟨b, hb, hbody⟩ := body.exists_moved h.left.right
    obtain ⟨o, ho, hother⟩ := otherwise.exists_moved h.right
    refine ⟨.mk c b o, by simp [Branch.tokens, hc, hb, ho], ?_⟩
    rw [Branch.statement, Branch.statement, hexpression, hbody, hother]

theorem Otherwise.exists_moved (o : Otherwise) (h : Carries g shift source source' o.tokens) :
    ∃ o' : Otherwise, o'.tokens = o.tokens.map (Token.relocate g) ∧
      o'.statements source' = o.statements source := by
  match o with
  | .none => exact ⟨.none, rfl, rfl⟩
  | .block newlines word body =>
    obtain ⟨newlines', hnewlines⟩ := exists_moved_list (g := g) (fun _ => rfl) newlines
    obtain ⟨b, hb, hbody⟩ := body.exists_moved h.right.tail
    refine ⟨.block newlines' ⟨word.val.relocate g, word.property⟩ b,
      by simp [Otherwise.tokens, hnewlines, hb], ?_⟩
    rw [Otherwise.statements, Otherwise.statements, hbody]
  | .branch newlines word start other =>
    obtain ⟨newlines', hnewlines⟩ := exists_moved_list (g := g) (fun _ => rfl) newlines
    obtain ⟨b, hb, hother⟩ := other.exists_moved h.right.tail.tail
    refine ⟨.branch newlines' ⟨word.val.relocate g, word.property⟩
      ⟨start.val.relocate g, start.property⟩ b, by simp [Otherwise.tokens, hnewlines, hb], ?_⟩
    rw [Otherwise.statements, Otherwise.statements, hother]

theorem Compound.exists_moved (c : Compound) (h : Carries g shift source source' c.tokens) :
    ∃ c' : Compound, c'.tokens = c.tokens.map (Token.relocate g) ∧
      c'.statement source' = c.statement source := by
  match c with
  | .branch start b =>
    obtain ⟨b', hb', hstatement⟩ := b.exists_moved h.tail
    exact ⟨.branch ⟨start.val.relocate g, start.property⟩ b', by simp [Compound.tokens, hb'],
      hstatement⟩
  | .loop start condition body =>
    obtain ⟨c, hc, hexpression⟩ := condition.exists_expression h.left.tail
    obtain ⟨b, hb, hbody⟩ := body.exists_moved h.right
    let loop' : Compound := .loop ⟨start.val.relocate g, start.property⟩ c b
    have hloop : loop'.tokens = (Compound.loop start condition body).tokens.map
        (Token.relocate g) := by
      simp [loop', Compound.tokens, hc, hb]
    have htext := h.textOf (by simp [Compound.tokens])
    rw [← hloop] at htext
    refine ⟨loop', hloop, ?_⟩
    rw [Compound.statement, Compound.statement, ← htext, hexpression, hbody]

theorem Block.exists_moved {place : Place} (b : Block place)
    (h : Carries g shift source source' b.tokens) :
    ∃ b' : Block place, b'.tokens = b.tokens.map (Token.relocate g) ∧
      b'.statements source' = b.statements source := by
  match b with
  | .mk opening body closing =>
    obtain ⟨d, hd, hbody, -⟩ := body.exists_moved h.tail.left
    exact ⟨.mk ⟨opening.val.relocate g, opening.property⟩ d
      ⟨closing.val.relocate g, closing.property⟩, by simp [Block.tokens, hd], hbody⟩

theorem Statements.exists_moved {place : Place} (d : Statements place)
    (h : Carries g shift source source' d.tokens) :
    ∃ d' : Statements place, d'.tokens = d.tokens.map (Token.relocate g) ∧
      d'.statements source' = d.statements source ∧
      d'.functions source' = d.functions source := by
  match d with
  | .done separators =>
    obtain ⟨separators', hseparators⟩ := exists_moved_list (g := g) (fun _ => rfl) separators
    exact ⟨.done separators', hseparators, rfl, rfl⟩
  | .last separators s =>
    obtain ⟨separators', hseparators⟩ := exists_moved_list (g := g) (fun _ => rfl) separators
    obtain ⟨s', hs', hstatement⟩ := s.exists_moved h.right
    refine ⟨.last separators' s', by simp [Statements.tokens, hseparators, hs'], ?_, rfl⟩
    rw [Statements.statements, Statements.statements, hstatement]
  | .simple separators s separator rest =>
    obtain ⟨separators', hseparators⟩ := exists_moved_list (g := g) (fun _ => rfl) separators
    obtain ⟨s', hs', hstatement⟩ := s.exists_moved h.left.right
    obtain ⟨d, hd, hrest, hfunctions⟩ := rest.exists_moved h.right.tail
    refine ⟨.simple separators' s' ⟨separator.val.relocate g, separator.property⟩ d,
      by simp [Statements.tokens, hseparators, hs', hd], ?_, hfunctions⟩
    rw [Statements.statements, Statements.statements, hstatement, hrest]
  | .compound separators c rest =>
    obtain ⟨separators', hseparators⟩ := exists_moved_list (g := g) (fun _ => rfl) separators
    obtain ⟨c', hc', hstatement⟩ := c.exists_moved h.left.right
    obtain ⟨d, hd, hrest, hfunctions⟩ := rest.exists_moved h.right
    refine ⟨.compound separators' c' d, by simp [Statements.tokens, hseparators, hc', hd], ?_,
      hfunctions⟩
    rw [Statements.statements, Statements.statements, hstatement, hrest]
  | .function separators f rest =>
    obtain ⟨separators', hseparators⟩ := exists_moved_list (g := g) (fun _ => rfl) separators
    obtain ⟨f', hf', hfunction⟩ := f.exists_moved h.left.right
    obtain ⟨d, hd, hrest, hfunctions⟩ := rest.exists_moved h.right
    refine ⟨.function separators' f' d, ?_, hrest, ?_⟩
    · simp [Statements.tokens, hseparators, hf', hd]
    rw [Statements.functions, Statements.functions, hfunction, hfunctions]

theorem Definition.exists_moved (f : Definition) (h : Carries g shift source source' f.tokens) :
    ∃ f' : Definition, f'.tokens = f.tokens.map (Token.relocate g) ∧
      f'.function source' = f.function source := by
  match f with
  | .mk start name opening parameters closing body =>
    obtain ⟨ps, hps, hnames⟩ := exists_moved_parameters g parameters
    obtain ⟨b, hb, hbody⟩ := body.exists_moved h.right.tail
    let f' : Definition := .mk ⟨start.val.relocate g, start.property⟩
      ⟨name.token.relocate g, name.value, name.reads⟩ ⟨opening.val.relocate g, opening.property⟩
      ps ⟨closing.val.relocate g, closing.property⟩ b
    have hf' : f'.tokens = (Definition.mk start name opening parameters closing body).tokens.map
        (Token.relocate g) := by
      simp [f', Definition.tokens, hps, hb]
    have htext := h.textOf (by simp [Definition.tokens])
    rw [← hf'] at htext
    refine ⟨f', hf', ?_⟩
    rw [Definition.function, Definition.function, ← htext, hnames, hbody]

end

end Move

end Derivation

end Abacus
