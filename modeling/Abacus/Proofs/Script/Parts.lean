import Abacus.Script.Program

/-!
The parts of programs: statements in blocks at any depth, and expressions as arguments of calls at
any depth.
-/
namespace Abacus

/-- The expression itself, or an argument of a call in it. -/
inductive Expression.Within (e : Expression) : Expression → Prop
  | self : Within e e
  | argument {outer a : Expression} {p : Int} {name text : String} {arguments : List Expression}
      (ht : Term.call p name text arguments ∈ outer.terms) (ha : a ∈ arguments)
      (h : Within e a) : Within e outer

/-- The expression has the property, and so have the arguments of its calls. -/
def Expression.Every (holds : Expression → Prop) (e : Expression) : Prop :=
  ∀ a, Expression.Within a e → holds a

theorem Expression.Every.self {holds : Expression → Prop} {e : Expression}
    (h : Expression.Every holds e) : holds e := h e .self

theorem Expression.Every.argument {holds : Expression → Prop} {e a : Expression} {p : Int}
    {name text : String} {arguments : List Expression} (h : Expression.Every holds e)
    (ht : Term.call p name text arguments ∈ e.terms) (ha : a ∈ arguments) :
    Expression.Every holds a :=
  fun b hb => h b (.argument ht ha hb)

namespace Statement

/-- The statement itself, or one in its blocks. -/
inductive Within (s : Statement) : Statement → Prop
  | self : Within s s
  | body {t : Statement} {condition : Expression} {body : List Statement}
      {otherwise : Option (List Statement)} (ht : t ∈ body) (h : Within s t) :
      Within s (.branch condition body otherwise)
  | otherwise {t : Statement} {condition : Expression} {body other : List Statement}
      (ht : t ∈ other) (h : Within s t) : Within s (.branch condition body (some other))
  | loop {t : Statement} {text : String} {condition : Expression} {body : List Statement}
      (ht : t ∈ body) (h : Within s t) : Within s (.loop text condition body)

theorem within_branch {s : Statement} {condition : Expression} {body : List Statement}
    {otherwise : Option (List Statement)} (h : Within s (.branch condition body otherwise)) :
    s = .branch condition body otherwise ∨ (∃ t ∈ body, Within s t) ∨
      ∃ other ∈ otherwise, ∃ t ∈ other, Within s t := by
  cases h with
  | self => exact .inl rfl
  | body ht h => exact .inr (.inl ⟨_, ht, h⟩)
  | otherwise ht h => exact .inr (.inr ⟨_, rfl, _, ht, h⟩)

/-- The expression that stands in a statement itself, the condition of a branch or a loop. -/
def expression? : Statement → Option Expression
  | expression e => some e
  | branch condition _ _ => some condition
  | loop _ condition _ => some condition
  | returning e => some e
  | printing e => some e
  | breaking => none

/-- Every expression in the statement has the property. -/
def Every (holds : Expression → Prop) (s : Statement) : Prop :=
  ∀ t, Within t s → ∀ e ∈ t.expression?, Expression.Every holds e

section Every

variable {holds : Expression → Prop} {condition : Expression} {block : List Statement}

theorem Every.direct {s : Statement} (h : Every holds s) {e : Expression}
    (he : s.expression? = some e) : Expression.Every holds e := h s .self e he

theorem Every.body {otherwise : Option (List Statement)}
    (h : Every holds (.branch condition block otherwise)) : ∀ t ∈ block, Every holds t :=
  fun _ ht u hu => h u (.body ht hu)

theorem Every.otherwise {other : List Statement}
    (h : Every holds (.branch condition block (some other))) : ∀ t ∈ other, Every holds t :=
  fun _ ht u hu => h u (.otherwise ht hu)

theorem Every.loop {text : String} (h : Every holds (.loop text condition block)) :
    ∀ t ∈ block, Every holds t :=
  fun _ ht u hu => h u (.loop ht hu)

end Every

end Statement

/-- Every expression in the body has the property. -/
def Function.Every (holds : Expression → Prop) (f : Function) : Prop :=
  ∀ s ∈ f.body, s.Every holds

namespace Program

/-- The statements of a program at any depth, those of its functions included. -/
def Contains (p : Program) (s : Statement) : Prop :=
  (∃ t ∈ p.statements, s.Within t) ∨ ∃ f ∈ p.functions, ∃ t ∈ f.body, s.Within t

/-- The expressions of a program, arguments of calls included. -/
def Holds (p : Program) (e : Expression) : Prop :=
  ∃ s, p.Contains s ∧ ∃ outer ∈ s.expression?, e.Within outer

theorem every_statement (p : Program) : ∀ s ∈ p.statements, s.Every p.Holds :=
  fun s hs t ht e he _ ha => ⟨t, .inl ⟨s, hs, ht⟩, e, he, ha⟩

theorem every_function (p : Program) : ∀ f ∈ p.functions, f.Every p.Holds :=
  fun f hf s hs t ht e he _ ha => ⟨t, .inr ⟨f, hf, s, hs, ht⟩, e, he, ha⟩

end Program

end Abacus
