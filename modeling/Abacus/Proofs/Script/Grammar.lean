import Abacus.Proofs.Script.Precedence
import Abacus.Script.Parse

/-!
The grammar of expressions over tokens.

    expression := operand (binary operand)*
    operand    := prefix* primary
    primary    := number | 'pi' | name | name '(' [expression (',' expression)*] ')'
                | '(' expression ')'

A derivation says which terms the tokens stand for, in source order and with the positions of the
tokens. The arguments of a call are expressions of their own: each has its own text, positions that
count from its own start, and the tree that precedence assigns to its terms. Whatever the grammar
derives has exactly one tree.
-/
namespace Abacus.Grammar

open Parse (positionIn startOffset)
open Precedence (Reads)

/-- The offset behind the last of some tokens. -/
def stopOffset (ts : List Token) : Nat :=
  match ts.getLast? with
  | none => 0
  | some t => t.stop.offset

/-- The stretch of source from the first to the last of some tokens. -/
def textOf (source : List Char) (ts : List Token) : String :=
  Text.slice source (startOffset ts) (stopOffset ts)

mutual

inductive Primary (source : List Char) : Nat → List Token → List Term → Prop
  | number {base : Nat} {t : Token} {x : Decimal} (ht : t.kind = .number x) :
      Primary source base [t] [.number (positionIn base t) x]
  | pi {base : Nat} {t : Token} (ht : t.kind = .keyword .piWord) :
      Primary source base [t] [.number (positionIn base t) Numeric.pi]
  | name {base : Nat} {t : Token} {n : String} (ht : t.kind = .identifier n) :
      Primary source base [t] [.name (positionIn base t) n]
  | emptyCall {base : Nat} {t u v : Token} {n : String} (ht : t.kind = .identifier n)
      (hu : u.isMark .leftParen = true) (hv : v.isMark .rightParen = true) :
      Primary source base [t, u, v] [.call (positionIn base t) n (textOf source [t, u, v]) []]
  | call {base : Nat} {t u v : Token} {n : String} {ts : List Token}
      {arguments : List (String × Tree)} (ht : t.kind = .identifier n)
      (hu : u.isMark .leftParen = true) (h : Arguments source ts arguments)
      (hv : v.isMark .rightParen = true) :
      Primary source base (t :: u :: ts ++ [v])
        [.call (positionIn base t) n (textOf source (t :: u :: ts ++ [v]))
          (Tree.expressions arguments)]
  | parens {base : Nat} {t u : Token} {ts : List Token} {terms : List Term}
      (ht : t.isMark .leftParen = true) (h : Terms source base ts terms)
      (hu : u.isMark .rightParen = true) :
      Primary source base (t :: ts ++ [u])
        (.parenthesis (positionIn base t) .left :: terms
          ++ [.parenthesis (positionIn base u) .right])

inductive Operand (source : List Char) : Nat → List Token → List Term → Prop
  | primary {base : Nat} {ts : List Token} {terms : List Term} (h : Primary source base ts terms) :
      Operand source base ts terms
  | prefixed {base : Nat} {t : Token} {op : Operator} {ts : List Token} {terms : List Term}
      (ht : t.prefixOperator? = some op) (hop : op.isUnary = true)
      (h : Operand source base ts terms) :
      Operand source base (t :: ts) (.operator (positionIn base t) op :: terms)

/-- The terms of an expression that starts at the offset `base`. -/
inductive Terms (source : List Char) : Nat → List Token → List Term → Prop
  | operand {base : Nat} {ts : List Token} {terms : List Term} (h : Operand source base ts terms) :
      Terms source base ts terms
  | chain {base : Nat} {t : Token} {op : Operator} {ts us : List Token} {terms more : List Term}
      (h : Operand source base ts terms) (ht : t.binaryOperator? = some op)
      (hmore : Terms source base us more) :
      Terms source base (ts ++ t :: us) (terms ++ .operator (positionIn base t) op :: more)

/-- One argument or more, with commas between them. -/
inductive Arguments (source : List Char) : List Token → List (String × Tree) → Prop
  | one {ts : List Token} {terms : List Term} {t : Tree}
      (h : Terms source (startOffset ts) ts terms) (ht : Reads 0 terms t) :
      Arguments source ts [(textOf source ts, t)]
  | more {ts us : List Token} {terms : List Term} {t : Tree} {c : Token}
      {arguments : List (String × Tree)} (h : Terms source (startOffset ts) ts terms)
      (ht : Reads 0 terms t) (hc : c.isMark .comma = true)
      (hmore : Arguments source us arguments) :
      Arguments source (ts ++ c :: us) ((textOf source ts, t) :: arguments)

end

theorem not_isUnary_of_binaryOperator? {t : Token} {op : Operator}
    (h : t.binaryOperator? = some op) : op.isUnary = false := by
  unfold Token.binaryOperator? at h
  split at h <;> cases h <;> rfl

/-! ### What is derived has a tree -/

mutual

theorem Primary.reads {source : List Char} {base : Nat} {ts : List Token} {terms : List Term}
    (h : Primary source base ts terms) : ∃ t, Reads 7 terms t := by
  match h with
  | .number _ => exact ⟨_, .number _ _⟩
  | .pi _ => exact ⟨_, .number _ _⟩
  | .name _ => exact ⟨_, .name _ _⟩
  | .emptyCall _ _ _ => exact ⟨_, .call _ _ _ []⟩
  | .call _ _ _ _ => exact ⟨_, .call _ _ _ _⟩
  | .parens _ h _ =>
    obtain ⟨t, ht⟩ := h.reads
    exact ⟨t, .parens _ _ ht⟩

theorem Operand.reads {source : List Char} {base : Nat} {ts : List Token} {terms : List Term}
    (h : Operand source base ts terms) : ∃ t, Reads 6 terms t := by
  match h with
  | .primary h =>
    obtain ⟨t, ht⟩ := h.reads
    exact ⟨t, ht.tighter⟩
  | .prefixed _ hop h =>
    obtain ⟨t, ht⟩ := h.reads
    exact ⟨_, .prefixed _ (Precedence.mem_prefixes hop) ht⟩

/-- An expression behind an operator goes, operand by operand, to the end of a tree. -/
theorem Terms.extend {source : List Char} {base : Nat} {ts : List Token} {terms : List Term}
    (h : Terms source base ts terms) {before : List Term} {t : Tree} (ht : Reads 0 before t)
    (p : Int) {op : Operator} (hop : op.isUnary = false) :
    ∃ t, Reads 0 (before ++ .operator p op :: terms) t := by
  match h with
  | .operand h =>
    obtain ⟨x, hx⟩ := h.reads
    exact ht.extend p hop (Nat.zero_le _) hx
  | .chain h hop' hmore =>
    obtain ⟨x, hx⟩ := h.reads
    obtain ⟨u, hu⟩ := ht.extend p hop (Nat.zero_le _) hx
    obtain ⟨v, hv⟩ := hmore.extend hu _ (not_isUnary_of_binaryOperator? hop')
    exact ⟨v, by simpa using hv⟩

theorem Terms.reads {source : List Char} {base : Nat} {ts : List Token} {terms : List Term}
    (h : Terms source base ts terms) : ∃ t, Reads 0 terms t := by
  match h with
  | .operand h =>
    obtain ⟨t, ht⟩ := h.reads
    exact ⟨t, ht.loosen (by omega)⟩
  | .chain h hop hmore =>
    obtain ⟨t, ht⟩ := h.reads
    exact hmore.extend (ht.loosen (by omega)) _ (not_isUnary_of_binaryOperator? hop)

end

/-! ### Positions -/

mutual

theorem Primary.position {source : List Char} {base : Nat} {ts : List Token} {terms : List Term}
    (h : Primary source base ts terms) :
    ∀ x ∈ terms, ∃ t ∈ ts, x.position = positionIn base t := by
  match h with
  | .number _ | .pi _ | .name _ | .emptyCall _ _ _ | .call _ _ _ _ =>
    intro x hx
    obtain rfl := List.mem_singleton.mp hx
    exact ⟨_, List.mem_cons_self, rfl⟩
  | @Primary.parens _ _ t u us terms _ h _ =>
    intro x hx
    simp only [List.cons_append, List.mem_cons, List.mem_append, List.not_mem_nil,
      or_false] at hx
    rcases hx with rfl | hx | rfl
    · exact ⟨t, by simp, rfl⟩
    · obtain ⟨v, hv, hx⟩ := h.position x hx
      exact ⟨v, by simp [hv], hx⟩
    · exact ⟨u, by simp, rfl⟩

theorem Operand.position {source : List Char} {base : Nat} {ts : List Token} {terms : List Term}
    (h : Operand source base ts terms) :
    ∀ x ∈ terms, ∃ t ∈ ts, x.position = positionIn base t := by
  match h with
  | .primary h => exact h.position
  | @Operand.prefixed _ _ t op us terms _ _ h =>
    intro x hx
    rcases List.mem_cons.mp hx with rfl | hx
    · exact ⟨t, by simp, rfl⟩
    · obtain ⟨v, hv, hx⟩ := h.position x hx
      exact ⟨v, by simp [hv], hx⟩

theorem Terms.position {source : List Char} {base : Nat} {ts : List Token} {terms : List Term}
    (h : Terms source base ts terms) :
    ∀ x ∈ terms, ∃ t ∈ ts, x.position = positionIn base t := by
  match h with
  | .operand h => exact h.position
  | @Terms.chain _ _ t op us vs terms more h _ hmore =>
    intro x hx
    simp only [List.mem_append, List.mem_cons] at hx
    rcases hx with hx | rfl | hx
    · obtain ⟨v, hv, hx⟩ := h.position x hx
      exact ⟨v, by simp [hv], hx⟩
    · exact ⟨t, by simp, rfl⟩
    · obtain ⟨v, hv, hx⟩ := hmore.position x hx
      exact ⟨v, by simp [hv], hx⟩

end

end Abacus.Grammar
