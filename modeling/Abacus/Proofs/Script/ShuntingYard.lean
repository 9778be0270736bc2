import Abacus.Proofs.Script.Precedence
import Mathlib.Data.List.Chain

/-!
The waiting operators, and how many of them an incoming one lets go.

The usual rule for putting an expression into postfix order keeps popping operators while the
topmost one binds more tightly than the incoming one, or as tightly if that one associates to the
left. Letting go of a single operator of the same precedence comes to the same, on any terms,
balanced or not: above the last parenthesis the stack rises in precedence, and it never holds two
operators of a level that associates to the left.
-/
namespace Abacus

/-! ### The usual rule -/

/-- The output so far, and what waits on the stack, topmost first. -/
structure Yard where
  out : List Term := []
  stack : List Term := []

namespace Yard

/-- Whether an operator on the stack is applied before an incoming one. -/
def yields (op : Operator) (t : Term) : Bool :=
  match t.operator? with
  | some top =>
    op.precedence < top.precedence || (top.precedence == op.precedence && op.leftAssociative)
  | none => false

/-- Pops terms to the output as long as the topmost one satisfies `p`. -/
def popWhile (p : Term → Bool) (out : List Term) : List Term → Yard
  | [] => ⟨out, []⟩
  | top :: stack => if p top then popWhile p (out ++ [top]) stack else ⟨out, top :: stack⟩

/-- Reads one term. A closing parenthesis takes the opening one with it, if there is any. -/
def step (y : Yard) : Term → Yard
  | .operator p op =>
    let z := popWhile (yields op) y.out y.stack
    ⟨z.out, .operator p op :: z.stack⟩
  | .parenthesis p .left => ⟨y.out, .parenthesis p .left :: y.stack⟩
  | .parenthesis _ .right =>
    let z := popWhile (!·.isParenthesis) y.out y.stack
    ⟨z.out, z.stack.tail⟩
  | t => ⟨y.out ++ [t], y.stack⟩

/-- The output once all terms have been read and the stack is emptied. -/
def convert (ts : List Term) : List Term :=
  let y := ts.foldl step {}
  y.out ++ y.stack.filter (!·.isParenthesis)

theorem popWhile_eq (p : Term → Bool) (out stack : List Term) :
    popWhile p out stack = ⟨out ++ stack.takeWhile p, stack.dropWhile p⟩ := by
  induction stack generalizing out with
  | nil => simp [popWhile]
  | cons top stack ih =>
    by_cases htop : p top = true
    · simp [popWhile, htop, ih]
    · simp [popWhile, htop]

end Yard

namespace Postfix

open Yard (yields)

/-! ### The order on the stack -/

/-- `x` may wait on top of `y`: it binds more tightly, or as tightly if their level does not
associate to the left. -/
def Outranks (x y : Term) : Prop :=
  ∃ op below, x.operator? = some op ∧ y.operator? = some below ∧
    (below.precedence < op.precedence ∨
      below.precedence = op.precedence ∧ op.leftAssociative = false)

instance : Trans Outranks Outranks Outranks where
  trans := by
    rintro x y z ⟨op, mid, hx, hy, hxy⟩ ⟨mid', below, hy', hz, hyz⟩
    obtain rfl : mid = mid' := Option.some.inj (hy.symm.trans hy')
    refine ⟨op, below, hx, hz, ?_⟩
    rcases hxy with hxy | ⟨hxy, hop⟩
    · exact .inl (by omega)
    rcases hyz with hyz | ⟨hyz, -⟩
    · exact .inl (by omega)
    · exact .inr ⟨by omega, hop⟩

/-- Only operators and parentheses wait. Of the operators between two parentheses each binds at
least as tightly as those below it, and no two are of the same left-associative level. -/
structure Orderly (stack : List Term) : Prop where
  waiting : ∀ x ∈ stack, x.isParenthesis = true ∨ ∃ op, x.operator? = some op
  rising : ∀ run, run <:+: stack → (∀ x ∈ run, x.isParenthesis = false) → run.Pairwise Outranks

theorem yields_of_operator {op top : Operator} {t : Term} (h : t.operator? = some top) :
    yields op t = false ↔
      top.precedence < op.precedence ∨
        top.precedence = op.precedence ∧ op.leftAssociative = false := by
  simp only [yields, h, Bool.or_eq_false_iff, decide_eq_false_iff_not, Bool.and_eq_false_iff,
    beq_eq_false_iff_ne]
  constructor
  · rintro ⟨hle, hne | hleft⟩
    · exact .inl (by omega)
    · rcases Nat.lt_or_ge top.precedence op.precedence with hlt | hge
      · exact .inl hlt
      · exact .inr ⟨by omega, hleft⟩
  · rintro (hlt | ⟨heq, hleft⟩)
    · exact ⟨by omega, .inl (by omega)⟩
    · exact ⟨by omega, .inr hleft⟩

theorem yields_of_isParenthesis (op : Operator) {t : Term} (h : t.isParenthesis = true) :
    yields op t = false := by
  cases t <;> simp_all [Term.isParenthesis, yields, Term.operator?]

namespace Orderly

theorem nil : Orderly [] where
  waiting := by simp
  rising run hrun _ := by simp [List.infix_nil.mp hrun]

theorem suffix {stack below : List Term} (h : Orderly stack) (hbelow : below <:+ stack) :
    Orderly below where
  waiting x hx := h.waiting x (hbelow.subset hx)
  rising run hrun := h.rising run (hrun.trans hbelow.isInfix)

/-- Neighbours decide whether a term may be put on an orderly stack. -/
theorem cons {x : Term} {stack : List Term} (h : Orderly stack)
    (hx : x.isParenthesis = true ∨ ∃ op, x.operator? = some op)
    (htop : ∀ y ∈ stack.head?, x.isParenthesis = true ∨ y.isParenthesis = true ∨ Outranks x y) :
    Orderly (x :: stack) where
  waiting y hy := by
    rcases List.mem_cons.mp hy with rfl | hy
    · exact hx
    · exact h.waiting y hy
  rising run hrun hplain := by
    rcases List.infix_cons_iff.mp hrun with hprefix | hinfix
    · cases run with
      | nil => exact .nil
      | cons z run =>
        obtain ⟨rfl, hbelow⟩ := List.cons_prefix_cons.mp hprefix
        obtain ⟨hz, hplain⟩ := List.forall_mem_cons.mp hplain
        refine List.IsChain.pairwise (.cons (h.rising run hbelow.isInfix hplain).isChain ?_)
        intro y hy
        obtain ⟨rest, rfl⟩ : ∃ rest, run = y :: rest := List.head?_eq_some_iff.mp hy
        obtain ⟨more, rfl⟩ := hbelow
        have hy : y.isParenthesis = false := hplain y (by simp)
        simpa [hz, hy] using htop y (by simp)
    · exact h.rising run hinfix hplain

theorem parenthesis {stack : List Term} (h : Orderly stack) (p : Int) (side : Side) :
    Orderly (.parenthesis p side :: stack) :=
  h.cons (.inl rfl) fun _ _ => .inl rfl

/-- What is next to an operator on the stack does not yield before it. -/
theorem not_yields_below {op : Operator} {top : Term} {below : List Term}
    (h : Orderly (top :: below)) (hequal : bindsEqually op top = true)
    (hop : op.leftAssociative = true) : ∀ y ∈ below.head?, yields op y = false := by
  intro y hy
  obtain ⟨rest, rfl⟩ : ∃ rest, below = y :: rest := List.head?_eq_some_iff.mp hy
  by_cases hparen : y.isParenthesis = true
  · exact yields_of_isParenthesis op hparen
  · have htop : top.isParenthesis = false := by
      cases top <;> simp_all [bindsEqually, Term.operator?, Term.isParenthesis]
    have hpair : [top, y].Pairwise Outranks :=
      h.rising [top, y] ⟨[], rest, rfl⟩ (by simp [htop, hparen])
    obtain ⟨upper, lower, hupper, hlower, hrank⟩ : Outranks top y := by simpa using hpair
    have hprec : upper.precedence = op.precedence := by
      simpa [bindsEqually, hupper] using hequal
    have hleft : upper.leftAssociative = true := by
      rw [← hop, Operator.leftAssociative, Operator.leftAssociative, hprec]
    refine (yields_of_operator hlower).mpr (.inl ?_)
    rcases hrank with hlt | ⟨-, hright⟩
    · omega
    · simp [hleft] at hright

end Orderly

theorem yields_eq (op : Operator) (t : Term) :
    yields op t = (bindsTighter op t || (bindsEqually op t && op.leftAssociative)) := by
  unfold yields bindsTighter bindsEqually
  cases t.operator? with
  | none => rfl
  | some top => rfl

theorem takeWhile_of_head?_false {p : Term → Bool} {stack : List Term}
    (h : ∀ y ∈ stack.head?, p y = false) : stack.takeWhile p = [] ∧ stack.dropWhile p = stack := by
  cases stack with
  | nil => exact ⟨rfl, rfl⟩
  | cons y stack => simp [h y (by simp)]

/-- On an orderly stack it is enough to let one operator of the same precedence go. -/
theorem release_eq_span {stack : List Term} (h : Orderly stack) (op : Operator) :
    release op stack = (stack.takeWhile (yields op), stack.dropWhile (yields op)) := by
  induction stack with
  | nil => rfl
  | cons top below ih =>
    have hbelow : Orderly below := h.suffix (List.suffix_cons top below)
    have hyields := yields_eq op top
    by_cases htighter : bindsTighter op top = true
    · have hrelease : release op (top :: below)
          = (top :: (release op below).1, (release op below).2) :=
        @Precedence.release_of_tighter op [top] (by simpa using htighter) below
      rw [hrelease, ih hbelow]
      simp [hyields, htighter]
    · by_cases hequal : (bindsEqually op top && op.leftAssociative) = true
      · obtain ⟨htop, hleft⟩ := Bool.and_eq_true_iff.mp hequal
        -- what waits below the released operator binds less tightly
        obtain ⟨htake, hdrop⟩ := takeWhile_of_head?_false (h.not_yields_below htop hleft)
        have hrelease : release op (top :: below) = ([top], below) :=
          @Precedence.release_of_equal op [] top (by simp) htop hleft below
        rw [hrelease]
        simp [hyields, hequal, htake, hdrop]
      · simp [release, hyields, htighter, hequal]

/-! ### Reading terms -/

/-- What reading a term puts out. -/
def putOut (stack : List Term) : Term → List Term
  | .operator _ op => (release op stack).1
  | .parenthesis _ .left => []
  | .parenthesis _ .right => stack.takeWhile (!·.isParenthesis)
  | t => [t]

/-- What waits after a term has been read. -/
def stackAfter (stack : List Term) : Term → List Term
  | .operator p op => .operator p op :: (release op stack).2
  | .parenthesis p .left => .parenthesis p .left :: stack
  | .parenthesis _ .right => (stack.dropWhile (!·.isParenthesis)).drop 1
  | _ => stack

theorem reorder_cons (t : Term) (ts stack : List Term) :
    reorder (t :: ts) stack = putOut stack t ++ reorder ts (stackAfter stack t) := by
  match t with
  | .operator p op => rw [reorder, putOut, stackAfter]
  | .parenthesis p .left => rw [reorder, putOut, stackAfter, List.nil_append]
  | .parenthesis p .right => rw [reorder, putOut, stackAfter]
  | .number p x => rfl
  | .name p n => rfl
  | .call p n text arguments => rfl

theorem Orderly.stackAfter {stack : List Term} (h : Orderly stack) (t : Term) :
    Orderly (stackAfter stack t) := by
  match t with
  | .operator p op =>
    rw [Postfix.stackAfter, release_eq_span h]
    have hwaiting : Orderly (stack.dropWhile (yields op)) := h.suffix (List.dropWhile_suffix _)
    refine hwaiting.cons (.inr ⟨op, rfl⟩) fun y hy => .inr ?_
    have hstays : yields op y = false := by
      have hhead := List.head?_dropWhile_not (yields op) stack
      rwa [Option.mem_def.mp hy] at hhead
    rcases hwaiting.waiting y (List.mem_of_mem_head? hy) with hparen | ⟨below, hbelow⟩
    · exact .inl hparen
    · exact .inr ⟨op, below, rfl, hbelow, (yields_of_operator hbelow).mp hstays⟩
  | .parenthesis p .left => exact h.parenthesis p .left
  | .parenthesis p .right =>
    exact h.suffix ((List.drop_suffix 1 _).trans (List.dropWhile_suffix _))
  | .number p x => exact h
  | .name p n => exact h
  | .call p n text arguments => exact h

/-- As long as the stack is orderly, a term is read in the same way by both rules. -/
theorem step_eq {stack : List Term} (h : Orderly stack) (out : List Term) (t : Term) :
    Yard.step ⟨out, stack⟩ t = ⟨out ++ putOut stack t, Postfix.stackAfter stack t⟩ := by
  match t with
  | .operator p op => simp only [Yard.step, Yard.popWhile_eq, putOut, stackAfter, release_eq_span h]
  | .parenthesis p .left => simp only [Yard.step, putOut, stackAfter, List.append_nil]
  | .parenthesis p .right =>
    simp only [Yard.step, Yard.popWhile_eq, putOut, stackAfter, List.drop_one]
  | .number p x => rfl
  | .name p n => rfl
  | .call p n text arguments => rfl

theorem Orderly.foldl {stack : List Term} (h : Orderly stack) (ts : List Term) :
    Orderly (ts.foldl Postfix.stackAfter stack) := by
  induction ts generalizing stack with
  | nil => exact h
  | cons t ts ih => exact ih (h.stackAfter t)

theorem foldl_step {stack : List Term} (h : Orderly stack) (out ts : List Term) :
    (ts.foldl Yard.step ⟨out, stack⟩).stack = ts.foldl stackAfter stack ∧
      ∀ more, out ++ reorder (ts ++ more) stack
        = (ts.foldl Yard.step ⟨out, stack⟩).out ++ reorder more (ts.foldl stackAfter stack) := by
  induction ts generalizing out stack with
  | nil => exact ⟨rfl, fun more => rfl⟩
  | cons t ts ih =>
    obtain ⟨hstack, hout⟩ := ih (h.stackAfter t) (out ++ putOut stack t)
    rw [List.foldl_cons, List.foldl_cons, step_eq h]
    refine ⟨hstack, fun more => ?_⟩
    rw [List.cons_append, reorder_cons, ← List.append_assoc, hout]

/-- Putting terms into postfix order, whatever they are, gives what the usual rule gives, which
keeps popping operators. At every moment the stack is orderly: what has been put out and what waits
after some terms are read does not depend on the terms that follow. -/
theorem compile_agrees_with_shunting_yard (context : String) (ts : List Term) :
    (compile context ts).terms = Yard.convert ts ∧ Orderly (ts.foldl stackAfter []) ∧
      ∀ more, reorder (ts ++ more) []
        = (ts.foldl Yard.step {}).out ++ reorder more (ts.foldl stackAfter []) := by
  obtain ⟨hstack, hout⟩ := foldl_step .nil [] ts
  refine ⟨?_, Orderly.nil.foldl ts, hout⟩
  have h := hout []
  rw [List.append_nil, List.nil_append] at h
  rw [Yard.convert, compile, h, reorder, hstack]

end Postfix

end Abacus
