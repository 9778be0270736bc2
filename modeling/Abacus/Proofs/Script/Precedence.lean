import Abacus.Proofs.Script.Tree
import Abacus.Script.Postfix

/-!
The tree that precedence assigns to terms in source order.

The grammar has a level for each strength of binding. Assignment is the loosest and groups to the
right; five levels of binary operators follow, each grouping to the left; prefix operators are
tighter, and tightest are single operands and parentheses:

    level 0    := level 1 | level 1 '=' level 0
    level k    := level (k + 1) | level k operator level (k + 1)      (k = 1, ..., 5)
    level 6    := level 7 | operator level 6
    level 7    := number | name | call | '(' level 0 ')'

Reordering terms with a stack of waiting operators lists the tree that this grammar assigns to
them in postorder.
-/
namespace Abacus.Precedence

/-- The binary operators of a level. -/
def infixes : Nat → List Operator
  | 1 => [.less, .greater, .equal, .unequal]
  | 2 => [.both, .either]
  | 3 => [.add, .subtract]
  | 4 => [.multiply, .divide, .remainder]
  | 5 => [.power]
  | _ => []

def prefixes : List Operator := .negate :: .complement :: Operator.builtins

theorem leftAssociative_of_mem {k : Nat} {op : Operator} (h : op ∈ infixes k) :
    op.leftAssociative = true := by
  unfold infixes at h
  split at h <;> simp only [List.mem_cons, List.not_mem_nil, or_false] at h
  all_goals rcases h with rfl | rfl | rfl | rfl <;> rfl

theorem precedence_of_mem {k : Nat} {op : Operator} (h : op ∈ infixes k) : op.precedence = k := by
  unfold infixes at h
  split at h <;> simp only [List.mem_cons, List.not_mem_nil, or_false] at h
  all_goals rcases h with rfl | rfl | rfl | rfl <;> rfl

theorem isUnary_of_mem {op : Operator} (h : op ∈ prefixes) : op.isUnary = true := by
  revert op
  decide

theorem mem_prefixes {op : Operator} (h : op.isUnary = true) : op ∈ prefixes := by
  revert h
  cases op <;> decide

/-- The operators of two operands are assignment and those of the five levels. -/
theorem assign_or_mem_infixes {op : Operator} (h : op.isUnary = false) :
    op = .assign ∨ op ∈ infixes op.precedence := by
  revert h
  cases op <;> decide

/-- `Reads k ts t`: the grammar derives the terms `ts` at level `k`, and `t` is their tree. -/
inductive Reads : Nat → List Term → Tree → Prop
  | number (p : Int) (x : Decimal) : Reads 7 [.number p x] (.number p x)
  | name (p : Int) (n : String) : Reads 7 [.name p n] (.name p n)
  | call (p : Int) (n text : String) (arguments : List (String × Tree)) :
      Reads 7 [.call p n text (Tree.expressions arguments)] (.call p n text arguments)
  | parens (p q : Int) {ts : List Term} {t : Tree} (h : Reads 0 ts t) :
      Reads 7 (.parenthesis p .left :: ts ++ [.parenthesis q .right]) t
  | prefixed (p : Int) {op : Operator} {ts : List Term} {t : Tree} (hop : op ∈ prefixes)
      (h : Reads 6 ts t) : Reads 6 (.operator p op :: ts) (.unary p op (isUnary_of_mem hop) t)
  | grouped (p : Int) {k : Nat} {op : Operator} {ls rs : List Term} {l r : Tree}
      (hop : op ∈ infixes k) (hl : Reads k ls l) (hr : Reads (k + 1) rs r) :
      Reads k (ls ++ .operator p op :: rs) (.binary p op (leftAssociative_of_mem hop) l r)
  | assigned (p : Int) {ls rs : List Term} {l r : Tree} (hl : Reads 1 ls l) (hr : Reads 0 rs r) :
      Reads 0 (ls ++ .operator p .assign :: rs) (.assignment p l r)
  | tighter {k : Nat} {ts : List Term} {t : Tree} (h : Reads (k + 1) ts t) : Reads k ts t

/-! ### What an operator releases -/

open Postfix

theorem release_of_tighter {op : Operator} {held : List Term}
    (h : ∀ x ∈ held, bindsTighter op x = true) (stack : List Term) :
    release op (held ++ stack) = (held ++ (release op stack).1, (release op stack).2) := by
  unfold release
  rw [List.takeWhile_append_of_pos h, List.dropWhile_append_of_pos h]
  split
  · split <;> simp
  · rfl

theorem release_of_equal {op : Operator} {held : List Term} {top : Term}
    (h : ∀ x ∈ held, bindsTighter op x = true) (htop : bindsEqually op top = true)
    (hop : op.leftAssociative = true) (stack : List Term) :
    release op (held ++ top :: stack) = (held ++ [top], stack) := by
  have hnot : bindsTighter op top = false := by
    unfold bindsEqually at htop
    unfold bindsTighter
    split at htop <;> simp_all
  rw [release_of_tighter h]
  simp [release, hnot, htop, hop]

/-- An incoming operator of level `k` or tighter releases nothing from the stack. -/
def Waits (k : Nat) (stack : List Term) : Prop :=
  ∀ op : Operator, k ≤ op.precedence → release op stack = ([], stack)

theorem Waits.mono {j k : Nat} {stack : List Term} (h : Waits j stack) (hjk : j ≤ k) :
    Waits k stack := fun op hop => h op (Nat.le_trans hjk hop)

theorem waits_nil (k : Nat) : Waits k [] := fun _ _ => rfl

theorem waits_parenthesis (k : Nat) (p : Int) (side : Side) (stack : List Term) :
    Waits k (.parenthesis p side :: stack) := by
  intro op _
  simp [release, bindsTighter, bindsEqually, Term.operator?]

/-- What waits on top is not released by an operator that binds more tightly, nor by one that binds
as tightly but does not group to the left. -/
theorem waits_operator {k : Nat} (p : Int) (top : Operator) (stack : List Term)
    (h : top.precedence < k ∨ top.precedence = k ∧ top.leftAssociative = false) :
    Waits k (.operator p top :: stack) := by
  intro op hop
  have hnot : ¬ op.precedence < top.precedence := by omega
  have hequal : top.precedence = op.precedence → op.leftAssociative = false := by
    intro he
    rcases h with h | ⟨h, hl⟩
    · omega
    · simpa [Operator.leftAssociative, he] using hl
  by_cases he : top.precedence = op.precedence
  · simp [release, bindsTighter, bindsEqually, Term.operator?, hnot, hequal he]
  · simp [release, bindsTighter, bindsEqually, Term.operator?, hnot, he]

/-- The operators that a stretch of terms of level `k` leaves on the stack. All of them bind at
least as tightly as the level; where the level groups to the left, only the lowest may bind just as
tightly, which is why an incoming operator needs to release no more than one of them. -/
structure Held (k : Nat) (held : List Term) : Prop where
  operators : ∀ x ∈ held, ∃ p op, x = .operator p op ∧ k ≤ op.precedence
  single : infixes k ≠ [] → ∀ x ∈ held.dropLast, ∃ p op, x = .operator p op ∧ k < op.precedence

namespace Held

theorem nil (k : Nat) : Held k [] := ⟨by simp, by simp⟩

theorem tighter {k : Nat} {held : List Term} (h : Held (k + 1) held) : Held k held where
  operators x hx := by
    obtain ⟨p, op, rfl, hop⟩ := h.operators x hx
    exact ⟨p, op, rfl, by omega⟩
  single _ x hx := by
    obtain ⟨p, op, rfl, hop⟩ := h.operators x ((List.dropLast_sublist held).subset hx)
    exact ⟨p, op, rfl, by omega⟩

theorem bindsTighter {k : Nat} {held : List Term} (h : Held k held) {op : Operator}
    (hop : op.precedence < k) : ∀ x ∈ held, Postfix.bindsTighter op x = true := by
  intro x hx
  obtain ⟨p, top, rfl, htop⟩ := h.operators x hx
  simp only [Postfix.bindsTighter, Term.operator?, decide_eq_true_eq]
  omega

theorem not_isParenthesis {k : Nat} {held : List Term} (h : Held k held) :
    ∀ x ∈ held, (!x.isParenthesis) = true := by
  intro x hx
  obtain ⟨p, op, rfl, -⟩ := h.operators x hx
  rfl

/-- A looser operator releases everything that is held. -/
theorem release_of_looser {k : Nat} {held stack : List Term} (h : Held k held) {op : Operator}
    (hop : op.precedence < k) (hs : release op stack = ([], stack)) :
    release op (held ++ stack) = (held, stack) := by
  rw [release_of_tighter (h.bindsTighter hop), hs, List.append_nil]

/-- So does an operator of the level itself. -/
theorem release_of_mem {k : Nat} {held stack : List Term} (h : Held k held) {op : Operator}
    (hop : op ∈ infixes k) (hs : release op stack = ([], stack)) :
    release op (held ++ stack) = (held, stack) := by
  have hk : op.precedence = k := precedence_of_mem hop
  have hne : infixes k ≠ [] := List.ne_nil_of_mem hop
  rcases held.eq_nil_or_concat with rfl | ⟨upper, lowest, rfl⟩
  · exact hs
  · have hupper : ∀ x ∈ upper, Postfix.bindsTighter op x = true := by
      intro x hx
      obtain ⟨p, top, rfl, htop⟩ := h.single hne x (by simpa using hx)
      simp only [Postfix.bindsTighter, Term.operator?, decide_eq_true_eq]
      omega
    obtain ⟨p, top, rfl, htop⟩ := h.operators lowest (by simp)
    by_cases he : top.precedence = k
    · have hequal : bindsEqually op (.operator p top) = true := by
        simp [bindsEqually, Term.operator?, he, hk]
      simpa using release_of_equal hupper hequal (leftAssociative_of_mem hop) stack
    · have hall : ∀ x ∈ upper ++ [.operator p top], Postfix.bindsTighter op x = true := by
        intro x hx
        rcases List.mem_append.mp hx with hx | hx
        · exact hupper x hx
        · obtain rfl := List.mem_singleton.mp hx
          simp only [Postfix.bindsTighter, Term.operator?, decide_eq_true_eq]
          omega
      simpa [hs] using release_of_tighter hall stack

/-- An operator of level `k` joins the tighter ones above it. -/
theorem concat {k : Nat} {held : List Term} (h : Held (k + 1) held) (p : Int) {op : Operator}
    (hop : op.precedence = k) : Held k (held ++ [.operator p op]) where
  operators x hx := by
    rcases List.mem_append.mp hx with hx | hx
    · exact h.tighter.operators x hx
    · exact ⟨p, op, List.mem_singleton.mp hx, by omega⟩
  single _ x hx := by
    rw [List.dropLast_concat] at hx
    exact h.operators x hx

/-- At a level that does not group to the left, any number of its operators may be held. -/
theorem concat_of_infixes {k : Nat} {held : List Term} (h : Held k held) (p : Int) {op : Operator}
    (hop : op.precedence = k) (hk : infixes k = []) : Held k (held ++ [.operator p op]) where
  operators x hx := by
    rcases List.mem_append.mp hx with hx | hx
    · exact h.operators x hx
    · exact ⟨p, op, List.mem_singleton.mp hx, by omega⟩
  single hne := absurd hk hne

end Held

/-! ### Reordering -/

theorem reorder_operator {op : Operator} {out waiting stack : List Term} (p : Int) (ts : List Term)
    (h : release op stack = (out, waiting)) :
    reorder (.operator p op :: ts) stack = out ++ reorder ts (.operator p op :: waiting) := by
  rw [reorder, h]

/-- A closing parenthesis releases what is held above the opening one. -/
theorem reorder_closing {k : Nat} {held : List Term} (h : Held k held) (p q : Int)
    (ts stack : List Term) :
    reorder (.parenthesis q .right :: ts) (held ++ .parenthesis p .left :: stack)
      = held ++ reorder ts stack := by
  rw [reorder, List.takeWhile_append_of_pos h.not_isParenthesis,
    List.dropWhile_append_of_pos h.not_isParenthesis]
  simp [Term.isParenthesis]

/-- Reading terms of level `k` lists their tree in postorder, except for operators that stay on the
stack; nothing below is touched. The induction is on the derivation, for any stack that waits and
any terms that follow. -/
theorem Reads.reorder_append {k : Nat} {ts : List Term} {t : Tree} (h : Reads k ts t) :
    ∀ stack, Waits k stack → ∃ out held, out ++ held = t.postorder ∧ Held k held ∧
      ∀ more, reorder (ts ++ more) stack = out ++ reorder more (held ++ stack) := by
  induction h with
  | number p x => exact fun stack _ => ⟨[_], [], rfl, .nil 7, fun more => rfl⟩
  | name p n => exact fun stack _ => ⟨[_], [], rfl, .nil 7, fun more => rfl⟩
  | call p n text arguments => exact fun stack _ => ⟨[_], [], rfl, .nil 7, fun more => rfl⟩
  | @parens p q ts t _ ih =>
    intro stack _
    obtain ⟨out, held, hout, hheld, hread⟩ := ih _ (waits_parenthesis 0 p .left stack)
    refine ⟨t.postorder, [], by simp, .nil 7, fun more => ?_⟩
    calc reorder (.parenthesis p .left :: ts ++ [.parenthesis q .right] ++ more) stack
        = reorder (ts ++ .parenthesis q .right :: more) (.parenthesis p .left :: stack) := by
          simp [reorder]
      _ = out ++ (held ++ reorder more stack) := by
          rw [hread, reorder_closing hheld]
      _ = t.postorder ++ reorder more ([] ++ stack) := by
          rw [← List.append_assoc, hout, List.nil_append]
  | @prefixed p op ts t hop _ ih =>
    intro stack hs
    have hprec : op.precedence = 6 := by simpa [Operator.isUnary] using isUnary_of_mem hop
    have hleft : op.leftAssociative = false := by simp [Operator.leftAssociative, hprec]
    obtain ⟨out, held, hout, hheld, hread⟩ := ih _ (waits_operator p op stack (.inr ⟨hprec, hleft⟩))
    refine ⟨out, held ++ [.operator p op], ?_, hheld.concat_of_infixes p hprec rfl, fun more => ?_⟩
    · rw [← List.append_assoc, hout, Tree.postorder]
    · rw [List.cons_append, reorder_operator p _ (hs op (by omega)), hread]
      simp
  | @grouped p k op ls rs l r hop _ _ ihl ihr =>
    intro stack hs
    have hprec : op.precedence = k := precedence_of_mem hop
    obtain ⟨outl, heldl, houtl, hheldl, hreadl⟩ := ihl stack hs
    obtain ⟨outr, heldr, houtr, hheldr, hreadr⟩ :=
      ihr _ (waits_operator p op stack (.inl (by omega)))
    have hrelease := hheldl.release_of_mem hop (hs op (by omega))
    refine ⟨outl ++ heldl ++ outr, heldr ++ [.operator p op], ?_, hheldr.concat p hprec,
      fun more => ?_⟩
    · rw [Tree.postorder, ← houtl, ← houtr]
      simp
    · rw [List.append_assoc, hreadl, List.cons_append, reorder_operator p _ hrelease, hreadr]
      simp
  | @assigned p ls rs l r _ _ ihl ihr =>
    intro stack hs
    obtain ⟨outl, heldl, houtl, hheldl, hreadl⟩ := ihl stack (hs.mono (by omega))
    obtain ⟨outr, heldr, houtr, hheldr, hreadr⟩ :=
      ihr _ (waits_operator p .assign stack (.inr ⟨rfl, rfl⟩))
    have hrelease : release .assign (heldl ++ stack) = (heldl, stack) :=
      hheldl.release_of_looser (by decide) (hs .assign (by omega))
    refine ⟨outl ++ heldl ++ outr, heldr ++ [.operator p .assign], ?_,
      hheldr.concat_of_infixes p rfl rfl, fun more => ?_⟩
    · rw [Tree.postorder, ← houtl, ← houtr]
      simp
    · rw [List.append_assoc, hreadl, List.cons_append, reorder_operator p _ hrelease, hreadr]
      simp
  | tighter _ ih =>
    intro stack hs
    obtain ⟨out, held, hout, hheld, hread⟩ := ih stack (hs.mono (by omega))
    exact ⟨out, held, hout, hheld.tighter, hread⟩

theorem Reads.reorder_eq {k : Nat} {ts : List Term} {t : Tree} (h : Reads k ts t) :
    reorder ts [] = t.postorder := by
  obtain ⟨out, held, hout, hheld, hread⟩ := h.reorder_append [] (waits_nil k)
  have hfilter : held.filter (!·.isParenthesis) = held :=
    List.filter_eq_self.mpr hheld.not_isParenthesis
  calc reorder ts [] = out ++ reorder [] (held ++ []) := by rw [← hread [], List.append_nil]
    _ = t.postorder := by rw [List.append_nil, reorder, hfilter, hout]

/-- Terms have at most one tree. -/
theorem Reads.unique {j k : Nat} {ts : List Term} {t u : Tree} (ht : Reads j ts t)
    (hu : Reads k ts u) : t = u :=
  Tree.postorder_injective (ht.reorder_eq.symm.trans hu.reorder_eq)

/-- The tree holds no terms but those that were read. -/
theorem Reads.mem_of_mem_postorder {k : Nat} {ts : List Term} {t : Tree} (h : Reads k ts t)
    {x : Term} (hx : x ∈ t.postorder) : x ∈ ts := by
  induction h with
  | number | name | call => exact hx
  | parens _ _ _ ih => simp [ih hx]
  | prefixed _ _ _ ih =>
    simp only [Tree.postorder, List.mem_append, List.mem_singleton] at hx
    rcases hx with hx | rfl
    · simp [ih hx]
    · simp
  | grouped _ _ _ _ ihl ihr | assigned _ _ _ ihl ihr =>
    simp only [Tree.postorder, List.mem_append, List.mem_singleton] at hx
    rcases hx with (hx | hx) | rfl
    · simp [ihl hx]
    · simp [ihr hx]
    · simp
  | tighter _ ih => exact ih hx

/-! ### Every chain of operands has a tree -/

theorem Reads.loosen {j k : Nat} {ts : List Term} {t : Tree} (hjk : j ≤ k) (h : Reads k ts t) :
    Reads j ts t := by
  induction hjk with
  | refl => exact h
  | step _ ih => exact ih h.tighter

/-- One more operator and operand at the end. They go as far down the right edge of the tree as the
operator binds more tightly than what is there. -/
theorem Reads.extend {k : Nat} {ts : List Term} {t : Tree} (h : Reads k ts t) (p : Int)
    {op : Operator} (hop : op.isUnary = false) (hk : k ≤ op.precedence) {xs : List Term} {x : Tree}
    (hx : Reads 6 xs x) : ∃ t, Reads k (ts ++ .operator p op :: xs) t := by
  have hlt : op.precedence < 6 := by
    revert hop
    cases op <;> decide
  induction h with
  | number | name | call | parens | prefixed => omega
  | @grouped q k op' ls rs l r hop' hl hr _ ihr =>
    by_cases hprec : op.precedence = k
    · rcases assign_or_mem_infixes hop with rfl | hmem
      · rw [← hprec] at hop'
        simp [infixes, Operator.precedence] at hop'
      · rw [hprec] at hmem
        exact ⟨_, .grouped p hmem (.grouped q hop' hl hr) (hx.loosen (by omega))⟩
    · obtain ⟨t, ht⟩ := ihr (by omega)
      rw [List.append_assoc, List.cons_append]
      exact ⟨_, .grouped q hop' hl ht⟩
  | @assigned q ls rs l r hl hr _ ihr =>
    obtain ⟨t, ht⟩ := ihr (by omega)
    rw [List.append_assoc, List.cons_append]
    exact ⟨_, .assigned q hl ht⟩
  | @tighter k ts t h ih =>
    by_cases hprec : op.precedence = k
    · rcases assign_or_mem_infixes hop with rfl | hmem
      · obtain rfl : k = 0 := hprec.symm
        exact ⟨_, .assigned p h (hx.loosen (by omega))⟩
      · rw [hprec] at hmem
        exact ⟨_, .grouped p hmem (.tighter h) (hx.loosen (by omega))⟩
    · obtain ⟨t, ht⟩ := ih (by omega)
      exact ⟨_, .tighter ht⟩

end Abacus.Precedence
