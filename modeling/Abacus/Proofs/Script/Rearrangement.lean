import Abacus.Proofs.Script.ShuntingYard
import Mathlib.Data.List.TakeWhile

/-!
Postfix order as a rearrangement.

Whatever the terms are, balanced or not, nothing is lost on the way into postfix order but the
parentheses, and nothing comes twice. To tell equal terms apart, each is numbered by its place in
source order; a term that waits keeps its number. Operands never wait, so they stay in order, and
an operator, which always waits for a while, is never put out before an operand that precedes it.
-/
namespace Abacus

namespace Term

/-- Numbers, names and calls. -/
def isOperand : Term → Bool
  | number _ _ | name _ _ | call _ _ _ _ => true
  | operator _ _ | parenthesis _ _ => false

theorem isParenthesis_of_isOperand {t : Term} (h : t.isOperand = true) :
    t.isParenthesis = false := by
  cases t <;> simp_all [isOperand, isParenthesis]

end Term

namespace Postfix

open scoped List

/-! ### One term -/

theorem release_append (op : Operator) (stack : List Term) :
    (release op stack).1 ++ (release op stack).2 = stack := by
  have hsplit : stack.takeWhile (bindsTighter op) ++ stack.dropWhile (bindsTighter op) = stack :=
    List.takeWhile_append_dropWhile
  unfold release
  split
  · next top below hdrop =>
    rw [hdrop] at hsplit
    split
    · simpa using hsplit
    · exact hsplit
  · next hdrop =>
    rw [hdrop] at hsplit
    exact hsplit

theorem isParenthesis_of_released {op : Operator} {stack : List Term} {t : Term}
    (h : t ∈ (release op stack).1) : t.isParenthesis = false := by
  have htighter : ∀ u ∈ stack.takeWhile (bindsTighter op), u.isParenthesis = false := by
    intro u hu
    have hu := List.mem_takeWhile_imp hu
    cases u <;> simp_all [bindsTighter, Term.operator?, Term.isParenthesis]
  unfold release at h
  split at h
  · next top below hdrop =>
    split at h
    · next hequal =>
      rcases List.mem_append.mp h with h | h
      · exact htighter t h
      · obtain rfl := List.mem_singleton.mp h
        cases t <;> simp_all [bindsEqually, Term.operator?, Term.isParenthesis]
    · exact htighter t h
  · exact htighter t h

/-- Numbered terms that stay in order as far as operands are concerned: none of them comes before a
term with a smaller number. -/
def Ordered (xs : List (Term × Nat)) : Prop :=
  xs.Pairwise fun x y => y.1.isOperand = true → x.2 < y.2

theorem ordered_of_no_operand {xs : List (Term × Nat)} (h : ∀ x ∈ xs, x.1.isOperand = false) :
    Ordered xs :=
  List.pairwise_of_forall_mem_list fun _ _ y hy hoperand => by simp [h y hy] at hoperand

/-- Where the numbered terms of the stack and the one that is read go: some are put out, some wait
and some are parentheses that are gone. -/
structure Moves (stack : List (Term × Nat)) (t : Term × Nat)
    (out waiting gone : List (Term × Nat)) : Prop where
  putOut : putOut (stack.map Prod.fst) t.1 = out.map Prod.fst
  stackAfter : stackAfter (stack.map Prod.fst) t.1 = waiting.map Prod.fst
  all : t :: stack ~ out ++ waiting ++ gone
  ordered : Ordered out
  plain : ∀ x ∈ out, x.1.isParenthesis = false
  patient : ∀ x ∈ waiting, x.1.isOperand = false
  dropped : ∀ x ∈ gone, x.1.isParenthesis = true

/-- A term goes out at once if it is an operand, and waits if it is an operator. -/
theorem exists_moves {stack : List (Term × Nat)} (hstack : ∀ x ∈ stack, x.1.isOperand = false)
    (t : Term × Nat) : ∃ out waiting gone, Moves stack t out waiting gone := by
  have hoperand : t.1.isOperand = true → Postfix.putOut (stack.map Prod.fst) t.1 = [t.1] →
      Postfix.stackAfter (stack.map Prod.fst) t.1 = stack.map Prod.fst →
      ∃ out waiting gone, Moves stack t out waiting gone := by
    intro ht hout hstay
    refine ⟨[t], stack, [], hout, hstay, by simp, List.pairwise_singleton _ _, ?_, hstack, by simp⟩
    simpa using Term.isParenthesis_of_isOperand ht
  obtain ⟨t, k⟩ := t
  match t with
  | .number p x => exact hoperand rfl rfl rfl
  | .name p n => exact hoperand rfl rfl rfl
  | .call p n text arguments => exact hoperand rfl rfl rfl
  | .operator p op =>
    obtain ⟨out, waiting, rfl, hout, hwaiting⟩ :=
      List.map_eq_append_iff.mp (release_append op (stack.map Prod.fst)).symm
    refine ⟨out, (.operator p op, k) :: waiting, [], hout.symm, ?_, ?_, ?_, fun x hx => ?_, ?_,
      by simp⟩
    · rw [Postfix.stackAfter, List.map_cons, hwaiting]
    · simpa using List.perm_middle.symm
    · exact ordered_of_no_operand fun x hx => hstack x (by simp [hx])
    · exact isParenthesis_of_released (hout ▸ List.mem_map_of_mem hx)
    · exact List.forall_mem_cons.mpr ⟨rfl, fun x hx => hstack x (by simp [hx])⟩
  | .parenthesis p .left =>
    refine ⟨[], (.parenthesis p .left, k) :: stack, [], rfl, rfl, by simp, .nil, by simp, ?_,
      by simp⟩
    exact List.forall_mem_cons.mpr ⟨rfl, hstack⟩
  | .parenthesis p .right =>
    -- the opening parenthesis below what is put out is gone, if there is one
    let plain : Term × Nat → Bool := fun x => !x.1.isParenthesis
    have hsplit : stack.takeWhile plain ++ stack.dropWhile plain = stack :=
      List.takeWhile_append_dropWhile
    have hdropped : ∀ x ∈ (stack.dropWhile plain).take 1, x.1.isParenthesis = true := by
      intro x hx
      have hhead := List.head?_dropWhile_not plain stack
      cases hdrop : stack.dropWhile plain with
      | nil => simp [hdrop] at hx
      | cons y rest =>
        rw [hdrop] at hx hhead
        obtain rfl : x = y := by simpa using hx
        simpa [plain] using hhead
    refine ⟨stack.takeWhile plain, (stack.dropWhile plain).drop 1,
      (.parenthesis p .right, k) :: (stack.dropWhile plain).take 1, ?_, ?_, ?_, ?_, ?_, ?_, ?_⟩
    · rw [Postfix.putOut, List.takeWhile_map]
      rfl
    · rw [Postfix.stackAfter, List.dropWhile_map, List.map_drop]
      rfl
    · refine .trans ?_ List.perm_middle.symm
      refine .cons _ ?_
      rw [List.append_assoc]
      conv_lhs => rw [← hsplit, ← List.take_append_drop 1 (stack.dropWhile plain)]
      exact .append_left _ List.perm_append_comm
    · refine ordered_of_no_operand fun x hx => hstack x ?_
      exact hsplit ▸ List.mem_append_left _ hx
    · intro x hx
      simpa [plain] using List.mem_takeWhile_imp hx
    · intro x hx
      exact hstack x (hsplit ▸ List.mem_append_right _ (List.mem_of_mem_drop hx))
    · exact List.forall_mem_cons.mpr ⟨rfl, hdropped⟩

/-! ### All terms -/

/-- The terms `ts`, numbered from `k` on, are put out among those that wait, which have smaller
numbers. -/
theorem exists_order (ts : List Term) (k : Nat) (stack : List (Term × Nat))
    (hstack : ∀ x ∈ stack, x.1.isOperand = false) (hsmaller : ∀ x ∈ stack, x.2 < k) :
    ∃ order, reorder ts (stack.map Prod.fst) = order.map Prod.fst ∧
      order.Perm ((stack ++ ts.zipIdx k).filter (!·.1.isParenthesis)) ∧ Ordered order := by
  induction ts generalizing k stack with
  | nil =>
    refine ⟨stack.filter (!·.1.isParenthesis), ?_, by simp, ?_⟩
    · rw [reorder, List.filter_map]
      rfl
    · exact ordered_of_no_operand fun x hx => hstack x (List.mem_of_mem_filter hx)
  | cons t ts ih =>
    obtain ⟨out, waiting, gone, h⟩ := exists_moves hstack (t, k)
    have hnumber : ∀ x ∈ out ++ waiting ++ gone, x.2 < k + 1 := by
      intro x hx
      rcases List.mem_cons.mp (h.all.mem_iff.mpr hx) with rfl | hx
      · exact Nat.lt_succ_self k
      · exact Nat.lt_succ_of_lt (hsmaller x hx)
    obtain ⟨order, horder, hperm, hordered⟩ := ih _ _ h.patient fun x hx => hnumber x (by simp [hx])
    refine ⟨out ++ order, ?_, ?_, ?_⟩
    · rw [reorder_cons, h.putOut, h.stackAfter, horder, List.map_append]
    · have hout : out.filter (!·.1.isParenthesis) = out :=
        List.filter_eq_self.mpr fun x hx => by simp [h.plain x hx]
      have hgone : gone.filter (!·.1.isParenthesis) = [] :=
        List.filter_eq_nil_iff.mpr fun x hx => by simp [h.dropped x hx]
      have hall := (h.all.append_right (ts.zipIdx (k + 1))).filter (!·.1.isParenthesis)
      calc out ++ order
        _ ~ out ++ (waiting ++ ts.zipIdx (k + 1)).filter (!·.1.isParenthesis) :=
          hperm.append_left out
        _ = (out ++ waiting ++ gone ++ ts.zipIdx (k + 1)).filter (!·.1.isParenthesis) := by
          simp only [List.filter_append, hout, hgone, List.nil_append, List.append_assoc]
        _ ~ ((t, k) :: stack ++ ts.zipIdx (k + 1)).filter (!·.1.isParenthesis) := hall.symm
        _ ~ (stack ++ (t :: ts).zipIdx k).filter (!·.1.isParenthesis) := by
          rw [List.zipIdx_cons]
          exact List.perm_middle.symm.filter _
    · refine List.pairwise_append.mpr ⟨h.ordered, hordered, fun x hx y hy hoperand => ?_⟩
      have hy := List.mem_of_mem_filter (hperm.mem_iff.mp hy)
      rcases List.mem_append.mp hy with hy | hy
      · simp [h.patient y hy] at hoperand
      · exact Nat.lt_of_lt_of_le (hnumber x (by simp [hx])) (List.le_snd_of_mem_zipIdx hy)

theorem map_filter_zipIdx (p : Term → Bool) (ts : List Term) (k : Nat) :
    ((ts.zipIdx k).filter fun x => p x.1).map Prod.fst = ts.filter p := by
  conv_rhs => rw [← List.zipIdx_map_fst k ts, List.filter_map]
  rfl

/-- Numbers are told apart, so there is one way to bring operands into order. -/
theorem filter_operands {order : List (Term × Nat)} {ts : List Term}
    (hperm : order ~ ts.zipIdx.filter (!·.1.isParenthesis)) (hordered : Ordered order) :
    order.filter (·.1.isOperand) = ts.zipIdx.filter (·.1.isOperand) := by
  have hplain : (ts.zipIdx.filter (!·.1.isParenthesis)).filter (·.1.isOperand)
      = ts.zipIdx.filter (·.1.isOperand) := by
    rw [List.filter_filter]
    refine List.filter_congr fun x _ => ?_
    have := @Term.isParenthesis_of_isOperand x.1
    cases hx : x.1.isOperand <;> simp_all
  have hnumbers : (ts.zipIdx.map Prod.snd).Pairwise (· < ·) := by
    rw [List.zipIdx_map_snd]
    exact List.pairwise_lt_range'
  have hback : (ts.zipIdx.filter (·.1.isOperand)).Pairwise fun x y => x.2 < y.2 :=
    (List.pairwise_map.mp hnumbers).filter _
  have hfront : (order.filter (·.1.isOperand)).Pairwise fun x y => x.2 < y.2 :=
    List.pairwise_filter.mpr (hordered.imp fun h _ hy => h hy)
  refine List.Perm.eq_of_pairwise ?_ hfront hback (hplain ▸ hperm.filter _)
  intro x y _ _ hxy hyx
  exact absurd hxy (Nat.lt_asymm hyx)

/-- Putting terms into postfix order, whatever they are, leaves out the parentheses and rearranges
the other terms, each with its own position. Of two terms the one that comes out first comes first
in the source, too, if the other one is an operand: operands stay in order, and no operator
overtakes an operand. -/
theorem compile_rearranges (context : String) (ts : List Term) :
    let out := (compile context ts).terms
    (∃ order : List (Term × Nat), out = order.map Prod.fst ∧
      order ~ ts.zipIdx.filter (!·.1.isParenthesis) ∧
      order.Pairwise fun x y => y.1.isOperand = true → x.2 < y.2) ∧
    out ~ ts.filter (!·.isParenthesis) ∧ (∀ t ∈ out, t.isParenthesis = false) ∧
    out.filter Term.isOperand = ts.filter Term.isOperand := by
  intro out
  obtain ⟨order, horder, hperm, hordered⟩ := exists_order ts 0 [] (by simp) (by simp)
  have hout : out = order.map Prod.fst := horder
  rw [List.nil_append] at hperm
  have hplain : out ~ ts.filter (!·.isParenthesis) := by
    have hmap := hperm.map Prod.fst
    rwa [← hout, map_filter_zipIdx (!·.isParenthesis)] at hmap
  refine ⟨⟨order, hout, hperm, hordered⟩, hplain, fun t ht => ?_, ?_⟩
  · simpa using (List.mem_filter.mp (hplain.mem_iff.mp ht)).2
  · calc out.filter Term.isOperand
        = (order.filter (·.1.isOperand)).map Prod.fst := by rw [hout, List.filter_map]; rfl
      _ = ts.filter Term.isOperand := by
        rw [filter_operands hperm hordered, map_filter_zipIdx Term.isOperand]

end Postfix

end Abacus
