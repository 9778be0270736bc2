import Abacus.Proofs.Numeric.Range
import Abacus.Proofs.Script.Derivation

/-!
What the scanner and the parser promise about their results.

The numbers of a script fit the calculator's format. Every expression in it, be it a condition, an
argument or part of a function's body, is the postorder of a tree.
-/
namespace Abacus

open Format (calculator)

/-! ### Tokens -/

namespace TokenKind

/-- Numbers fit the calculator's format and built-in functions have one operand. -/
def Sound : TokenKind → Prop
  | number x => calculator.Fits x
  | builtin op => op.isUnary = true
  | _ => True

end TokenKind

theorem isUnary_of_builtin? {name : String} {op : Operator} (h : Operator.builtin? name = some op) :
    op.isUnary = true := by
  have hbuiltins : ∀ op ∈ Operator.builtins, op.isUnary = true := by decide
  exact hbuiltins op (List.mem_of_find?_eq_some h)

namespace Reading

theorem number_sound {cs : List Char} {r : Reading} (h : number cs = .ok r) : r.kind.Sound := by
  unfold number at h
  simp only at h
  cases hv : Numeric.literal (numberParts cs).1 (numberParts cs).2.1 with
  | error kind => simp [hv, Except.map] at h
  | ok x =>
    simp only [hv, Except.map, Except.ok.injEq] at h
    subst h
    exact Numeric.literal_inRange _ _ x hv

theorem wordKind_sound (word : String) : (wordKind word).Sound := by
  unfold wordKind
  split
  · trivial
  split
  · next op hop => exact isUnary_of_builtin? hop
  · trivial

theorem word_sound (cs : List Char) : (word cs).kind.Sound := by
  unfold word
  simp only
  split
  · next op hop =>
    unfold gluedBuiltin? at hop
    simp only at hop
    split at hop
    · cases hop
    · exact isUnary_of_builtin? hop
  · exact wordKind_sound _

theorem mark_sound {c : Char} {cs : List Char} {r : Reading} (h : mark c cs = .ok r) :
    r.kind.Sound := by
  unfold mark at h
  split at h
  · cases h
    trivial
  · cases h
    trivial
  split at h
  · cases h
    trivial
  · cases h

theorem first_sound {c : Char} {cs : List Char} {r : Reading} (h : first c cs = .ok r) :
    r.kind.Sound := by
  unfold first at h
  split at h
  · cases h
    trivial
  split at h
  · exact number_sound h
  split at h
  · cases h
    exact word_sound _
  · exact mark_sound h

end Reading

theorem Scan.readFrom_sound (source : List Char) (depth : Nat) (l : Location) (cs : List Char) :
    ∀ t ∈ (Scan.readFrom source depth l cs).tokens, t.kind.Sound := by
  rw [Scan.readFrom]
  split
  · intro t ht
    obtain rfl := List.mem_singleton.mp ht
    trivial
  next here c more hs =>
    split
    · intro t ht
      cases ht
    next r hf =>
      have hlength : r.rest.length < cs.length := by
        have hskip := skip_length depth false l cs
        have hfirst := Reading.first_rest_length hf
        rw [hs, List.length_cons] at hskip
        omega
      intro t ht
      rcases List.mem_cons.mp ht with rfl | ht
      · exact Reading.first_sound hf
      · exact Scan.readFrom_sound source _ _ r.rest t ht
termination_by cs.length

theorem tokenize_sound {source : String} {ts : List Token} (h : tokenize source = .ok ts) :
    ∀ t ∈ ts, t.kind.Sound := by
  unfold tokenize at h
  simp only at h
  split at h
  · cases h
    exact Scan.readFrom_sound _ _ _ _
  · cases h

theorem proper_of_sound {t : Token} (h : t.kind.Sound) : Grammar.Proper t := by
  intro op hop
  unfold Token.prefixOperator? at hop
  split at hop
  · cases hop
    rfl
  · cases hop
    rfl
  · next k hk =>
    cases hop
    rw [hk] at h
    exact h
  · cases hop

/-! ### Expressions -/

namespace Tree

mutual

/-- Every number in the tree fits the calculator's format. -/
def Sound : Tree → Prop
  | number _ x => calculator.Fits x
  | name _ _ => True
  | call _ _ _ arguments => SoundArguments arguments
  | unary _ _ _ t => t.Sound
  | binary _ _ _ l r => l.Sound ∧ r.Sound
  | assignment _ l r => l.Sound ∧ r.Sound

def SoundArguments : List (String × Tree) → Prop
  | [] => True
  | (_, t) :: rest => t.Sound ∧ SoundArguments rest

end

end Tree

namespace Expression

/-- The postorder of a tree whose numbers fit the calculator's format. -/
def Sound (e : Expression) : Prop := ∃ t : Tree, e.terms = t.postorder ∧ t.Sound

end Expression

namespace Term

/-- Terms in source order whose numbers fit; the arguments of a call are trees already. -/
def Sound : Term → Prop
  | number _ x => calculator.Fits x
  | call _ _ _ es => ∃ arguments, es = Tree.expressions arguments ∧ Tree.SoundArguments arguments
  | _ => True

end Term

theorem Precedence.Reads.sound {level : Nat} {ts : List Term} {t : Tree}
    (h : Precedence.Reads level ts t) (hts : ∀ x ∈ ts, x.Sound) : t.Sound := by
  induction h with
  | number p x => exact hts _ (List.mem_singleton.mpr rfl)
  | name p n => trivial
  | call p n text arguments =>
    obtain ⟨arguments', harguments, hsound⟩ := hts _ (List.mem_singleton.mpr rfl)
    rwa [Tree.expressions_inj harguments]
  | parens p q _ ih => exact ih fun x hx => hts x (by simp [hx])
  | prefixed p hop _ ih => exact ih fun x hx => hts x (by simp [hx])
  | grouped p hop _ _ ihl ihr =>
    exact ⟨ihl fun x hx => hts x (by simp [hx]), ihr fun x hx => hts x (by simp [hx])⟩
  | assigned p _ _ ihl ihr =>
    exact ⟨ihl fun x hx => hts x (by simp [hx]), ihr fun x hx => hts x (by simp [hx])⟩
  | tighter _ ih => exact ih hts

namespace Grammar

/-- Tokens such as the scanner returns. -/
def SoundTokens (ts : List Token) : Prop := ∀ t ∈ ts, t.kind.Sound

theorem SoundTokens.suffix {ts us : List Token} (h : SoundTokens ts) (hs : us <:+ ts) :
    SoundTokens us := fun t ht => h t (hs.subset ht)

mutual

theorem Primary.sound {source : List Char} {base : Nat} {ts : List Token} {terms : List Term}
    (h : Primary source base ts terms) (hts : SoundTokens ts) : ∀ x ∈ terms, x.Sound := by
  match h with
  | @Primary.number _ _ t x ht =>
    intro y hy
    obtain rfl := List.mem_singleton.mp hy
    have hx := hts t (List.mem_singleton.mpr rfl)
    rwa [ht] at hx
  | .pi _ =>
    intro y hy
    obtain rfl := List.mem_singleton.mp hy
    exact Numeric.fits_pi
  | .name _ =>
    intro y hy
    obtain rfl := List.mem_singleton.mp hy
    trivial
  | .emptyCall _ _ _ =>
    intro y hy
    obtain rfl := List.mem_singleton.mp hy
    exact ⟨[], rfl, trivial⟩
  | .call _ _ h _ =>
    intro y hy
    obtain rfl := List.mem_singleton.mp hy
    exact ⟨_, rfl, h.sound fun t ht => hts t (by simp [ht])⟩
  | .parens _ h _ =>
    intro y hy
    simp only [List.cons_append, List.mem_cons, List.mem_append, List.not_mem_nil,
      or_false] at hy
    rcases hy with rfl | hy | rfl
    · trivial
    · exact h.sound (fun t ht => hts t (by simp [ht])) y hy
    · trivial

theorem Operand.sound {source : List Char} {base : Nat} {ts : List Token} {terms : List Term}
    (h : Operand source base ts terms) (hts : SoundTokens ts) : ∀ x ∈ terms, x.Sound := by
  match h with
  | .primary h => exact h.sound hts
  | .prefixed _ _ h =>
    intro y hy
    rcases List.mem_cons.mp hy with rfl | hy
    · trivial
    · exact h.sound (fun t ht => hts t (by simp [ht])) y hy

theorem Terms.sound {source : List Char} {base : Nat} {ts : List Token} {terms : List Term}
    (h : Terms source base ts terms) (hts : SoundTokens ts) : ∀ x ∈ terms, x.Sound := by
  match h with
  | .operand h => exact h.sound hts
  | .chain h _ hmore =>
    intro y hy
    simp only [List.mem_append, List.mem_cons] at hy
    rcases hy with hy | rfl | hy
    · exact h.sound (fun t ht => hts t (by simp [ht])) y hy
    · trivial
    · exact hmore.sound (fun t ht => hts t (by simp [ht])) y hy

theorem Arguments.sound {source : List Char} {ts : List Token} {arguments : List (String × Tree)}
    (h : Arguments source ts arguments) (hts : SoundTokens ts) :
    Tree.SoundArguments arguments := by
  match h with
  | .one h ht => exact ⟨ht.sound (h.sound hts), trivial⟩
  | .more h ht _ hmore =>
    have hfirst := h.sound fun t ht => hts t (by simp [ht])
    exact ⟨ht.sound hfirst, hmore.sound fun t ht => hts t (by simp [ht])⟩

end

end Grammar

end Abacus
