import Abacus.Proofs.Script.Bare
import Abacus.Script.Parse

/-!
What the parser makes of tokens depends on their kinds only.

Lexemes and places of tokens go into texts and positions, and no decision looks at them. So of
tokens of the same kinds the parser makes the same: it fails on both, or the two programs differ in
their texts and positions only.
-/
namespace Abacus.Parse

/-- Tokens that may differ in their lexemes and places. -/
abbrev SameKinds : List Token → List Token → Prop :=
  List.Forall₂ fun t t' => t.kind = t'.kind

theorem sameKinds_of_map_eq {us us' : List Token}
    (h : us.map Token.kind = us'.map Token.kind) : SameKinds us us' := by
  rw [← List.forall₂_eq_eq_eq, List.forall₂_map_left_iff, List.forall₂_map_right_iff] at h
  exact h

section Runs

variable {q : Token → Bool} (hq : ∀ t t' : Token, t.kind = t'.kind → q t = q t')
include hq

theorem SameKinds.dropWhile {us us' : List Token} (h : SameKinds us us') :
    SameKinds (us.dropWhile q) (us'.dropWhile q) := by
  induction h with
  | nil => exact .nil
  | @cons t t' us us' ht h ih =>
    rw [List.dropWhile_cons, List.dropWhile_cons, hq t t' ht]
    split
    · exact ih
    · exact .cons ht h

theorem SameKinds.takeWhile {us us' : List Token} (h : SameKinds us us') :
    SameKinds (us.takeWhile q) (us'.takeWhile q) := by
  induction h with
  | nil => exact .nil
  | @cons t t' us us' ht h ih =>
    rw [List.takeWhile_cons, List.takeWhile_cons, hq t t' ht]
    split
    · exact .cons ht ih
    · exact .nil

end Runs

/-- Both readings fail, or both leave tokens of the same kinds and have values that look the
same. -/
inductive Alike {us us' : List Token} {α β : Type} (view : α → β) :
    Outcome (Parsed us α) → Outcome (Parsed us' α) → Prop
  | ok {p : Parsed us α} {p' : Parsed us' α} (value : view p.value = view p'.value)
      (rest : SameKinds p.rest p'.rest) : Alike view (.ok p) (.ok p')
  | error (ts ts' : List Token) : Alike view (.error ts) (.error ts')

section Steps

variable {us us' vs vs' : List Token} {α β γ δ : Type} {view : α → β} {view' : γ → δ}

theorem Alike.bind {o : Outcome (Parsed us α)} {o' : Outcome (Parsed us' α)}
    (h : Alike view o o') {f : Parsed us α → Outcome (Parsed vs γ)}
    {f' : Parsed us' α → Outcome (Parsed vs' γ)}
    (hf : ∀ p p', view p.value = view p'.value → SameKinds p.rest p'.rest →
      Alike view' (f p) (f' p')) : Alike view' (o >>= f) (o' >>= f') := by
  cases h with
  | ok value rest => exact hf _ _ value rest
  | error ts ts' => exact .error ts ts'

theorem Alike.symm {o : Outcome (Parsed us α)} {o' : Outcome (Parsed us' α)}
    (h : Alike view o o') : Alike view o' o := by
  cases h with
  | ok value rest => exact .ok value.symm (rest.flip.imp fun _ _ ht => ht.symm)
  | error ts ts' => exact .error ts' ts

theorem Alike.weaken {o : Outcome (Parsed us α)} {o' : Outcome (Parsed us' α)}
    (h : Alike view o o') {le : us.length ≤ vs.length} {le' : us'.length ≤ vs'.length} :
    Alike view (o >>= fun p => .ok (p.weaken le) : Outcome (Parsed vs α))
      (o' >>= fun p => .ok (p.weaken le') : Outcome (Parsed vs' α)) :=
  h.bind fun _ _ value rest => .ok value rest

/-- One token decides, and the rest is read alike. -/
theorem accept_alike {q : Token → Bool} (hq : ∀ t t' : Token, t.kind = t'.kind → q t = q t')
    (h : SameKinds us us') : Alike Token.kind (accept q us) (accept q us') := by
  cases h with
  | nil => exact .error _ _
  | @cons t t' us us' ht h =>
    rw [accept, accept, hq t t' ht]
    split
    · exact .ok ht h
    · exact .error _ _

theorem isMark_congr (m : Mark) (t t' : Token) (h : t.kind = t'.kind) :
    t.isMark m = t'.isMark m := by
  rw [Token.isMark, Token.isMark, h]

theorem isKeyword_congr (k : Keyword) (t t' : Token) (h : t.kind = t'.kind) :
    t.isKeyword k = t'.isKeyword k := by
  rw [Token.isKeyword, Token.isKeyword, h]

theorem isNewline_congr (t t' : Token) (h : t.kind = t'.kind) : t.isNewline = t'.isNewline := by
  rw [Token.isNewline, Token.isNewline, h]

theorem isSeparator_congr (t t' : Token) (h : t.kind = t'.kind) :
    t.isSeparator = t'.isSeparator := by
  rw [Token.isSeparator, Token.isSeparator, isNewline_congr t t' h, isMark_congr _ t t' h]

theorem isEnd_congr (t t' : Token) (h : t.kind = t'.kind) : t.isEnd = t'.isEnd := by
  rw [Token.isEnd, Token.isEnd, h]

theorem isPrefixOperator_congr (t t' : Token) (h : t.kind = t'.kind) :
    isPrefixOperator t = isPrefixOperator t' := by
  rw [isPrefixOperator, isPrefixOperator, Token.prefixOperator?, Token.prefixOperator?, h]

theorem identifier_alike (h : SameKinds us us') : Alike id (identifier us) (identifier us') := by
  cases h with
  | nil => exact .error _ _
  | @cons t t' us us' ht h =>
    simp only [identifier, ht]
    cases t'.kind with
    | identifier n => exact .ok rfl h
    | _ => exact .error _ _

theorem prefixTerms_bare (base base' : Nat) (h : SameKinds us us') :
    (prefixTerms base us).map Term.bare = (prefixTerms base' us').map Term.bare := by
  induction h with
  | nil => rfl
  | @cons t t' us us' ht h ih =>
    have hop : t.prefixOperator? = t'.prefixOperator? := by
      rw [Token.prefixOperator?, Token.prefixOperator?, ht]
    unfold prefixTerms at ih ⊢
    rw [List.filterMap_cons, List.filterMap_cons, hop]
    cases t'.prefixOperator? with
    | none => exact ih
    | some op => exact congrArg (Term.operator 0 op :: ·) ih

end Steps

/-! ### Expressions -/

section Expressions

variable (source source' : List Char)

mutual

theorem primary_alike (base base' : Nat) {us us' : List Token} (h : SameKinds us us') :
    Alike (List.map Term.bare) (primary source base us) (primary source' base' us') := by
  cases h with
  | nil =>
    rw [primary, primary]
    exact .error _ _
  | @cons t t' us us' ht h =>
    rw [primary, primary, ht]
    cases t'.kind with
    | number x => exact .ok rfl h
    | identifier n =>
      cases h with
      | nil => exact .ok rfl .nil
      | @cons u u' more more' hu h =>
        simp only [isMark_congr .leftParen u u' hu]
        split
        · refine (arguments_alike h).bind fun p p' value rest => ?_
          refine .ok ?_ rest
          simpa [Term.bare, Term.bareArguments_eq] using value
        · exact .ok rfl (.cons hu h)
    | builtin op => exact .error _ _
    | keyword k =>
      cases k with
      | piWord => exact .ok rfl h
      | _ => exact .error _ _
    | mark m =>
      cases m with
      | leftParen =>
        refine (terms_alike base base' h).bind fun p p' value rest => ?_
        refine (accept_alike (isMark_congr .rightParen) rest).bind fun r r' _ rest => ?_
        refine .ok ?_ rest
        simp only [List.map_cons, List.map_append, value, List.cons_append]
        rfl
      | _ => exact .error _ _
    | newline => exact .error _ _
    | endOfInput => exact .error _ _
termination_by 6 * us.length + 0

theorem operand_alike (base base' : Nat) {us us' : List Token} (h : SameKinds us us') :
    Alike (List.map Term.bare) (operand source base us) (operand source' base' us') := by
  have hlength := dropWhile_length_le isPrefixOperator us
  rw [operand, operand]
  refine (primary_alike base base' (h.dropWhile isPrefixOperator_congr)).bind
    fun p p' value rest => ?_
  refine .ok ?_ rest
  have hoperators := prefixTerms_bare base base' (h.takeWhile isPrefixOperator_congr)
  simp only [Parsed.map, Parsed.weaken, List.map_append, hoperators, value]
termination_by 6 * us.length + 1

theorem terms_alike (base base' : Nat) {us us' : List Token} (h : SameKinds us us') :
    Alike (List.map Term.bare) (terms source base us) (terms source' base' us') := by
  rw [terms, terms]
  refine (operand_alike base base' h).bind ?_
  rintro ⟨front, stop, rest, hshort⟩ ⟨front', stop', rest', hshort'⟩ hfront hrest
  cases hrest with
  | nil => exact .ok hfront .nil
  | @cons t t' more more' ht hmore =>
    have hop : t.binaryOperator? = t'.binaryOperator? := by
      rw [Token.binaryOperator?, Token.binaryOperator?, ht]
    have hlength : more.length < us.length := Nat.lt_of_succ_lt hshort
    simp only [hop]
    cases t'.binaryOperator? with
    | none => exact .ok hfront (.cons ht hmore)
    | some op =>
      refine (terms_alike base base' hmore).bind fun p p' value rest => .ok ?_ rest
      simp only [Parsed.map, Parsed.weaken, List.map_append, List.map_cons, value]
      exact congrArg (· ++ _) hfront
termination_by 6 * us.length + 2

theorem expression_alike {us us' : List Token} (h : SameKinds us us') :
    Alike Expression.bare (expression source us) (expression source' us') := by
  rw [expression, expression]
  refine (terms_alike (startOffset us) (startOffset us') h).bind fun p p' value rest => ?_
  refine .ok ?_ rest
  simp only [Parsed.map, Postfix.compile_bare, value]
termination_by 6 * us.length + 3

theorem arguments_alike {us us' : List Token} (h : SameKinds us us') :
    Alike (List.map Expression.bare) (arguments source us) (arguments source' us') := by
  cases h with
  | nil =>
    rw [arguments, arguments]
    exact .error _ _
  | @cons t t' us us' ht h =>
    rw [arguments, arguments, isMark_congr _ t t' ht]
    split
    · exact .ok rfl h
    · exact someArguments_alike (.cons ht h)
termination_by 6 * us.length + 5

theorem someArguments_alike {us us' : List Token} (h : SameKinds us us') :
    Alike (List.map Expression.bare) (someArguments source us) (someArguments source' us') := by
  rw [someArguments, someArguments]
  refine (expression_alike h).bind ?_
  rintro ⟨e, stop, rest, hshort⟩ ⟨e', stop', rest', hshort'⟩ he hrest
  cases hrest with
  | nil => exact .error _ _
  | @cons t t' more more' ht hmore =>
    have hlength : more.length < us.length := Nat.lt_of_succ_lt hshort
    simp only [isMark_congr _ t t' ht]
    split
    · exact .ok (congrArg (fun x => [x]) he) hmore
    split
    · refine (someArguments_alike hmore).bind fun p p' value rest => .ok ?_ rest
      simp only [Parsed.map, Parsed.weaken, List.map_cons, value]
      exact congrArg (· :: _) he
    · exact .error _ _
termination_by 6 * us.length + 4

end

end Expressions

/-! ### Statements -/

theorem finish_alike {us us' vs vs' : List Token} (h : SameKinds us us') {α β : Type}
    {view : α → β} {f : { rest : List Token // rest.length ≤ us.length } → Outcome (Parsed vs α)}
    {f' : { rest : List Token // rest.length ≤ us'.length } → Outcome (Parsed vs' α)}
    (hf : ∀ rest rest', SameKinds rest.1 rest'.1 → Alike view (f rest) (f' rest')) :
    Alike view (finish us >>= f) (finish us' >>= f') := by
  cases h with
  | nil => exact hf _ _ .nil
  | @cons t t' us us' ht h =>
    simp only [finish, isSeparator_congr t t' ht, isMark_congr _ t t' ht, isEnd_congr t t' ht]
    split
    · exact hf _ _ h
    split
    · exact hf _ _ (.cons ht h)
    · exact .error _ _

section Statements

variable (source source' : List Char)

theorem simple_alike (make : Expression → Statement)
    (hmake : ∀ e e' : Expression, Expression.bare e = Expression.bare e' →
      (make e).bare = (make e').bare) {us us' : List Token} (h : SameKinds us us') :
    Alike Statement.bare (simple source make us) (simple source' make us') := by
  refine (expression_alike source source' h).bind fun p p' value rest => ?_
  exact finish_alike rest fun _ _ rest => .ok (hmake _ _ value) rest

theorem breakStatement_alike (allowBreak : Bool) {us us' : List Token} (h : SameKinds us us') :
    Alike Statement.bare (breakStatement allowBreak us) (breakStatement allowBreak us') := by
  unfold breakStatement
  split
  · exact .error _ _
  · refine (accept_alike (isKeyword_congr .breakWord) h).bind fun p p' _ rest => ?_
    exact finish_alike rest fun _ _ rest => .ok rfl rest

mutual

theorem statement_alike (allowBreak : Bool) {us us' : List Token} (h : SameKinds us us') :
    Alike Statement.bare (statement source allowBreak us) (statement source' allowBreak us') := by
  cases h with
  | nil =>
    rw [statement, statement]
    exact .error _ _
  | @cons t t' us us' ht h =>
    have hexpression := simple_alike source source' .expression
      (fun e e' he => by rw [Statement.bare, Statement.bare, he]) (.cons ht h)
    rw [statement, statement, ht]
    cases t'.kind with
    | keyword k =>
      cases k with
      | ifWord => exact (branch_alike h).weaken
      | whileWord =>
        refine (expression_alike source source' h).bind fun p p' hcondition hrest => ?_
        have hshort := p.shorter
        refine (block_alike true hrest).bind fun r r' hbody rest => .ok ?_ rest
        rw [Statement.bare, Statement.bare, hcondition, hbody]
      | returnWord =>
        exact (simple_alike source source' .returning
          (fun e e' he => by rw [Statement.bare, Statement.bare, he]) h).weaken
      | printWord =>
        exact (simple_alike source source' .printing
          (fun e e' he => by rw [Statement.bare, Statement.bare, he]) h).weaken
      | breakWord => exact breakStatement_alike allowBreak (.cons ht h)
      | fnWord => exact .error _ _
      | _ => exact hexpression
    | _ => exact hexpression
termination_by 6 * us.length + 1

theorem branch_alike {us us' : List Token} (h : SameKinds us us') :
    Alike Statement.bare (branch source us) (branch source' us') := by
  rw [branch, branch]
  refine (expression_alike source source' h).bind fun p p' hcondition hrest => ?_
  have hshort := p.shorter
  refine (block_alike true hrest).bind fun r r' hbody hrest => ?_
  have hshort' := r.shorter
  have hnone : Statement.bare (.branch p.value r.value none)
      = Statement.bare (.branch p'.value r'.value none) := by
    rw [Statement.bare, Statement.bare, hcondition, hbody]
  have hsome : ∀ ss ss', Statement.bareStatements ss = Statement.bareStatements ss' →
      Statement.bare (.branch p.value r.value (some ss))
        = Statement.bare (.branch p'.value r'.value (some ss')) := by
    intro ss ss' hss
    rw [Statement.bare, Statement.bare, Statement.bareOtherwise, Statement.bareOtherwise,
      hcondition, hbody, hss]
  have hdrop := hrest.dropWhile isNewline_congr
  split
  · next hr =>
    rw [hr] at hdrop
    apply Alike.symm
    split
    · exact .ok hnone.symm (hrest.flip.imp fun _ _ ht => ht.symm)
    · next hr' =>
      rw [hr'] at hdrop
      cases hdrop
  next t more hr =>
    have hlength := (dropWhile_eq_cons hr).2
    rw [hr] at hdrop
    apply Alike.symm
    split
    · next hr' =>
      rw [hr'] at hdrop
      cases hdrop
    next t' more' hr' =>
      apply Alike.symm
      rw [hr'] at hdrop
      obtain ⟨ht, hmore⟩ := List.forall₂_cons.mp hdrop
      simp only [isKeyword_congr _ t t' ht]
      split
      · cases hmore with
        | nil => exact .error _ _
        | @cons u u' inner inner' hu hinner =>
          have hinner' : inner.length + 1 < us.length := by
            rw [List.length_cons] at hlength
            omega
          simp only [isKeyword_congr _ u u' hu]
          split
          · refine (branch_alike hinner).bind fun x x' hx rest => .ok (hsome _ _ ?_) rest
            rw [Statement.bareStatements, Statement.bareStatements, hx]
            rfl
          · exact (block_alike true (.cons hu hinner)).bind fun x x' hx rest =>
              .ok (hsome _ _ hx) rest
      · exact .ok hnone hrest
termination_by 6 * us.length + 0

theorem block_alike (allowBreak : Bool) {us us' : List Token} (h : SameKinds us us') :
    Alike Statement.bareStatements (block source allowBreak us) (block source' allowBreak us') := by
  rw [block, block]
  refine (accept_alike (isMark_congr .leftBrace) h).bind fun p p' _ rest => ?_
  have hshort := p.shorter
  exact (statements_alike allowBreak rest).weaken
termination_by 6 * us.length + 0

theorem statements_alike (allowBreak : Bool) {us us' : List Token} (h : SameKinds us us') :
    Alike Statement.bareStatements (statements source allowBreak us)
      (statements source' allowBreak us') := by
  have hdrop := h.dropWhile isSeparator_congr
  rw [statements, statements]
  split
  · next hr =>
    rw [hr] at hdrop
    apply Alike.symm
    split
    · exact .error _ _
    · next hr' =>
      rw [hr'] at hdrop
      cases hdrop
  next t more hr =>
    have hlength := (dropWhile_eq_cons hr).2
    rw [hr] at hdrop
    apply Alike.symm
    split
    · next hr' =>
      rw [hr'] at hdrop
      cases hdrop
    next t' more' hr' =>
      apply Alike.symm
      rw [hr'] at hdrop
      obtain ⟨ht, hmore⟩ := List.forall₂_cons.mp hdrop
      simp only [isMark_congr _ t t' ht, isEnd_congr t t' ht]
      split
      · exact .ok rfl hmore
      split
      · exact .error _ _
      · refine (statement_alike allowBreak hdrop).bind fun p p' hp rest => ?_
        have hshort : p.rest.length < us.length := Nat.lt_of_lt_of_le p.shorter hlength
        refine (statements_alike allowBreak rest).bind fun x x' hx rest => .ok ?_ rest
        simp only [Parsed.map, Parsed.weaken, Statement.bareStatements, hp, hx]
termination_by 6 * us.length + 2

end

end Statements

/-! ### Programs -/

theorem someParameters_alike {us us' : List Token} (h : SameKinds us us') :
    Alike id (someParameters us) (someParameters us') := by
  rw [someParameters, someParameters]
  refine (identifier_alike h).bind ?_
  rintro ⟨name, stop, rest, hshort⟩ ⟨name', stop', rest', hshort'⟩ rfl hrest
  cases hrest with
  | nil => exact .error _ _
  | @cons t t' more more' ht hmore =>
    have hlength : more.length < us.length := Nat.lt_of_succ_lt hshort
    simp only [isMark_congr _ t t' ht]
    split
    · exact .ok rfl hmore
    split
    · refine (someParameters_alike hmore).bind fun p p' value rest => .ok ?_ rest
      exact congrArg (name :: ·) value
    · exact .error _ _
termination_by us.length

theorem parameters_alike {us us' : List Token} (h : SameKinds us us') :
    Alike id (parameters us) (parameters us') := by
  cases h with
  | nil => exact .error _ _
  | @cons t t' us us' ht h =>
    rw [parameters, parameters, isMark_congr _ t t' ht]
    split
    · exact .ok rfl h
    · exact someParameters_alike (.cons ht h)

section Programs

variable (source source' : List Char)

theorem function_alike {us us' : List Token} (h : SameKinds us us') :
    Alike Function.bare (function source us) (function source' us') := by
  refine (accept_alike (isKeyword_congr .fnWord) h).bind fun _ _ _ rest => ?_
  refine (identifier_alike rest).bind fun name name' hname rest => ?_
  refine (accept_alike (isMark_congr .leftParen) rest).bind fun _ _ _ rest => ?_
  refine (parameters_alike rest).bind fun names names' hnames rest => ?_
  refine (block_alike source source' false rest).bind fun body body' hbody rest => .ok ?_ rest
  simp only [Function.bare, hbody]
  rw [show name.value = name'.value from hname, show names.value = names'.value from hnames]

theorem Alike.bind_bare {us us' : List Token} {α β : Type} {view : α → β}
    {o : Outcome (Parsed us α)} {o' : Outcome (Parsed us' α)} (h : Alike view o o')
    {f : Parsed us α → Outcome Program} {f' : Parsed us' α → Outcome Program}
    (hf : ∀ p p', view p.value = view p'.value → SameKinds p.rest p'.rest →
      (f p).toOption.map Program.bare = (f' p').toOption.map Program.bare) :
    (o >>= f).toOption.map Program.bare = (o' >>= f').toOption.map Program.bare := by
  cases h with
  | ok value rest => exact hf _ _ value rest
  | error ts ts' => rfl

theorem bare_of_tail {o o' : Outcome Program}
    (h : o.toOption.map Program.bare = o'.toOption.map Program.bare) {f f' : Program → Program}
    (hf : ∀ p p' : Program, p.bare = p'.bare → (f p).bare = (f' p').bare) :
    (o >>= fun p => .ok (f p) : Outcome Program).toOption.map Program.bare
      = (o' >>= fun p => .ok (f' p) : Outcome Program).toOption.map Program.bare := by
  cases o with
  | ok p =>
    cases o' with
    | ok p' => exact congrArg some (hf p p' (Option.some.inj h))
    | error ts => cases h
  | error ts =>
    cases o' with
    | ok p' => cases h
    | error ts' => rfl

/-- What the parser makes of tokens, up to texts and positions, depends on their kinds only. -/
theorem program_bare {us us' : List Token} (h : SameKinds us us') :
    (program source us).toOption.map Program.bare
      = (program source' us').toOption.map Program.bare := by
  have hdrop := h.dropWhile isSeparator_congr
  rw [program, program]
  split
  · next hr =>
    rw [hr] at hdrop
    apply Eq.symm
    split
    · rfl
    · next hr' =>
      rw [hr'] at hdrop
      cases hdrop
  next t more hr =>
    have hlength := (dropWhile_eq_cons hr).2
    rw [hr] at hdrop
    apply Eq.symm
    split
    · next hr' =>
      rw [hr'] at hdrop
      cases hdrop
    next t' more' hr' =>
      apply Eq.symm
      rw [hr'] at hdrop
      obtain ⟨ht, hmore⟩ := List.forall₂_cons.mp hdrop
      simp only [isEnd_congr t t' ht, isKeyword_congr _ t t' ht]
      split
      · rfl
      split
      · refine (function_alike source source' hdrop).bind_bare fun p p' value rest => ?_
        have hshort : p.rest.length < us.length := Nat.lt_of_lt_of_le p.shorter hlength
        refine bare_of_tail (program_bare rest) fun x x' hx => ?_
        obtain ⟨hstatements, hfunctions⟩ := Program.mk.inj hx
        simp only [Program.bare, List.map_cons, value, hstatements, hfunctions]
      · refine (statement_alike source source' false hdrop).bind_bare fun p p' value rest => ?_
        have hshort : p.rest.length < us.length := Nat.lt_of_lt_of_le p.shorter hlength
        refine bare_of_tail (program_bare rest) fun x x' hx => ?_
        obtain ⟨hstatements, hfunctions⟩ := Program.mk.inj hx
        simp only [Program.bare, Statement.bareStatements, value, hstatements, hfunctions]
termination_by us.length

end Programs

end Abacus.Parse
