import Abacus.Proofs.Script.Soundness

/-!
What the parser promises about programs: every expression in a statement or in a function's body,
however deep, is the postorder of a tree whose numbers fit the calculator's format.
-/
namespace Abacus

inductive Statement.Sound : Statement → Prop
  | expression {e : Expression} (he : Expression.Sound e) : Sound (.expression e)
  | branch {condition : Expression} {body : List Statement} {otherwise : Option (List Statement)}
      (hcondition : Expression.Sound condition) (hbody : ∀ s ∈ body, Sound s)
      (hother : ∀ other ∈ otherwise, ∀ s ∈ other, Sound s) :
      Sound (.branch condition body otherwise)
  | loop (text : String) {condition : Expression} {body : List Statement}
      (hcondition : Expression.Sound condition) (hbody : ∀ s ∈ body, Sound s) :
      Sound (.loop text condition body)
  | returning {e : Expression} (he : Expression.Sound e) : Sound (.returning e)
  | printing {e : Expression} (he : Expression.Sound e) : Sound (.printing e)
  | breaking : Sound .breaking

def Function.Sound (f : Function) : Prop := ∀ s ∈ f.body, s.Sound

structure Program.Sound (p : Program) : Prop where
  statements : ∀ s ∈ p.statements, s.Sound
  functions : ∀ f ∈ p.functions, f.Sound

namespace Parse

open Grammar (SoundTokens)

/-- A reading, if there is one, has a value with the given property, and leaves sound tokens. -/
def Yields {us : List Token} {α : Type} (o : Outcome (Parsed us α)) (holds : α → Prop) : Prop :=
  ∀ p, o = .ok p → holds p.value ∧ SoundTokens p.rest

section Steps

variable {us vs : List Token} {α β : Type} {holds : α → Prop} {holds' : β → Prop}

theorem yields_ok {p : Parsed us α} (hvalue : holds p.value) (hrest : SoundTokens p.rest) :
    Yields (.ok p) holds := by
  rintro q ⟨⟩
  exact ⟨hvalue, hrest⟩

theorem yields_error (ts : List Token) : Yields (.error ts : Outcome (Parsed us α)) holds := by
  rintro q ⟨⟩

theorem Yields.bind {o : Outcome (Parsed us α)} (h : Yields o holds)
    {f : Parsed us α → Outcome (Parsed vs β)}
    (hf : ∀ p, holds p.value → SoundTokens p.rest → Yields (f p) holds') :
    Yields (o >>= f) holds' := by
  cases o with
  | error ts => exact yields_error ts
  | ok p =>
    obtain ⟨hvalue, hrest⟩ := h p rfl
    exact hf p hvalue hrest

end Steps

theorem accept_yields {q : Token → Bool} {us : List Token} (hus : SoundTokens us) :
    Yields (accept q us) fun _ => True := by
  intro p hp
  obtain ⟨hsplit, -, -⟩ := Grammar.accept_takes hp
  exact ⟨trivial, hus.suffix ⟨[p.value], by simp [← hsplit]⟩⟩

theorem expression_yields (source : List Char) {us : List Token} (hus : SoundTokens us) :
    Yields (expression source us) Expression.Sound := by
  intro p hp
  obtain ⟨used, terms, t, hused, hderived, hreads, hvalue, -⟩ :=
    Grammar.expression_derives (fun u hu => proper_of_sound (hus u hu)) (.of_eq hp)
  have hsound : SoundTokens used := fun u hu => hus u (by rw [hused]; simp [hu])
  refine ⟨⟨t, congrArg Phrase.terms hvalue, hreads.sound (hderived.sound hsound)⟩, ?_⟩
  exact hus.suffix ⟨used, hused.symm⟩

theorem finish_suffix {us : List Token} {rest : { rest : List Token // rest.length ≤ us.length }}
    (h : finish us = .ok rest) : rest.1 <:+ us := by
  unfold finish at h
  split at h
  · cases h
    exact List.suffix_refl _
  split at h
  · cases h
    exact List.suffix_cons _ _
  split at h
  · cases h
    exact List.suffix_refl _
  · cases h

/-- What ends a simple statement leaves sound tokens. -/
theorem Yields.finish {us vs : List Token} (hus : SoundTokens us) {α : Type} {holds : α → Prop}
    {f : { rest : List Token // rest.length ≤ us.length } → Outcome (Parsed vs α)}
    (hf : ∀ rest, SoundTokens rest.1 → Yields (f rest) holds) :
    Yields (Parse.finish us >>= f) holds := by
  cases h : Parse.finish us with
  | error ts => exact yields_error ts
  | ok rest => exact hf rest (hus.suffix (finish_suffix h))

theorem simple_yields (source : List Char) {make : Expression → Statement}
    (hmake : ∀ e, Expression.Sound e → (make e).Sound) {us : List Token} (hus : SoundTokens us) :
    Yields (simple source make us) Statement.Sound := by
  refine (expression_yields source hus).bind fun p hp hrest => ?_
  exact Yields.finish hrest fun rest hrest => yields_ok (hmake _ hp) hrest

theorem breakStatement_yields (allowBreak : Bool) {us : List Token} (hus : SoundTokens us) :
    Yields (breakStatement allowBreak us) Statement.Sound := by
  unfold breakStatement
  split
  · exact yields_error us
  · refine (accept_yields hus).bind fun p _ hrest => ?_
    exact Yields.finish hrest fun rest hrest => yields_ok .breaking hrest

theorem suffix_dropWhile {us : List Token} (hus : SoundTokens us) (q : Token → Bool) :
    SoundTokens (us.dropWhile q) := hus.suffix (List.dropWhile_suffix q)

theorem Yields.weaken {us vs : List Token} {α : Type} {holds : α → Prop}
    {o : Outcome (Parsed us α)} (h : Yields o holds) {le : us.length ≤ vs.length} :
    Yields (o >>= fun p => .ok (p.weaken le) : Outcome (Parsed vs α)) holds :=
  h.bind fun _ hp hrest => yields_ok hp hrest

mutual

theorem statement_yields (source : List Char) (allowBreak : Bool) {us : List Token}
    (hus : SoundTokens us) : Yields (statement source allowBreak us) Statement.Sound := by
  match us with
  | [] =>
    rw [statement]
    exact yields_error []
  | t :: rest =>
    have htail : SoundTokens rest := hus.suffix (List.suffix_cons t rest)
    rw [statement]
    split
    · exact (branch_yields source htail).weaken
    · refine (expression_yields source htail).bind fun condition hcondition hrest => ?_
      have hshort := condition.shorter
      refine (block_yields source true hrest).bind fun body hbody hrest => ?_
      exact yields_ok (.loop _ hcondition hbody) hrest
    · exact (simple_yields source (fun _ he => .returning he) htail).weaken
    · exact (simple_yields source (fun _ he => .printing he) htail).weaken
    · exact breakStatement_yields allowBreak hus
    · exact yields_error _
    · exact simple_yields source (fun _ he => .expression he) hus
termination_by 6 * us.length + 1

theorem branch_yields (source : List Char) {us : List Token} (hus : SoundTokens us) :
    Yields (branch source us) Statement.Sound := by
  rw [branch]
  refine (expression_yields source hus).bind fun condition hcondition hrest => ?_
  have hshort := condition.shorter
  refine (block_yields source true hrest).bind fun body hbody hrest => ?_
  have hshort' := body.shorter
  have hmore := suffix_dropWhile hrest Token.isNewline
  split
  · exact yields_ok (.branch hcondition hbody (by simp)) hrest
  next t more hr =>
    have hlength : more.length + 1 ≤ body.rest.length := by
      rw [← List.length_cons, ← hr]
      exact dropWhile_length_le Token.isNewline body.rest
    rw [hr] at hmore
    split
    · split
      · exact yields_error []
      next u inner =>
        have hinner : SoundTokens (u :: inner) := hmore.suffix (List.suffix_cons t _)
        have hinner' : inner.length + 1 < us.length := by
          rw [List.length_cons] at hlength
          omega
        split
        · refine (branch_yields source (hinner.suffix (List.suffix_cons u _))).bind
            fun other hother hrest => ?_
          exact yields_ok (.branch hcondition hbody (by simpa using hother)) hrest
        · refine (block_yields source true hinner).bind fun other hother hrest => ?_
          exact yields_ok (.branch hcondition hbody (by simpa using hother)) hrest
    · exact yields_ok (.branch hcondition hbody (by simp)) hrest
termination_by 6 * us.length + 0

theorem block_yields (source : List Char) (allowBreak : Bool) {us : List Token}
    (hus : SoundTokens us) : Yields (block source allowBreak us) fun ss => ∀ s ∈ ss, s.Sound := by
  rw [block]
  refine (accept_yields hus).bind fun p _ hrest => ?_
  have hshort := p.shorter
  exact (statements_yields source allowBreak hrest).weaken
termination_by 6 * us.length + 0

theorem statements_yields (source : List Char) (allowBreak : Bool) {us : List Token}
    (hus : SoundTokens us) :
    Yields (statements source allowBreak us) fun ss => ∀ s ∈ ss, s.Sound := by
  have hmore := suffix_dropWhile hus Token.isSeparator
  rw [statements]
  split
  · exact yields_error []
  next t rest hd =>
    have hlength : rest.length + 1 ≤ us.length := by
      rw [← List.length_cons, ← hd]
      exact dropWhile_length_le Token.isSeparator us
    rw [hd] at hmore
    split
    · exact yields_ok (by simp) (hmore.suffix (List.suffix_cons t _))
    split
    · exact yields_error _
    · refine (statement_yields source allowBreak hmore).bind fun p hp hrest => ?_
      have hshort : p.rest.length < us.length := Nat.lt_of_lt_of_le p.shorter hlength
      refine (statements_yields source allowBreak hrest).bind fun q hq hrest => ?_
      exact yields_ok (List.forall_mem_cons.mpr ⟨hp, hq⟩) hrest
termination_by 6 * us.length + 2

end

theorem identifier_yields {us : List Token} (hus : SoundTokens us) :
    Yields (identifier us) fun _ => True := by
  unfold identifier
  split
  · exact yields_error []
  next t rest =>
    split
    · exact yields_ok trivial (hus.suffix (List.suffix_cons t rest))
    · exact yields_error _

theorem someParameters_yields {us : List Token} (hus : SoundTokens us) :
    Yields (someParameters us) fun _ => True := by
  rw [someParameters]
  refine (identifier_yields hus).bind fun p _ hrest => ?_
  have hshort := p.shorter
  split
  · exact yields_error []
  next t more hr =>
    have hlength : more.length < us.length := by
      rw [hr, List.length_cons] at hshort
      omega
    rw [hr] at hrest
    have hmore : SoundTokens more := hrest.suffix (List.suffix_cons t more)
    split
    · exact yields_ok trivial hmore
    split
    · refine (someParameters_yields hmore).bind fun q _ hrest => ?_
      exact yields_ok trivial hrest
    · exact yields_error _
termination_by us.length

theorem parameters_yields {us : List Token} (hus : SoundTokens us) :
    Yields (parameters us) fun _ => True := by
  unfold parameters
  split
  · exact yields_error []
  next t rest =>
    split
    · exact yields_ok trivial (hus.suffix (List.suffix_cons t rest))
    · exact someParameters_yields hus

theorem function_yields (source : List Char) {us : List Token} (hus : SoundTokens us) :
    Yields (function source us) Function.Sound := by
  refine (accept_yields hus).bind fun start _ hrest => ?_
  refine (identifier_yields hrest).bind fun name _ hrest => ?_
  refine (accept_yields hrest).bind fun opening _ hrest => ?_
  refine (parameters_yields hrest).bind fun names _ hrest => ?_
  refine (block_yields source false hrest).bind fun body hbody hrest => ?_
  exact yields_ok hbody hrest

theorem exists_of_bind_eq_ok {α β : Type} {o : Outcome α} {f : α → Outcome β} {b : β}
    (h : (o >>= f) = .ok b) : ∃ a, o = .ok a ∧ f a = .ok b := by
  cases o with
  | error ts => cases h
  | ok a => exact ⟨a, rfl, h⟩

theorem program_sound (source : List Char) {us : List Token} (hus : SoundTokens us) {p : Program}
    (h : program source us = .ok p) : p.Sound := by
  have hmore := suffix_dropWhile hus Token.isSeparator
  rw [program] at h
  split at h
  · cases h
    exact ⟨by simp, by simp⟩
  next t rest hd =>
    have hlength : rest.length + 1 ≤ us.length := by
      rw [← List.length_cons, ← hd]
      exact dropWhile_length_le Token.isSeparator us
    rw [hd] at hmore
    split at h
    · cases h
      exact ⟨by simp, by simp⟩
    split at h
    · obtain ⟨f, hf, h⟩ := exists_of_bind_eq_ok h
      obtain ⟨tail, ht, h⟩ := exists_of_bind_eq_ok h
      obtain ⟨hfunction, hrest⟩ := function_yields source hmore f hf
      have hshort : f.rest.length < us.length := Nat.lt_of_lt_of_le f.shorter hlength
      have htail := program_sound source hrest ht
      cases h
      exact ⟨htail.statements, List.forall_mem_cons.mpr ⟨hfunction, htail.functions⟩⟩
    · obtain ⟨s, hs, h⟩ := exists_of_bind_eq_ok h
      obtain ⟨tail, ht, h⟩ := exists_of_bind_eq_ok h
      obtain ⟨hstatement, hrest⟩ := statement_yields source false hmore s hs
      have hshort : s.rest.length < us.length := Nat.lt_of_lt_of_le s.shorter hlength
      have htail := program_sound source hrest ht
      cases h
      exact ⟨List.forall_mem_cons.mpr ⟨hstatement, htail.statements⟩, htail.functions⟩
termination_by us.length

end Parse

theorem parseTokens_sound {source : String} {ts : List Token} (hts : ∀ t ∈ ts, t.kind.Sound)
    {p : Program} (h : parseTokens source ts = .ok p) : p.Sound := by
  unfold parseTokens at h
  simp only at h
  split at h
  · next q hq =>
    cases h
    exact Parse.program_sound _ hts hq
  · cases h

end Abacus
