import Abacus.Proofs.Derivation.Expectation

/-!
Progress of the front end.

A call of the scanner takes at least one character, or it is at the end of the text and returns the
end of input. A parser fails, or it stops behind the place where it started; the end of input is
expected by none of the goals that a phrase begins with, so it is never taken. A branch that has
looked for an `else` behind some line breaks, and has found none, stops where its block has ended.
So the loops of the front end come to an end, and that over the items of a script does so at the end
of input only.
-/
namespace Abacus

namespace Scan

/-! ### Calls of the scanner -/

/-- The next token from a point on, and the point behind it. Behind the last token this is the end
of input. -/
def next (source : List Char) (p : Point) : Except Diagnostic (Token × Point) :=
  match skip p.depth false p.location p.rest with
  | (here, []) => .ok (ending here, ⟨p.depth, here, []⟩)
  | (here, c :: more) =>
    match Reading.first c more with
    | .error kind => .error (faultAt source here kind)
    | .ok r =>
      let there := here.after r.taken
      .ok (⟨r.kind, lexemeOf r, here, there⟩, ⟨depthAfter p.depth r.kind, there, r.rest⟩)

section Next

variable {source : List Char} {p : Point} {here : Location}

theorem next_of_ended (h : skip p.depth false p.location p.rest = (here, [])) :
    next source p = .ok (ending here, ⟨p.depth, here, []⟩) := by
  simp only [next, h]

theorem next_of_fault {c : Char} {more : List Char} {kind : ErrorKind}
    (h : skip p.depth false p.location p.rest = (here, c :: more))
    (hfirst : Reading.first c more = .error kind) :
    next source p = .error (faultAt source here kind) := by
  simp only [next, h, hfirst]

theorem next_of_token {c : Char} {more : List Char} {r : Reading}
    (h : skip p.depth false p.location p.rest = (here, c :: more))
    (hfirst : Reading.first c more = .ok r) :
    next source p = .ok (⟨r.kind, lexemeOf r, here, here.after r.taken⟩,
      ⟨depthAfter p.depth r.kind, here.after r.taken, r.rest⟩) := by
  simp only [next, h, hfirst]

end Next

/-- The scan that a call begins: it ends with the end of input or a fault, and goes on behind any
other token. -/
def resume (source : List Char) (depth : Nat) : Except Diagnostic (Token × Point) → Scan
  | .error d => ⟨[], depth, some d⟩
  | .ok (t, q) =>
    if t.isEnd then ⟨[t], q.depth, none⟩
    else
      let tail := readFrom source q.depth q.location q.rest
      { tail with tokens := t :: tail.tokens }

theorem readFrom_eq_next (source : List Char) (p : Point) :
    readFrom source p.depth p.location p.rest = resume source p.depth (next source p) := by
  rw [readFrom]
  split
  · next hskip =>
    rw [next_of_ended hskip]
    rfl
  · next hskip =>
    split
    · next hfirst =>
      rw [next_of_fault hskip hfirst]
      rfl
    · next r hfirst =>
      have hend : r.kind ≠ .endOfInput := Reading.kind_ne_endOfInput hfirst
      rw [next_of_token hskip hfirst]
      simp [resume, Token.isEnd, hend]

/-- What a call of the scanner does with the text that is left: it takes some of it, or has reached
its end, or fails at one of its characters. -/
def Consumes (source : List Char) (p : Point) : Prop :=
  match next source p with
  | .ok (t, q) => ∃ taken, p.rest = taken ++ q.rest ∧ q.location = p.location.after taken ∧
      (t.isEnd = false ∧ taken ≠ [] ∨ t.isEnd = true ∧ q.rest = [])
  | .error d => ∃ blanks c more kind, p.rest = blanks ++ c :: more ∧
      d = faultAt source (p.location.after blanks) kind

theorem consumes (source : List Char) (p : Point) : Consumes source p := by
  obtain ⟨blanks, inComment, rest, hsplit, hblanks, hrest⟩ := exists_blanks p.depth false p.rest
  have hskip := hblanks.skip rest hrest p.location
  rw [← hsplit] at hskip
  rw [Consumes]
  cases rest with
  | nil =>
    rw [next_of_ended hskip]
    exact ⟨blanks, hsplit, rfl, .inr ⟨rfl, rfl⟩⟩
  | cons c more =>
    cases hfirst : Reading.first c more with
    | error kind =>
      rw [next_of_fault hskip hfirst]
      exact ⟨blanks, c, more, kind, hsplit, rfl⟩
    | ok r =>
      obtain ⟨front, htaken, rfl, -⟩ := Reading.first_spec hfirst
      rw [next_of_token hskip hfirst]
      refine ⟨blanks ++ r.taken, by simp [hsplit, htaken], ?_, .inl ⟨?_, by simp [htaken]⟩⟩
      · rw [Location.after_append]
      · simpa [Token.isEnd] using Reading.kind_ne_endOfInput hfirst

/-- At most one call for each character, and one for the end. -/
theorem length_tokens_le (source : List Char) (p : Point) :
    (readFrom source p.depth p.location p.rest).tokens.length ≤ p.rest.length + 1 := by
  have hcall := consumes source p
  rw [Consumes] at hcall
  rw [readFrom_eq_next]
  cases hnext : next source p with
  | error d => exact Nat.zero_le _
  | ok r =>
    obtain ⟨t, q⟩ := r
    rw [hnext] at hcall
    rw [resume]
    obtain ⟨taken, hrest, -, hcase⟩ := hcall
    split
    · simp
    next hend =>
      have hlength : q.rest.length < p.rest.length := by
        have hpos : 0 < taken.length := by
          rcases hcase with ⟨-, htaken⟩ | ⟨hend', -⟩
          · exact List.length_pos_iff.mpr htaken
          · exact absurd hend' hend
        rw [hrest, List.length_append]
        omega
      have htail := length_tokens_le source q
      rw [List.length_cons]
      omega
termination_by p.rest.length

/-- A scan from a point on, call by call. -/
structure Proceeds (source : List Char) (p : Point) : Prop where
  loop : readFrom source p.depth p.location p.rest = resume source p.depth (next source p)
  consumes : Consumes source p
  calls : (readFrom source p.depth p.location p.rest).tokens.length ≤ p.rest.length + 1

theorem proceeds (source : List Char) (p : Point) : Proceeds source p :=
  ⟨readFrom_eq_next source p, consumes source p, length_tokens_le source p⟩

end Scan

namespace Parse

/-! ### The loop over the items of a script -/

/-- Reads a script like `program`, and returns what it stops at as well. -/
def programUpTo (source : List Char) (ts : List Token) : Outcome (Program × List Token) := do
  match hd : ts.dropWhile Token.isSeparator with
  | [] => .ok (⟨[], []⟩, [])
  | t :: rest =>
    if t.isEnd then .ok (⟨[], []⟩, t :: rest)
    else if t.isKeyword .fnWord then do
      let p ← function source (t :: rest)
      have : p.rest.length < ts.length := Nat.lt_of_lt_of_le p.shorter (dropWhile_eq_cons hd).2
      let (tail, stop) ← programUpTo source p.rest
      .ok ({ tail with functions := p.value :: tail.functions }, stop)
    else do
      let p ← statement source false (t :: rest)
      have : p.rest.length < ts.length := Nat.lt_of_lt_of_le p.shorter (dropWhile_eq_cons hd).2
      let (tail, stop) ← programUpTo source p.rest
      .ok ({ tail with statements := p.value :: tail.statements }, stop)
termination_by ts.length

/-- One round of the loop. -/
theorem program_of_dropWhile (source : List Char) {ts rest : List Token} {t : Token}
    (hd : ts.dropWhile Token.isSeparator = t :: rest) :
    program source ts =
      if t.isEnd then .ok ⟨[], []⟩
      else if t.isKeyword .fnWord then
        function source (t :: rest) >>= fun p => program source p.rest >>= fun tail =>
          .ok { tail with functions := p.value :: tail.functions }
      else
        statement source false (t :: rest) >>= fun p => program source p.rest >>= fun tail =>
          .ok { tail with statements := p.value :: tail.statements } := by
  rw [program]
  split
  · next hd' =>
    rw [hd] at hd'
    cases hd'
  · next hd' =>
    rw [hd] at hd'
    cases hd'
    rfl

theorem program_eq (source : List Char) (ts : List Token) :
    program source ts = Prod.fst <$> programUpTo source ts := by
  fun_induction programUpTo source ts with
  | case1 ts hd =>
    rw [program]
    split
    · rfl
    · next hd' =>
      rw [hd] at hd'
      cases hd'
  | case2 ts t rest hd hend =>
    rw [program_of_dropWhile source hd, if_pos hend]
    rfl
  | case3 ts t rest hd hend hfn ih =>
    rw [program_of_dropWhile source hd, if_neg hend, if_pos hfn, map_bind]
    refine bind_congr fun p => ?_
    rw [ih p, map_bind, bind_map_left]
    rfl
  | case4 ts t rest hd hend hfn ih =>
    rw [program_of_dropWhile source hd, if_neg hend, if_neg hfn, map_bind]
    refine bind_congr fun p => ?_
    rw [ih p, map_bind, bind_map_left]
    rfl

end Parse

namespace Derivation

open Grammar (Gives)
open Parse (Outcome Parsed)

/-! ### Positions among the tokens -/

/-- The end of input stands behind all other tokens, and only there. -/
def EndsOnce (ts : List Token) : Prop :=
  ∃ body e, ts = body ++ [e] ∧ e.isEnd = true ∧ ∀ t ∈ body, t.isEnd = false

theorem endsOnce_of_tokenize {source : String} {ts : List Token} (h : tokenize source = .ok ts) :
    EndsOnce ts := by
  obtain ⟨us, s, here, hsteps, -, rfl⟩ := tokenize_eq_ok_iff.mp h
  exact ⟨us, Scan.ending here, rfl, rfl, hsteps.not_isEnd⟩

/-- From the position `pos` of the tokens a parser fails at a token that is not before it, or it
stops at a later one. -/
def Advances (ts : List Token) (pos : Nat) {us : List Token} {α : Type}
    (o : Outcome (Parsed us α)) : Prop :=
  match o with
  | .ok p => ∃ q, pos < q ∧ q < ts.length ∧ p.rest = ts.drop q
  | .error e => ∃ q, pos ≤ q ∧ q < ts.length ∧ e = ts.drop q

section Positions

variable {ts : List Token} {pos : Nat}

theorem EndsOnce.end_mem_drop (h : EndsOnce ts) (hpos : pos < ts.length) :
    ∃ t ∈ ts.drop pos, t.isEnd = true := by
  obtain ⟨body, e, rfl, he, -⟩ := h
  rw [List.length_append, List.length_singleton] at hpos
  refine ⟨e, ?_, he⟩
  rw [List.drop_append_of_le_length (by omega)]
  simp

/-- Only at the last position there is the end of input. -/
theorem EndsOnce.eq_last (h : EndsOnce ts) {t : Token} {rest : List Token}
    (hdrop : ts.drop pos = t :: rest) (ht : t.isEnd = true) : pos = ts.length - 1 := by
  obtain ⟨body, e, rfl, -, hbody⟩ := h
  have hlength := congrArg List.length hdrop
  simp only [List.length_drop, List.length_append, List.length_cons, List.length_nil] at hlength ⊢
  by_contra hpos
  have hmem : t ∈ body.drop pos := by
    rw [List.drop_append_of_le_length (by omega)] at hdrop
    cases hb : body.drop pos with
    | nil =>
      have := congrArg List.length hb
      simp only [List.length_drop, List.length_nil] at this
      omega
    | cons u us =>
      rw [hb] at hdrop
      cases hdrop
      simp
  simp [hbody t (List.mem_of_mem_drop hmem)] at ht

theorem drop_of_append {used rest : List Token} (h : ts.drop pos = used ++ rest)
    (hrest : rest ≠ []) : pos + used.length < ts.length ∧ rest = ts.drop (pos + used.length) := by
  have hlength := congrArg List.length h
  have hpositive := List.length_pos_iff.mpr hrest
  rw [List.length_drop, List.length_append] at hlength
  refine ⟨by omega, ?_⟩
  rw [← List.drop_drop, h, List.drop_left]

/-- The tokens that are left when some have been passed over. -/
theorem exists_drop_of_dropWhile {skipped : Token → Bool} {us rest : List Token} {t : Token}
    (hus : ts.drop pos = us) (hd : us.dropWhile skipped = t :: rest) :
    ∃ q, pos ≤ q ∧ q < ts.length ∧ ts.drop q = t :: rest := by
  have hsplit := List.takeWhile_append_dropWhile (p := skipped) (l := us)
  rw [hd, ← hus] at hsplit
  obtain ⟨hlt, hdrop⟩ := drop_of_append hsplit.symm (by simp)
  exact ⟨_, Nat.le_add_right _ _, hlt, hdrop.symm⟩

/-- What fits goals for less than a whole script leaves the end of input. -/
theorem Reads.advances {a b : List Goal} {us vs : List Token} {α : Type}
    {o : Outcome (Parsed vs α)} (h : Reads a us o b) (ha : .top ∉ a) (front : List Token)
    (hvs : ts.drop pos = vs) (hsplit : vs = front ++ us) (hend : ∃ t ∈ us, t.isEnd = true) :
    Advances ts pos o := by
  have hleads : ∀ {rest : List Token} {c : List Goal}, Leads a us rest c →
      ∃ used, ts.drop pos = used ++ rest ∧ rest ≠ [] := by
    intro rest c h
    obtain ⟨t, ht, -⟩ := h.keeps_end ha hend
    obtain ⟨used, rfl, -⟩ := h
    exact ⟨front ++ used, by simp [hvs, hsplit], List.ne_nil_of_mem ht⟩
  cases o with
  | error e =>
    obtain ⟨used, hdrop, hne⟩ := hleads h
    obtain ⟨hlt, heq⟩ := drop_of_append hdrop hne
    exact ⟨pos + used.length, Nat.le_add_right _ _, hlt, heq⟩
  | ok p =>
    obtain ⟨used, hdrop, hne⟩ := hleads h
    obtain ⟨hlt, heq⟩ := drop_of_append hdrop hne
    have hshort := p.shorter
    have hlength := congrArg List.length (hvs.symm.trans hdrop)
    rw [List.length_append] at hlength
    exact ⟨pos + used.length, by omega, hlt, heq⟩

theorem advances_error {us : List Token} {α : Type} (hpos : pos < ts.length)
    (h : ts.drop pos = us) : Advances ts pos (.error us : Outcome (Parsed us α)) :=
  ⟨pos, Nat.le_refl pos, hpos, h.symm⟩

end Positions

/-! ### Parsers -/

theorem isEnd_of_isKeyword {k : Keyword} {t : Token} (h : t.isKeyword k = true) :
    t.isEnd = false := by
  simp_all [Token.isKeyword, Token.isEnd]

theorem primary_of_isPrefixOperator (source : List Char) (base : Nat) {t : Token}
    (ht : Parse.isPrefixOperator t = true) (us : List Token) :
    Parse.primary source base (t :: us) = .error (t :: us) := by
  rw [Parse.primary]
  unfold Parse.isPrefixOperator Token.prefixOperator? at ht
  split at ht
  · next hk => simp only [hk]
  · next hk => simp only [hk]
  · next hk => simp only [hk]
  · cases ht

section Parsers

variable (source : List Char) {ts : List Token} (hts : EndsOnce ts) {pos : Nat}
  (hpos : pos < ts.length)
include hts hpos

theorem primary_advances (base : Nat) :
    Advances ts pos (Parse.primary source base (ts.drop pos)) := by
  have hend := hts.end_mem_drop hpos
  cases hdrop : ts.drop pos with
  | nil => simp [hdrop] at hend
  | cons t us =>
    rw [hdrop] at hend
    cases hhead : Parse.isPrefixOperator t with
    | true =>
      rw [primary_of_isPrefixOperator source base hhead]
      exact advances_error hpos hdrop
    | false =>
      have hheads : ∀ u ∈ (t :: us).head?, Parse.isPrefixOperator u = false := by
        simpa using hhead
      exact (primary_reads source base hheads []).advances (by simp) [] hdrop rfl hend

theorem function_advances : Advances ts pos (Parse.function source (ts.drop pos)) := by
  have hend := hts.end_mem_drop hpos
  cases hdrop : ts.drop pos with
  | nil => simp [hdrop] at hend
  | cons t us =>
    rw [hdrop] at hend
    by_cases ht : t.isKeyword .fnWord = true
    · have hus : ∃ u ∈ us, u.isEnd = true := by simpa [isEnd_of_isKeyword ht] using hend
      exact (function_reads source ht us []).advances (by simp) [t] hdrop rfl hus
    · have hfails : Parse.function source (t :: us) = .error (t :: us) := by
        simp only [Parse.function, Parse.accept, if_neg ht]
        rfl
      rw [hfails]
      exact advances_error hpos hdrop

theorem statement_advances (allowBreak : Bool) :
    Advances ts pos (Parse.statement source allowBreak (ts.drop pos)) :=
  (statement_reads source allowBreak _ (absorbs_statements allowBreak [])).advances (by simp) []
    rfl rfl (hts.end_mem_drop hpos)

end Parsers

/-! ### Where a branch without an `else` ends -/

/-- The statements of a block are read up to a closing brace. -/
theorem statements_closed (source : List Char) (allowBreak : Bool) {us rest : List Token}
    {ss : List Statement} {stop : Nat}
    (h : Gives (Parse.statements source allowBreak us) ss stop rest) :
    ∃ front t, us = front ++ t :: rest ∧ t.isMark .rightBrace = true := by
  rw [Parse.statements] at h
  split at h
  · exact absurd h Grammar.not_gives_error
  next t more hd =>
    obtain ⟨separators, hsplit⟩ := exists_unattach hd
    split at h
    · next hclose =>
      obtain ⟨-, -, rfl⟩ := Grammar.gives_ok_iff.mp h
      exact ⟨_, t, hsplit, hclose⟩
    split at h
    · exact absurd h Grammar.not_gives_error
    · obtain ⟨p, hp, h⟩ := Grammar.gives_bind_iff.mp h
      obtain ⟨q, hq, h⟩ := Grammar.gives_bind_iff.mp h
      obtain ⟨-, -, hstop⟩ := Grammar.gives_ok_iff.mp h
      have hread := statement_reads source allowBreak (t :: more)
        (absorbs_statements allowBreak [])
      rw [hp] at hread
      obtain ⟨used, hused, -⟩ := hread
      have hshort : p.rest.length < us.length := by
        have := p.shorter
        rw [hsplit, List.length_append]
        omega
      obtain ⟨front, u, hrest, hclose⟩ := statements_closed source allowBreak (.of_eq hq)
      refine ⟨separators.unattach ++ used ++ front, u, ?_, hclose⟩
      rw [show q.rest = rest from hstop.symm] at hrest
      rw [hsplit, hused, hrest, List.append_assoc, List.append_assoc]
termination_by us.length

theorem block_closed {source : List Char} {allowBreak : Bool} {us rest : List Token}
    {ss : List Statement} {stop : Nat}
    (h : Gives (Parse.block source allowBreak us) ss stop rest) :
    ∃ front t, us = front ++ t :: rest ∧ t.isMark .rightBrace = true := by
  rw [Parse.block] at h
  obtain ⟨p, hp, h⟩ := Grammar.gives_bind_iff.mp h
  obtain ⟨q, hq, h⟩ := Grammar.gives_bind_iff.mp h
  obtain ⟨-, -, rfl⟩ := Grammar.gives_ok_iff.mp h
  obtain ⟨hsplit, -, -⟩ := Grammar.accept_takes hp
  obtain ⟨front, t, hrest, hclose⟩ := statements_closed source allowBreak (.of_eq hq)
  exact ⟨p.value :: front, t, hsplit.trans (congrArg (p.value :: ·) hrest), hclose⟩

/-- Line breaks that no `else` follows are left behind the block. -/
theorem branch_rewound {source : List Char} {ts : List Token} {pos : Nat}
    {p : Parsed (ts.drop pos) Statement} {condition : Expression} {body : List Statement}
    (h : Parse.branch source (ts.drop pos) = .ok p)
    (hp : p.value = .branch condition body none) :
    ∃ q t, pos < q ∧ ts[q]? = some t ∧ t.isMark .rightBrace = true ∧
      p.rest = ts.drop (q + 1) := by
  obtain ⟨e, _, mid, ss, _, after, other, he, hss, htail, hvalue⟩ :=
    branch_cases (Grammar.Gives.of_eq h)
  rw [hp] at hvalue
  obtain rfl : other = none := by cases hvalue; rfl
  obtain rfl : p.rest = after := by cases htail; rfl
  obtain ⟨front, t, rfl, hclose⟩ := block_closed hss
  have hshort := Gives.shorter he
  obtain ⟨c, hc, -, -, hmid⟩ := he
  have hread := expression_reads source (ts.drop pos) []
  rw [hc] at hread
  obtain ⟨used, hused, -⟩ := hread
  rw [hmid] at hused
  have hpositive : 0 < used.length := by
    have hlength := congrArg List.length hused
    rw [List.length_append] at hlength
    omega
  rw [← List.append_assoc] at hused
  obtain ⟨-, hdrop⟩ := drop_of_append hused (by simp)
  refine ⟨pos + (used ++ front).length, t, ?_, ?_, hclose, ?_⟩
  · rw [List.length_append]
    omega
  · rw [← List.head?_drop, ← hdrop, List.head?_cons]
  · rw [← List.tail_drop, ← hdrop, List.tail_cons]

/-! ### Scripts -/

/-- The loop over the items of a script fails at a token that is not before the position `pos` it
starts at, or it comes to the end of input, and has used up a token for each item. -/
def Finishes (ts : List Token) (pos : Nat) (o : Outcome (Program × List Token)) : Prop :=
  match o with
  | .ok (script, stop) => stop = ts.drop (ts.length - 1) ∧
      script.statements.length + script.functions.length + pos < ts.length
  | .error e => ∃ q, pos ≤ q ∧ q < ts.length ∧ e = ts.drop q

section Scripts

variable (source : List Char) {ts : List Token}

/-- One round of the loop: an item, and the items behind it. -/
theorem Advances.finishes {pos pos' : Nat} (hle : pos ≤ pos') {us : List Token} {α : Type}
    {o : Outcome (Parsed us α)} (ho : Advances ts pos' o) (add : α → Program → Program)
    (hadd : ∀ a script, (add a script).statements.length + (add a script).functions.length =
      script.statements.length + script.functions.length + 1)
    (hnext : ∀ (p : Parsed us α) (q : Nat), q < ts.length → ts.drop q = p.rest →
      Finishes ts q (Parse.programUpTo source p.rest)) :
    Finishes ts pos (o >>= fun p => Parse.programUpTo source p.rest >>= fun r =>
      .ok (add p.value r.1, r.2)) := by
  cases o with
  | error e =>
    obtain ⟨q, hq, hlt, heq⟩ := ho
    exact ⟨q, hle.trans hq, hlt, heq⟩
  | ok p =>
    obtain ⟨q, hq, hlt, hrest⟩ := ho
    have hmore := hnext p q hlt hrest.symm
    show Finishes ts pos (Parse.programUpTo source p.rest >>= _)
    cases hr : Parse.programUpTo source p.rest with
    | error e =>
      rw [hr] at hmore
      obtain ⟨q', hq', hlt', heq⟩ := hmore
      exact ⟨q', by omega, hlt', heq⟩
    | ok r =>
      rw [hr] at hmore
      obtain ⟨hstop, hcount⟩ := hmore
      refine ⟨hstop, ?_⟩
      rw [hadd]
      omega

theorem programUpTo_finishes (hts : EndsOnce ts) {pos : Nat} (hpos : pos < ts.length)
    {us : List Token} (hus : ts.drop pos = us) :
    Finishes ts pos (Parse.programUpTo source us) := by
  fun_induction Parse.programUpTo source us generalizing pos with
  | case1 us hd =>
    obtain ⟨t, ht, hend⟩ := hts.end_mem_drop hpos
    rw [hus] at ht
    have hseparator := List.dropWhile_eq_nil_iff.mp hd t ht
    rw [Closes.not_isSeparator (.inr hend)] at hseparator
    cases hseparator
  | case2 us t rest hd hend =>
    obtain ⟨q, hle, hlt, hdrop⟩ := exists_drop_of_dropWhile hus hd
    have hlast := hts.eq_last hdrop hend
    refine ⟨by rw [← hlast, hdrop], ?_⟩
    simp only [List.length_nil]
    omega
  | case3 us t rest hd hend hfn ih =>
    obtain ⟨q, hle, hlt, hdrop⟩ := exists_drop_of_dropWhile hus hd
    have hitem := function_advances source hts hlt
    rw [hdrop] at hitem
    exact hitem.finishes source hle
      (fun f script => { script with functions := f :: script.functions })
      (fun _ _ => by simp; omega) fun p _ hlt' hrest => ih p hlt' hrest
  | case4 us t rest hd hend hfn ih =>
    obtain ⟨q, hle, hlt, hdrop⟩ := exists_drop_of_dropWhile hus hd
    have hitem := statement_advances source hts hlt false
    rw [hdrop] at hitem
    exact hitem.finishes source hle
      (fun s script => { script with statements := s :: script.statements })
      (fun _ _ => by simp; omega) fun p _ hlt' hrest => ih p hlt' hrest

end Scripts

/-! ### The front end -/

/-- Every parser moves on from the position `pos`. A branch is read from its condition on and the
arguments of a call from behind their parenthesis; a branch with its `if` and a loop with its
`while` are statements, and a call with its name is a primary. -/
structure ParsersAdvance (source : List Char) (ts : List Token) (pos : Nat) : Prop where
  statement : ∀ allowBreak, Advances ts pos (Parse.statement source allowBreak (ts.drop pos))
  function : Advances ts pos (Parse.function source (ts.drop pos))
  branch : Advances ts pos (Parse.branch source (ts.drop pos))
  rewound : ∀ p condition body, Parse.branch source (ts.drop pos) = .ok p →
    p.value = .branch condition body none →
    ∃ q t, pos < q ∧ ts[q]? = some t ∧ t.isMark .rightBrace = true ∧ p.rest = ts.drop (q + 1)
  block : ∀ allowBreak, Advances ts pos (Parse.block source allowBreak (ts.drop pos))
  expression : Advances ts pos (Parse.expression source (ts.drop pos))
  terms : ∀ base, Advances ts pos (Parse.terms source base (ts.drop pos))
  operand : ∀ base, Advances ts pos (Parse.operand source base (ts.drop pos))
  primary : ∀ base, Advances ts pos (Parse.primary source base (ts.drop pos))
  arguments : Advances ts pos (Parse.arguments source (ts.drop pos))
  script : Finishes ts pos (Parse.programUpTo source (ts.drop pos))

theorem parsersAdvance (source : List Char) {ts : List Token} (hts : EndsOnce ts) {pos : Nat}
    (hpos : pos < ts.length) : ParsersAdvance source ts pos := by
  have hend := hts.end_mem_drop hpos
  exact {
    statement := statement_advances source hts hpos
    function := function_advances source hts hpos
    branch :=
      (branch_reads source _ (absorbs_statements true [])).advances (by simp) [] rfl rfl hend
    rewound := fun p condition body => branch_rewound
    block := fun allowBreak =>
      (block_reads source allowBreak _ []).advances (by simp) [] rfl rfl hend
    expression := (expression_reads source _ []).advances (by simp) [] rfl rfl hend
    terms := fun base => (terms_reads source base _ []).advances (by simp) [] rfl rfl hend
    operand := fun base => (operand_reads source base _ []).advances (by simp) [] rfl rfl hend
    primary := primary_advances source hts hpos
    arguments := (arguments_reads source _ []).advances (by simp) [] rfl rfl hend
    script := programUpTo_finishes source hts hpos rfl }

/-- The scanner takes characters with every call up to the end of input, which it then returns, and
so it makes no more calls than there are characters, and one for the end. The tokens it makes have
the end of input once. On any tokens that have it once every parser moves on, up to that end at
most, and the loop over the items of a script comes to that end, unless it fails. -/
theorem front_end_makes_progress :
    (∀ source p, Scan.Proceeds source p) ∧
    (∀ source ts, tokenize source = .ok ts → EndsOnce ts) ∧
    (∀ source ts, EndsOnce ts →
      Parse.program source ts = Prod.fst <$> Parse.programUpTo source ts ∧
      ∀ pos < ts.length, ParsersAdvance source ts pos) :=
  ⟨Scan.proceeds, fun _ _ => endsOnce_of_tokenize, fun source ts hts =>
    ⟨Parse.program_eq source ts, fun _ hpos => parsersAdvance source hts hpos⟩⟩

theorem front_end_makes_progress_without_else :
    let source := "if x \x7b\x7d\n\n)"
    ∃ ts, tokenize source = .ok ts ∧ ∃ p : Parsed (ts.drop 1) Statement,
      Parse.branch source.toList (ts.drop 1) = .ok p ∧ p.rest = ts.drop 4 ∧
      (Parse.programUpTo source.toList ts).isOk = false ∧
      ParsersAdvance source.toList ts 4 := by
  intro source
  have hruns : (match tokenize source with
      | .ok ts => ts.length == 8 && !(Parse.programUpTo source.toList ts).isOk &&
        match Parse.branch source.toList (ts.drop 1) with
        | .ok p => p.rest == ts.drop 4
        | .error _ => false
      | .error _ => false) = true := by decide +kernel
  obtain ⟨-, hends, hparsers⟩ := front_end_makes_progress
  split at hruns
  · next ts hts =>
    simp only [Bool.and_eq_true] at hruns
    obtain ⟨⟨hlength, hprogram⟩, hbranch⟩ := hruns
    split at hbranch
    · next p hp =>
      have hadvance := (hparsers source.toList ts (hends source ts hts)).2 4
        (by simp at hlength; omega)
      exact ⟨ts, hts, p, hp, by simpa using hbranch, by simpa using hprogram, hadvance⟩
    · cases hbranch
  · cases hruns

end Derivation

end Abacus
