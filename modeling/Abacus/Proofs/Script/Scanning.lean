import Abacus.Proofs.Script.Lexemes
import Mathlib.Data.List.Induction

/-!
Scanning step by step.

A step drops blanks and reads one token. What it does depends on the text behind the token only
through the question where the token ends, and not on the place where it starts; so the same tokens
are read again, at places moved along, when the text before them is left out, when the text behind
them is cut off, and when it goes on behind a line feed.
-/
namespace Abacus

/-! ### Places -/

namespace Location

@[simp] theorem after_nil (l : Location) : l.after [] = l := rfl

theorem after_cons (l : Location) (c : Char) (cs : List Char) :
    l.after (c :: cs) = (l.next c).after cs := rfl

theorem after_append (l : Location) (xs ys : List Char) :
    l.after (xs ++ ys) = (l.after xs).after ys := List.foldl_append

theorem after_concat (l : Location) (xs : List Char) (c : Char) :
    l.after (xs ++ [c]) = (l.after xs).next c := after_append l xs [c]

theorem offset_next (l : Location) (c : Char) : (l.next c).offset = l.offset + 1 := by
  unfold next
  split <;> rfl

theorem offset_after (l : Location) (cs : List Char) :
    (l.after cs).offset = l.offset + cs.length := by
  induction cs generalizing l with
  | nil => rfl
  | cons c cs ih =>
    rw [after_cons, ih, offset_next, List.length_cons]
    omega

theorem line_after (l : Location) (cs : List Char) : l.line ≤ (l.after cs).line := by
  induction cs using List.reverseRecOn with
  | nil => exact Nat.le_refl _
  | append_singleton cs c ih =>
    rw [after_concat, next]
    split
    · exact Nat.le_succ_of_le ih
    · exact ih

theorem column_after {l : Location} {cs : List Char} (h : (l.after cs).line = l.line) :
    l.column ≤ (l.after cs).column := by
  induction cs using List.reverseRecOn with
  | nil => exact Nat.le_refl _
  | append_singleton cs c ih =>
    have hline := line_after l cs
    rw [after_concat, next] at h ⊢
    split at h
    · simp only at h
      omega
    · next hc =>
      rw [if_neg hc]
      exact Nat.le_succ_of_le (ih h)

/-- The place that lies behind `b` as `l` lies behind `a`. -/
def moved (a b l : Location) : Location :=
  if l.line = a.line then
    ⟨b.line, b.column + (l.column - a.column), b.offset + (l.offset - a.offset)⟩
  else ⟨b.line + (l.line - a.line), l.column, b.offset + (l.offset - a.offset)⟩

theorem moved_after (a b : Location) (cs : List Char) : moved a b (a.after cs) = b.after cs := by
  -- from the end, because columns start again behind every line feed
  induction cs using List.reverseRecOn with
  | nil => simp [moved]
  | append_singleton cs c ih =>
    have hoffset := offset_after a cs
    have hline := line_after a cs
    rw [after_concat, after_concat, ← ih]
    by_cases hc : c = '\n'
    · simp only [next, hc, if_true, moved]
      split <;> split <;> simp only [Location.mk.injEq, true_and] <;> omega
    · by_cases hl : (a.after cs).line = a.line
      · have hcolumn := column_after hl
        simp only [next, hc, if_false, moved, hl, if_true, Location.mk.injEq, true_and]
        omega
      · simp only [next, hc, if_false, moved, hl, Location.mk.injEq, true_and]
        omega

/-- Moving along does not depend on where it is measured from. -/
theorem moved_after_after (a b : Location) (xs ys : List Char) :
    moved (a.after xs) (b.after xs) ((a.after xs).after ys)
      = moved a b ((a.after xs).after ys) := by
  rw [moved_after, ← after_append, ← after_append, moved_after]

end Location

/-- The same token in another place. -/
def Token.relocate (g : Location → Location) (t : Token) : Token :=
  { t with start := g t.start, stop := g t.stop }

namespace Scan

/-! ### Blanks -/

/-- Whether a character is dropped, and whether a comment goes on behind it. -/
def dropped (depth : Nat) (inComment : Bool) (c : Char) : Option Bool :=
  if c = '\n' then if depth = 0 then none else some false
  else if inComment then some true
  else if c = ' ' ∨ c = '\t' ∨ c = '\r' then some false
  else if c = '#' then some true
  else none

theorem skip_cons (depth : Nat) (inComment : Bool) (l : Location) (c : Char) (cs : List Char) :
    skip depth inComment l (c :: cs)
      = match dropped depth inComment c with
        | none => (l, c :: cs)
        | some inComment => skip depth inComment (l.next c) cs := by
  rw [skip, dropped]
  split
  · split <;> rfl
  split
  · rfl
  split
  · rfl
  split <;> rfl

/-- Text that is dropped as a whole, with the state of comments before and behind it. -/
inductive Blanks (depth : Nat) : Bool → List Char → Bool → Prop
  | nil (inComment : Bool) : Blanks depth inComment [] inComment
  | cons {inComment next stop : Bool} {c : Char} {cs : List Char}
      (hc : dropped depth inComment c = some next) (h : Blanks depth next cs stop) :
      Blanks depth inComment (c :: cs) stop

theorem Blanks.skip {depth : Nat} {inComment stop : Bool} {blanks : List Char}
    (h : Blanks depth inComment blanks stop) (rest : List Char)
    (hrest : ∀ c ∈ rest.head?, dropped depth stop c = none) (l : Location) :
    skip depth inComment l (blanks ++ rest) = (l.after blanks, rest) := by
  induction h generalizing l with
  | nil inComment =>
    cases rest with
    | nil => rfl
    | cons c rest => rw [List.nil_append, skip_cons, hrest c (by simp), Location.after_nil]
  | cons hc h ih =>
    rw [List.cons_append, skip_cons, hc]
    exact ih hrest _

theorem exists_blanks (depth : Nat) (inComment : Bool) (cs : List Char) :
    ∃ blanks stop rest, cs = blanks ++ rest ∧ Blanks depth inComment blanks stop ∧
      ∀ c ∈ rest.head?, dropped depth stop c = none := by
  induction cs generalizing inComment with
  | nil => exact ⟨[], inComment, [], rfl, .nil _, by simp⟩
  | cons c cs ih =>
    cases hc : dropped depth inComment c with
    | none => exact ⟨[], inComment, c :: cs, rfl, .nil _, by simpa using hc⟩
    | some next =>
      obtain ⟨blanks, stop, rest, rfl, hblanks, hrest⟩ := ih next
      exact ⟨c :: blanks, stop, rest, rfl, .cons hc hblanks, hrest⟩

/-! ### Steps -/

/-- Where a scan stands: the parentheses that are open, the place, and the text that is left. -/
structure Point where
  depth : Nat
  location : Location
  rest : List Char

/-- Blanks are dropped and one token is read. -/
inductive Step : Point → Token → Point → Prop
  | mk {depth : Nat} {blanks cs : List Char} {inComment : Bool} {c : Char} {r : Reading}
      (l : Location) (hblanks : Blanks depth false blanks inComment)
      (hstop : dropped depth inComment c = none) (hfirst : Reading.first c cs = .ok r) :
      Step ⟨depth, l, blanks ++ c :: cs⟩
        ⟨r.kind, lexemeOf r, l.after blanks, l.after (blanks ++ r.taken)⟩
        ⟨depthAfter depth r.kind, l.after (blanks ++ r.taken), r.rest⟩

inductive Steps : Point → List Token → Point → Prop
  | nil (p : Point) : Steps p [] p
  | cons {p q s : Point} {t : Token} {ts : List Token} (h : Step p t q) (hs : Steps q ts s) :
      Steps p (t :: ts) s

/-- Nothing but blanks is left, up to the given place. -/
inductive Ended : Point → Location → Prop
  | mk {depth : Nat} {blanks : List Char} {inComment : Bool} (l : Location)
      (hblanks : Blanks depth false blanks inComment) : Ended ⟨depth, l, blanks⟩ (l.after blanks)

theorem Ended.moved {s : Point} {here : Location} (h : Ended s here) (l : Location) :
    Ended ⟨s.depth, l, s.rest⟩ (l.after s.rest) := by
  cases h with
  | mk _ hblanks => exact .mk l hblanks

/-- The token at the end of every script. -/
def ending (l : Location) : Token := ⟨.endOfInput, "", l, l⟩

theorem Step.not_isEnd {p q : Point} {t : Token} (h : Step p t q) : t.isEnd = false := by
  cases h with
  | mk l hblanks hstop hfirst => simpa [Token.isEnd] using Reading.kind_ne_endOfInput hfirst

theorem Steps.not_isEnd {p q : Point} {ts : List Token} (h : Steps p ts q) :
    ∀ t ∈ ts, t.isEnd = false := by
  induction h with
  | nil p => simp
  | cons h hs ih => exact List.forall_mem_cons.mpr ⟨h.not_isEnd, ih⟩

theorem Steps.trans {p q s : Point} {ts us : List Token} (h : Steps p ts q) (hs : Steps q us s) :
    Steps p (ts ++ us) s := by
  induction h with
  | nil p => exact hs
  | cons h _ ih => exact .cons h (ih hs)

theorem Steps.split {ts us : List Token} {p s : Point} (h : Steps p (ts ++ us) s) :
    ∃ q, Steps p ts q ∧ Steps q us s := by
  induction ts generalizing p with
  | nil => exact ⟨p, .nil p, h⟩
  | cons t ts ih =>
    cases h with
    | cons h hs =>
      obtain ⟨q, hfront, hback⟩ := ih hs
      exact ⟨q, .cons h hfront, hback⟩

/-- A scan without a fault reads its tokens step by step, up to the end. -/
theorem readFrom_eq (source : List Char) {p s : Point} {ts : List Token} {here : Location}
    (h : Steps p ts s) (hended : Ended s here) :
    readFrom source p.depth p.location p.rest = ⟨ts ++ [ending here], s.depth, none⟩ := by
  induction h with
  | nil p =>
    cases hended with
    | mk l hblanks =>
      have hskip := hblanks.skip [] (by simp) l
      rw [List.append_nil] at hskip
      rw [readFrom]
      split
      · next heq =>
        rw [hskip] at heq
        cases heq
        rfl
      · next heq =>
        rw [hskip] at heq
        cases heq
  | cons hstep _ ih =>
    have ih := ih hended
    cases hstep with
    | @mk depth blanks cs inComment c r l hblanks hstop hfirst =>
      have hskip := hblanks.skip (c :: cs) (by simpa using hstop) l
      rw [readFrom]
      split
      · next heq =>
        rw [hskip] at heq
        cases heq
      · next heq =>
        rw [hskip] at heq
        cases heq
        split
        · next heq =>
          rw [hfirst] at heq
          cases heq
        · next heq =>
          rw [hfirst] at heq
          cases heq
          simp only [Location.after_append] at ih ⊢
          simp only [ih, List.cons_append]

theorem exists_steps (source : List Char) (depth : Nat) (l : Location) (cs : List Char)
    (h : (readFrom source depth l cs).failure = none) :
    ∃ ts s here, Steps ⟨depth, l, cs⟩ ts s ∧ Ended s here := by
  obtain ⟨blanks, stop, rest, rfl, hblanks, hrest⟩ := exists_blanks depth false cs
  have hskip := hblanks.skip rest hrest l
  cases rest with
  | nil => exact ⟨[], _, _, .nil _, by simpa using Ended.mk l hblanks⟩
  | cons c more =>
    rw [readFrom] at h
    split at h
    · next heq =>
      rw [hskip] at heq
      cases heq
    · next heq =>
      rw [hskip] at heq
      cases heq
      split at h
      · cases h
      · next r hfirst =>
        have hlength : r.rest.length < (blanks ++ c :: more).length := by
          have := Reading.first_rest_length hfirst
          simp only [List.length_append, List.length_cons]
          omega
        have hstep := Step.mk l hblanks (hrest c (by simp)) hfirst
        obtain ⟨ts, s, here, hsteps, hended⟩ := exists_steps source (depthAfter depth r.kind)
          (l.after (blanks ++ r.taken)) r.rest (by simpa only [Location.after_append] using h)
        exact ⟨_, s, here, .cons hstep hsteps, hended⟩
termination_by cs.length

/-! ### Reading the same tokens again -/

/-- The token stands in the text that starts at the given place, and its characters spell it. -/
def StandsIn (l : Location) (text : List Char) (t : Token) : Prop :=
  ∃ before taken after, text = before ++ (taken ++ after) ∧ t.start = l.after before ∧
    t.stop = l.after (before ++ taken) ∧ taken ≠ [] ∧ t.kind.Spells taken ∧
    (t.kind ≠ .newline → t.lexeme = String.ofList taken)

theorem StandsIn.append {l : Location} {text : List Char} {t : Token} (h : StandsIn l text t)
    (more : List Char) : StandsIn l (text ++ more) t := by
  obtain ⟨before, taken, after, rfl, hstart, hstop, hspells⟩ := h
  exact ⟨before, taken, after ++ more, by simp, hstart, hstop, hspells⟩

theorem StandsIn.behind {l : Location} {front text : List Char} {t : Token}
    (h : StandsIn (l.after front) text t) : StandsIn l (front ++ text) t := by
  obtain ⟨before, taken, after, rfl, hstart, hstop, hspells⟩ := h
  rw [← Location.after_append] at hstart hstop
  exact ⟨front ++ before, taken, after, by simp, hstart, by simpa using hstop, hspells⟩

/-- The text that a step takes, blanks included. Before a cut it is taken again, wherever it
stands. -/
theorem Step.text {p q : Point} {t : Token} (h : Step p t q) :
    ∃ text, p.rest = text ++ q.rest ∧ q.location = p.location.after text ∧
      StandsIn p.location text t ∧ t.stop = q.location ∧
      ∀ (l : Location) (after : List Char), Cut q.rest after →
        Step ⟨p.depth, l, text ++ after⟩ (t.relocate (.moved p.location l))
          ⟨q.depth, l.after text, after⟩ := by
  cases h with
  | @mk depth blanks cs inComment c r l₀ hblanks hstop hfirst =>
    obtain ⟨more, htaken, rfl, hspells, hagain⟩ := Reading.first_spec hfirst
    refine ⟨blanks ++ r.taken, by simp [htaken], rfl, ?_, rfl, fun l after hcut => ?_⟩
    · exact ⟨blanks, r.taken, [], by simp, rfl, rfl, by simp [htaken], hspells,
        fun hk => if_neg hk⟩
    have htext : blanks ++ r.taken ++ after = blanks ++ c :: (more ++ after) := by simp [htaken]
    rw [htext, Token.relocate, Location.moved_after, Location.moved_after]
    exact Step.mk l hblanks hstop (hagain after hcut)

/-- What some steps do with the text that they take. -/
structure Takes (p s : Point) (ts : List Token) (text : List Char) : Prop where
  rest : p.rest = text ++ s.rest
  location : s.location = p.location.after text
  stands : ∀ t ∈ ts, StandsIn p.location text t
  again : ∀ (l : Location) (after : List Char), Cut s.rest after →
    Steps ⟨p.depth, l, text ++ after⟩ (ts.map (Token.relocate (.moved p.location l)))
      ⟨s.depth, l.after text, after⟩

theorem Steps.text {p s : Point} {ts : List Token} (h : Steps p ts s) :
    ∃ text, Takes p s ts text := by
  induction h with
  | nil p => exact ⟨[], rfl, rfl, by simp, fun l after _ => .nil _⟩
  | @cons p q s t ts hstep hs ih =>
    obtain ⟨front, hp, hq, ht, -, hfront⟩ := hstep.text
    obtain ⟨back, hback⟩ := ih
    have hstands : ∀ u ∈ ts, StandsIn p.location (front ++ back) u := by
      intro u hu
      have hu := hback.stands u hu
      rw [hq] at hu
      exact hu.behind
    refine ⟨front ++ back, ?_, ?_, ?_, fun l after hcut => ?_⟩
    · rw [hp, hback.rest, List.append_assoc]
    · rw [hback.location, hq, Location.after_append]
    · exact List.forall_mem_cons.mpr ⟨ht.append back, hstands⟩
    have hmap : ts.map (Token.relocate (.moved q.location (l.after front)))
        = ts.map (Token.relocate (.moved p.location l)) := by
      refine List.map_congr_left fun u hu => ?_
      obtain ⟨before, taken, -, -, hstart, hstop, -⟩ := hback.stands u hu
      rw [hq] at hstart hstop ⊢
      simp only [Token.relocate, hstart, hstop, Location.moved_after_after]
    have hcut' : Cut q.rest (back ++ after) := by
      rw [hback.rest]
      exact hcut.append back
    rw [List.append_assoc, List.map_cons, Location.after_append, ← hmap]
    exact .cons (hfront l (back ++ after) hcut') (hback.again (l.after front) after hcut)

theorem dropped_outside_comment {depth : Nat} {inComment : Bool} {c : Char}
    (h : dropped depth inComment c = none) : dropped depth false c = none := by
  cases inComment with
  | false => exact h
  | true =>
    unfold dropped at h ⊢
    by_cases hc : c = '\n' <;> simp_all

/-- The blanks before the first token may be left out. -/
theorem Steps.trim {p s : Point} {t : Token} {ts : List Token} (h : Steps p (t :: ts) s) :
    ∃ blanks rest, p.rest = blanks ++ rest ∧ t.start = p.location.after blanks ∧
      Steps ⟨p.depth, t.start, rest⟩ (t :: ts) s := by
  cases h with
  | cons hstep hs =>
    cases hstep with
    | @mk depth blanks cs inComment c r l hblanks hstop hfirst =>
      have hstep := Step.mk (l.after blanks) (.nil false) (dropped_outside_comment hstop) hfirst
      refine ⟨blanks, c :: cs, rfl, rfl, .cons ?_ hs⟩
      simpa only [Location.after_append, List.nil_append, Location.after_nil] using hstep

theorem Steps.location {p s : Point} {ts : List Token} (h : Steps p ts s) (hts : ts ≠ []) :
    (ts.getLast hts).stop = s.location := by
  induction h with
  | nil p => exact absurd rfl hts
  | @cons p q s t ts hstep hs ih =>
    cases ts with
    | nil =>
      cases hs
      obtain ⟨-, -, -, -, hstop, -⟩ := hstep.text
      exact hstop
    | cons u us =>
      rw [List.getLast_cons (List.cons_ne_nil u us)]
      exact ih _

/-- Open parentheses behind some tokens, `depth` of them being open before. -/
def depthBehind (depth : Nat) (ts : List Token) : Nat :=
  ts.foldl (fun depth t => depthAfter depth t.kind) depth

@[simp] theorem depthBehind_nil (depth : Nat) : depthBehind depth [] = depth := rfl

@[simp] theorem depthBehind_cons (depth : Nat) (t : Token) (ts : List Token) :
    depthBehind depth (t :: ts) = depthBehind (depthAfter depth t.kind) ts := rfl

@[simp] theorem depthBehind_append (depth : Nat) (ts us : List Token) :
    depthBehind depth (ts ++ us) = depthBehind (depthBehind depth ts) us :=
  List.foldl_append

theorem Steps.depth {p s : Point} {ts : List Token} (h : Steps p ts s) :
    s.depth = depthBehind p.depth ts := by
  induction h with
  | nil p => rfl
  | cons hstep _ ih =>
    cases hstep
    exact ih

end Scan

open Scan (Steps Ended ending)

theorem tokenize_eq_ok_iff {source : String} {ts : List Token} :
    tokenize source = .ok ts ↔ ∃ us s here, Steps ⟨0, .start, source.toList⟩ us s ∧
      Ended s here ∧ ts = us ++ [ending here] := by
  constructor
  · intro h
    unfold tokenize at h
    simp only at h
    split at h
    · next hfailure =>
      obtain ⟨us, s, here, hsteps, hended⟩ :=
        Scan.exists_steps source.toList 0 .start source.toList hfailure
      have hread := Scan.readFrom_eq source.toList hsteps hended
      refine ⟨us, s, here, hsteps, hended, ?_⟩
      cases h
      rw [Scan.ofSource, hread]
    · cases h
  · rintro ⟨us, s, here, hsteps, hended, rfl⟩
    have hread := Scan.readFrom_eq source.toList hsteps hended
    simp only [tokenize, Scan.ofSource, hread]

end Abacus
