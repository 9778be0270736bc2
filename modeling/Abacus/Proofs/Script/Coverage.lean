import Abacus.Proofs.Script.Scanning
import Mathlib.Data.List.DropRight

/-!
Tokens cover the source.

Scanning loses nothing and invents nothing. The tokens stand in the source in order, each over the
text that it shows. Before each of them, and at the end, there are only blanks, comments and, inside
parentheses, line feeds. The places of the tokens count the lines and the columns of the source.
-/
namespace Abacus

/-! ### Lines and columns -/

/-- The place has the line and the column that its offset has in the source. -/
structure Location.Counts (source : List Char) (l : Location) : Prop where
  line : l.line = 1 + (source.take l.offset).count '\n'
  column : l.column = 1 + ((source.take l.offset).rtakeWhile (· ≠ '\n')).length

namespace Location

theorem line_start_after (cs : List Char) : (start.after cs).line = 1 + cs.count '\n' := by
  induction cs using List.reverseRecOn with
  | nil => rfl
  | append_singleton cs c ih =>
    rw [after_concat, next, List.count_append]
    split
    · next hc =>
      subst hc
      simp only [ih, List.count_singleton_self]
      omega
    · next hc =>
      rw [List.count_singleton, if_neg (by simpa using hc)]
      exact ih

theorem column_start_after (cs : List Char) :
    (start.after cs).column = 1 + (cs.rtakeWhile (· ≠ '\n')).length := by
  induction cs using List.reverseRecOn with
  | nil => rfl
  | append_singleton cs c ih =>
    rw [after_concat, next]
    split
    · next hc => rw [List.rtakeWhile_concat_neg _ _ _ (by simpa using hc)]; rfl
    · next hc =>
      rw [List.rtakeWhile_concat_pos _ _ _ (by simpa using hc), List.length_append]
      simp only [ih, List.length_singleton]
      omega

theorem counts_after (front rest : List Char) : Counts (front ++ rest) (start.after front) := by
  have hoffset : (start.after front).offset = front.length := by
    rw [offset_after]
    exact Nat.zero_add _
  have htake : (front ++ rest).take (start.after front).offset = front := by
    rw [hoffset, List.take_left]
  refine ⟨?_, ?_⟩
  · rw [htake, line_start_after]
  · rw [htake, column_start_after]

end Location

/-! ### Gaps -/

/-- Text that stands between two tokens, `rest` being what follows: blanks, comments that run up to
a line feed or to the end, and line feeds inside parentheses. -/
inductive Gap (depth : Nat) (rest : List Char) : List Char → Prop
  | nil : Gap depth rest []
  | blank {c : Char} {cs : List Char} (hc : c = ' ' ∨ c = '\t' ∨ c = '\r')
      (h : Gap depth rest cs) : Gap depth rest (c :: cs)
  | comment {body cs : List Char} (hbody : '\n' ∉ body) (hend : ∀ c ∈ (cs ++ rest).head?, c = '\n')
      (h : Gap depth rest cs) : Gap depth rest ('#' :: body ++ cs)
  | newline {cs : List Char} (hdepth : 0 < depth) (h : Gap depth rest cs) :
      Gap depth rest ('\n' :: cs)

namespace Scan

theorem eq_newline_of_dropped_comment {depth : Nat} {c : Char} (h : dropped depth true c = none) :
    c = '\n' := by
  unfold dropped at h
  by_contra hc
  simp [hc] at h

/-- What is dropped is a gap; from within a comment on it is the rest of the comment and a gap. -/
theorem Blanks.gap {depth : Nat} {inComment stop : Bool} {blanks rest : List Char}
    (h : Blanks depth inComment blanks stop)
    (hrest : ∀ c ∈ rest.head?, dropped depth stop c = none) :
    ∃ body gap, blanks = body ++ gap ∧ Gap depth rest gap ∧ '\n' ∉ body ∧
      (inComment = false → body = []) ∧
      (inComment = true → ∀ c ∈ (gap ++ rest).head?, c = '\n') := by
  induction h with
  | nil inComment =>
    refine ⟨[], [], rfl, .nil, by simp, fun _ => rfl, ?_⟩
    rintro rfl c hc
    exact eq_newline_of_dropped_comment (hrest c hc)
  | @cons inComment next stop c cs hc _ ih =>
    obtain ⟨body, gap, rfl, hgap, hbody, hnone, hend⟩ := ih hrest
    unfold dropped at hc
    split at hc
    · next hnewline =>
      -- a line feed ends a comment and is a gap itself
      subst hnewline
      split at hc
      · cases hc
      · next hdepth =>
        obtain rfl := Option.some.inj hc
        obtain rfl := hnone rfl
        exact ⟨[], '\n' :: gap, rfl, .newline (Nat.pos_of_ne_zero hdepth) hgap, by simp,
          fun _ => rfl, fun _ => by simp⟩
    next hnewline =>
    split at hc
    · next hcomment =>
      obtain rfl := Option.some.inj hc
      refine ⟨c :: body, gap, rfl, hgap, ?_, by simp [hcomment], fun _ => hend rfl⟩
      simpa using ⟨Ne.symm hnewline, hbody⟩
    next hcomment =>
    have hout : inComment = false := by simpa using hcomment
    split at hc
    · next hblank =>
      obtain rfl := Option.some.inj hc
      obtain rfl := hnone rfl
      exact ⟨[], c :: gap, rfl, .blank hblank hgap, by simp, fun _ => rfl, by simp [hout]⟩
    split at hc
    · next hhash =>
      subst hhash
      obtain rfl := Option.some.inj hc
      exact ⟨[], '#' :: body ++ gap, rfl, .comment hbody (hend rfl) hgap, by simp, fun _ => rfl,
        by simp [hout]⟩
    · cases hc

theorem Blanks.gap_outside {depth : Nat} {stop : Bool} {blanks rest : List Char}
    (h : Blanks depth false blanks stop)
    (hrest : ∀ c ∈ rest.head?, dropped depth stop c = none) : Gap depth rest blanks := by
  obtain ⟨body, gap, rfl, hgap, -, hnone, -⟩ := h.gap hrest
  rw [hnone rfl]
  exact hgap

end Scan

/-! ### Tokens in their source -/

/-- The offset behind the last of some tokens. -/
def endOffset (ts : List Token) : Nat := (ts.getLast?.map (·.stop.offset)).getD 0

/-- How the tokens of a source lie in it. -/
structure Covers (source : List Char) (ts : List Token) : Prop where
  /-- The last token, and no other, is the end of input, with an empty span at the end. -/
  ending : ∃ us t, ts = us ++ [t] ∧ (∀ u ∈ us, u.kind ≠ .endOfInput) ∧ t.kind = .endOfInput ∧
    t.lexeme = "" ∧ t.start = t.stop ∧ t.start.offset = source.length
  nonempty : ∀ t ∈ ts, t.kind ≠ .endOfInput → t.start.offset < t.stop.offset
  ordered : ts.Pairwise fun t u => t.stop.offset ≤ u.start.offset
  inside : ∀ t ∈ ts, t.stop.offset ≤ source.length
  lexemes : ∀ t ∈ ts, t.kind ≠ .newline →
    t.lexeme = Text.slice source t.start.offset t.stop.offset
  newlines : ∀ t ∈ ts, t.kind = .newline →
    Text.slice source t.start.offset t.stop.offset = "\n"
  /-- What stands before a token is a gap at the depth of parentheses there. -/
  gaps : ∀ us t ws, ts = us ++ t :: ws → Gap (Scan.depthBehind 0 us) (source.drop t.start.offset)
    (Text.slice source (endOffset us) t.start.offset).toList
  outside : ∀ us t ws, ts = us ++ t :: ws → t.kind = .newline → Scan.depthBehind 0 us = 0
  counts : ∀ t ∈ ts, t.start.Counts source ∧ t.stop.Counts source

/-- The token stands in the source behind the tokens `us`: `front` reaches up to the last of these,
and `gap` up to the token itself, over `taken`. -/
structure Placed (source : List Char) (us : List Token) (t : Token)
    (front gap taken rest : List Char) : Prop where
  split : source = front ++ (gap ++ (taken ++ rest))
  behind : front.length = endOffset us
  between : Gap (Scan.depthBehind 0 us) (taken ++ rest) gap
  start : t.start = Location.start.after (front ++ gap)
  stop : t.stop = Location.start.after (front ++ gap ++ taken)
  lexeme : t.kind ≠ .newline → t.lexeme = String.ofList taken
  newline : t.kind = .newline → taken = ['\n'] ∧ Scan.depthBehind 0 us = 0
  ending : t.kind = .endOfInput ↔ taken = []

namespace Placed

variable {source : List Char} {us : List Token} {t : Token} {front gap taken rest : List Char}
  (h : Placed source us t front gap taken rest)
include h

theorem start_offset : t.start.offset = front.length + gap.length := by
  rw [h.start, Location.offset_after, List.length_append]
  exact Nat.zero_add _

theorem stop_offset : t.stop.offset = front.length + gap.length + taken.length := by
  rw [h.stop, Location.offset_after, List.length_append, List.length_append]
  exact Nat.zero_add _

theorem drop_start : source.drop t.start.offset = taken ++ rest := by
  rw [h.start_offset, ← List.length_append, h.split, ← List.append_assoc front gap,
    List.drop_left]

theorem slice_span : Text.slice source t.start.offset t.stop.offset = String.ofList taken := by
  have hlength : t.stop.offset - t.start.offset = taken.length := by
    rw [h.start_offset, h.stop_offset]
    omega
  rw [Text.slice, h.drop_start, hlength, List.take_left]

theorem slice_gap : (Text.slice source (endOffset us) t.start.offset).toList = gap := by
  have hlength : t.start.offset - front.length = gap.length := by
    rw [h.start_offset]
    omega
  rw [Text.slice, ← h.behind, hlength, h.split, List.drop_left, List.take_left,
    String.toList_ofList]

theorem counts : t.start.Counts source ∧ t.stop.Counts source := by
  rw [h.split, h.start, h.stop]
  refine ⟨?_, ?_⟩
  · rw [← List.append_assoc]
    exact Location.counts_after _ _
  · rw [← List.append_assoc, ← List.append_assoc]
    exact Location.counts_after _ _

end Placed

namespace Scan

/-- A scan from the start of a source stands behind the tokens that it has read. -/
theorem Steps.exists_front {source : List Char} {us : List Token} {q : Point}
    (h : Steps ⟨0, .start, source⟩ us q) :
    ∃ front, source = front ++ q.rest ∧ q.location = Location.start.after front ∧
      front.length = endOffset us := by
  obtain ⟨front, htakes⟩ := h.text
  refine ⟨front, htakes.rest, htakes.location, ?_⟩
  have hoffset : q.location.offset = front.length := by
    rw [htakes.location, Location.offset_after]
    exact Nat.zero_add _
  rw [← hoffset]
  by_cases hus : us = []
  · subst hus
    cases h
    rfl
  · rw [endOffset, List.getLast?_eq_some_getLast hus, Option.map_some, Option.getD_some,
      h.location hus]

theorem Step.placed {source : List Char} {us : List Token} {p q : Point} {t : Token}
    (hus : Steps ⟨0, .start, source⟩ us p) (h : Step p t q) :
    ∃ front gap taken, Placed source us t front gap taken q.rest := by
  obtain ⟨front, hsource, hlocation, hfront⟩ := hus.exists_front
  have hdepth := hus.depth
  cases h with
  | @mk depth blanks cs inComment c r l hblanks hstop hfirst =>
    obtain ⟨more, htaken, rfl, hspells, -⟩ := Reading.first_spec hfirst
    have hkind := Reading.kind_ne_endOfInput hfirst
    have hrest : c :: (more ++ r.rest) = r.taken ++ r.rest := by rw [htaken, List.cons_append]
    simp only at hlocation hdepth
    refine ⟨front, blanks, r.taken, ?_, hfront, ?_, ?_, ?_, fun hk => if_neg hk, fun hk => ?_, ?_⟩
    · rw [← hrest]
      exact hsource
    · rw [← hdepth, ← hrest]
      exact hblanks.gap_outside (by simpa using hstop)
    · rw [Location.after_append Location.start, ← hlocation]
    · rw [List.append_assoc, Location.after_append Location.start, ← hlocation]
    · have hnewline : r.taken = ['\n'] := by
        rw [show r.kind = .newline from hk] at hspells
        exact hspells
      refine ⟨hnewline, hdepth.symm.trans ?_⟩
      obtain rfl : c = '\n' := (List.cons.inj (htaken.symm.trans hnewline)).1
      by_contra hdepth
      simp [dropped, hdepth] at hstop
    · simp [hkind, htaken]

theorem Ended.placed {source : List Char} {us : List Token} {s : Point} {here : Location}
    (hus : Steps ⟨0, .start, source⟩ us s) (h : Ended s here) :
    ∃ front gap, Placed source us (ending here) front gap [] [] := by
  obtain ⟨front, hsource, hlocation, hfront⟩ := hus.exists_front
  have hdepth := hus.depth
  cases h with
  | @mk depth blanks inComment l hblanks =>
    refine ⟨front, blanks, ?_, hfront, ?_, ?_, ?_, fun _ => rfl, fun hk => ?_, ?_⟩
    · simpa using hsource
    · rw [← hdepth]
      exact hblanks.gap_outside (by simp)
    · rw [Location.after_append, ← hlocation]
      rfl
    · rw [List.append_nil, Location.after_append, ← hlocation]
      rfl
    · cases hk
    · simp [ending]

theorem StandsIn.bounds {l : Location} {text : List Char} {t : Token} (h : StandsIn l text t) :
    l.offset ≤ t.start.offset ∧ t.stop.offset ≤ (l.after text).offset := by
  obtain ⟨before, taken, after, rfl, hstart, hstop, -⟩ := h
  rw [hstart, hstop]
  simp only [Location.offset_after, List.length_append]
  omega

/-- Tokens follow each other. -/
theorem Steps.ordered {p s : Point} {ts : List Token} (h : Steps p ts s) :
    ts.Pairwise fun t u => t.stop.offset ≤ u.start.offset := by
  induction h with
  | nil p => exact .nil
  | cons hstep hs ih =>
    obtain ⟨-, -, -, -, hstop, -⟩ := hstep.text
    obtain ⟨back, hback⟩ := hs.text
    refine List.pairwise_cons.mpr ⟨fun u hu => ?_, ih⟩
    rw [hstop]
    exact (hback.stands u hu).bounds.1

end Scan

theorem exists_placed {source : String} {ts : List Token} (h : tokenize source = .ok ts)
    {us : List Token} {t : Token} {ws : List Token} (hts : ts = us ++ t :: ws) :
    ∃ front gap taken rest, Placed source.toList us t front gap taken rest := by
  obtain ⟨vs, s, here, hsteps, hended, rfl⟩ := tokenize_eq_ok_iff.mp h
  rcases List.eq_nil_or_concat ws with rfl | ⟨ws, w, rfl⟩
  · obtain ⟨rfl, ht⟩ := List.append_inj' hts rfl
    obtain rfl : Scan.ending here = t := List.singleton_injective ht
    obtain ⟨front, gap, hplaced⟩ := hended.placed hsteps
    exact ⟨front, gap, [], [], hplaced⟩
  · have hsplit : vs ++ [Scan.ending here] = (us ++ t :: ws) ++ [w] := by simpa using hts
    obtain ⟨rfl, -⟩ := List.append_inj' hsplit rfl
    obtain ⟨q, hus, hrest⟩ := hsteps.split
    cases hrest with
    | cons hstep _ =>
      obtain ⟨front, gap, taken, hplaced⟩ := hstep.placed hus
      exact ⟨front, gap, taken, _, hplaced⟩

/-- Scanning loses nothing and invents nothing: the tokens of a source cover it. -/
theorem tokens_cover_source {source : String} {ts : List Token} (h : tokenize source = .ok ts) :
    Covers source.toList ts := by
  have hplaced : ∀ t ∈ ts, ∃ us front gap taken rest,
      Placed source.toList us t front gap taken rest := by
    intro t ht
    obtain ⟨us, ws, hts⟩ := List.append_of_mem ht
    exact ⟨us, exists_placed h hts⟩
  obtain ⟨us, s, here, hsteps, hended, rfl⟩ := tokenize_eq_ok_iff.mp h
  obtain ⟨front, gap, hlast⟩ := hended.placed hsteps
  have hend : here.offset = source.toList.length := by
    have hoffset : (Scan.ending here).start.offset = front.length + gap.length := hlast.start_offset
    rw [hlast.split, List.append_nil, List.append_nil, List.length_append]
    exact hoffset
  constructor
  case ending =>
    refine ⟨us, Scan.ending here, rfl, fun u hu => ?_, rfl, rfl, rfl, hend⟩
    simpa [Token.isEnd] using hsteps.not_isEnd u hu
  case nonempty =>
    intro t ht hk
    obtain ⟨_, _, _, taken, _, hp⟩ := hplaced t ht
    have hlength := List.length_pos_iff.mpr (fun hnil => hk (hp.ending.mpr hnil))
    rw [hp.start_offset, hp.stop_offset]
    omega
  case ordered =>
    refine List.pairwise_append.mpr ⟨hsteps.ordered, List.pairwise_singleton _ _, ?_⟩
    intro t ht u hu
    obtain rfl := List.mem_singleton.mp hu
    obtain ⟨_, _, _, _, _, hp⟩ := hplaced t (by simp [ht])
    rw [hp.stop_offset, show (Scan.ending here).start.offset = _ from hend, hp.split]
    simp only [List.length_append]
    omega
  case inside =>
    intro t ht
    obtain ⟨_, _, _, _, _, hp⟩ := hplaced t ht
    rw [hp.stop_offset, hp.split]
    simp only [List.length_append]
    omega
  case lexemes =>
    intro t ht hk
    obtain ⟨_, _, _, _, _, hp⟩ := hplaced t ht
    rw [hp.slice_span, hp.lexeme hk]
  case newlines =>
    intro t ht hk
    obtain ⟨_, _, _, _, _, hp⟩ := hplaced t ht
    rw [hp.slice_span, (hp.newline hk).1]
  case gaps =>
    intro us t ws hts
    obtain ⟨_, _, _, _, hp⟩ := exists_placed h hts
    rw [hp.slice_gap, hp.drop_start]
    exact hp.between
  case outside =>
    intro us t ws hts hk
    obtain ⟨_, _, _, _, hp⟩ := exists_placed h hts
    exact (hp.newline hk).2
  case counts =>
    intro t ht
    obtain ⟨_, _, _, _, _, hp⟩ := hplaced t ht
    exact hp.counts

/-- A comment and a line feed inside parentheses, a built-in name glued to its digits, a closing
parenthesis too many and a line feed behind it. -/
theorem tokens_cover_source_of_comment :
    let source := "f(1.5 # a\n, sind90))\t# b\nx"
    ∃ ts, tokenize source = .ok ts ∧ Covers source.toList ts := by
  intro source
  cases hts : tokenize source with
  | ok ts => exact ⟨ts, rfl, tokens_cover_source hts⟩
  | error d =>
    have hok : (tokenize source).isOk = true := by decide +kernel
    rw [hts] at hok
    cases hok

end Abacus
