import Abacus.Script.Scan
import Mathlib.Data.List.TakeWhile

/-!
One token and the text around it.

The text of a token spells its kind. Which token is read depends on the text behind it only through
the question whether the token goes on there; so the same token is read again when that text is cut
off somewhere, or goes on behind a line feed.
-/
namespace Abacus

/-! ### What is cut off -/

/-- `after` is a part of `before` from its front, with nothing or a line feed behind it. -/
def Cut (before after : List Char) : Prop :=
  ∃ kept, kept <+: before ∧ (after = kept ∨ ∃ more, after = kept ++ '\n' :: more)

theorem cut_of_front {before after : List Char} (h : after <+: before) : Cut before after :=
  ⟨after, h, .inl rfl⟩

theorem cut_newline (before more : List Char) : Cut before (before ++ '\n' :: more) :=
  ⟨before, List.prefix_refl _, .inr ⟨more, rfl⟩⟩

theorem Cut.append {before after : List Char} (h : Cut before after) (front : List Char) :
    Cut (front ++ before) (front ++ after) := by
  obtain ⟨kept, hkept, hafter⟩ := h
  refine ⟨front ++ kept, (List.prefix_append_right_inj front).mpr hkept, ?_⟩
  rcases hafter with rfl | ⟨more, rfl⟩
  · exact .inl rfl
  · exact .inr ⟨more, by simp⟩

/-- The text does not start with a character of the given class. -/
def Stops (p : Char → Bool) (cs : List Char) : Prop := ∀ c ∈ cs.head?, p c = false

theorem stops_dropWhile (p : Char → Bool) (cs : List Char) : Stops p (cs.dropWhile p) := by
  intro c hc
  have hhead := List.head?_dropWhile_not p cs
  rw [Option.mem_def.mp hc] at hhead
  simpa using hhead

section Span

variable {p : Char → Bool} {front rest : List Char} (hfront : ∀ c ∈ front, p c = true)
  (hrest : Stops p rest)
include hfront hrest

theorem takeWhile_of_stops : (front ++ rest).takeWhile p = front := by
  rw [List.takeWhile_append_of_pos hfront]
  cases rest with
  | nil => simp
  | cons c rest => simp [hrest c (by simp)]

theorem dropWhile_of_stops : (front ++ rest).dropWhile p = rest := by
  rw [List.dropWhile_append_of_pos hfront]
  cases rest with
  | nil => rfl
  | cons c rest => simp [hrest c (by simp)]

end Span

section Cut

variable {p : Char → Bool} (hp : p '\n' = false) {before after : List Char}
include hp

theorem Stops.cut (h : Stops p before) (hcut : Cut before after) : Stops p after := by
  obtain ⟨kept, ⟨more, rfl⟩, hafter⟩ := hcut
  cases kept with
  | nil =>
    rcases hafter with rfl | ⟨more, rfl⟩
    · simp [Stops]
    · simpa [Stops] using hp
  | cons c kept =>
    have hc : p c = false := h c (by simp)
    rcases hafter with rfl | ⟨more, rfl⟩ <;> simpa [Stops] using hc

/-- A cut goes through the characters of a class at the front, or behind them. -/
theorem Cut.split {front rest : List Char} (hrest : Stops p rest)
    (hcut : Cut (front ++ rest) after) :
    ∃ kept more, after = kept ++ more ∧ kept <+: front ∧ Stops p more := by
  obtain ⟨kept, ⟨dropped, hkept⟩, hafter⟩ := hcut
  rcases List.append_eq_append_iff.mp hkept with ⟨more, hfront, -⟩ | ⟨more, hfront, hmore⟩
  · refine ⟨kept, after.drop kept.length, ?_, ⟨more, hfront.symm⟩, ?_⟩
    · rcases hafter with rfl | ⟨tail, rfl⟩ <;> simp
    · rcases hafter with rfl | ⟨tail, rfl⟩
      · simp [Stops]
      · simpa [Stops] using hp
  · have hcut : Cut rest (after.drop front.length) := by
      refine ⟨more, ⟨dropped, hmore.symm⟩, ?_⟩
      rcases hafter with rfl | ⟨tail, rfl⟩
      · exact .inl (by simp [hfront])
      · exact .inr ⟨tail, by simp [hfront]⟩
    refine ⟨front, after.drop front.length, ?_, List.prefix_refl _, hrest.cut hp hcut⟩
    rcases hafter with rfl | ⟨tail, rfl⟩ <;> simp [hfront]

end Cut

/-! ### Spelling -/

def Mark.text : Mark → List Char
  | plus => ['+']
  | minus => ['-']
  | star => ['*']
  | slash => ['/']
  | percent => ['%']
  | caret => ['^']
  | less => ['<']
  | greater => ['>']
  | equal => ['=', '=']
  | unequal => ['!', '=']
  | assign => ['=']
  | leftParen => ['(']
  | rightParen => [')']
  | leftBrace => ['{']
  | rightBrace => ['}']
  | comma => [',']
  | semicolon => [';']

/-- A number literal with the given digits before and behind its point. -/
def numeral (whole fraction : List Char) : List Char :=
  if fraction.isEmpty then whole else whole ++ '.' :: fraction

/-- The text from which a token of the given kind is read. -/
def TokenKind.Spells : TokenKind → List Char → Prop
  | number x, cs => ∃ whole fraction, cs = numeral whole fraction ∧ whole ≠ [] ∧
      (∀ c ∈ whole ++ fraction, c.isDigit = true) ∧ Numeric.literal whole fraction = .ok x
  | identifier name, cs => cs = name.toList ∧ ∀ c ∈ cs, Text.isWordChar c = true
  | builtin op, cs => cs = op.symbol.toList
  | keyword k, cs => cs = k.word.toList
  | mark m, cs => cs = m.text
  | newline, cs => cs = ['\n']
  | endOfInput, cs => cs = []

namespace Reading

/-! ### Numbers -/

/-- A number ends before the given text. -/
def NumberStops (fraction rest : List Char) : Prop :=
  Stops Char.isDigit rest ∧
    (fraction = [] → ∀ d more, rest = '.' :: d :: more → d.isDigit = false)

theorem numberStops_cut {fraction rest after : List Char} (h : NumberStops fraction rest)
    (hcut : Cut rest after) : NumberStops fraction after := by
  refine ⟨h.1.cut (by decide) hcut, fun hfraction d more hafter => ?_⟩
  obtain ⟨kept, ⟨dropped, rfl⟩, hkept⟩ := hcut
  match kept with
  | [] => rcases hkept with rfl | ⟨tail, rfl⟩ <;> simp at hafter
  | [c] =>
    rcases hkept with rfl | ⟨tail, rfl⟩
    · simp at hafter
    · obtain ⟨-, rfl, -⟩ : c = '.' ∧ '\n' = d ∧ tail = more := by simpa using hafter
      decide
  | c :: e :: kept =>
    obtain ⟨rfl, rfl⟩ : c = '.' ∧ e = d := by
      rcases hkept with rfl | ⟨tail, rfl⟩
      · simpa using ⟨(List.cons.inj hafter).1, (List.cons.inj (List.cons.inj hafter).2).1⟩
      · exact ⟨(List.cons.inj hafter).1, (List.cons.inj (List.cons.inj hafter).2).1⟩
    exact h.2 hfraction e (kept ++ dropped) (by simp)

theorem numberParts_spec {cs whole fraction rest : List Char}
    (h : numberParts cs = (whole, fraction, rest)) :
    cs = numeral whole fraction ++ rest ∧ (∀ c ∈ whole ++ fraction, c.isDigit = true) ∧
      NumberStops fraction rest := by
  have hall : ∀ xs : List Char, ∀ c ∈ xs.takeWhile Char.isDigit, c.isDigit = true :=
    fun xs c hc => List.mem_takeWhile_imp hc
  have hsplit : cs.takeWhile Char.isDigit ++ cs.dropWhile Char.isDigit = cs :=
    List.takeWhile_append_dropWhile
  have hstops := stops_dropWhile Char.isDigit cs
  unfold numberParts at h
  split at h
  · next d more hdrop =>
    rw [hdrop] at hsplit hstops
    split at h
    · next hd =>
      cases h
      refine ⟨?_, ?_, stops_dropWhile _ _, by simp⟩
      · simpa [numeral] using hsplit.symm
      · intro c hc
        rcases List.mem_append.mp hc with hc | hc
        · exact hall cs c hc
        · rcases List.mem_cons.mp hc with rfl | hc
          · exact hd
          · exact hall more c hc
    · next hd =>
      cases h
      refine ⟨by simp [numeral, hsplit], by simpa using hall cs, hstops, ?_⟩
      rintro - d' more' heq
      obtain ⟨-, rfl, -⟩ : True ∧ d = d' ∧ more = more' := by simpa using heq
      simpa using hd
  · next hnot =>
    cases h
    refine ⟨by simp [numeral, hsplit], by simpa using hall cs, hstops, ?_⟩
    intro _ d more heq
    exact absurd heq (hnot d more)

theorem numberParts_numeral {whole fraction rest : List Char}
    (hdigits : ∀ c ∈ whole ++ fraction, c.isDigit = true) (hrest : NumberStops fraction rest) :
    numberParts (numeral whole fraction ++ rest) = (whole, fraction, rest) := by
  have hwhole : ∀ c ∈ whole, c.isDigit = true := fun c hc => hdigits c (by simp [hc])
  cases fraction with
  | nil =>
    have htake := takeWhile_of_stops hwhole hrest.1
    have hdrop := dropWhile_of_stops hwhole hrest.1
    simp only [numberParts, numeral, List.isEmpty_nil, if_true, htake, hdrop]
    split
    · next d more => simp [hrest.2 rfl d more rfl]
    · rfl
  | cons d fraction =>
    have hd : d.isDigit = true := hdigits d (by simp)
    have hpoint : Stops Char.isDigit ('.' :: d :: fraction ++ rest) := by
      intro c hc
      obtain rfl : '.' = c := by simpa using hc
      decide
    have hfraction : ∀ c ∈ fraction, c.isDigit = true := fun c hc => hdigits c (by simp [hc])
    have htext : numeral whole (d :: fraction) ++ rest
        = whole ++ ('.' :: d :: fraction ++ rest) := by
      simp [numeral]
    rw [numberParts, htext, takeWhile_of_stops hwhole hpoint, dropWhile_of_stops hwhole hpoint]
    simp [hd, takeWhile_of_stops hfraction hrest.1, dropWhile_of_stops hfraction hrest.1]

theorem numberParts_whole (cs : List Char) :
    (numberParts cs).1 = cs.takeWhile Char.isDigit := by
  unfold numberParts
  simp only
  split
  · split <;> rfl
  · rfl

theorem number_spec {c : Char} {cs : List Char} (hc : c.isDigit = true) {r : Reading}
    (h : number (c :: cs) = .ok r) :
    c :: cs = r.taken ++ r.rest ∧ r.kind.Spells r.taken ∧
      ∀ after, Cut r.rest after → number (r.taken ++ after) = .ok { r with rest := after } := by
  obtain ⟨whole, fraction, rest, hparts⟩ :
      ∃ whole fraction rest, numberParts (c :: cs) = (whole, fraction, rest) := ⟨_, _, _, rfl⟩
  obtain ⟨hcs, hdigits, hrest⟩ := numberParts_spec hparts
  have hwhole : whole ≠ [] := by
    have htake : whole = c :: cs.takeWhile Char.isDigit := by
      rw [← List.takeWhile_cons_of_pos hc, ← numberParts_whole, hparts]
    simp [htake]
  unfold number at h
  cases hx : Numeric.literal whole fraction with
  | error e => simp [hparts, hx, Except.map] at h
  | ok x =>
    obtain rfl : r = ⟨.number x, numeral whole fraction, rest⟩ := by
      simpa [hparts, hx, Except.map, numeral] using h.symm
    refine ⟨hcs, ⟨whole, fraction, rfl, hwhole, hdigits, hx⟩, fun after hcut => ?_⟩
    have hagain := numberParts_numeral hdigits (numberStops_cut hrest hcut)
    simp only [number, hagain, hx, Except.map]
    rfl

/-! ### Words -/

theorem isWordChar_newline : Text.isWordChar '\n' = false := by decide

theorem isWordChar_of_isDigit {c : Char} (h : c.isDigit = true) : Text.isWordChar c = true := by
  have hlt : c.toNat < 128 := by
    simp only [Char.isDigit, Bool.and_eq_true, decide_eq_true_eq] at h
    have hle : c.toNat ≤ '9'.toNat := h.2
    exact Nat.lt_of_le_of_lt hle (by decide)
  simp [Text.isWordChar, Text.isNumeral, hlt, h]

theorem builtin?_eq_some {name : String} {op : Operator} (h : Operator.builtin? name = some op) :
    name = op.symbol ∧ Keyword.ofWord? name = none := by
  have hname : op.symbol = name := by simpa using List.find?_some h
  have hmem : op ∈ Operator.builtins := List.mem_of_find?_eq_some h
  have hall : ∀ op ∈ Operator.builtins, Keyword.ofWord? op.symbol = none := by decide
  exact ⟨hname.symm, hname ▸ hall op hmem⟩

theorem wordKind_spells (word : String) (h : ∀ c ∈ word.toList, Text.isWordChar c = true) :
    (wordKind word).Spells word.toList := by
  unfold wordKind
  split
  · next k hk =>
    have hword : k.word = word := by simpa using List.find?_some hk
    rw [← hword]
    rfl
  · split
    · next op hop =>
      rw [(builtin?_eq_some hop).1]
      rfl
    · exact ⟨rfl, h⟩

/-- A word is read whole, unless it is a built-in name with digits behind it. -/
theorem gluedBuiltin?_eq_some {word : List Char} {op : Operator}
    (h : gluedBuiltin? word = some op) :
    ∃ name digits, word = name ++ digits ∧ (∀ c ∈ name, c.isDigit = false) ∧
      (∀ c ∈ digits, c.isDigit = true) ∧ Operator.builtin? (String.ofList name) = some op := by
  unfold gluedBuiltin? at h
  simp only at h
  split at h
  · cases h
  · next hdigits =>
    simp only [Bool.or_eq_true, List.isEmpty_iff, Bool.not_eq_true', not_or, Bool.not_eq_false,
      List.all_eq_true] at hdigits
    refine ⟨_, _, List.takeWhile_append_dropWhile.symm, fun c hc => ?_, hdigits.2, h⟩
    simpa using List.mem_takeWhile_imp hc

theorem gluedBuiltin?_append {name digits : List Char} (hname : ∀ c ∈ name, c.isDigit = false)
    (hdigits : ∀ c ∈ digits, c.isDigit = true) :
    gluedBuiltin? (name ++ digits)
      = if digits = [] then none else Operator.builtin? (String.ofList name) := by
  have hstops : Stops (!·.isDigit) digits := by
    intro c hc
    simp [hdigits c (List.mem_of_head? hc)]
  have hname' : ∀ c ∈ name, (!c.isDigit) = true := fun c hc => by simp [hname c hc]
  rw [gluedBuiltin?, takeWhile_of_stops hname' hstops, dropWhile_of_stops hname' hstops]
  have hall : digits.all Char.isDigit = true := by simpa using hdigits
  cases digits <;> simp_all

theorem word_of_stops {taken rest : List Char} (htaken : ∀ c ∈ taken, Text.isWordChar c = true)
    (hrest : Stops Text.isWordChar rest) :
    word (taken ++ rest)
      = match gluedBuiltin? taken with
        | some op =>
          ⟨.builtin op, taken.takeWhile (!·.isDigit), taken.dropWhile (!·.isDigit) ++ rest⟩
        | none => ⟨wordKind (String.ofList taken), taken, rest⟩ := by
  have htake := takeWhile_of_stops htaken hrest
  have hdrop := dropWhile_of_stops htaken hrest
  cases hglued : gluedBuiltin? taken with
  | none => simp [word, htake, hdrop, hglued]
  | some op => simp [word, htake, hdrop, hglued]

/-- A built-in name is read from its own text, with any digits or none behind it. -/
theorem word_of_builtin {name digits rest : List Char} {op : Operator}
    (hop : Operator.builtin? (String.ofList name) = some op)
    (hword : ∀ c ∈ name, Text.isWordChar c = true) (hname : ∀ c ∈ name, c.isDigit = false)
    (hdigits : ∀ c ∈ digits, c.isDigit = true) (hrest : Stops Text.isWordChar rest) :
    word (name ++ (digits ++ rest)) = ⟨.builtin op, name, digits ++ rest⟩ := by
  have htaken : ∀ c ∈ name ++ digits, Text.isWordChar c = true := by
    intro c hc
    rcases List.mem_append.mp hc with hc | hc
    · exact hword c hc
    · exact isWordChar_of_isDigit (hdigits c hc)
  have hstops : Stops (!·.isDigit) digits := by
    intro c hc
    simp [hdigits c (List.mem_of_head? hc)]
  have hname' : ∀ c ∈ name, (!c.isDigit) = true := fun c hc => by simp [hname c hc]
  rw [← List.append_assoc, word_of_stops htaken hrest, gluedBuiltin?_append hname hdigits]
  by_cases hnil : digits = []
  · simp [hnil, wordKind, (builtin?_eq_some hop).2, hop]
  · simp only [hnil, if_false, hop, takeWhile_of_stops hname' hstops,
      dropWhile_of_stops hname' hstops]

theorem word_spec (cs : List Char) :
    cs = (word cs).taken ++ (word cs).rest ∧ (word cs).kind.Spells (word cs).taken ∧
      ∀ after, Cut (word cs).rest after →
        word ((word cs).taken ++ after) = { word cs with rest := after } := by
  obtain ⟨taken, rest, rfl, htaken, hrest⟩ : ∃ taken rest, cs = taken ++ rest ∧
      (∀ c ∈ taken, Text.isWordChar c = true) ∧ Stops Text.isWordChar rest :=
    ⟨_, _, List.takeWhile_append_dropWhile.symm, fun c hc => List.mem_takeWhile_imp hc,
      stops_dropWhile _ _⟩
  cases hglued : gluedBuiltin? taken with
  | none =>
    have hword : ∀ rest, Stops Text.isWordChar rest →
        word (taken ++ rest) = ⟨wordKind (String.ofList taken), taken, rest⟩ := fun rest hrest => by
      rw [word_of_stops htaken hrest, hglued]
    rw [hword rest hrest]
    have hspells := wordKind_spells (String.ofList taken) (by simpa using htaken)
    refine ⟨rfl, by simpa using hspells, fun after hcut => ?_⟩
    exact hword after (hrest.cut isWordChar_newline hcut)
  | some op =>
    obtain ⟨name, digits, rfl, hname, hdigits, hop⟩ := gluedBuiltin?_eq_some hglued
    have hchars : ∀ c ∈ name, Text.isWordChar c = true := fun c hc => htaken c (by simp [hc])
    have hword := fun {digits rest} => @word_of_builtin name digits rest op hop hchars hname
    rw [List.append_assoc, hword hdigits hrest]
    have hsymbol : name = op.symbol.toList := by
      rw [← (builtin?_eq_some hop).1, String.toList_ofList]
    refine ⟨rfl, hsymbol, fun after hcut => ?_⟩
    obtain ⟨kept, more, rfl, hkept, hmore⟩ := Cut.split isWordChar_newline hrest hcut
    exact hword (fun c hc => hdigits c (hkept.subset hc)) hmore

/-! ### Marks -/

theorem text_of_ofChar? {c : Char} {m : Mark} (h : Mark.ofChar? c = some m) : m.text = [c] := by
  unfold Mark.ofChar? at h
  split at h <;> cases h <;> rfl

theorem mark_of_ofChar? {c : Char} {m : Mark} {rest : List Char} (h : Mark.ofChar? c = some m)
    (hrest : c = '=' → Stops (· == '=') rest) : mark c rest = .ok ⟨.mark m, [c], rest⟩ := by
  unfold mark
  split
  · exact absurd (hrest rfl '=' (by simp)) (by simp)
  · simp [Mark.ofChar?] at h
  · simp only [h]

theorem mark_spec {c : Char} {cs : List Char} {r : Reading} (h : mark c cs = .ok r) :
    ∃ more, r.taken = c :: more ∧ cs = more ++ r.rest ∧ r.kind.Spells r.taken ∧
      ∀ after, Cut r.rest after → mark c (more ++ after) = .ok { r with rest := after } := by
  unfold mark at h
  split at h
  · cases h
    exact ⟨['='], rfl, rfl, rfl, fun _ _ => rfl⟩
  · cases h
    exact ⟨['='], rfl, rfl, rfl, fun _ _ => rfl⟩
  · next hequal _ =>
    split at h
    · next m hm =>
      cases h
      refine ⟨[], rfl, rfl, (text_of_ofChar? hm).symm, fun after hcut => ?_⟩
      refine mark_of_ofChar? hm fun hc => ?_
      have hstops : Stops (· == '=') cs := by
        intro d hd
        refine beq_eq_false_iff_ne.mpr fun heq => ?_
        obtain ⟨rest, rfl⟩ := List.head?_eq_some_iff.mp (heq ▸ hd)
        exact hequal rest hc rfl
      exact hstops.cut (by decide) hcut
    · cases h

/-! ### Any token -/

theorem first_spec {c : Char} {cs : List Char} {r : Reading} (h : first c cs = .ok r) :
    ∃ more, r.taken = c :: more ∧ cs = more ++ r.rest ∧ r.kind.Spells r.taken ∧
      ∀ after, Cut r.rest after → first c (more ++ after) = .ok { r with rest := after } := by
  have hlength := first_rest_length h
  have htaken : c :: cs = r.taken ++ r.rest →
      ∃ more, r.taken = c :: more ∧ cs = more ++ r.rest := by
    intro hsplit
    cases ht : r.taken with
    | nil =>
      rw [ht, List.nil_append] at hsplit
      rw [← hsplit, List.length_cons] at hlength
      omega
    | cons d more =>
      rw [ht, List.cons_append] at hsplit
      obtain ⟨rfl, hcs⟩ := List.cons.inj hsplit
      exact ⟨more, rfl, hcs⟩
  unfold first at h ⊢
  split at h
  · next hc =>
    cases h
    simp only [hc, if_true]
    exact ⟨[], rfl, rfl, rfl, fun _ _ => rfl⟩
  next hnewline =>
  simp only [hnewline, if_false]
  split at h
  · next hdigit =>
    obtain ⟨hsplit, hspells, hagain⟩ := number_spec hdigit h
    obtain ⟨more, hmore, hcs⟩ := htaken hsplit
    refine ⟨more, hmore, hcs, hspells, fun after hcut => ?_⟩
    rw [if_pos hdigit, ← List.cons_append, ← hmore]
    exact hagain after hcut
  next hdigit =>
  simp only [hdigit, Bool.false_eq_true, if_false]
  split at h
  · next hstart =>
    cases h
    obtain ⟨hsplit, hspells, hagain⟩ := word_spec (c :: cs)
    obtain ⟨more, hmore, hcs⟩ := htaken hsplit
    refine ⟨more, hmore, hcs, hspells, fun after hcut => ?_⟩
    rw [if_pos hstart, ← List.cons_append, ← hmore, hagain after hcut]
  · next hstart =>
    simp only [hstart, Bool.false_eq_true, if_false]
    exact mark_spec h

theorem spells_without_newline {k : TokenKind} {cs : List Char} (h : k.Spells cs)
    (hk : k ≠ .newline) : '\n' ∉ cs := by
  cases k with
  | number x =>
    obtain ⟨whole, fraction, rfl, -, hdigits, -⟩ := h
    have hnot : ∀ ds : List Char, (∀ c ∈ ds, c.isDigit = true) → '\n' ∉ ds := fun ds hds hmem =>
      absurd (hds _ hmem) (by decide)
    have hwhole := hnot whole fun c hc => hdigits c (by simp [hc])
    have hfraction := hnot fraction fun c hc => hdigits c (by simp [hc])
    unfold numeral
    split <;> simp [hwhole, hfraction]
  | identifier name =>
    intro hmem
    exact absurd (h.2 _ hmem) (by simp [isWordChar_newline])
  | builtin op =>
    obtain rfl : cs = op.symbol.toList := h
    cases op <;> decide
  | keyword k =>
    obtain rfl : cs = k.word.toList := h
    cases k <;> decide
  | mark m =>
    obtain rfl : cs = m.text := h
    cases m <;> decide
  | newline => exact absurd rfl hk
  | endOfInput =>
    obtain rfl : cs = [] := h
    simp

theorem kind_ne_endOfInput {c : Char} {cs : List Char} {r : Reading} (h : first c cs = .ok r) :
    r.kind ≠ .endOfInput := by
  obtain ⟨more, htaken, -, hspells, -⟩ := first_spec h
  intro hk
  rw [hk, htaken] at hspells
  cases hspells

end Reading

end Abacus
