import Abacus.Proofs.Derivation.Concatenation
import Abacus.Script.Nesting

/-!
What a seam does to the tokens and to the nesting.

In two sources joined by a line feed the tokens of both stand one behind the other, with a separator
in between and the tokens of the second source moved along. No parenthesis is open at the seam and
the separator stands on the last line of the first source, so the whole is nested no more deeply
than its parts, and no line breaks are dropped that neither part drops.
-/
namespace Abacus

open Scan (Point Step Steps Ended Blanks Takes ending depthAfter depthBehind)

/-! ### Lines -/

namespace Location

theorem line_moved (a b l : Location) : (moved a b l).line = b.line + (l.line - a.line) := by
  unfold moved
  split
  · next h => simp [h]
  · rfl

theorem line_after_of_notMem (l : Location) {cs : List Char} (h : '\n' ∉ cs) :
    (l.after cs).line = l.line := by
  induction cs generalizing l with
  | nil => rfl
  | cons c cs ih =>
    obtain ⟨hc, hcs⟩ := not_or.mp (List.mem_cons.not.mp h)
    rw [after_cons, ih (l.next c) hcs, next, if_neg (Ne.symm hc)]

end Location

/-- With no parenthesis open no line feed is dropped. -/
theorem Scan.Blanks.newline_notMem {inComment stop : Bool} {blanks : List Char}
    (h : Blanks 0 inComment blanks stop) : '\n' ∉ blanks := by
  induction h with
  | nil inComment => simp
  | @cons inComment next stop c cs hc _ ih =>
    have hne : c ≠ '\n' := by
      rintro rfl
      simp [Scan.dropped] at hc
    simpa using ⟨Ne.symm hne, ih⟩

/-- With no parenthesis open the next token starts on the same line. -/
theorem Scan.Step.line {l : Location} {cs : List Char} {t : Token} {q : Point}
    (h : Step ⟨0, l, cs⟩ t q) : t.start.line = l.line := by
  cases h with
  | mk l hblanks hstop hfirst => exact l.line_after_of_notMem hblanks.newline_notMem

/-! ### Nesting -/

namespace Nesting

theorem openAfter_eq (depth : Nat) (t : Token) : openAfter depth t = depthAfter depth t.kind := by
  unfold openAfter depthAfter Token.isMark
  split
  · next h => simp [eq_of_beq h]
  · split
    · next h => simp [eq_of_beq h]
    · split <;> simp_all

theorem le_deepest (depth : Nat) (ts : List Token) : depth ≤ deepest depth ts := by
  cases ts with
  | nil => exact Nat.le_refl _
  | cons t ts => exact Nat.le_max_left ..

theorem deepest_append (depth : Nat) (ts us : List Token) :
    deepest depth (ts ++ us) = max (deepest depth ts) (deepest (depthBehind depth ts) us) := by
  induction ts generalizing depth with
  | nil => exact (Nat.max_eq_right (le_deepest depth us)).symm
  | cons t ts ih =>
    rw [List.cons_append, deepest, deepest, ih, openAfter_eq, Scan.depthBehind_cons, Nat.max_assoc]

theorem deepest_relocate (g : Location → Location) (depth : Nat) (ts : List Token) :
    deepest depth (ts.map (Token.relocate g)) = deepest depth ts := by
  induction ts generalizing depth with
  | nil => rfl
  | cons t ts ih =>
    rw [List.map_cons, deepest, deepest, ih]
    rfl

theorem widestGap_steps {p s : Point} {ts : List Token} (h : Steps p ts s) (us : List Token) :
    widestGap p.location.line (ts ++ us)
      = max (widestGap p.location.line ts) (widestGap s.location.line us) := by
  induction h with
  | nil p => exact (Nat.zero_max _).symm
  | @cons p q s t ts hstep _ ih =>
    obtain ⟨-, -, -, -, hstop, -⟩ := hstep.text
    rw [List.cons_append, widestGap, widestGap, hstop, ih, Nat.max_assoc]

/-- The gaps stay as wide as they are when all tokens are moved along. -/
theorem widestGap_relocate {a b : Location} {line : Nat} (hline : a.line ≤ line) {ts : List Token}
    (hts : ∀ t ∈ ts, a.line ≤ t.stop.line) :
    widestGap (b.line + (line - a.line)) (ts.map (Token.relocate (.moved a b)))
      = widestGap line ts := by
  induction ts generalizing line with
  | nil => rfl
  | cons t ts ih =>
    obtain ⟨ht, hrest⟩ := List.forall_mem_cons.mp hts
    rw [List.map_cons, widestGap, widestGap, Token.relocate, Location.line_moved,
      Location.line_moved, ih ht hrest]
    congr 1
    omega

theorem isTooDeep_eq_false {settings : Settings} {ts : List Token} :
    isTooDeep settings ts = false
      ↔ 3 * deepest 0 ts ≤ allowance settings ∧ widestGap 1 ts ≤ allowance settings := by
  simp [isTooDeep]

end Nesting

/-! ### Joined sources -/

/-- Tokens that are moved along from a place to itself stay where they are. -/
theorem Scan.Takes.map_relocate_self {p s : Point} {ts : List Token} {text : List Char}
    (h : Takes p s ts text) :
    ts.map (Token.relocate (.moved p.location p.location)) = ts := by
  refine (List.map_congr_left fun t ht => ?_).trans ts.map_id
  obtain ⟨before, taken, -, -, hstart, hstop, -⟩ := h.stands t ht
  rw [Token.relocate, hstart, hstop, Location.moved_after, Location.moved_after, ← hstart, ← hstop]
  rfl

theorem Scan.Takes.line_le {p s : Point} {ts : List Token} {text : List Char}
    (h : Takes p s ts text) : ∀ t ∈ ts, p.location.line ≤ t.stop.line := by
  intro t ht
  obtain ⟨before, taken, -, -, -, hstop, -⟩ := h.stands t ht
  rw [hstop]
  exact Location.line_after _ _

theorem Scan.Ended.location {s : Point} {here : Location} (h : Ended s here) :
    here = s.location.after s.rest := by
  cases h with
  | mk l hblanks => rfl

section Ending

variable {p s : Point} {ts : List Token} {text : List Char} (h : Scan.Takes p s ts text)
  {here : Location} (hended : Ended s here)
include h hended

theorem Scan.Takes.location_ended : here = p.location.after (text ++ s.rest) := by
  rw [hended.location, h.location, Location.after_append]

theorem Scan.Takes.line_le_ended :
    ∀ t ∈ ts ++ [ending here], p.location.line ≤ t.stop.line := by
  refine List.forall_mem_append.mpr ⟨h.line_le, List.forall_mem_singleton.mpr ?_⟩
  rw [h.location_ended hended]
  exact Location.line_after _ _

theorem Scan.Takes.relocate_ending (l : Location) :
    (ending here).relocate (.moved p.location l) = ending (l.after (text ++ s.rest)) := by
  rw [h.location_ended hended, ← Location.moved_after p.location l]
  rfl

end Ending

namespace Derivation

/-- The tokens of the first source, a separator on its last line, and the tokens of the second
source behind it. -/
theorem steps_joined {s₁ s₂ : String} {us₁ us₂ : List Token} {t₁ t₂ : Point} {here₁ : Location}
    {text₁ text₂ : List Char} (h₁ : Takes ⟨0, .start, s₁.toList⟩ t₁ us₁ text₁)
    (hended₁ : Ended t₁ here₁) (hdepth₁ : t₁.depth = 0)
    (h₂ : Takes ⟨0, .start, s₂.toList⟩ t₂ us₂ text₂) :
    ∃ separator : Separator, separator.val.start.line = t₁.location.line ∧
      separator.val.stop.offset = (s₁ ++ "\n").toList.length ∧
      Steps ⟨0, .start, (s₁ ++ "\n" ++ s₂).toList⟩
        (us₁ ++ separator.val :: us₂.map (Token.relocate (.moved .start separator.val.stop)))
        ⟨t₂.depth, separator.val.stop.after text₂, t₂.rest⟩ := by
  have hsource₁ : s₁.toList = text₁ ++ t₁.rest := h₁.rest
  have hsource₂ : s₂.toList = text₂ ++ t₂.rest := h₂.rest
  have hlocation₁ : t₁.location = Location.start.after text₁ := h₁.location
  obtain ⟨separator, hnewline⟩ := step_newline hended₁ hdepth₁ t₁.location s₂.toList
  have hstop : separator.val.stop = t₁.location.after (t₁.rest ++ ['\n']) := by
    obtain ⟨-, -, -, -, hstop, -⟩ := hnewline.text
    exact hstop
  refine ⟨separator, hnewline.line, ?_, ?_⟩
  · rw [hstop, hlocation₁, ← Location.after_append, Location.offset_after, String.toList_append,
      hsource₁]
    simp [Location.start]
  -- the first source is read as before because a line feed follows it, the second wherever it is
  have hagain₁ := h₁.again .start _ (cut_newline t₁.rest s₂.toList)
  have hagain₂ := h₂.again separator.val.stop t₂.rest (cut_of_front (List.prefix_refl _))
  have hsource : (s₁ ++ "\n" ++ s₂).toList = text₁ ++ (t₁.rest ++ '\n' :: s₂.toList) := by
    simp [hsource₁]
  rw [h₁.map_relocate_self, hdepth₁, ← hlocation₁] at hagain₁
  rw [← hsource₂, hstop] at hagain₂
  rw [hsource, hstop]
  exact hagain₁.trans (.cons hnewline hagain₂)

/-- What the parser accepts is a list of statements that stands in the source. -/
theorem exists_statements {source : String} {ts : List Token} {p : Program}
    (hts : tokenize source = .ok ts) (h : parseTokens source ts = .ok p) :
    ∃ (d : Statements .top) (s : Point) (here : Location),
      Steps ⟨0, .start, source.toList⟩ d.tokens s ∧ Ended s here ∧ ts = d.tokens ++ [ending here] ∧
      p = ⟨d.statements source.toList, d.functions source.toList⟩ := by
  obtain ⟨d, s, here, hsteps, hended, hp⟩ := parse_eq_ok_iff.mp (parse_bind_iff.mpr ⟨ts, hts, h⟩)
  have hread := tokenize_eq_ok_iff.mpr ⟨_, s, here, hsteps, hended, rfl⟩
  exact ⟨d, s, here, hsteps, hended, Except.ok.inj (hts.symm.trans hread), hp⟩

/-- If neither part is nested too deeply, then the whole is not. -/
theorem isTooDeep_joined {us₁ us₂ : List Token} {separator : Separator} {t₁ : Point}
    {cs : List Char} {here₁ here₂ : Location} (h₁ : Steps ⟨0, .start, cs⟩ us₁ t₁)
    (hdepth₁ : t₁.depth = 0) (hline : separator.val.start.line = t₁.location.line)
    (hlines₂ : ∀ t ∈ us₂ ++ [ending here₂], Location.start.line ≤ t.stop.line) {settings : Settings}
    (hdeep₁ : Nesting.isTooDeep settings (us₁ ++ [ending here₁]) = false)
    (hdeep₂ : Nesting.isTooDeep settings (us₂ ++ [ending here₂]) = false) :
    Nesting.isTooDeep settings (us₁ ++ separator.val ::
      (us₂ ++ [ending here₂]).map (Token.relocate (.moved .start separator.val.stop))) = false := by
  have hopen : depthBehind 0 us₁ = 0 := h₁.depth.symm.trans hdepth₁
  have hseparator : depthAfter 0 separator.val.kind = 0 :=
    (balanced_separators [separator]).depth 0
  have hgap₁ : ∀ us, Nesting.widestGap 1 (us₁ ++ us)
      = max (Nesting.widestGap 1 us₁) (Nesting.widestGap t₁.location.line us) :=
    Nesting.widestGap_steps h₁
  have hgap₂ := Nesting.widestGap_relocate (b := separator.val.stop) (Nat.le_refl _) hlines₂
  rw [Nat.sub_self, Nat.add_zero] at hgap₂
  rw [Nesting.isTooDeep_eq_false, Nesting.deepest_append, hgap₁] at hdeep₁
  rw [Nesting.isTooDeep_eq_false] at hdeep₂ ⊢
  rw [Nesting.deepest_append, hgap₁, hopen, Nesting.deepest, Nesting.widestGap, hline, hgap₂,
    Nesting.openAfter_eq, hseparator, Nesting.deepest_relocate]
  have hstart : Location.start.line = 1 := rfl
  rw [hstart]
  omega

/-- The program of two sources with a line feed between them is that of the first, followed by that
of the second; and if neither part is nested too deeply, then the whole is not. -/
theorem reads_joined {s₁ s₂ : String} {ts₁ ts₂ : List Token} {p₁ p₂ : Program}
    (hts₁ : tokenize s₁ = .ok ts₁) (h₁ : parseTokens s₁ ts₁ = .ok p₁)
    (hts₂ : tokenize s₂ = .ok ts₂) (h₂ : parseTokens s₂ ts₂ = .ok p₂) :
    ∃ ts, tokenize (s₁ ++ "\n" ++ s₂) = .ok ts ∧
      parseTokens (s₁ ++ "\n" ++ s₂) ts
        = .ok ⟨p₁.statements ++ p₂.statements, p₁.functions ++ p₂.functions⟩ ∧
      ∀ settings, Nesting.isTooDeep settings ts₁ = false →
        Nesting.isTooDeep settings ts₂ = false → Nesting.isTooDeep settings ts = false := by
  obtain ⟨d₁, t₁, here₁, hsteps₁, hended₁, rfl, rfl⟩ := exists_statements hts₁ h₁
  obtain ⟨d₂, t₂, here₂, hsteps₂, hended₂, rfl, rfl⟩ := exists_statements hts₂ h₂
  obtain ⟨text₁, htakes₁⟩ := hsteps₁.text
  obtain ⟨text₂, htakes₂⟩ := hsteps₂.text
  have hdepth₁ : t₁.depth = 0 := hsteps₁.depth.trans (d₁.balanced.depth 0)
  obtain ⟨separator, hline, hoffset, hsteps⟩ := steps_joined htakes₁ hended₁ hdepth₁ htakes₂
  let l := separator.val.stop
  have hsource₁ : s₁.toList = text₁ ++ t₁.rest := htakes₁.rest
  have hsource₂ : s₂.toList = text₂ ++ t₂.rest := htakes₂.rest
  have hcarries₁ : Carries (.moved .start .start) 0 s₁.toList (s₁ ++ "\n" ++ s₂).toList
      d₁.tokens := by
    have hfront : (s₁ ++ "\n" ++ s₂).toList = text₁ ++ (t₁.rest ++ '\n' :: s₂.toList) := by
      simp [hsource₁]
    rw [hfront, hsource₁]
    exact carries_of_takes htakes₁ [] [] rfl rfl
  have hcarries₂ : Carries (.moved .start l) (l.offset - 0) s₂.toList (s₁ ++ "\n" ++ s₂).toList
      d₂.tokens := by
    rw [String.toList_append, hsource₂]
    exact carries_of_takes htakes₂ [] _ rfl hoffset
  -- the statements of both parts stand in the whole, one behind the other
  obtain ⟨d₁', hd₁', hstatements₁, hfunctions₁⟩ := d₁.exists_moved hcarries₁
  obtain ⟨d₂', hd₂', hstatements₂, hfunctions₂⟩ := d₂.exists_moved hcarries₂
  rw [htakes₁.map_relocate_self] at hd₁'
  obtain ⟨d, hd, hstatements, hfunctions⟩ :=
    d₁'.exists_append (s₁ ++ "\n" ++ s₂).toList d₂' separator
  rw [hd₁', hd₂'] at hd
  have hended := hended₂.moved (l.after text₂)
  have hwhole : tokenize (s₁ ++ "\n" ++ s₂)
      = .ok (d.tokens ++ [ending ((l.after text₂).after t₂.rest)]) :=
    tokenize_eq_ok_iff.mpr ⟨_, _, _, hd ▸ hsteps, hended, rfl⟩
  have hparsed := parse_eq_ok_iff.mpr ⟨d, _, _, hd ▸ hsteps, hended, rfl⟩
  rw [hstatements, hfunctions, hstatements₁, hfunctions₁, hstatements₂, hfunctions₂] at hparsed
  obtain ⟨ts, hts, hp⟩ := parse_bind_iff.mp hparsed
  refine ⟨ts, hts, hp, fun settings hdeep₁ hdeep₂ => ?_⟩
  obtain rfl := Except.ok.inj (hwhole.symm.trans hts)
  have hdeep := isTooDeep_joined hsteps₁ hdepth₁ hline (htakes₂.line_le_ended hended₂) hdeep₁ hdeep₂
  rw [List.map_append, List.map_singleton, htakes₂.relocate_ending hended₂,
    Location.after_append] at hdeep
  rw [hd, List.append_assoc, List.cons_append]
  exact hdeep

end Derivation

end Abacus
