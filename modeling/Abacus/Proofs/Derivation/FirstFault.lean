import Abacus.Proofs.Derivation.Viability
import Abacus.Proofs.Script.Faults

/-!
Errors of the front end point at the first fault.

A source that is not parsed has a place where it goes wrong for the first time. If it cannot be
split into tokens, this is where the scan cannot go on; else it is the first token that no script
goes on with. The diagnostic points at this place in its line.
-/
namespace Abacus.Derivation

/-- The first of the tokens that no script goes on with starts at the offset `o`. -/
def BreaksAt (ts : List Token) (o : Nat) : Prop :=
  ∃ before t after, ts = before ++ t :: after ∧ t.start.offset = o ∧ Viable before ∧
    ¬ Viable (before ++ [t])

/-- Tokens that are not parsed break off somewhere, and the diagnostic is of that place. -/
theorem parseTokens_error {source : String} {ts : List Token} (hts : tokenize source = .ok ts)
    {d : Diagnostic} (h : parseTokens source ts = .error d) :
    ∃ front rest, source.toList = front ++ rest ∧ BreaksAt ts front.length ∧
      d = Scan.faultAt source.toList (Location.start.after front) .malformed := by
  obtain ⟨us, s, here, hsteps, -, rfl⟩ := tokenize_eq_ok_iff.mp hts
  unfold parseTokens at h
  simp only at h
  split at h
  · cases h
  next e herror =>
    cases h
    have hproper : ∀ t ∈ us, Grammar.Proper t := fun t ht =>
      proper_of_sound (tokenize_sound hts t (by simp [ht]))
    obtain ⟨before, t, after, rfl, hsplit, hviable, hnot⟩ :=
      program_fails_at_first hproper hsteps.not_isEnd rfl herror
    obtain ⟨front, gap, taken, rest, hplaced⟩ := exists_placed hts hsplit
    refine ⟨front ++ gap, taken ++ rest, ?_, ⟨before, t, after, hsplit, ?_, hviable, hnot⟩, ?_⟩
    · rw [hplaced.split, List.append_assoc]
    · rw [hplaced.start_offset, List.length_append]
    · rw [Parse.placeOf, hplaced.start]

/-- A place of the source where it goes wrong, and the diagnostic of that place. -/
theorem exists_fault_of_parse {source : String} {d : Diagnostic} (h : parse source = .error d) :
    ∃ front rest kind, source.toList = front ++ rest ∧
      d = Scan.faultAt source.toList (Location.start.after front) kind ∧
      match tokenize source with
      | .error _ => Scan.StopsAt source.toList front.length kind
      | .ok ts => kind = .malformed ∧ BreaksAt ts front.length := by
  unfold parse at h
  cases hts : tokenize source with
  | error e =>
    rw [hts] at h
    cases h
    obtain ⟨front, rest, kind, hsplit, hstops, hd⟩ := tokenize_error hts
    exact ⟨front, rest, kind, hsplit, hd, hstops⟩
  | ok ts =>
    rw [hts] at h
    obtain ⟨front, rest, hsplit, hbreaks, hd⟩ := parseTokens_error hts h
    exact ⟨front, rest, .malformed, hsplit, hd, rfl, hbreaks⟩

/-- The diagnostic of a source that is not parsed points at its first fault: where no token starts
or a number is too large, or else at the first token that no script goes on with. Its position
counts from the last line feed before the fault, and if line feeds are the only line breaks, its
context is the line of the fault. -/
theorem errors_point_at_first_fault {source : String} {d : Diagnostic}
    (h : parse source = .error d) :
    ∃ o, o ≤ source.toList.length ∧
      d.position = ((source.toList.take o).rtakeWhile (· ≠ '\n')).length ∧
      (match tokenize source with
        | .error _ => Scan.StopsAt source.toList o d.kind
        | .ok ts => d.kind = .malformed ∧ BreaksAt ts o) ∧
      (Text.PlainLines source.toList →
        d.context.toList = (source.toList.take o).rtakeWhile (· ≠ '\n')
          ++ (source.toList.drop o).takeWhile (· ≠ '\n') ∧
        d.position ≤ d.context.length) := by
  obtain ⟨front, rest, kind, hsplit, rfl, hfault⟩ := exists_fault_of_parse h
  have htake : source.toList.take front.length = front := by rw [hsplit, List.take_left]
  have hdrop : source.toList.drop front.length = rest := by rw [hsplit, List.drop_left]
  have hposition := Scan.faultAt_position source.toList front kind
  refine ⟨front.length, by simp [hsplit], by rw [htake, hposition], hfault, fun hplain => ?_⟩
  rw [htake, hdrop, hposition]
  rw [hsplit] at hplain ⊢
  rw [Scan.faultAt_context hplain]
  refine ⟨String.toList_ofList, ?_⟩
  rw [String.length_ofList, List.length_append]
  omega

/-- A semicolon behind the block of a branch ends it, so that no `else` may follow in the next
line. -/
theorem errors_point_at_first_fault_behind_semicolon :
    let source := "x = (1 # (\n)\nif x \x7b y\n\x7d;\n  else \x7b\x7d"
    let d : Diagnostic := ⟨"  else \x7b\x7d", 2, .malformed⟩
    parse source = .error d ∧ ∃ o ts, tokenize source = .ok ts ∧ BreaksAt ts o ∧
      d.position = ((source.toList.take o).rtakeWhile (· ≠ '\n')).length ∧
      d.context.toList = (source.toList.take o).rtakeWhile (· ≠ '\n')
        ++ (source.toList.drop o).takeWhile (· ≠ '\n') := by
  intro source d
  have hparse : parse source = .error d := by
    have hshown : (match parse source with
        | .error e => decide (e = d)
        | .ok _ => false) = true := by decide +kernel
    split at hshown
    · next e he => rw [he, of_decide_eq_true hshown]
    · cases hshown
  have htokens : (tokenize source).isOk = true := by decide +kernel
  obtain ⟨o, -, hposition, hfault, hcontext⟩ := errors_point_at_first_fault hparse
  refine ⟨hparse, o, ?_⟩
  cases hts : tokenize source with
  | error e =>
    rw [hts] at htokens
    cases htokens
  | ok ts =>
    rw [hts] at hfault
    have hbreaks : source.toList.all (fun c => !Text.isLineBreak c || c == '\n') = true := by
      decide +kernel
    have hplain : Text.PlainLines source.toList := fun c hc hbreak => by
      simpa [hbreak] using List.all_eq_true.mp hbreaks c hc
    exact ⟨ts, rfl, hfault.2, hposition, (hcontext hplain).1⟩

end Abacus.Derivation
