import Abacus.CommandLine
import Abacus.Proofs.Run.Answers
import Abacus.Proofs.Run.Carets
import Mathlib.Data.List.TakeWhile

/-!
What the prompt makes of a script of lines.

The lines fall into groups, and there is one way to cut them: a group goes on as long as its lines
end with a backslash, and ends with the first line that does not. The prompt reads the groups one
after another, while it keeps the lines of an unfinished group in mind, and passes over those that
join to nothing. It carries out the inputs in their order until one of them leaves the prompt. Since
every input is answered, the run always comes to its end and reports success.
-/
namespace Abacus.Prompt

/-! ### Groups of lines -/

/-- The line ends with a backslash. -/
def Continues (line : String) : Prop := line.toList.getLast? = some '\\'

instance (line : String) : Decidable (Continues line) :=
  inferInstanceAs (Decidable (line.toList.getLast? = some '\\'))

/-- The line without the backslash at its end, if it has one. -/
def withoutBackslash (line : String) : String :=
  if Continues line then String.ofList line.toList.dropLast else line

/-- Continued lines and the next one, which is not. -/
def IsGroup (group : List String) : Prop :=
  ∃ continued last, group = continued ++ [last] ∧ (∀ line ∈ continued, Continues line) ∧
    ¬Continues last

/-- All lines in their order, first those of whole groups and then those of a group without an
end. -/
structure Cut (lines : List String) (groups : List (List String)) (rest : List String) : Prop where
  whole : lines = groups.flatten ++ rest
  isGroup : ∀ group ∈ groups, IsGroup group
  unfinished : ∀ line ∈ rest, Continues line

/-- The input that a group stands for. -/
def inputText (group : List String) : String := "\n".intercalate (group.map withoutBackslash)

theorem isGroup_cons {line : String} (h : Continues line) {group : List String}
    (hgroup : IsGroup group) : IsGroup (line :: group) := by
  obtain ⟨continued, last, rfl, hcontinued, hlast⟩ := hgroup
  exact ⟨line :: continued, last, rfl, List.forall_mem_cons.mpr ⟨h, hcontinued⟩, hlast⟩

theorem isGroup_singleton {line : String} (h : ¬Continues line) : IsGroup [line] :=
  ⟨[], line, rfl, by simp, h⟩

theorem exists_cut (lines : List String) : ∃ groups rest, Cut lines groups rest := by
  induction lines with
  | nil => exact ⟨[], [], rfl, by simp, by simp⟩
  | cons line lines ih =>
    obtain ⟨groups, rest, hwhole, hgroups, hrest⟩ := ih
    by_cases h : Continues line
    · -- the line goes to the front of the first group, or of the unfinished one if there is none
      cases groups with
      | nil =>
        refine ⟨[], line :: rest, ?_, by simp, List.forall_mem_cons.mpr ⟨h, hrest⟩⟩
        rw [hwhole]
        rfl
      | cons group groups =>
        obtain ⟨hgroup, hgroups⟩ := List.forall_mem_cons.mp hgroups
        refine ⟨(line :: group) :: groups, rest, ?_, ?_, hrest⟩
        · rw [hwhole]
          rfl
        · exact List.forall_mem_cons.mpr ⟨isGroup_cons h hgroup, hgroups⟩
    · refine ⟨[line] :: groups, rest, ?_, ?_, hrest⟩
      · rw [hwhole]
        rfl
      · exact List.forall_mem_cons.mpr ⟨isGroup_singleton h, hgroups⟩

/-- Where a group ends does not depend on the lines behind it. -/
theorem IsGroup.append_inj {group group' tail tail' : List String} (h : IsGroup group)
    (h' : IsGroup group') (heq : group ++ tail = group' ++ tail') :
    group = group' ∧ tail = tail' := by
  obtain ⟨continued, last, rfl, hcontinued, hlast⟩ := h
  obtain ⟨continued', last', rfl, hcontinued', hlast'⟩ := h'
  simp only [List.append_assoc, List.singleton_append] at heq
  induction continued generalizing continued' with
  | nil =>
    cases continued' with
    | nil => simpa using heq
    | cons line _ =>
      have hline : last = line := (List.cons.inj heq).1
      exact absurd (hline ▸ hcontinued' line List.mem_cons_self) hlast
  | cons line continued ih =>
    cases continued' with
    | nil =>
      have hline : line = last' := (List.cons.inj heq).1
      exact absurd (hline ▸ hcontinued line List.mem_cons_self) hlast'
    | cons line' continued' =>
      obtain ⟨rfl, hrest⟩ := List.cons.inj heq
      obtain ⟨hgroup, htail⟩ := ih (fun l hl => hcontinued l (List.mem_cons_of_mem _ hl)) continued'
        (fun l hl => hcontinued' l (List.mem_cons_of_mem _ hl)) hrest
      exact ⟨congrArg (line :: ·) hgroup, htail⟩

/-- A group does not begin with lines that are all continued. -/
theorem IsGroup.append_ne {group tail rest : List String} (h : IsGroup group)
    (hrest : ∀ line ∈ rest, Continues line) : group ++ tail ≠ rest := by
  obtain ⟨continued, last, rfl, -, hlast⟩ := h
  rintro rfl
  exact hlast (hrest last (by simp))

theorem Cut.unique {lines rest rest' : List String} {groups groups' : List (List String)}
    (h : Cut lines groups rest) (h' : Cut lines groups' rest') :
    groups = groups' ∧ rest = rest' := by
  induction groups generalizing lines groups' with
  | nil =>
    cases groups' with
    | nil => exact ⟨rfl, h.whole.symm.trans h'.whole⟩
    | cons group' groups' =>
      have hgroup' := h'.isGroup group' List.mem_cons_self
      have heq := h'.whole.symm.trans h.whole
      rw [List.flatten_cons, List.append_assoc] at heq
      exact absurd heq (hgroup'.append_ne h.unfinished)
  | cons group groups ih =>
    have hgroup := h.isGroup group List.mem_cons_self
    have heq := h.whole.symm.trans h'.whole
    rw [List.flatten_cons, List.append_assoc] at heq
    cases groups' with
    | nil => exact absurd heq (hgroup.append_ne h'.unfinished)
    | cons group' groups' =>
      rw [List.flatten_cons, List.append_assoc] at heq
      obtain ⟨rfl, htail⟩ := hgroup.append_inj (h'.isGroup group' List.mem_cons_self) heq
      have hcut : Cut (groups.flatten ++ rest) groups rest :=
        ⟨rfl, fun g hg => h.isGroup g (List.mem_cons_of_mem _ hg), h.unfinished⟩
      have hcut' : Cut (groups.flatten ++ rest) groups' rest' :=
        ⟨htail, fun g hg => h'.isGroup g (List.mem_cons_of_mem _ hg), h'.unfinished⟩
      obtain ⟨rfl, rfl⟩ := ih hcut hcut'
      exact ⟨rfl, rfl⟩

/-! ### Reading the groups -/

theorem bareLine_eq {line : String} (h : '\n' ∉ line.toList) : bareLine line = line.toList := by
  have hkept : line.toList.reverse.dropWhile (· == '\n') = line.toList.reverse := by
    rw [List.dropWhile_eq_self_iff]
    intro hpos hbreak
    refine h (List.mem_reverse.mp ?_)
    rw [← beq_iff_eq.mp hbreak]
    exact List.getElem_mem hpos
  rw [bareLine, hkept, List.reverse_reverse]

theorem continued?_toList (line : String) :
    continued? line.toList
      = if Continues line then some (withoutBackslash line).toList else none := by
  have hlast : Continues line ↔ line.toList.reverse.head? = some '\\' := by
    rw [Continues, List.getLast?_eq_head?_reverse]
  unfold continued?
  split
  · next rest hrest =>
    have hline : line.toList = rest.reverse ++ ['\\'] := by
      rw [← List.reverse_cons, ← hrest, List.reverse_reverse]
    have h : Continues line := by rw [hlast, hrest]; rfl
    rw [if_pos h, withoutBackslash, if_pos h, String.toList_ofList, hline, List.dropLast_concat]
  · next hrest =>
    have h : ¬Continues line := by
      rw [hlast, List.head?_eq_some_iff]
      rintro ⟨rest, hrev⟩
      exact hrest rest hrev
    rw [if_neg h]

theorem joinLines_toList (parts : List String) :
    joinLines (parts.map String.toList) = "\n".intercalate parts := by
  rw [← String.toList_inj, joinLines, String.toList_ofList, String.toList_intercalate]
  rfl

theorem nextInput_continued {line : String} (hfree : '\n' ∉ line.toList) (h : Continues line)
    (pending : List (List Char)) (rest : List String) :
    nextInput pending (line :: rest)
      = nextInput ((withoutBackslash line).toList :: pending) rest := by
  rw [nextInput, bareLine_eq hfree, continued?_toList, if_pos h]

theorem nextInput_last {line : String} (hfree : '\n' ∉ line.toList) (h : ¬Continues line)
    (pending : List (List Char)) (rest : List String) :
    nextInput pending (line :: rest)
      = if joinLines ((withoutBackslash line).toList :: pending).reverse = "" then nextInput [] rest
        else some (joinLines ((withoutBackslash line).toList :: pending).reverse, rest) := by
  rw [nextInput, bareLine_eq hfree, continued?_toList, if_neg h, withoutBackslash, if_neg h]
  simp only [String.isEmpty_iff]

/-- Lines that are pending come before those of the group that is read. -/
theorem nextInput_append {continued : List String} {last : String}
    (hcontinued : ∀ line ∈ continued, Continues line) (hlast : ¬Continues last)
    (hfree : ∀ line ∈ continued ++ [last], '\n' ∉ line.toList) (pending rest : List String) :
    nextInput ((pending.map withoutBackslash).reverse.map String.toList)
        (continued ++ [last] ++ rest)
      = if inputText (pending ++ (continued ++ [last])) = "" then nextInput [] rest
        else some (inputText (pending ++ (continued ++ [last])), rest) := by
  induction continued generalizing pending with
  | nil =>
    have hjoin : joinLines ((withoutBackslash last).toList ::
        (pending.map withoutBackslash).reverse.map String.toList).reverse
          = inputText (pending ++ [last]) := by
      rw [← List.map_cons, ← List.map_reverse, List.reverse_cons, List.reverse_reverse,
        joinLines_toList, inputText, List.map_append, List.map_singleton]
    have hread := nextInput_last (hfree last (by simp)) hlast
      ((pending.map withoutBackslash).reverse.map String.toList) rest
    rwa [hjoin] at hread
  | cons line continued ih =>
    obtain ⟨hline, hcontinued⟩ := List.forall_mem_cons.mp hcontinued
    obtain ⟨hlinefree, hfree⟩ := List.forall_mem_cons.mp hfree
    -- the line is moved from the group to the pending ones
    have hread := ih hcontinued hfree (pending ++ [line])
    rw [List.map_append, List.map_singleton, List.reverse_concat, List.map_cons,
      ← nextInput_continued hlinefree hline, List.append_assoc pending [line]] at hread
    exact hread

/-- Lines that are all continued hold no input. -/
theorem nextInput_unfinished {rest : List String} (hrest : ∀ line ∈ rest, Continues line)
    (hfree : ∀ line ∈ rest, '\n' ∉ line.toList) (pending : List (List Char)) :
    nextInput pending rest = none := by
  induction rest generalizing pending with
  | nil => rfl
  | cons line rest ih =>
    obtain ⟨hline, hrest⟩ := List.forall_mem_cons.mp hrest
    obtain ⟨hlinefree, hfree⟩ := List.forall_mem_cons.mp hfree
    rw [nextInput_continued hlinefree hline]
    exact ih hrest hfree _

theorem inputs_of_none {lines : List String} (h : nextInput [] lines = none) :
    inputs lines = [] := by
  unfold inputs
  split
  · rfl
  · next hsome => simp [h] at hsome

theorem inputs_of_some {lines rest : List String} {text : String}
    (h : nextInput [] lines = some (text, rest)) : inputs lines = text :: inputs rest := by
  rw [inputs]
  split
  · next hnone => simp [h] at hnone
  · next hsome =>
    rw [h] at hsome
    cases hsome
    rfl

theorem inputs_congr {lines lines' : List String} (h : nextInput [] lines = nextInput [] lines') :
    inputs lines = inputs lines' := by
  cases hnext : nextInput [] lines' with
  | none => rw [inputs_of_none hnext, inputs_of_none (h.trans hnext)]
  | some next => rw [inputs_of_some hnext, inputs_of_some (h.trans hnext)]

theorem inputs_append {group : List String} (hgroup : IsGroup group)
    (hfree : ∀ line ∈ group, '\n' ∉ line.toList) (rest : List String) :
    inputs (group ++ rest)
      = if inputText group = "" then inputs rest else inputText group :: inputs rest := by
  obtain ⟨continued, last, rfl, hcontinued, hlast⟩ := hgroup
  have hread := nextInput_append hcontinued hlast hfree [] rest
  rw [List.nil_append] at hread
  split
  · next hempty =>
    rw [if_pos hempty] at hread
    exact inputs_congr hread
  · next hempty =>
    rw [if_neg hempty] at hread
    exact inputs_of_some hread

/-- The inputs are those that the groups stand for, less the empty ones. -/
theorem Cut.inputs_eq {lines rest : List String} {groups : List (List String)}
    (h : Cut lines groups rest) (hfree : ∀ line ∈ lines, '\n' ∉ line.toList) :
    inputs lines = (groups.map inputText).filter (· ≠ "") := by
  obtain ⟨rfl, hgroups, hrest⟩ := h
  induction groups with
  | nil => exact inputs_of_none (nextInput_unfinished hrest hfree [])
  | cons group groups ih =>
    obtain ⟨hgroup, hgroups⟩ := List.forall_mem_cons.mp hgroups
    rw [List.flatten_cons, List.append_assoc] at hfree ⊢
    obtain ⟨hgroupfree, hfree⟩ := List.forall_mem_append.mp hfree
    rw [inputs_append hgroup hgroupfree, ih hgroups hfree, List.map_cons, List.filter_cons]
    by_cases hempty : inputText group = ""
    · simp [hempty]
    · simp [hempty]

/-! ### Carrying out the inputs -/

/-- The words that leave the prompt. -/
def quits (text : String) : Bool := ["q", "Q", "exit"].contains text

/-- What an input does that does not leave the prompt: the text that it prints, the events, and the
session behind it. -/
inductive Effect (env : Environment) : String → String → List Event → Environment → Prop
  | reset : Effect env "reset" "" [.reset] env.reset
  | clear : Effect env "clear" clearText [] env
  | process {text answer : String} (hreset : text ≠ "reset") (hclear : text ≠ "clear")
      (hanswer : (Session.process env text).text = .ok answer) :
      Effect env text (if answer = "" then "" else answer ++ "\n")
        (Session.process env text).events (Session.process env text).environment

/-- What inputs do one after another, each in the session that the one before it left. -/
inductive Performs : Environment → List String → String → List Event → Environment → Prop
  | nil (env : Environment) : Performs env [] "" [] env
  | cons {env next final : Environment} {text out out' : String} {texts : List String}
      {events events' : List Event} (heffect : Effect env text out events next)
      (hrest : Performs next texts out' events' final) :
      Performs env (text :: texts) (out ++ out') (events ++ events') final

theorem quits_iff (text : String) :
    quits text = true ↔ text = "q" ∨ text = "Q" ∨ text = "exit" := by
  simp [quits]

theorem step_of_quits {text : String} (h : quits text = true) (env : Environment) :
    step env text = ⟨.ok "", env, [], false⟩ := by
  rw [step, command, if_pos ((quits_iff text).mp h)]

theorem Effect.step_eq {env next : Environment} {text out : String} {events : List Event}
    (h : Effect env text out events next) (hquits : quits text = false) :
    step env text = ⟨.ok out, next, events, true⟩ := by
  have hstays : ¬(text = "q" ∨ text = "Q" ∨ text = "exit") := by
    rw [← quits_iff, hquits]
    simp
  cases h with
  | reset => rfl
  | clear => rfl
  | process hreset hclear hanswer =>
    simp only [step, command, if_neg hstays, if_neg hclear, if_neg hreset, hanswer, Except.map,
      answerText, String.isEmpty_iff]

/-- Every input that does not leave the prompt has an effect, and the session goes on from a state
that it can come to. -/
theorem exists_effect {settings : Settings} {env : Environment}
    (h : Session.Reachable settings env) (text : String) :
    ∃ out events next, Effect env text out events next ∧ Session.Reachable settings next := by
  by_cases hreset : text = "reset"
  · subst hreset
    exact ⟨_, _, _, .reset, h.reset⟩
  by_cases hclear : text = "clear"
  · subst hclear
    exact ⟨_, _, _, .clear, h⟩
  obtain ⟨-, answer, hanswer, -⟩ := Session.process_answers h.sound text
  exact ⟨_, _, _, .process hreset hclear hanswer, h.process text⟩

theorem exists_performs {settings : Settings} {env : Environment}
    (h : Session.Reachable settings env) (texts : List String) :
    ∃ out events final, Performs env texts out events final := by
  induction texts generalizing env with
  | nil => exact ⟨_, _, _, .nil env⟩
  | cons text texts ih =>
    obtain ⟨out, events, next, heffect, hnext⟩ := exists_effect h text
    obtain ⟨out', events', final, hrest⟩ := ih hnext
    exact ⟨_, _, _, .cons heffect hrest⟩

theorem carryOut_of_quits {text : String} (h : quits text = true) (env : Environment)
    (rest : List String) : carryOut env (text :: rest) = ⟨.ok "", env, []⟩ := by
  simp [carryOut, step_of_quits h]

/-- Inputs that do not leave the prompt are carried out before those behind them. -/
theorem Performs.carryOut_append {env final : Environment} {texts : List String} {out : String}
    {events : List Event} (h : Performs env texts out events final)
    (hstay : ∀ text ∈ texts, quits text = false) (rest : List String) :
    carryOut env (texts ++ rest)
      = ⟨(carryOut final rest).printed.map (out ++ ·), (carryOut final rest).environment,
          events ++ (carryOut final rest).events⟩ := by
  induction h with
  | nil env =>
    have hsame : (carryOut env rest).printed.map ("" ++ ·) = (carryOut env rest).printed := by
      cases (carryOut env rest).printed <;> simp [Except.map]
    rw [hsame]
    rfl
  | @cons env next final text out out' texts events events' heffect _ ih =>
    obtain ⟨hquits, hstay⟩ := List.forall_mem_cons.mp hstay
    have htwice : ((carryOut final rest).printed.map (out' ++ ·)).map (out ++ ·)
        = (carryOut final rest).printed.map (out ++ out' ++ ·) := by
      cases (carryOut final rest).printed <;> simp [Except.map, String.append_assoc]
    rw [List.cons_append, carryOut, heffect.step_eq hquits]
    simp only [if_true, ih hstay, htwice, List.append_assoc]

/-- Once the inputs before the first one that leaves the prompt are carried out, the run is at its
end. If there is none that does, a line feed is printed there. -/
theorem Performs.carryOut_eq {env final : Environment} {texts : List String} {out : String}
    {events : List Event} (h : Performs env (texts.takeWhile (!quits ·)) out events final) :
    carryOut env texts = ⟨.ok (out ++ if texts.any quits then "" else "\n"), final, events⟩ := by
  have hstay : ∀ text ∈ texts.takeWhile (!quits ·), quits text = false := by
    intro text htext
    simpa using List.mem_takeWhile_imp htext
  have hwhole := h.carryOut_append hstay (texts.dropWhile (!quits ·))
  rw [List.takeWhile_append_dropWhile] at hwhole
  rw [hwhole]
  -- what is left is nothing, or begins with an input that leaves the prompt
  cases hrest : texts.dropWhile (!quits ·) with
  | nil =>
    have hnone : texts.any quits = false := by
      rw [List.any_eq_false]
      intro text htext
      simpa using List.dropWhile_eq_nil_iff.mp hrest text htext
    simp [carryOut, hnone, Except.map]
  | cons text rest =>
    have hquits : quits text = true := by
      have hne : texts.dropWhile (!quits ·) ≠ [] := by simp [hrest]
      simpa [hrest] using List.head_dropWhile_not (!quits ·) hne
    have hsome : texts.any quits = true := by
      refine List.any_eq_true.mpr ⟨text, ?_, hquits⟩
      exact (List.dropWhile_sublist _).subset (hrest ▸ List.mem_cons_self)
    simp [carryOut_of_quits hquits, hsome, Except.map]

/-- A run of the prompt carries out the script group by group. There is one cut of the lines into
groups. The inputs that the groups stand for, less the empty ones, are carried out in their order
until one leaves the prompt; each of them has an effect, which leads from one session to the next,
and nothing else is printed than the banner and, if the lines come to their end, a line feed. The
run reports success. -/
theorem script_runs_group_by_group {settings : Settings} {env : Environment}
    (h : Session.Reachable settings env) {lines : List String}
    (hfree : ∀ line ∈ lines, '\n' ∉ line.toList) :
    (∃! cut : List (List String) × List String, Cut lines cut.1 cut.2) ∧
      ∀ groups rest, Cut lines groups rest →
        let texts := (groups.map inputText).filter (· ≠ "")
        (∃ out events final, Performs env (texts.takeWhile (!quits ·)) out events final) ∧
          ∀ out events final, Performs env (texts.takeWhile (!quits ·)) out events final →
            let printed := banner ++ "\n" ++ (out ++ if texts.any quits then "" else "\n")
            run env lines = ⟨.ok printed, final, events⟩ ∧
              ∀ verbose,
                CommandLine.finished verbose (run env lines).printed (run env lines).events
                  = ⟨0, printed, CommandLine.logText verbose events⟩ := by
  refine ⟨?_, ?_⟩
  · obtain ⟨groups, rest, hcut⟩ := exists_cut lines
    refine ⟨(groups, rest), hcut, ?_⟩
    rintro ⟨groups', rest'⟩ hcut'
    obtain ⟨rfl, rfl⟩ := hcut.unique hcut'
    rfl
  · intro groups rest hcut texts
    refine ⟨exists_performs h _, ?_⟩
    intro out events final hperforms printed
    have hrun : run env lines = ⟨.ok printed, final, events⟩ := by
      rw [run, hcut.inputs_eq hfree, hperforms.carryOut_eq]
      rfl
    refine ⟨hrun, ?_⟩
    intro verbose
    rw [hrun]
    rfl

/-- An empty line is passed over, a continued input is answered, and nothing behind the word that
leaves the prompt is carried out. -/
theorem script_runs_group_by_group_until_quit :
    let lines := ["clear", "", "(pi ==\\", "pi)", "reset", "Q", "pi", "\\"]
    let groups := [["clear"], [""], ["(pi ==\\", "pi)"], ["reset"], ["Q"], ["pi"]]
    Session.Reachable {} {} ∧ (∀ line ∈ lines, '\n' ∉ line.toList) ∧ Cut lines groups ["\\"] ∧
      (run {} lines).printed = .ok (banner ++ "\n" ++ (clearText ++ "1\n")) := by
  intro lines groups
  have hfree : ∀ line ∈ lines, '\n' ∉ line.toList := by decide
  have hcut : Cut lines groups ["\\"] := by
    refine ⟨rfl, ?_, by decide⟩
    simp only [groups, List.forall_mem_cons]
    exact ⟨isGroup_singleton (by decide), isGroup_singleton (by decide),
      isGroup_cons (by decide) (isGroup_singleton (by decide)), isGroup_singleton (by decide),
      isGroup_singleton (by decide), isGroup_singleton (by decide), by simp⟩
  have htexts : (groups.map inputText).filter (· ≠ "")
      = ["clear", "(pi ==\npi)", "reset", "Q", "pi"] := by decide +kernel
  have hanswer : (Session.process {} "(pi ==\npi)").text = .ok "1" := by
    let number : Decimal := ⟨false, 3141592653589793238462643383, -27⟩
    let p : Program := ⟨[.expression ⟨"(pi ==\npi)",
      [.number 1 number, .number 7 number, .operator 4 .equal]⟩], []⟩
    have hp : parse "(pi ==\npi)" = .ok p := by cbv
    obtain ⟨ts, hts, hparsed⟩ := Derivation.parse_bind_iff.mp hp
    have hdeep : Nesting.isTooDeep {} ts = false := by
      have hall : ((tokenize "(pi ==\npi)").map (Nesting.isTooDeep {})).toOption = some false := by
        decide +kernel
      simpa [hts, Except.map, Except.toOption] using hall
    have hran : Session.ran {} p = ⟨.ok (.finished (some (.ofNat 1))), {}, "", []⟩ := by cbv
    have hone : Decimal.display? 6 (.ofNat 1) = some "1" := by decide +kernel
    rw [Session.process_eq_execute hts hdeep hparsed, Session.execute_text_of_ok (by rw [hran]),
      hran]
    show Session.format {} (.ofNat 1) = .ok "1"
    rw [Session.format, show (Settings.displayPlaces {} : Int) = 6 from rfl, hone]
  have hclear : Effect {} "clear" clearText [] {} := .clear
  have hperforms := Performs.cons hclear
    (.cons (.process (by decide) (by decide) hanswer) (.cons .reset (.nil _)))
  have hfresh : Session.Reachable {} {} := .fresh
  obtain ⟨-, hcuts⟩ := script_runs_group_by_group hfresh hfree
  obtain ⟨-, hperformed⟩ := hcuts groups _ hcut
  rw [htexts] at hperformed
  obtain ⟨hrun, -⟩ := hperformed _ _ _ hperforms
  refine ⟨hfresh, hfree, hcut, ?_⟩
  rw [hrun]
  rfl

end Abacus.Prompt
