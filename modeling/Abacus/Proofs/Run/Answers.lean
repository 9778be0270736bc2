import Abacus.Proofs.Run.Frames
import Abacus.Proofs.Run.Safety

/-!
Every input is answered.

A session only ever holds functions that the parser has returned and values that fit the
calculator's format. So no input can bring about a defect, whatever inputs and resets came before
it: it is answered with what its statements printed, with a value, or with a diagnostic.
-/
namespace Abacus

open Format (calculator)

namespace Environment

/-- Functions come from the parser and variables fit the calculator's format. -/
structure Sound (env : Environment) : Prop where
  functions : env.functions.All Function.Sound
  store : env.store.InRange

theorem Sound.defineAll {env : Environment} (h : env.Sound) {fs : List Function}
    (hfs : ∀ f ∈ fs, f.Sound) : (env.defineAll fs).1.Sound := by
  induction fs generalizing env with
  | nil => exact h
  | cons f rest ih =>
    obtain ⟨hf, hrest⟩ := List.forall_mem_cons.mp hfs
    have hdefined : (env.define f).Sound := ⟨h.functions.put f.name hf, h.store⟩
    exact ih hdefined hrest

/-- A safe computation keeps the environment sound and does not end in a defect. -/
theorem Sound.run {env : Environment} (h : env.Sound) {α : Type} {m : Rules → Nat → Run α}
    {holds : α → Prop} (hm : Run.Safe (m env.rules env.depth) holds) :
    (env.run m).environment.Sound ∧
      ((∃ a, (env.run m).result = .ok a ∧ holds a) ∨
        ∃ e, (env.run m).result = .error e ∧ ∀ d, e ≠ .defect d) := by
  have hrun := hm { store := env.store } h.store
  rw [rules] at hrun
  simp only [Environment.run, EStateM.run]
  cases hr : m ⟨env.settings, env.functions⟩ env.depth { store := env.store } with
  | ok a s =>
    rw [hr] at hrun
    exact ⟨⟨h.functions, hrun.1⟩, .inl ⟨a, rfl, hrun.2⟩⟩
  | error e s =>
    rw [hr] at hrun
    exact ⟨⟨h.functions, hrun.1⟩, .inr ⟨e, rfl, hrun.2⟩⟩

end Environment

/-- The value that statements ended with. -/
def Ending.value? : Ending → Option Decimal
  | finished last => last
  | returned x => some x
  | broke last => last

namespace Session

/-- The input is not nested too deeply and is read as the program `p`. -/
def Accepts (env : Environment) (source : String) (p : Program) : Prop :=
  ∃ ts, tokenize source = .ok ts ∧ Nesting.isTooDeep env.settings ts = false ∧
    parseTokens source ts = .ok p

/-- What an input is answered with: the diagnostic that scanning, reading or running it gave, or, if
its statements run to an end, what they printed, the value they ended with, or that value behind
what was printed. -/
inductive Answer (env : Environment) (source : String) : String → Prop
  | unscanned {d : Diagnostic} (h : tokenize source = .error d) : Answer env source d.render
  | nestedTooDeeply {ts : List Token} (hts : tokenize source = .ok ts)
      (hdeep : Nesting.isTooDeep env.settings ts = true) :
      Answer env source Diagnostic.ofLimit.render
  | unread {ts : List Token} {d : Diagnostic} (hts : tokenize source = .ok ts)
      (hdeep : Nesting.isTooDeep env.settings ts = false) (h : parseTokens source ts = .error d) :
      Answer env source d.render
  | diagnosed {p : Program} {d : Diagnostic} (hp : Accepts env source p)
      (hran : (ran env p).result = .error (.diagnosed d)) : Answer env source d.render
  | limited {p : Program} (hp : Accepts env source p) (hran : (ran env p).result = .error .limit) :
      Answer env source Diagnostic.ofLimit.render
  | printed {p : Program} {ending : Ending} (hp : Accepts env source p)
      (hran : (ran env p).result = .ok ending)
      (hending : ending.value? = none ∨
        ∃ last, ending = .finished last ∧ (ran env p).out.isEmpty = false) :
      Answer env source (dropLastBreak (ran env p).out)
  | value {p : Program} {ending : Ending} {x : Decimal} {text : String}
      (hp : Accepts env source p) (hran : (ran env p).result = .ok ending)
      (hending : ending = .returned x ∨
        ending = .finished (some x) ∧ (ran env p).out.isEmpty = true)
      (htext : x.display? env.settings.displayPlaces = some text) :
      Answer env source text
  | printedValue {p : Program} {x : Decimal} {text : String} (hp : Accepts env source p)
      (hran : (ran env p).result = .ok (.broke (some x)))
      (htext : x.display? env.settings.displayPlaces = some text) :
      Answer env source (dropLastBreak ((ran env p).out ++ text))

theorem sound_ran {env : Environment} (henv : env.Sound) {p : Program} (hp : p.Sound) :
    (ran env p).environment.Sound ∧
      ((∃ ending, (ran env p).result = .ok ending ∧ ending.InRange) ∨
        ∃ e, (ran env p).result = .error e ∧ ∀ d, e ≠ .defect d) := by
  have hdefined := henv.defineAll hp.functions
  have hfunctions : (env.defineAll p.functions).1.rules.functions.All Function.Sound :=
    hdefined.functions
  exact hdefined.run (Run.statements_safe (Run.safeCallees hfunctions _) (by simp) hp.statements)

theorem format_of_fits (env : Environment) {x : Decimal} (hx : calculator.Fits x) :
    ∃ text, x.display? env.settings.displayPlaces = some text ∧ format env x = .ok text := by
  obtain ⟨text, htext⟩ := Decimal.display?_of_fits hx env.settings.displayPlaces
  exact ⟨text, htext, by rw [format, htext]⟩

/-- However the statements of an input ended, there is a text to show. -/
theorem conclude_answers {env : Environment} {source : String} {p : Program}
    (hp : Accepts env source p) {ending : Ending} (hran : (ran env p).result = .ok ending)
    (hending : ending.InRange) :
    ∃ text, conclude (ran env p).environment (ran env p).out ending = .ok text ∧
      Answer env source text := by
  have hvalue : ∀ x, calculator.Fits x → ∃ text,
      x.display? env.settings.displayPlaces = some text ∧
        format (ran env p).environment x = .ok text := by
    intro x hx
    rw [← ran_settings env p]
    exact format_of_fits _ hx
  cases ending with
  | returned x =>
    obtain ⟨text, hx, htext⟩ := hvalue x hending
    exact ⟨text, htext, .value hp hran (.inl rfl) hx⟩
  | broke last =>
    cases last with
    | none =>
      refine ⟨_, rfl, ?_⟩
      rw [String.append_empty]
      exact .printed hp hran (.inl rfl)
    | some x =>
      obtain ⟨text, hx, htext⟩ := hvalue x (hending x rfl)
      refine ⟨dropLastBreak ((ran env p).out ++ text), ?_, .printedValue hp hran hx⟩
      rw [conclude, formatLast, htext]
      rfl
  | finished last =>
    rw [conclude]
    split
    · next hout =>
      cases last with
      | none =>
        have hempty : dropLastBreak (ran env p).out = "" := by
          rw [String.isEmpty_iff.mp hout]
          rfl
        refine ⟨"", rfl, ?_⟩
        rw [← hempty]
        exact .printed hp hran (.inl rfl)
      | some x =>
        obtain ⟨text, hx, htext⟩ := hvalue x (hending x rfl)
        exact ⟨text, htext, .value hp hran (.inr ⟨rfl, hout⟩) hx⟩
    · next hout =>
      exact ⟨_, rfl, .printed hp hran (.inr ⟨last, rfl, Bool.eq_false_iff.mpr hout⟩)⟩

theorem execute_answers {env : Environment} (henv : env.Sound) {source : String} {p : Program}
    (hp : Accepts env source p) (hsound : p.Sound) :
    (execute env p).environment.Sound ∧
      ∃ text, (execute env p).text = .ok text ∧ Answer env source text := by
  obtain ⟨hran, hresult⟩ := sound_ran henv hsound
  refine ⟨by rwa [execute_environment], ?_⟩
  rcases hresult with ⟨ending, hr, hending⟩ | ⟨e, hr, he⟩
  · rw [execute_text_of_ok hr]
    exact conclude_answers hp hr hending
  · cases e with
    | diagnosed d => exact ⟨d.render, execute_text_of_error hr, .diagnosed hp hr⟩
    | limit => exact ⟨_, execute_text_of_error hr, .limited hp hr⟩
    | defect d => exact absurd rfl (he d)

theorem process_answers {env : Environment} (henv : env.Sound) (source : String) :
    (process env source).environment.Sound ∧
      ∃ text, (process env source).text = .ok text ∧ Answer env source text := by
  unfold process
  split
  · next d hts => exact ⟨henv, d.render, rfl, .unscanned hts⟩
  next ts hts =>
    split
    · next hdeep => exact ⟨henv, _, rfl, .nestedTooDeeply hts hdeep⟩
    next hdeep =>
      have hshallow := Bool.eq_false_iff.mpr hdeep
      split
      · next d hparsed => exact ⟨henv, d.render, rfl, .unread hts hshallow hparsed⟩
      · next p hparsed =>
        have hp : Accepts env source p := ⟨ts, hts, hshallow, hparsed⟩
        exact execute_answers henv hp (parseTokens_sound (tokenize_sound hts) hparsed)

theorem Reachable.sound {settings : Settings} {env : Environment} (h : Reachable settings env) :
    env.Sound := by
  have hempty : ∀ settings : Settings, Environment.Sound { settings := settings } := by
    intro settings
    exact ⟨by simp [Table.All], by simp [Table.All], by simp⟩
  induction h with
  | fresh => exact hempty settings
  | process _ source ih => exact (process_answers ih source).1
  | @reset env _ ih => exact hempty env.settings

/-- In every state that a session can come to, every input is answered with a text: there are no
defects. -/
theorem every_input_is_answered {settings : Settings} {env : Environment}
    (h : Reachable settings env) (source : String) :
    ∃ text, (process env source).text = .ok text ∧ Answer env source text :=
  (process_answers h.sound source).2

theorem every_input_is_answered_after_error :
    let env := (process { settings := {} } "fn f(x) \x7b x = x / 0 \x7d f(1)").environment
    Reachable {} env ∧
      ∃ text, (process env "print f(2 ^ -3)").text = .ok text ∧
        Answer env "print f(2 ^ -3)" text :=
  ⟨.process .fresh _, every_input_is_answered (.process .fresh _) _⟩

end Session

end Abacus
