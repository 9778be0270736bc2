import Abacus.Proofs.Derivation.Seam
import Abacus.Proofs.Run.Carets
import Abacus.Proofs.Run.Simulation

/-!
A script does what its parts do at the prompt.

Inputs can be given one after another, or as one script with a line feed between them. If only the
first defines functions, and each of them runs to its end, then the script changes the session in
the same way. It shows everything that the inputs print, and if they print nothing, the last value
that any of them has.
-/
namespace Abacus

/-! ### Output that is there already -/

/-- The same state, with some text printed before. -/
structure State.Follows (out : String) (s s' : State) : Prop where
  store : s'.store = s.store
  out : s'.out = out ++ s.out

theorem Option.rel_eq_self {α : Type} (o : Option α) : Option.Rel Eq o o := by
  cases o with
  | none => exact .none
  | some a => exact .some rfl

theorem Numeric.Checked.like_eq_self (r : Numeric.Checked) : Numeric.Checked.Like Eq r r := by
  cases r with
  | ok x => exact .ok rfl
  | error kind => exact .error kind

theorem Ending.Like.eq {a b : Ending} (h : Ending.Like Eq a b) : a = b := by
  cases h with
  | finished h | broke h => cases h <;> simp_all
  | returned h => rw [h]

theorem Rules.like_eq_self (rules : Rules) : rules.Like Eq rules := by
  refine ⟨rfl, fun name => ?_⟩
  cases rules.functions.find? name with
  | none => exact .none
  | some f => exact .some (f.like_self fun _ _ => rfl)

namespace Run

/-- Nothing that is done depends on what has been printed. -/
theorem simulation_follows (out : String) : Simulation Eq (State.Follows out) where
  get h name := by
    rw [h.store]
    exact Option.rel_eq_self _
  set h name _ _ hx := ⟨by simp only [h.store, hx], h.out⟩
  record h _ := ⟨h.store, h.out⟩
  print h text := ⟨h.store, by simp only [h.out, String.append_assoc]⟩
  push h names _ _ hxs := by
    rw [List.forall₂_eq_eq_eq] at hxs
    exact ⟨by simp only [h.store, hxs], h.out⟩
  pop h := ⟨by simp only [h.store], h.out⟩
  unary _ _ _ hx := hx ▸ Numeric.Checked.like_eq_self _
  binary _ _ _ _ _ hx hx' := hx ▸ hx' ▸ Numeric.Checked.like_eq_self _
  isTrue h := by rw [h]
  display h _ := by rw [h]

/-- Statements that run to an end do so after any output. -/
theorem statements_follows {rules : Rules} {depth : Nat} {ss : List Statement} {ending : Ending}
    {s s' : State} (h : statements rules depth none ss s = .ok ending s') {out : String} {t : State}
    (ht : State.Follows out s t) :
    ∃ t', statements rules depth none ss t = .ok ending t' ∧ State.Follows out s' t' := by
  have hlike : Statements.Like Eq ss ss := Statements.like_self ss fun _ _ _ _ => rfl
  have hends := (simulation_follows out).run rules.like_eq_self depth hlike s t ht
  rw [h] at hends
  generalize statements rules depth none ss t = o at hends
  cases hends with
  | ok hs hending => exact ⟨_, by rw [hending.eq], hs⟩

/-! ### Statements one behind the other -/

/-- The same ending; `last` is the last value if there is none since. -/
def behind (last : Option Decimal) : Ending → Ending
  | .finished own => .finished (own.or last)
  | .returned x => .returned x
  | .broke own => .broke (own.or last)

theorem behind_behind (last own : Option Decimal) (ending : Ending) :
    behind last (behind own ending) = behind (own.or last) ending := by
  cases ending <;> simp [behind, Option.or_assoc]

/-- The last value so far is all that statements take over from those before them. -/
theorem statements_behind (rules : Rules) (depth : Nat) (last : Option Decimal)
    (ss : List Statement) :
    statements rules depth last ss
      = statements rules depth none ss >>= fun ending => pure (behind last ending) := by
  induction ss generalizing last with
  | nil =>
    rw [statements, statements]
    rfl
  | cons s rest ih =>
    rw [statements, statements, bind_assoc]
    congr 1
    funext signal
    cases signal with
    | value x =>
      show statements rules depth (some x) rest
        = statements rules depth (some x) rest >>= fun ending => pure (behind last ending)
      rw [ih (some x)]
      simp [behind_behind]
    | nothing => exact ih last
    | returned x => rfl
    | broke => rfl

theorem statements_append (rules : Rules) (depth : Nat) (last : Option Decimal)
    (ss ts : List Statement) :
    statements rules depth last (ss ++ ts)
      = statements rules depth last ss >>= fun ending =>
          match ending with
          | .finished last => statements rules depth last ts
          | ending => pure ending := by
  induction ss generalizing last with
  | nil =>
    rw [statements]
    rfl
  | cons s rest ih =>
    rw [List.cons_append, statements, statements, bind_assoc]
    congr 1
    funext signal
    cases signal with
    | value x => exact ih (some x)
    | nothing => exact ih last
    | returned x => rfl
    | broke => rfl

/-- If the first statements finish, and so do the second from there, then both together do. -/
theorem statements_append_of_ok {rules : Rules} {depth : Nat} {ss ts : List Statement}
    {s u v : State} {last own : Option Decimal}
    (hss : statements rules depth none ss s = .ok (.finished last) u)
    (hts : statements rules depth none ts { store := u.store } = .ok (.finished own) v) :
    ∃ w, statements rules depth none (ss ++ ts) s = .ok (.finished (own.or last)) w ∧
      State.Follows u.out v w := by
  have hu : State.Follows u.out { store := u.store } u := ⟨rfl, by simp⟩
  obtain ⟨w, hw, hfollows⟩ := statements_follows hts hu
  refine ⟨w, ?_, hfollows⟩
  rw [statements_append, bind_run, hss]
  simp only [andThen]
  rw [statements_behind, bind_run, hw]
  rfl

end Run

namespace Environment

/-- How a computation went that came to a result. -/
theorem run_of_ok {env : Environment} {α : Type} {m : Rules → Nat → Run α} {a : α}
    (h : (env.run m).result = .ok a) :
    ∃ s, m env.rules env.depth { store := env.store } = .ok a s ∧ (env.run m).out = s.out ∧
      (env.run m).environment = { env with store := s.store } := by
  simp only [run, EStateM.run, rules] at h ⊢
  generalize m ⟨env.settings, env.functions⟩ env.depth { store := env.store } = o at h ⊢
  cases o with
  | ok b s =>
    cases h
    exact ⟨s, rfl, rfl, rfl⟩
  | error e s => cases h

theorem run_eq_of_ok {env : Environment} {α : Type} {m : Rules → Nat → Run α} {a : α} {s : State}
    (h : m env.rules env.depth { store := env.store } = .ok a s) :
    env.run m = ⟨.ok a, { env with store := s.store }, s.out, s.events.reverse⟩ := by
  rw [rules] at h
  simp only [run, EStateM.run, h]

end Environment

namespace Session

theorem ran_of_plain (env : Environment) {p : Program} (hp : p.functions = []) :
    ran env p = env.run fun rules depth => Run.statements rules depth none p.statements := by
  rw [ran, hp]
  rfl

/-- A program that defines no functions goes on where another has finished. -/
theorem ran_append {env : Environment} {p q : Program} (hq : q.functions = [])
    {last own : Option Decimal} (hp : (ran env p).result = .ok (.finished last))
    (hown : (ran (ran env p).environment q).result = .ok (.finished own)) :
    let whole := ran env ⟨p.statements ++ q.statements, p.functions ++ q.functions⟩
    whole.result = .ok (.finished (own.or last)) ∧
      whole.out = (ran env p).out ++ (ran (ran env p).environment q).out ∧
      whole.environment = (ran (ran env p).environment q).environment := by
  intro whole
  obtain ⟨u, hu, hout, henv⟩ := Environment.run_of_ok hp
  let defined := (env.defineAll p.functions).1
  have hp : (ran env p).environment = { defined with store := u.store } := henv
  have hq' := ran_of_plain (ran env p).environment hq
  rw [hq'] at hown
  obtain ⟨v, hv, hout', henv'⟩ := Environment.run_of_ok hown
  rw [hp] at hv henv'
  obtain ⟨w, hw, hfollows⟩ := Run.statements_append_of_ok hu hv
  have hwhole : whole = ⟨.ok (.finished (own.or last)), { defined with store := w.store }, w.out,
      w.events.reverse⟩ := by
    simp only [whole, ran, hq, List.append_nil]
    exact Environment.run_eq_of_ok hw
  refine ⟨by rw [hwhole], ?_, ?_⟩
  · rw [hwhole, hq', hout', hfollows.out, ran, hout]
  · rw [hwhole, hq', hp, henv', hfollows.store]

/-! ### Inputs one after another -/

/-- The input is a program that runs to its end, with no error on the way and none in showing what
it comes to. -/
structure Completes (env : Environment) (source : String) (p : Program) (last : Option Decimal) :
    Prop where
  parses : parse source = .ok p
  shallow : ∀ ts, tokenize source = .ok ts → Nesting.isTooDeep env.settings ts = false
  finishes : (ran env p).result = .ok (.finished last)
  answers : ∃ text, (process env source).text = .ok text

/-- The inputs complete one after another and lead from the first session to the second. `out` is
everything that they print, `last` the last value that any of them has. -/
inductive Prompted : Environment → List String → Environment → String → Option Decimal → Prop
  | nil (env : Environment) : Prompted env [] env "" none
  | cons {env final : Environment} {source out : String} {sources : List String} {p : Program}
      {last own : Option Decimal} (h : Completes env source p last)
      (hs : Prompted (process env source).environment sources final out own) :
      Prompted env (source :: sources) final ((ran env p).out ++ out) (own.or last)

theorem Completes.reads {env : Environment} {source : String} {p : Program} {last : Option Decimal}
    (h : Completes env source p last) :
    ∃ ts, tokenize source = .ok ts ∧ parseTokens source ts = .ok p ∧
      Nesting.isTooDeep env.settings ts = false ∧ process env source = execute env p := by
  obtain ⟨ts, hts, hp⟩ := Derivation.parse_bind_iff.mp h.parses
  exact ⟨ts, hts, hp, h.shallow ts hts, process_eq_execute hts (h.shallow ts hts) hp⟩

theorem completes_of_conclude {env : Environment} {source : String} {p : Program}
    {last : Option Decimal} (text : String) (hp : parse source = .ok p)
    (hdeep : ∀ ts, tokenize source = .ok ts → Nesting.isTooDeep env.settings ts = false)
    (hran : (ran env p).result = .ok (.finished last))
    (htext : conclude (ran env p).environment (ran env p).out (.finished last) = .ok text) :
    Completes env source p last := by
  obtain ⟨ts, hts, hparsed⟩ := Derivation.parse_bind_iff.mp hp
  refine ⟨hp, hdeep, hran, text, ?_⟩
  rw [process_eq_execute hts (hdeep ts hts) hparsed, execute_text_of_ok hran, htext]

theorem Completes.environment {env : Environment} {source : String} {p : Program}
    {last : Option Decimal} (h : Completes env source p last) :
    (process env source).environment = (ran env p).environment := by
  obtain ⟨ts, -, -, -, hexecute⟩ := h.reads
  rw [hexecute, execute_environment]

/-- What inputs do one after another they do as one script. -/
theorem Prompted.joined {env final : Environment} {source : String} {sources : List String}
    {out : String} {last : Option Decimal} (h : Prompted env (source :: sources) final out last)
    (hfunctions : ∀ s ∈ sources, ∀ p, parse s = .ok p → p.functions = []) :
    ∃ ts p, tokenize ("\n".intercalate (source :: sources)) = .ok ts ∧
      parseTokens ("\n".intercalate (source :: sources)) ts = .ok p ∧
      Nesting.isTooDeep env.settings ts = false ∧
      (∃ q, parse source = .ok q ∧ p.functions = q.functions) ∧
      (ran env p).result = .ok (.finished last) ∧ (ran env p).out = out ∧
      (ran env p).environment = final := by
  induction sources generalizing env source out last with
  | nil =>
    cases h with
    | @cons _ _ _ _ _ p last own hsource hs =>
      cases hs
      obtain ⟨ts, hts, hp, hdeep, -⟩ := hsource.reads
      rw [String.intercalate_singleton]
      exact ⟨ts, p, hts, hp, hdeep, ⟨p, hsource.parses, rfl⟩, hsource.finishes, by simp,
        hsource.environment.symm⟩
  | cons next sources ih =>
    cases h with
    | @cons _ _ _ _ _ p last own hsource hs =>
      obtain ⟨ts₁, hts₁, hp₁, hdeep₁, -⟩ := hsource.reads
      obtain ⟨hnext, hrest⟩ := List.forall_mem_cons.mp hfunctions
      rw [hsource.environment] at hs
      obtain ⟨ts₂, q, hts₂, hp₂, hdeep₂, ⟨q', hq', hq⟩, hresult, hout, henv⟩ := ih hs hrest
      have hplain : q.functions = [] := hq.trans (hnext q' hq')
      obtain ⟨ts, hts, hparsed, hdeep⟩ := Derivation.reads_joined hts₁ hp₁ hts₂ hp₂
      obtain ⟨hresult', hout', henv'⟩ := ran_append hplain hsource.finishes hresult
      rw [ran_settings] at hdeep₂
      rw [String.intercalate_cons_cons]
      refine ⟨ts, _, hts, hparsed, hdeep _ hdeep₁ hdeep₂, ⟨p, hsource.parses, ?_⟩, hresult', ?_, ?_⟩
      · simp [hplain]
      · rw [hout', hout]
      · rw [henv', henv]

theorem process_empty (env : Environment) : process env "" = execute env ⟨[], []⟩ := by
  have hread : tokenize "" = .ok [Scan.ending .start] :=
    tokenize_eq_ok_iff.mpr ⟨[], _, _, .nil _, .mk .start (.nil false), rfl⟩
  have hparsed : parse "" = .ok ⟨[], []⟩ :=
    Derivation.parse_eq_ok_iff.mpr ⟨.done [], _, _, .nil _, .mk .start (.nil false), rfl⟩
  obtain ⟨ts, hts, hp⟩ := Derivation.parse_bind_iff.mp hparsed
  obtain rfl := Except.ok.inj (hread.symm.trans hts)
  have hdeep : Nesting.isTooDeep env.settings [Scan.ending .start] = false := by
    rw [Nesting.isTooDeep_eq_false]
    exact ⟨Nat.zero_le _, Nat.zero_le _⟩
  exact process_eq_execute hts hdeep hp

theorem Prompted.exists_program {env final : Environment} {sources : List String} {out : String}
    {last : Option Decimal} (h : Prompted env sources final out last)
    (hfunctions : ∀ s ∈ sources.tail, ∀ p, parse s = .ok p → p.functions = []) :
    ∃ p, process env ("\n".intercalate sources) = execute env p ∧
      (ran env p).result = .ok (.finished last) ∧ (ran env p).out = out ∧
      (ran env p).environment = final := by
  cases sources with
  | nil =>
    cases h
    have hran : Run.statements env.rules env.depth none [] { store := env.store }
        = .ok (.finished none) { store := env.store } := by
      rw [Run.statements]
      rfl
    refine ⟨⟨[], []⟩, process_empty env, ?_⟩
    rw [ran_of_plain env rfl, Environment.run_eq_of_ok hran]
    exact ⟨rfl, rfl, rfl⟩
  | cons source sources =>
    obtain ⟨ts, p, hts, hp, hdeep, -, hran⟩ := h.joined hfunctions
    exact ⟨p, process_eq_execute hts hdeep hp, hran⟩

/-- If an input prints nothing, then there is a text for its last value. -/
theorem Completes.display {env : Environment} {source : String} {p : Program} {x : Decimal}
    (h : Completes env source p (some x)) (hout : (ran env p).out = "") :
    ∃ text, x.display? env.settings.displayPlaces = some text := by
  obtain ⟨text, htext⟩ := h.answers
  obtain ⟨ts, -, -, -, hexecute⟩ := h.reads
  rw [hexecute, execute_text_of_ok h.finishes, hout] at htext
  simp only [conclude, formatLast, format, ran_settings] at htext
  cases hx : x.display? env.settings.displayPlaces with
  | some text => exact ⟨text, rfl⟩
  | none => simp [hx] at htext

theorem Prompted.display {env final : Environment} {sources : List String} {out : String}
    {last : Option Decimal} (h : Prompted env sources final out last) (hout : out = "")
    {x : Decimal} (hx : last = some x) :
    ∃ text, x.display? env.settings.displayPlaces = some text := by
  induction h with
  | nil env => cases hx
  | @cons env final source out sources p last own hsource hs ih =>
    obtain ⟨hfirst, hrest⟩ := String.append_eq_empty_iff.mp hout
    cases own with
    | some y =>
      rw [hsource.environment, ran_settings] at ih
      exact ih hrest hx
    | none =>
      rw [Option.none_or] at hx
      subst hx
      exact hsource.display hfirst

/-- Giving inputs one after another and giving them as one script leads to the same session, if only
the first of them defines functions. The script shows all that they print, without the line feed at
its end; if they print nothing, the last value that any of them has; and else nothing. -/
theorem script_agrees_with_prompts {env final : Environment} {sources : List String}
    {out : String} {last : Option Decimal} (h : Prompted env sources final out last)
    (hfunctions : ∀ s ∈ sources.tail, ∀ p, parse s = .ok p → p.functions = []) :
    let reply := process env ("\n".intercalate sources)
    reply.environment = final ∧
      (out ≠ "" → reply.text = .ok (dropLastBreak out)) ∧
      (out = "" → ∀ x, last = some x → ∃ text,
        x.display? env.settings.displayPlaces = some text ∧ reply.text = .ok text) ∧
      (out = "" → last = none → reply.text = .ok "") := by
  intro reply
  obtain ⟨p, hprocess, hresult, hout, henv⟩ := h.exists_program hfunctions
  have htext : reply.text = conclude final out (.finished last) := by
    rw [show reply = execute env p from hprocess, execute_text_of_ok hresult, henv, hout]
  have hsettings : final.settings = env.settings := by rw [← henv, ran_settings]
  refine ⟨?_, fun hne => ?_, fun hempty x hx => ?_, fun hempty hnone => ?_⟩
  · rw [show reply = execute env p from hprocess, execute_environment, henv]
  · rw [htext, conclude, if_neg (by simpa using hne)]
  · obtain ⟨text, hdisplay⟩ := h.display hempty hx
    refine ⟨text, hdisplay, ?_⟩
    rw [htext, hempty, hx, conclude, if_pos (by rfl), formatLast, format, hsettings, hdisplay]
  · rw [htext, hempty, hnone]
    rfl

/-- A function of the first input is called behind the seam, and the value of the call is carried
over a statement that has none. -/
theorem script_agrees_with_prompts_on_call :
    let f : Function := ⟨"f", "fn f(a) \x7breturn a\x7d", ["a"], [.returning ⟨"a", [.name 0 "a"]⟩]⟩
    let env : Environment := { store := { globals := [("y", .ofNat 2), ("z", .zero)] } }
    let sources := ["fn f(a) \x7breturn a\x7d # (", "x = f(y)\nif z \x7bprint x\x7d"]
    let final : Environment :=
      { functions := [("f", f)],
        store := { globals := [("x", .ofNat 2), ("y", .ofNat 2), ("z", .zero)] } }
    Prompted env sources final "" (some (.ofNat 2)) ∧
      (∀ s ∈ sources.tail, ∀ p, parse s = .ok p → p.functions = []) ∧
      (process env ("\n".intercalate sources)).environment = final ∧
      (process env ("\n".intercalate sources)).text = .ok "2" := by
  intro f env sources final
  let called : Expression :=
    ⟨"x = f(y)", [.name 0 "x", .call 4 "f" "f(y)" [⟨"y", [.name 0 "y"]⟩], .operator 2 .assign]⟩
  let p : Program :=
    ⟨[.expression called, .branch ⟨"z", [.name 0 "z"]⟩ [.printing ⟨"x", [.name 0 "x"]⟩] none], []⟩
  have hf : parse "fn f(a) \x7breturn a\x7d # (" = .ok ⟨[], [f]⟩ := by cbv
  have hp : parse "x = f(y)\nif z \x7bprint x\x7d" = .ok p := by cbv
  have hdeep : ∀ source ∈ sources, ∀ ts, tokenize source = .ok ts →
      Nesting.isTooDeep {} ts = false := by
    have hall : ∀ source ∈ sources,
        ((tokenize source).map (Nesting.isTooDeep {})).toOption = some false := by decide +kernel
    intro source hsource ts hts
    simpa [hts, Except.map, Except.toOption] using hall source hsource
  let defined : Environment := { env with functions := [("f", f)] }
  have hran : ran env ⟨[], [f]⟩ = ⟨.ok (.finished none), defined, "", []⟩ := by cbv
  have hran' : ran defined p
      = ⟨.ok (.finished (some (.ofNat 2))), final, "", [.calling "f(y)" 1]⟩ := by cbv
  have hfirst : Completes env "fn f(a) \x7breturn a\x7d # (" ⟨[], [f]⟩ none := by
    refine completes_of_conclude "" hf (hdeep _ (by simp [sources])) ?_ ?_ <;> rw [hran]
    rfl
  have htwo : Decimal.display? 6 (.ofNat 2) = some "2" := by decide +kernel
  have hsecond : Completes defined "x = f(y)\nif z \x7bprint x\x7d" p (some (.ofNat 2)) := by
    refine completes_of_conclude "2" hp (hdeep _ (by simp [sources])) ?_ ?_ <;> rw [hran']
    show format final (.ofNat 2) = .ok "2"
    rw [format, show (final.settings.displayPlaces : Int) = 6 from rfl, htwo]
  have hprompted : Prompted env sources final "" (some (.ofNat 2)) := by
    have hlast : Prompted defined ["x = f(y)\nif z \x7bprint x\x7d"] final ""
        (some (.ofNat 2)) := by
      have henv : (process defined "x = f(y)\nif z \x7bprint x\x7d").environment = final := by
        rw [hsecond.environment, hran']
      have hone := Prompted.cons hsecond (.nil _)
      rwa [henv, hran'] at hone
    have henv : (process env "fn f(a) \x7breturn a\x7d # (").environment = defined := by
      rw [hfirst.environment, hran]
    have hboth := Prompted.cons hfirst (henv ▸ hlast)
    rwa [hran] at hboth
  have hplain : ∀ s ∈ sources.tail, ∀ q, parse s = .ok q → q.functions = [] := by
    intro s hs q hq
    obtain rfl := List.mem_singleton.mp hs
    rw [← Except.ok.inj (hp.symm.trans hq)]
  obtain ⟨henv, -, htext, -⟩ := script_agrees_with_prompts hprompted hplain
  obtain ⟨text, hdisplay, hreply⟩ := htext rfl _ rfl
  refine ⟨hprompted, hplain, henv, ?_⟩
  rw [hreply, Option.some.inj (hdisplay.symm.trans htwo)]

end Session

end Abacus
