import Abacus.Run.Session

/-!
Computations, environments and sessions.

What a computation leaves behind is defined whether or not it fails. A session starts without
functions and variables and goes from input to input, with resets in between.
-/
namespace Abacus

namespace Run

/-- The state in which a computation ends, whether or not it fails. -/
def final {α : Type} (m : Run α) (s : State) : State :=
  match m s with
  | .ok _ s => s
  | .error _ s => s

theorem final_bind {α β : Type} (m : Run α) (f : α → Run β) (s : State) :
    final (m >>= f) s = match m s with
      | .ok a s' => final (f a) s'
      | .error _ s' => s' := by
  simp only [final, bind, EStateM.bind]
  cases m s with
  | ok a s' => rfl
  | error e s' => rfl

theorem final_of_ok {α : Type} {m : Run α} {s s' : State} {a : α} (h : m s = .ok a s') :
    final m s = s' := by
  rw [final, h]

end Run

namespace Environment

open Run (final)

def rules (env : Environment) : Rules := ⟨env.settings, env.functions⟩

theorem run_environment {α : Type} (env : Environment) (m : Rules → Nat → Run α) :
    (env.run m).environment
      = { env with store := (final (m env.rules env.depth) { store := env.store }).store } := by
  simp only [run, EStateM.run, final, rules]
  cases m ⟨env.settings, env.functions⟩ env.depth { store := env.store } with
  | ok a s => rfl
  | error e s => rfl

theorem defineAll_environment (env : Environment) (fs : List Function) :
    (env.defineAll fs).1 = { env with functions := (env.defineAll fs).1.functions } := by
  induction fs generalizing env with
  | nil => rfl
  | cons f rest ih => exact ih (env.define f)

end Environment

namespace Session

/-- Runs a program's statements among its functions. -/
def ran (env : Environment) (p : Program) : Ran Ending :=
  (env.defineAll p.functions).1.run fun rules depth => Run.statements rules depth none p.statements

theorem ran_settings (env : Environment) (p : Program) :
    (ran env p).environment.settings = env.settings := by
  rw [ran, Environment.run_environment]
  exact congrArg (·.settings) (env.defineAll_environment p.functions)

theorem execute_environment (env : Environment) (p : Program) :
    (execute env p).environment = (ran env p).environment := by
  unfold execute ran
  simp only
  split
  · rfl
  · next e _ => cases e <;> rfl

theorem execute_text_of_ok {env : Environment} {p : Program} {ending : Ending}
    (h : (ran env p).result = .ok ending) :
    (execute env p).text = conclude (ran env p).environment (ran env p).out ending := by
  rw [ran] at h
  unfold execute
  simp only
  rw [h]
  rfl

theorem failed_text (env env' : Environment) (events events' : List Event) (e : Failure) :
    (failed env events e).text = (failed env' events' e).text := by
  cases e <;> rfl

theorem execute_text_of_error {env : Environment} {p : Program} {e : Failure}
    (h : (ran env p).result = .error e) : (execute env p).text = (failed env [] e).text := by
  rw [ran] at h
  unfold execute
  simp only
  rw [h]
  exact failed_text _ _ _ _ e

theorem process_eq_execute {env : Environment} {source : String} {ts : List Token} {p : Program}
    (hts : tokenize source = .ok ts) (hdeep : Nesting.isTooDeep env.settings ts = false)
    (hp : parseTokens source ts = .ok p) : process env source = execute env p := by
  simp only [process, hts, hdeep, hp, Bool.false_eq_true, if_false]

/-- The environments that a session can come to. -/
inductive Reachable (settings : Settings) : Environment → Prop
  | fresh : Reachable settings { settings := settings }
  | process {env : Environment} (h : Reachable settings env) (source : String) :
      Reachable settings (process env source).environment
  | reset {env : Environment} (h : Reachable settings env) : Reachable settings env.reset

end Session

end Abacus
