import Abacus.Run.Evaluate

/-!
What a session keeps from one input to the next: settings, functions, variables and the number of
active calls.
-/
namespace Abacus

structure Environment where
  settings : Settings := {}
  functions : Table Function := []
  store : Store := {}
  /-- Active calls; between inputs there are none. -/
  depth : Nat := 0

/-- How an evaluation in an environment went. -/
structure Ran (α : Type) where
  result : Except Failure α
  environment : Environment
  out : String
  events : List Event

namespace Environment

def run {α : Type} (env : Environment) (m : Rules → Nat → Run α) : Ran α :=
  match (m ⟨env.settings, env.functions⟩ env.depth).run { store := env.store } with
  | .ok a s => ⟨.ok a, { env with store := s.store }, s.out, s.events.reverse⟩
  | .error e s => ⟨.error e, { env with store := s.store }, s.out, s.events.reverse⟩

def get? (env : Environment) (name : String) : Option Decimal := env.store.get? name

def set (env : Environment) (name : String) (x : Decimal) : Environment :=
  { env with store := env.store.set name x }

def function? (env : Environment) (name : String) : Option Function := env.functions.find? name

/-- Adds a function, or replaces the one of the same name. -/
def define (env : Environment) (f : Function) : Environment :=
  { env with functions := env.functions.put f.name f }

def definitionEvent (env : Environment) (f : Function) : Event :=
  .defined (env.function? f.name).isSome f.name f.arity f.text

/-- Adds functions one after the other. -/
def defineAll (env : Environment) : List Function → Environment × List Event
  | [] => (env, [])
  | f :: rest =>
    let (final, events) := (env.define f).defineAll rest
    (final, env.definitionEvent f :: events)

/-- Forgets everything but the settings. -/
def reset (env : Environment) : Environment := { settings := env.settings }

def pushFrame (env : Environment) (entries : List (String × Decimal)) : Environment :=
  { env with store := env.store.push (Table.ofEntries entries) }

def popFrame? (env : Environment) : Option Environment :=
  if env.store.frames.isEmpty then none else some { env with store := env.store.pop }

def withDepth (env : Environment) (depth : Nat) : Environment := { env with depth := depth }

/-- Frames from the outermost to the innermost. -/
def framesOutward (env : Environment) : List (Table Decimal) := env.store.frames.reverse

def arities (env : Environment) : List (String × Nat) :=
  env.functions.map fun (name, f) => (name, f.arity)

/-- Executes statements one by one, whatever each of them results in, up to the first that fails;
what they resulted in comes first. -/
def executeEach (env : Environment) : List Statement → List Signal × Ran Unit
  | [] => ([], ⟨.ok (), env, "", []⟩)
  | s :: rest =>
    let ran := env.run fun rules depth => Run.statement rules depth s
    match ran.result with
    | .error e => ([], ⟨.error e, ran.environment, ran.out, ran.events⟩)
    | .ok signal =>
      let (signals, tail) := ran.environment.executeEach rest
      (signal :: signals,
        { tail with out := ran.out ++ tail.out, events := ran.events ++ tail.events })

end Environment

end Abacus
