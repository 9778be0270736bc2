import Abacus.Proofs.Run.Activity

/-!
What the interpreter leaves alone.

A run can change the active variables and nothing else of the store: every frame that a call puts
up is taken down when the call ends, however it ends, and names refer to the active variables only.
So there are as many frames as there are active calls, at every moment of a run, and none between
inputs.
-/
namespace Abacus

namespace Store

/-- The second store differs from the first in the active variables at most. -/
structure Keeps (s s' : Store) : Prop where
  length : s'.frames.length = s.frames.length
  below : s'.frames.tail = s.frames.tail
  globals : s.frames ≠ [] → s'.globals = s.globals

namespace Keeps

theorem refl (s : Store) : s.Keeps s := ⟨rfl, rfl, fun _ => rfl⟩

theorem trans {s s' s'' : Store} (h : s.Keeps s') (h' : s'.Keeps s'') : s.Keeps s'' := by
  refine ⟨h'.length.trans h.length, h'.below.trans h.below, fun hs => ?_⟩
  have hs' : s'.frames ≠ [] := by
    intro hnil
    have hlength := h.length
    rw [hnil, List.length_nil] at hlength
    exact hs (List.length_eq_zero_iff.mp hlength.symm)
  exact (h'.globals hs').trans (h.globals hs)

theorem set (s : Store) (name : String) (x : Decimal) : s.Keeps (s.set name x) := by
  unfold Store.set
  split
  · next hnil => exact ⟨rfl, rfl, fun hs => absurd hnil hs⟩
  · next frame rest hframes =>
    exact ⟨by simp [hframes], by simp [hframes], fun _ => rfl⟩

/-- Whatever happens above a frame, taking it down brings the store back. -/
theorem pop_push {s s' : Store} {frame : Table Decimal} (h : (s.push frame).Keeps s') :
    s'.pop = s := by
  have hframes : s'.frames.tail = s.frames := h.below
  have hglobals : s'.globals = s.globals := h.globals (by simp [push])
  rw [pop, hframes, hglobals]

end Keeps

end Store

namespace Run

/-- A computation that changes the active variables at most. -/
def KeepsStore {α : Type} (m : Run α) : Prop := ∀ s : State, s.store.Keeps (final m s).store

theorem KeepsStore.bind {α β : Type} {m : Run α} {f : α → Run β} (hm : KeepsStore m)
    (hf : ∀ a, KeepsStore (f a)) : KeepsStore (m >>= f) := by
  intro s
  have h := hm s
  rw [final_bind]
  rw [final] at h
  cases hs : m s with
  | ok a s' =>
    rw [hs] at h
    exact h.trans (hf a s')
  | error e s' =>
    rw [hs] at h
    exact h

theorem KeepsStore.inFrame {α : Type} {m : Run α} (hm : KeepsStore m) (frame : Table Decimal) :
    KeepsStore (inFrame frame m) := by
  intro s
  have h := hm { s with store := s.store.push frame }
  rw [final] at h ⊢
  rw [Run.inFrame]
  cases hs : m { s with store := s.store.push frame } with
  | ok a s' =>
    rw [hs] at h
    simp only [h.pop_push]
    exact .refl s.store
  | error e s' =>
    rw [hs] at h
    simp only [h.pop_push]
    exact .refl s.store

theorem compositional_keepsStore (rules : Rules) :
    Compositional rules fun _ m => KeepsStore m where
  pure _ _ _ := .refl _
  bind hm hf := hm.bind hf
  throw _ _ _ := .refl _
  get _ _ := .refl _
  assign _ name x s := .set s.store name x
  record _ _ _ := .refl _
  print _ _ _ := .refl _
  inFrame frame _ _ hm := hm.inFrame frame

theorem keepsStore (rules : Rules) (depth : Nat) (t : Task) : KeepsStore (t.run rules depth) :=
  (compositional_keepsStore rules).task depth t

theorem KeepsStore.of_ok {α : Type} {m : Run α} (hm : KeepsStore m) {s s' : State} {a : α}
    (h : m s = .ok a s') : s.store.Keeps s'.store := by
  have hs := hm s
  rwa [final_of_ok h] at hs

/-! ### Every moment of a run -/

/-- There are as many frames as active calls, and no more calls than allowed. -/
def Balanced (rules : Rules) (depth : Nat) (s : State) : Prop :=
  s.store.frames.length = depth ∧ depth ≤ rules.settings.callLimit

theorem Balanced.of_keeps {rules : Rules} {depth : Nat} {s s' : State}
    (h : Balanced rules depth s) (hs : s.store.Keeps s'.store) : Balanced rules depth s' :=
  ⟨hs.length.trans h.1, h.2⟩

namespace Activity

/-- An activity begins another among the same frames, or, one call deeper, with one frame more. -/
theorem Begins.frames {rules : Rules} {a b : Activity} (h : Begins rules a b) :
    (b.depth = a.depth ∧ a.state.store.Keeps b.state.store) ∨
    (b.depth = a.depth + 1 ∧ a.depth < rules.settings.callLimit ∧
      ∃ s frame, a.state.store.Keeps s ∧ b.state.store = s.push frame) := by
  have C := compositional_keepsStore rules
  -- what has run in between kept the frames, and only a body starts with one more
  cases h with
  | afterCall d c p n text es rest stack h =>
    exact .inl ⟨rfl, KeepsStore.of_ok (C.call d c p n text es) h⟩
  | afterOperator d c p op rest h => exact .inl ⟨rfl, KeepsStore.of_ok (C.apply d c p op _) h⟩
  | otherValues d e rest h => exact .inl ⟨rfl, KeepsStore.of_ok (C.evaluate d e) h⟩
  | body c p text hf harity h hlimit =>
    exact .inr ⟨rfl, hlimit, _, _, KeepsStore.of_ok (C.evaluateAll _ _) h, rfl⟩
  | branchBody d e body otherwise h hx => exact .inl ⟨rfl, KeepsStore.of_ok (C.evaluate d e) h⟩
  | branchOther d e body other h hx => exact .inl ⟨rfl, KeepsStore.of_ok (C.evaluate d e) h⟩
  | afterValue d last t rest h => exact .inl ⟨rfl, KeepsStore.of_ok (C.statement d t) h⟩
  | afterNothing d last t rest h => exact .inl ⟨rfl, KeepsStore.of_ok (C.statement d t) h⟩
  | round d text e body remaining last h hx =>
    exact .inl ⟨rfl, KeepsStore.of_ok (C.evaluate d e) h⟩
  | nextRound d text e body remaining last h hx hbody =>
    have hcondition := KeepsStore.of_ok (C.evaluate d e) h
    exact .inl ⟨rfl, hcondition.trans (KeepsStore.of_ok (C.statements d last body) hbody)⟩
  | _ => exact .inl ⟨rfl, .refl _⟩

theorem Begins.balanced {rules : Rules} {a b : Activity} (h : Begins rules a b)
    (ha : Balanced rules a.depth a.state) : Balanced rules b.depth b.state := by
  rcases h.frames with ⟨hdepth, hkeeps⟩ | ⟨hdepth, hlimit, s, frame, hkeeps, hpush⟩
  · rw [hdepth]
    exact ha.of_keeps hkeeps
  · refine ⟨?_, by omega⟩
    have hlength : b.state.store.frames.length = s.frames.length + 1 := by simp [hpush, Store.push]
    rw [hlength, hkeeps.length, ha.1, hdepth]

theorem Leads.balanced {rules : Rules} {a b : Activity} (h : Leads rules a b)
    (ha : Balanced rules a.depth a.state) : Balanced rules b.depth b.state := by
  induction h with
  | refl => exact ha
  | tail _ hbegins ih => exact hbegins.balanced ih

theorem keeps_final (rules : Rules) (a : Activity) :
    a.state.store.Keeps (a.final rules).store := keepsStore rules a.depth a.task a.state

end Activity

end Run

/-! ### Environments and sessions -/

namespace Environment

open Run

/-- What carrying out a task leaves alone, and what holds in the meantime. -/
structure Undisturbed (env : Environment) (t : Task) : Prop where
  depth : (env.run fun rules depth => t.run rules depth).environment.depth = env.depth
  functions : (env.run fun rules depth => t.run rules depth).environment.functions = env.functions
  settings : (env.run fun rules depth => t.run rules depth).environment.settings = env.settings
  store : env.store.Keeps (env.run fun rules depth => t.run rules depth).environment.store
  balanced : ∀ out events a, Activity.Leads env.rules ⟨env.depth, t, ⟨env.store, out, events⟩⟩ a →
    Balanced env.rules a.depth a.state ∧ Balanced env.rules a.depth (a.final env.rules)

end Environment

namespace Session

open Run

/-- An input leaves the settings, the number of active calls and all variables but the active ones
as they were. -/
theorem process_keeps (env : Environment) (source : String) :
    (process env source).environment.settings = env.settings ∧
      (process env source).environment.depth = env.depth ∧
      env.store.Keeps (process env source).environment.store := by
  unfold process
  split
  · exact ⟨rfl, rfl, .refl _⟩
  split
  · exact ⟨rfl, rfl, .refl _⟩
  split
  · exact ⟨rfl, rfl, .refl _⟩
  next p _ =>
    have hdefined := env.defineAll_environment p.functions
    have hstore : (env.defineAll p.functions).1.store = env.store := congrArg (·.store) hdefined
    rw [execute_environment, ran, Environment.run_environment]
    refine ⟨congrArg (·.settings) hdefined, congrArg (·.depth) hdefined, ?_⟩
    rw [← hstore]
    exact (compositional_keepsStore _).statements _ none p.statements
      { store := (env.defineAll p.functions).1.store }

/-- Between inputs no call is active. -/
theorem Reachable.idle {settings : Settings} {env : Environment} (h : Reachable settings env) :
    env.settings = settings ∧ env.store.frames = [] ∧ env.depth = 0 := by
  induction h with
  | fresh => exact ⟨rfl, rfl, rfl⟩
  | @process env _ source ih =>
    obtain ⟨hsettings, hframes, hdepth⟩ := ih
    obtain ⟨hsettings', hdepth', hkeeps⟩ := process_keeps env source
    refine ⟨hsettings'.trans hsettings, ?_, hdepth'.trans hdepth⟩
    have hlength := hkeeps.length
    rw [hframes] at hlength
    exact List.length_eq_zero_iff.mp hlength
  | reset _ ih => exact ⟨ih.1, rfl, rfl⟩

end Session

namespace Environment

open Run

theorem undisturbed (env : Environment) (t : Task) (hframes : env.store.frames.length = env.depth)
    (hlimit : env.depth ≤ env.settings.callLimit) : env.Undisturbed t where
  depth := by rw [run_environment]
  functions := by rw [run_environment]
  settings := by rw [run_environment]
  store := by
    rw [run_environment]
    exact keepsStore env.rules env.depth t { store := env.store }
  balanced out events a h := by
    have hstart : Balanced env.rules a.depth a.state := h.balanced ⟨hframes, hlimit⟩
    exact ⟨hstart, hstart.of_keeps (a.keeps_final env.rules)⟩

/-- Whatever is carried out where there are as many frames as active calls, and however it ends,
only the active variables can differ afterwards, and the frames match the calls throughout. So
between the inputs of a session there are no frames and no active calls. -/
theorem only_active_variables_change :
    (∀ (env : Environment) (t : Task), env.store.frames.length = env.depth →
      env.depth ≤ env.settings.callLimit → env.Undisturbed t) ∧
    ∀ (settings : Settings) (env : Environment), Session.Reachable settings env →
      env.settings = settings ∧ env.store.frames = [] ∧ env.depth = 0 :=
  ⟨undisturbed, fun _ _ h => h.idle⟩

/-- An assignment inside a call, and a session whose first input fails. -/
theorem only_active_variables_change_inside_call :
    let env : Environment := { store := ⟨[("x", .zero)], [[("x", .one)]]⟩, depth := 1 }
    let e : Expression := ⟨"x = 2", [.name 0 "x", .number 4 (.ofNat 2), .operator 2 .assign]⟩
    let after := (Session.process { settings := {} } "f(1)").environment
    (env.store.frames.length = env.depth ∧ env.depth ≤ env.settings.callLimit ∧
      env.Undisturbed (.statement (.expression e))) ∧
    Session.Reachable {} after ∧ after.settings = {} ∧ after.store.frames = [] ∧ after.depth = 0 :=
  ⟨⟨rfl, by decide, only_active_variables_change.1 _ _ rfl (by decide)⟩,
    .process .fresh "f(1)", only_active_variables_change.2 {} _ (.process .fresh "f(1)")⟩

end Environment

end Abacus
