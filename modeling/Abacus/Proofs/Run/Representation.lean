import Abacus.Proofs.Numeric.Representation
import Abacus.Proofs.Run.Carets
import Abacus.Proofs.Run.Simulation

/-!
No session shows how its numbers are written.

Sessions that hold the same variables and the same functions, with numbers of the same values in
them, answer every input with the same text: the same output, the same value or the same error. And
they are such sessions again afterwards.
-/
namespace Abacus

open Numeric (Same)

/-! ### Tables side by side -/

namespace Table

variable {α : Type} {R : α → α → Prop} {t t' : Table α}

theorem Like.put (h : t.Like R t') (name : String) {a a' : α} (ha : R a a') :
    (t.put name a).Like R (t'.put name a') := by
  intro other
  by_cases hname : other = name
  · subst hname
    rw [find?_put_self, find?_put_self]
    exact .some ha
  · rw [find?_put_of_ne hname, find?_put_of_ne hname]
    exact h other

theorem like_nil : Table.Like R [] [] := fun _ => .none

/-- Tables of the same names with related entries. -/
theorem like_ofEntries (names : List String) {as as' : List α} (h : List.Forall₂ R as as') :
    (Table.ofEntries (names.zip as)).Like R (Table.ofEntries (names.zip as')) := by
  have hfold : ∀ (names : List String) (as as' : List α), List.Forall₂ R as as' →
      ∀ t t' : Table α, t.Like R t' →
        ((names.zip as).foldl (fun t entry => t.put entry.1 entry.2) t).Like R
          ((names.zip as').foldl (fun t entry => t.put entry.1 entry.2) t') := by
    intro names
    induction names with
    | nil => exact fun _ _ _ _ _ ht => ht
    | cons name names ih =>
      intro as as' h t t' ht
      cases h with
      | nil => exact ht
      | cons ha has => exact ih _ _ has _ _ (ht.put name ha)
  exact hfold names as as' h [] [] like_nil

end Table

/-! ### States side by side -/

/-- The same variables, with the same values. -/
structure Store.Same (s s' : Store) : Prop where
  globals : s.globals.Like Numeric.Same s'.globals
  frames : List.Forall₂ (Table.Like Numeric.Same) s.frames s'.frames

namespace Store.Same

variable {s s' : Store}

theorem get? (h : s.Same s') (name : String) :
    Option.Rel Numeric.Same (s.get? name) (s'.get? name) := by
  obtain ⟨globals, frames⟩ := s
  obtain ⟨globals', frames'⟩ := s'
  obtain ⟨hglobals, hframes⟩ := h
  cases hframes with
  | nil => exact hglobals name
  | cons hframe _ => exact hframe name

theorem set (h : s.Same s') (name : String) {x x' : Decimal} (hx : Numeric.Same x x') :
    (s.set name x).Same (s'.set name x') := by
  obtain ⟨globals, frames⟩ := s
  obtain ⟨globals', frames'⟩ := s'
  obtain ⟨hglobals, hframes⟩ := h
  cases hframes with
  | nil => exact ⟨hglobals.put name hx, .nil⟩
  | cons hframe hrest => exact ⟨hglobals, .cons (hframe.put name hx) hrest⟩

theorem push (h : s.Same s') {frame frame' : Table Decimal}
    (hframe : frame.Like Numeric.Same frame') : (s.push frame).Same (s'.push frame') :=
  ⟨h.globals, .cons hframe h.frames⟩

theorem pop (h : s.Same s') : s.pop.Same s'.pop := by
  obtain ⟨globals, frames⟩ := s
  obtain ⟨globals', frames'⟩ := s'
  obtain ⟨hglobals, hframes⟩ := h
  cases hframes with
  | nil => exact ⟨hglobals, .nil⟩
  | cons _ hrest => exact ⟨hglobals, hrest⟩

end Store.Same

/-- The same variables with the same values, and the same output. -/
structure State.Same (s s' : State) : Prop where
  store : s.store.Same s'.store
  out : s.out = s'.out

theorem Numeric.like_same {r r' : Numeric.Checked} (h : r.map Decimal.value = r'.map Decimal.value)
    (hr : Numeric.InRange r) (hr' : Numeric.InRange r') :
    Numeric.Checked.Like Numeric.Same r r' := by
  cases r with
  | error kind =>
    cases r' with
    | error kind' =>
      obtain rfl := Except.error.inj h
      exact .error kind
    | ok y => cases h
  | ok x =>
    cases r' with
    | error kind' => cases h
    | ok y => exact .ok ⟨hr x rfl, hr' y rfl, Except.ok.inj h⟩

/-- Nothing that a script does depends on how numbers are written. -/
theorem Run.simulation_same : Run.Simulation Numeric.Same State.Same where
  get h name := h.store.get? name
  set h name _ _ hx := ⟨h.store.set name hx, h.out⟩
  record h _ := ⟨h.store, h.out⟩
  print h text := ⟨h.store, congrArg (· ++ text) h.out⟩
  push h names _ _ hxs := ⟨h.store.push (Table.like_ofEntries names hxs), h.out⟩
  pop h := ⟨h.store.pop, h.out⟩
  unary hop _ _ hx := Numeric.like_same (Numeric.unary_congr hop hx)
    (Operator.unary_inRange hop hx.left) (Operator.unary_inRange hop hx.right)
  binary hop _ _ _ _ hx hx' := Numeric.like_same (Numeric.binary_congr hop hx hx')
    (Operator.binary_inRange hop _ _) (Operator.binary_inRange hop _ _)
  isTrue h := Numeric.isTrue_congr h.value
  display h places := Decimal.display?_congr places h.value

/-! ### Sessions side by side -/

/-- Sessions with the same settings, variables and functions, the numbers in them having the same
values. -/
structure Environment.Same (env env' : Environment) : Prop where
  settings : env.settings = env'.settings
  functions : env.functions.Like (Function.Like Numeric.Same) env'.functions
  store : env.store.Same env'.store
  depth : env.depth = env'.depth

namespace Environment.Same

variable {env env' : Environment}

theorem defineAll (h : env.Same env') {fs : List Function} (hfs : ∀ f ∈ fs, f.InRange) :
    (env.defineAll fs).1.Same (env'.defineAll fs).1 := by
  induction fs generalizing env env' with
  | nil => exact h
  | cons f fs ih =>
    obtain ⟨hf, hrest⟩ := List.forall_mem_cons.mp hfs
    have hlike := f.like_self fun x hx => (⟨hf x hx, hf x hx, rfl⟩ : Numeric.Same x x)
    exact ih ⟨h.settings, h.functions.put f.name hlike, h.store, h.depth⟩ hrest

theorem rules (h : env.Same env') : env.rules.Like Numeric.Same env'.rules :=
  ⟨h.settings, h.functions⟩

end Environment.Same

namespace Session

/-- The statements of a program go the same way in both sessions. -/
theorem ran_same {env env' : Environment} (h : env.Same env') {p : Program} (hp : p.Sound) :
    (ran env p).environment.Same (ran env' p).environment ∧ (ran env p).out = (ran env' p).out ∧
      ((∃ ending ending', (ran env p).result = .ok ending ∧ (ran env' p).result = .ok ending' ∧
        Ending.Like Same ending ending') ∨
      ∃ e, (ran env p).result = .error e ∧ (ran env' p).result = .error e) := by
  have hdefined := h.defineAll fun f hf => (hp.functions f hf).inRange
  have hlike : Statements.Like Same p.statements p.statements :=
    Statements.like_self p.statements fun x s hs hx =>
      have hfits := (hp.statements s hs).fits hx
      ⟨hfits, hfits, rfl⟩
  unfold ran
  generalize (env.defineAll p.functions).1 = defined, (env'.defineAll p.functions).1 = defined'
    at hdefined
  have hends := Run.simulation_same.run hdefined.rules defined.depth hlike
    { store := defined.store } { store := defined'.store } ⟨hdefined.store, rfl⟩
  simp only [Environment.rules] at hends
  simp only [Environment.run, EStateM.run, ← hdefined.depth]
  generalize Run.statements _ defined.depth none p.statements { store := defined.store } = o,
    Run.statements _ defined.depth none p.statements { store := defined'.store } = o' at hends ⊢
  cases hends with
  | ok hs hending =>
    exact ⟨⟨hdefined.settings, hdefined.functions, hs.store, rfl⟩, hs.out,
      .inl ⟨_, _, rfl, rfl, hending⟩⟩
  | error hs =>
    exact ⟨⟨hdefined.settings, hdefined.functions, hs.store, rfl⟩, hs.out, .inr ⟨_, rfl, rfl⟩⟩

theorem conclude_same {env env' : Environment} (h : env.Same env') (out : String)
    {ending ending' : Ending} (hending : Ending.Like Same ending ending') :
    conclude env out ending = conclude env' out ending' := by
  have hformat : ∀ x x', Same x x' → format env x = format env' x' := by
    intro x x' hx
    rw [format, format, h.settings, Decimal.display?_congr _ hx.value]
  have hlast : ∀ last last', Option.Rel Same last last' →
      formatLast env last = formatLast env' last' := by
    intro last last' hlast
    cases hlast with
    | none => rfl
    | some hx => exact hformat _ _ hx
  cases hending with
  | returned hx => exact hformat _ _ hx
  | finished h => simp only [conclude, hlast _ _ h]
  | broke h => simp only [conclude, hlast _ _ h]

theorem execute_same {env env' : Environment} (h : env.Same env') {p : Program} (hp : p.Sound) :
    (execute env p).text = (execute env' p).text ∧
      (execute env p).environment.Same (execute env' p).environment := by
  obtain ⟨henv, hout, hresult⟩ := ran_same h hp
  refine ⟨?_, by rwa [execute_environment, execute_environment]⟩
  rcases hresult with ⟨ending, ending', hran, hran', hending⟩ | ⟨e, hran, hran'⟩
  · rw [execute_text_of_ok hran, execute_text_of_ok hran', hout, conclude_same henv _ hending]
  · rw [execute_text_of_error hran, execute_text_of_error hran']
    exact failed_text _ _ _ _ e

theorem process_same {env env' : Environment} (h : env.Same env') (source : String) :
    (process env source).text = (process env' source).text ∧
      (process env source).environment.Same (process env' source).environment := by
  unfold process
  split
  · exact ⟨failed_text _ _ _ _ _, h⟩
  next ts hts =>
  rw [← h.settings]
  split
  · exact ⟨rfl, h⟩
  split
  · exact ⟨failed_text _ _ _ _ _, h⟩
  next p hp => exact execute_same h (parseTokens_sound (tokenize_sound hts) hp)

/-- How numbers are written is never seen: not in what an operation makes of them, and not in what a
session answers or in what it holds afterwards. -/
theorem representation_is_unobservable :
    Numeric.RespectsValues ∧
      ∀ env env' : Environment, env.Same env' → ∀ source : String,
        (process env source).text = (process env' source).text ∧
          (process env source).environment.Same (process env' source).environment :=
  ⟨Numeric.respectsValues, fun _ _ h source => process_same h source⟩

/-- Sessions with `1.5` and `1.50`, with `0` and `-0.0`, and with a function that doubles by `2` and
by `2.0`. -/
theorem representation_is_unobservable_in_trailing_zeros :
    let x : Decimal := ⟨false, 15, -1⟩
    let x' : Decimal := ⟨false, 150, -2⟩
    let zero' : Decimal := ⟨true, 0, -1⟩
    let double (two : Decimal) : Function :=
      ⟨"f", "fn f(a) \x7b2 * a\x7d", ["a"],
        [.expression ⟨"2 * a", [.number 0 two, .name 4 "a", .operator 2 .multiply]⟩]⟩
    let env : Environment :=
      { functions := [("f", double ⟨false, 2, 0⟩)],
        store := { globals := [("x", x), ("z", .zero)] } }
    let env' : Environment :=
      { functions := [("f", double ⟨false, 20, -1⟩)],
        store := { globals := [("x", x'), ("z", zero')] } }
    let source := "print f(x) ^ x; y = x % f(x) + z; 1 / z"
    Same x x' ∧ Same .zero zero' ∧ env.Same env' ∧
      (Numeric.power x .zero).map Decimal.value = (Numeric.power x' zero').map Decimal.value ∧
      (process env source).text = (process env' source).text ∧
      (process env source).environment.Same (process env' source).environment := by
  intro x x' zero' double env env' source
  have hfits : ∀ (negative : Bool) (c : Nat) (e : Int), c < 1000 → -55 ≤ e → e ≤ 0 →
      Format.calculator.Fits ⟨negative, c, e⟩ := by
    intro negative c e hc hleast hgreatest
    have hdigits : digitCount c ≤ 3 := (digitCount_le_iff (by decide)).mpr hc
    refine Format.calculator_fits_iff.mpr ⟨Nat.lt_trans hc (by decide), hleast, ?_⟩
    simp only [Decimal.adjusted]
    omega
  have hx : Same x x' :=
    ⟨hfits _ _ _ (by decide) (by decide) (by decide),
      hfits _ _ _ (by decide) (by decide) (by decide),
      by norm_num [Decimal.value, Decimal.sign, x, x']⟩
  have hzero : Same .zero zero' :=
    ⟨hfits _ _ _ (by decide) (by decide) (by decide),
      hfits _ _ _ (by decide) (by decide) (by decide),
      by norm_num [Decimal.value, Decimal.zero, zero']⟩
  have htwo : Same ⟨false, 2, 0⟩ ⟨false, 20, -1⟩ :=
    ⟨hfits _ _ _ (by decide) (by decide) (by decide),
      hfits _ _ _ (by decide) (by decide) (by decide),
      by norm_num [Decimal.value, Decimal.sign]⟩
  have hdouble : Function.Like Same (double ⟨false, 2, 0⟩) (double ⟨false, 20, -1⟩) :=
    ⟨rfl, rfl, rfl, .cons (.expression (.mk _ (.cons (.number 0 htwo) (.cons (.name 4 "a")
      (.cons (.operator 2 .multiply) .nil))))) .nil⟩
  have henv : env.Same env' := by
    refine ⟨rfl, Table.like_nil.put "f" hdouble, ⟨?_, .nil⟩, rfl⟩
    exact (Table.like_nil.put "z" hzero).put "x" hx
  have hpower : Operator.power.meaning = .binary Numeric.power := rfl
  obtain ⟨hnumeric, hsession⟩ := representation_is_unobservable
  exact ⟨hx, hzero, henv, hnumeric.binary hpower hx hzero, hsession env env' henv source⟩

end Session

end Abacus
