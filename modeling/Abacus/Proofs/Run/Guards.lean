import Abacus.Proofs.Run.Termination

/-!
Guards cut runs off and do nothing else.

A run that no guard has stopped is a run of the bare language. Conversely, what the bare language
derives without a loop or a call going beyond the limits is what a run under these limits comes to.
So limits that are raised change only runs that would have been stopped.

All of this rests on one fact about derivations: if none of its rules is one that a guard stops by,
it is also a derivation under any other guards that have no objection to the rounds it took and to
the calls it made.
-/
namespace Abacus.Run

/-! ### Outcomes that a guard brought about -/

/-- A guard has stopped the run. -/
def HitsLimit {α : Type} (o : Ended α) : Prop := outcome o = .error .limit

section Outcomes

variable {α β : Type} {o : Ended α}

theorem not_hitsLimit_ok (a : α) (s : State) : ¬HitsLimit (.ok a s) := by
  rintro ⟨⟩

theorem hitsLimit_error_iff {e : Failure} {s : State} :
    HitsLimit (.error e s : Ended α) ↔ e = .limit :=
  ⟨fun h => Except.error.inj h, fun h => congrArg Except.error h⟩

/-- A failure stays what it is where a result of another kind was expected. -/
theorem not_hitsLimit_error {e : Failure} {s : State} (h : ¬HitsLimit (.error e s : Ended α)) :
    ¬HitsLimit (.error e s : Ended β) := by
  rwa [hitsLimit_error_iff] at h ⊢

theorem not_hitsLimit_of_andThen {f : α → Run β} (h : ¬HitsLimit (andThen o f)) :
    ¬HitsLimit o := by
  cases o with
  | ok a s => exact not_hitsLimit_ok a s
  | error e s => exact not_hitsLimit_error h

theorem not_hitsLimit_leave_iff {o : Ended Ending} : ¬HitsLimit (leave o) ↔ ¬HitsLimit o := by
  cases o with
  | ok ending s => exact iff_of_true (not_hitsLimit_ok _ _) (not_hitsLimit_ok _ _)
  | error e s => exact not_congr (hitsLimit_error_iff.trans hitsLimit_error_iff.symm)

end Outcomes

/-! ### The same derivation under other guards -/

/-- A derivation keeps to its guards. -/
theorem Derives.within {r : Regime} {d : Nat} {q : Piece} {s : State} {o : Ended q.Result}
    {u : Usage} (h : Derives r d q s o u) : u.Within r.guards := by
  induction h with
  | noTerms | operatorStops _ | parenthesis | noValues | unknown _ | wrongCount _ _ | breaking
  | finished => exact Usage.within_none _
  | number _ ih | name _ ih | callStops _ ih | callMissing _ ih | operator _ _ ih | evaluate _ ih
  | singleCall _ ih | statementValue _ _ ih | valueStops _ ih | argumentStops _ _ _ ih
  | tooDeep _ _ _ _ _ ih | expression _ ih | branchStops _ ih | branchNothing _ _ ih | loop _ ih
  | returning _ ih | printing _ ih | statementStops _ ih | returned _ ih | broke _ ih | block _ ih
  | conditionStops _ ih | loopDone _ _ ih | tooLong _ _ _ _ ih => exact ih
  | callValue _ _ ih ihrest | values _ _ ih ihrest | branchBody _ _ _ ih ihrest
  | branchOther _ _ _ ih ihrest | afterValue _ _ ih ihrest | afterNothing _ _ ih ihrest =>
    exact Usage.join_within.mpr ⟨ih, ihrest⟩
  | body _ _ _ hdepth _ ih ihbody =>
    have harguments := Usage.join_within.mpr ⟨ih, ihbody⟩
    exact Usage.join_within.mpr ⟨harguments, Usage.within_depth.mpr hdepth⟩
  | roundStops _ _ hrounds _ ih ihbody | roundReturned _ _ hrounds _ ih ihbody
  | roundBroke _ _ hrounds _ ih ihbody =>
    have hround := Usage.join_within.mpr ⟨ih, ihbody⟩
    exact Usage.join_within.mpr ⟨hround, Usage.within_rounds.mpr hrounds⟩
  | round _ _ hrounds _ _ ih ihbody ihloop =>
    have hround := Usage.join_within.mpr ⟨ih, ihbody⟩
    have hrounds := Usage.join_within.mpr ⟨hround, Usage.within_rounds.mpr hrounds⟩
    exact Usage.join_within.mpr ⟨hrounds, ihloop⟩

/-- A derivation in which no guard stops the run holds under all guards that allow its rounds and
calls. -/
theorem Derives.under {r : Regime} {d : Nat} {q : Piece} {s : State} {o : Ended q.Result}
    {u : Usage} (h : Derives r d q s o u) {g : Guards} (hu : u.Within g) (ho : ¬HitsLimit o) :
    Derives { r with guards := g } d q s o u := by
  induction h with
  | noTerms => exact .noTerms
  | number _ ih => exact .number (ih hu ho)
  | name _ ih => exact .name (ih hu ho)
  | callStops _ ih => exact .callStops (ih hu (not_hitsLimit_error ho))
  | callMissing _ ih => exact .callMissing (ih hu (not_hitsLimit_ok _ _))
  | callValue _ _ ih ihrest =>
    obtain ⟨hcall, hrest⟩ := Usage.join_within.mp hu
    exact .callValue (ih hcall (not_hitsLimit_ok _ _)) (ihrest hrest ho)
  | operatorStops h => exact .operatorStops h
  | operator h _ ih => exact .operator h (ih hu ho)
  | parenthesis => exact .parenthesis
  | evaluate _ ih => exact .evaluate (ih hu (not_hitsLimit_of_andThen ho))
  | singleCall _ ih => exact .singleCall (ih hu ho)
  | statementValue he _ ih => exact .statementValue he (ih hu (not_hitsLimit_of_andThen ho))
  | noValues => exact .noValues
  | valueStops _ ih => exact .valueStops (ih hu (not_hitsLimit_error ho))
  | values _ _ ih ihrest =>
    obtain ⟨hfirst, hrest⟩ := Usage.join_within.mp hu
    exact .values (ih hfirst (not_hitsLimit_ok _ _)) (ihrest hrest (not_hitsLimit_of_andThen ho))
  | unknown hf => exact .unknown hf
  | wrongCount hf harity => exact .wrongCount hf harity
  | argumentStops hf harity _ ih => exact .argumentStops hf harity (ih hu (not_hitsLimit_error ho))
  | body hf harity _ _ _ ih ihbody =>
    obtain ⟨hboth, hdepth⟩ := Usage.join_within.mp hu
    obtain ⟨harguments, hbody⟩ := Usage.join_within.mp hboth
    exact .body hf harity (ih harguments (not_hitsLimit_ok _ _)) hdepth.depth
      (ihbody hbody (not_hitsLimit_leave_iff.mp ho))
  | tooDeep =>
    -- here and in `tooLong` a guard of the old regime has stopped the run
    exact absurd rfl ho
  | expression _ ih => exact .expression (ih hu (not_hitsLimit_of_andThen ho))
  | branchStops _ ih => exact .branchStops (ih hu (not_hitsLimit_error ho))
  | branchBody _ hx _ ih ihbody =>
    obtain ⟨hcondition, hbody⟩ := Usage.join_within.mp hu
    exact .branchBody (ih hcondition (not_hitsLimit_ok _ _)) hx (ihbody hbody ho)
  | branchOther _ hx _ ih ihother =>
    obtain ⟨hcondition, hother⟩ := Usage.join_within.mp hu
    exact .branchOther (ih hcondition (not_hitsLimit_ok _ _)) hx (ihother hother ho)
  | branchNothing _ hx ih => exact .branchNothing (ih hu (not_hitsLimit_ok _ _)) hx
  | loop _ ih => exact .loop (ih hu ho)
  | returning _ ih => exact .returning (ih hu (not_hitsLimit_of_andThen ho))
  | printing _ ih => exact .printing (ih hu (not_hitsLimit_of_andThen ho))
  | breaking => exact .breaking
  | finished => exact .finished
  | statementStops _ ih => exact .statementStops (ih hu (not_hitsLimit_error ho))
  | afterValue _ _ ih ihrest =>
    obtain ⟨hfirst, hrest⟩ := Usage.join_within.mp hu
    exact .afterValue (ih hfirst (not_hitsLimit_ok _ _)) (ihrest hrest ho)
  | afterNothing _ _ ih ihrest =>
    obtain ⟨hfirst, hrest⟩ := Usage.join_within.mp hu
    exact .afterNothing (ih hfirst (not_hitsLimit_ok _ _)) (ihrest hrest ho)
  | returned _ ih => exact .returned (ih hu (not_hitsLimit_ok _ _))
  | broke _ ih => exact .broke (ih hu (not_hitsLimit_ok _ _))
  | block _ ih => exact .block (ih hu (not_hitsLimit_of_andThen ho))
  | conditionStops _ ih => exact .conditionStops (ih hu (not_hitsLimit_error ho))
  | loopDone _ hx ih => exact .loopDone (ih hu (not_hitsLimit_ok _ _)) hx
  | tooLong => exact absurd rfl ho
  | roundStops _ hx _ _ ih ihbody =>
    obtain ⟨hboth, hrounds⟩ := Usage.join_within.mp hu
    obtain ⟨hcondition, hbody⟩ := Usage.join_within.mp hboth
    exact .roundStops (ih hcondition (not_hitsLimit_ok _ _)) hx hrounds.rounds
      (ihbody hbody (not_hitsLimit_error ho))
  | roundReturned _ hx _ _ ih ihbody =>
    obtain ⟨hboth, hrounds⟩ := Usage.join_within.mp hu
    obtain ⟨hcondition, hbody⟩ := Usage.join_within.mp hboth
    exact .roundReturned (ih hcondition (not_hitsLimit_ok _ _)) hx hrounds.rounds
      (ihbody hbody (not_hitsLimit_ok _ _))
  | roundBroke _ hx _ _ ih ihbody =>
    obtain ⟨hboth, hrounds⟩ := Usage.join_within.mp hu
    obtain ⟨hcondition, hbody⟩ := Usage.join_within.mp hboth
    exact .roundBroke (ih hcondition (not_hitsLimit_ok _ _)) hx hrounds.rounds
      (ihbody hbody (not_hitsLimit_ok _ _))
  | round _ hx _ _ _ ih ihbody ihloop =>
    obtain ⟨hfirst, hloop⟩ := Usage.join_within.mp hu
    obtain ⟨hboth, hrounds⟩ := Usage.join_within.mp hfirst
    obtain ⟨hcondition, hbody⟩ := Usage.join_within.mp hboth
    exact .round (ih hcondition (not_hitsLimit_ok _ _)) hx hrounds.rounds
      (ihbody hbody (not_hitsLimit_ok _ _)) (ihloop hloop ho)

/-! ### The bare language has no limits to hit -/

/-- A computation that no guard watches. -/
def Unwatched {α : Type} (m : Run α) : Prop := ∀ s, ¬HitsLimit (m s)

section Steps

variable {α β : Type}

theorem not_hitsLimit_andThen {o : Ended α} {f : α → Run β} (ho : ¬HitsLimit o)
    (hf : ∀ a, Unwatched (f a)) : ¬HitsLimit (andThen o f) := by
  cases o with
  | ok a s => exact hf a s
  | error e s => exact not_hitsLimit_error ho

theorem unwatched_pure (a : α) : Unwatched (pure a) := fun s => not_hitsLimit_ok a s

theorem unwatched_throw {e : Failure} (he : e ≠ .limit) : Unwatched (throw e : Run α) :=
  fun _ => mt hitsLimit_error_iff.mp he

theorem unwatched_fail (context : String) (p : Int) (kind : ErrorKind) :
    Unwatched (fail context p kind : Run α) := unwatched_throw (by rintro ⟨⟩)

theorem Unwatched.bind {m : Run α} {f : α → Run β} (hm : Unwatched m)
    (hf : ∀ a, Unwatched (f a)) : Unwatched (m >>= f) := by
  intro s
  rw [bind_run]
  exact not_hitsLimit_andThen (hm s) hf

end Steps

theorem resolve_unwatched (context : String) (a : Operand) : Unwatched (resolve context a) := by
  cases a with
  | value x => exact unwatched_pure x
  | reference name p =>
    have hget : Unwatched (get : Run State) := fun s => not_hitsLimit_ok s s
    refine hget.bind fun s => ?_
    split
    · exact unwatched_pure _
    · exact unwatched_fail context p _

theorem pop_unwatched (stack : List Operand) : Unwatched (pop stack) := by
  cases stack with
  | nil => exact unwatched_throw (by rintro ⟨⟩)
  | cons a stack => exact unwatched_pure _

theorem arithmetic_unwatched (context : String) (p : Int) (r : Numeric.Checked) :
    Unwatched (arithmetic context p r) := by
  cases r with
  | ok x => exact unwatched_pure x
  | error kind => exact unwatched_fail context p kind

theorem assign_unwatched (context : String) (p : Int) (x : Decimal) (a : Operand) :
    Unwatched (assign context p x a) := by
  cases a with
  | value _ => exact unwatched_fail context p _
  | reference name q => exact fun s => not_hitsLimit_ok _ _

theorem apply_unwatched (context : String) (p : Int) (op : Operator) (stack : List Operand) :
    Unwatched (apply context p op stack) := by
  unfold apply
  split
  · refine (pop_unwatched stack).bind fun (right, stack) => ?_
    refine (resolve_unwatched context right).bind fun x => ?_
    refine (pop_unwatched stack).bind fun (left, stack) => ?_
    exact (assign_unwatched context p x left).bind fun target => unwatched_pure _
  · refine (pop_unwatched stack).bind fun (operand, stack) => ?_
    refine (resolve_unwatched context operand).bind fun x => ?_
    exact (arithmetic_unwatched context p _).bind fun result => unwatched_pure _
  · refine (pop_unwatched stack).bind fun (right, stack) => ?_
    refine (resolve_unwatched context right).bind fun y => ?_
    refine (pop_unwatched stack).bind fun (left, stack) => ?_
    refine (resolve_unwatched context left).bind fun x => ?_
    exact (arithmetic_unwatched context p _).bind fun result => unwatched_pure _

theorem conclude_unwatched (context : String) (stack : List Operand) :
    Unwatched (conclude context stack) := by
  unfold conclude
  split
  · exact resolve_unwatched context _
  · exact unwatched_throw (by rintro ⟨⟩)

theorem printValue_unwatched (places : Nat) (x : Decimal) : Unwatched (printValue places x) := by
  unfold printValue display
  refine Unwatched.bind ?_ fun text => fun s => not_hitsLimit_ok _ _
  split
  · exact unwatched_pure _
  · exact unwatched_throw (by rintro ⟨⟩)

theorem Derives.not_hitsLimit {r : Regime} {d : Nat} {q : Piece} {s : State}
    {o : Ended q.Result} {u : Usage} (h : Derives r d q s o u) (hr : r.guards = .off) :
    ¬HitsLimit o := by
  induction h with
  | noTerms | noValues | breaking | finished | branchNothing | returned | broke | loopDone
  | roundReturned | roundBroke => exact not_hitsLimit_ok _ _
  | parenthesis | unknown | wrongCount | callMissing =>
    rw [hitsLimit_error_iff]
    rintro ⟨⟩
  | number _ ih | name _ ih | operator _ _ ih | singleCall _ ih | loop _ ih
  | callValue _ _ _ ih | branchBody _ _ _ _ ih | branchOther _ _ _ _ ih | afterValue _ _ _ ih
  | afterNothing _ _ _ ih | round _ _ _ _ _ _ _ ih => exact ih
  | callStops _ ih | valueStops _ ih | argumentStops _ _ _ ih | branchStops _ ih
  | statementStops _ ih | conditionStops _ ih | roundStops _ _ _ _ _ ih =>
    exact not_hitsLimit_error ih
  | operatorStops h =>
    rw [← h]
    exact apply_unwatched _ _ _ _ _
  | evaluate _ ih => exact not_hitsLimit_andThen ih fun stack => conclude_unwatched _ stack
  | printing _ ih => exact not_hitsLimit_andThen ih fun x => printValue_unwatched _ x
  | statementValue _ _ ih | values _ _ _ ih | expression _ ih | returning _ ih | block _ ih =>
    exact not_hitsLimit_andThen ih fun _ => unwatched_pure _
  | body _ _ _ _ _ _ ih => exact not_hitsLimit_leave_iff.mpr ih
  | tooDeep _ _ _ hlimit =>
    rw [hr] at hlimit
    cases hlimit
  | tooLong _ _ hlimit =>
    rw [hr] at hlimit
    cases hlimit

/-! ### Runs under limits -/

theorem within_of_iff {u : Usage} {settings : Settings} :
    u.Within (.of settings) ↔ u.rounds ≤ settings.loopLimit ∧ u.depth ≤ settings.callLimit := by
  constructor
  · exact fun h => ⟨h.rounds _ rfl, h.depth _ rfl⟩
  · rintro ⟨hrounds, hdepth⟩
    refine ⟨?_, ?_⟩
    · rintro limit ⟨⟩
      exact hrounds
    · rintro limit ⟨⟩
      exact hdepth

/-- The runs that no guard stops are those of the bare language that keep to the limits. -/
theorem run_eq_iff_derives (rules : Rules) (d : Nat) (q : Piece) (s : State)
    (o : Ended q.Result) :
    (q.run rules d s = o ∧ ¬HitsLimit o) ↔
      ∃ u, Derives (Regime.of rules).unguarded d q s o u ∧
        u.rounds ≤ rules.settings.loopLimit ∧ u.depth ≤ rules.settings.callLimit := by
  constructor
  · rintro ⟨rfl, ho⟩
    obtain ⟨u, h⟩ := q.derives rules d s
    exact ⟨u, h.under (Usage.within_off u) ho, within_of_iff.mp h.within⟩
  · rintro ⟨u, h, hu⟩
    have ho : ¬HitsLimit o := h.not_hitsLimit rfl
    have hguarded : Derives (.of rules) d q s o u := h.under (within_of_iff.mpr hu) ho
    exact ⟨hguarded.run_eq, ho⟩

/-- Guards cut runs off and do nothing else: what a run comes to without being stopped is what the
bare language derives within the limits, and raising the limits leaves it as it is. -/
theorem guards_only_cut_off :
    (∀ (rules : Rules) (d : Nat) (q : Piece) (s : State) (o : Ended q.Result),
      (q.run rules d s = o ∧ ¬HitsLimit o) ↔
        ∃ u, Derives (Regime.of rules).unguarded d q s o u ∧
          u.rounds ≤ rules.settings.loopLimit ∧ u.depth ≤ rules.settings.callLimit) ∧
    ∀ rules rules' : Rules, rules'.functions = rules.functions →
      rules'.settings.displayPlaces = rules.settings.displayPlaces →
      rules.settings.loopLimit ≤ rules'.settings.loopLimit →
      rules.settings.callLimit ≤ rules'.settings.callLimit →
      ∀ (d : Nat) (q : Piece) (s : State), ¬HitsLimit (q.run rules d s) →
        q.run rules' d s = q.run rules d s := by
  refine ⟨run_eq_iff_derives, ?_⟩
  intro rules rules' hfunctions hplaces hloop hcall d q s ho
  obtain ⟨u, h, hrounds, hdepth⟩ := (run_eq_iff_derives rules d q s _).mp ⟨rfl, ho⟩
  have hsame : (Regime.of rules').unguarded = (Regime.of rules).unguarded := by
    simp only [Regime.unguarded, Regime.of, hfunctions, hplaces]
  rw [← hsame] at h
  exact ((run_eq_iff_derives rules' d q s _).mpr
    ⟨u, h, Nat.le_trans hrounds hloop, Nat.le_trans hdepth hcall⟩).1

/-- A loop of one round under limits that allow one, and under the usual ones. -/
theorem guards_only_cut_off_one_round :
    let rules : Rules := ⟨{ loopLimit := 1, callLimit := 1 }, []⟩
    let rules' : Rules := ⟨{}, []⟩
    let e : Expression := ⟨"1", [.number 0 .one]⟩
    let q : Piece := .statements none [.loop "while 1 (break)" e [.breaking]]
    let s : State := { store := {} }
    rules'.functions = rules.functions ∧
      rules'.settings.displayPlaces = rules.settings.displayPlaces ∧
      rules.settings.loopLimit ≤ rules'.settings.loopLimit ∧
      rules.settings.callLimit ≤ rules'.settings.callLimit ∧
      ¬HitsLimit (q.run rules 0 s) ∧ q.run rules' 0 s = q.run rules 0 s := by
  intro rules rules' e q s
  have hnot : ¬HitsLimit (q.run rules 0 s) := by
    have h : Derives (.of rules) 0 q s (.ok (.finished none) s) _ :=
      .afterNothing (.loop (.roundBroke (.evaluate (.number .noTerms)) rfl
        (by rintro limit ⟨⟩; exact Nat.le_refl 1) (.broke .breaking))) .finished
    rw [h.run_eq]
    exact not_hitsLimit_ok _ _
  exact ⟨rfl, rfl, by decide, by decide, hnot,
    guards_only_cut_off.2 rules rules' rfl rfl (by decide) (by decide) 0 q s hnot⟩

end Abacus.Run
