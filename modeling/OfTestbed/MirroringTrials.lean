import Mathlib.Data.List.Basic
import OfTestbed.LibText

/-!
Solution types of the mirroring trials (`set_solution_type` in `trials/flow_mirroring_trial.py` and
`trials/port_mirroring_trial.py`) and the provider that yields its trials under one type after the other
(`port_mirroring/trial_provider.py`). A trial holds a solution map for each type, the map in force and the label of
its type; what a map holds does not matter here. `none` is a `ValueError`, which is raised before anything changes.
-/

namespace OfTestbed.PortMirroring

open Lib

/-- `type_name.lower()`, as far as comparisons with the names of the types see it: no letter of another alphabet
becomes one of theirs. -/
def lower (typeName : Text) : Text := typeName.map Char.toLower

inductive FlowSolutionType where
  | approx
  | optimal
  deriving DecidableEq

structure FlowMirroringTrial (σ : Type) where
  approxSolutions : σ
  optimalSolutions : σ
  solutions : σ
  solutionType : FlowSolutionType

namespace FlowMirroringTrial

variable {σ : Type}

/-- The constructor. -/
def new (approxSolutions optimalSolutions : σ) : FlowMirroringTrial σ where
  approxSolutions := approxSolutions
  optimalSolutions := optimalSolutions
  solutions := approxSolutions
  solutionType := .approx

/-- The branch for `approx` assigns to the local name `self_solutions`, so that the solutions stay. -/
def setSolutionType (trial : FlowMirroringTrial σ) (typeName : Text) : Option (FlowMirroringTrial σ) :=
  let lowerTypeName := lower typeName
  if lowerTypeName = "optimal".toList then
    some { trial with solutions := trial.optimalSolutions, solutionType := .optimal }
  else if lowerTypeName = "approx".toList then
    some { trial with solutionType := .approx }
  else
    none

def getSolutionTypes (_ : FlowMirroringTrial σ) : List Text := ["approx".toList, "optimal".toList]

/-- The solution map of a type. -/
def solutionsOf (trial : FlowMirroringTrial σ) : FlowSolutionType → σ
  | .approx => trial.approxSolutions
  | .optimal => trial.optimalSolutions

/-- The map in force is that of the label. -/
def Consistent (trial : FlowMirroringTrial σ) : Prop := trial.solutions = trial.solutionsOf trial.solutionType

end FlowMirroringTrial

inductive PortSolutionType where
  | det
  | df
  | greedy
  | optimal
  | rnd
  deriving DecidableEq

structure PortMirroringTrial (σ : Type) where
  detSolutions : σ
  dfSolutions : σ
  greedySolutions : σ
  optimalSolutions : σ
  rndSolutions : σ
  solutions : σ
  solutionType : PortSolutionType
  solutionTypes : List Text

namespace PortMirroringTrial

variable {σ : Type}

/-- The constructor. -/
def new (detSolutions dfSolutions greedySolutions optimalSolutions rndSolutions : σ) : PortMirroringTrial σ where
  detSolutions := detSolutions
  dfSolutions := dfSolutions
  greedySolutions := greedySolutions
  optimalSolutions := optimalSolutions
  rndSolutions := rndSolutions
  solutions := optimalSolutions
  solutionType := .optimal
  solutionTypes := ["det".toList, "df".toList, "greedy".toList, "optimal".toList, "rnd".toList]

def setSolutionType (trial : PortMirroringTrial σ) (typeName : Text) : Option (PortMirroringTrial σ) :=
  let lowerTypeName := lower typeName
  if lowerTypeName = "det".toList then
    some { trial with solutions := trial.detSolutions, solutionType := .det }
  else if lowerTypeName = "df".toList then
    some { trial with solutions := trial.dfSolutions, solutionType := .df }
  else if lowerTypeName = "greedy".toList then
    some { trial with solutions := trial.greedySolutions, solutionType := .greedy }
  else if lowerTypeName = "optimal".toList then
    some { trial with solutions := trial.optimalSolutions, solutionType := .optimal }
  else if lowerTypeName = "rnd".toList then
    some { trial with solutions := trial.rndSolutions, solutionType := .rnd }
  else
    none

def getSolutionTypes (trial : PortMirroringTrial σ) : List Text := trial.solutionTypes

/-- The setter of `solution_types`. -/
def setSolutionTypes (trial : PortMirroringTrial σ) (newSolutionTypes : List Text) : PortMirroringTrial σ :=
  { trial with solutionTypes := newSolutionTypes }

def getSolutionOfType (trial : PortMirroringTrial σ) : PortSolutionType → σ
  | .det => trial.detSolutions
  | .df => trial.dfSolutions
  | .greedy => trial.greedySolutions
  | .optimal => trial.optimalSolutions
  | .rnd => trial.rndSolutions

/-- The map in force is that of the label. -/
def Consistent (trial : PortMirroringTrial σ) : Prop :=
  trial.solutions = trial.getSolutionOfType trial.solutionType

end PortMirroringTrial

/-! ### Sequences of calls and passes over the trials -/

section Calls

variable {τ : Type} (set : τ → Text → Option τ)

/-- A call by a caller that goes on after a `ValueError`. -/
def call (trial : τ) (typeName : Text) : τ := (set trial typeName).getD trial

def calls (trial : τ) (typeNames : List Text) : τ := typeNames.foldl (call set) trial

namespace TrialProvider

variable (types : τ → List Text)

/-- The inner loop of the provider: the trial afterwards, the trials as they were yielded, and whether it raised. -/
def iterTypes (trial : τ) : List Text → τ × List τ × Bool
  | [] => (trial, [], false)
  | trialType :: rest =>
      match set trial trialType with
      | none => (trial, [], true)
      | some trial' =>
          let (final, yielded, raised) := iterTypes trial' rest
          (final, trial' :: yielded, raised)

/-- `TrialProvider.__iter__`: the trials afterwards, the trials as they were yielded, and whether it raised. -/
def iter : List τ → List τ × List τ × Bool
  | [] => ([], [], false)
  | trial :: rest =>
      match iterTypes set trial (types trial) with
      | (final, yielded, true) => (final :: rest, yielded, true)
      | (final, yielded, false) =>
          let (finals, more, raised) := iter rest
          (final :: finals, yielded ++ more, raised)

/-- The trials as they are yielded in a number of passes. -/
def passes : Nat → List τ → List τ
  | 0, _ => []
  | count + 1, trials =>
      let (after, yielded, _) := iter set types trials
      yielded ++ passes count after

variable {set types}

theorem passes_succ (count : Nat) (trials : List τ) : passes set types (count + 1) trials =
    (iter set types trials).2.1 ++ passes set types count (iter set types trials).1 := rfl

theorem passes_one (trials : List τ) : passes set types 1 trials = (iter set types trials).2.1 :=
  List.append_nil _

theorem iterTypes_preserves {inv : τ → Prop} (hset : ∀ trial typeName trial', inv trial →
    set trial typeName = some trial' → inv trial') (typeNames : List Text) {trial : τ} (h : inv trial) :
    inv (iterTypes set trial typeNames).1 ∧ ∀ yielded ∈ (iterTypes set trial typeNames).2.1, inv yielded := by
  induction typeNames generalizing trial with
  | nil => exact ⟨h, fun yielded hyielded => absurd hyielded List.not_mem_nil⟩
  | cons typeName rest ih =>
      rw [iterTypes]
      cases hcall : set trial typeName with
      | none => exact ⟨h, fun yielded hyielded => absurd hyielded List.not_mem_nil⟩
      | some trial' =>
          have hnext := hset trial typeName trial' h hcall
          obtain ⟨hfinal, hyields⟩ := ih hnext
          exact ⟨hfinal, List.forall_mem_cons.mpr ⟨hnext, hyields⟩⟩

theorem iter_preserves (types : τ → List Text) {inv : τ → Prop} (hset : ∀ trial typeName trial', inv trial →
    set trial typeName = some trial' → inv trial') {trials : List τ} (h : ∀ trial ∈ trials, inv trial) :
    (∀ trial ∈ (iter set types trials).1, inv trial) ∧ ∀ yielded ∈ (iter set types trials).2.1, inv yielded := by
  induction trials with
  | nil => exact ⟨h, h⟩
  | cons trial rest ih =>
      obtain ⟨htrial, hrest⟩ := List.forall_mem_cons.mp h
      obtain ⟨hfinal, hyields⟩ := iterTypes_preserves hset (types trial) htrial
      obtain ⟨hfinals, hmore⟩ := ih hrest
      rw [iter]
      rcases hpass : iterTypes set trial (types trial) with ⟨final, yielded, raised⟩
      rw [hpass] at hfinal hyields
      cases raised with
      | true => exact ⟨List.forall_mem_cons.mpr ⟨hfinal, hrest⟩, hyields⟩
      | false => exact ⟨List.forall_mem_cons.mpr ⟨hfinal, hfinals⟩, List.forall_mem_append.mpr ⟨hyields, hmore⟩⟩

/-- What every call preserves holds of every trial that is yielded. -/
theorem passes_preserves {inv : τ → Prop} (hset : ∀ trial typeName trial', inv trial →
    set trial typeName = some trial' → inv trial') (count : Nat) {trials : List τ}
    (h : ∀ trial ∈ trials, inv trial) : ∀ yielded ∈ passes set types count trials, inv yielded := by
  induction count generalizing trials with
  | zero => exact fun yielded hyielded => absurd hyielded List.not_mem_nil
  | succ count ih =>
      obtain ⟨hafter, hyields⟩ := iter_preserves types hset h
      exact List.forall_mem_append.mpr ⟨hyields, ih hafter⟩

end TrialProvider

variable {set}

theorem calls_preserves {inv : τ → Prop} (hset : ∀ trial typeName trial', inv trial →
    set trial typeName = some trial' → inv trial') (typeNames : List Text) {trial : τ} (h : inv trial) :
    inv (calls set trial typeNames) := by
  induction typeNames using List.reverseRecOn with
  | nil => exact h
  | append_singleton before last ih =>
      rw [calls, List.foldl_append, List.foldl_cons, List.foldl_nil, call]
      cases hcall : set (before.foldl (call set) trial) last with
      | none => exact ih
      | some trial' => exact hset _ last trial' ih hcall

end Calls

/-! ### Port mirroring trials -/

namespace PortMirroringTrial

variable {σ : Type}

/-- The trials that the constructor, calls and the setter of `solution_types` make. -/
inductive Reachable : PortMirroringTrial σ → Prop
  | new (detSolutions dfSolutions greedySolutions optimalSolutions rndSolutions : σ) :
      Reachable (new detSolutions dfSolutions greedySolutions optimalSolutions rndSolutions)
  | setSolutionTypes {trial : PortMirroringTrial σ} (newSolutionTypes : List Text) (htrial : Reachable trial) :
      Reachable (trial.setSolutionTypes newSolutionTypes)
  | setSolutionType {trial trial' : PortMirroringTrial σ} {typeName : Text} (htrial : Reachable trial)
      (hset : trial.setSolutionType typeName = some trial') : Reachable trial'

theorem consistent_of_setSolutionType {trial trial' : PortMirroringTrial σ} {typeName : Text}
    (h : trial.setSolutionType typeName = some trial') : trial'.Consistent := by
  simp only [setSolutionType] at h
  split_ifs at h
  all_goals
    cases h
    rfl

theorem Reachable.consistent {trial : PortMirroringTrial σ} (h : Reachable trial) : trial.Consistent := by
  induction h with
  | new => rfl
  | setSolutionTypes newSolutionTypes htrial ih => exact ih
  | setSolutionType htrial hset ih => exact consistent_of_setSolutionType hset

end PortMirroringTrial

/-! ### Flow mirroring trials -/

namespace FlowMirroringTrial

variable {σ : Type}

/-- The trial with the solutions of the type `optimal` and their label. -/
def installOptimal (trial : FlowMirroringTrial σ) : FlowMirroringTrial σ :=
  { trial with solutions := trial.optimalSolutions, solutionType := .optimal }

/-- The trial with the label `approx` and the solutions it had. -/
def labelApprox (trial : FlowMirroringTrial σ) : FlowMirroringTrial σ := { trial with solutionType := .approx }

/-- A call for the type `optimal`. -/
def AsksOptimal (typeName : Text) : Prop := lower typeName = "optimal".toList

/-- A call for the type `approx`. -/
def AsksApprox (typeName : Text) : Prop := lower typeName = "approx".toList

/-- What a call does. -/
theorem call_cases (trial : FlowMirroringTrial σ) (typeName : Text) :
    (AsksOptimal typeName ∧ ¬ AsksApprox typeName ∧ call setSolutionType trial typeName = trial.installOptimal) ∨
    (AsksApprox typeName ∧ ¬ AsksOptimal typeName ∧ call setSolutionType trial typeName = trial.labelApprox) ∨
    (¬ AsksOptimal typeName ∧ ¬ AsksApprox typeName ∧ call setSolutionType trial typeName = trial) := by
  simp only [AsksOptimal, AsksApprox, call, setSolutionType]
  by_cases hoptimal : lower typeName = "optimal".toList
  · have hother : "optimal".toList ≠ "approx".toList := by decide
    rw [hoptimal, if_pos rfl]
    exact Or.inl ⟨rfl, hother, rfl⟩
  · rw [if_neg hoptimal]
    by_cases happrox : lower typeName = "approx".toList
    · rw [if_pos happrox]
      exact Or.inr (Or.inl ⟨happrox, hoptimal, rfl⟩)
    · rw [if_neg happrox]
      exact Or.inr (Or.inr ⟨hoptimal, happrox, rfl⟩)

/-- What a sequence of calls on a new trial leaves: its two maps, and in force the map `optimal` from the first call
for it on. -/
structure After (approxSolutions optimalSolutions : σ) (typeNames : List Text) (trial : FlowMirroringTrial σ) :
    Prop where
  approxSolutions_eq : trial.approxSolutions = approxSolutions
  optimalSolutions_eq : trial.optimalSolutions = optimalSolutions
  of_asked : (∃ typeName ∈ typeNames, AsksOptimal typeName) → trial.solutions = optimalSolutions
  of_not_asked : (¬ ∃ typeName ∈ typeNames, AsksOptimal typeName) →
    trial.solutions = approxSolutions ∧ trial.solutionType = .approx

theorem After.call {approxSolutions optimalSolutions : σ} {typeNames : List Text} {trial : FlowMirroringTrial σ}
    (h : After approxSolutions optimalSolutions typeNames trial) (typeName : Text) :
    After approxSolutions optimalSolutions (typeNames ++ [typeName])
      (PortMirroring.call setSolutionType trial typeName) := by
  have hasked : (∃ name ∈ typeNames ++ [typeName], AsksOptimal name) ↔
      (∃ name ∈ typeNames, AsksOptimal name) ∨ AsksOptimal typeName := by
    simp only [List.mem_append, List.mem_singleton, or_and_right, exists_or, exists_eq_left]
  rcases call_cases trial typeName with ⟨hoptimal, -, hcall⟩ | ⟨-, hother, hcall⟩ | ⟨hother, -, hcall⟩
  · rw [hcall]
    exact ⟨h.approxSolutions_eq, h.optimalSolutions_eq, fun _ => h.optimalSolutions_eq,
      fun hnone => absurd (hasked.mpr (Or.inr hoptimal)) hnone⟩
  · rw [or_iff_left hother] at hasked
    rw [hcall]
    exact ⟨h.approxSolutions_eq, h.optimalSolutions_eq, fun hsome => h.of_asked (hasked.mp hsome),
      fun hnone => ⟨(h.of_not_asked (hasked.not.mp hnone)).1, rfl⟩⟩
  · rw [or_iff_left hother] at hasked
    rw [hcall]
    exact ⟨h.approxSolutions_eq, h.optimalSolutions_eq, fun hsome => h.of_asked (hasked.mp hsome),
      fun hnone => h.of_not_asked (hasked.not.mp hnone)⟩

theorem after_calls (approxSolutions optimalSolutions : σ) (typeNames : List Text) :
    After approxSolutions optimalSolutions typeNames
      (calls setSolutionType (new approxSolutions optimalSolutions) typeNames) := by
  induction typeNames using List.reverseRecOn with
  | nil =>
      refine ⟨rfl, rfl, ?_, fun _ => ⟨rfl, rfl⟩⟩
      intro hsome
      obtain ⟨typeName, hmem, -⟩ := hsome
      cases hmem
  | append_singleton before last ih =>
      rw [calls, List.foldl_append]
      exact ih.call last

/-- One more call keeps a trial consistent exactly when it does not ask for `approx` after a call for `optimal`. -/
theorem After.consistent_call_iff {approxSolutions optimalSolutions : σ} {typeNames : List Text}
    {trial : FlowMirroringTrial σ} (h : After approxSolutions optimalSolutions typeNames trial)
    (hconsistent : trial.Consistent) (typeName : Text) :
    (PortMirroring.call setSolutionType trial typeName).Consistent ↔ approxSolutions = optimalSolutions ∨
      ∀ earlier ∈ typeNames, ¬ (AsksOptimal earlier ∧ AsksApprox typeName) := by
  rcases call_cases trial typeName with ⟨-, hother, hcall⟩ | ⟨happrox, -, hcall⟩ | ⟨-, hother, hcall⟩
  · rw [hcall]
    exact iff_of_true rfl (Or.inr fun earlier _ hboth => hother hboth.2)
  · rw [hcall]
    have happroxIn : trial.labelApprox.Consistent ↔ trial.solutions = approxSolutions := by
      rw [← h.approxSolutions_eq]
      rfl
    rw [happroxIn]
    by_cases hasked : ∃ earlier ∈ typeNames, AsksOptimal earlier
    · have hnever : ¬ ∀ earlier ∈ typeNames, ¬ (AsksOptimal earlier ∧ AsksApprox typeName) := by
        obtain ⟨earlier, hmem, hoptimal⟩ := hasked
        exact fun hall => hall earlier hmem ⟨hoptimal, happrox⟩
      rw [h.of_asked hasked, or_iff_left hnever]
      exact eq_comm
    · refine iff_of_true (h.of_not_asked hasked).1 (Or.inr ?_)
      intro earlier hmem hboth
      exact hasked ⟨earlier, hmem, hboth.1⟩
  · rw [hcall]
    exact iff_of_true hconsistent (Or.inr fun earlier _ hboth => hother hboth.2)

/-- Along a sequence of calls on a new trial the map in force is that of the label exactly when both maps are the
same or the sequence does not come back to `approx` after `optimal`. -/
theorem consistent_calls_iff (approxSolutions optimalSolutions : σ) (typeNames : List Text) :
    (∀ before, before <+: typeNames →
      (calls setSolutionType (new approxSolutions optimalSolutions) before).Consistent) ↔
    approxSolutions = optimalSolutions ∨
      typeNames.Pairwise fun earlier later => ¬ (AsksOptimal earlier ∧ AsksApprox later) := by
  induction typeNames using List.reverseRecOn with
  | nil =>
      refine iff_of_true ?_ (Or.inr List.Pairwise.nil)
      intro before hbefore
      rw [List.prefix_nil.mp hbefore]
      rfl
  | append_singleton names last ih =>
      have hlast : calls setSolutionType (new approxSolutions optimalSolutions) (names ++ [last]) =
          call setSolutionType (calls setSolutionType (new approxSolutions optimalSolutions) names) last := by
        rw [calls, List.foldl_append]
        rfl
      have hprefixes : (∀ before, before <+: names ++ [last] →
          (calls setSolutionType (new approxSolutions optimalSolutions) before).Consistent) ↔
          (∀ before, before <+: names →
            (calls setSolutionType (new approxSolutions optimalSolutions) before).Consistent) ∧
          (calls setSolutionType (new approxSolutions optimalSolutions) (names ++ [last])).Consistent := by
        simp only [List.prefix_concat_iff, forall_eq_or_imp]
        exact and_comm
      have hpairs : (names ++ [last]).Pairwise (fun earlier later => ¬ (AsksOptimal earlier ∧ AsksApprox later)) ↔
          names.Pairwise (fun earlier later => ¬ (AsksOptimal earlier ∧ AsksApprox later)) ∧
          ∀ earlier ∈ names, ¬ (AsksOptimal earlier ∧ AsksApprox last) := by
        simp [List.pairwise_append]
      rw [hprefixes, hpairs, or_and_left, ← ih]
      apply and_congr_right
      intro hall
      rw [hlast]
      exact (after_calls approxSolutions optimalSolutions names).consistent_call_iff
        (hall names List.prefix_rfl) last

/-- One pass: each trial is yielded under the label `approx` and then with the solutions `optimal`. -/
theorem iter_eq (trials : List (FlowMirroringTrial σ)) :
    TrialProvider.iter setSolutionType getSolutionTypes trials =
      (trials.map installOptimal, trials.flatMap fun trial => [trial.labelApprox, trial.installOptimal], false) := by
  induction trials with
  | nil => rfl
  | cons trial rest ih =>
      have htypes : TrialProvider.iterTypes setSolutionType trial trial.getSolutionTypes =
          (trial.installOptimal, [trial.labelApprox, trial.installOptimal], false) := rfl
      rw [TrialProvider.iter, htypes, ih]
      rfl

/-- A pass over trials that hold the solutions `optimal`. -/
theorem consistent_iter_installOptimal_iff (trials : List (FlowMirroringTrial σ)) :
    (∀ yielded ∈ (TrialProvider.iter setSolutionType getSolutionTypes (trials.map installOptimal)).2.1,
      yielded.Consistent) ↔ ∀ trial ∈ trials, trial.optimalSolutions = trial.approxSolutions := by
  have hpair : ∀ trial : FlowMirroringTrial σ, (∀ yielded ∈ [trial.installOptimal.labelApprox,
      trial.installOptimal.installOptimal], yielded.Consistent) ↔
        trial.optimalSolutions = trial.approxSolutions := by
    intro trial
    rw [List.forall_mem_cons, List.forall_mem_singleton]
    exact and_iff_left rfl
  simp only [iter_eq, List.forall_mem_flatMap, List.forall_mem_map, hpair]

theorem consistent_passes_installOptimal_iff (count : Nat) (trials : List (FlowMirroringTrial σ)) :
    (∀ yielded ∈ TrialProvider.passes setSolutionType getSolutionTypes (count + 1) (trials.map installOptimal),
      yielded.Consistent) ↔ ∀ trial ∈ trials, trial.optimalSolutions = trial.approxSolutions := by
  induction count with
  | zero =>
      rw [TrialProvider.passes_one]
      exact consistent_iter_installOptimal_iff trials
  | succ count ih =>
      have hagain : (TrialProvider.iter setSolutionType getSolutionTypes (trials.map installOptimal)).1 =
          trials.map installOptimal := by
        rw [iter_eq, List.map_map]
        rfl
      rw [TrialProvider.passes_succ, List.forall_mem_append, hagain, ih, consistent_iter_installOptimal_iff, and_self]

/-- The maps of a provider's new trials are yielded under their own labels in the first pass, and in later passes only
if they are the same. -/
theorem consistent_passes_iff (count : Nat) (maps : List (σ × σ)) :
    (∀ yielded ∈ TrialProvider.passes setSolutionType getSolutionTypes count
      (maps.map fun pair => new pair.1 pair.2), yielded.Consistent) ↔
    count ≤ 1 ∨ ∀ pair ∈ maps, pair.1 = pair.2 := by
  have hfirst : ∀ yielded ∈ (TrialProvider.iter setSolutionType getSolutionTypes
      (maps.map fun pair => new pair.1 pair.2)).2.1, yielded.Consistent := by
    simp only [iter_eq, List.forall_mem_flatMap, List.forall_mem_map]
    intro pair _
    rw [List.forall_mem_cons, List.forall_mem_singleton]
    exact ⟨rfl, rfl⟩
  match count with
  | 0 => exact iff_of_true (fun yielded hyielded => absurd hyielded List.not_mem_nil) (Or.inl (by omega))
  | 1 =>
      rw [TrialProvider.passes_one]
      exact iff_of_true hfirst (Or.inl (by omega))
  | count + 2 =>
      have hafter : (TrialProvider.iter setSolutionType getSolutionTypes
          (maps.map fun pair => new pair.1 pair.2)).1 =
            (maps.map fun pair => new pair.1 pair.2).map installOptimal := by
        rw [iter_eq]
      rw [TrialProvider.passes_succ, List.forall_mem_append, and_iff_right hfirst, hafter,
        consistent_passes_installOptimal_iff, or_iff_right (by omega), List.forall_mem_map]
      exact forall₂_congr fun pair _ => eq_comm

end FlowMirroringTrial

/-- The map in force is that of the label: always for port mirroring trials, and for flow mirroring trials exactly
as long as no call comes back to `approx` after `optimal`, unless both maps are the same. -/
theorem solutions_match_label_iff (σ : Type) :
    (∀ (trial : PortMirroringTrial σ), trial.Reachable → ∀ typeNames : List Text,
      (calls PortMirroringTrial.setSolutionType trial typeNames).Consistent) ∧
    (∀ (count : Nat) (trials : List (PortMirroringTrial σ)), (∀ trial ∈ trials, trial.Reachable) →
      ∀ yielded ∈ TrialProvider.passes PortMirroringTrial.setSolutionType PortMirroringTrial.getSolutionTypes
        count trials, yielded.Consistent) ∧
    (∀ (approx optimal : σ) (typeNames : List Text),
      (∀ before, before <+: typeNames →
        (calls FlowMirroringTrial.setSolutionType (.new approx optimal) before).Consistent) ↔
      approx = optimal ∨ typeNames.Pairwise fun earlier later =>
        ¬ (FlowMirroringTrial.AsksOptimal earlier ∧ FlowMirroringTrial.AsksApprox later)) ∧
    (∀ (count : Nat) (maps : List (σ × σ)),
      (∀ yielded ∈ TrialProvider.passes FlowMirroringTrial.setSolutionType FlowMirroringTrial.getSolutionTypes count
        (maps.map fun pair => .new pair.1 pair.2), yielded.Consistent) ↔
      count ≤ 1 ∨ ∀ pair ∈ maps, pair.1 = pair.2) := by
  have hport : ∀ (trial : PortMirroringTrial σ) (typeName : Text) (trial' : PortMirroringTrial σ),
      trial.Consistent → trial.setSolutionType typeName = some trial' → trial'.Consistent :=
    fun _ _ _ _ => PortMirroringTrial.consistent_of_setSolutionType
  refine ⟨?_, ?_, FlowMirroringTrial.consistent_calls_iff, FlowMirroringTrial.consistent_passes_iff⟩
  · intro trial htrial typeNames
    exact calls_preserves hport typeNames htrial.consistent
  · intro count trials htrials
    exact TrialProvider.passes_preserves hport count fun trial htrial => (htrials trial htrial).consistent

theorem solutions_match_label_iff_fiveMaps :
    (calls PortMirroringTrial.setSolutionType (.new 1 2 3 4 5) ["RND".toList, "none".toList, "det".toList]).Consistent ∧
    ∀ yielded ∈ TrialProvider.passes PortMirroringTrial.setSolutionType PortMirroringTrial.getSolutionTypes 3
      [.new 1 2 3 4 5], yielded.Consistent :=
  ⟨(solutions_match_label_iff Nat).1 _ (.new 1 2 3 4 5) _,
    (solutions_match_label_iff Nat).2.1 3 _ (List.forall_mem_singleton.mpr (.new 1 2 3 4 5))⟩

/-- After a call for `optimal` and one for `approx` the solutions `optimal` bear the label `approx`, and so they do
in the second pass of a provider. -/
theorem optimal_labelled_approx :
    ¬ (calls FlowMirroringTrial.setSolutionType (.new 1 2) ["Optimal".toList, "approx".toList]).Consistent ∧
    ¬ ∀ yielded ∈ TrialProvider.passes FlowMirroringTrial.setSolutionType FlowMirroringTrial.getSolutionTypes 2
      [.new 1 2], yielded.Consistent := by
  have hsecond : ¬ (FlowMirroringTrial.mk 1 2 2 .approx).Consistent := by
    intro hconsistent
    exact absurd (show 2 = 1 from hconsistent) (by decide)
  refine ⟨hsecond, fun hall => hsecond (hall _ ?_)⟩
  exact List.mem_cons_of_mem _ (List.mem_cons_of_mem _ List.mem_cons_self)

end OfTestbed.PortMirroring
