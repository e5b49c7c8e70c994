import Mathlib.Data.Char
import Mathlib.Data.Finset.Card
import Mathlib.Data.List.Lex
import OfTestbed.LibDict
import OfTestbed.LibText

/-!
Trial providers in a results repository: `Trial` and `TrialProvider` (`nw_control/trial_provider.py`) and
`write_trial_provider` (`nw_control/results_repository.py`). The repository keeps one provider file for each choice of
the schema variables; here it is the file of one choice, and pickling is faithful. A call changes the provider that it
is given as well as the file, so both are its state. The order in which a loop walks a set is a parameter.
-/

namespace OfTestbed.Repository

open Lib

variable {β : Type}

structure ValueError where
  message : Text
  deriving DecidableEq

def trialNameKey : Text := "trial-name".toList

def idKey : Text := "id".toList

/-- A trial with its parameters; its name and its id are set when it is made and cannot be removed. -/
structure Trial (β : Type) where
  name : β
  parameters : Dict Text β
  hasTrialName : (parameters.get? trialNameKey).isSome
  hasId : (parameters.get? idKey).isSome
  deriving DecidableEq

namespace Trial

/-- `Trial(name)`, with the id that the random number generator gives. -/
def init (name randomId : β) : Trial β where
  name := name
  parameters := (Dict.empty.set trialNameKey name).set idKey randomId
  hasTrialName := by
    rw [Dict.get?_set_of_ne (by decide), Dict.get?_set_self]
    rfl
  hasId := by
    rw [Dict.get?_set_self]
    rfl

/-- `t.get_parameter("trial-name")`. -/
def trialName (t : Trial β) : β := (t.parameters.get? trialNameKey).get t.hasTrialName

/-- `t.get_parameter("id")`. -/
def id (t : Trial β) : β := (t.parameters.get? idKey).get t.hasId

end Trial

structure TrialProvider (β : Type) where
  providerName : Text
  trials : List (Trial β)

namespace TrialProvider

def addTrial (provider : TrialProvider β) (theTrial : Trial β) : TrialProvider β :=
  { provider with trials := provider.trials ++ [theTrial] }

def getAllTrialsThatMatch (provider : TrialProvider β) (matchFn : Trial β → Bool) : List (Trial β) :=
  provider.trials.filter matchFn

def trialNames [DecidableEq β] (provider : TrialProvider β) : Finset β :=
  (provider.trials.map Trial.trialName).toFinset

def ids [DecidableEq β] (provider : TrialProvider β) : Finset β := (provider.trials.map Trial.id).toFinset

variable [DecidableEq β]

def removeTrial (provider : TrialProvider β) (trialToRemove : Trial β) : TrialProvider β :=
  { provider with trials := provider.trials.erase trialToRemove }

def removeAllTrialsThatMatch (provider : TrialProvider β) (matchFn : Trial β → Bool) : TrialProvider β :=
  (provider.getAllTrialsThatMatch matchFn).foldl removeTrial provider

end TrialProvider

/-- The file of the schema variables and the provider that is passed. -/
structure WriteState (β : Type) where
  stored : Option (TrialProvider β)
  passed : TrialProvider β

def sameId : ValueError := ⟨"Attempting to overwrite trials with the same ID.".toList⟩

def sameName : ValueError :=
  ⟨"Attempting to overwrite trials with the same name without specifying overwrite".toList⟩

variable [DecidableEq β]

/-- The outcome of a call, and the file and the passed provider after it. -/
def writeTrialProvider (order : SetOrder β) (overwrite mergeExisting : Bool) (state : WriteState β) :
    Except ValueError Unit × WriteState β :=
  match state.stored with
  | none => (.ok (), { state with stored := some state.passed })
  | some existing =>
      let idIntersection := existing.ids ∩ state.passed.ids
      let nameIntersection := existing.trialNames ∩ state.passed.trialNames
      if idIntersection.card ≠ 0 then (.error sameId, state)
      else if nameIntersection.card ≠ 0 ∧ ¬ overwrite then (.error sameName, state)
      else
        let existing := (order.list nameIntersection).foldl (fun existing duplicatedName =>
          existing.removeAllTrialsThatMatch fun t => t.trialName = duplicatedName) existing
        let passed := if mergeExisting then existing.trials.foldl TrialProvider.addTrial state.passed
          else state.passed
        (.ok (), ⟨some passed, passed⟩)

/-! ### What one call does -/

namespace TrialProvider

theorem trials_foldl_removeTrial (removed : List (Trial β)) (provider : TrialProvider β) :
    (removed.foldl removeTrial provider).trials = removed.foldl List.erase provider.trials := by
  induction removed generalizing provider with
  | nil => rfl
  | cons t rest ih => exact ih (provider.removeTrial t)

/-- Removing the matching trials one by one leaves the others in their order. Trials are removed by identity in the
source; which of two equal trials goes first does not matter, as both go. -/
theorem trials_removeAllTrialsThatMatch (provider : TrialProvider β) (matchFn : Trial β → Bool) :
    (provider.removeAllTrialsThatMatch matchFn).trials = provider.trials.filter (!matchFn ·) := by
  suffices h : ∀ kept trials : List (Trial β), (∀ t ∈ kept, matchFn t = false) →
      (trials.filter matchFn).foldl List.erase (kept ++ trials) = kept ++ trials.filter (!matchFn ·) by
    rw [removeAllTrialsThatMatch, trials_foldl_removeTrial]
    exact h [] provider.trials (by simp)
  intro kept trials hkept
  -- `kept` are the trials before the current one that do not match; an erasure passes over them
  induction trials generalizing kept with
  | nil => rfl
  | cons t rest ih =>
      cases hmatch : matchFn t with
      | true =>
          have hnotMem : t ∉ kept := by
            intro hmem
            rw [hkept t hmem] at hmatch
            cases hmatch
          rw [List.filter_cons_of_pos hmatch, List.foldl_cons, List.erase_append_right _ hnotMem,
            List.erase_cons_head, ih kept hkept, List.filter_cons_of_neg (by simp [hmatch])]
      | false =>
          have hkept' : ∀ t' ∈ kept ++ [t], matchFn t' = false := by
            intro t' ht'
            rcases List.mem_append.mp ht' with hmem | hlast
            · exact hkept t' hmem
            · rw [List.mem_singleton.mp hlast, hmatch]
          have hrest := ih (kept ++ [t]) hkept'
          rw [List.append_assoc, List.append_assoc, List.singleton_append] at hrest
          rw [List.filter_cons_of_neg (by simp [hmatch]), List.filter_cons_of_pos (by simp [hmatch])]
          exact hrest

theorem trials_removeAllTrialsNamed (names : List β) (provider : TrialProvider β) :
    (names.foldl (fun provider name => provider.removeAllTrialsThatMatch fun t => t.trialName = name) provider).trials =
      provider.trials.filter fun t => t.trialName ∉ names := by
  induction names generalizing provider with
  | nil => simp
  | cons name rest ih =>
      rw [List.foldl_cons, ih, trials_removeAllTrialsThatMatch, List.filter_filter]
      apply List.filter_congr
      intro t _
      simp [not_or, Bool.and_comm]

omit [DecidableEq β] in
theorem foldl_addTrial (trials : List (Trial β)) (provider : TrialProvider β) :
    trials.foldl addTrial provider = { provider with trials := provider.trials ++ trials } := by
  induction trials generalizing provider with
  | nil => simp
  | cons t rest ih =>
      rw [List.foldl_cons, ih]
      simp [addTrial]

theorem mem_trialNames {provider : TrialProvider β} {t : Trial β} (h : t ∈ provider.trials) :
    t.trialName ∈ provider.trialNames :=
  List.mem_toFinset.mpr (List.mem_map_of_mem h)

theorem mem_ids {provider : TrialProvider β} {t : Trial β} (h : t ∈ provider.trials) : t.id ∈ provider.ids :=
  List.mem_toFinset.mpr (List.mem_map_of_mem h)

end TrialProvider

/-- The trials that a call which may go on leaves: those of its provider, and behind them, if they are to be merged,
the stored ones of other names. -/
def merged (passed existing : TrialProvider β) (mergeExisting : Bool) : TrialProvider β :=
  { passed with trials := passed.trials ++
      if mergeExisting then existing.trials.filter (·.trialName ∉ passed.trialNames) else [] }

/-- A call raises for a common id, and for a common name unless it may overwrite; then nothing has changed. -/
theorem writeTrialProvider_some (order : SetOrder β) (overwrite mergeExisting : Bool)
    (existing passed : TrialProvider β) :
    writeTrialProvider order overwrite mergeExisting ⟨some existing, passed⟩ =
      if ¬ Disjoint existing.ids passed.ids then (.error sameId, ⟨some existing, passed⟩)
      else if ¬ Disjoint existing.trialNames passed.trialNames ∧ overwrite = false then
        (.error sameName, ⟨some existing, passed⟩)
      else (.ok (), ⟨some (merged passed existing mergeExisting), merged passed existing mergeExisting⟩) := by
  have hmerged : (if mergeExisting then ((order.list (existing.trialNames ∩ passed.trialNames)).foldl
      (fun existing duplicatedName => existing.removeAllTrialsThatMatch fun t => t.trialName = duplicatedName)
      existing).trials.foldl TrialProvider.addTrial passed else passed) = merged passed existing mergeExisting := by
    cases mergeExisting with
    | false => simp [merged]
    | true =>
        rw [if_pos rfl, TrialProvider.foldl_addTrial, TrialProvider.trials_removeAllTrialsNamed, merged, if_pos rfl]
        congr 2
        apply List.filter_congr
        intro t ht
        simp [order.mem_list, TrialProvider.mem_trialNames ht]
  simp only [writeTrialProvider, hmerged, Finset.card_ne_zero, ← Finset.not_disjoint_iff_nonempty_inter,
    Bool.not_eq_true]

/-- Two lists of trials that have a parameter in common. -/
theorem not_disjoint_iff_exists_common (parameter : Trial β → β) (trials trials' : List (Trial β)) :
    ¬ Disjoint (trials.map parameter).toFinset (trials'.map parameter).toFinset ↔
      ∃ t ∈ trials, ∃ t' ∈ trials', parameter t = parameter t' := by
  simp only [Finset.not_disjoint_iff, List.mem_toFinset, List.mem_map]
  constructor
  · rintro ⟨_, ⟨t, ht, rfl⟩, t', ht', heq⟩
    exact ⟨t, ht, t', ht', heq.symm⟩
  · rintro ⟨t, ht, t', ht', heq⟩
    exact ⟨parameter t, ⟨t, ht, rfl⟩, t', ht', heq.symm⟩

/-- Trials with different ids have different ids after merging, if no id is common to both providers. -/
theorem nodup_ids_merged {passed existing : TrialProvider β} (hpassed : (passed.trials.map Trial.id).Nodup)
    (hexisting : (existing.trials.map Trial.id).Nodup) (hids : Disjoint existing.ids passed.ids)
    (mergeExisting : Bool) :
    ((merged passed existing mergeExisting).trials.map Trial.id).Nodup := by
  cases mergeExisting with
  | false =>
      unfold merged
      rw [if_neg Bool.false_ne_true, List.append_nil]
      exact hpassed
  | true =>
      unfold merged
      rw [if_pos rfl, List.map_append, List.nodup_append]
      refine ⟨hpassed, (List.filter_sublist.map Trial.id).nodup hexisting, ?_⟩
      intro trialId hmem trialId' hmem' heq
      obtain ⟨t, ht, rfl⟩ := List.mem_map.mp hmem
      obtain ⟨t', ht', rfl⟩ := List.mem_map.mp hmem'
      exact Finset.disjoint_left.mp hids (TrialProvider.mem_ids (List.mem_filter.mp ht').1)
        (heq ▸ TrialProvider.mem_ids ht)

/-- A merging call raises exactly for a common id or, unless it may overwrite, a common name, and then nothing has
changed. Otherwise it stores the new trials and behind them the stored ones of other names, all with different ids. -/
theorem merging_call_raises_or_merges (order : SetOrder β) (overwrite : Bool) (existing passed : TrialProvider β)
    (hexisting : (existing.trials.map Trial.id).Nodup) (hpassed : (passed.trials.map Trial.id).Nodup) :
    ((∃ error, (writeTrialProvider order overwrite true ⟨some existing, passed⟩).1 = .error error) ↔
      (∃ t ∈ existing.trials, ∃ t' ∈ passed.trials, t.id = t'.id) ∨
        overwrite = false ∧ ∃ t ∈ existing.trials, ∃ t' ∈ passed.trials, t.trialName = t'.trialName) ∧
    (∀ error, (writeTrialProvider order overwrite true ⟨some existing, passed⟩).1 = .error error →
      (writeTrialProvider order overwrite true ⟨some existing, passed⟩).2 = ⟨some existing, passed⟩) ∧
    ((writeTrialProvider order overwrite true ⟨some existing, passed⟩).1 = .ok () →
      ∃ stored, (writeTrialProvider order overwrite true ⟨some existing, passed⟩).2.stored = some stored ∧
        stored.trials = passed.trials ++
          existing.trials.filter (fun t => ∀ t' ∈ passed.trials, t'.trialName ≠ t.trialName) ∧
        (stored.trials.map Trial.id).Nodup) := by
  rw [← not_disjoint_iff_exists_common, ← not_disjoint_iff_exists_common, writeTrialProvider_some]
  show (_ ↔ ¬ Disjoint existing.ids passed.ids ∨
    overwrite = false ∧ ¬ Disjoint existing.trialNames passed.trialNames) ∧ _
  by_cases hids : Disjoint existing.ids passed.ids
  · rw [if_neg (not_not.mpr hids)]
    by_cases hraises : ¬ Disjoint existing.trialNames passed.trialNames ∧ overwrite = false
    · rw [if_pos hraises]
      refine ⟨⟨fun _ => .inr ⟨hraises.2, hraises.1⟩, fun _ => ⟨_, rfl⟩⟩, fun _ _ => rfl, fun hok => ?_⟩
      cases hok
    · rw [if_neg hraises]
      refine ⟨⟨?_, ?_⟩, ?_, fun _ => ⟨_, rfl, ?_, nodup_ids_merged hpassed hexisting hids true⟩⟩
      · rintro ⟨error, herror⟩
        cases herror
      · rintro (hcommon | hcommon)
        · exact absurd hids hcommon
        · exact absurd ⟨hcommon.2, hcommon.1⟩ hraises
      · intro error herror
        cases herror
      · unfold merged
        rw [if_pos rfl]
        apply congrArg (passed.trials ++ ·)
        apply List.filter_congr
        intro t _
        simp only [TrialProvider.trialNames, List.mem_toFinset, List.mem_map, not_exists, not_and]
  · rw [if_pos hids]
    refine ⟨⟨fun _ => .inl hids, fun _ => ⟨_, rfl⟩⟩, fun _ _ => rfl, fun hok => ?_⟩
    cases hok

/-- Sets of texts in alphabetical order. -/
def alphabetical : SetOrder Text := SetOrder.byKey id fun _ _ h => h

/-- A provider of trials with the given names and ids. -/
def providerOf (trials : List (String × String)) : TrialProvider Text :=
  ⟨"mininet-trial".toList, trials.map fun t => Trial.init t.1.toList t.2.toList⟩

theorem merging_call_raises_or_merges_repeated : ∃ stored,
    (writeTrialProvider alphabetical true true ⟨some (providerOf [("ring", "1"), ("star", "2"), ("ring", "3")]),
      providerOf [("ring", "4")]⟩).2.stored = some stored ∧
    stored.trials = (providerOf [("ring", "4"), ("star", "2")]).trials ∧ (stored.trials.map Trial.id).Nodup := by
  have hcall := merging_call_raises_or_merges alphabetical true
    (providerOf [("ring", "1"), ("star", "2"), ("ring", "3")]) (providerOf [("ring", "4")]) (by decide) (by decide)
  obtain ⟨stored, hstored, htrials, hnodup⟩ := hcall.2.2 rfl
  exact ⟨stored, hstored, htrials.trans (by decide), hnodup⟩

/-! ### Sequences of calls -/

/-- The arguments of a call. -/
structure Call (β : Type) where
  trialProvider : TrialProvider β
  overwrite : Bool
  mergeExisting : Bool

/-- The file after a call that succeeds. -/
def Call.write (order : SetOrder β) (stored : Option (TrialProvider β)) (call : Call β) :
    Option (Option (TrialProvider β)) :=
  match writeTrialProvider order call.overwrite call.mergeExisting ⟨stored, call.trialProvider⟩ with
  | (.ok (), state) => some state.stored
  | (.error _, _) => none

/-- The file after calls that all succeed. -/
def storedAfter (order : SetOrder β) (stored : Option (TrialProvider β)) (calls : List (Call β)) :
    Option (Option (TrialProvider β)) := calls.foldlM (Call.write order) stored

def storedTrials : Option (TrialProvider β) → List (Trial β)
  | none => []
  | some provider => provider.trials

theorem storedAfter_append (order : SetOrder β) (stored : Option (TrialProvider β)) (calls calls' : List (Call β)) :
    storedAfter order stored (calls ++ calls') =
      (storedAfter order stored calls).bind fun between => storedAfter order between calls' := by
  rw [storedAfter, List.foldlM_append]
  rfl

theorem storedAfter_concat (order : SetOrder β) (stored : Option (TrialProvider β)) (calls : List (Call β))
    (call : Call β) : storedAfter order stored (calls ++ [call]) =
      (storedAfter order stored calls).bind fun before => Call.write order before call := by
  rw [storedAfter_append]
  congr 1
  funext before
  simp [storedAfter]

section Steps

variable {order : SetOrder β} {stored stored' : Option (TrialProvider β)} {call : Call β}

/-- Without overwriting, a call that succeeds stores new trials only, and behind them those stored before if these are
merged. -/
theorem storedTrials_of_write (hno : call.overwrite = false) (hwrite : call.write order stored = some stored') :
    (∀ t ∈ storedTrials stored, t ∉ call.trialProvider.trials) ∧
    storedTrials stored' = call.trialProvider.trials ++ if call.mergeExisting then storedTrials stored else [] := by
  rw [Call.write, hno] at hwrite
  cases stored with
  | none =>
      cases hwrite
      refine ⟨by simp [storedTrials], ?_⟩
      simp [storedTrials]
  | some existing =>
      rw [writeTrialProvider_some] at hwrite
      by_cases hids : Disjoint existing.ids call.trialProvider.ids
      · by_cases hnames : Disjoint existing.trialNames call.trialProvider.trialNames
        · rw [if_neg (not_not.mpr hids), if_neg (fun h => h.1 hnames)] at hwrite
          cases hwrite
          have hkept : existing.trials.filter (·.trialName ∉ call.trialProvider.trialNames) = existing.trials := by
            apply List.filter_eq_self.mpr
            intro t ht
            exact decide_eq_true (Finset.disjoint_left.mp hnames (TrialProvider.mem_trialNames ht))
          refine ⟨fun t ht hmem => ?_, ?_⟩
          · exact Finset.disjoint_left.mp hids (TrialProvider.mem_ids ht) (TrialProvider.mem_ids hmem)
          · simp only [storedTrials, merged, hkept]
        · rw [if_neg (not_not.mpr hids), if_pos ⟨hnames, rfl⟩] at hwrite
          cases hwrite
      · rw [if_pos hids] at hwrite
        cases hwrite

theorem storedTrials_subset_iff (hno : call.overwrite = false) (hwrite : call.write order stored = some stored') :
    storedTrials stored ⊆ storedTrials stored' ↔ storedTrials stored = [] ∨ call.mergeExisting = true := by
  obtain ⟨hnew, heq⟩ := storedTrials_of_write hno hwrite
  cases hmerge : call.mergeExisting with
  | true =>
      rw [heq, hmerge, if_pos rfl]
      exact ⟨fun _ => .inr rfl, fun _ => List.subset_append_right ..⟩
  | false =>
      rw [heq, hmerge, if_neg Bool.false_ne_true, List.append_nil]
      constructor
      · intro hsubset
        exact .inl (List.eq_nil_iff_forall_not_mem.mpr fun t ht => hnew t ht (hsubset ht))
      · intro h
        rcases h with hnil | hfalse
        · rw [hnil]
          exact List.nil_subset _
        · cases hfalse

end Steps

/-- No trial that is stored after some of the calls is missing after more of them. -/
def NeverLost (order : SetOrder β) (stored : Option (TrialProvider β)) (calls : List (Call β)) : Prop :=
  ∀ earlier between later, calls = earlier ++ between ++ later →
    ∀ before after, storedAfter order stored earlier = some before →
      storedAfter order stored (earlier ++ between) = some after → storedTrials before ⊆ storedTrials after

/-- Every call that finds trials stored merges them. -/
def MergesStored (order : SetOrder β) (stored : Option (TrialProvider β)) (calls : List (Call β)) : Prop :=
  ∀ earlier call later, calls = earlier ++ call :: later →
    ∀ before, storedAfter order stored earlier = some before →
      storedTrials before = [] ∨ call.mergeExisting = true

/-- Each call stores the trials of its provider and, if it merges, behind them the trials stored before it. -/
def StoresOwnAndMerged (order : SetOrder β) (stored : Option (TrialProvider β)) (calls : List (Call β)) : Prop :=
  ∀ earlier call later, calls = earlier ++ call :: later →
    ∀ before after, storedAfter order stored earlier = some before →
      storedAfter order stored (earlier ++ [call]) = some after →
      storedTrials after = call.trialProvider.trials ++ if call.mergeExisting then storedTrials before else []

/-- What is stored before a run of merging calls is stored after it. -/
theorem MergesStored.subset {order : SetOrder β} {stored final : Option (TrialProvider β)} {calls : List (Call β)}
    (h : MergesStored order stored calls) (hno : ∀ call ∈ calls, call.overwrite = false)
    (hrun : storedAfter order stored calls = some final) : storedTrials stored ⊆ storedTrials final := by
  have hend : storedAfter order stored calls = some final ∧ storedTrials stored ⊆ storedTrials final := by
    refine foldlM_partial (fun done current => storedAfter order stored done = some current ∧
      storedTrials stored ⊆ storedTrials current) ⟨rfl, List.Subset.refl _⟩ ?_ hrun
    intro done call rest current current' hsplit hdone hwrite
    have hkept : storedTrials current ⊆ storedTrials current' :=
      (storedTrials_subset_iff (hno call (by rw [hsplit]; simp)) hwrite).mpr (h done call rest hsplit current hdone.1)
    refine ⟨?_, List.Subset.trans hdone.2 hkept⟩
    rw [storedAfter_concat, hdone.1]
    exact hwrite
  exact hend.2

/-- In a sequence of successful calls that do not overwrite, no stored trial is lost exactly when every call that finds
trials stored merges them; a call that does not merge replaces them by its own. -/
theorem never_lost_iff_merges_stored (order : SetOrder β) (stored final : Option (TrialProvider β))
    (calls : List (Call β)) (hno : ∀ call ∈ calls, call.overwrite = false)
    (hrun : storedAfter order stored calls = some final) :
    StoresOwnAndMerged order stored calls ∧ (NeverLost order stored calls ↔ MergesStored order stored calls) := by
  have hwrites : ∀ earlier call later, calls = earlier ++ call :: later →
      ∀ before, storedAfter order stored earlier = some before → ∃ after, call.write order before = some after := by
    intro earlier call later hsplit before hbefore
    rw [hsplit, storedAfter_append, hbefore, Option.bind_some, storedAfter, List.foldlM_cons] at hrun
    obtain ⟨after, hafter, -⟩ := Option.bind_eq_some_iff.mp hrun
    exact ⟨after, hafter⟩
  refine ⟨?_, ?_, ?_⟩
  · intro earlier call later hsplit before after hbefore hafter
    rw [storedAfter_concat, hbefore, Option.bind_some] at hafter
    exact (storedTrials_of_write (hno call (by rw [hsplit]; simp)) hafter).2
  · intro hkept earlier call later hsplit before hbefore
    obtain ⟨after, hafter⟩ := hwrites earlier call later hsplit before hbefore
    apply (storedTrials_subset_iff (hno call (by rw [hsplit]; simp)) hafter).mp
    refine hkept earlier [call] later (by rw [hsplit]; simp) before after hbefore ?_
    rw [storedAfter_concat, hbefore, Option.bind_some, hafter]
  · intro hmerges earlier between later hsplit before after hbefore hafter
    rw [storedAfter_append, hbefore, Option.bind_some] at hafter
    refine MergesStored.subset (fun earlier' call later' hsplit' current hcurrent => ?_)
      (fun call hcall => hno call (by rw [hsplit]; simp [hcall])) hafter
    refine hmerges (earlier ++ earlier') call (later' ++ later) (by rw [hsplit, hsplit']; simp) current ?_
    rw [storedAfter_append, hbefore, Option.bind_some, hcurrent]

/-- A call with a provider of one trial. -/
def writeOne (name randomId : String) (mergeExisting : Bool) : Call Text :=
  ⟨⟨"mininet-trial".toList, [Trial.init name.toList randomId.toList]⟩, false, mergeExisting⟩

theorem never_lost_iff_merges_stored_two : ∃ final,
    storedAfter alphabetical none [writeOne "first" "17" true, writeOne "second" "23" true] = some final ∧
    StoresOwnAndMerged alphabetical none [writeOne "first" "17" true, writeOne "second" "23" true] ∧
    (NeverLost alphabetical none [writeOne "first" "17" true, writeOne "second" "23" true] ↔
      MergesStored alphabetical none [writeOne "first" "17" true, writeOne "second" "23" true]) := by
  obtain ⟨final, hfinal⟩ : ∃ final, storedAfter alphabetical none
      [writeOne "first" "17" true, writeOne "second" "23" true] = some final := ⟨_, rfl⟩
  exact ⟨final, hfinal, never_lost_iff_merges_stored alphabetical none final _ (by decide) hfinal⟩

/-- Of two calls that neither overwrite nor merge, the second loses the trial of the first. -/
theorem second_write_loses_first :
    (∀ call ∈ [writeOne "first" "17" false, writeOne "second" "23" false], call.overwrite = false) ∧
    (∃ final, storedAfter alphabetical none [writeOne "first" "17" false, writeOne "second" "23" false] = some final) ∧
    ¬ NeverLost alphabetical none [writeOne "first" "17" false, writeOne "second" "23" false] := by
  refine ⟨by decide, ⟨_, rfl⟩, ?_⟩
  intro hkept
  have hsubset := hkept [writeOne "first" "17" false] [writeOne "second" "23" false] [] rfl _ _ rfl rfl
  have hmem : Trial.init "first".toList "17".toList ∈ [Trial.init "second".toList "23".toList] :=
    hsubset List.mem_cons_self
  exact absurd hmem (by decide)

end OfTestbed.Repository
