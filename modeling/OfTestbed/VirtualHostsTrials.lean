import Mathlib.Algebra.Order.BigOperators.Group.List
import Mathlib.Data.Multiset.OrderedMonoid
import Mathlib.Tactic.Tauto
import OfTestbed.VirtualHosts

/-!
What the trials on virtual hosts leave behind, and what that means for the trials that follow: an address that stays on
the interface belongs to no host of the program any more, so that nothing removes it, and no later trial gets all its
hosts.
-/

namespace OfTestbed.VirtualHosts

open Lib

variable {τ : Type}

section Leftovers

variable [DecidableEq τ] (calls : Calls τ)

/-! ### What is left -/

/-- The first host that cannot be created. -/
def failedHost (present : Multiset (Item τ)) (ids : List Int) : Option Int :=
  ids[(createdHosts calls present ids).length]?

theorem leftByFailure_eq (present : Multiset (Item τ)) (ids : List Int) : leftByFailure calls present ids =
    match failedHost calls present ids with
    | none => 0
    | some hostId => (calls.host hostId).leftAtFailure (busy present hostId) (actualHostIp hostId) := by
  induction ids with
  | nil => rfl
  | cons hostId rest ih =>
      cases hcase : (calls.host hostId).token? (busy present hostId) with
      | none => simp [leftByFailure, failedHost, createdHosts, hcase]
      | some token => simpa [leftByFailure, failedHost, createdHosts, hcase] using ih

/-- What is made for a host that cannot be created is undone: it has no address by then, or the address is looked up and
removed again, and the controller has not made a host for it. -/
def Undone (present : Multiset (Item τ)) (hostId : Int) : Prop :=
  (calls.host hostId).ingressNodeRaises = true ∨ (calls.host hostId).addRaises = true ∨ busy present hostId = true ∨
    ((calls.host hostId).mac ≠ none ∧ (calls.host hostId).delRaises = false ∧
      ∀ token, (calls.host hostId).reply ≠ .withoutId token)

/-- The calls that destroy a host do not raise. -/
def Destroyed (holds : Side → List Int) (host : VirtualHost τ) : Prop :=
  (calls.host host.hostId).uninstallRaises = false ∧ (calls.host host.hostId).delRaises = false ∧
    (host.hostId ∈ holds .client → host.hostId ∈ holds .server → (calls.host host.hostId).stopClientRaises = false)

omit [DecidableEq τ] in
theorem left_eq_zero_iff {holds : Side → List Int} {host : VirtualHost τ} :
    host.left calls holds = 0 ↔ Destroyed calls holds host := by
  unfold VirtualHost.left Destroyed
  split
  · simp_all [VirtualHost.owned]
  · split
    · simp_all
    · split
      · split <;> simp_all
      · simp_all

theorem leftAtFailure_eq_zero_iff {present : Multiset (Item τ)} {hostId : Int} :
    (calls.host hostId).leftAtFailure (busy present hostId) (actualHostIp hostId) = 0 ↔
      Undone calls present hostId := by
  unfold HostCalls.leftAtFailure Undone
  split
  · rename_i hbefore
    rw [Bool.or_eq_true, Bool.or_eq_true, or_assoc] at hbefore
    refine iff_of_true rfl ?_
    tauto
  · split
    · simp_all
    · cases hreply : (calls.host hostId).reply <;> cases (calls.host hostId).delRaises <;> simp_all

theorem leftBehind_eq_zero_iff {present : Multiset (Item τ)} : leftBehind calls present = 0 ↔
    calls.topologyRaises = true ∨
      (∀ host ∈ createdHosts calls present hostIds, Destroyed calls (holdsAfter calls present) host) ∧
        ∀ hostId ∈ failedHost calls present hostIds, Undone calls present hostId := by
  rw [leftBehind]
  cases calls.topologyRaises with
  | true => simp
  | false =>
      have hfailed : leftByFailure calls present hostIds = 0 ↔
          ∀ hostId ∈ failedHost calls present hostIds, Undone calls present hostId := by
        rw [leftByFailure_eq]
        cases failedHost calls present hostIds with
        | none => simp
        | some hostId => simpa using leftAtFailure_eq_zero_iff calls
      rw [if_neg Bool.false_ne_true, add_eq_zero, List.sum_eq_zero_iff, hfailed, List.forall_mem_map]
      simp only [left_eq_zero_iff, Bool.false_eq_true, false_or]

/-! ### Addresses -/

theorem actualHostIp_of_created {present : Multiset (Item τ)} {ids : List Int} {host : VirtualHost τ}
    (h : host ∈ createdHosts calls present ids) :
    host.actualHostIp = actualHostIp host.hostId ∧ busy present host.hostId = false := by
  induction ids with
  | nil => cases h
  | cons hostId rest ih =>
      cases hcase : (calls.host hostId).token? (busy present hostId) with
      | none => simp [createdHosts, hcase] at h
      | some token =>
          simp only [createdHosts, hcase, List.mem_cons] at h
          rcases h with rfl | hrest
          · refine ⟨rfl, ?_⟩
            cases hbusy : busy present hostId with
            | false => rfl
            | true => simp [HostCalls.token?, hbusy] at hcase
          · exact ih hrest

omit [DecidableEq τ] in
theorem mem_sum_map_iff {α : Type} {l : List α} {f : α → Multiset (Item τ)} {item : Item τ} :
    item ∈ (l.map f).sum ↔ ∃ a ∈ l, item ∈ f a := by
  induction l with
  | nil => simp
  | cons a rest ih => simp [ih]

omit [DecidableEq τ] in
theorem address_notMem_processesOf (holds : Side → List Int) (hostId : Int) (ip : String) :
    .address ip ∉ (processesOf holds hostId : Multiset (Item τ)) := by
  unfold processesOf
  split <;> split <;> simp

omit [DecidableEq τ] in
theorem address_mem_left_iff {holds : Side → List Int} {host : VirtualHost τ} {ip : String} :
    .address ip ∈ host.left calls holds ↔ ip = host.actualHostIp ∧
      ((calls.host host.hostId).uninstallRaises = true ∨ (calls.host host.hostId).delRaises = true) := by
  have hnone := @address_notMem_processesOf τ holds host.hostId ip
  unfold VirtualHost.left
  split
  · simp_all [VirtualHost.owned]
  · split
    · simp_all
    · split
      · split <;> simp_all
      · simp_all

omit [DecidableEq τ] in
theorem address_mem_leftAtFailure_iff {host : HostCalls τ} {taken : Bool} {ip ip' : String} :
    .address ip' ∈ host.leftAtFailure taken ip ↔ ip' = ip ∧ host.ingressNodeRaises = false ∧ host.addRaises = false ∧
      taken = false ∧ (host.mac = none ∨ host.delRaises = true) := by
  unfold HostCalls.leftAtFailure
  split
  · rename_i hbefore
    simp only [Bool.or_eq_true] at hbefore
    simp
    grind
  · split
    · simp_all
    · cases host.reply <;> cases host.delRaises <;> simp_all

/-- The hosts of a trial give back their addresses, when it starts with all of them free: the hosts that are created can
be destroyed, and the first that cannot be created has no address by then or is relieved of it. -/
def ReturnsAddresses : Prop :=
  calls.topologyRaises = true ∨
    (∀ host ∈ createdHosts calls 0 hostIds,
      (calls.host host.hostId).uninstallRaises = false ∧ (calls.host host.hostId).delRaises = false) ∧
    ∀ hostId ∈ failedHost calls 0 hostIds, (calls.host hostId).ingressNodeRaises = true ∨
      (calls.host hostId).addRaises = true ∨ ((calls.host hostId).mac ≠ none ∧ (calls.host hostId).delRaises = false)

end Leftovers

/-- None of the addresses of the hosts is taken. -/
def Clean (present : Multiset (Item τ)) : Prop := ∀ hostId ∈ hostIds, .address (actualHostIp hostId) ∉ present

/-- What exists after the trials that were conducted. -/
def afterTrials [DecidableEq τ] (trials : List (Calls τ)) (run : Run τ) : Run τ :=
  trials.foldl (fun run calls => (conductPathHoppingTrial calls).state run) run

section Trials

variable [DecidableEq τ] {calls : Calls τ}

theorem busy_eq_false_iff {present : Multiset (Item τ)} {hostId : Int} :
    busy present hostId = false ↔ .address (actualHostIp hostId) ∉ present := decide_eq_false_iff_not

/-- A trial that finds the addresses free does what it does when nothing else exists. -/
theorem created_of_clean {present : Multiset (Item τ)} (h : Clean present) :
    createdHosts calls present hostIds = createdHosts calls 0 hostIds ∧
      leftByFailure calls present hostIds = leftByFailure calls 0 hostIds := by
  apply created_congr
  intro hostId hmem
  rw [busy_eq_false_iff.mpr (h hostId hmem), busy_eq_false_iff.mpr (Multiset.notMem_zero _)]

/-- Where an address is taken not all hosts are created. -/
theorem allCreated_of_not_clean {present : Multiset (Item τ)} (h : ¬Clean present) :
    allCreated calls present = false := by
  by_contra hall
  rw [Bool.not_eq_false, allCreated, Bool.and_eq_true, decide_eq_true_eq] at hall
  apply h
  intro hostId hmem
  have hids := (hostIds_createdHosts calls present hostIds).eq_of_length_le (by rw [List.length_map, hall.2])
  rw [← hids] at hmem
  obtain ⟨host, hhost, rfl⟩ := List.mem_map.mp hmem
  exact busy_eq_false_iff.mp (actualHostIp_of_created calls hhost).2

omit [DecidableEq τ] in
theorem clean_add_iff {first second : Multiset (Item τ)} : Clean (first + second) ↔ Clean first ∧ Clean second := by
  simp only [Clean, Multiset.mem_add, not_or]
  exact ⟨fun h => ⟨fun hostId hmem => (h hostId hmem).1, fun hostId hmem => (h hostId hmem).2⟩,
    fun h hostId hmem => ⟨h.1 hostId hmem, h.2 hostId hmem⟩⟩

theorem clean_destroyed_iff (holds : Side → List Int) :
    Clean ((createdHosts calls 0 hostIds).map (VirtualHost.left calls holds)).sum ↔
      ∀ host ∈ createdHosts calls 0 hostIds,
        (calls.host host.hostId).uninstallRaises = false ∧ (calls.host host.hostId).delRaises = false := by
  constructor
  · intro hclean host hhost
    have hmem := (hostIds_createdHosts calls 0 hostIds).subset (List.mem_map_of_mem hhost)
    have hnot := hclean host.hostId hmem
    rw [mem_sum_map_iff] at hnot
    by_contra hraises
    refine hnot ⟨host, hhost, (address_mem_left_iff calls).mpr ⟨(actualHostIp_of_created calls hhost).1.symm, ?_⟩⟩
    rcases not_and_or.mp hraises with huninstall | hdel
    · exact Or.inl (Bool.of_not_eq_false huninstall)
    · exact Or.inr (Bool.of_not_eq_false hdel)
  · intro hquiet hostId _ haddress
    obtain ⟨host, hhost, hleft⟩ := mem_sum_map_iff.mp haddress
    obtain ⟨huninstall, hdel⟩ := hquiet host hhost
    rcases ((address_mem_left_iff calls).mp hleft).2 with hraises | hraises
    · rw [huninstall] at hraises
      cases hraises
    · rw [hdel] at hraises
      cases hraises

theorem clean_failed_iff : Clean (leftByFailure calls 0 hostIds) ↔
    ∀ hostId ∈ failedHost calls 0 hostIds, (calls.host hostId).ingressNodeRaises = true ∨
      (calls.host hostId).addRaises = true ∨
        ((calls.host hostId).mac ≠ none ∧ (calls.host hostId).delRaises = false) := by
  rw [leftByFailure_eq]
  cases hfailed : failedHost calls 0 hostIds with
  | none => simp [Clean]
  | some failed =>
      have hmem : failed ∈ hostIds := List.mem_of_getElem? hfailed
      have hfree : busy (0 : Multiset (Item τ)) failed = false := busy_eq_false_iff.mpr (Multiset.notMem_zero _)
      simp only [Clean, address_mem_leftAtFailure_iff, hfree, Option.mem_def, Option.some.injEq, forall_eq']
      constructor
      · intro hclean
        have hnot := hclean failed hmem
        cases hmac : (calls.host failed).mac <;> simp_all
        all_goals grind
      · intro hreverts hostId _ hleft
        cases hmac : (calls.host failed).mac <;> simp_all

theorem clean_leftBehind_iff {present : Multiset (Item τ)} (h : Clean present) :
    Clean (leftBehind calls present) ↔ ReturnsAddresses calls := by
  obtain ⟨hcreated, hleft⟩ := @created_of_clean _ _ calls _ h
  rw [leftBehind, ReturnsAddresses, hcreated, hleft]
  cases calls.topologyRaises with
  | true => simp [Clean]
  | false =>
      rw [if_neg Bool.false_ne_true, clean_add_iff, clean_destroyed_iff, clean_failed_iff]
      simp

theorem clean_trial_iff (run : Run τ) : Clean ((conductPathHoppingTrial calls).state run).present ↔
    Clean run.present ∧ ReturnsAddresses calls := by
  rw [(conductPathHoppingTrial_spec calls run).1, clean_add_iff]
  constructor
  · rintro ⟨hleft, hclean⟩
    exact ⟨hclean, (clean_leftBehind_iff hclean).mp hleft⟩
  · rintro ⟨hclean, hreturns⟩
    exact ⟨(clean_leftBehind_iff hclean).mpr hreturns, hclean⟩

theorem clean_afterTrials_iff (trials : List (Calls τ)) (run : Run τ) : Clean (afterTrials trials run).present ↔
    Clean run.present ∧ ∀ calls ∈ trials, ReturnsAddresses calls := by
  induction trials generalizing run with
  | nil => simp [afterTrials]
  | cons calls rest ih =>
      rw [List.forall_mem_cons, ← and_assoc, ← clean_trial_iff]
      exact ih _

/-- With an address taken a trial starts no process. -/
theorem holds_of_not_clean {run : Run τ} (h : ¬Clean run.present) (side : Side) :
    ((conductPathHoppingTrial calls).state run).holds side = [] := by
  rw [(conductPathHoppingTrial_spec calls run).2]
  simp [holdsAfter, allCreated_of_not_clean h]

end Trials

/-- Everything that a trial makes for its hosts is gone after it, whichever calls fail, exactly when the hosts that were
created could be destroyed and what was made for the first that could not be created was undone. What is left otherwise
is added to what existed before. -/
theorem trial_leaves_nothing_iff [DecidableEq τ] (calls : Calls τ) (run : Run τ) :
    ((conductPathHoppingTrial calls).state run).present = leftBehind calls run.present + run.present ∧
    (((conductPathHoppingTrial calls).state run).present = run.present ↔ calls.topologyRaises = true ∨
      (∀ host ∈ createdHosts calls run.present hostIds, Destroyed calls (holdsAfter calls run.present) host) ∧
        ∀ hostId ∈ failedHost calls run.present hostIds, Undone calls run.present hostId) := by
  have hpresent := (conductPathHoppingTrial_spec calls run).1
  refine ⟨hpresent, ?_⟩
  rw [hpresent, ← leftBehind_eq_zero_iff, add_eq_right]

/-- All addresses are free again after a sequence of trials exactly when each of them has given back its own; an address
that is left stays, and no later trial starts a process. -/
theorem addresses_free_iff_returned [DecidableEq τ] (run : Run τ) (hclean : Clean run.present)
    (trials : List (Calls τ)) :
    (Clean (afterTrials trials run).present ↔ ∀ calls ∈ trials, ReturnsAddresses calls) ∧
    ((∃ calls ∈ trials, ¬ReturnsAddresses calls) → ∀ later calls side,
      (afterTrials (trials ++ later ++ [calls]) run).holds side = []) := by
  refine ⟨(clean_afterTrials_iff trials run).trans (and_iff_right hclean), ?_⟩
  rintro ⟨leaking, hleaking, hleaks⟩ later calls side
  have hnot : ¬Clean (afterTrials (trials ++ later) run).present := by
    rw [clean_afterTrials_iff]
    rintro ⟨-, hreturns⟩
    exact hleaks (hreturns leaking (List.mem_append_left _ hleaking))
  rw [afterTrials, List.foldl_append, List.foldl_cons, List.foldl_nil]
  exact holds_of_not_clean hnot side

/-- Every call succeeds but the lookup of the third host's address on the interface. -/
def thirdLookupFails : Calls Int where
  topologyRaises := false
  host := fun hostId =>
    { ingressNodeRaises := false
      addRaises := false
      mac := if hostId = 3 then none else some "00:50:56:00:00:01"
      reply := .created hostId
      startServerRaises := false
      flowCount := 1
      startClientRaises := false
      uninstallRaises := false
      delRaises := false
      stopClientRaises := false }
  flowsRaise := false
  measurementRaises := false
  handlerRaises := false

/-- Before the first trial. -/
def nothingYet : Run Int := ⟨0, none, none, [], [], fun _ => []⟩

/-- The third address is left on the interface, and no host gets to send any more. -/
theorem addresses_free_iff_returned_third_left : ¬Clean (afterTrials [thirdLookupFails] nothingYet).present ∧
    ∀ later calls side, (afterTrials ([thirdLookupFails] ++ later ++ [calls]) nothingYet).holds side = [] := by
  have hleaks : ¬ReturnsAddresses thirdLookupFails := by
    rintro (htopology | ⟨-, hfailed⟩)
    · cases htopology
    · rcases hfailed 3 (by decide) with hingress | hadd | ⟨hmac, -⟩
      · cases hingress
      · cases hadd
      · exact hmac rfl
  obtain ⟨hiff, hblocks⟩ := addresses_free_iff_returned nothingYet (by simp [Clean, nothingYet]) [thirdLookupFails]
  refine ⟨fun hclean => hleaks (hiff.mp hclean _ (List.mem_singleton_self _)), ?_⟩
  exact hblocks ⟨_, List.mem_singleton_self _, hleaks⟩

end OfTestbed.VirtualHosts
