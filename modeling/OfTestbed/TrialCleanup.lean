import Mathlib.Data.List.TakeWhile
import OfTestbed.LibLoop
import OfTestbed.LibTry

/-!
The runs of the testbed trials and what they leave behind: `conduct_mininet_trial` in `mininet_tuiti.py` and
`conduct_path_hopping_trial` in `path_hopping.py`. Every call of the body and of the cleanup may raise. The two programs
differ in how they create and destroy their hosts: the one on virtual hosts catches what the destruction of a host
raises and destroys the hosts when it cannot create all of them, the one on Mininet does neither.
-/

namespace OfTestbed.TrialCleanup

open Lib

variable {τ : Type}

/-- The calls for one flow: the paths as JSON, the request for its token, and the configuration of its source. -/
structure FlowCalls (τ : Type) where
  pathsRaise : Bool
  installFlow : Option τ
  configureRaises : Bool

/-- What the calls of a run do. The parameters are read before the body; `measurementRaises` stands for everything after
the flows, from the background traffic to the results. -/
structure Calls (τ : Type) where
  parametersRaise : Bool
  topologyRaises : Bool
  createRaises : Int → Bool
  startServerRaises : Int → Bool
  flows : List (FlowCalls τ)
  measurementRaises : Bool
  handlerRaises : Bool
  teardownRaises : Int → Bool
  uninstallRaises : τ → Bool

/-- The variables of a trial, the hosts that were created and the tokens that were installed in it, and the hosts and
tokens whose teardown was attempted. -/
structure Run (τ : Type) where
  hosts : List Int
  flowTokens : Finset τ
  created : List Int
  installed : List τ
  tornDown : List Int
  uninstalled : List τ

namespace Run

def start : Run τ := ⟨[], ∅, [], [], [], []⟩

def noteCreated (host : Int) (run : Run τ) : Run τ := { run with created := run.created ++ [host] }

def noteTeardown (host : Int) (run : Run τ) : Run τ := { run with tornDown := run.tornDown ++ [host] }

def noteUninstall (flowToken : τ) (run : Run τ) : Run τ := { run with uninstalled := run.uninstalled ++ [flowToken] }

/-- `flow_tokens.add(flow_token)`. -/
def addToken [DecidableEq τ] (flowToken : τ) (run : Run τ) : Run τ :=
  { run with flowTokens := insert flowToken run.flowTokens, installed := run.installed ++ [flowToken] }

/-- Everything that the run made it has tried to undo. -/
def CleansUp (run : Run τ) : Prop :=
  (∀ host ∈ run.created, host ∈ run.tornDown) ∧ ∀ flowToken ∈ run.installed, flowToken ∈ run.uninstalled

end Run

section Programs

variable (calls : Calls τ)

def destroyAllMininetHosts (hosts : List Int) : Act (Run τ) PUnit :=
  forM hosts fun host => do
    modify (Run.noteTeardown host)
    call (calls.teardownRaises host)

def destroyAllHosts (hosts : List Int) : Act (Run τ) PUnit :=
  forM hosts fun host => do
    modify (Run.noteTeardown host)
    tryCatch (call (calls.teardownRaises host)) fun _ => pure ()

def removeAllFlows (flowTokens : List τ) : Act (Run τ) PUnit :=
  forM flowTokens fun flowToken => do
    modify (Run.noteUninstall flowToken)
    tryCatch (call (calls.uninstallRaises flowToken)) fun _ => pure ()

/-- The loop in which the hosts are created. -/
def createHosts (hostIds : List Int) : Act (Run τ) PUnit :=
  forM hostIds fun hostId => do
    call (calls.createRaises hostId)
    modify (Run.noteCreated hostId)

def createMininetHosts (hostIds : List Int) : Act (Run τ) PUnit := createHosts calls hostIds

/-- The hosts that the handler destroys are those created so far. -/
def createVirtualHosts (hostIds : List Int) : Act (Run τ) PUnit :=
  tryCatch (createHosts calls hostIds) fun _ => do
    destroyAllHosts calls (← get).created
    throw ()

variable [DecidableEq τ]

def installFlow (flow : FlowCalls τ) : Act (Run τ) PUnit := do
  call flow.pathsRaise
  match flow.installFlow with
  | none => throw ()
  | some flowToken => do
      modify (Run.addToken flowToken)
      call flow.configureRaises

/-- The body of a trial with its way of creating hosts. The variable `hosts` is assigned when all are created. -/
def trialBody (hostIds : List Int) (create : Act (Run τ) PUnit) : Act (Run τ) PUnit := do
  call calls.topologyRaises
  create
  modify fun run => { run with hosts := hostIds }
  forM hostIds fun host => call (calls.startServerRaises host)
  forM calls.flows installFlow
  call calls.measurementRaises

/-- The `finally` block with its way of destroying hosts. -/
def trialFinally (order : SetOrder τ) (destroy : List Int → Act (Run τ) PUnit) : Act (Run τ) PUnit := do
  destroy (← get).hosts
  removeAllFlows calls (order.list (← get).flowTokens)

def conductTrial (order : SetOrder τ) (hostIds : List Int) (create : Act (Run τ) PUnit)
    (destroy : List Int → Act (Run τ) PUnit) : Act (Run τ) PUnit := do
  call calls.parametersRaise
  tryFinally (tryCatch (trialBody calls hostIds create) fun _ => call calls.handlerRaises)
    (trialFinally calls order destroy)

def mininetHostIds : List Int := [0, 1]

def virtualHostIds : List Int := [1, 2, 3, 4, 5, 6, 7, 8, 9, 10]

def conductMininetTrial (order : SetOrder τ) : Act (Run τ) PUnit :=
  conductTrial calls order mininetHostIds (createMininetHosts calls mininetHostIds) (destroyAllMininetHosts calls)

def conductPathHoppingTrial (order : SetOrder τ) : Act (Run τ) PUnit :=
  conductTrial calls order virtualHostIds (createVirtualHosts calls virtualHostIds) (destroyAllHosts calls)

end Programs

/-! ### What a run makes -/

/-- The tokens of the flows, up to the first that fails; one whose source cannot be configured has its token. -/
def tokensOf : List (FlowCalls τ) → List τ
  | [] => []
  | flow :: rest =>
      if flow.pathsRaise then []
      else
        match flow.installFlow with
        | none => []
        | some flowToken => if flow.configureRaises then [flowToken] else flowToken :: tokensOf rest

namespace Calls

/-- The hosts that are created: those before the first one that fails. -/
def createdHosts (calls : Calls τ) (hostIds : List Int) : List Int :=
  if calls.parametersRaise ∨ calls.topologyRaises then []
  else hostIds.takeWhile fun hostId => !calls.createRaises hostId

def installedTokens (calls : Calls τ) (hostIds : List Int) : List τ :=
  if calls.createdHosts hostIds = hostIds ∧ ∀ hostId ∈ hostIds, calls.startServerRaises hostId = false then
    tokensOf calls.flows
  else []

/-- All hosts are created or none, no host before the last raises in its teardown, and the last one only if no flow is
installed. -/
structure LeavesQuietly (calls : Calls τ) (hostIds : List Int) : Prop where
  all_or_none : calls.createdHosts hostIds = [] ∨ calls.createdHosts hostIds = hostIds
  teardown : ∀ host ∈ (calls.createdHosts hostIds).dropLast, calls.teardownRaises host = false
  last : ∀ host, (calls.createdHosts hostIds).getLast? = some host → calls.teardownRaises host = true →
    calls.installedTokens hostIds = []

end Calls

/-! ### The loops -/

section Loops

variable (calls : Calls τ)

theorem foldl_noteTeardown (hosts : List Int) (run : Run τ) :
    hosts.foldl (fun run host => Run.noteTeardown host run) run = { run with tornDown := run.tornDown ++ hosts } := by
  induction hosts generalizing run with
  | nil => simp
  | cons host rest ih =>
      rw [List.foldl_cons, ih]
      simp [Run.noteTeardown]

theorem foldl_noteUninstall (flowTokens : List τ) (run : Run τ) :
    flowTokens.foldl (fun run flowToken => Run.noteUninstall flowToken run) run =
      { run with uninstalled := run.uninstalled ++ flowTokens } := by
  induction flowTokens generalizing run with
  | nil => simp
  | cons flowToken rest ih =>
      rw [List.foldl_cons, ih]
      simp [Run.noteUninstall]

theorem state_destroyAllMininetHosts (hosts : List Int) (run : Run τ) :
    (destroyAllMininetHosts calls hosts).state run =
      { run with tornDown := run.tornDown ++ through calls.teardownRaises hosts } := by
  rw [destroyAllMininetHosts, Act.state_forM_call, foldl_noteTeardown]

theorem raises_destroyAllMininetHosts (hosts : List Int) (run : Run τ) :
    (destroyAllMininetHosts calls hosts).raises run = hosts.any calls.teardownRaises :=
  Act.raises_forM_call _ _ hosts run

theorem state_destroyAllHosts (hosts : List Int) (run : Run τ) :
    (destroyAllHosts calls hosts).state run = { run with tornDown := run.tornDown ++ hosts } := by
  rw [destroyAllHosts, Act.state_forM_guarded, foldl_noteTeardown]

theorem raises_destroyAllHosts (hosts : List Int) (run : Run τ) : (destroyAllHosts calls hosts).raises run = false :=
  Act.raises_forM_guarded _ _ hosts run

theorem state_removeAllFlows (flowTokens : List τ) (run : Run τ) :
    (removeAllFlows calls flowTokens).state run = { run with uninstalled := run.uninstalled ++ flowTokens } := by
  rw [removeAllFlows, Act.state_forM_guarded, foldl_noteUninstall]

theorem state_createHosts (hostIds : List Int) (run : Run τ) :
    (createHosts calls hostIds).state run =
      { run with created := run.created ++ hostIds.takeWhile fun hostId => !calls.createRaises hostId } := by
  unfold createHosts
  induction hostIds generalizing run with
  | nil => simp
  | cons hostId rest ih =>
      rw [List.forM_cons, Act.state_seq, Act.raises_seq, Act.state_seq, ih, List.takeWhile_cons]
      cases hraises : calls.createRaises hostId <;> simp [Run.noteCreated]

theorem raises_createHosts (hostIds : List Int) (run : Run τ) :
    (createHosts calls hostIds).raises run = hostIds.any calls.createRaises := by
  unfold createHosts
  induction hostIds generalizing run with
  | nil => simp
  | cons hostId rest ih =>
      rw [List.forM_cons, Act.raises_seq, Act.raises_seq, ih]
      simp

theorem state_createVirtualHosts (hostIds : List Int) :
    (createVirtualHosts calls hostIds).state Run.start =
      { Run.start with
        created := hostIds.takeWhile fun hostId => !calls.createRaises hostId
        tornDown :=
          if hostIds.any calls.createRaises then hostIds.takeWhile fun hostId => !calls.createRaises hostId
          else [] } := by
  rw [createVirtualHosts, Act.state_tryCatch, raises_createHosts, state_createHosts, Act.state_get_bind, Act.state_seq,
    raises_destroyAllHosts, state_destroyAllHosts]
  cases hostIds.any calls.createRaises <;> simp [Run.start]

theorem raises_createVirtualHosts (hostIds : List Int) (run : Run τ) :
    (createVirtualHosts calls hostIds).raises run = hostIds.any calls.createRaises := by
  rw [createVirtualHosts, Act.raises_tryCatch, raises_createHosts, Act.raises_get_bind, Act.raises_seq]
  simp

theorem state_startServers (hostIds : List Int) (run : Run τ) :
    (forM hostIds fun host => call (calls.startServerRaises host) : Act (Run τ) PUnit).state run = run := by
  induction hostIds with
  | nil => rfl
  | cons hostId rest ih =>
      rw [List.forM_cons, Act.state_seq, Act.state_call, ih]
      split <;> rfl

theorem raises_startServers (hostIds : List Int) (run : Run τ) :
    (forM hostIds fun host => call (calls.startServerRaises host) : Act (Run τ) PUnit).raises run =
      hostIds.any calls.startServerRaises := by
  induction hostIds with
  | nil => rfl
  | cons hostId rest ih => rw [List.forM_cons, Act.raises_seq, Act.state_call, ih, Act.raises_call, List.any_cons]

theorem state_installFlows [DecidableEq τ] (flows : List (FlowCalls τ)) (run : Run τ) :
    (forM flows installFlow : Act (Run τ) PUnit).state run =
      { run with
        flowTokens := run.flowTokens ∪ (tokensOf flows).toFinset
        installed := run.installed ++ tokensOf flows } := by
  induction flows generalizing run with
  | nil => simp [tokensOf]
  | cons flow rest ih =>
      obtain ⟨pathsRaise, token, configureRaises⟩ := flow
      rw [List.forM_cons, Act.state_seq, ih]
      cases pathsRaise <;> cases token <;> cases configureRaises <;>
        simp [installFlow, tokensOf, Act.state_seq, Act.raises_seq, Run.addToken]

end Loops

/-! ### The run of a trial -/

section Trial

variable (calls : Calls τ) (order : SetOrder τ) {hostIds : List Int}

theorem state_trialFinally (destroy : List Int → Act (Run τ) PUnit) (run : Run τ) :
    (trialFinally calls order destroy).state run =
      if (destroy run.hosts).raises run then (destroy run.hosts).state run
      else
        (removeAllFlows calls (order.list ((destroy run.hosts).state run).flowTokens)).state
          ((destroy run.hosts).state run) := by
  rw [trialFinally, Act.state_get_bind, Act.state_seq, Act.state_get_bind]

theorem takeWhile_eq_self_iff_any (raises : Int → Bool) (l : List Int) :
    l.takeWhile (fun a => !raises a) = l ↔ l.any raises = false := by
  rw [List.takeWhile_eq_self_iff, List.any_eq_false]
  simp

theorem createdHosts_of_parametersRaise (hostIds : List Int) (hparameters : calls.parametersRaise = true) :
    calls.createdHosts hostIds = [] := by
  rw [Calls.createdHosts, if_pos (.inl hparameters)]

theorem installedTokens_of_ne (hcreated : calls.createdHosts hostIds ≠ hostIds) :
    calls.installedTokens hostIds = [] :=
  if_neg fun h => hcreated h.1

theorem leavesQuietly_iff_of_all (hcreated : calls.createdHosts hostIds = hostIds) :
    calls.LeavesQuietly hostIds ↔
      (∀ host ∈ hostIds.dropLast, calls.teardownRaises host = false) ∧
        ∀ host, hostIds.getLast? = some host → calls.teardownRaises host = true →
          calls.installedTokens hostIds = [] := by
  constructor
  · rintro ⟨-, hteardown, hlast⟩
    rw [hcreated] at hteardown hlast
    exact ⟨hteardown, hlast⟩
  · rintro ⟨hteardown, hlast⟩
    refine ⟨.inr hcreated, ?_, ?_⟩ <;> rwa [hcreated]

theorem leavesQuietly_iff_of_ne (hcreated : calls.createdHosts hostIds ≠ hostIds) :
    calls.LeavesQuietly hostIds ↔ calls.createdHosts hostIds = [] := by
  constructor
  · rintro ⟨hnone | hall, -, -⟩
    · exact hnone
    · exact absurd hall hcreated
  · intro hnone
    refine ⟨.inl hnone, ?_, ?_⟩ <;> simp [hnone]

theorem cleansUp_trialFinally_mininet (run : Run τ) (htornDown : run.tornDown = [])
    (huninstalled : run.uninstalled = []) :
    ((trialFinally calls order (destroyAllMininetHosts calls)).state run).CleansUp ↔
      (∀ host ∈ run.created, host ∈ through calls.teardownRaises run.hosts) ∧
        ∀ flowToken ∈ run.installed, ¬ run.hosts.any calls.teardownRaises ∧ flowToken ∈ order.list run.flowTokens := by
  rw [state_trialFinally, raises_destroyAllMininetHosts, state_destroyAllMininetHosts, state_removeAllFlows, htornDown,
    huninstalled]
  cases run.hosts.any calls.teardownRaises <;> simp [Run.CleansUp]

theorem cleansUp_trialFinally_virtual (run : Run τ)
    (hcreated : ∀ host ∈ run.created, host ∈ run.tornDown ∨ host ∈ run.hosts)
    (hinstalled : ∀ flowToken ∈ run.installed, flowToken ∈ run.flowTokens) :
    ((trialFinally calls order (destroyAllHosts calls)).state run).CleansUp := by
  rw [state_trialFinally, raises_destroyAllHosts, state_destroyAllHosts, state_removeAllFlows,
    if_neg Bool.false_ne_true]
  refine ⟨fun host hhost => List.mem_append.mpr (hcreated host hhost), fun flowToken hflowToken => ?_⟩
  exact List.mem_append_right _ ((order.mem_list _ _).mpr (hinstalled flowToken hflowToken))

variable [DecidableEq τ]

theorem state_conductTrial (create : Act (Run τ) PUnit) (destroy : List Int → Act (Run τ) PUnit) (run : Run τ) :
    (conductTrial calls order hostIds create destroy).state run =
      if calls.parametersRaise then run
      else (trialFinally calls order destroy).state ((trialBody calls hostIds create).state run) := by
  rw [conductTrial, Act.state_seq, Act.raises_call, Act.state_call, Act.state_tryFinally, Act.state_tryCatch,
    Act.state_call, ite_self]

/-- What the body leaves, when the hosts are created one by one up to the first that fails, and those in `given` are
torn down at once. -/
theorem state_trialBody (hne : hostIds ≠ []) (hparameters : calls.parametersRaise = false)
    {create : Act (Run τ) PUnit} {given : List Int}
    (hraises : create.raises Run.start = hostIds.any calls.createRaises)
    (hstate : create.state Run.start =
      { Run.start with
        created := hostIds.takeWhile fun hostId => !calls.createRaises hostId
        tornDown := given }) :
    (trialBody calls hostIds create).state Run.start =
      { hosts := if calls.createdHosts hostIds = hostIds then hostIds else []
        flowTokens := (calls.installedTokens hostIds).toFinset
        created := calls.createdHosts hostIds
        installed := calls.installedTokens hostIds
        tornDown := if calls.topologyRaises then [] else given
        uninstalled := [] } := by
  unfold trialBody Calls.installedTokens Calls.createdHosts
  simp only [Act.state_seq, Act.raises_call, Act.state_call, hraises, hstate, Act.state_modify, Act.raises_modify,
    raises_startServers, state_startServers, state_installFlows, hparameters, ite_self]
  cases htopology : calls.topologyRaises with
  | true => simp [hne.symm, Run.start]
  | false =>
      simp only [takeWhile_eq_self_iff_any, Bool.false_eq_true, or_self, if_false]
      cases hcreate : hostIds.any calls.createRaises with
      | true => simp [Run.start]
      | false =>
          have hall := (takeWhile_eq_self_iff_any calls.createRaises hostIds).mpr hcreate
          have hservers : (∀ hostId ∈ hostIds, calls.startServerRaises hostId = false) ↔
              hostIds.any calls.startServerRaises = false := by
            simp
          rw [hall]
          simp only [hservers, Run.start, Bool.false_eq_true, if_false, true_and, if_true]
          cases hostIds.any calls.startServerRaises <;> simp

/-- The block reaches every host and every token if no host before the last raises, and the last one only if there are
no tokens. -/
theorem reaches_all_iff (raises : Int → Bool) {hosts : List Int} (hnodup : hosts.Nodup) (flowTokens : List τ) :
    ((∀ host ∈ hosts, host ∈ through raises hosts) ∧
        ∀ flowToken ∈ flowTokens, ¬ hosts.any raises ∧ flowToken ∈ order.list flowTokens.toFinset) ↔
      (∀ host ∈ hosts.dropLast, raises host = false) ∧
        ∀ host, hosts.getLast? = some host → raises host = true → flowTokens = [] := by
  rw [forall_mem_through_iff raises hnodup]
  refine and_congr_right fun hquiet => ⟨fun htokens host hlast hraises => ?_, fun hlast flowToken hmem => ⟨?_, ?_⟩⟩
  · refine List.eq_nil_iff_forall_not_mem.mpr fun flowToken hmem => (htokens flowToken hmem).1 ?_
    exact List.any_eq_true.mpr ⟨host, List.mem_of_getLast? hlast, hraises⟩
  · intro hany
    obtain ⟨host, hhost, hraises⟩ := List.any_eq_true.mp hany
    have hne : hosts ≠ [] := List.ne_nil_of_mem hhost
    have hsplit := List.dropLast_append_getLast hne
    rw [← hsplit, List.mem_append, List.mem_singleton] at hhost
    obtain hbefore | rfl := hhost
    · rw [hquiet host hbefore] at hraises
      cases hraises
    · have hnil := hlast _ (List.getLast?_eq_some_getLast hne) hraises
      rw [hnil] at hmem
      cases hmem
  · exact (order.mem_list _ _).mpr (List.mem_toFinset.mpr hmem)

/-- Where no host's teardown is caught, the first one that raises ends the block. -/
theorem cleansUp_mininet_iff (hne : hostIds ≠ []) (hnodup : hostIds.Nodup) :
    ((conductTrial calls order hostIds (createMininetHosts calls hostIds)
      (destroyAllMininetHosts calls)).state Run.start).CleansUp ↔ calls.LeavesQuietly hostIds := by
  rw [state_conductTrial]
  cases hparameters : calls.parametersRaise with
  | true =>
      have hcreated := createdHosts_of_parametersRaise calls hostIds hparameters
      refine iff_of_true ⟨by simp [Run.start], by simp [Run.start]⟩ ⟨.inl hcreated, ?_, ?_⟩ <;> simp [hcreated]
  | false =>
      have hbody := state_trialBody calls hne hparameters
        (show (createMininetHosts calls hostIds).raises Run.start = _ from raises_createHosts calls hostIds Run.start)
        (state_createHosts calls hostIds Run.start)
      rw [if_neg Bool.false_ne_true, hbody,
        cleansUp_trialFinally_mininet calls order _ (ite_self []) rfl]
      by_cases hcreated : calls.createdHosts hostIds = hostIds
      · simp only [hcreated, if_true]
        rw [reaches_all_iff order calls.teardownRaises hnodup, leavesQuietly_iff_of_all calls hcreated]
      · have htokens := installedTokens_of_ne calls hcreated
        simp only [if_neg hcreated, htokens, leavesQuietly_iff_of_ne calls hcreated, through, List.not_mem_nil,
          List.eq_nil_iff_forall_not_mem, false_implies, implies_true, and_true]

/-- Where the teardown of a host is caught and the hosts of a creation that fails are destroyed at once, everything is
undone. -/
theorem cleansUp_virtual (hne : hostIds ≠ []) :
    ((conductTrial calls order hostIds (createVirtualHosts calls hostIds)
      (destroyAllHosts calls)).state Run.start).CleansUp := by
  rw [state_conductTrial]
  cases hparameters : calls.parametersRaise with
  | true => exact ⟨by simp [Run.start], by simp [Run.start]⟩
  | false =>
      rw [if_neg Bool.false_ne_true,
        state_trialBody calls hne hparameters (raises_createVirtualHosts calls hostIds Run.start)
          (state_createVirtualHosts calls hostIds)]
      refine cleansUp_trialFinally_virtual calls order _ (fun host hhost => ?_) fun _ h => List.mem_toFinset.mpr h
      by_cases hall : calls.createdHosts hostIds = hostIds
      · right
        rw [if_pos hall, ← hall]
        exact hhost
      · -- Some host was not created, so the handler has destroyed those before it.
        left
        revert hhost hall
        unfold Calls.createdHosts
        rw [hparameters]
        cases calls.topologyRaises <;> simp +contextual [List.takeWhile_eq_self_iff]

end Trial

/-- **What a trial leaves behind.** The one on Mininet undoes what it made exactly if it leaves quietly, the one on
virtual hosts always. -/
theorem cleans_up_iff_leaves_quietly [DecidableEq τ] (calls : Calls τ) (order : SetOrder τ) :
    (((conductMininetTrial calls order).state Run.start).CleansUp ↔ calls.LeavesQuietly mininetHostIds) ∧
      ((conductPathHoppingTrial calls order).state Run.start).CleansUp :=
  ⟨cleansUp_mininet_iff calls order (by decide) (by decide), cleansUp_virtual calls order (by decide)⟩

/-- One flow is installed, everything succeeds, and the first host raises when it is disconnected. -/
def firstTeardownRaises : Calls Nat where
  parametersRaise := false
  topologyRaises := false
  createRaises := fun _ => false
  startServerRaises := fun _ => false
  flows := [⟨false, some 7, false⟩]
  measurementRaises := false
  handlerRaises := false
  teardownRaises := fun host => host == 0
  uninstallRaises := fun _ => false

theorem second_host_and_flow_left :
    let run := (conductMininetTrial firstTeardownRaises (SetOrder.byKey id Function.injective_id)).state Run.start
    run.created = [0, 1] ∧ run.installed = [7] ∧ run.tornDown = [0] ∧ run.uninstalled = [] ∧ ¬ run.CleansUp := by
  refine ⟨by rfl, by rfl, by rfl, by rfl, fun h => ?_⟩
  have hhost : (1 : Int) ∈ [0] := h.1 1 (List.mem_cons_of_mem _ List.mem_cons_self)
  exact absurd hhost (by decide)

end OfTestbed.TrialCleanup
