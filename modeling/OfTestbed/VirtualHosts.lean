import Mathlib.Algebra.BigOperators.Group.List.Basic
import Mathlib.Algebra.Order.Group.Multiset
import Mathlib.Data.Multiset.AddSub
import Mathlib.Tactic.Abel
import OfTestbed.LibTry

/-!
The virtual hosts of the path hopping testbed (`virtual_host.py`) over whole sequences of trials: the addresses they
take on the network interface, the hosts the controller keeps for them and the processes they run. Every call to the
operating system and to the controller may fail. An address that is on the interface already cannot be added to it, so
what one trial leaves behind stands in the way of the next.
-/

namespace OfTestbed.VirtualHosts

open Lib

/-! ### The program -/

inductive Side where
  | server
  | client
  deriving DecidableEq

/-- What exists outside of the program: addresses on the interface, hosts of the controller, processes. -/
inductive Item (τ : Type) where
  | address (ip : String)
  | registration (token : τ)
  | process (hostId : Int) (side : Side)
  deriving DecidableEq

variable {τ : Type}

/-- What the controller does with a request for a host. It can make the host and still answer without its id. -/
inductive Reply (τ : Type) where
  | refused
  | withoutId (token : τ)
  | created (token : τ)

/-- What the calls for one host do, each of which is made at most once in a trial. `mac` is what is looked up on the
interface, `delRaises` is about `ip addr del`, and `flowCount` is the number of flows that are configured. -/
structure HostCalls (τ : Type) where
  ingressNodeRaises : Bool
  addRaises : Bool
  mac : Option String
  reply : Reply τ
  startServerRaises : Bool
  flowCount : Nat
  startClientRaises : Bool
  uninstallRaises : Bool
  delRaises : Bool
  stopClientRaises : Bool

/-- What the calls of a trial do. `flowsRaise` stands for the installation of the flows, `measurementRaises` for what
comes after the start of the clients. -/
structure Calls (τ : Type) where
  topologyRaises : Bool
  host : Int → HostCalls τ
  flowsRaise : Bool
  measurementRaises : Bool
  handlerRaises : Bool

structure VirtualHost (τ : Type) where
  hostId : Int
  actualHostIp : String
  token : τ

/-- What exists, and the variables of the program: those of `initialize_virtual_host_persistent_state`, the dictionaries
of `create_virtual_hosts` and of the trial, and the hosts that hold a process of either kind. -/
structure Run (τ : Type) where
  present : Multiset (Item τ)
  actualHostMac : Option String
  virtualHostToken : Option τ
  created : List (VirtualHost τ)
  hosts : List (VirtualHost τ)
  holds : Side → List Int

section Programs

variable [DecidableEq τ] (calls : Calls τ)

def Run.add (item : Item τ) (run : Run τ) : Run τ := { run with present := item ::ₘ run.present }

def Run.remove (item : Item τ) (run : Run τ) : Run τ := { run with present := run.present.erase item }

/-- `"192.168.1.%d" % host_id`. -/
def actualHostIp (hostId : Int) : String := "192.168.1." ++ toString hostId

def initializeLocalNetworkInterface (host : HostCalls τ) (ip : String) : Act (Run τ) PUnit := do
  call (host.addRaises || .address ip ∈ (← get).present)
  modify (Run.add (.address ip))
  call host.mac.isNone
  modify fun run => { run with actualHostMac := host.mac }

def removeLocalNetworkInterface (host : HostCalls τ) (ip : String) : Act (Run τ) PUnit := do
  call (host.delRaises || .address ip ∉ (← get).present)
  modify (Run.remove (.address ip))

def installVirtualHost (host : HostCalls τ) : Act (Run τ) PUnit :=
  match host.reply with
  | .refused => throw ()
  | .withoutId token => do
      modify (Run.add (.registration token))
      throw ()
  | .created token => do
      modify (Run.add (.registration token))
      modify fun run => { run with virtualHostToken := some token }

def uninstallVirtualHost (host : HostCalls τ) (token : τ) : Act (Run τ) PUnit := do
  call host.uninstallRaises
  modify (Run.remove (.registration token))

def initializeVirtualHostPersistentState (host : HostCalls τ) (ip : String) : Act (Run τ) PUnit := do
  modify fun run => { run with actualHostMac := none, virtualHostToken := none }
  tryCatch (do initializeLocalNetworkInterface host ip; installVirtualHost host) fun _ => do
    let run ← get
    if run.actualHostMac.isSome then removeLocalNetworkInterface host ip
    match run.virtualHostToken with
    | none => pure ()
    | some token => uninstallVirtualHost host token
    throw ()

/-- `create_virtual_host`, and the entry in the dictionary of hosts. -/
def createVirtualHost (hostId : Int) : Act (Run τ) PUnit := do
  call (calls.host hostId).ingressNodeRaises
  initializeVirtualHostPersistentState (calls.host hostId) (actualHostIp hostId)
  match (← get).virtualHostToken with
  | none => pure ()
  | some token => modify fun run => { run with created := run.created ++ [⟨hostId, actualHostIp hostId, token⟩] }

def Run.start (hostId : Int) (side : Side) (run : Run τ) : Run τ :=
  { run.add (.process hostId side) with
    holds := fun side' => if side' = side then run.holds side' ++ [hostId] else run.holds side' }

def startTrafficGenerationServer (hostId : Int) : Act (Run τ) PUnit := do
  call (calls.host hostId).startServerRaises
  modify (Run.start hostId .server)

def startTrafficGenerationClient (hostId : Int) : Act (Run τ) PUnit :=
  if 0 < (calls.host hostId).flowCount then do
    call (calls.host hostId).startClientRaises
    modify (Run.start hostId .client)
  else pure ()

def stopTrafficGenerationServer (hostId : Int) : Act (Run τ) PUnit := do
  call (hostId ∉ (← get).holds .server)
  modify (Run.remove (.process hostId .server))

/-- The client has the signal when reading its output raises. -/
def stopTrafficGenerationClient (hostId : Int) : Act (Run τ) PUnit :=
  if (calls.host hostId).flowCount = 0 then pure () else do
    call (hostId ∉ (← get).holds .client)
    modify (Run.remove (.process hostId .client))
    call (calls.host hostId).stopClientRaises

def destroyVirtualHost (host : VirtualHost τ) : Act (Run τ) PUnit := do
  uninstallVirtualHost (calls.host host.hostId) host.token
  removeLocalNetworkInterface (calls.host host.hostId) host.actualHostIp
  if host.hostId ∈ (← get).holds .client then stopTrafficGenerationClient calls host.hostId
  if host.hostId ∈ (← get).holds .server then stopTrafficGenerationServer host.hostId

def destroyAllHosts (hosts : List (VirtualHost τ)) : Act (Run τ) PUnit :=
  forM hosts fun host => tryCatch (destroyVirtualHost calls host) fun _ => pure ()

/-- `range(1, 11)`. -/
def hostIds : List Int := [1, 2, 3, 4, 5, 6, 7, 8, 9, 10]

def createVirtualHosts : Act (Run τ) PUnit := do
  modify fun run => { run with created := [] }
  tryCatch (forM hostIds (createVirtualHost calls)) fun _ => do
    destroyAllHosts calls (← get).created
    throw ()

/-- The body of `conduct_path_hopping_trial` from the start of the servers on. -/
def generateTraffic (ids : List Int) : Act (Run τ) PUnit := do
  forM ids (startTrafficGenerationServer calls)
  call calls.flowsRaise
  forM ids (startTrafficGenerationClient calls)
  call calls.measurementRaises

def trialBody : Act (Run τ) PUnit := do
  call calls.topologyRaises
  createVirtualHosts calls
  modify fun run => { run with hosts := run.created }
  generateTraffic calls ((← get).hosts.map VirtualHost.hostId)

/-- The hosts are objects of their trial: none of them exists before, and none holds a process. -/
def conductPathHoppingTrial : Act (Run τ) PUnit := do
  modify fun run => { run with hosts := [], holds := fun _ => [] }
  tryFinally (tryCatch (trialBody calls) fun _ => call calls.handlerRaises) do
    destroyAllHosts calls (← get).hosts

end Programs

/-! ### What the calls amount to -/

section Outcomes

variable [DecidableEq τ]

/-- The host's id at the controller when it can be created; `busy` says that its address is taken. -/
def HostCalls.token? (host : HostCalls τ) (busy : Bool) : Option τ :=
  if host.ingressNodeRaises || host.addRaises || busy || host.mac.isNone then none
  else
    match host.reply with
    | .created token => some token
    | _ => none

/-- What is left of a host that cannot be created: its address, when the lookup after it fails or it cannot be removed,
and the controller's host, when the controller answers without its id. -/
def HostCalls.leftAtFailure (host : HostCalls τ) (busy : Bool) (ip : String) : Multiset (Item τ) :=
  if host.ingressNodeRaises || host.addRaises || busy then 0
  else if host.mac.isNone then {.address ip}
  else
    (match host.reply with
      | .withoutId token => {.registration token}
      | _ => 0) +
      if host.delRaises then {.address ip} else 0

/-- Whether the address of a host is taken. -/
def busy (present : Multiset (Item τ)) (hostId : Int) : Bool := .address (actualHostIp hostId) ∈ present

/-- The hosts that are created: up to the first that cannot be. -/
def createdHosts (calls : Calls τ) (present : Multiset (Item τ)) : List Int → List (VirtualHost τ)
  | [] => []
  | hostId :: rest =>
      match (calls.host hostId).token? (busy present hostId) with
      | none => []
      | some token => ⟨hostId, actualHostIp hostId, token⟩ :: createdHosts calls present rest

/-- What is left of that one. -/
def leftByFailure (calls : Calls τ) (present : Multiset (Item τ)) : List Int → Multiset (Item τ)
  | [] => 0
  | hostId :: rest =>
      match (calls.host hostId).token? (busy present hostId) with
      | none => (calls.host hostId).leftAtFailure (busy present hostId) (actualHostIp hostId)
      | some _ => leftByFailure calls present rest

/-- The processes of a host, by the hosts that hold one. -/
def processesOf (holds : Side → List Int) (hostId : Int) : Multiset (Item τ) :=
  (if hostId ∈ holds .client then {.process hostId .client} else 0) +
    if hostId ∈ holds .server then {.process hostId .server} else 0

def VirtualHost.owned (holds : Side → List Int) (host : VirtualHost τ) : Multiset (Item τ) :=
  .registration host.token ::ₘ .address host.actualHostIp ::ₘ processesOf holds host.hostId

/-- What is left of a host after it is destroyed: everything from the first call on that fails. -/
def VirtualHost.left (calls : Calls τ) (holds : Side → List Int) (host : VirtualHost τ) : Multiset (Item τ) :=
  if (calls.host host.hostId).uninstallRaises then host.owned holds
  else if (calls.host host.hostId).delRaises then .address host.actualHostIp ::ₘ processesOf holds host.hostId
  else if host.hostId ∈ holds .client ∧ (calls.host host.hostId).stopClientRaises then
    if host.hostId ∈ holds .server then {.process host.hostId .server} else 0
  else 0

end Outcomes

/-! ### What the calls do -/

section Specs

variable [DecidableEq τ] (calls : Calls τ)

theorem state_removeLocalNetworkInterface (host : HostCalls τ) (ip : String) (run : Run τ) :
    (removeLocalNetworkInterface host ip).state run =
      if host.delRaises = true ∨ .address ip ∉ run.present then run else run.remove (.address ip) := by
  rw [removeLocalNetworkInterface, Act.state_get_bind, Act.state_seq, Act.raises_call, Act.state_call, Act.state_modify]
  simp

theorem raises_removeLocalNetworkInterface (host : HostCalls τ) (ip : String) (run : Run τ) :
    (removeLocalNetworkInterface host ip).raises run = (host.delRaises || .address ip ∉ run.present) := by
  rw [removeLocalNetworkInterface, Act.raises_get_bind, Act.raises_seq, Act.raises_call, Act.state_call,
    Act.raises_modify, Bool.or_false]

/-- The address and the registration of a host that can be created are there; of another one something may be left. In
the handler the host never has a token. -/
theorem initialize_spec (host : HostCalls τ) (ip : String) (run : Run τ) (hingress : host.ingressNodeRaises = false)
    {taken : Bool} (htaken : decide (.address ip ∈ run.present) = taken) :
    let after := (initializeVirtualHostPersistentState host ip).state run
    (initializeVirtualHostPersistentState host ip).raises run = (host.token? taken).isNone ∧
    after.virtualHostToken = host.token? taken ∧
    after.created = run.created ∧ after.hosts = run.hosts ∧ after.holds = run.holds ∧
    after.present =
      (match host.token? taken with
        | some token => .registration token ::ₘ {.address ip}
        | none => host.leftAtFailure taken ip) + run.present := by
  obtain ⟨ingressNodeRaises, addRaises, mac, reply, _, _, _, uninstallRaises, delRaises, _⟩ := host
  subst hingress htaken
  by_cases hbusy : addRaises = true ∨ .address ip ∈ run.present
  · simp [initializeVirtualHostPersistentState, initializeLocalNetworkInterface, Act.state_seq, Act.raises_seq,
      Act.state_tryCatch, Act.raises_tryCatch, HostCalls.token?, HostCalls.leftAtFailure, hbusy]
  · obtain ⟨hadd, hfree⟩ := not_or.mp hbusy
    cases mac with
    | none =>
        simp [initializeVirtualHostPersistentState, initializeLocalNetworkInterface, Act.state_seq, Act.raises_seq,
          Act.state_tryCatch, Act.raises_tryCatch, HostCalls.token?, HostCalls.leftAtFailure, hadd, hfree, Run.add]
    | some mac =>
        cases reply <;> cases delRaises <;>
          simp [initializeVirtualHostPersistentState, initializeLocalNetworkInterface, installVirtualHost,
            Act.state_seq, Act.raises_seq, Act.state_tryCatch, Act.raises_tryCatch, HostCalls.token?,
            HostCalls.leftAtFailure, hadd, hfree, Run.add, Run.remove, state_removeLocalNetworkInterface,
            raises_removeLocalNetworkInterface]

theorem createVirtualHost_spec (hostId : Int) (run : Run τ) :
    let after := (createVirtualHost calls hostId).state run
    (createVirtualHost calls hostId).raises run = ((calls.host hostId).token? (busy run.present hostId)).isNone ∧
    after.created = run.created ++ createdHosts calls run.present [hostId] ∧
    after.hosts = run.hosts ∧ after.holds = run.holds ∧
    after.present = ((createdHosts calls run.present [hostId]).map (VirtualHost.owned fun _ => [])).sum +
      leftByFailure calls run.present [hostId] + run.present := by
  cases hingress : (calls.host hostId).ingressNodeRaises with
  | true =>
      simp [createVirtualHost, Act.state_seq, Act.raises_seq, hingress, HostCalls.token?, createdHosts, leftByFailure,
        HostCalls.leftAtFailure]
  | false =>
      obtain ⟨hraises, htoken, hcreated, hhosts, hholds, hpresent⟩ :=
        initialize_spec (calls.host hostId) (actualHostIp hostId) run hingress
          (show _ = busy run.present hostId from rfl)
      simp only [createVirtualHost, Act.state_seq, Act.raises_seq, Act.raises_call, Act.state_call, hingress,
        Bool.false_eq_true, if_false, Bool.false_or, hraises, Act.state_get_bind, Act.raises_get_bind, htoken]
      cases hcase : (calls.host hostId).token? (busy run.present hostId) with
      | none =>
          rw [hcase] at hpresent
          simp [createdHosts, leftByFailure, hcase, hcreated, hhosts, hholds, hpresent]
      | some token =>
          rw [hcase] at hpresent
          simp [createdHosts, leftByFailure, hcase, hcreated, hhosts, hholds, hpresent, VirtualHost.owned, processesOf]

/-- The creation depends on which of the addresses are taken, and on nothing else that is there. -/
theorem created_congr {present present' : Multiset (Item τ)} {ids : List Int}
    (h : ∀ hostId ∈ ids, busy present hostId = busy present' hostId) :
    createdHosts calls present ids = createdHosts calls present' ids ∧
      leftByFailure calls present ids = leftByFailure calls present' ids := by
  induction ids with
  | nil => exact ⟨rfl, rfl⟩
  | cons hostId rest ih =>
      obtain ⟨hfirst, hrest⟩ := List.forall_mem_cons.mp h
      obtain ⟨hcreated, hleft⟩ := ih hrest
      simp only [createdHosts, leftByFailure, hfirst, hcreated, hleft]
      exact ⟨trivial, trivial⟩

/-- The hosts that the loop creates are there with what belongs to them. -/
theorem createLoop_spec {ids : List Int} (hnodup : (ids.map actualHostIp).Nodup) (run : Run τ) :
    let after := (forM ids (createVirtualHost calls) : Act (Run τ) PUnit).state run
    let created := createdHosts calls run.present ids
    (forM ids (createVirtualHost calls) : Act (Run τ) PUnit).raises run = decide (created.length < ids.length) ∧
    after.created = run.created ++ created ∧ after.hosts = run.hosts ∧ after.holds = run.holds ∧
    after.present = (created.map (VirtualHost.owned fun _ => [])).sum + leftByFailure calls run.present ids +
      run.present := by
  induction ids generalizing run with
  | nil => simp [createdHosts, leftByFailure]
  | cons hostId rest ih =>
      obtain ⟨hfirst, hrest⟩ := List.nodup_cons.mp hnodup
      obtain ⟨hraises, hcreated, hhosts, hholds, hpresent⟩ := createVirtualHost_spec calls hostId run
      cases hcase : (calls.host hostId).token? (busy run.present hostId) with
      | none =>
          simp [Act.state_seq, Act.raises_seq, hraises, hcase, hcreated, hhosts, hholds, hpresent, createdHosts,
            leftByFailure]
      | some token =>
          simp only [createdHosts, leftByFailure, hcase, List.map_cons, List.map_nil, List.sum_cons, List.sum_nil,
            add_zero] at hpresent hcreated
          -- the address of the new host is not one of those that follow
          have hbusy : ∀ other ∈ rest, busy ((createVirtualHost calls hostId).state run).present other =
              busy run.present other := by
            intro other hother
            have hne : actualHostIp other ≠ actualHostIp hostId := fun heq =>
              hfirst (heq ▸ List.mem_map_of_mem hother)
            simp [busy, hpresent, VirtualHost.owned, processesOf, hne]
          obtain ⟨hsame, hsameLeft⟩ := created_congr calls hbusy
          obtain ⟨hraises', hcreated', hhosts', hholds', hpresent'⟩ :=
            ih hrest ((createVirtualHost calls hostId).state run)
          rw [hsame] at hraises' hcreated' hpresent'
          rw [hsameLeft, hpresent] at hpresent'
          simp only [List.forM_cons, Act.state_seq, Act.raises_seq, hraises, hcase, Option.isNone_some,
            Bool.false_eq_true, if_false, Bool.false_or, createdHosts, leftByFailure]
          refine ⟨?_, ?_, hhosts'.trans hhosts, hholds'.trans hholds, ?_⟩
          · simpa using hraises'
          · rw [hcreated', hcreated, List.append_assoc, List.singleton_append]
          · rw [hpresent', List.map_cons, List.sum_cons]
            abel

/-- Destroying a host takes away what belongs to it, as far as the calls do not fail. -/
theorem state_destroyVirtualHost (host : VirtualHost τ) (run : Run τ) (rest : Multiset (Item τ))
    (hclient : ∀ hostId ∈ run.holds .client, 0 < (calls.host hostId).flowCount)
    (hpresent : run.present = host.owned run.holds + rest) :
    (destroyVirtualHost calls host).state run = { run with present := host.left calls run.holds + rest } := by
  obtain ⟨present, mac, token, created, hosts, holds⟩ := run
  dsimp only at hpresent hclient ⊢
  subst hpresent
  cases huninstall : (calls.host host.hostId).uninstallRaises with
  | true => simp [destroyVirtualHost, uninstallVirtualHost, Act.state_seq, huninstall, VirtualHost.left]
  | false =>
      cases hdel : (calls.host host.hostId).delRaises with
      | true =>
          simp [destroyVirtualHost, uninstallVirtualHost, Act.state_seq, huninstall, VirtualHost.left, hdel,
            state_removeLocalNetworkInterface, raises_removeLocalNetworkInterface, Run.remove, VirtualHost.owned]
      | false =>
          by_cases hholds : host.hostId ∈ holds .client
          · have hcount := Nat.ne_of_gt (hclient _ hholds)
            cases hstop : (calls.host host.hostId).stopClientRaises <;>
              by_cases hserver : host.hostId ∈ holds .server <;>
              simp [destroyVirtualHost, uninstallVirtualHost, Act.state_seq, huninstall, VirtualHost.left, hdel,
                state_removeLocalNetworkInterface, raises_removeLocalNetworkInterface, Run.remove, VirtualHost.owned,
                stopTrafficGenerationClient, stopTrafficGenerationServer, hholds, hserver, hcount, hstop, processesOf]
          · by_cases hserver : host.hostId ∈ holds .server <;>
              simp [destroyVirtualHost, uninstallVirtualHost, Act.state_seq, huninstall, VirtualHost.left, hdel,
                state_removeLocalNetworkInterface, raises_removeLocalNetworkInterface, Run.remove, VirtualHost.owned,
                stopTrafficGenerationServer, hholds, hserver, processesOf]

theorem raises_destroyAllHosts (hosts : List (VirtualHost τ)) (run : Run τ) :
    (destroyAllHosts calls hosts).raises run = false := by
  unfold destroyAllHosts
  induction hosts generalizing run with
  | nil => rfl
  | cons host others ih =>
      rw [List.forM_cons, Act.raises_seq, ih, Act.raises_tryCatch, Act.raises_pure, Bool.and_false, Bool.or_false]

/-- Whatever happens to one host, the next one is destroyed. -/
theorem state_destroyAllHosts (hosts : List (VirtualHost τ)) (run : Run τ) (rest : Multiset (Item τ))
    (hclient : ∀ hostId ∈ run.holds .client, 0 < (calls.host hostId).flowCount)
    (hpresent : run.present = (hosts.map (VirtualHost.owned run.holds)).sum + rest) :
    (destroyAllHosts calls hosts).state run =
      { run with present := (hosts.map (VirtualHost.left calls run.holds)).sum + rest } := by
  unfold destroyAllHosts
  induction hosts generalizing run rest with
  | nil =>
      obtain ⟨present, mac, token, created, hosts, holds⟩ := run
      dsimp only at hpresent
      subst hpresent
      rfl
  | cons host others ih =>
      rw [List.map_cons, List.sum_cons, add_assoc] at hpresent
      have hhost := state_destroyVirtualHost calls host run _ hclient hpresent
      rw [List.forM_cons, Act.state_seq, Act.raises_tryCatch, Act.state_tryCatch, Act.raises_pure, Bool.and_false,
        Act.state_pure, ite_self, if_neg Bool.false_ne_true, hhost]
      have hothers := ih
        { run with present := host.left calls run.holds + ((others.map (VirtualHost.owned run.holds)).sum + rest) }
        (host.left calls run.holds + rest) hclient (add_left_comm _ _ _)
      rw [hothers, List.map_cons, List.sum_cons]
      dsimp only
      rw [add_left_comm, add_assoc]

/-! ### Processes -/

omit [DecidableEq τ] in
/-- The hosts with a process after a loop that starts them: up to the first whose start raises. -/
theorem startLoop_spec (start : Int → Act (Run τ) PUnit) (side : Side) (raises starts : Int → Bool)
    (hstate : ∀ hostId run, (start hostId).state run =
      if raises hostId = false ∧ starts hostId = true then run.start hostId side else run)
    (hraises : ∀ hostId run, (start hostId).raises run = raises hostId) (ids : List Int) (run : Run τ) :
    (forM ids start : Act (Run τ) PUnit).state run =
        ((ids.takeWhile (!raises ·)).filter starts).foldl (fun run hostId => run.start hostId side) run ∧
      (forM ids start : Act (Run τ) PUnit).raises run = ids.any raises := by
  induction ids generalizing run with
  | nil => exact ⟨rfl, rfl⟩
  | cons hostId rest ih =>
      rw [List.forM_cons, Act.state_seq, Act.raises_seq, hraises, hstate, (ih _).1, (ih _).2, List.takeWhile_cons,
        List.any_cons]
      cases raises hostId <;> cases hstarts : starts hostId <;> simp [hstarts]

omit [DecidableEq τ] in
theorem foldl_start (ids : List Int) (side : Side) (run : Run τ) :
    ids.foldl (fun run hostId => run.start hostId side) run =
      { run with
        present := ↑(ids.map (Item.process · side) : List (Item τ)) + run.present
        holds := fun side' => if side' = side then run.holds side' ++ ids else run.holds side' } := by
  induction ids generalizing run with
  | nil => simp
  | cons hostId rest ih =>
      rw [List.foldl_cons, ih]
      simp only [Run.start, Run.add, List.map_cons, ← Multiset.cons_coe, Multiset.cons_add, Multiset.add_cons]
      congr 1
      funext side'
      split <;> simp

/-- The hosts that start the server: all up to the first whose start raises. -/
def serversStarted (ids : List Int) : List Int := ids.takeWhile fun hostId => !(calls.host hostId).startServerRaises

/-- The hosts that start the client: those with flows, up to the first whose start raises. -/
def clientsStarted (ids : List Int) : List Int :=
  let reached := ids.takeWhile fun hostId =>
    !(decide (0 < (calls.host hostId).flowCount) && (calls.host hostId).startClientRaises)
  reached.filter fun hostId => 0 < (calls.host hostId).flowCount

/-- The clients are started when all servers are, and the flows. -/
def clientsAfter : List Int :=
  if (hostIds.any fun hostId => (calls.host hostId).startServerRaises) || calls.flowsRaise then []
  else clientsStarted calls hostIds

omit [DecidableEq τ] in
theorem startServers_spec (ids : List Int) (run : Run τ) :
    (forM ids (startTrafficGenerationServer calls) : Act (Run τ) PUnit).state run =
        (serversStarted calls ids).foldl (fun run hostId => run.start hostId .server) run ∧
      (forM ids (startTrafficGenerationServer calls) : Act (Run τ) PUnit).raises run =
        ids.any fun hostId => (calls.host hostId).startServerRaises := by
  have hspec := startLoop_spec (startTrafficGenerationServer calls) .server
    (fun hostId => (calls.host hostId).startServerRaises) (fun _ => true)
    (fun hostId run => by
      cases hraises : (calls.host hostId).startServerRaises <;>
        simp [startTrafficGenerationServer, Act.state_seq, hraises])
    (fun hostId run => by simp [startTrafficGenerationServer, Act.raises_seq]) ids run
  rwa [List.filter_true] at hspec

omit [DecidableEq τ] in
theorem startClients_spec (ids : List Int) (run : Run τ) :
    (forM ids (startTrafficGenerationClient calls) : Act (Run τ) PUnit).state run =
        (clientsStarted calls ids).foldl (fun run hostId => run.start hostId .client) run ∧
      (forM ids (startTrafficGenerationClient calls) : Act (Run τ) PUnit).raises run =
        ids.any fun hostId => decide (0 < (calls.host hostId).flowCount) && (calls.host hostId).startClientRaises := by
  refine startLoop_spec (startTrafficGenerationClient calls) .client _ (fun hostId => 0 < (calls.host hostId).flowCount)
    (fun hostId run => ?_) (fun hostId run => ?_) ids run
  · by_cases hcount : 0 < (calls.host hostId).flowCount <;> cases hraises : (calls.host hostId).startClientRaises <;>
      simp [startTrafficGenerationClient, Act.state_seq, hraises, hcount]
  · by_cases hcount : 0 < (calls.host hostId).flowCount <;>
      simp [startTrafficGenerationClient, Act.raises_seq, hcount]

omit [DecidableEq τ] in
/-- Processes counted host by host. -/
theorem sum_processes {ids l : List Int} (hsublist : l.Sublist ids) (hnodup : ids.Nodup) (side : Side) :
    (ids.map fun hostId => if hostId ∈ l then ({.process hostId side} : Multiset (Item τ)) else 0).sum =
      ↑(l.map (Item.process · side) : List (Item τ)) := by
  induction hsublist with
  | slnil => rfl
  | cons hostId hsublist ih =>
      obtain ⟨hnew, hrest⟩ := List.nodup_cons.mp hnodup
      rw [List.map_cons, List.sum_cons, if_neg fun hmem => hnew (hsublist.subset hmem), zero_add, ih hrest]
  | cons_cons hostId hsublist ih =>
      obtain ⟨hnew, hrest⟩ := List.nodup_cons.mp hnodup
      rw [List.map_cons, List.sum_cons, if_pos List.mem_cons_self, List.map_cons, ← Multiset.cons_coe, ← ih hrest,
        Multiset.singleton_add]
      congr 2
      apply List.map_congr_left
      intro other hother
      have hne : other ≠ hostId := fun heq => hnew (heq ▸ hother)
      simp [hne]

omit [DecidableEq τ] in
/-- Hosts own what they were created with and the processes that were started. -/
theorem sum_owned {hosts : List (VirtualHost τ)} (hnodup : (hosts.map VirtualHost.hostId).Nodup)
    {holds : Side → List Int} (hholds : ∀ side, (holds side).Sublist (hosts.map VirtualHost.hostId)) :
    (hosts.map (VirtualHost.owned holds)).sum =
      ↑((holds .client).map (Item.process · .client) : List (Item τ)) +
        (↑((holds .server).map (Item.process · .server) : List (Item τ)) +
          (hosts.map (VirtualHost.owned fun _ => [])).sum) := by
  rw [← sum_processes (hholds .client) hnodup, ← sum_processes (hholds .server) hnodup, List.map_map, List.map_map,
    ← List.sum_map_add, ← List.sum_map_add]
  congr 1
  apply List.map_congr_left
  intro host _
  simp only [VirtualHost.owned, processesOf, List.not_mem_nil, if_false, ← Multiset.singleton_add]
  abel

/-! ### A trial -/

theorem nodup_hostIds : hostIds.Nodup := by decide

theorem nodup_actualHostIp : (hostIds.map actualHostIp).Nodup := by decide

/-- The hosts are created in their order. -/
theorem hostIds_createdHosts (present : Multiset (Item τ)) (ids : List Int) :
    (createdHosts calls present ids).map VirtualHost.hostId <+: ids := by
  induction ids with
  | nil => exact List.nil_prefix
  | cons hostId rest ih =>
      rw [createdHosts]
      split
      · exact List.nil_prefix
      · exact List.cons_prefix_cons.mpr ⟨rfl, ih⟩

/-- All hosts are created. -/
def allCreated (present : Multiset (Item τ)) : Bool :=
  !calls.topologyRaises && (createdHosts calls present hostIds).length = hostIds.length

/-- The hosts that hold a process at the end of a trial: none, when not all hosts were created. -/
def holdsAfter (present : Multiset (Item τ)) (side : Side) : List Int :=
  if allCreated calls present then
    match side with
    | .server => serversStarted calls hostIds
    | .client => clientsAfter calls
  else []

/-- What a trial leaves behind. -/
def leftBehind (present : Multiset (Item τ)) : Multiset (Item τ) :=
  if calls.topologyRaises then 0
  else
    ((createdHosts calls present hostIds).map (VirtualHost.left calls (holdsAfter calls present))).sum +
      leftByFailure calls present hostIds

theorem createVirtualHosts_spec (run : Run τ) (hholds : run.holds = fun _ => []) :
    let after := (createVirtualHosts calls).state run
    let created := createdHosts calls run.present hostIds
    (createVirtualHosts calls).raises run = decide (created.length < hostIds.length) ∧
    after.hosts = run.hosts ∧ (after.holds = fun _ => []) ∧
    (created.length < hostIds.length → after.present =
      (created.map (VirtualHost.left calls fun _ => [])).sum +
        (leftByFailure calls run.present hostIds + run.present)) ∧
    (¬created.length < hostIds.length → after.created = created ∧ after.present =
      (created.map (VirtualHost.owned fun _ => [])).sum +
        (leftByFailure calls run.present hostIds + run.present)) := by
  obtain ⟨hraises, hcreated, hhosts, hsame, hpresent⟩ :=
    createLoop_spec calls nodup_actualHostIp { run with created := [] }
  have hnone := hsame.trans hholds
  dsimp only at hraises hcreated hhosts hsame hpresent
  simp only [createVirtualHosts, Act.state_seq, Act.raises_seq, Act.state_modify, Act.raises_modify, Act.state_tryCatch,
    Act.raises_tryCatch, Bool.false_eq_true, if_false, Bool.false_or, hraises, Act.state_get_bind,
    Act.raises_get_bind, raises_destroyAllHosts, Act.raises_throw, Bool.and_true, Act.state_throw]
  generalize (forM hostIds (createVirtualHost calls) : Act (Run τ) PUnit).state { run with created := [] } = mid at *
  rw [List.nil_append] at hcreated
  rw [add_assoc] at hpresent
  by_cases hfails : (createdHosts calls run.present hostIds).length < hostIds.length
  · have hdestroy := state_destroyAllHosts calls (createdHosts calls run.present hostIds) mid _ (by simp [hnone])
      (by rw [hnone]; exact hpresent)
    rw [hnone] at hdestroy
    simp [hfails, hcreated, hdestroy, hhosts]
  · simp [hfails, hcreated, hpresent, hhosts, hnone]

theorem leftByFailure_of_all {present : Multiset (Item τ)} {ids : List Int}
    (h : ¬(createdHosts calls present ids).length < ids.length) : leftByFailure calls present ids = 0 := by
  induction ids with
  | nil => rfl
  | cons hostId rest ih =>
      cases hcase : (calls.host hostId).token? (busy present hostId) with
      | none => simp [createdHosts, hcase] at h
      | some token =>
          simp only [createdHosts, leftByFailure, hcase, List.length_cons, Nat.add_lt_add_iff_right] at h ⊢
          exact ih h

omit [DecidableEq τ] in
theorem state_generateTraffic (run : Run τ) (hholds : run.holds = fun _ => []) :
    (generateTraffic calls hostIds).state run =
      { run with
        present := ↑((clientsAfter calls).map (Item.process · .client) : List (Item τ)) +
          (↑((serversStarted calls hostIds).map (Item.process · .server) : List (Item τ)) + run.present)
        holds := fun side =>
          match side with
          | .server => serversStarted calls hostIds
          | .client => clientsAfter calls } := by
  obtain ⟨present, mac, token, created, hosts, holds⟩ := run
  dsimp only at hholds
  subst hholds
  rw [generateTraffic, Act.state_seq, (startServers_spec calls _ _).1, (startServers_spec calls _ _).2, foldl_start,
    Act.state_seq, Act.raises_call, Act.state_call, Act.state_seq, (startClients_spec calls _ _).1,
    (startClients_spec calls _ _).2, foldl_start, Act.state_call, ite_self, clientsAfter]
  cases (hostIds.any fun hostId => (calls.host hostId).startServerRaises) <;> cases calls.flowsRaise <;>
    simp <;> funext side <;> cases side <;> simp

omit [DecidableEq τ] in
theorem sublist_started (side : Side) :
    (match side with
      | .server => serversStarted calls hostIds
      | .client => clientsAfter calls).Sublist hostIds := by
  cases side with
  | server => exact List.takeWhile_sublist _
  | client =>
      dsimp only [clientsAfter]
      split
      · exact List.nil_sublist _
      · exact List.filter_sublist.trans (List.takeWhile_sublist _)

/-- Only hosts with flows hold a client. -/
theorem flowCount_pos_of_holds {present : Multiset (Item τ)} {hostId : Int}
    (h : hostId ∈ holdsAfter calls present .client) : 0 < (calls.host hostId).flowCount := by
  simp only [holdsAfter, clientsAfter] at h
  split at h
  · split at h
    · cases h
    · exact of_decide_eq_true (List.mem_filter.mp h).2
  · cases h

/-- What the body of a trial leaves to its `finally` block. -/
structure AtFinally (run after : Run τ) : Prop where
  holds : after.holds = holdsAfter calls run.present
  present : (allCreated calls run.present = false ∧ after.hosts = [] ∧
      after.present = leftBehind calls run.present + run.present) ∨
    (allCreated calls run.present = true ∧ after.hosts = createdHosts calls run.present hostIds ∧
      after.present = (after.hosts.map (VirtualHost.owned after.holds)).sum + run.present)

theorem atFinally_trialBody (run : Run τ) (hhosts : run.hosts = []) (hholds : run.holds = fun _ => []) :
    AtFinally calls run ((trialBody calls).state run) := by
  cases htopology : calls.topologyRaises with
  | true =>
      have hnot : allCreated calls run.present = false := by simp [allCreated, htopology]
      have hstate : (trialBody calls).state run = run := by simp [trialBody, Act.state_seq, htopology]
      rw [hstate]
      exact ⟨hholds.trans (funext fun side => (by simp [holdsAfter, hnot])),
        Or.inl ⟨hnot, hhosts, by simp [leftBehind, htopology]⟩⟩
  | false =>
      obtain ⟨hraises, hsame, hnone, hfailed, hmade⟩ := createVirtualHosts_spec calls run hholds
      simp only [trialBody, Act.state_seq, Act.raises_call, Act.state_call, htopology, Bool.false_eq_true, if_false,
        Act.state_modify, Act.raises_modify, Act.state_get_bind, hraises]
      generalize (createVirtualHosts calls).state run = made at *
      by_cases hfails : (createdHosts calls run.present hostIds).length < hostIds.length
      · have hnot : allCreated calls run.present = false := by simp [allCreated, Nat.ne_of_lt hfails]
        have hholdsAfter : holdsAfter calls run.present = fun _ => [] := funext fun side => by simp [holdsAfter, hnot]
        rw [if_pos (decide_eq_true hfails)]
        refine ⟨hnone.trans hholdsAfter.symm, Or.inl ⟨hnot, hsame.trans hhosts, ?_⟩⟩
        rw [hfailed hfails, leftBehind, htopology, hholdsAfter, if_neg Bool.false_ne_true, add_assoc]
      · obtain ⟨hcreated, hpresent⟩ := hmade hfails
        have hids : (createdHosts calls run.present hostIds).map VirtualHost.hostId = hostIds := by
          apply (hostIds_createdHosts calls run.present hostIds).eq_of_length_le
          rw [List.length_map]
          exact Nat.not_lt.mp hfails
        have hall : allCreated calls run.present = true := by
          have hlength := congrArg List.length hids
          rw [List.length_map] at hlength
          simp [allCreated, htopology, hlength]
        have hholdsAfter : holdsAfter calls run.present = fun side =>
            match side with
            | .server => serversStarted calls hostIds
            | .client => clientsAfter calls := by
          funext side
          simp [holdsAfter, hall]
        have htraffic := state_generateTraffic calls { made with hosts := made.created } hnone
        rw [if_neg (by simpa using hfails), hcreated, hids, ← hcreated, htraffic]
        refine ⟨hholdsAfter.symm, Or.inr ⟨hall, hcreated, ?_⟩⟩
        have hsublist : ∀ side, (holdsAfter calls run.present side).Sublist
            ((createdHosts calls run.present hostIds).map VirtualHost.hostId) := by
          intro side
          rw [hholdsAfter, hids]
          exact sublist_started calls side
        have hsum := sum_owned (by rw [hids]; exact nodup_hostIds) hsublist
        rw [hholdsAfter] at hsum
        dsimp only at hsum ⊢
        rw [hcreated, hpresent, leftByFailure_of_all calls hfails, zero_add, hsum]
        simp only [add_assoc]

/-- A trial adds what it leaves behind, and nothing else changes outside of it. -/
theorem conductPathHoppingTrial_spec (run : Run τ) :
    ((conductPathHoppingTrial calls).state run).present = leftBehind calls run.present + run.present ∧
      ((conductPathHoppingTrial calls).state run).holds = holdsAfter calls run.present := by
  obtain ⟨hholds, hpresent⟩ := atFinally_trialBody calls { run with hosts := [], holds := fun _ => [] } rfl rfl
  rw [conductPathHoppingTrial, Act.state_seq, Act.raises_modify, if_neg Bool.false_ne_true, Act.state_modify,
    Act.state_tryFinally, Act.state_tryCatch, Act.state_call, ite_self, Act.state_get_bind]
  generalize (trialBody calls).state { run with hosts := [], holds := fun _ => [] } = after at *
  dsimp only at hholds hpresent
  rcases hpresent with ⟨-, hhosts, hpresent⟩ | ⟨hall, hhosts, hpresent⟩
  · rw [hhosts]
    exact ⟨hpresent, hholds⟩
  · have hfails : ¬(createdHosts calls run.present hostIds).length < hostIds.length := by
      simp only [allCreated, Bool.and_eq_true, decide_eq_true_eq] at hall
      omega
    have htopology : calls.topologyRaises = false := by
      simp only [allCreated, Bool.and_eq_true, Bool.not_eq_true'] at hall
      exact hall.1
    rw [state_destroyAllHosts calls after.hosts after run.present
      (fun hostId hmem => flowCount_pos_of_holds calls (hholds ▸ hmem)) hpresent]
    refine ⟨?_, hholds⟩
    dsimp only
    rw [hholds, hhosts, leftBehind, htopology, leftByFailure_of_all calls hfails, add_zero, if_neg Bool.false_ne_true]

end Specs

end OfTestbed.VirtualHosts
