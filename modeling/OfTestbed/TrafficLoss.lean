import Mathlib.Data.Multiset.Count
import Mathlib.Logic.Function.Basic
import Mathlib.Logic.Relation
import OfTestbed.LibDefaultDict
import OfTestbed.MininetHost
import OfTestbed.TrafficGenTransmit

/-!
The packets of a trial and the losses that are reported: the generators (`traffic_generation/traffic_gen.py`), the
servers that receive (`traffic_generation/traffic_server.py`) and `calc_loss_rates` of
`mp_routing/stats_processor.py`, which compares the files that both leave. The processes run side by side: a generator
may emit its next event, the network may lose a packet that is in flight or deliver it, and a process may be stopped,
in any order. The lookups in the domain name system are a parameter.
-/

namespace OfTestbed.TrafficLoss

open Lib TrafficGen

/-! ### The processes -/

/-- A flow of a generator, with the socket that it sends from. -/
structure Flow where
  params : TrafficGen.FlowParameters
  source : Text × Nat
  srcHost : Int
  destAddr : Text
  flowId : Int

structure Sender where
  flows : List Flow
  rounds : List Round

namespace Sender

def events (sender : Sender) : List Event := (generateTraffic (sender.flows.map Flow.params) sender.rounds).events

/-- The file that the handler of the signal leaves. -/
def handleSigInt (sender : Sender) (emitted : List Event) : Dict Nat MininetHost.Record :=
  .ofList (sender.flows.zipIdx.map fun e =>
    (e.2, ⟨countOf e.2 emitted, e.1.source.2, e.1.srcHost, e.1.destAddr, e.1.flowId⟩))

end Sender

structure Packet where
  source : Text × Nat
  destAddr : Text
  deriving DecidableEq

variable {ι : Type} [DecidableEq ι]

/-- The generators, and the addresses of the servers, which are known by the numbers of their hosts. -/
structure Testbed (ι : Type) where
  sender : ι → Sender
  address : Int → Text

/-- What the generators have emitted, the packets in flight, the counts of the servers, and the files that were left. -/
structure State (ι : Type) where
  emitted : ι → List Event
  flight : Multiset Packet
  byteCounts : Int → Dict (Text × Nat) Nat
  txFiles : ι → Option (Dict Nat MininetHost.Record)
  rxFiles : Int → Option (Dict (Text × Nat) Nat)

def State.start : State ι := ⟨fun _ => [], 0, fun _ => .empty, fun _ => none, fun _ => none⟩

/-- A step of one of the processes, or of the network. -/
inductive Step (bed : Testbed ι) (state : State ι) : State ι → Prop where
  | send {s : ι} {flowNum mark : Nat} {flow : Flow} (running : state.txFiles s = none)
      (next : state.emitted s ++ [.send flowNum mark] <+: (bed.sender s).events)
      (socket : (bed.sender s).flows[flowNum]? = some flow) :
      Step bed state { state with
        emitted := Function.update state.emitted s (state.emitted s ++ [.send flowNum mark])
        flight := ⟨flow.source, flow.destAddr⟩ ::ₘ state.flight }
  | count {s : ι} {flowNum : Nat} (running : state.txFiles s = none)
      (next : state.emitted s ++ [.count flowNum] <+: (bed.sender s).events) :
      Step bed state { state with
        emitted := Function.update state.emitted s (state.emitted s ++ [.count flowNum]) }
  | lose {packet : Packet} (sent : packet ∈ state.flight) :
      Step bed state { state with flight := state.flight.erase packet }
  | receive {host : Int} {packet : Packet} (running : state.rxFiles host = none) (sent : packet ∈ state.flight)
      (addressed : packet.destAddr = bed.address host) :
      Step bed state { state with
        flight := state.flight.erase packet
        byteCounts := Function.update state.byteCounts host ((state.byteCounts host).addTo packet.source 1) }
  | stopSender {s : ι} (running : state.txFiles s = none) :
      Step bed state { state with
        txFiles := Function.update state.txFiles s (some ((bed.sender s).handleSigInt (state.emitted s))) }
  | stopServer {host : Int} (running : state.rxFiles host = none) :
      Step bed state { state with rxFiles := Function.update state.rxFiles host (some (state.byteCounts host)) }

def Reachable (bed : Testbed ι) : State ι → Prop := Relation.ReflTransGen (Step bed) .start

/-- Every flow has a socket of its own. -/
def Testbed.OwnSockets (bed : Testbed ι) : Prop :=
  ∀ (s s' : ι) (flowNum flowNum' : Nat) (flow flow' : Flow), (bed.sender s).flows[flowNum]? = some flow →
    (bed.sender s').flows[flowNum']? = some flow' → flow.source = flow'.source → s = s' ∧ flowNum = flowNum'

/-! ### What was received was sent -/

/-- The packets that a server has counted of a socket. -/
def receivedFrom (counts : Dict (Text × Nat) Nat) (source : Text × Nat) : Nat := (counts.get? source).getD 0

theorem receivedFrom_addTo (counts : Dict (Text × Nat) Nat) (source source' : Text × Nat) :
    receivedFrom (counts.addTo source 1) source' = receivedFrom counts source' + if source' = source then 1 else 0 := by
  rw [receivedFrom, Dict.addTo, Dict.get?_set]
  by_cases heq : source' = source
  · rw [if_pos heq, if_pos heq, Option.getD_some, heq]
    rfl
  · rw [if_neg heq, if_neg heq, Nat.add_zero]
    rfl

/-- What holds in every state that is reached. -/
structure Inv (bed : Testbed ι) (state : State ι) : Prop where
  emitted_le : ∀ s, state.emitted s <+: (bed.sender s).events
  received_le : ∀ (s : ι) (flowNum : Nat) (flow : Flow) (host : Int), (bed.sender s).flows[flowNum]? = some flow →
    receivedFrom (state.byteCounts host) flow.source + state.flight.count ⟨flow.source, bed.address host⟩ ≤
      sentOf flowNum (state.emitted s)
  txFile_eq : ∀ s file, state.txFiles s = some file → file = (bed.sender s).handleSigInt (state.emitted s)
  rxFile_eq : ∀ host file, state.rxFiles host = some file → file = state.byteCounts host

omit [DecidableEq ι] in
theorem inv_start (bed : Testbed ι) : Inv bed .start where
  emitted_le s := List.nil_prefix
  received_le s flowNum flow host _ := Nat.zero_le _
  txFile_eq s file h := by cases h
  rxFile_eq host file h := by cases h

section Step

variable {bed : Testbed ι} {state : State ι}

/-- An event of a generator that has not been stopped. -/
theorem Inv.emit (h : Inv bed state) {s : ι} {event : Event} (running : state.txFiles s = none)
    (next : state.emitted s ++ [event] <+: (bed.sender s).events) :
    (∀ s', Function.update state.emitted s (state.emitted s ++ [event]) s' <+: (bed.sender s').events) ∧
    ∀ s' file, state.txFiles s' = some file →
      file = (bed.sender s').handleSigInt (Function.update state.emitted s (state.emitted s ++ [event]) s') := by
  refine ⟨fun s' => ?_, fun s' file hfile => ?_⟩
  · by_cases heq : s' = s
    · subst heq
      rwa [Function.update_self]
    · rw [Function.update_of_ne heq]
      exact h.emitted_le s'
  · have hne : s' ≠ s := by
      rintro rfl
      cases running.symm.trans hfile
    rw [Function.update_of_ne hne]
    exact h.txFile_eq s' file hfile

/-- The count of a flow of a generator that emits. -/
theorem sentOf_update (emitted : ι → List Event) (s : ι) (event : Event) (s' : ι) (flowNum : Nat) :
    sentOf flowNum (Function.update emitted s (emitted s ++ [event]) s') =
      sentOf flowNum (emitted s') + if s' = s then sentOf flowNum [event] else 0 := by
  by_cases heq : s' = s
  · subst heq
    rw [Function.update_self, sentOf_append, if_pos rfl]
  · rw [Function.update_of_ne heq, if_neg heq, Nat.add_zero]

theorem Inv.send (h : Inv bed state) (hsockets : bed.OwnSockets) {s : ι} {flowNum mark : Nat} {flow : Flow}
    (socket : (bed.sender s).flows[flowNum]? = some flow) (s' : ι) (flowNum' : Nat) (flow' : Flow) (host : Int)
    (socket' : (bed.sender s').flows[flowNum']? = some flow') :
    receivedFrom (state.byteCounts host) flow'.source +
        (⟨flow.source, flow.destAddr⟩ ::ₘ state.flight).count ⟨flow'.source, bed.address host⟩ ≤
      sentOf flowNum' (Function.update state.emitted s (state.emitted s ++ [.send flowNum mark]) s') := by
  have hle := h.received_le s' flowNum' flow' host socket'
  rw [sentOf_update, Multiset.count_cons]
  by_cases heq : (⟨flow'.source, bed.address host⟩ : Packet) = ⟨flow.source, flow.destAddr⟩
  · obtain ⟨rfl, rfl⟩ := hsockets s' s flowNum' flowNum flow' flow socket' socket (congrArg Packet.source heq)
    have hone : sentOf flowNum' [.send flowNum' mark] = 1 := by simp [sentOf]
    rw [if_pos heq, if_pos rfl, hone]
    omega
  · rw [if_neg heq]
    omega

omit [DecidableEq ι] in
theorem Inv.receive (h : Inv bed state) {host : Int} {packet : Packet} (sent : packet ∈ state.flight)
    (addressed : packet.destAddr = bed.address host) (s : ι) (flowNum : Nat) (flow : Flow) (host' : Int)
    (socket : (bed.sender s).flows[flowNum]? = some flow) :
    receivedFrom (Function.update state.byteCounts host ((state.byteCounts host).addTo packet.source 1) host')
        flow.source + (state.flight.erase packet).count ⟨flow.source, bed.address host'⟩ ≤
      sentOf flowNum (state.emitted s) := by
  have hle := h.received_le s flowNum flow host' socket
  by_cases hhost : host' = host
  · subst hhost
    rw [Function.update_self, receivedFrom_addTo]
    by_cases hsource : flow.source = packet.source
    · -- the packet is no longer in flight, and is counted
      have hpacket : packet = ⟨flow.source, bed.address host'⟩ := by
        rw [hsource, ← addressed]
      have hpos : 0 < state.flight.count packet := Multiset.count_pos.mpr sent
      rw [if_pos hsource, ← hpacket, Multiset.count_erase_self]
      rw [← hpacket] at hle
      omega
    · have hmono := Multiset.count_le_of_le (⟨flow.source, bed.address host'⟩ : Packet)
        (Multiset.erase_le packet state.flight)
      rw [if_neg hsource]
      omega
  · have hmono := Multiset.count_le_of_le (⟨flow.source, bed.address host'⟩ : Packet)
      (Multiset.erase_le packet state.flight)
    rw [Function.update_of_ne hhost]
    omega

theorem Inv.step (h : Inv bed state) (hsockets : bed.OwnSockets) {state' : State ι} (hstep : Step bed state state') :
    Inv bed state' := by
  cases hstep with
  | @send s flowNum mark flow running next socket =>
      obtain ⟨hemitted, hfiles⟩ := h.emit running next
      exact ⟨hemitted, h.send hsockets socket, hfiles, h.rxFile_eq⟩
  | @count s flowNum running next =>
      obtain ⟨hemitted, hfiles⟩ := h.emit running next
      refine ⟨hemitted, fun s' flowNum' flow' host socket' => ?_, hfiles, h.rxFile_eq⟩
      have hle := h.received_le s' flowNum' flow' host socket'
      simp only [sentOf_update]
      omega
  | @lose packet sent =>
      refine ⟨h.emitted_le, fun s flowNum flow host socket => ?_, h.txFile_eq, h.rxFile_eq⟩
      have hle := h.received_le s flowNum flow host socket
      have hmono := Multiset.count_le_of_le (⟨flow.source, bed.address host⟩ : Packet)
        (Multiset.erase_le packet state.flight)
      simp only
      omega
  | @receive host packet running sent addressed =>
      refine ⟨h.emitted_le, h.receive sent addressed, h.txFile_eq, fun host' file hfile => ?_⟩
      have hne : host' ≠ host := by
        rintro rfl
        cases running.symm.trans hfile
      simp only [Function.update_of_ne hne]
      exact h.rxFile_eq host' file hfile
  | @stopSender s running =>
      refine ⟨h.emitted_le, h.received_le, fun s' file hfile => ?_, h.rxFile_eq⟩
      by_cases heq : s' = s
      · subst heq
        simp only [Function.update_self, Option.some.injEq] at hfile
        exact hfile.symm
      · simp only [Function.update_of_ne heq] at hfile
        exact h.txFile_eq s' file hfile
  | @stopServer host running =>
      refine ⟨h.emitted_le, h.received_le, h.txFile_eq, fun host' file hfile => ?_⟩
      by_cases heq : host' = host
      · subst heq
        simp only [Function.update_self, Option.some.injEq] at hfile
        exact hfile.symm
      · simp only [Function.update_of_ne heq] at hfile
        exact h.rxFile_eq host' file hfile

theorem Reachable.inv (hreach : Reachable bed state) (hsockets : bed.OwnSockets) : Inv bed state := by
  induction hreach with
  | refl => exact inv_start bed
  | tail _ hstep ih => exact ih.step hsockets hstep

end Step

/-! ### The report -/

section Report

-- `reverse_lookup`, which raises for an address without a name
variable (reverseLookup : Text → Option Text)

-- the domain of the mapper
variable (domain : Text)

variable {reverseLookup : Text → Option Text} {domain : Text}

end Report

end OfTestbed.TrafficLoss
