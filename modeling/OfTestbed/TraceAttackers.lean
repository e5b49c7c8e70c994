import Mathlib.Algebra.Order.Field.Rat
import OfTestbed.AttackersCapture
import OfTestbed.LibDefaultDict
import OfTestbed.LibText

/-!
The attackers that are run over a captured packet trace (`data_visualization/path_hopping_attacker.py`). Each listens on
`K` of the sender's ports, some hop to other ports as the trace goes on, and each counts the sequence numbers of which
it has observed `K` packets. The draws of `np.random.choice` and `np.random.uniform` are arguments, numbered by the hops
they belong to, and so is the order in which the set of ports is turned into a list. `none` is an exception.
-/

namespace OfTestbed.PacketTrace

open Lib Simulator

/-- The fields of a `PacketInfo` that the attackers read. -/
structure Packet where
  sourceIp : Text
  sourcePort : Nat
  seqNum : Nat
  shareNum : Nat
  timestamp : ℚ
  deriving DecidableEq

def senderIp : Text := "10.10.0.1".toList

/-- The ports that the sender was seen to use, but for the control port. -/
def senderPorts (order : SetOrder Nat) (packets : List Packet) : List Nat :=
  order.list ((packets.filter fun packet => packet.sourcePort ≠ 11111 ∧ packet.sourceIp = senderIp).map
    Packet.sourcePort).toFinset

/-- The test under which an attacker observes a packet. -/
def Packet.heardOn (portsToListenOn : List Nat) (packet : Packet) : Bool :=
  packet.sourceIp = senderIp ∧ packet.sourcePort ∈ portsToListenOn

/-- `fixed_attacker`, which counts the packets of a sequence number. -/
def fixedAttacker (order : SetOrder Nat) (draws : Nat → List Nat) (packets : List Packet) (K : Nat) : Option Nat := do
  let portsToListenOn ← choiceWithoutReplacement (senderPorts order packets) K (draws 0)
  let seqNumToShareCount := packets.foldl (fun (counts : Dict Nat Nat) packet =>
    if packet.heardOn portsToListenOn then counts.addTo packet.seqNum 1 else counts) .empty
  return (seqNumToShareCount.values.filter (· = K)).length

/-- The variables of an attacker that collects the shares of a sequence number. -/
structure Listening where
  portsToListenOn : List Nat
  seqNumToShareCount : Dict Nat (List (Nat × Nat))
  intervalStartTime : ℚ
  intervalId : Nat

def Listening.record (state : Listening) (packet : Packet) : Listening :=
  if packet.heardOn state.portsToListenOn then
    { state with
      seqNumToShareCount := state.seqNumToShareCount.push packet.seqNum (packet.shareNum, state.intervalId) }
  else state

/-- `len([s_i for s_i in seq_num_to_share_count.values() if len(s_i) == K])`. -/
def Listening.messagesOf (state : Listening) (K : Nat) : Nat :=
  (state.seqNumToShareCount.values.filter fun shares => shares.length = K).length

/-- One turn of an unsynchronized attacker: it records the packet and hops when its interval is over. -/
def hoppingTurn (ports : List Nat) (draws : Nat → List Nat) (K : Nat) (intervalLength : Nat → ℚ) (state : Listening)
    (packet : Packet) : Option Listening := do
  let state := state.record packet
  if packet.timestamp - state.intervalStartTime > intervalLength state.intervalId then
    return { state with
      intervalId := state.intervalId + 1
      intervalStartTime := packet.timestamp
      portsToListenOn := ← choiceWithoutReplacement ports K (draws (state.intervalId + 1)) }
  return state

/-- The variables before the first packet, whose time stamp is read. -/
def startListening (ports : List Nat) (draws : Nat → List Nat) (packets : List Packet) (K : Nat) :
    Option Listening := do
  let portsToListenOn ← choiceWithoutReplacement ports K (draws 0)
  let first ← packets.head?
  return ⟨portsToListenOn, .empty, first.timestamp, 0⟩

/-- An unsynchronized attacker whose `i`-th interval is over after `intervalLength i`. -/
def hoppingAttacker (order : SetOrder Nat) (draws : Nat → List Nat) (intervalLength : Nat → ℚ) (packets : List Packet)
    (K : Nat) : Option Nat := do
  let ports := senderPorts order packets
  let start ← startListening ports draws packets K
  let final ← packets.foldlM (hoppingTurn ports draws K intervalLength) start
  return final.messagesOf K

def randomInterval (timestepMs : ℚ) (_ : Nat) : ℚ := timestepMs * 1000

/-- The factor of an interval is drawn at the hop that begins it. -/
def perturbedInterval (timestepMs : ℚ) (perturbationFactors : Nat → ℚ) (intervalId : Nat) : ℚ :=
  let timestepUs := timestepMs * 1000
  timestepUs + timestepUs * perturbationFactors intervalId

/-- `random_attacker`. -/
def randomAttacker (order : SetOrder Nat) (draws : Nat → List Nat) (packets : List Packet) (K : Nat)
    (timestepMs : ℚ) : Option Nat :=
  hoppingAttacker order draws (randomInterval timestepMs) packets K

/-- `perturbed_random_attacker`. -/
def perturbedRandomAttacker (order : SetOrder Nat) (draws : Nat → List Nat) (perturbationFactors : Nat → ℚ)
    (packets : List Packet) (K : Nat) (timestepMs : ℚ) : Option Nat :=
  hoppingAttacker order draws (perturbedInterval timestepMs perturbationFactors) packets K

structure Synchronized extends Listening where
  hopTimeIndex : Nat

/-- The hop of the synchronized attacker, before it looks at the packet; its interval number stays zero. -/
def hopWithSender (ports : List Nat) (draws : Nat → List Nat) (K : Nat) (senderHopTimes : List ℚ)
    (state : Synchronized) (packet : Packet) : Option Synchronized :=
  match senderHopTimes[state.hopTimeIndex]? with
  | some hopTime =>
      if packet.timestamp ≥ hopTime then do
        return { state with
          hopTimeIndex := state.hopTimeIndex + 1
          portsToListenOn := ← choiceWithoutReplacement ports K (draws (state.hopTimeIndex + 1)) }
      else some state
  | none => some state

def synchronizedTurn (ports : List Nat) (draws : Nat → List Nat) (K : Nat) (senderHopTimes : List ℚ)
    (state : Synchronized) (packet : Packet) : Option Synchronized := do
  let state ← hopWithSender ports draws K senderHopTimes state packet
  return { state with toListening := state.toListening.record packet }

/-- `synchronized_random_attacker`; the time step is an argument that the source does not read. -/
def synchronizedRandomAttacker (order : SetOrder Nat) (draws : Nat → List Nat) (packets : List Packet)
    (senderHopTimes : List ℚ) (K : Nat) : Option Nat := do
  let ports := senderPorts order packets
  let start ← startListening ports draws packets K
  let final ← packets.foldlM (synchronizedTurn ports draws K senderHopTimes) ⟨start, 0⟩
  return final.messagesOf K

/-! ### The packets that are observed -/

/-- The ports that a draw picks. -/
def drawnPorts (ports : List Nat) (sample : List Nat) : List Nat := sample.filterMap fun idx => ports[idx]?

/-- The packets that are heard, each on the ports of the draw whose number it is tested with. -/
def heard (ports : List Nat) (draws : Nat → List Nat) (tests : List (Packet × Nat)) : List Packet :=
  (tests.filter fun test => test.1.heardOn (drawnPorts ports (draws test.2))).map Prod.fst

/-- The packets with the hops before them, when there is a hop after each packet with which an interval is over. -/
def betweenHops (intervalLength : Nat → ℚ) (intervalStartTime : ℚ) (hops : Nat) : List Packet → List (Packet × Nat)
  | [] => []
  | packet :: rest =>
      (packet, hops) ::
        if packet.timestamp - intervalStartTime > intervalLength hops
        then betweenHops intervalLength packet.timestamp (hops + 1) rest
        else betweenHops intervalLength intervalStartTime hops rest

/-- The packets with the hops up to them, when a packet is preceded by a hop if the next hop time of the sender has
come. -/
def afterSenderHops (senderHopTimes : List ℚ) (hops : Nat) : List Packet → List (Packet × Nat)
  | [] => []
  | packet :: rest =>
      let hops := if senderHopTimes[hops]?.any (· ≤ packet.timestamp) then hops + 1 else hops
      (packet, hops) :: afterSenderHops senderHopTimes hops rest

def observedByFixed (order : SetOrder Nat) (draws : Nat → List Nat) (packets : List Packet) : List Packet :=
  heard (senderPorts order packets) draws (packets.map fun packet => (packet, 0))

/-- The first interval starts with the first packet. -/
def observedByHopping (order : SetOrder Nat) (draws : Nat → List Nat) (intervalLength : Nat → ℚ)
    (packets : List Packet) : List Packet :=
  heard (senderPorts order packets) draws
    (packets.head?.elim [] fun first => betweenHops intervalLength first.timestamp 0 packets)

def observedBySynchronized (order : SetOrder Nat) (draws : Nat → List Nat) (senderHopTimes : List ℚ)
    (packets : List Packet) : List Packet :=
  heard (senderPorts order packets) draws (afterSenderHops senderHopTimes 0 packets)

theorem heard_cons (ports : List Nat) (draws : Nat → List Nat) (packet : Packet) (hops : Nat)
    (tests : List (Packet × Nat)) :
    heard ports draws ((packet, hops) :: tests) =
      (if packet.heardOn (drawnPorts ports (draws hops)) then [packet] else []) ++ heard ports draws tests := by
  unfold heard
  rw [List.filter_cons]
  split <;> rfl

/-- Only packets of the sender are heard. -/
theorem heard_sublist (ports : List Nat) (draws : Nat → List Nat) (tests : List (Packet × Nat)) :
    (heard ports draws tests).Sublist ((tests.map Prod.fst).filter (·.sourceIp = senderIp)) := by
  rw [List.filter_map]
  refine (List.monotone_filter_right tests ?_).map Prod.fst
  intro test htest
  exact decide_eq_true (of_decide_eq_true htest).1

theorem map_fst_betweenHops (intervalLength : Nat → ℚ) (packets : List Packet) (intervalStartTime : ℚ) (hops : Nat) :
    (betweenHops intervalLength intervalStartTime hops packets).map Prod.fst = packets := by
  induction packets generalizing intervalStartTime hops with
  | nil => rfl
  | cons packet rest ih =>
      rw [betweenHops, List.map_cons]
      split <;> rw [ih]

theorem map_fst_afterSenderHops (senderHopTimes : List ℚ) (packets : List Packet) (hops : Nat) :
    (afterSenderHops senderHopTimes hops packets).map Prod.fst = packets := by
  induction packets generalizing hops with
  | nil => rfl
  | cons packet rest ih => rw [afterSenderHops, List.map_cons, ih]

/-! ### Counting packets and counting shares -/

def seqNums (observed : List Packet) : Finset Nat := (observed.map Packet.seqNum).toFinset

def packetsOf (observed : List Packet) (seqNum : Nat) : List Packet := observed.filter (·.seqNum = seqNum)

def sharesOf (observed : List Packet) (seqNum : Nat) : Finset Nat :=
  ((packetsOf observed seqNum).map Packet.shareNum).toFinset

/-- The share that a packet carries, as the simulator's attackers hold it; they do not read the other fields to
reconstruct messages. -/
def Packet.share (packet : Packet) : PathHoppingShare := ⟨0, packet.seqNum, packet.shareNum, 0, 0, 0⟩

/-- The number of messages that an attacker of the simulator reconstructs from the same shares. -/
def recoverable (K : Nat) (observed : List Packet) : Nat :=
  ({ Attacker.new 0 K 1 .total with capturedShares := observed.map Packet.share }).reconstructCapturedMessages.length

/-- The sequence numbers of which a share is observed more than once. -/
def repeatedSeqNums (observed : List Packet) : Finset Nat :=
  (seqNums observed).filter fun seqNum => ¬ ((packetsOf observed seqNum).map Packet.shareNum).Nodup

/-- Without repeated shares there are as many packets as shares. -/
theorem card_sharesOf_of_nodup {observed : List Packet} {seqNum : Nat}
    (h : ((packetsOf observed seqNum).map Packet.shareNum).Nodup) :
    (sharesOf observed seqNum).card = (packetsOf observed seqNum).length := by
  rw [sharesOf, List.toFinset_card_of_nodup h, List.length_map]

/-- The criterion of the simulator, as a set of sequence numbers. -/
theorem recoverable_eq_card (K : Nat) (observed : List Packet) :
    recoverable K observed = ((seqNums observed).filter fun seqNum => (sharesOf observed seqNum).card = K).card := by
  unfold recoverable
  have hnodup : ({ Attacker.new 0 K 1 .total with
      capturedShares := observed.map Packet.share }).reconstructCapturedMessages.Nodup :=
    (Attacker.pairwise_reconstructCapturedMessages _).imp Nat.ne_of_lt
  rw [← List.toFinset_card_of_nodup hnodup]
  congr 1
  ext seqNum
  rw [List.mem_toFinset, Attacker.mem_reconstructCapturedMessages, Finset.mem_filter]
  have hshares : ((observed.map Packet.share).filter fun share => share.seqNum = seqNum).map
      PathHoppingShare.shareNum = (packetsOf observed seqNum).map Packet.shareNum := by
    rw [List.filter_map, List.map_map]
    rfl
  show (∃ share ∈ observed.map Packet.share, share.seqNum = seqNum) ∧ _ ↔ _
  rw [hshares, seqNums, List.mem_toFinset, List.mem_map]
  simp only [List.mem_map, exists_exists_and_eq_and]
  rfl

/-- The number of sequence numbers with `K` packets. -/
def countOf (K : Nat) (observed : List Packet) : Nat :=
  ((seqNums observed).filter fun seqNum => (packetsOf observed seqNum).length = K).card

/-- Of the sequence numbers with a repeated share, as many have `K` packets as have `K` different shares. -/
def EvenlyRepeated (K : Nat) (observed : List Packet) : Prop :=
  ((repeatedSeqNums observed).filter fun seqNum => (packetsOf observed seqNum).length = K).card =
    ((repeatedSeqNums observed).filter fun seqNum => (sharesOf observed seqNum).card = K).card

instance (K : Nat) (observed : List Packet) : Decidable (EvenlyRepeated K observed) :=
  inferInstanceAs (Decidable (_ = _))

theorem countOf_eq_recoverable_iff (K : Nat) (observed : List Packet) :
    countOf K observed = recoverable K observed ↔ EvenlyRepeated K observed := by
  have hsplit : ∀ size : Nat → Nat, ((seqNums observed).filter fun seqNum => size seqNum = K).card =
      ((repeatedSeqNums observed).filter fun seqNum => size seqNum = K).card +
        (((seqNums observed).filter fun seqNum => ((packetsOf observed seqNum).map Packet.shareNum).Nodup).filter
          fun seqNum => size seqNum = K).card := by
    intro size
    rw [repeatedSeqNums, Finset.filter_comm, Finset.filter_comm (fun seqNum => ((packetsOf observed seqNum).map
      Packet.shareNum).Nodup), Nat.add_comm, Finset.card_filter_add_card_filter_not]
  have honce : (((seqNums observed).filter fun seqNum => ((packetsOf observed seqNum).map Packet.shareNum).Nodup).filter
      fun seqNum => (sharesOf observed seqNum).card = K) =
      (((seqNums observed).filter fun seqNum => ((packetsOf observed seqNum).map Packet.shareNum).Nodup).filter
        fun seqNum => (packetsOf observed seqNum).length = K) := by
    refine Finset.filter_congr fun seqNum hmem => ?_
    rw [card_sharesOf_of_nodup (Finset.mem_filter.mp hmem).2]
  rw [countOf, recoverable_eq_card, hsplit, hsplit, honce, EvenlyRepeated, Nat.add_right_cancel_iff]

/-- The sender's shares are all different in the trace. -/
def EachShareOnce (packets : List Packet) : Prop :=
  ((packets.filter (·.sourceIp = senderIp)).map fun packet => (packet.seqNum, packet.shareNum)).Nodup

/-- Nothing is repeated among packets that carry different shares. -/
theorem evenlyRepeated_of_nodup (K : Nat) {observed : List Packet}
    (h : (observed.map fun packet => (packet.seqNum, packet.shareNum)).Nodup) : EvenlyRepeated K observed := by
  have hnone : repeatedSeqNums observed = ∅ := by
    refine Finset.filter_eq_empty_iff.mpr fun seqNum _ hrepeated => hrepeated ?_
    have hof : ((packetsOf observed seqNum).map fun packet => (packet.seqNum, packet.shareNum)).Nodup :=
      (List.filter_sublist.map _).nodup h
    refine List.Nodup.map_on (fun p hp q hq hsame => ?_) (List.Nodup.of_map _ hof)
    have hseq : p.seqNum = q.seqNum :=
      (of_decide_eq_true (List.mem_filter.mp hp).2).trans (of_decide_eq_true (List.mem_filter.mp hq).2).symm
    exact List.inj_on_of_nodup_map hof hp hq (Prod.ext hseq hsame)
  rw [EvenlyRepeated, hnone]
  rfl

theorem EachShareOnce.evenlyRepeated {packets : List Packet} (h : EachShareOnce packets) (K : Nat) (ports : List Nat)
    (draws : Nat → List Nat) {tests : List (Packet × Nat)} (htests : tests.map Prod.fst = packets) :
    EvenlyRepeated K (heard ports draws tests) :=
  evenlyRepeated_of_nodup K (((htests ▸ heard_sublist ports draws tests).map _).nodup h)

/-! ### What the dictionaries hold -/

section Tallies

variable {ν : Type} {counts : Dict Nat ν} {size : ν → Nat} {observed : List Packet}

/-- The dictionary has an entry for each observed sequence number, whose size is the number of its packets. -/
def Tallies (counts : Dict Nat ν) (size : ν → Nat) (observed : List Packet) : Prop :=
  ∀ seqNum, (counts.get? seqNum).map size =
    if seqNum ∈ seqNums observed then some (packetsOf observed seqNum).length else none

theorem tallies_empty (size : ν → Nat) : Tallies (.empty : Dict Nat ν) size [] := fun _ => rfl

theorem packetsOf_eq_nil {seqNum : Nat} (h : seqNum ∉ seqNums observed) : packetsOf observed seqNum = [] := by
  apply List.filter_eq_nil_iff.mpr
  intro packet hpacket hsame
  exact h (List.mem_toFinset.mpr (List.mem_map.mpr ⟨packet, hpacket, of_decide_eq_true hsame⟩))

/-- One more packet, under whose sequence number the size grows by one. -/
theorem Tallies.set (h : Tallies counts size observed) (packet : Packet) {value : ν}
    (hvalue : size value = ((counts.get? packet.seqNum).map size).getD 0 + 1) :
    Tallies (counts.set packet.seqNum value) size (observed ++ [packet]) := by
  intro seqNum
  have hmem : seqNum ∈ seqNums (observed ++ [packet]) ↔ seqNum ∈ seqNums observed ∨ seqNum = packet.seqNum := by
    simp [seqNums, or_comm]
  rw [Dict.get?_set, packetsOf, List.filter_append]
  by_cases hsame : seqNum = packet.seqNum
  · subst hsame
    rw [if_pos rfl, if_pos (hmem.mpr (Or.inr rfl)), Option.map_some, hvalue, h packet.seqNum]
    split
    · simp [packetsOf]
    · rename_i hnew
      have hnil : observed.filter (·.seqNum = packet.seqNum) = [] := packetsOf_eq_nil hnew
      simp [hnil]
  · rw [if_neg hsame, h seqNum]
    simp only [hmem, hsame, or_false]
    simp [packetsOf, Ne.symm hsame]

/-- The entries of one size are the sequence numbers with that many packets. -/
theorem Tallies.length_filter_values (h : Tallies counts size observed) (K : Nat) :
    (counts.values.filter fun value => size value = K).length =
      ((seqNums observed).filter fun seqNum => (packetsOf observed seqNum).length = K).card := by
  have hnodup : ((counts.entries.filter fun e => size e.2 = K).map Prod.fst).Nodup :=
    (List.filter_sublist.map Prod.fst).nodup counts.nodupKeys
  calc (counts.values.filter fun value => size value = K).length
      = ((counts.entries.filter fun e => size e.2 = K).map Prod.fst).length := by
        rw [Dict.values, List.filter_map, List.length_map, List.length_map]
        rfl
    _ = ((counts.entries.filter fun e => size e.2 = K).map Prod.fst).toFinset.card :=
        (List.toFinset_card_of_nodup hnodup).symm
    _ = ((seqNums observed).filter fun seqNum => (packetsOf observed seqNum).length = K).card := by
        congr 1
        ext seqNum
        have hentry : seqNum ∈ ((counts.entries.filter fun e => size e.2 = K).map Prod.fst).toFinset ↔
            (counts.get? seqNum).map size = some K := by
          simp only [List.mem_toFinset, List.mem_map, List.mem_filter, decide_eq_true_eq, Option.map_eq_some_iff,
            Dict.get?_eq_some_iff]
          constructor
          · rintro ⟨e, ⟨he, hsize⟩, rfl⟩
            exact ⟨e.2, he, hsize⟩
          · rintro ⟨value, he, hsize⟩
            exact ⟨(seqNum, value), ⟨he, hsize⟩, rfl⟩
        rw [hentry, h seqNum, Finset.mem_filter]
        split
        · rename_i hmem
          simp [hmem]
        · rename_i hmem
          simp [hmem]

end Tallies

theorem Tallies.record {state : Listening} {observed : List Packet}
    (h : Tallies state.seqNumToShareCount List.length observed) (packet : Packet) :
    Tallies (state.record packet).seqNumToShareCount List.length
      (observed ++ if packet.heardOn state.portsToListenOn then [packet] else []) := by
  rw [Listening.record]
  split
  · apply h.set
    cases state.seqNumToShareCount.get? packet.seqNum with
    | none => rfl
    | some shares => simp
  · rw [List.append_nil]
    exact h

/-! ### Draws -/

/-- What `np.random.choice` draws without replacement: `k` different indices of the population. -/
structure IsSample {α : Type} (population : List α) (k : Nat) (sample : List Nat) : Prop where
  length_eq : sample.length = k
  nodup : sample.Nodup
  lt_length : ∀ idx ∈ sample, idx < population.length

theorem IsSample.le_length {α : Type} {population : List α} {k : Nat} {sample : List Nat}
    (h : IsSample population k sample) : k ≤ population.length := by
  have hsubset : sample.toFinset ⊆ Finset.range population.length := by
    intro idx hidx
    exact Finset.mem_range.mpr (h.lt_length idx (List.mem_toFinset.mp hidx))
  have hcard := Finset.card_le_card hsubset
  rwa [List.toFinset_card_of_nodup h.nodup, h.length_eq, Finset.card_range] at hcard

theorem IsSample.choice_eq {ports : List Nat} {K : Nat} {sample : List Nat} (h : IsSample ports K sample) :
    choiceWithoutReplacement ports K sample = some (drawnPorts ports sample) := by
  have hall : ∀ l : List Nat, (∀ idx ∈ l, idx < ports.length) →
      l.mapM (fun idx => ports[idx]?) = some (drawnPorts ports l) := by
    intro l hl
    induction l with
    | nil => rfl
    | cons idx rest ih =>
        obtain ⟨port, hget⟩ : ∃ port, ports[idx]? = some port :=
          ⟨_, List.getElem?_eq_getElem (hl idx List.mem_cons_self)⟩
        have hrest := ih fun idx hmem => hl idx (List.mem_cons_of_mem _ hmem)
        have hdrawn : drawnPorts ports (idx :: rest) = port :: drawnPorts ports rest := List.filterMap_cons_some hget
        rw [List.mapM_cons, hget, hrest, hdrawn]
        rfl
  rw [choiceWithoutReplacement, if_pos h.le_length, hall sample h.lt_length]

/-- `np.random.choice` raises when there are too few ports. -/
theorem choiceWithoutReplacement_of_lt {ports sample : List Nat} {K : Nat} (h : ports.length < K) :
    choiceWithoutReplacement ports K sample = none := if_neg (by omega)

/-! ### One turn -/

section Turns

variable {ports : List Nat} {draws : Nat → List Nat} {K : Nat} {observed : List Packet}

@[simp] theorem record_portsToListenOn (state : Listening) (packet : Packet) :
    (state.record packet).portsToListenOn = state.portsToListenOn := by
  unfold Listening.record
  split <;> rfl

@[simp] theorem record_intervalStartTime (state : Listening) (packet : Packet) :
    (state.record packet).intervalStartTime = state.intervalStartTime := by
  unfold Listening.record
  split <;> rfl

@[simp] theorem record_intervalId (state : Listening) (packet : Packet) :
    (state.record packet).intervalId = state.intervalId := by
  unfold Listening.record
  split <;> rfl

theorem hoppingTurn_eq (hdraws : ∀ hop, IsSample ports K (draws hop)) (intervalLength : Nat → ℚ) (state : Listening)
    (packet : Packet) :
    hoppingTurn ports draws K intervalLength state packet =
      some (if packet.timestamp - state.intervalStartTime > intervalLength state.intervalId
        then { state.record packet with
          intervalId := state.intervalId + 1
          intervalStartTime := packet.timestamp
          portsToListenOn := drawnPorts ports (draws (state.intervalId + 1)) }
        else state.record packet) := by
  simp only [hoppingTurn, record_intervalStartTime, record_intervalId, (hdraws _).choice_eq,
    Option.bind_eq_bind, Option.bind_some, Option.pure_def]
  split <;> rfl

/-- A run of an unsynchronized attacker whose ports are those of the draw of its interval. -/
theorem exists_hoppingRun (hdraws : ∀ hop, IsSample ports K (draws hop)) (intervalLength : Nat → ℚ)
    (packets : List Packet) (state : Listening)
    (hports : state.portsToListenOn = drawnPorts ports (draws state.intervalId))
    (h : Tallies state.seqNumToShareCount List.length observed) :
    ∃ final, packets.foldlM (hoppingTurn ports draws K intervalLength) state = some final ∧
      Tallies final.seqNumToShareCount List.length (observed ++
        heard ports draws (betweenHops intervalLength state.intervalStartTime state.intervalId packets)) := by
  induction packets generalizing state observed with
  | nil => exact ⟨state, rfl, by rwa [betweenHops, heard, List.filter_nil, List.map_nil, List.append_nil]⟩
  | cons packet rest ih =>
      have hrecord := h.record packet
      rw [List.foldlM_cons, hoppingTurn_eq hdraws, Option.bind_eq_bind, Option.bind_some, betweenHops, heard_cons,
        ← List.append_assoc, ← hports]
      split
      · exact ih _ rfl hrecord
      · obtain ⟨final, hfinal, htally⟩ := ih (state.record packet) (by simpa using hports) hrecord
        refine ⟨final, hfinal, ?_⟩
        simpa only [record_intervalStartTime, record_intervalId] using htally

theorem hopWithSender_eq (hdraws : ∀ hop, IsSample ports K (draws hop)) (senderHopTimes : List ℚ)
    {state : Synchronized} (hports : state.portsToListenOn = drawnPorts ports (draws state.hopTimeIndex))
    (packet : Packet) :
    ∃ hopped, hopWithSender ports draws K senderHopTimes state packet = some hopped ∧
      hopped.seqNumToShareCount = state.seqNumToShareCount ∧
      hopped.portsToListenOn = drawnPorts ports (draws hopped.hopTimeIndex) ∧
      hopped.hopTimeIndex = if senderHopTimes[state.hopTimeIndex]?.any (· ≤ packet.timestamp)
        then state.hopTimeIndex + 1 else state.hopTimeIndex := by
  rw [hopWithSender]
  cases senderHopTimes[state.hopTimeIndex]? with
  | none => exact ⟨state, rfl, rfl, hports, rfl⟩
  | some hopTime =>
      by_cases hcome : packet.timestamp ≥ hopTime
      · simp only [hcome, if_true, (hdraws _).choice_eq, Option.bind_eq_bind, Option.bind_some,
          Option.pure_def]
        exact ⟨_, rfl, rfl, rfl, by simp [hcome]⟩
      · simp only [hcome, if_false]
        exact ⟨state, rfl, rfl, hports, by simp [hcome]⟩

/-- A run of the synchronized attacker, whose ports are those of the draw of its last hop. -/
theorem exists_synchronizedRun (hdraws : ∀ hop, IsSample ports K (draws hop)) (senderHopTimes : List ℚ)
    (packets : List Packet) (state : Synchronized)
    (hports : state.portsToListenOn = drawnPorts ports (draws state.hopTimeIndex))
    (h : Tallies state.seqNumToShareCount List.length observed) :
    ∃ final, packets.foldlM (synchronizedTurn ports draws K senderHopTimes) state = some final ∧
      Tallies final.seqNumToShareCount List.length
        (observed ++ heard ports draws (afterSenderHops senderHopTimes state.hopTimeIndex packets)) := by
  induction packets generalizing state observed with
  | nil => exact ⟨state, rfl, by rwa [afterSenderHops, heard, List.filter_nil, List.map_nil, List.append_nil]⟩
  | cons packet rest ih =>
      obtain ⟨hopped, hhop, hsame, hin, hindex⟩ := hopWithSender_eq hdraws senderHopTimes hports packet
      have hrecord := Tallies.record (hsame ▸ h) packet
      have hturn : synchronizedTurn ports draws K senderHopTimes state packet =
          some { hopped with toListening := hopped.toListening.record packet } := by
        rw [synchronizedTurn, hhop]
        rfl
      rw [List.foldlM_cons, hturn, Option.bind_eq_bind, Option.bind_some, afterSenderHops, ← hindex, heard_cons,
        ← List.append_assoc, ← hin]
      exact ih { hopped with toListening := hopped.toListening.record packet }
        ((record_portsToListenOn hopped.toListening packet).trans hin) hrecord

end Turns

/-! ### What the attackers return -/

section Attackers

variable {order : SetOrder Nat} {draws : Nat → List Nat} {packets : List Packet} {K : Nat}

theorem fixedAttacker_eq (hdraws : IsSample (senderPorts order packets) K (draws 0)) :
    fixedAttacker order draws packets K = some (countOf K (observedByFixed order draws packets)) := by
  have htally : ∀ (l observed : List Packet) (counts : Dict Nat Nat), Tallies counts id observed →
      Tallies (l.foldl (fun (counts : Dict Nat Nat) packet =>
        if packet.heardOn (drawnPorts (senderPorts order packets) (draws 0)) then counts.addTo packet.seqNum 1
        else counts) counts) id
        (observed ++ heard (senderPorts order packets) draws (l.map fun packet => (packet, 0))) := by
    intro l
    induction l with
    | nil =>
        intro observed counts h
        rwa [List.map_nil, heard, List.filter_nil, List.map_nil, List.append_nil]
    | cons packet rest ih =>
        intro observed counts h
        rw [List.foldl_cons, List.map_cons, heard_cons, ← List.append_assoc]
        apply ih
        split
        · apply h.set
          rw [Option.map_id_fun, id]
          rfl
        · rwa [List.append_nil]
  have hcount := (htally packets [] .empty (tallies_empty id)).length_filter_values K
  rw [List.nil_append] at hcount
  simp only [fixedAttacker, observedByFixed, hdraws.choice_eq, Option.bind_eq_bind, Option.bind_some,
    countOf]
  exact congrArg some hcount

theorem startListening_eq {ports : List Nat} (hdraws : IsSample ports K (draws 0)) (hsome : packets ≠ []) :
    ∃ first, packets.head? = some first ∧ startListening ports draws packets K =
      some ⟨drawnPorts ports (draws 0), .empty, first.timestamp, 0⟩ := by
  obtain ⟨first, rest, rfl⟩ := List.exists_cons_of_ne_nil hsome
  refine ⟨first, rfl, ?_⟩
  rw [startListening, hdraws.choice_eq]
  rfl

theorem hoppingAttacker_eq (hdraws : ∀ hop, IsSample (senderPorts order packets) K (draws hop))
    (hsome : packets ≠ []) (intervalLength : Nat → ℚ) :
    hoppingAttacker order draws intervalLength packets K =
      some (countOf K (observedByHopping order draws intervalLength packets)) := by
  obtain ⟨first, hhead, hstart⟩ := startListening_eq (hdraws 0) hsome
  obtain ⟨final, hfinal, htally⟩ := exists_hoppingRun hdraws intervalLength packets
    ⟨drawnPorts (senderPorts order packets) (draws 0), .empty, first.timestamp, 0⟩ rfl
    (tallies_empty List.length)
  have hcount := htally.length_filter_values K
  simp only [hoppingAttacker, observedByHopping, hstart, hfinal, hhead, Option.elim_some, Option.bind_eq_bind,
    Option.bind_some, countOf]
  exact congrArg some hcount

theorem synchronizedRandomAttacker_eq (hdraws : ∀ hop, IsSample (senderPorts order packets) K (draws hop))
    (hsome : packets ≠ []) (senderHopTimes : List ℚ) :
    synchronizedRandomAttacker order draws packets senderHopTimes K =
      some (countOf K (observedBySynchronized order draws senderHopTimes packets)) := by
  obtain ⟨first, hhead, hstart⟩ := startListening_eq (hdraws 0) hsome
  obtain ⟨final, hfinal, htally⟩ := exists_synchronizedRun hdraws senderHopTimes packets
    ⟨⟨drawnPorts (senderPorts order packets) (draws 0), .empty, first.timestamp, 0⟩, 0⟩ rfl
    (tallies_empty List.length)
  have hcount := htally.length_filter_values K
  simp only [synchronizedRandomAttacker, observedBySynchronized, hstart, hfinal, Option.bind_eq_bind, Option.bind_some,
    countOf]
  exact congrArg some hcount

/-- Too few ports or no packet to read the time of. -/
theorem startListening_eq_none {ports : List Nat} (h : ¬(K ≤ ports.length ∧ packets ≠ [])) :
    startListening ports draws packets K = none := by
  rw [startListening]
  rcases not_and_or.mp h with hK | hnil
  · rw [choiceWithoutReplacement_of_lt (Nat.lt_of_not_le hK)]
    rfl
  · rw [not_not.mp hnil]
    cases choiceWithoutReplacement ports K (draws 0) <;> rfl

/-- An attacker that counts the packets of each message when `p` holds and raises otherwise. -/
theorem eq_some_recoverable_iff {result : Option Nat} {p : Prop} {observed : List Packet}
    (hcounts : p → result = some (countOf K observed)) (hraises : ¬p → result = none) :
    result = some (recoverable K observed) ↔ p ∧ EvenlyRepeated K observed := by
  by_cases hp : p
  · rw [hcounts hp, Option.some_inj, countOf_eq_recoverable_iff, and_iff_right hp]
  · simp [hraises hp, hp]

end Attackers

/-- The attackers report the number of messages that the simulator's criterion gives for the packets they observed
exactly when the sender uses at least `K` ports and, of the sequence numbers with a repeated share, as many have `K`
packets as have `K` different shares; all but the fixed attacker also need a packet. It is so when no share of the
sender occurs twice in the trace. -/
theorem trace_attackers_recoverable_iff (order : SetOrder Nat) (packets : List Packet) (K : Nat)
    (draws : Nat → List Nat) (hdraws : K ≤ (senderPorts order packets).length →
      ∀ hop, IsSample (senderPorts order packets) K (draws hop)) (timestepMs : ℚ)
    (perturbationFactors : Nat → ℚ) (senderHopTimes : List ℚ) :
    (fixedAttacker order draws packets K = some (recoverable K (observedByFixed order draws packets)) ↔
      K ≤ (senderPorts order packets).length ∧ EvenlyRepeated K (observedByFixed order draws packets)) ∧
    (randomAttacker order draws packets K timestepMs =
      some (recoverable K (observedByHopping order draws (randomInterval timestepMs) packets)) ↔
      K ≤ (senderPorts order packets).length ∧ packets ≠ [] ∧
        EvenlyRepeated K (observedByHopping order draws (randomInterval timestepMs) packets)) ∧
    (perturbedRandomAttacker order draws perturbationFactors packets K timestepMs =
      some (recoverable K (observedByHopping order draws (perturbedInterval timestepMs perturbationFactors) packets)) ↔
      K ≤ (senderPorts order packets).length ∧ packets ≠ [] ∧
        EvenlyRepeated K (observedByHopping order draws (perturbedInterval timestepMs perturbationFactors) packets)) ∧
    (synchronizedRandomAttacker order draws packets senderHopTimes K =
      some (recoverable K (observedBySynchronized order draws senderHopTimes packets)) ↔
      K ≤ (senderPorts order packets).length ∧ packets ≠ [] ∧
        EvenlyRepeated K (observedBySynchronized order draws senderHopTimes packets)) ∧
    (EachShareOnce packets →
      EvenlyRepeated K (observedByFixed order draws packets) ∧
      (∀ intervalLength, EvenlyRepeated K (observedByHopping order draws intervalLength packets)) ∧
      EvenlyRepeated K (observedBySynchronized order draws senderHopTimes packets)) := by
  have hhopping : ∀ intervalLength, hoppingAttacker order draws intervalLength packets K =
      some (recoverable K (observedByHopping order draws intervalLength packets)) ↔
      K ≤ (senderPorts order packets).length ∧ packets ≠ [] ∧
        EvenlyRepeated K (observedByHopping order draws intervalLength packets) := by
    intro intervalLength
    rw [← and_assoc]
    refine eq_some_recoverable_iff (fun h => hoppingAttacker_eq (hdraws h.1) h.2 intervalLength) fun h => ?_
    simp [hoppingAttacker, startListening_eq_none h]
  refine ⟨?_, hhopping _, hhopping _, ?_, fun honce => ⟨?_, fun intervalLength => ?_, ?_⟩⟩
  · refine eq_some_recoverable_iff (fun hK => fixedAttacker_eq (hdraws hK 0)) fun hK => ?_
    simp [fixedAttacker, choiceWithoutReplacement_of_lt (Nat.lt_of_not_le hK)]
  · rw [← and_assoc]
    refine eq_some_recoverable_iff (fun h => synchronizedRandomAttacker_eq (hdraws h.1) h.2 senderHopTimes) fun h => ?_
    simp [synchronizedRandomAttacker, startListening_eq_none h]
  · exact honce.evenlyRepeated K _ draws (by rw [List.map_map]; exact List.map_id packets)
  · cases packets with
    | nil => exact evenlyRepeated_of_nodup K List.nodup_nil
    | cons first rest => exact honce.evenlyRepeated K _ draws (map_fst_betweenHops _ _ _ _)
  · exact honce.evenlyRepeated K _ draws (map_fst_afterSenderHops _ _ _)

/-- Both shares of message 7, each on its port. -/
def bothShares : List Packet := [⟨senderIp, 5001, 7, 0, 0⟩, ⟨senderIp, 5002, 7, 1, 1⟩]

/-- One share of message 7 arrives twice and the other one is lost; of message 8 only one share arrives. -/
def repeatedShare : List Packet :=
  [⟨senderIp, 5001, 7, 0, 0⟩, ⟨senderIp, 5001, 7, 0, 1⟩, ⟨senderIp, 5002, 8, 1, 2⟩]

def portOrder : SetOrder Nat := .byKey id Function.injective_id

theorem isSample_bothShares : IsSample (senderPorts portOrder bothShares) 2 [0, 1] := by
  refine ⟨rfl, by decide, ?_⟩
  rw [show (senderPorts portOrder bothShares).length = 2 by decide +kernel]
  decide

theorem trace_attackers_recoverable_iff_bothShares :
    fixedAttacker portOrder (fun _ => [0, 1]) bothShares 2 = some (recoverable 2 bothShares) ∧
    synchronizedRandomAttacker portOrder (fun _ => [0, 1]) bothShares [1] 2 = some (recoverable 2 bothShares) ∧
    recoverable 2 bothShares = 1 := by
  have hfixed : observedByFixed portOrder (fun _ => [0, 1]) bothShares = bothShares := by decide +kernel
  have hsynchronized : observedBySynchronized portOrder (fun _ => [0, 1]) [1] bothShares = bothShares := by
    decide +kernel
  have hiff := trace_attackers_recoverable_iff portOrder bothShares 2 (fun _ => [0, 1])
    (fun _ _ => isSample_bothShares) 1 (fun _ => 0) [1]
  rw [hfixed, hsynchronized] at hiff
  have hports : 2 ≤ (senderPorts portOrder bothShares).length := by decide +kernel
  have heven : EvenlyRepeated 2 bothShares := by decide +kernel
  exact ⟨hiff.1.mpr ⟨hports, heven⟩, hiff.2.2.2.1.mpr ⟨hports, by decide, heven⟩, by decide +kernel⟩

/-- The share that arrives twice is counted as a message, which the simulator would not reconstruct. -/
theorem repeated_share_counted :
    fixedAttacker portOrder (fun _ => [0, 1]) repeatedShare 2 = some 1 ∧
    recoverable 2 (observedByFixed portOrder (fun _ => [0, 1]) repeatedShare) = 0 ∧
    randomAttacker portOrder (fun _ => [0, 1]) repeatedShare 2 1 = some 1 ∧
    recoverable 2 (observedByHopping portOrder (fun _ => [0, 1]) (randomInterval 1) repeatedShare) = 0 ∧
    perturbedRandomAttacker portOrder (fun _ => [0, 1]) (fun _ => 0) repeatedShare 2 1 = some 1 ∧
    recoverable 2 (observedByHopping portOrder (fun _ => [0, 1]) (perturbedInterval 1 fun _ => 0)
      repeatedShare) = 0 ∧
    synchronizedRandomAttacker portOrder (fun _ => [0, 1]) repeatedShare [1] 2 = some 1 ∧
    recoverable 2 (observedBySynchronized portOrder (fun _ => [0, 1]) [1] repeatedShare) = 0 := by
  refine ⟨?_, ?_, ?_, ?_, ?_, ?_, ?_, ?_⟩ <;> decide +kernel

end OfTestbed.PacketTrace
