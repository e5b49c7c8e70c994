import OfTestbed.TraceAttackers

/-!
Whether the synchronized attacker on a trace keeps up with the sender (`synchronized_random_attacker` in
`data_visualization/path_hopping_attacker.py`). It takes at most one hop for a packet: where two hops of the sender lie
between two packets it falls behind, and catches up later by one hop for a packet.
-/

namespace OfTestbed.PacketTrace

open Lib Simulator

/-- The number of hops of the sender up to a time. -/
def hopsBy (senderHopTimes : List ℚ) (time : ℚ) : Nat := senderHopTimes.countP (· ≤ time)

/-- The hops up to the last packet. -/
def hopsAfter (senderHopTimes : List ℚ) (packets : List Packet) : Nat :=
  match packets.getLast? with
  | none => 0
  | some last => hopsBy senderHopTimes last.timestamp

/-- The variables of the attacker when it tests a packet against its ports, after the packets before it. -/
def testedAfter (order : SetOrder Nat) (draws : Nat → List Nat) (packets : List Packet) (senderHopTimes : List ℚ)
    (K : Nat) (before : List Packet) (packet : Packet) : Option Synchronized := do
  let ports := senderPorts order packets
  let start ← startListening ports draws packets K
  let state ← before.foldlM (synchronizedTurn ports draws K senderHopTimes) ⟨start, 0⟩
  hopWithSender ports draws K senderHopTimes state packet

/-- At every test the index is the number of hops so far, and the ports are those of the draw at the last of them. -/
def StaysSynchronized (order : SetOrder Nat) (draws : Nat → List Nat) (packets : List Packet)
    (senderHopTimes : List ℚ) (K : Nat) : Prop :=
  ∀ before packet after, packets = before ++ packet :: after →
    ∃ tested, testedAfter order draws packets senderHopTimes K before packet = some tested ∧
      tested.hopTimeIndex = hopsBy senderHopTimes packet.timestamp ∧
      choiceWithoutReplacement (senderPorts order packets) K (draws (hopsBy senderHopTimes packet.timestamp)) =
        some tested.portsToListenOn

/-- There is at most one hop up to the first packet, and at most one between two packets that follow each other. -/
def OneHopAtATime (packets : List Packet) (senderHopTimes : List ℚ) : Prop :=
  ∀ before packet after, packets = before ++ packet :: after →
    hopsBy senderHopTimes packet.timestamp ≤ hopsAfter senderHopTimes before + 1

/-! ### One packet -/

/-- In a sorted list the hops up to a time come first. -/
theorem lt_hopsBy_iff {senderHopTimes : List ℚ} (hsorted : senderHopTimes.Pairwise (· ≤ ·)) (time : ℚ) (i : Nat) :
    i < hopsBy senderHopTimes time ↔ ∃ hopTime, senderHopTimes[i]? = some hopTime ∧ hopTime ≤ time := by
  unfold hopsBy
  induction senderHopTimes generalizing i with
  | nil => simp
  | cons first rest ih =>
      obtain ⟨hfirst, hrest⟩ := List.pairwise_cons.mp hsorted
      by_cases hle : first ≤ time
      · rw [List.countP_cons, decide_eq_true hle, if_pos rfl]
        cases i with
        | zero => simp [hle]
        | succ i => rw [Nat.succ_lt_succ_iff, ih hrest, List.getElem?_cons_succ]
      · have hnone : ∀ hopTime ∈ first :: rest, ¬ hopTime ≤ time := by
          intro hopTime hmem hup
          rcases List.mem_cons.mp hmem with rfl | hmem
          · exact hle hup
          · exact hle ((hfirst hopTime hmem).trans hup)
        have hzero : (first :: rest).countP (· ≤ time) = 0 := by
          rw [List.countP_eq_zero]
          intro hopTime hmem
          simpa using hnone hopTime hmem
        rw [hzero]
        refine iff_of_false (Nat.not_lt_zero i) ?_
        rintro ⟨hopTime, hget, hup⟩
        exact hnone hopTime (List.mem_of_getElem? hget) hup

theorem hopsBy_mono (senderHopTimes : List ℚ) {time time' : ℚ} (h : time ≤ time') :
    hopsBy senderHopTimes time ≤ hopsBy senderHopTimes time' := by
  apply List.countP_mono_left
  intro hopTime _ hle
  exact decide_eq_true ((of_decide_eq_true hle).trans h)

/-- The sender has not taken fewer hops at a packet than at the one before it. -/
theorem hopsAfter_le_hopsBy (senderHopTimes : List ℚ) {before after : List Packet} {packet : Packet}
    (htrace : (before ++ packet :: after).Pairwise fun p q => p.timestamp ≤ q.timestamp) :
    hopsAfter senderHopTimes before ≤ hopsBy senderHopTimes packet.timestamp := by
  unfold hopsAfter
  cases hlast : before.getLast? with
  | none => exact Nat.zero_le _
  | some last =>
      apply hopsBy_mono
      exact (List.pairwise_append.mp htrace).2.2 last (List.mem_of_getLast? hlast) packet List.mem_cons_self

section Runs

variable {order : SetOrder Nat} {draws : Nat → List Nat} {packets : List Packet} {K : Nat} {ports : List Nat}
  {senderHopTimes : List ℚ}

/-- The attacker takes one hop if the sender has taken more than it has. -/
theorem exists_hopWithSender_index (hdraws : ∀ hop, IsSample ports K (draws hop))
    (hsorted : senderHopTimes.Pairwise (· ≤ ·)) {state : Synchronized}
    (hports : choiceWithoutReplacement ports K (draws state.hopTimeIndex) = some state.portsToListenOn)
    (packet : Packet) :
    ∃ hopped, hopWithSender ports draws K senderHopTimes state packet = some hopped ∧
      hopped.hopTimeIndex =
        (if state.hopTimeIndex < hopsBy senderHopTimes packet.timestamp then state.hopTimeIndex + 1
          else state.hopTimeIndex) ∧
      choiceWithoutReplacement ports K (draws hopped.hopTimeIndex) = some hopped.portsToListenOn := by
  have hchosen := (hdraws (state.hopTimeIndex + 1)).choice_eq
  have hlt := lt_hopsBy_iff hsorted packet.timestamp state.hopTimeIndex
  rw [hopWithSender]
  cases hhop : senderHopTimes[state.hopTimeIndex]? with
  | none =>
      have hnot : ¬ state.hopTimeIndex < hopsBy senderHopTimes packet.timestamp := by
        rw [hlt, hhop]
        rintro ⟨hopTime, hsome, -⟩
        cases hsome
      exact ⟨state, rfl, by rw [if_neg hnot], hports⟩
  | some hopTime =>
      have hiff : state.hopTimeIndex < hopsBy senderHopTimes packet.timestamp ↔ hopTime ≤ packet.timestamp := by
        rw [hlt, hhop]
        simp only [Option.some.injEq, exists_eq_left']
      by_cases hle : hopTime ≤ packet.timestamp
      · simp only [ge_iff_le, hle, hchosen, if_true, Option.bind_eq_bind, Option.bind_some, Option.pure_def]
        exact ⟨_, rfl, by rw [if_pos (hiff.mpr hle)], hchosen⟩
      · simp only [ge_iff_le, hle, if_false]
        exact ⟨state, rfl, by rw [if_neg (mt hiff.mp hle)], hports⟩

/-- The ports are those of the draw that the index counts. -/
def InForce (ports : List Nat) (draws : Nat → List Nat) (K : Nat) (state : Synchronized) : Prop :=
  choiceWithoutReplacement ports K (draws state.hopTimeIndex) = some state.portsToListenOn

/-- One turn: the attacker hops, tests the packet and keeps its index. -/
theorem InForce.exists_turn (hdraws : ∀ hop, IsSample ports K (draws hop))
    (hsorted : senderHopTimes.Pairwise (· ≤ ·)) {state : Synchronized} (h : InForce ports draws K state)
    (packet : Packet) :
    ∃ hopped state', hopWithSender ports draws K senderHopTimes state packet = some hopped ∧
      synchronizedTurn ports draws K senderHopTimes state packet = some state' ∧
      InForce ports draws K hopped ∧ InForce ports draws K state' ∧ state'.hopTimeIndex = hopped.hopTimeIndex ∧
      hopped.hopTimeIndex =
        if state.hopTimeIndex < hopsBy senderHopTimes packet.timestamp then state.hopTimeIndex + 1
        else state.hopTimeIndex := by
  obtain ⟨hopped, hhop, hindex, hports⟩ := exists_hopWithSender_index hdraws hsorted h packet
  refine ⟨hopped, { hopped with toListening := hopped.toListening.record packet }, hhop, ?_, hports, ?_, rfl, hindex⟩
  · rw [synchronizedTurn, hhop]
    rfl
  · show choiceWithoutReplacement ports K (draws hopped.hopTimeIndex) =
      some (hopped.toListening.record packet).portsToListenOn
    rw [hports, Listening.record]
    split <;> rfl

/-- A run over packets with at most one hop between them keeps the index exact. -/
theorem exists_foldlM_index (hdraws : ∀ hop, IsSample ports K (draws hop)) (hsorted : senderHopTimes.Pairwise (· ≤ ·))
    {before after : List Packet} (htrace : (before ++ after).Pairwise fun p q => p.timestamp ≤ q.timestamp)
    (hone : OneHopAtATime (before ++ after) senderHopTimes) {start : Synchronized} (hstart : start.hopTimeIndex = 0)
    (hforce : InForce ports draws K start) :
    ∃ state, before.foldlM (synchronizedTurn ports draws K senderHopTimes) start = some state ∧
      InForce ports draws K state ∧ state.hopTimeIndex = hopsAfter senderHopTimes before := by
  refine foldlM_total _ before start (fun done state => InForce ports draws K state ∧
    state.hopTimeIndex = hopsAfter senderHopTimes done) ⟨hforce, hstart⟩ ?_
  rintro done packet rest state hsplit ⟨hinForce, hindex⟩
  obtain ⟨hopped, state', -, hturn, -, hinForce', hsame, hhopped⟩ := hinForce.exists_turn hdraws hsorted packet
  refine ⟨state', hturn, hinForce', ?_⟩
  have hwhole : before ++ after = done ++ packet :: (rest ++ after) := by
    rw [hsplit, List.append_assoc, List.cons_append]
  have hle := hopsAfter_le_hopsBy senderHopTimes (hwhole ▸ htrace)
  have hlag := hone done packet (rest ++ after) hwhole
  have hafter : hopsAfter senderHopTimes (done ++ [packet]) = hopsBy senderHopTimes packet.timestamp := by
    rw [hopsAfter, List.getLast?_concat]
  rw [hsame, hhopped, hindex, hafter]
  split <;> omega

end Runs

section Synchronization

variable {order : SetOrder Nat} {draws : Nat → List Nat} {packets : List Packet} {K : Nat} {senderHopTimes : List ℚ}

theorem exists_startListening (hdraws : ∀ hop, IsSample (senderPorts order packets) K (draws hop))
    (hsome : packets ≠ []) :
    ∃ start, startListening (senderPorts order packets) draws packets K = some start ∧
      InForce (senderPorts order packets) draws K ⟨start, 0⟩ := by
  obtain ⟨first, -, hstart⟩ := startListening_eq (hdraws 0) hsome
  exact ⟨_, hstart, (hdraws 0).choice_eq⟩

theorem testedAfter_eq {start : Listening} {state : Synchronized} {before : List Packet}
    (hstart : startListening (senderPorts order packets) draws packets K = some start)
    (hstate : before.foldlM (synchronizedTurn (senderPorts order packets) draws K senderHopTimes) ⟨start, 0⟩ =
      some state) (packet : Packet) :
    testedAfter order draws packets senderHopTimes K before packet =
      hopWithSender (senderPorts order packets) draws K senderHopTimes state packet := by
  rw [testedAfter, hstart]
  simp only [Option.bind_eq_bind, Option.bind_some, hstate]

theorem hopTimeIndex_le_of_hopWithSender {ports : List Nat} {state hopped : Synchronized} {packet : Packet}
    (h : hopWithSender ports draws K senderHopTimes state packet = some hopped) :
    hopped.hopTimeIndex ≤ state.hopTimeIndex + 1 := by
  rw [hopWithSender] at h
  split at h
  · split at h
    · obtain ⟨chosen, -, hhopped⟩ := Option.bind_eq_some_iff.mp h
      cases hhopped
      exact le_rfl
    · cases h
      exact Nat.le_succ _
  · cases h
    exact Nat.le_succ _

/-- The index is behind a packet by at most what the sender has done since the packet before it. -/
theorem StaysSynchronized.oneHopAtATime (h : StaysSynchronized order draws packets senderHopTimes K) :
    OneHopAtATime packets senderHopTimes := by
  intro before packet after hsplit
  obtain ⟨tested, htested, hindex, -⟩ := h before packet after hsplit
  obtain ⟨start, hstart, htested⟩ := Option.bind_eq_some_iff.mp htested
  obtain ⟨state, hstate, hhop⟩ := Option.bind_eq_some_iff.mp htested
  suffices hexact : state.hopTimeIndex = hopsAfter senderHopTimes before by
    rw [← hindex, ← hexact]
    exact hopTimeIndex_le_of_hopWithSender hhop
  rcases List.eq_nil_or_concat before with rfl | ⟨earlier, last, rfl⟩
  · cases hstate
    rfl
  · -- The index that the turn of the last packet leaves is the one of its test.
    rw [List.concat_eq_append, List.foldlM_append, Option.bind_eq_bind, Option.bind_eq_some_iff] at hstate
    obtain ⟨earlierState, hearlier, hturn⟩ := hstate
    rw [List.foldlM_cons, Option.bind_eq_bind, Option.bind_eq_some_iff] at hturn
    obtain ⟨recorded, hturn, hend⟩ := hturn
    obtain ⟨hopped, hhopped, hrecorded⟩ := Option.bind_eq_some_iff.mp hturn
    cases hend
    cases hrecorded
    obtain ⟨testedLast, htestedLast, hindexLast, -⟩ := h earlier last (packet :: after) (by simpa using hsplit)
    rw [testedAfter_eq hstart hearlier, hhopped, Option.some.injEq] at htestedLast
    rw [hopsAfter, List.concat_eq_append, List.getLast?_concat]
    exact htestedLast ▸ hindexLast

theorem OneHopAtATime.staysSynchronized (h : OneHopAtATime packets senderHopTimes)
    (hdraws : ∀ hop, IsSample (senderPorts order packets) K (draws hop))
    (htrace : packets.Pairwise fun p q => p.timestamp ≤ q.timestamp)
    (hsorted : senderHopTimes.Pairwise (· ≤ ·)) : StaysSynchronized order draws packets senderHopTimes K := by
  intro before packet after hsplit
  have hsome : packets ≠ [] := by simp [hsplit]
  obtain ⟨start, hstart, hforce⟩ := exists_startListening hdraws hsome
  have hlag := h before packet after hsplit
  obtain ⟨state, hstate, hinForce, hindex⟩ := exists_foldlM_index hdraws hsorted (hsplit ▸ htrace) (hsplit ▸ h)
    (show (⟨start, 0⟩ : Synchronized).hopTimeIndex = 0 from rfl) hforce
  obtain ⟨tested, -, hhop, -, hinForce', -, -, hhopped⟩ := hinForce.exists_turn hdraws hsorted packet
  have hle := hopsAfter_le_hopsBy senderHopTimes (hsplit ▸ htrace)
  have hexact : tested.hopTimeIndex = hopsBy senderHopTimes packet.timestamp := by
    rw [hhopped, hindex]
    split <;> omega
  exact ⟨tested, (testedAfter_eq hstart hstate packet).trans hhop, hexact, hexact ▸ hinForce'⟩

/-- The attacker stays synchronized with the sender exactly when no two hops fall between the same two packets. -/
theorem synchronized_iff_one_hop_at_a_time (order : SetOrder Nat) (draws : Nat → List Nat) (packets : List Packet)
    (senderHopTimes : List ℚ) (K : Nat) (hdraws : ∀ hop, IsSample (senderPorts order packets) K (draws hop))
    (htrace : packets.Pairwise fun p q => p.timestamp ≤ q.timestamp) (hsorted : senderHopTimes.Pairwise (· ≤ ·)) :
    StaysSynchronized order draws packets senderHopTimes K ↔ OneHopAtATime packets senderHopTimes :=
  ⟨StaysSynchronized.oneHopAtATime, fun h => h.staysSynchronized hdraws htrace hsorted⟩

end Synchronization

/-- One hop of the sender, at the second packet. -/
theorem synchronized_iff_one_hop_at_a_time_bothShares :
    StaysSynchronized portOrder (fun _ => [0, 1]) bothShares [1] 2 := by
  refine (synchronized_iff_one_hop_at_a_time portOrder (fun _ => [0, 1]) bothShares [1] 2
    (fun _ => isSample_bothShares) (by decide +kernel) (by simp)).mpr ?_
  intro before packet after _
  calc hopsBy [1] packet.timestamp ≤ [(1 : ℚ)].length := List.countP_le_length
    _ ≤ hopsAfter [1] before + 1 := Nat.le_add_left 1 _

/-- Two hops of the sender between the packets: at the second one the attacker has taken one of them. -/
theorem second_hop_not_taken :
    bothShares.Pairwise (fun p q => p.timestamp ≤ q.timestamp) ∧ [(1 / 3 : ℚ), 2 / 3].Pairwise (· ≤ ·) ∧
      ¬ StaysSynchronized portOrder (fun _ => [0, 1]) bothShares [1 / 3, 2 / 3] 2 := by
  refine ⟨by decide +kernel, by decide +kernel, fun h => ?_⟩
  obtain ⟨tested, htested, hindex, -⟩ := h [⟨senderIp, 5001, 7, 0, 0⟩] ⟨senderIp, 5002, 7, 1, 1⟩ [] rfl
  have hlate : (testedAfter portOrder (fun _ => [0, 1]) bothShares [1 / 3, 2 / 3] 2 [⟨senderIp, 5001, 7, 0, 0⟩]
      ⟨senderIp, 5002, 7, 1, 1⟩).map (·.hopTimeIndex) = some 1 := by decide +kernel
  have hhops : hopsBy [1 / 3, 2 / 3] 1 = 2 := by decide +kernel
  rw [htested, Option.map_some, Option.some.injEq, hindex, hhops] at hlate
  cases hlate

end OfTestbed.PacketTrace
