import Mathlib.Algebra.BigOperators.Group.Finset.Basic
import Mathlib.Data.List.Sort
import OfTestbed.LibTable
import OfTestbed.LibWindows

/-!
The histograms of `data_visualization/security.py` over the packets of a transfer: how many paths were active in an
interval (`generate_active_paths_per_interval_plot`) and in how many intervals the shares of a message were in the
network (`generate_number_of_time_periods_shares_were_active_pdf`). Both loops run over the packets in the order of
their timestamps, and a packet more than `delta` after the first one of the interval begins the next interval: the
intervals are the windows of the library. What is modelled is what the bars of the plots show.
-/

namespace OfTestbed.ShareIntervals

open Lib

/-- What the plots read of a `PacketInfo`. -/
structure PacketInfo where
  sourcePort : Nat
  destinationPort : Nat
  seqNum : Nat
  timestamp : ℚ
  deriving DecidableEq

/-- The length of an interval, in microseconds. -/
def delta : ℚ := 100 * 10 ^ 3

/-- `sorted(packets, key=lambda p_i: p_i.timestamp)`. -/
def sortByTimestamp (packets : List PacketInfo) : List PacketInfo :=
  packets.mergeSort fun p q => decide (p.timestamp ≤ q.timestamp)

/-! ### The loops -/

structure ActiveState where
  intervalStart : ℚ
  activePortsInInterval : Finset (Nat × Nat)
  numberOfActivePathsPerInterval : List Nat

def ActiveState.turn (state : ActiveState) (packet : PacketInfo) : ActiveState :=
  let state : ActiveState := if delta < packet.timestamp - state.intervalStart then
    ⟨packet.timestamp, ∅, state.numberOfActivePathsPerInterval ++ [state.activePortsInInterval.card]⟩ else state
  { state with
    activePortsInInterval := insert (packet.sourcePort, packet.destinationPort) state.activePortsInInterval }

def activePathsPerInterval (packets : List PacketInfo) : Option (List Nat) := do
  let first ← (sortByTimestamp packets).head?
  return ((sortByTimestamp packets).foldl ActiveState.turn ⟨first.timestamp, ∅, []⟩).numberOfActivePathsPerInterval

structure PresenceState where
  intervalStart : ℚ
  intervalIndex : Nat
  seqNumToListOfIntervals : Dict Nat (List Nat)

def PresenceState.turn (state : PresenceState) (packet : PacketInfo) : PresenceState :=
  let state : PresenceState := if delta < packet.timestamp - state.intervalStart then
    { state with intervalIndex := state.intervalIndex + 1, intervalStart := packet.timestamp } else state
  { state with
    seqNumToListOfIntervals := state.seqNumToListOfIntervals.push packet.seqNum state.intervalIndex }

/-- `max(list_of_intervals) - min(list_of_intervals) + 1`. -/
def intervalCount (listOfIntervals : List Nat) : Nat :=
  listOfIntervals.max?.getD 0 - listOfIntervals.min?.getD 0 + 1

def seqNumToIntervalCount (packets : List PacketInfo) : Option (Dict Nat Nat) := do
  let first ← (sortByTimestamp packets).head?
  return ((sortByTimestamp packets).foldl PresenceState.turn
    ⟨first.timestamp, 0, .empty⟩).seqNumToListOfIntervals.mapValues intervalCount

/-- `Counter(data)`. -/
def counterOf (data : List Nat) : Dict Nat Nat :=
  data.foldl (fun (counter : Dict Nat Nat) value => counter.addTo value 1) .empty

/-- The bars: every value that occurs, in order, with the part of the data that it makes up. -/
def normedHistData (data : List Nat) : List (Nat × ℚ) :=
  let countedData := (counterOf data).entries
  let histData := countedData.mergeSort fun s t => decide (s.1 ≤ t.1)
  let vectorSum := (histData.map Prod.snd).sum
  histData.map fun t => (t.1, (t.2 : ℚ) / vectorSum)

/-! ### Bars -/

theorem mem_counterOf_iff {data : List Nat} {value count : Nat} :
    (value, count) ∈ (counterOf data).entries ↔ value ∈ data ∧ count = data.count value := by
  have hget := Dict.get?_foldl_addTo data id (fun _ => 1) value
  rw [← Dict.get?_eq_some_iff]
  change (counterOf data).get? value = _ at hget
  rw [hget, List.map_id]
  have hsum : ((data.filter (id · = value)).map fun _ => 1).sum = data.count value := by
    rw [List.map_const', List.sum_replicate_nat, Nat.mul_one, List.count, List.countP_eq_length_filter]
    rfl
  by_cases hmem : value ∈ data
  · rw [if_pos hmem, hsum, Option.some_inj]
    simp [hmem, eq_comm]
  · rw [if_neg hmem]
    simp [hmem]

theorem sum_counterOf (data : List Nat) : ((counterOf data).entries.map Prod.snd).sum = data.length := by
  have hvalues : (counterOf data).entries.map Prod.snd = (counterOf data).keys.map (data.count ·) := by
    rw [Dict.keys, List.map_map]
    apply List.map_congr_left
    rintro ⟨value, count⟩ hmem
    exact (mem_counterOf_iff.mp hmem).2
  have hkeys : (counterOf data).keys.Perm data.dedup := by
    rw [Dict.keys, List.perm_ext_iff_of_nodup (counterOf data).nodupKeys data.nodup_dedup]
    intro value
    rw [List.mem_dedup]
    constructor
    · intro hmem
      obtain ⟨⟨value, count⟩, hentry, rfl⟩ := List.mem_map.mp hmem
      exact (mem_counterOf_iff.mp hentry).1
    · intro hmem
      exact List.mem_map.mpr ⟨(value, data.count value), mem_counterOf_iff.mpr ⟨hmem, rfl⟩, rfl⟩
  rw [hvalues, (hkeys.map _).sum_eq]
  exact List.sum_map_count_dedup_eq_length data

/-- A bar for every value that occurs, as high as the part of the data that it makes up. -/
theorem mem_normedHistData_iff (data : List Nat) (value : Nat) (part : ℚ) :
    (value, part) ∈ normedHistData data ↔ value ∈ data ∧ part = data.count value / data.length := by
  have hperm := List.mergeSort_perm (counterOf data).entries fun s t => decide (s.1 ≤ t.1)
  have hsum : (((counterOf data).entries.mergeSort fun s t => decide (s.1 ≤ t.1)).map Prod.snd).sum = data.length := by
    rw [(hperm.map _).sum_eq, sum_counterOf]
  simp only [normedHistData, hsum, List.mem_map]
  constructor
  · rintro ⟨⟨value, count⟩, hmem, heq⟩
    cases heq
    obtain ⟨hvalue, rfl⟩ := mem_counterOf_iff.mp (hperm.mem_iff.mp hmem)
    exact ⟨hvalue, rfl⟩
  · rintro ⟨hvalue, rfl⟩
    exact ⟨(value, data.count value), hperm.mem_iff.mpr (mem_counterOf_iff.mpr ⟨hvalue, rfl⟩), rfl⟩

/-! ### The loops run over the windows -/

theorem delta_nonneg : 0 ≤ delta := by norm_num [delta]

/-- The packets of a transfer, cut into intervals. -/
def intervalsOf (packets : List PacketInfo) : List (Window PacketInfo) :=
  windows PacketInfo.timestamp delta (sortByTimestamp packets)

/-- The pairs of ports that the packets used. -/
def portsOf (packets : List PacketInfo) : Finset (Nat × Nat) :=
  (packets.map fun packet => (packet.sourcePort, packet.destinationPort)).toFinset

theorem portsOf_concat (packets : List PacketInfo) (packet : PacketInfo) :
    portsOf (packets ++ [packet]) = insert (packet.sourcePort, packet.destinationPort) (portsOf packets) := by
  ext port
  simp [portsOf]

/-- The loop appends a count when a window ends, and never one for the last window. -/
theorem foldl_activeTurn (start : ℚ) (members : List PacketInfo) (counts : List Nat) (l : List PacketInfo) :
    (l.foldl ActiveState.turn ⟨start, portsOf members, counts⟩).numberOfActivePathsPerInterval =
      counts ++ (windowsFrom PacketInfo.timestamp delta start members l).dropLast.map fun window =>
        (portsOf window.members).card := by
  induction l generalizing start members counts with
  | nil => simp [windowsFrom]
  | cons packet rest ih =>
      rw [List.foldl_cons, windowsFrom]
      by_cases hfar : delta < packet.timestamp - start
      · have hturn : ActiveState.turn ⟨start, portsOf members, counts⟩ packet =
            ⟨packet.timestamp, portsOf [packet], counts ++ [(portsOf members).card]⟩ := by
          simp only [ActiveState.turn, if_pos hfar]
          rfl
        rw [hturn, ih, if_pos hfar, List.dropLast_cons_of_ne_nil windowsFrom_ne_nil, List.map_cons, List.append_assoc]
        rfl
      · have hturn : ActiveState.turn ⟨start, portsOf members, counts⟩ packet =
            ⟨start, portsOf (members ++ [packet]), counts⟩ := by
          simp only [ActiveState.turn, if_neg hfar, portsOf_concat]
        rw [hturn, ih, if_neg hfar]

theorem sortByTimestamp_perm (packets : List PacketInfo) : (sortByTimestamp packets).Perm packets :=
  List.mergeSort_perm packets _

theorem pairwise_sortByTimestamp (packets : List PacketInfo) :
    ((sortByTimestamp packets).map PacketInfo.timestamp).Pairwise (· ≤ ·) := by
  have hsorted := @List.pairwise_mergeSort _ (fun p q : PacketInfo => decide (p.timestamp ≤ q.timestamp))
    (fun p q r hpq hqr => decide_eq_true (le_trans (of_decide_eq_true hpq) (of_decide_eq_true hqr)))
    (fun p q => by simpa using le_total p.timestamp q.timestamp) packets
  rw [List.pairwise_map]
  exact hsorted.imp fun hle => of_decide_eq_true hle

theorem exists_sorted {packets : List PacketInfo} (h : packets ≠ []) :
    ∃ first rest, sortByTimestamp packets = first :: rest := by
  apply List.exists_cons_of_ne_nil
  intro hnil
  exact h (hnil ▸ sortByTimestamp_perm packets).symm.eq_nil

theorem not_far (time : ℚ) : ¬delta < time - time := by
  rw [sub_self]
  exact not_lt.mpr delta_nonneg

theorem activePathsPerInterval_eq {packets : List PacketInfo} (h : packets ≠ []) :
    activePathsPerInterval packets =
      some ((intervalsOf packets).dropLast.map fun window => (portsOf window.members).card) := by
  obtain ⟨first, rest, hsorted⟩ := exists_sorted h
  have hturn : ActiveState.turn ⟨first.timestamp, ∅, []⟩ first = ⟨first.timestamp, portsOf [first], []⟩ := by
    simp only [ActiveState.turn, if_neg (not_far first.timestamp)]
    rfl
  rw [activePathsPerInterval, intervalsOf, hsorted, List.head?_cons, Option.bind_eq_bind, Option.bind_some,
    List.foldl_cons, hturn, foldl_activeTurn, List.nil_append]
  rfl

/-- The shares by their message and the number of their window, from the given number on. -/
def numbered (index : Nat) (intervals : List (Window PacketInfo)) : List (Nat × Nat) :=
  (intervals.zipIdx index).flatMap fun entry => entry.1.members.map fun packet => (packet.seqNum, entry.2)

theorem numbered_cons (index : Nat) (window : Window PacketInfo) (intervals : List (Window PacketInfo)) :
    numbered index (window :: intervals) =
      window.members.map (fun packet => (packet.seqNum, index)) ++ numbered (index + 1) intervals := rfl

theorem groups_concat (l : List (Nat × Nat)) (k v : Nat) : Dict.groups (l ++ [(k, v)]) = (Dict.groups l).push k v := by
  rw [Dict.groups, List.foldl_append]
  rfl

theorem foldl_presenceTurn (start : ℚ) (members : List PacketInfo) (index : Nat) (done : List (Nat × Nat))
    (l : List PacketInfo) :
    (l.foldl PresenceState.turn
      ⟨start, index, .groups (done ++ members.map fun packet => (packet.seqNum, index))⟩).seqNumToListOfIntervals =
      .groups (done ++ numbered index (windowsFrom PacketInfo.timestamp delta start members l)) := by
  induction l generalizing start members index done with
  | nil =>
      rw [windowsFrom, numbered_cons]
      simp [numbered]
  | cons packet rest ih =>
      rw [List.foldl_cons, windowsFrom]
      by_cases hfar : delta < packet.timestamp - start
      · have hturn : PresenceState.turn
            ⟨start, index, .groups (done ++ members.map fun packet => (packet.seqNum, index))⟩ packet =
            ⟨packet.timestamp, index + 1, .groups ((done ++ members.map fun packet => (packet.seqNum, index)) ++
              [packet].map fun packet => (packet.seqNum, index + 1))⟩ := by
          simp only [PresenceState.turn, if_pos hfar, List.map_singleton, groups_concat]
        rw [hturn, ih, if_pos hfar, numbered_cons, List.append_assoc]
      · have hturn : PresenceState.turn
            ⟨start, index, .groups (done ++ members.map fun packet => (packet.seqNum, index))⟩ packet =
            ⟨start, index, .groups (done ++ (members ++ [packet]).map fun packet => (packet.seqNum, index))⟩ := by
          simp only [PresenceState.turn, if_neg hfar, List.map_append, List.map_singleton, ← List.append_assoc,
            groups_concat]
        rw [hturn, ih, if_neg hfar]

theorem seqNumToIntervalCount_eq {packets : List PacketInfo} (h : packets ≠ []) :
    seqNumToIntervalCount packets =
      some ((Dict.groups (numbered 0 (intervalsOf packets))).mapValues intervalCount) := by
  obtain ⟨first, rest, hsorted⟩ := exists_sorted h
  have hturn : PresenceState.turn ⟨first.timestamp, 0, .empty⟩ first =
      ⟨first.timestamp, 0, .groups ([] ++ [first].map fun packet => (packet.seqNum, 0))⟩ := by
    simp only [PresenceState.turn, if_neg (not_far first.timestamp)]
    rfl
  rw [seqNumToIntervalCount, intervalsOf, hsorted, List.head?_cons, Option.bind_eq_bind, Option.bind_some,
    List.foldl_cons, hturn, foldl_presenceTurn, List.nil_append]
  rfl

/-- The windows in which shares of a message are. -/
def windowsWith (packets : List PacketInfo) (seqNum : Nat) : List Nat :=
  ((numbered 0 (intervalsOf packets)).filter (·.1 = seqNum)).map Prod.snd

theorem mem_windowsWith_iff {packets : List PacketInfo} {seqNum index : Nat} :
    index ∈ windowsWith packets seqNum ↔ ∃ window, (intervalsOf packets)[index]? = some window ∧
      ∃ packet ∈ window.members, packet.seqNum = seqNum := by
  simp only [windowsWith, numbered, List.mem_map, List.mem_filter, List.mem_flatMap, decide_eq_true_eq]
  constructor
  · rintro ⟨⟨s, i⟩, ⟨⟨⟨window, j⟩, hwindow, packet, hpacket, heq⟩, rfl⟩, rfl⟩
    cases heq
    exact ⟨window, List.mk_mem_zipIdx_iff_getElem?.mp hwindow, packet, hpacket, rfl⟩
  · rintro ⟨window, hwindow, packet, hpacket, rfl⟩
    exact ⟨(packet.seqNum, index), ⟨⟨(window, index), List.mk_mem_zipIdx_iff_getElem?.mpr hwindow, packet, hpacket,
      rfl⟩, rfl⟩, rfl⟩

theorem exists_window_of_mem {packets : List PacketInfo} {packet : PacketInfo} (h : packet ∈ packets) :
    ∃ (index : Nat) (window : Window PacketInfo), (intervalsOf packets)[index]? = some window ∧
      packet ∈ window.members := by
  have hmem : packet ∈ (intervalsOf packets).flatMap Window.members := by
    rw [intervalsOf, flatMap_windows]
    exact (sortByTimestamp_perm packets).mem_iff.mpr h
  obtain ⟨window, hwindow, hpacket⟩ := List.mem_flatMap.mp hmem
  obtain ⟨index, hindex⟩ := List.mem_iff_getElem?.mp hwindow
  exact ⟨index, window, hindex, hpacket⟩

theorem mem_packets_of_window {packets : List PacketInfo} {window : Window PacketInfo} {index : Nat}
    (h : (intervalsOf packets)[index]? = some window) {packet : PacketInfo} (hmem : packet ∈ window.members) :
    packet ∈ packets := by
  apply (sortByTimestamp_perm packets).mem_iff.mp
  rw [← flatMap_windows PacketInfo.timestamp delta (sortByTimestamp packets)]
  exact List.mem_flatMap.mpr ⟨window, List.mem_of_getElem? h, hmem⟩

/-- The counts of active paths are those of all windows but the last, and there are as many windows as intervals of
length `delta` are needed to hold all packets; the bars show which part of the counted windows had how many active
paths. -/
theorem active_paths_per_interval (packets : List PacketInfo) (h : packets ≠ []) :
    ∃ counts, activePathsPerInterval packets = some counts ∧
      counts = (intervalsOf packets).dropLast.map (fun window => (portsOf window.members).card) ∧
      ((intervalsOf packets).flatMap Window.members).Perm packets ∧
      (∃ points, points.length = counts.length + 1 ∧ Covers PacketInfo.timestamp delta points packets) ∧
      (∀ points, Covers PacketInfo.timestamp delta points packets → counts.length + 1 ≤ points.length) ∧
      ∀ value part, (value, part) ∈ normedHistData counts ↔
        value ∈ counts ∧ part = counts.count value / counts.length := by
  have hperm := sortByTimestamp_perm packets
  have hsorted := pairwise_sortByTimestamp packets
  have hcovers : ∀ points, Covers PacketInfo.timestamp delta points packets ↔
      Covers PacketInfo.timestamp delta points (sortByTimestamp packets) := fun points =>
    forall_congr' fun packet => imp_congr_left hperm.mem_iff.symm
  obtain ⟨first, rest, hcons⟩ := exists_sorted h
  have hlength : ((intervalsOf packets).dropLast.map fun window => (portsOf window.members).card).length + 1 =
      (intervalsOf packets).length := by
    have hne : intervalsOf packets ≠ [] := by
      rw [intervalsOf, hcons]
      exact windowsFrom_ne_nil
    rw [List.length_map, List.length_dropLast]
    have hpos := List.length_pos_iff.mpr hne
    omega
  refine ⟨_, activePathsPerInterval_eq h, rfl, ?_, ⟨(intervalsOf packets).map Window.start, ?_, ?_⟩,
    fun points hpoints => ?_, mem_normedHistData_iff _⟩
  · rw [intervalsOf, flatMap_windows]
    exact hperm
  · rw [hlength, List.length_map]
  · exact (hcovers _).mpr (covers_windows delta_nonneg hsorted)
  · rw [hlength]
    exact length_windows_le delta_nonneg hsorted ((hcovers points).mp hpoints)

/-- Two shares of one message at once and one of the next, later. -/
def threePackets : List PacketInfo := [⟨5002, 80, 7, 50000⟩, ⟨5001, 80, 7, 0⟩, ⟨5001, 80, 8, 250000⟩]

theorem active_paths_per_interval_threePackets : ∃ counts, activePathsPerInterval threePackets = some counts ∧
    ∀ points, Covers PacketInfo.timestamp delta points threePackets → counts.length + 1 ≤ points.length := by
  obtain ⟨counts, hcounts, -, -, -, hleast, -⟩ := active_paths_per_interval threePackets (by decide)
  exact ⟨counts, hcounts, hleast⟩

/-- The shares of a message are in the windows from the first to the last one, and in both of these. -/
structure PresentFrom (packets : List PacketInfo) (seqNum first last : Nat) : Prop where
  within : ∀ index ∈ windowsWith packets seqNum, first ≤ index ∧ index ≤ last
  atFirst : first ∈ windowsWith packets seqNum
  atLast : last ∈ windowsWith packets seqNum

theorem exists_presentFrom {packets : List PacketInfo} {seqNum : Nat} (h : windowsWith packets seqNum ≠ []) :
    ∃ first last, PresentFrom packets seqNum first last ∧
      intervalCount (windowsWith packets seqNum) = last - first + 1 := by
  obtain ⟨first, hfirst⟩ := Option.isSome_iff_exists.mp (List.isSome_min?_of_ne_nil h)
  obtain ⟨last, hlast⟩ := Option.isSome_iff_exists.mp (List.isSome_max?_of_ne_nil h)
  obtain ⟨hfirstMem, hfirstLe⟩ := List.min?_eq_some_iff.mp hfirst
  obtain ⟨hlastMem, hleLast⟩ := List.max?_eq_some_iff.mp hlast
  refine ⟨first, last, ⟨fun index hindex => ⟨hfirstLe index hindex, hleLast index hindex⟩, hfirstMem, hlastMem⟩, ?_⟩
  rw [intervalCount, hfirst, hlast]
  rfl

theorem windowsWith_eq_nil_iff (packets : List PacketInfo) (seqNum : Nat) :
    windowsWith packets seqNum = [] ↔ ∀ packet ∈ packets, packet.seqNum ≠ seqNum := by
  rw [List.eq_nil_iff_forall_not_mem]
  constructor
  · intro hnone packet hpacket hseq
    obtain ⟨index, window, hindex, hmem⟩ := exists_window_of_mem hpacket
    exact hnone index (mem_windowsWith_iff.mpr ⟨window, hindex, packet, hmem, hseq⟩)
  · intro hnone index hindex
    obtain ⟨window, hwindow, packet, hpacket, hseq⟩ := mem_windowsWith_iff.mp hindex
    exact hnone packet (mem_packets_of_window hwindow hpacket) hseq

/-- The last share of a message comes later than all windows between the first and the last of its windows are long. -/
theorem PresentFrom.exists_far {packets : List PacketInfo} {seqNum first between : Nat}
    (h : PresentFrom packets seqNum first (first + between + 1)) :
    ∃ packet ∈ packets, ∃ packet' ∈ packets, packet.seqNum = seqNum ∧ packet'.seqNum = seqNum ∧
      packet.timestamp + between * delta < packet'.timestamp := by
  obtain ⟨window, hwindow, packet, hpacket, hseq⟩ := mem_windowsWith_iff.mp h.atFirst
  obtain ⟨window', hwindow', packet', hpacket', hseq'⟩ := mem_windowsWith_iff.mp h.atLast
  exact ⟨packet, mem_packets_of_window hwindow hpacket, packet', mem_packets_of_window hwindow' hpacket', hseq, hseq',
    time_add_lt delta_nonneg (pairwise_sortByTimestamp packets) hwindow hwindow' hpacket hpacket'⟩

/-- Every message of the packets has a number, that of the windows from the first to the last one with a share of it;
where that is more than two its shares are further apart than the windows between are long. The bars show which part
of the messages has which number. -/
theorem share_presence (packets : List PacketInfo) (h : packets ≠ []) :
    ∃ counts, seqNumToIntervalCount packets = some counts ∧
      (∀ seqNum, counts.get? seqNum = none ↔ ∀ packet ∈ packets, packet.seqNum ≠ seqNum) ∧
      (∀ seqNum number, counts.get? seqNum = some number → ∃ first last,
        PresentFrom packets seqNum first last ∧ first ≤ last ∧ number = last - first + 1 ∧
        ∀ between, number = between + 2 → ∃ packet ∈ packets, ∃ packet' ∈ packets, packet.seqNum = seqNum ∧
          packet'.seqNum = seqNum ∧ packet.timestamp + between * delta < packet'.timestamp) ∧
      ∀ value part, (value, part) ∈ normedHistData counts.values ↔
        value ∈ counts.values ∧ part = counts.values.count value / counts.values.length := by
  have hget : ∀ seqNum, ((Dict.groups (numbered 0 (intervalsOf packets))).mapValues intervalCount).get? seqNum =
      if windowsWith packets seqNum = [] then none else some (intervalCount (windowsWith packets seqNum)) := by
    intro seqNum
    rw [Dict.get?_mapValues, Dict.get?_groups, apply_ite (Option.map intervalCount)]
    simp only [windowsWith, List.map_eq_nil_iff]
    rfl
  refine ⟨_, seqNumToIntervalCount_eq h, fun seqNum => ?_, fun seqNum number hnumber => ?_,
    mem_normedHistData_iff _⟩
  · rw [hget, ← windowsWith_eq_nil_iff]
    split <;> simp_all
  · rw [hget] at hnumber
    split at hnumber
    · cases hnumber
    · rename_i hsome
      obtain ⟨first, last, hpresent, hcount⟩ := exists_presentFrom hsome
      have hle : first ≤ last := (hpresent.within last hpresent.atLast).1
      have hnumber : number = last - first + 1 := by rw [← hcount, Option.some.inj hnumber]
      refine ⟨first, last, hpresent, hle, hnumber, fun between hbetween => ?_⟩
      rw [show last = first + between + 1 by omega] at hpresent
      exact hpresent.exists_far

theorem share_presence_threePackets : ∃ counts, seqNumToIntervalCount threePackets = some counts ∧
    counts.get? 7 ≠ none ∧ counts.get? 9 = none := by
  obtain ⟨counts, hcounts, hnone, -, -⟩ := share_presence threePackets (by decide)
  exact ⟨counts, hcounts, fun h => absurd ((hnone 7).mp h) (by decide), (hnone 9).mpr (by decide)⟩

end OfTestbed.ShareIntervals
