import Mathlib.Algebra.BigOperators.Ring.Finset
import Mathlib.Algebra.Order.Field.Rat
import Mathlib.Tactic.Linarith
import Mathlib.Tactic.Ring
import OfTestbed.PortMonitor

/-!
What is computed from the lists of the monitor: `StatsProcessor` of `mp_routing/stats_processor.py`. The ports of a
switch that lead to another switch (`get_adj_mat` of `nw_control/of_rest_client.py`) are reported as links, under the
names of the two switches, and all others as ports of hosts. The controller's topology and the names of its switches
are parameters.
-/

namespace OfTestbed.PortStatistics

open Lib PortMonitor

inductive Units where
  | packetsPerSecond
  | megaBitsPerSecond
  | bitsPerSecond
  | bytesPerSecond
  | megaBytesPerSecond
  deriving DecidableEq

/-- An entry of the topology: two switches, and the port of the one at which the other is connected. -/
structure TopologyLink where
  dstDpid : Int
  srcDpid : Int
  dstPortNo : Int

def getAdjMat (resp : List TopologyLink) : Dict Int (Dict Int Int) :=
  resp.foldl (fun adjMat entry => adjMat.set2 entry.dstDpid entry.srcDpid entry.dstPortNo) .empty

/-- The answers of the controller: the topology, and the names of the switches. -/
structure Controller where
  topology : List TopologyLink
  mapDpidToSw : Int → Text

section Processor

variable (controller : Controller)

/-- The link of a port in the core of the network. -/
def getLink (srcDpid portNo : Int) : Option (Int × Int) :=
  let nextHops := ((getAdjMat controller.topology).get? srcDpid).getD .empty
  (nextHops.entries.find? (·.2 = portNo)).map fun t => (srcDpid, t.1)

def getFriendlyLink (srcDpid portNo : Int) : Option (Text × Text) :=
  (getLink controller srcDpid portNo).map fun link => (controller.mapDpidToSw link.1, controller.mapDpidToSw link.2)

def isCorePort (dpid portNo : Int) : Bool := (getLink controller dpid portNo).isSome

def isHostPort (dpid portNo : Int) : Bool := !isCorePort controller dpid portNo

/-- The name of the switch and the port, for a port that leads to a host. -/
def hostName (dpid portNo : Int) : Option (Text × Int) :=
  if isHostPort controller dpid portNo then some (controller.mapDpidToSw dpid, portNo) else none

def computeTimeframes (resultsStore : Dict (Int × Int) (List Int)) : Dict (Int × Int) (List Int) :=
  resultsStore.mapValues fun v => (v.zip v.tail).map fun t => t.2 - t.1

/-- `statistics.mean`, which raises for an empty list. -/
def mean (counts : List Int) : Option ℚ := if counts = [] then none else some ((counts.sum : ℚ) / counts.length)

/-- Where the value of a port goes when the links are reported. -/
def linkPlace (entry : (Int × Int) × List Int) : Option (Text × Text) :=
  getFriendlyLink controller entry.1.1 entry.1.2

/-- Where the value of a port goes when the ports of hosts are reported. -/
def hostPlace (entry : (Int × Int) × List Int) : Option (Text × Int) := hostName controller entry.1.1 entry.1.2

def calcLinkUtilPps (statsDict : Dict (Int × Int) (List Int)) : Option (Dict Text (Dict Text ℚ)) :=
  Dict.fillIn (linkPlace controller) (fun entry => mean entry.2) (computeTimeframes statsDict).entries

def calcLinkUtilPpsT (statsDict : Dict (Int × Int) (List Int)) : Option (Dict Text (Dict Text (List Int))) :=
  Dict.fillIn (linkPlace controller) (fun entry => some entry.2) (computeTimeframes statsDict).entries

def calcUplinkPortUtilPps {α : Type} (transfFn : List Int → Option α) (statsDict : Dict (Int × Int) (List Int)) :
    Option (Dict Text (Dict Int α)) :=
  Dict.fillIn (hostPlace controller) (fun entry => transfFn entry.2) (computeTimeframes statsDict).entries

end Processor

/-- `_convert_stats` and `_convert_stats_list`, with what is done to the value of an entry. -/
def convertStats {κ α β : Type} [DecidableEq κ] (conv : α → Option β) (statsDict : Dict Text (Dict κ α)) :
    Option (Dict Text (Dict κ β)) :=
  Dict.fillIn (fun entry : (Text × κ) × α => some entry.1) (fun entry => conv entry.2) statsDict.items2

/-- The function that `_build_conv_fn` returns; it raises when the time frame is zero. -/
def buildConvFn (pktSize timeFrame : ℚ) (units : Units) (pkts : ℚ) : Option ℚ :=
  if timeFrame = 0 then none
  else match units with
    | .packetsPerSecond => some (pkts / timeFrame)
    | .bitsPerSecond => some (pkts * pktSize * 8 / timeFrame)
    | .megaBitsPerSecond => some (pkts * pktSize * 8 / 10 ^ 6 / timeFrame)
    | .bytesPerSecond => some (pkts * 1066 / timeFrame)
    | .megaBytesPerSecond => some (pkts * 1066 / 10 ^ 6 / timeFrame)

section Calc

variable (controller : Controller) (statsDict : Dict (Int × Int) (List Int)) (pktSize timeFrame : ℚ) (units : Units)

def calcLinkUtil : Option (Dict Text (Dict Text ℚ)) :=
  (calcLinkUtilPps controller statsDict).bind (convertStats (buildConvFn pktSize timeFrame units))

def calcLinkUtilPerT : Option (Dict Text (Dict Text (List ℚ))) :=
  (calcLinkUtilPpsT controller statsDict).bind
    (convertStats fun counts : List Int => counts.mapM fun count : Int => buildConvFn pktSize timeFrame units count)

def calcIngressUtil : Option (Dict Text (Dict Int ℚ)) :=
  (calcUplinkPortUtilPps controller mean statsDict).bind (convertStats (buildConvFn pktSize timeFrame units))

def calcIngressUtilPerT : Option (Dict Text (Dict Int (List ℚ))) :=
  (calcUplinkPortUtilPps controller some statsDict).bind
    (convertStats fun counts : List Int => counts.mapM fun count : Int => buildConvFn pktSize timeFrame units count)

end Calc

/-! ### Time frames -/

/-- What a counter grew by in a time frame, on average. -/
def growth (counts : List Int) : ℚ := (counts.getLastD 0 - counts.headD 0) / (counts.length - 1)

def differences (counts : List Int) : List Int := (counts.zip counts.tail).map fun t => t.2 - t.1

theorem length_differences (counts : List Int) : (differences counts).length = counts.length - 1 := by
  simp [differences]

/-- What was counted in all time frames is what was counted between the first and the last sample. -/
theorem sum_differences (counts : List Int) : (differences counts).sum = counts.getLastD 0 - counts.headD 0 := by
  induction counts with
  | nil => simp [differences]
  | cons first rest ih =>
      cases rest with
      | nil => simp [differences]
      | cons second rest =>
          have hsum : (differences (first :: second :: rest)).sum =
              second - first + (differences (second :: rest)).sum := rfl
          rw [hsum, ih]
          simp only [List.getLastD_cons, List.headD_cons]
          ring

theorem mean_differences {counts : List Int} (h : 2 ≤ counts.length) :
    mean (differences counts) = some (growth counts) := by
  have hlength := length_differences counts
  have hne : differences counts ≠ [] := List.ne_nil_of_length_pos (by omega)
  rw [mean, if_neg hne, sum_differences, hlength, growth, Nat.cast_sub (by omega)]
  push_cast
  rfl

theorem mean_differences_eq_none {counts : List Int} (h : counts.length < 2) : mean (differences counts) = none := by
  have hlength := length_differences counts
  have hnil : differences counts = [] := List.length_eq_zero_iff.mp (by omega)
  rw [mean, if_pos hnil]

theorem isSome_mean_differences (counts : List Int) : (mean (differences counts)).isSome ↔ 2 ≤ counts.length := by
  rcases Nat.lt_or_ge counts.length 2 with hlt | hge
  · rw [mean_differences_eq_none hlt]
    simpa using hlt
  · rw [mean_differences hge]
    simpa using hge

theorem isSome_buildConvFn (pktSize timeFrame : ℚ) (units : Units) (pkts : ℚ) :
    (buildConvFn pktSize timeFrame units pkts).isSome ↔ timeFrame ≠ 0 := by
  unfold buildConvFn
  by_cases hzero : timeFrame = 0
  · simp [hzero]
  · cases units <;> simp [hzero]

/-- In every unit the conversion is a factor. -/
theorem exists_factor {timeFrame : ℚ} (hframe : timeFrame ≠ 0) (pktSize : ℚ) (units : Units) :
    ∃ factor : ℚ, ∀ pkts, buildConvFn pktSize timeFrame units pkts = some (pkts * factor) := by
  cases units with
  | packetsPerSecond => exact ⟨1 / timeFrame, fun pkts => by simp [buildConvFn, hframe]; ring⟩
  | megaBitsPerSecond =>
      exact ⟨pktSize * 8 / 10 ^ 6 / timeFrame, fun pkts => by simp [buildConvFn, hframe]; ring⟩
  | bitsPerSecond => exact ⟨pktSize * 8 / timeFrame, fun pkts => by simp [buildConvFn, hframe]; ring⟩
  | bytesPerSecond => exact ⟨1066 / timeFrame, fun pkts => by simp [buildConvFn, hframe]; ring⟩
  | megaBytesPerSecond => exact ⟨1066 / 10 ^ 6 / timeFrame, fun pkts => by simp [buildConvFn, hframe]; ring⟩

/-! ### Tables that are converted -/

section Converted

variable {α κ μ ν : Type} [DecidableEq κ] {place : α → Option (Text × κ)} {value : α → Option μ} {conv : μ → Option ν}
  {l : List α}

omit [DecidableEq κ] in
theorem filterMap_items2 (d : Dict Text (Dict κ μ)) :
    d.items2.filterMap (fun entry => some entry.1) = d.items2.map Prod.fst := congrFun List.filterMap_eq_map d.items2

omit [DecidableEq κ] in
theorem ownPlaces_items2 (d : Dict Text (Dict κ μ)) :
    Dict.OwnPlaces (fun entry : (Text × κ) × μ => some entry.1) d.items2 := by
  rw [Dict.OwnPlaces, filterMap_items2]
  exact Dict.nodup_items2 d

theorem get2?_converted (hown : Dict.OwnPlaces place l) {table : Dict Text (Dict κ ν)}
    (h : (Dict.fillIn place value l).bind (convertStats conv) = some table) (x : Text × κ) (v : ν) :
    table.get2? x.1 x.2 = some v ↔ ∃ a ∈ l, place a = some x ∧ (value a).bind conv = some v := by
  obtain ⟨before, hbefore, hconverted⟩ := Option.bind_eq_some_iff.mp h
  rw [Dict.get2?_fillIn hconverted (ownPlaces_items2 before)]
  constructor
  · rintro ⟨⟨x', w⟩, hmem, hplace, hv⟩
    obtain rfl : x' = x := Option.some.inj hplace
    obtain ⟨a, ha, hplace', hvalue⟩ := (Dict.get2?_fillIn hbefore hown x' w).mp (Dict.mem_items2.mp hmem)
    exact ⟨a, ha, hplace', by rw [hvalue]; exact hv⟩
  · rintro ⟨a, ha, hplace, hv⟩
    obtain ⟨w, hvalue, hconv⟩ := Option.bind_eq_some_iff.mp hv
    exact ⟨(x, w), Dict.mem_items2.mpr ((Dict.get2?_fillIn hbefore hown x w).mpr ⟨a, ha, hplace, hvalue⟩), rfl, hconv⟩

theorem isSome_converted_iff (hown : Dict.OwnPlaces place l) :
    ((Dict.fillIn place value l).bind (convertStats conv)).isSome ↔
      ∀ a ∈ l, (place a).isSome → ((value a).bind conv).isSome := by
  constructor
  · intro h a ha hplace
    obtain ⟨table, htable⟩ := Option.isSome_iff_exists.mp h
    obtain ⟨before, hbefore, hconverted⟩ := Option.bind_eq_some_iff.mp htable
    obtain ⟨x, hx⟩ := Option.isSome_iff_exists.mp hplace
    obtain ⟨w, hw⟩ := Option.isSome_iff_exists.mp (Dict.isSome_fillIn_iff.mp (by rw [hbefore]; rfl) a ha hplace)
    have hmem := Dict.mem_items2.mpr ((Dict.get2?_fillIn hbefore hown x w).mpr ⟨a, ha, hx, hw⟩)
    rw [hw, Option.bind_some]
    have hsome : (convertStats conv before).isSome := by rw [hconverted]; rfl
    exact Dict.isSome_fillIn_iff.mp hsome _ hmem rfl
  · intro h
    have hbefore : (Dict.fillIn place value l).isSome := Dict.isSome_fillIn_iff.mpr fun a ha hplace => by
      obtain ⟨v, hv⟩ := Option.isSome_iff_exists.mp (h a ha hplace)
      obtain ⟨w, hvalue, -⟩ := Option.bind_eq_some_iff.mp hv
      rw [hvalue]
      rfl
    obtain ⟨before, hbefore⟩ := Option.isSome_iff_exists.mp hbefore
    rw [hbefore, Option.bind_some]
    refine Dict.isSome_fillIn_iff.mpr fun entry hentry _ => ?_
    obtain ⟨a, ha, hplace, hvalue⟩ := (Dict.get2?_fillIn hbefore hown entry.1 entry.2).mp (Dict.mem_items2.mp hentry)
    have hsome := h a ha (by rw [hplace]; rfl)
    rwa [hvalue, Option.bind_some] at hsome

theorem length_converted (hown : Dict.OwnPlaces place l) {table : Dict Text (Dict κ ν)}
    (h : (Dict.fillIn place value l).bind (convertStats conv) = some table) :
    table.items2.length = (l.filterMap place).length := by
  obtain ⟨before, hbefore, hconverted⟩ := Option.bind_eq_some_iff.mp h
  have hperm := (Dict.perm_places_fillIn hconverted (ownPlaces_items2 before)).length_eq
  have hperm' := (Dict.perm_places_fillIn hbefore hown).length_eq
  rw [filterMap_items2, List.length_map, List.length_map] at hperm
  rw [List.length_map] at hperm'
  exact hperm.trans hperm'

end Converted

/-! ### The ports of a dictionary -/

section Ports

variable {controller : Controller} {statsDict : Dict (Int × Int) (List Int)}

theorem getLink_eq_some {srcDpid portNo : Int} {link : Int × Int} (h : getLink controller srcDpid portNo = some link) :
    link.1 = srcDpid ∧ (getAdjMat controller.topology).get2? srcDpid link.2 = some portNo := by
  obtain ⟨t, hfound, rfl⟩ := Option.map_eq_some_iff.mp h
  have hport : t.2 = portNo := by simpa using List.find?_some hfound
  have hmem := List.mem_of_find?_eq_some hfound
  cases hrow : (getAdjMat controller.topology).get? srcDpid with
  | none => simp [hrow, Dict.empty] at hmem
  | some row =>
      rw [hrow, Option.getD_some] at hmem
      refine ⟨rfl, ?_⟩
      rw [Dict.get2?, hrow, Option.bind_some, ← hport]
      exact Dict.get?_eq_some_iff.mpr hmem

/-- Two ports are never reported as the same link. -/
theorem getFriendlyLink_injective (hnames : Function.Injective controller.mapDpidToSw) (port port' : Int × Int)
    (names : Text × Text) (h : names ∈ getFriendlyLink controller port.1 port.2)
    (h' : names ∈ getFriendlyLink controller port'.1 port'.2) : port = port' := by
  obtain ⟨link, hlink, heq⟩ := Option.map_eq_some_iff.mp h
  obtain ⟨link', hlink', heq'⟩ := Option.map_eq_some_iff.mp h'
  obtain ⟨hsrc, hport⟩ := getLink_eq_some hlink
  obtain ⟨hsrc', hport'⟩ := getLink_eq_some hlink'
  obtain ⟨hfst, hsnd⟩ := Prod.mk.inj (heq.trans heq'.symm)
  have hdpid : port.1 = port'.1 := hsrc.symm.trans ((hnames hfst).trans hsrc')
  rw [hdpid, hnames hsnd, hport'] at hport
  exact Prod.ext hdpid (Option.some.inj hport).symm

theorem hostName_injective (hnames : Function.Injective controller.mapDpidToSw) (port port' : Int × Int)
    (name : Text × Int) (h : name ∈ hostName controller port.1 port.2)
    (h' : name ∈ hostName controller port'.1 port'.2) : port = port' := by
  unfold hostName at h h'
  split at h
  · split at h'
    · obtain ⟨hfst, hsnd⟩ := Prod.mk.inj ((Option.some.inj h).trans (Option.some.inj h').symm)
      exact Prod.ext (hnames hfst) hsnd
    · cases h'
  · cases h

theorem ownPlaces_linkPlace (hnames : Function.Injective controller.mapDpidToSw) :
    Dict.OwnPlaces (linkPlace controller) (computeTimeframes statsDict).entries := by
  have hkeys : (computeTimeframes statsDict).entries.filterMap (linkPlace controller) =
      (computeTimeframes statsDict).keys.filterMap fun port => getFriendlyLink controller port.1 port.2 := by
    rw [Dict.keys, List.filterMap_map]
    rfl
  rw [Dict.OwnPlaces, hkeys]
  exact (computeTimeframes statsDict).nodupKeys.filterMap (getFriendlyLink_injective hnames)

theorem ownPlaces_hostPlace (hnames : Function.Injective controller.mapDpidToSw) :
    Dict.OwnPlaces (hostPlace controller) (computeTimeframes statsDict).entries := by
  have hkeys : (computeTimeframes statsDict).entries.filterMap (hostPlace controller) =
      (computeTimeframes statsDict).keys.filterMap fun port => hostName controller port.1 port.2 := by
    rw [Dict.keys, List.filterMap_map]
    rfl
  rw [Dict.OwnPlaces, hkeys]
  exact (computeTimeframes statsDict).nodupKeys.filterMap (hostName_injective hnames)

theorem isSome_linkPlace (entry : (Int × Int) × List Int) :
    (linkPlace controller entry).isSome = isCorePort controller entry.1.1 entry.1.2 := by
  rw [linkPlace, getFriendlyLink, Option.isSome_map, isCorePort]

theorem isSome_hostPlace (entry : (Int × Int) × List Int) :
    (hostPlace controller entry).isSome = !isCorePort controller entry.1.1 entry.1.2 := by
  rw [hostPlace, hostName, isHostPort]
  cases isCorePort controller entry.1.1 entry.1.2 <;> rfl

/-- Every port has a place among the links or among the ports of hosts. -/
theorem length_places (statsDict : Dict (Int × Int) (List Int)) :
    ((computeTimeframes statsDict).entries.filterMap (linkPlace controller)).length +
      ((computeTimeframes statsDict).entries.filterMap (hostPlace controller)).length = statsDict.entries.length := by
  have hlength : (computeTimeframes statsDict).entries.length = statsDict.entries.length := List.length_map _
  rw [List.length_filterMap_eq_countP, List.length_filterMap_eq_countP, ← hlength,
    List.length_eq_countP_add_countP fun entry => (linkPlace controller entry).isSome]
  congr 1
  apply List.countP_congr
  intro entry _
  simp [isSome_linkPlace, isSome_hostPlace]

theorem forall_timeframes_iff (P : Int × Int → List Int → Prop) :
    (∀ entry ∈ (computeTimeframes statsDict).entries, P entry.1 entry.2) ↔
      ∀ port counts, statsDict.get? port = some counts → P port (differences counts) := by
  constructor
  · intro h port counts hget
    exact h (port, differences counts) (List.mem_map.mpr ⟨(port, counts), Dict.get?_eq_some_iff.mp hget, rfl⟩)
  · intro h entry hentry
    obtain ⟨e, he, rfl⟩ := List.mem_map.mp hentry
    exact h e.1 e.2 (Dict.get?_eq_some_iff.mpr he)

theorem mem_timeframes {port : Int × Int} {counts : List Int} (h : statsDict.get? port = some counts) :
    (port, differences counts) ∈ (computeTimeframes statsDict).entries :=
  List.mem_map.mpr ⟨(port, counts), Dict.get?_eq_some_iff.mp h, rfl⟩

theorem isSome_bind_mean (pktSize timeFrame : ℚ) (units : Units) (counts : List Int) :
    ((mean (differences counts)).bind (buildConvFn pktSize timeFrame units)).isSome ↔
      2 ≤ counts.length ∧ timeFrame ≠ 0 := by
  rw [← isSome_mean_differences]
  cases mean (differences counts) with
  | none => simp
  | some average => simp [isSome_buildConvFn]

variable {pktSize timeFrame : ℚ} {units : Units}

theorem isSome_calcLinkUtil_iff (hnames : Function.Injective controller.mapDpidToSw) :
    (calcLinkUtil controller statsDict pktSize timeFrame units).isSome ↔ ∀ port counts,
      statsDict.get? port = some counts → isCorePort controller port.1 port.2 = true →
        2 ≤ counts.length ∧ timeFrame ≠ 0 := by
  rw [calcLinkUtil, calcLinkUtilPps, isSome_converted_iff (ownPlaces_linkPlace hnames)]
  simp only [isSome_linkPlace, ← isSome_bind_mean pktSize timeFrame units]
  exact forall_timeframes_iff fun port frames => isCorePort controller port.1 port.2 = true →
    ((mean frames).bind (buildConvFn pktSize timeFrame units)).isSome

theorem isSome_calcIngressUtil_iff (hnames : Function.Injective controller.mapDpidToSw) :
    (calcIngressUtil controller statsDict pktSize timeFrame units).isSome ↔ ∀ port counts,
      statsDict.get? port = some counts → isHostPort controller port.1 port.2 = true →
        2 ≤ counts.length ∧ timeFrame ≠ 0 := by
  rw [calcIngressUtil, calcUplinkPortUtilPps, isSome_converted_iff (ownPlaces_hostPlace hnames)]
  simp only [isSome_hostPlace, isHostPort, ← isSome_bind_mean pktSize timeFrame units]
  exact forall_timeframes_iff fun port frames => (!isCorePort controller port.1 port.2) = true →
    ((mean frames).bind (buildConvFn pktSize timeFrame units)).isSome

/-- The value of a port in a table in which it has a place. -/
theorem get2?_of_place {κ : Type} [DecidableEq κ] {place : (Int × Int) × List Int → Option (Text × κ)}
    (hown : Dict.OwnPlaces place (computeTimeframes statsDict).entries) {table : Dict Text (Dict κ ℚ)}
    (h : (Dict.fillIn place (fun entry => mean entry.2) (computeTimeframes statsDict).entries).bind
      (convertStats (buildConvFn pktSize timeFrame units)) = some table) {port : Int × Int} {counts : List Int}
    (hget : statsDict.get? port = some counts) {x : Text × κ} (hx : place (port, differences counts) = some x) :
    table.get2? x.1 x.2 = buildConvFn pktSize timeFrame units (growth counts) := by
  have hsome := (isSome_converted_iff hown).mp (by rw [h]; rfl) _ (mem_timeframes hget) (by rw [hx]; rfl)
  have htwo := ((isSome_bind_mean pktSize timeFrame units counts).mp hsome).1
  obtain ⟨v, hv⟩ := Option.isSome_iff_exists.mp hsome
  rw [(get2?_converted hown h x v).mpr ⟨_, mem_timeframes hget, hx, hv⟩, ← hv, mean_differences htwo, Option.bind_some]

/-- The values of the time frames, whose mean is reported otherwise. -/
theorem exists_values (hframe : timeFrame ≠ 0) {counts : List Int} (htwo : 2 ≤ counts.length) :
    ∃ values : List ℚ,
      ((differences counts).mapM fun count : Int => buildConvFn pktSize timeFrame units count) = some values ∧
        buildConvFn pktSize timeFrame units (growth counts) = some (values.sum / values.length) := by
  obtain ⟨factor, hfactor⟩ := exists_factor hframe pktSize units
  refine ⟨(differences counts).map fun count : Int => (count : ℚ) * factor, ?_, ?_⟩
  · simp only [hfactor]
    exact List.mapM_pure
  · have hsum : ((differences counts).map fun count : Int => (count : ℚ) * factor).sum =
        ((differences counts).sum : ℚ) * factor := by
      rw [List.sum_map_mul_right, Int.cast_list_sum]
    rw [hfactor, hsum, List.length_map, length_differences, sum_differences, growth, Nat.cast_sub (by omega)]
    push_cast
    congr 1
    ring

end Ports

/-- Every port in the dictionary is reported, once: with its link if it leads to another switch and with its number
otherwise, and with what its counter grew by in a time frame, which is the mean of what is reported for the single time
frames. The computations raise exactly when a port that they report has less than two samples or the time frame is
zero. -/
theorem every_port_reported (controller : Controller) (hnames : Function.Injective controller.mapDpidToSw)
    (statsDict : Dict (Int × Int) (List Int)) (pktSize timeFrame : ℚ) (units : Units) :
    ((calcLinkUtil controller statsDict pktSize timeFrame units).isSome ↔ ∀ port counts,
      statsDict.get? port = some counts → isCorePort controller port.1 port.2 = true →
        2 ≤ counts.length ∧ timeFrame ≠ 0) ∧
    ((calcIngressUtil controller statsDict pktSize timeFrame units).isSome ↔ ∀ port counts,
      statsDict.get? port = some counts → isHostPort controller port.1 port.2 = true →
        2 ≤ counts.length ∧ timeFrame ≠ 0) ∧
    ∀ links hosts, calcLinkUtil controller statsDict pktSize timeFrame units = some links →
      calcIngressUtil controller statsDict pktSize timeFrame units = some hosts →
        links.items2.length + hosts.items2.length = statsDict.entries.length ∧
        ∀ port counts, statsDict.get? port = some counts →
          (∀ link, getLink controller port.1 port.2 = some link →
            links.get2? (controller.mapDpidToSw link.1) (controller.mapDpidToSw link.2) =
              buildConvFn pktSize timeFrame units (growth counts) ∧
            ∀ linksPerT, calcLinkUtilPerT controller statsDict pktSize timeFrame units = some linksPerT →
              ∃ values, linksPerT.get2? (controller.mapDpidToSw link.1) (controller.mapDpidToSw link.2) = some values ∧
                links.get2? (controller.mapDpidToSw link.1) (controller.mapDpidToSw link.2) =
                  some (values.sum / values.length)) ∧
          (isHostPort controller port.1 port.2 = true →
            hosts.get2? (controller.mapDpidToSw port.1) port.2 =
              buildConvFn pktSize timeFrame units (growth counts)) := by
  refine ⟨isSome_calcLinkUtil_iff hnames, isSome_calcIngressUtil_iff hnames, fun links hosts hlinks hhosts => ⟨?_, ?_⟩⟩
  · rw [length_converted (ownPlaces_linkPlace hnames) hlinks, length_converted (ownPlaces_hostPlace hnames) hhosts]
    exact length_places statsDict
  intro port counts hget
  refine ⟨fun link hlink => ?_, fun hhost => ?_⟩
  · have hplace : linkPlace controller (port, differences counts) =
        some (controller.mapDpidToSw link.1, controller.mapDpidToSw link.2) := by
      rw [linkPlace, getFriendlyLink, hlink]
      rfl
    have hvalue := get2?_of_place (ownPlaces_linkPlace hnames) hlinks hget hplace
    refine ⟨hvalue, fun linksPerT hperT => ?_⟩
    have hcore : isCorePort controller port.1 port.2 = true := by rw [isCorePort, hlink]; rfl
    obtain ⟨htwo, hframe⟩ := (isSome_calcLinkUtil_iff hnames).mp (by rw [hlinks]; rfl) port counts hget hcore
    obtain ⟨values, hvalues, hmean⟩ := @exists_values pktSize timeFrame units hframe counts htwo
    refine ⟨values, ?_, hvalue.trans hmean⟩
    exact (get2?_converted (ownPlaces_linkPlace hnames) hperT _ values).mpr ⟨_, mem_timeframes hget, hplace, hvalues⟩
  · have hplace : hostPlace controller (port, differences counts) = some (controller.mapDpidToSw port.1, port.2) := by
      rw [hostPlace, hostName, if_pos hhost]
    exact get2?_of_place (ownPlaces_hostPlace hnames) hhosts hget hplace

/-- Two switches, which are connected at their first ports. -/
def twoSwitches : Controller where
  topology := [⟨1, 2, 1⟩, ⟨2, 1, 1⟩]
  mapDpidToSw := fun dpid => "sw_".toList ++ formatD dpid

theorem mapDpidToSw_injective : Function.Injective twoSwitches.mapDpidToSw := by
  intro dpid dpid' h
  have hdigits : formatD dpid = formatD dpid' := List.append_cancel_left h
  have hread := congrArg Lib.int hdigits
  rw [int_formatD, int_formatD] at hread
  exact Option.some.inj hread

/-- The samples of the port between the switches and of one that leads to a host. -/
def sampleCounts : Dict (Int × Int) (List Int) := .ofList [((1, 1), [0, 10, 30]), ((1, 2), [7, 8])]

theorem every_port_reported_twoSwitches : ∃ links hosts,
    calcLinkUtil twoSwitches sampleCounts 1000 10 .packetsPerSecond = some links ∧
    calcIngressUtil twoSwitches sampleCounts 1000 10 .packetsPerSecond = some hosts ∧
    links.items2.length + hosts.items2.length = 2 ∧
    links.get2? "sw_1".toList "sw_2".toList = some (3 / 2) ∧ hosts.get2? "sw_1".toList 2 = some (1 / 10) := by
  obtain ⟨hlinks, hhosts, hboth⟩ :=
    every_port_reported twoSwitches mapDpidToSw_injective sampleCounts 1000 10 .packetsPerSecond
  have hcounts : ∀ port counts, sampleCounts.get? port = some counts → 2 ≤ counts.length := by
    intro port counts hget
    have hmem : (port, counts) ∈ [(((1, 1), [0, 10, 30]) : (Int × Int) × List Int), ((1, 2), [7, 8])] :=
      Dict.get?_eq_some_iff.mp hget
    rcases List.mem_pair.mp hmem with heq | heq <;> cases heq <;> decide
  obtain ⟨links, hlinks⟩ := Option.isSome_iff_exists.mp
    (hlinks.mpr fun port counts hget _ => ⟨hcounts port counts hget, by decide +kernel⟩)
  obtain ⟨hosts, hhosts⟩ := Option.isSome_iff_exists.mp
    (hhosts.mpr fun port counts hget _ => ⟨hcounts port counts hget, by decide +kernel⟩)
  obtain ⟨hlength, hvalues⟩ := hboth links hosts hlinks hhosts
  have hlink := ((hvalues (1, 1) [0, 10, 30] rfl).1 (1, 2) (by decide +kernel)).1
  have hhost := (hvalues (1, 2) [7, 8] rfl).2 (by decide +kernel)
  refine ⟨links, hosts, hlinks, hhosts, hlength, hlink.trans ?_, hhost.trans ?_⟩ <;> decide +kernel

/-! ### After the monitor was stopped -/

section Monitored

/-- Every answer of a switch reports the same ports. -/
def SamePorts (answered : List (Int × PortStatsResponse)) : Prop :=
  ∀ answer ∈ answered, ∀ answer' ∈ answered, answer.1 = answer'.1 → ∀ port,
    ((getTxPackets answer.2).bind (·.get? port)).isSome → ((getTxPackets answer'.2).bind (·.get? port)).isSome

variable {monDpids : List Int} {state : State}

theorem length_reported {answered : List (Int × PortStatsResponse)} (hports : SamePorts answered) {port : Int × Int}
    (hne : reported getTxPackets answered port ≠ []) :
    (reported getTxPackets answered port).length = (answered.map Prod.fst).count port.1 := by
  obtain ⟨count, hcount⟩ := List.exists_mem_of_ne_nil _ hne
  obtain ⟨answer, hanswer, hsome⟩ := List.mem_filterMap.mp hcount
  obtain ⟨hmem, hdpid⟩ := List.mem_filter.mp hanswer
  have hall : ∀ answer' ∈ answered.filter (·.1 = port.1), ((getTxPackets answer'.2).bind (·.get? port.2)).isSome := by
    intro answer' hanswer'
    obtain ⟨hmem', hdpid'⟩ := List.mem_filter.mp hanswer'
    have hsame : answer.1 = answer'.1 := (of_decide_eq_true hdpid).trans (of_decide_eq_true hdpid').symm
    exact hports answer hmem answer' hmem' hsame port.2 (by rw [hsome]; rfl)
  rw [reported, List.length_filterMap_eq_countP, List.countP_eq_length.mpr hall, ← List.countP_eq_length_filter,
    List.count, List.countP_map]
  rfl

/-- Every round has a sample of every port. -/
theorem le_length_reported (h : ManagedReachable monDpids state) (hstopped : state.stopped = state.started)
    (hports : SamePorts state.answered) {port : Int × Int} (hne : reported getTxPackets state.answered port ≠ []) :
    state.started + 1 ≤ (reported getTxPackets state.answered port).length := by
  obtain ⟨-, rounds, hrounds, hasked⟩ := h.lists_eq hstopped
  have hmem : port.1 ∈ monDpids := by
    obtain ⟨count, hcount⟩ := List.exists_mem_of_ne_nil _ hne
    obtain ⟨answer, hanswer, -⟩ := List.mem_filterMap.mp hcount
    obtain ⟨hmem, hdpid⟩ := List.mem_filter.mp hanswer
    have hasked' : port.1 ∈ state.answered.map Prod.fst := List.mem_map.mpr ⟨answer, hmem, of_decide_eq_true hdpid⟩
    rw [hasked, List.mem_flatten] at hasked'
    obtain ⟨round, hround, hdpid'⟩ := hasked'
    rwa [(List.mem_replicate.mp hround).2] at hdpid'
  have hcount : (List.replicate rounds monDpids).flatten.count port.1 = rounds * monDpids.count port.1 := by
    rw [List.count_flatten, List.map_replicate, List.sum_replicate_nat]
  rw [length_reported hports hne, hasked, hcount]
  exact hrounds.trans (Nat.le_mul_of_pos_right rounds (List.count_pos_iff.mpr hmem))

end Monitored

/-- In every run of a program that starts the monitor only when it is stopped: once it has been started and stopped,
its lists are those of whole rounds, and when the switches report the same ports in all of them `calc_link_util` does
not raise and reports for a link what the counter of the link's port grew by in a time frame between the first and the
last answer of the switch. -/
theorem utilization_after_stop (controller : Controller) (hnames : Function.Injective controller.mapDpidToSw)
    (monDpids : List Int) (state : State) (h : ManagedReachable monDpids state)
    (hstopped : state.stopped = state.started) (hstarted : 0 < state.started) :
    (updateStatLists .empty state.answered = some state.lists ∧ ∃ rounds ≥ state.started + 1,
      state.answered.map Prod.fst = (List.replicate rounds monDpids).flatten) ∧
    (SamePorts state.answered → ∀ (pktSize timeFrame : ℚ) (units : Units), timeFrame ≠ 0 →
      ∃ links, calcLinkUtil controller state.lists.txStatsList pktSize timeFrame units = some links ∧
        ∀ port link, getLink controller port.1 port.2 = some link → reported getTxPackets state.answered port ≠ [] →
          state.started + 1 ≤ (reported getTxPackets state.answered port).length ∧
          links.get2? (controller.mapDpidToSw link.1) (controller.mapDpidToSw link.2) =
            buildConvFn pktSize timeFrame units (growth (reported getTxPackets state.answered port))) := by
  refine ⟨h.lists_eq hstopped, fun hports pktSize timeFrame units hframe => ?_⟩
  have hlists := (h.lists_eq hstopped).1
  have hget : ∀ port counts, state.lists.txStatsList.get? port = some counts →
      counts = reported getTxPackets state.answered port := by
    intro port counts hget
    rw [← listOf_updateStatLists hlists, listOf, hget]
    rfl
  have hsome : (calcLinkUtil controller state.lists.txStatsList pktSize timeFrame units).isSome := by
    refine (isSome_calcLinkUtil_iff hnames).mpr fun port counts hcounts _ => ⟨?_, hframe⟩
    have hne := all_updateStatLists hlists port counts hcounts
    rw [hget port counts hcounts] at hne ⊢
    have hle := le_length_reported h hstopped hports hne
    omega
  obtain ⟨links, hlinks⟩ := Option.isSome_iff_exists.mp hsome
  refine ⟨links, hlinks, fun port link hlink hne => ⟨le_length_reported h hstopped hports hne, ?_⟩⟩
  have hcounts : state.lists.txStatsList.get? port = some (reported getTxPackets state.answered port) := by
    rw [← listOf_updateStatLists hlists] at hne ⊢
    rw [listOf] at hne ⊢
    cases hentry : state.lists.txStatsList.get? port with
    | none => simp [hentry] at hne
    | some counts => rfl
  have hplace : linkPlace controller (port, differences (reported getTxPackets state.answered port)) =
      some (controller.mapDpidToSw link.1, controller.mapDpidToSw link.2) := by
    rw [linkPlace, getFriendlyLink, hlink]
    rfl
  exact get2?_of_place (ownPlaces_linkPlace hnames) hlinks hcounts hplace

/-- A switch with one port that has sent so many packets. -/
def onePort (txPackets : Int) : PortStatsResponse := .ofList [("1".toList, [⟨.number 1, 0, txPackets⟩])]

/-- The monitor of that switch, after it was started and stopped. -/
def startedAndStopped : State :=
  ⟨((((StatLists.empty.append ⟨.tx, (1, 1), 5⟩).append ⟨.rx, (1, 1), 0⟩).append ⟨.tx, (1, 1), 25⟩).append
      ⟨.rx, (1, 1), 0⟩), false, [], false, [(1, onePort 5), (1, onePort 25)], 1, 1⟩

theorem managedReachable_startedAndStopped : ManagedReachable [1] startedAndStopped := by
  have hmanaged : ∀ {state later : State}, Step [1] state later → later.started = state.started →
      Managed [1] state later := fun hstep hsame => ⟨hstep, fun hlt => absurd hsame hlt.ne'⟩
  let lists : StatLists := (StatLists.empty.append ⟨.tx, (1, 1), 5⟩).append ⟨.rx, (1, 1), 0⟩
  let answered : List (Int × PortStatsResponse) := [(1, onePort 5), (1, onePort 25)]
  refine ⟨⟨lists, false, [], false, [(1, onePort 5)], 0, 0⟩, .mk rfl rfl, ?_⟩
  have hstart : Managed [1] ⟨lists, false, [], false, [(1, onePort 5)], 0, 0⟩
      ⟨lists, false, [.waiting], false, [(1, onePort 5)], 1, 0⟩ := ⟨.startMonitor rfl, fun _ => rfl⟩
  have hfire : Step [1] ⟨lists, false, [.waiting], false, [(1, onePort 5)], 1, 0⟩
      ⟨lists, false, [.polling [1] []], false, [(1, onePort 5)], 1, 0⟩ := @Step.fire [1] _ [] [] rfl
  have hanswer : Step [1] ⟨lists, false, [.polling [1] []], false, [(1, onePort 5)], 1, 0⟩
      ⟨lists, false, [.polling [] [⟨.tx, (1, 1), 25⟩, ⟨.rx, (1, 1), 0⟩]], false, answered, 1, 0⟩ :=
    @Step.answer [1] _ [] [] 1 [] (onePort 25) _ rfl rfl
  have htx : Step [1] ⟨lists, false, [.polling [] [⟨.tx, (1, 1), 25⟩, ⟨.rx, (1, 1), 0⟩]], false, answered, 1, 0⟩
      ⟨lists.append ⟨.tx, (1, 1), 25⟩, false, [.polling [] [⟨.rx, (1, 1), 0⟩]], false, answered, 1, 0⟩ :=
    @Step.append [1] _ [] [] [] _ _ rfl
  -- the event is set while the thread is polling
  have hstop : Step [1]
      ⟨lists.append ⟨.tx, (1, 1), 25⟩, false, [.polling [] [⟨.rx, (1, 1), 0⟩]], false, answered, 1, 0⟩
      ⟨lists.append ⟨.tx, (1, 1), 25⟩, true, [.polling [] [⟨.rx, (1, 1), 0⟩]], true, answered, 1, 0⟩ :=
    .stopMonitor rfl
  have hrx : Step [1]
      ⟨lists.append ⟨.tx, (1, 1), 25⟩, true, [.polling [] [⟨.rx, (1, 1), 0⟩]], true, answered, 1, 0⟩
      ⟨startedAndStopped.lists, true, [.polling [] []], true, answered, 1, 0⟩ :=
    @Step.append [1] _ [] [] [] ⟨.rx, (1, 1), 0⟩ [] rfl
  have hpolled : Step [1] ⟨startedAndStopped.lists, true, [.polling [] []], true, answered, 1, 0⟩
      ⟨startedAndStopped.lists, true, [.checking], true, answered, 1, 0⟩ := @Step.polled [1] _ [] [] rfl
  have hseen : Step [1] ⟨startedAndStopped.lists, true, [.checking], true, answered, 1, 0⟩
      ⟨startedAndStopped.lists, true, [.clearing], true, answered, 1, 0⟩ := @Step.stopSeen [1] _ [] [] rfl rfl
  have hclear : Step [1] ⟨startedAndStopped.lists, true, [.clearing], true, answered, 1, 0⟩
      ⟨startedAndStopped.lists, false, [], true, answered, 1, 0⟩ := @Step.clear [1] _ [] [] rfl
  have hreturns : Step [1] ⟨startedAndStopped.lists, false, [], true, answered, 1, 0⟩ startedAndStopped :=
    .stopReturns rfl rfl
  exact .head hstart (.head (hmanaged hfire rfl) (.head (hmanaged hanswer rfl) (.head (hmanaged htx rfl)
    (.head (hmanaged hstop rfl) (.head (hmanaged hrx rfl) (.head (hmanaged hpolled rfl) (.head (hmanaged hseen rfl)
      (.head (hmanaged hclear rfl) (.single (hmanaged hreturns rfl))))))))))

theorem utilization_after_stop_twoSwitches :
    updateStatLists .empty startedAndStopped.answered = some startedAndStopped.lists ∧ ∃ links,
      calcLinkUtil twoSwitches startedAndStopped.lists.txStatsList 1000 10 .packetsPerSecond = some links ∧
        links.get2? "sw_1".toList "sw_2".toList = some 2 := by
  have hports : SamePorts startedAndStopped.answered := by
    have htx : ∀ answer ∈ startedAndStopped.answered, ∀ port,
        ((getTxPackets answer.2).bind (·.get? port)).isSome ↔ port = 1 := by
      intro answer hanswer port
      have hone : ∀ n, ((getTxPackets (onePort n)).bind (·.get? port)).isSome ↔ port = 1 := by
        intro n
        have hread : getTxPackets (onePort n) = some (Dict.empty.set 1 n) := rfl
        rw [hread, Option.bind_some, Dict.get?_set]
        split <;> rename_i heq <;> simp [heq]
      rcases List.mem_pair.mp hanswer with rfl | rfl <;> exact hone _
    intro answer hanswer answer' hanswer' _ port hsome
    exact (htx answer' hanswer' port).mpr ((htx answer hanswer port).mp hsome)
  obtain ⟨hlists, hcomputed⟩ := utilization_after_stop twoSwitches mapDpidToSw_injective [1] startedAndStopped
    managedReachable_startedAndStopped rfl Nat.one_pos
  obtain ⟨links, hlinks, hvalues⟩ := hcomputed hports 1000 10 .packetsPerSecond (by decide +kernel)
  refine ⟨hlists.1, links, hlinks,
    ((hvalues (1, 1) (1, 2) (by decide +kernel) (by decide +kernel)).2).trans ?_⟩
  decide +kernel

end OfTestbed.PortStatistics
