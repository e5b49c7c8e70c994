import OfTestbed.LibDefaultDict
import OfTestbed.LibJson
import OfTestbed.LibText

/-!
The utilization file of a mirroring trial: what the monitor keeps of the controller's answer (`OnMonitor` in
`nw_control/stat_monitor.py`), the file that the trial writes of it, and the reader of the plots
(`data_visualization/helpers.py`). `none` is an exception; `json.dumps` and `json.loads` are parameters.
-/

namespace OfTestbed.Utilization

open Lib

/-- Values of directed links, by source and by destination. -/
abbrev PerLink (ν : Type) := Dict Json.Key (Dict Json.Key ν)

/-- The answer to `stop_monitor` stands in the attribute `_stop_monitor_response`, which is `none` before. -/
def getMonitorStatistics (stopMonitorResponse : Option Json) : Option Json := do
  let snapshots ← (← stopMonitorResponse).iter
  let statistics ← snapshots.mapM fun d => do (← d.get? "netUtilStats").get? "utilizationStats"
  return .arr statistics

/-- The entry `utilization-results.txt` of `build_results_files`. -/
def utilizationText (dumps : Json → Text) (utilizationResults : Json) : Text := dumps utilizationResults

def readJsonResponse (loads : Text → Option Json) (text : Text) : Option Json := loads text

/-- One turn of the loop over the links of a snapshot. -/
def addByteCount (byteCounts : PerLink Json) (resultsSet : Json) : Option (PerLink Json) := do
  let sourceSwitch ← resultsSet.get? "sourceSwitchId"
  let destinationSwitch ← resultsSet.get? "destinationSwitchId"
  let count ← (← resultsSet.get? "bytesSent").add (← resultsSet.get? "bytesReceived")
  return byteCounts.set2 (← sourceSwitch.key?) (← destinationSwitch.key?) count

/-- The byte counts of one snapshot. -/
def byteCountsOf (linkUtilDict : Json) : Option (PerLink Json) := do
  let resultsList ← (← (← linkUtilDict.get? "netUtilStats").get? "utilizationStats").iter
  resultsList.foldlM addByteCount .empty

def computeInitialByteCounts (byteCountsPerTimePeriod : List (PerLink Json)) : Option (PerLink Json) :=
  byteCountsPerTimePeriod.head?

/-- One turn of the loops of `subtract_counts`. A link that `count_b` misses is a `KeyError`, which is caught: the
link is left out. -/
def subtractCount (countB : PerLink Json) (s d : Json.Key) (diff : PerLink ℚ) (b : Json) : Option (PerLink ℚ) :=
  match countB.get2? s d with
  | none => some diff
  | some last => do return diff.set2 s d ((← b.number) - (← last.number))

def subtractCounts (countA countB : PerLink Json) : Option (PerLink ℚ) :=
  countA.entries.foldlM (fun diff (s, t) =>
    t.entries.foldlM (fun diff (d, b) => subtractCount countB s d diff b) diff) .empty

def computeUtilizationFromByteCounts (byteCount : PerLink ℚ) (linkCapacity : ℚ) : PerLink ℚ :=
  byteCount.mapValues fun t => t.mapValues (· / linkCapacity)

/-- One turn of the loop over consecutive snapshots. -/
def utilBetween (lastCount currentCount : PerLink Json) : Option (PerLink ℚ) := do
  let differentialCount ← subtractCounts currentCount lastCount
  return computeUtilizationFromByteCounts differentialCount 10

def computeNetworkUtilOverTime (utilResults : Json) : Option (List (PerLink ℚ)) := do
  let byteCountsPerTimePeriod ← (← utilResults.iter).mapM byteCountsOf
  let _ ← computeInitialByteCounts byteCountsPerTimePeriod
  (byteCountsPerTimePeriod.zip byteCountsPerTimePeriod.tail).mapM fun (lastCount, currentCount) =>
    utilBetween lastCount currentCount

/-- What `read_results` makes of the text of the file. -/
def readNetUtilization (loads : Text → Option Json) (text : Text) : Option (List (PerLink ℚ)) := do
  let utilizationJson ← readJsonResponse loads text
  computeNetworkUtilOverTime utilizationJson

/-! ### Byte counts -/

/-- An entry for a directed link. -/
structure LinkStats where
  sourceSwitchId : Json.Key
  destinationSwitchId : Json.Key
  bytesSent : ℚ
  bytesReceived : ℚ

namespace LinkStats

def link (stats : LinkStats) : Json.Key × Json.Key := (stats.sourceSwitchId, stats.destinationSwitchId)

def count (stats : LinkStats) : ℚ := stats.bytesSent + stats.bytesReceived

/-- The entry that a dictionary describes, whatever else it holds. -/
def ofJson (entry : Json) : Option LinkStats := do
  let sourceSwitchId ← (← entry.get? "sourceSwitchId").key?
  let destinationSwitchId ← (← entry.get? "destinationSwitchId").key?
  let bytesSent ← (← entry.get? "bytesSent").number
  let bytesReceived ← (← entry.get? "bytesReceived").number
  return ⟨sourceSwitchId, destinationSwitchId, bytesSent, bytesReceived⟩

/-- The count of a link in a snapshot. -/
def countOf (links : List LinkStats) (link : Json.Key × Json.Key) : Option ℚ :=
  (links.find? (·.link = link)).map count

end LinkStats

/-- The controller's snapshot lists the links, each of them once. -/
def Lists (snapshot : Json) (links : List LinkStats) : Prop :=
  (∃ entries, (snapshot.get? "netUtilStats").bind (·.get? "utilizationStats") = some (.arr entries) ∧
    entries.mapM LinkStats.ofJson = some links) ∧ (links.map LinkStats.link).Nodup

/-- The difference of the counts of a link in two snapshots. -/
def difference (last current : List LinkStats) (link : Json.Key × Json.Key) : Option ℚ :=
  (LinkStats.countOf last link).bind fun before => (LinkStats.countOf current link).map fun after => after - before

/-- For every two snapshots in a row, the difference of the counts of the links in both, divided by ten. -/
def IsUtilOverTime (snapshots : List (List LinkStats)) (utils : List (PerLink ℚ)) : Prop :=
  utils.length = snapshots.length - 1 ∧
  ∀ t last current util, snapshots[t]? = some last → snapshots[t + 1]? = some current → utils[t]? = some util →
    ∀ s d, util.get2? s d = (difference last current (s, d)).map (· / 10)

theorem add_of_number {left right : Json} {q r : ℚ} (hleft : left.number = some q) (hright : right.number = some r) :
    left.add right = some (.num (q + r)) := by
  cases left with
  | bool b => simp [Json.add, hleft, hright]
  | num p => simp [Json.add, hleft, hright]
  | _ => cases hleft

theorem addByteCount_of_ofJson {entry : Json} {stats : LinkStats} (h : LinkStats.ofJson entry = some stats)
    (byteCounts : PerLink Json) : addByteCount byteCounts entry =
      some (byteCounts.set2 stats.sourceSwitchId stats.destinationSwitchId (.num stats.count)) := by
  simp only [LinkStats.ofJson, Option.bind_eq_bind, Option.bind_eq_some_iff, Option.pure_def,
    Option.some.injEq] at h
  obtain ⟨sourceJson, hsource, source, hsourceKey, destinationJson, hdestination, destination, hdestinationKey,
    sentJson, hsent, sent, hsentNumber, receivedJson, hreceived, received, hreceivedNumber, rfl⟩ := h
  simp only [addByteCount, hsource, hdestination, hsent, hreceived, add_of_number hsentNumber hreceivedNumber,
    hsourceKey, hdestinationKey, Option.bind_eq_bind, Option.bind_some, Option.pure_def, LinkStats.count]

/-- The counts of a snapshot, link by link. -/
def Counts (counts : PerLink Json) (links : List LinkStats) : Prop :=
  ∀ s d, counts.get2? s d = (LinkStats.countOf links (s, d)).map Json.num

/-- One turn of the loop over the links, for an entry that can be read. -/
def putCount (counts : PerLink Json) (stats : LinkStats) : PerLink Json :=
  counts.set2 stats.sourceSwitchId stats.destinationSwitchId (.num stats.count)

theorem counts_foldl_putCount {links : List LinkStats} (hnodup : (links.map LinkStats.link).Nodup) :
    Counts (links.foldl putCount .empty) links := by
  have hturn : ∀ stats ∈ links, ∀ counts : PerLink Json,
      ∃ counts', some (putCount counts stats) = some counts' ∧ ∀ link : Json.Key × Json.Key,
        counts'.get2? link.1 link.2 =
          (if link = stats.link then some (Json.num stats.count) else none).or (counts.get2? link.1 link.2) := by
    intro stats _ counts
    exact ⟨_, rfl, Dict.get2?_set2_pair counts stats.link (.num stats.count)⟩
  obtain ⟨final, hfinal, hlook⟩ := foldlM_keyed (fun (counts : PerLink Json) link => counts.get2? link.1 link.2)
    LinkStats.link (fun stats => some (Json.num stats.count)) hnodup hturn .empty
  have hfold : links.foldl putCount .empty = final := Option.some.inj (List.foldlM_pure.symm.trans hfinal)
  intro s d
  rw [hfold, hlook (s, d), Dict.get2?_empty, Option.or_none, LinkStats.countOf, Option.map_map]
  exact Option.map_eq_bind.symm

theorem exists_byteCountsOf {snapshot : Json} {links : List LinkStats} (h : Lists snapshot links) :
    ∃ counts, byteCountsOf snapshot = some counts ∧ Counts counts links := by
  obtain ⟨⟨entries, hentries, hread⟩, hnodup⟩ := h
  have hloop := foldlM_of_mapM (fun counts entry stats hstats => addByteCount_of_ofJson hstats counts) hread .empty
  refine ⟨links.foldl putCount .empty, ?_, counts_foldl_putCount hnodup⟩
  obtain ⟨netUtilStats, hnet, hstats⟩ := Option.bind_eq_some_iff.mp hentries
  rw [byteCountsOf, hnet]
  simp only [Option.bind_eq_bind, Option.bind_some, hstats, Json.iter]
  exact hloop

theorem subtractCounts_eq (countA countB : PerLink Json) : subtractCounts countA countB =
    countA.items2.foldlM (fun diff item => subtractCount countB item.1.1 item.1.2 diff item.2) .empty := by
  rw [subtractCounts, Dict.items2, foldlM_flatMap]
  simp only [List.foldlM_map]

theorem exists_subtractCount {countB : PerLink Json} {last : List LinkStats} (hlast : Counts countB last)
    (link : Json.Key × Json.Key) (diff : PerLink ℚ) (after : ℚ) :
    ∃ diff', subtractCount countB link.1 link.2 diff (.num after) = some diff' ∧ ∀ link', diff'.get2? link'.1 link'.2 =
      (if link' = link then (LinkStats.countOf last link).map fun before => after - before else none).or
        (diff.get2? link'.1 link'.2) := by
  rw [subtractCount, hlast link.1 link.2]
  cases hcount : LinkStats.countOf last link with
  | none => exact ⟨diff, rfl, fun link' => by rw [Option.map_none, ite_self, Option.none_or]⟩
  | some before => exact ⟨_, rfl, Dict.get2?_set2_pair diff link (after - before)⟩

theorem exists_subtractCounts {countA countB : PerLink Json} {current last : List LinkStats}
    (hcurrent : Counts countA current) (hlast : Counts countB last) :
    ∃ diff, subtractCounts countA countB = some diff ∧ ∀ s d, diff.get2? s d = difference last current (s, d) := by
  have hitem : ∀ item ∈ countA.items2, ∃ after, item.2 = .num after ∧
      LinkStats.countOf current item.1 = some after := by
    intro item hmem
    have hget := Dict.mem_items2.mp (show (item.1, item.2) ∈ countA.items2 from hmem)
    rw [hcurrent item.1.1 item.1.2] at hget
    obtain ⟨after, hafter, hnum⟩ := Option.map_eq_some_iff.mp hget
    exact ⟨after, hnum.symm, hafter⟩
  have hturn : ∀ item ∈ countA.items2, ∀ diff : PerLink ℚ, ∃ diff',
      subtractCount countB item.1.1 item.1.2 diff item.2 = some diff' ∧ ∀ link, diff'.get2? link.1 link.2 =
        (if link = item.1 then difference last current item.1 else none).or (diff.get2? link.1 link.2) := by
    intro item hmem diff
    obtain ⟨after, hnum, hafter⟩ := hitem item hmem
    obtain ⟨diff', hdiff', hlook⟩ := exists_subtractCount hlast item.1 diff after
    refine ⟨diff', hnum ▸ hdiff', fun link => ?_⟩
    rw [hlook link, difference, hafter]
    simp only [Option.map_eq_bind]
    rfl
  obtain ⟨diff, hdiff, hlook⟩ := foldlM_keyed (fun (diff : PerLink ℚ) link => diff.get2? link.1 link.2) Prod.fst
    (fun item => difference last current item.1) countA.nodup_items2 hturn .empty
  refine ⟨diff, (subtractCounts_eq countA countB).trans hdiff, fun s d => ?_⟩
  rw [hlook (s, d), Dict.get2?_empty, Option.or_none]
  -- a link that the current snapshot misses is in no item, and then its difference is missing too
  have hfind := Dict.find?_items2 countA (s, d)
  rw [hcurrent s d] at hfind
  cases hfound : countA.items2.find? (·.1 = (s, d)) with
  | none =>
      rw [hfound] at hfind
      have hnone : LinkStats.countOf current (s, d) = none := Option.map_eq_none_iff.mp hfind.symm
      simp [difference, hnone]
  | some item =>
      have hkey : item.1 = (s, d) := by simpa using List.find?_some hfound
      rw [Option.bind_some, hkey]

/-! ### The reader and what the monitor keeps -/

theorem exists_byteCounts {response : List Json} {snapshots : List (List LinkStats)}
    (h : List.Forall₂ Lists response snapshots) :
    ∃ byteCounts, response.mapM byteCountsOf = some byteCounts ∧ List.Forall₂ Counts byteCounts snapshots := by
  induction h with
  | nil => exact ⟨[], rfl, .nil⟩
  | cons hfirst _ ih =>
      obtain ⟨counts, hcounts, hspec⟩ := exists_byteCountsOf hfirst
      obtain ⟨rest, hrest, hspecs⟩ := ih
      refine ⟨counts :: rest, ?_, .cons hspec hspecs⟩
      rw [List.mapM_cons, hcounts, hrest]
      rfl

theorem exists_utilBetween {lastCount currentCount : PerLink Json} {last current : List LinkStats}
    (hlast : Counts lastCount last) (hcurrent : Counts currentCount current) :
    ∃ util, utilBetween lastCount currentCount = some util ∧
      ∀ s d, util.get2? s d = (difference last current (s, d)).map (· / 10) := by
  obtain ⟨diff, hdiff, hlook⟩ := exists_subtractCounts hcurrent hlast
  refine ⟨computeUtilizationFromByteCounts diff 10, ?_, fun s d => ?_⟩
  · rw [utilBetween, hdiff]
    rfl
  · rw [computeUtilizationFromByteCounts, Dict.get2?_mapValues, hlook]

theorem counts_of_getElem? {byteCounts : List (PerLink Json)} {snapshots : List (List LinkStats)}
    (h : List.Forall₂ Counts byteCounts snapshots) {t : Nat} {counts : PerLink Json}
    (ht : byteCounts[t]? = some counts) : ∃ links, snapshots[t]? = some links ∧ Counts counts links := by
  obtain ⟨hlength, hget⟩ := List.forall₂_iff_get.mp h
  obtain ⟨hlt, rfl⟩ := List.getElem?_eq_some_iff.mp ht
  exact ⟨_, List.getElem?_eq_getElem (hlength ▸ hlt), hget t hlt (hlength ▸ hlt)⟩

/-- The reader gives the utilization over time of what the controller answered. -/
theorem exists_computeNetworkUtilOverTime {response : List Json} {snapshots : List (List LinkStats)}
    (h : List.Forall₂ Lists response snapshots) (hne : response ≠ []) :
    ∃ utils, computeNetworkUtilOverTime (.arr response) = some utils ∧ IsUtilOverTime snapshots utils := by
  obtain ⟨byteCounts, hbyteCounts, hspecs⟩ := exists_byteCounts h
  have hpairs : ∀ pair ∈ byteCounts.zip byteCounts.tail, ∃ util, utilBetween pair.1 pair.2 = some util := by
    intro pair hpair
    obtain ⟨t, ht⟩ := List.mem_iff_getElem?.mp hpair
    obtain ⟨hfirst, hsecond⟩ := List.getElem?_zip_eq_some.mp ht
    rw [List.getElem?_tail] at hsecond
    obtain ⟨last, -, hlast⟩ := counts_of_getElem? hspecs hfirst
    obtain ⟨current, -, hcurrent⟩ := counts_of_getElem? hspecs hsecond
    obtain ⟨util, hutil, -⟩ := exists_utilBetween hlast hcurrent
    exact ⟨util, hutil⟩
  obtain ⟨utils, hutils⟩ := exists_mapM hpairs
  have hlength : byteCounts.length = snapshots.length := hspecs.length_eq
  refine ⟨utils, ?_, ?_, ?_⟩
  · have hhead : ∃ first, byteCounts.head? = some first := by
      cases byteCounts with
      | nil => exact absurd (List.length_eq_zero_iff.mp (length_of_mapM hbyteCounts).symm) hne
      | cons first rest => exact ⟨first, rfl⟩
    obtain ⟨first, hfirst⟩ := hhead
    rw [computeNetworkUtilOverTime]
    simp only [Json.iter, hbyteCounts, computeInitialByteCounts, hfirst, Option.bind_eq_bind, Option.bind_some]
    exact hutils
  · rw [length_of_mapM hutils, List.length_zip, List.length_tail, hlength]
    omega
  · intro t last current util ht hnext hutil
    have hpair : ∃ counts counts', byteCounts[t]? = some counts ∧ byteCounts[t + 1]? = some counts' := by
      have hlt := (List.getElem?_eq_some_iff.mp hnext).1
      rw [← hlength] at hlt
      exact ⟨_, _, List.getElem?_eq_getElem (by omega), List.getElem?_eq_getElem hlt⟩
    obtain ⟨counts, counts', hcounts, hcounts'⟩ := hpair
    obtain ⟨last', hlast', hlastSpec⟩ := counts_of_getElem? hspecs hcounts
    obtain ⟨current', hcurrent', hcurrentSpec⟩ := counts_of_getElem? hspecs hcounts'
    cases ht.symm.trans hlast'
    cases hnext.symm.trans hcurrent'
    have hzip : (byteCounts.zip byteCounts.tail)[t]? = some (counts, counts') :=
      List.getElem?_zip_eq_some.mpr ⟨hcounts, by rw [List.getElem?_tail]; exact hcounts'⟩
    obtain ⟨util', hutil', hlook⟩ := exists_utilBetween hlastSpec hcurrentSpec
    rw [getElem?_of_mapM hutils, hzip, Option.bind_some, hutil'] at hutil
    cases hutil
    exact hlook

/-- What the monitor keeps of well-formed snapshots: a list of lists. -/
theorem getMonitorStatistics_eq {response : List Json} {snapshots : List (List LinkStats)}
    (h : List.Forall₂ Lists response snapshots) : ∃ lists : List (List Json),
      getMonitorStatistics (some (.arr response)) = some (.arr (lists.map Json.arr)) := by
  have hkept : ∃ lists : List (List Json),
      response.mapM (fun d => do (← d.get? "netUtilStats").get? "utilizationStats") = some (lists.map Json.arr) := by
    induction h with
    | nil => exact ⟨[], rfl⟩
    | cons hfirst _ ih =>
        obtain ⟨⟨entries, hentries, -⟩, -⟩ := hfirst
        obtain ⟨lists, hlists⟩ := ih
        refine ⟨entries :: lists, ?_⟩
        rw [List.mapM_cons, hlists]
        simp only [Option.bind_eq_bind, hentries]
        rfl
  obtain ⟨lists, hlists⟩ := hkept
  refine ⟨lists, ?_⟩
  rw [getMonitorStatistics]
  simp only [Json.iter, Option.bind_eq_bind, Option.bind_some] at hlists ⊢
  rw [hlists]
  rfl

theorem computeNetworkUtilOverTime_lists (lists : List (List Json)) :
    computeNetworkUtilOverTime (.arr (lists.map Json.arr)) = none := by
  cases lists with
  | nil => rfl
  | cons entries rest => rfl

/-- The monitor keeps lists, which the reader takes for the controller's objects: the file is rejected whatever the
controller answered. -/
theorem utilization_file_rejected (dumps : Json → Text) (loads : Text → Option Json) {response : List Json}
    {snapshots : List (List LinkStats)} (hresponse : List.Forall₂ Lists response snapshots)
    (hfaithful : ∀ statistics, getMonitorStatistics (some (.arr response)) = some statistics →
      loads (dumps statistics) = some statistics) :
    ¬ ∃ statistics utils, getMonitorStatistics (some (.arr response)) = some statistics ∧
      readNetUtilization loads (utilizationText dumps statistics) = some utils ∧ IsUtilOverTime snapshots utils := by
  intro haccepted
  obtain ⟨statistics, utils, hstatistics, hread, -⟩ := haccepted
  obtain ⟨lists, hlists⟩ := getMonitorStatistics_eq hresponse
  rw [readNetUtilization, utilizationText, readJsonResponse, hfaithful statistics hstatistics] at hread
  cases hstatistics.symm.trans hlists
  cases (computeNetworkUtilOverTime_lists lists).symm.trans hread

/-- The controller's entry for the link from switch 1 to switch 2. -/
def linkEntry (bytesSent bytesReceived : ℚ) : Json :=
  .obj [("sourceSwitchId", .str "of:1"), ("destinationSwitchId", .str "of:2"), ("bytesSent", .num bytesSent),
    ("bytesReceived", .num bytesReceived)]

/-- Two snapshots of a network with that link only. -/
def twoSnapshots : List Json :=
  [.obj [("netUtilStats", .obj [("utilizationStats", .arr [linkEntry 10 0])])],
    .obj [("netUtilStats", .obj [("utilizationStats", .arr [linkEntry 30 5])])]]

/-- What `json.dumps` writes for what the monitor keeps of them. -/
def twoSnapshotsText : Text :=
  ("[[\x7b\"sourceSwitchId\": \"of:1\", \"destinationSwitchId\": \"of:2\", \"bytesSent\": 10, " ++
    "\"bytesReceived\": 0\x7d], [\x7b\"sourceSwitchId\": \"of:1\", \"destinationSwitchId\": \"of:2\", " ++
    "\"bytesSent\": 30, \"bytesReceived\": 5\x7d]]").toList

/-- `json.loads` on that text. -/
def twoSnapshotsLoads (text : Text) : Option Json :=
  if text = twoSnapshotsText then some (.arr [.arr [linkEntry 10 0], .arr [linkEntry 30 5]]) else none

/-- The links of the two snapshots. -/
def twoSnapshotsLinks : List (List LinkStats) :=
  [[⟨.str "of:1", .str "of:2", 10, 0⟩], [⟨.str "of:1", .str "of:2", 30, 5⟩]]

theorem lists_twoSnapshots : List.Forall₂ Lists twoSnapshots twoSnapshotsLinks :=
  .cons ⟨⟨[linkEntry 10 0], rfl, rfl⟩, List.nodup_singleton _⟩
    (.cons ⟨⟨[linkEntry 30 5], rfl, rfl⟩, List.nodup_singleton _⟩ .nil)

theorem utilization_file_rejected_twoSnapshots :
    ¬ ∃ statistics utils, getMonitorStatistics (some (.arr twoSnapshots)) = some statistics ∧
      readNetUtilization twoSnapshotsLoads (utilizationText (fun _ => twoSnapshotsText) statistics) = some utils ∧
      IsUtilOverTime twoSnapshotsLinks utils :=
  utilization_file_rejected (fun _ => twoSnapshotsText) twoSnapshotsLoads lists_twoSnapshots fun _ hstatistics =>
    (if_pos rfl).trans hstatistics

/-- The file of the two snapshots is written, and its reader raises. -/
theorem two_snapshots_file_raises :
    getMonitorStatistics (some (.arr twoSnapshots)) = some (.arr [.arr [linkEntry 10 0], .arr [linkEntry 30 5]]) ∧
    readNetUtilization twoSnapshotsLoads (utilizationText (fun _ => twoSnapshotsText)
      (.arr [.arr [linkEntry 10 0], .arr [linkEntry 30 5]])) = none := by
  refine ⟨rfl, ?_⟩
  have hloads : twoSnapshotsLoads twoSnapshotsText = some (.arr ([[linkEntry 10 0], [linkEntry 30 5]].map Json.arr)) :=
    if_pos rfl
  rw [readNetUtilization, utilizationText, readJsonResponse, hloads]
  exact computeNetworkUtilOverTime_lists [[linkEntry 10 0], [linkEntry 30 5]]

end OfTestbed.Utilization
