import Mathlib.Algebra.Order.Field.Rat
import Mathlib.Data.Rat.Cast.Order
import Mathlib.Tactic.Linarith
import Mathlib.Tactic.Ring
import OfTestbed.LibDefaultDict

/-!
Link utilization from byte counters: the two copies of `compute_link_utilization_over_time`, in
`nw_control/stat_monitor.py` and in `path_hopping.py`. A snapshot lists the directed links with their counters; both
copies add up the differences of the two directions of a link under one key. They differ in what they count and in
the unit of the rate. Rates are exact rationals. `none` is an exception.
-/

namespace OfTestbed.Utilization

open Lib

variable {ι : Type} [LinearOrder ι]

structure IfaceStats (ι : Type) where
  sourceSwitchId : ι
  destinationSwitchId : ι
  bytesReceived : Int
  bytesSent : Int
  deriving DecidableEq

namespace IfaceStats

def link (stats : IfaceStats ι) : ι × ι := (stats.sourceSwitchId, stats.destinationSwitchId)

end IfaceStats

/-- `tuple(sorted((source_id, destination_id)))`. -/
def computeLinkKey (sourceId destinationId : ι) : ι × ι := (min sourceId destinationId, max sourceId destinationId)

/-- `none` is the `ValueError` for no or several matching entries. -/
def findMatchingIfaceStats (byteCount : List (IfaceStats ι)) (sourceId destinationId : ι) : Option (IfaceStats ι) :=
  match byteCount.filter fun d => d.sourceSwitchId = sourceId ∧ d.destinationSwitchId = destinationId with
  | [stats] => some stats
  | _ => none

/-- The difference of the counts of an entry and of its match; the `ValueError` for a missing match is caught. -/
def countDelta (count : IfaceStats ι → Int) (t1 : List (IfaceStats ι)) (ifaceStats : IfaceStats ι) : Int :=
  let t0Count := count ifaceStats
  let t1Count :=
    match findMatchingIfaceStats t1 ifaceStats.sourceSwitchId ifaceStats.destinationSwitchId with
    | some t1Stats => count t1Stats
    | none => t0Count
  t1Count - t0Count

/-- The differences of two snapshots, by link. -/
def byteCountDelta (count : IfaceStats ι → Int) (t0 t1 : List (IfaceStats ι)) : Dict (ι × ι) ℚ :=
  t0.foldl (fun delta ifaceStats => delta.addTo
    (computeLinkKey ifaceStats.sourceSwitchId ifaceStats.destinationSwitchId)
    (countDelta count t1 ifaceStats)) .empty

/-- The body that both copies share. -/
def linkUtilizationOverTime (count : IfaceStats ι → Int) (computeTxRate : ℚ → ℚ)
    (linkByteCounts : List (List (IfaceStats ι))) : List (Dict (ι × ι) ℚ) :=
  (linkByteCounts.zip linkByteCounts.tail).map fun (t0, t1) =>
    (byteCountDelta count t0 t1).mapValues computeTxRate

namespace StatMonitor

def computeTxRate (countInBytes : ℚ) : ℚ := countInBytes * 8 / 10 / 2 ^ 20

/-- Counts the bytes sent. -/
def computeLinkUtilizationOverTime (linkByteCounts : List (List (IfaceStats ι))) : List (Dict (ι × ι) ℚ) :=
  linkUtilizationOverTime IfaceStats.bytesSent computeTxRate linkByteCounts

end StatMonitor

namespace PathHopping

def computeTxRate (countInBytes : ℚ) : ℚ := countInBytes * 8 / 10 ^ 7

/-- Counts the bytes sent and received, and prints the length of the first snapshot. -/
def computeLinkUtilizationOverTime (linkByteCounts : List (List (IfaceStats ι))) : Option (List (Dict (ι × ι) ℚ)) :=
  match linkByteCounts with
  | [] => none
  | _ :: _ => some (linkUtilizationOverTime (fun stats => stats.bytesSent + stats.bytesReceived) computeTxRate
      linkByteCounts)

end PathHopping

/-! ### The differences of a link -/

/-- Every link is listed once in each direction. -/
structure ListsBothWays (snapshot : List (IfaceStats ι)) : Prop where
  nodup : (snapshot.map IfaceStats.link).Nodup
  ends_ne : ∀ stats ∈ snapshot, stats.sourceSwitchId ≠ stats.destinationSwitchId
  reverse : ∀ stats ∈ snapshot, ∃ back ∈ snapshot, back.link = stats.link.swap

omit [LinearOrder ι] in
theorem eq_of_link_eq {snapshot : List (IfaceStats ι)} (hnodup : (snapshot.map IfaceStats.link).Nodup)
    {stats stats' : IfaceStats ι} (h : stats ∈ snapshot) (h' : stats' ∈ snapshot) (hlink : stats.link = stats'.link) :
    stats = stats' :=
  List.inj_on_of_nodup_map hnodup h h' hlink

theorem findMatchingIfaceStats_eq_some {snapshot : List (IfaceStats ι)}
    (hnodup : (snapshot.map IfaceStats.link).Nodup) {stats : IfaceStats ι} (h : stats ∈ snapshot) :
    findMatchingIfaceStats snapshot stats.sourceSwitchId stats.destinationSwitchId = some stats := by
  have hfilter : snapshot.filter (fun d => d.sourceSwitchId = stats.sourceSwitchId ∧
      d.destinationSwitchId = stats.destinationSwitchId) = [stats] := by
    apply List.perm_singleton.mp
    apply (List.perm_ext_iff_of_nodup (hnodup.of_map.filter _) (List.nodup_singleton stats)).mpr
    intro d
    rw [List.mem_filter, List.mem_singleton, decide_eq_true_eq]
    constructor
    · intro hd
      exact eq_of_link_eq hnodup hd.1 h (Prod.ext hd.2.1 hd.2.2)
    · intro hd
      rw [hd]
      exact ⟨h, rfl, rfl⟩
  rw [findMatchingIfaceStats, hfilter]

theorem findMatchingIfaceStats_eq_none {snapshot : List (IfaceStats ι)} {sourceId destinationId : ι}
    (h : ∀ stats ∈ snapshot, stats.link ≠ (sourceId, destinationId)) :
    findMatchingIfaceStats snapshot sourceId destinationId = none := by
  have hfilter : snapshot.filter (fun d => d.sourceSwitchId = sourceId ∧ d.destinationSwitchId = destinationId) =
      [] := by
    apply List.filter_eq_nil_iff.mpr
    intro d hd hmatch
    rw [decide_eq_true_eq] at hmatch
    exact h d hd (Prod.ext hmatch.1 hmatch.2)
  rw [findMatchingIfaceStats, hfilter]

theorem computeLinkKey_eq_iff {u v u' v' : ι} :
    computeLinkKey u v = computeLinkKey u' v' ↔ (u = u' ∧ v = v') ∨ (u = v' ∧ v = u') := by
  rw [computeLinkKey, computeLinkKey, Prod.mk.injEq]
  rcases le_total u v with h | h <;> rcases le_total u' v' with h' | h' <;>
    simp only [min_eq_left, min_eq_right, max_eq_left, max_eq_right, h, h'] <;> grind

/-- The entries of a link are those of its two directions. -/
theorem filter_linkKey_perm {snapshot : List (IfaceStats ι)} (h : ListsBothWays snapshot) {stats back : IfaceStats ι}
    (hstats : stats ∈ snapshot) (hback : back ∈ snapshot) (hlink : back.link = stats.link.swap) :
    (snapshot.filter fun d => computeLinkKey d.sourceSwitchId d.destinationSwitchId =
      computeLinkKey stats.sourceSwitchId stats.destinationSwitchId).Perm [stats, back] := by
  obtain ⟨hsource, hdestination⟩ := Prod.mk.inj hlink
  have hne : stats ≠ back := by
    intro heq
    rw [← heq] at hsource
    exact h.ends_ne stats hstats hsource
  have hpair : [stats, back].Nodup := List.nodup_cons.mpr ⟨by simpa using hne, List.nodup_singleton back⟩
  apply (List.perm_ext_iff_of_nodup (h.nodup.of_map.filter _) hpair).mpr
  intro d
  rw [List.mem_filter, decide_eq_true_eq, computeLinkKey_eq_iff, List.mem_cons, List.mem_singleton]
  constructor
  · intro hd
    rcases hd.2 with hsame | hswapped
    · exact Or.inl (eq_of_link_eq h.nodup hd.1 hstats (Prod.ext hsame.1 hsame.2))
    · refine Or.inr (eq_of_link_eq h.nodup hd.1 hback (Prod.ext ?_ ?_))
      · exact hswapped.1.trans hsource.symm
      · exact hswapped.2.trans hdestination.symm
  · intro hd
    rcases hd with rfl | rfl
    · exact ⟨hstats, Or.inl ⟨rfl, rfl⟩⟩
    · exact ⟨hback, Or.inr ⟨hsource, hdestination⟩⟩

/-- Both directions of a link are added up under its key. -/
theorem get?_byteCountDelta {t0 : List (IfaceStats ι)} (h : ListsBothWays t0) {stats back : IfaceStats ι}
    (hstats : stats ∈ t0) (hback : back ∈ t0) (hlink : back.link = stats.link.swap) (count : IfaceStats ι → Int)
    (t1 : List (IfaceStats ι)) :
    (byteCountDelta count t0 t1).get? (computeLinkKey stats.sourceSwitchId stats.destinationSwitchId) =
      some ((countDelta count t1 stats + countDelta count t1 back : Int) : ℚ) := by
  have hkey : computeLinkKey stats.sourceSwitchId stats.destinationSwitchId ∈
      t0.map fun d => computeLinkKey d.sourceSwitchId d.destinationSwitchId := List.mem_map.mpr ⟨stats, hstats, rfl⟩
  have hsum := ((filter_linkKey_perm h hstats hback hlink).map fun d => (countDelta count t1 d : ℚ)).sum_eq
  rw [byteCountDelta, Dict.get?_foldl_addTo, if_pos hkey, hsum]
  simp

/-- The difference of an entry that the next snapshot lists too. -/
theorem countDelta_of_mem {t1 : List (IfaceStats ι)} (hnodup : (t1.map IfaceStats.link).Nodup)
    {stats stats' : IfaceStats ι} (hstats' : stats' ∈ t1) (hlink : stats'.link = stats.link)
    (count : IfaceStats ι → Int) : countDelta count t1 stats = count stats' - count stats := by
  obtain ⟨hsource, hdestination⟩ := Prod.mk.inj hlink
  rw [countDelta, ← hsource, ← hdestination, findMatchingIfaceStats_eq_some hnodup hstats']

theorem countDelta_of_notMem {t1 : List (IfaceStats ι)} {stats : IfaceStats ι}
    (h : ∀ stats' ∈ t1, stats'.link ≠ stats.link) (count : IfaceStats ι → Int) : countDelta count t1 stats = 0 := by
  rw [countDelta, findMatchingIfaceStats_eq_none h]
  exact sub_self _

/-- The next snapshot lists a link too, or the difference of its entry is zero. -/
theorem countDelta_cases {t1 : List (IfaceStats ι)} (hnodup : (t1.map IfaceStats.link).Nodup) (stats : IfaceStats ι) :
    (∃ stats' ∈ t1, stats'.link = stats.link ∧ ∀ count, countDelta count t1 stats = count stats' - count stats) ∨
    ((∀ stats' ∈ t1, stats'.link ≠ stats.link) ∧ ∀ count, countDelta count t1 stats = 0) := by
  by_cases hlisted : ∃ stats' ∈ t1, stats'.link = stats.link
  · obtain ⟨stats', hstats', hlink⟩ := hlisted
    exact Or.inl ⟨stats', hstats', hlink, countDelta_of_mem hnodup hstats' hlink⟩
  · have hnone : ∀ stats' ∈ t1, stats'.link ≠ stats.link := fun stats' h heq => hlisted ⟨stats', h, heq⟩
    exact Or.inr ⟨hnone, countDelta_of_notMem hnone⟩

/-! ### Lossless links -/

/-- Two snapshots in a row: the counters of a link that both list do not decrease, and what one end sends the other
end receives. -/
structure LosslessStep (t0 t1 : List (IfaceStats ι)) : Prop where
  sent_mono : ∀ stats ∈ t0, ∀ stats' ∈ t1, stats'.link = stats.link → stats.bytesSent ≤ stats'.bytesSent
  received_mono : ∀ stats ∈ t0, ∀ stats' ∈ t1, stats'.link = stats.link → stats.bytesReceived ≤ stats'.bytesReceived
  received_eq_sent : ∀ stats ∈ t0, ∀ stats' ∈ t1, stats'.link = stats.link → ∀ back ∈ t0, ∀ back' ∈ t1,
    back.link = stats.link.swap → back'.link = stats.link.swap →
    stats'.bytesReceived - stats.bytesReceived = back'.bytesSent - back.bytesSent

/-- A run of the monitor over lossless links. -/
structure Lossless (snapshots : List (List (IfaceStats ι))) : Prop where
  bothWays : ∀ snapshot ∈ snapshots, ListsBothWays snapshot
  step : ∀ (t : Nat) t0 t1, snapshots[t]? = some t0 → snapshots[t + 1]? = some t1 → LosslessStep t0 t1

/-- The bytes that the two directions of a link carry between two snapshots. -/
def carried (t1 : List (IfaceStats ι)) (stats back : IfaceStats ι) : Int :=
  countDelta IfaceStats.bytesSent t1 stats + countDelta IfaceStats.bytesSent t1 back

/-- Sent and received bytes together count what a link carries twice. -/
theorem sent_and_received_eq {t0 t1 : List (IfaceStats ι)} (ht1 : ListsBothWays t1)
    (hstep : LosslessStep t0 t1) {stats back : IfaceStats ι} (hstats : stats ∈ t0) (hback : back ∈ t0)
    (hlink : back.link = stats.link.swap) :
    countDelta (fun stats => stats.bytesSent + stats.bytesReceived) t1 stats +
      countDelta (fun stats => stats.bytesSent + stats.bytesReceived) t1 back = 2 * carried t1 stats back := by
  rcases countDelta_cases ht1.nodup stats with ⟨stats', hstats', hlink', hdelta⟩ | ⟨hnone, hdelta⟩
  · obtain ⟨back', hback', hswap⟩ := ht1.reverse stats' hstats'
    rw [hlink'] at hswap
    have hbackLink : back'.link = back.link := hswap.trans hlink.symm
    have hforth := hstep.received_eq_sent stats hstats stats' hstats' hlink' back hback back' hback' hlink hswap
    have hreturn := hstep.received_eq_sent back hback back' hback' hbackLink stats hstats stats' hstats'
      (by rw [hlink, Prod.swap_swap]) (by rw [hlink', hlink, Prod.swap_swap])
    rw [carried, hdelta, hdelta, countDelta_of_mem ht1.nodup hback' hbackLink,
      countDelta_of_mem ht1.nodup hback' hbackLink]
    omega
  · have hnoneBack : ∀ back' ∈ t1, back'.link ≠ back.link := by
      intro back' hback' heq
      obtain ⟨stats', hstats', hswap⟩ := ht1.reverse back' hback'
      exact hnone stats' hstats' (by rw [hswap, heq, hlink, Prod.swap_swap])
    rw [carried, hdelta, hdelta, countDelta_of_notMem hnoneBack, countDelta_of_notMem hnoneBack]
    rfl

/-- The rate of a link in a period. -/
theorem rate_eq {snapshots : List (List (IfaceStats ι))} (count : IfaceStats ι → Int) (computeTxRate : ℚ → ℚ)
    {t : Nat} {t0 t1 : List (IfaceStats ι)} (ht0 : snapshots[t]? = some t0) (ht1 : snapshots[t + 1]? = some t1)
    (h : ListsBothWays t0) {stats back : IfaceStats ι} (hstats : stats ∈ t0) (hback : back ∈ t0)
    (hlink : back.link = stats.link.swap) :
    ((linkUtilizationOverTime count computeTxRate snapshots)[t]?.bind
      (·.get? (computeLinkKey stats.sourceSwitchId stats.destinationSwitchId))) =
      some (computeTxRate ((countDelta count t1 stats + countDelta count t1 back : Int) : ℚ)) := by
  have hzip : (snapshots.zip snapshots.tail)[t]? = some (t0, t1) :=
    List.getElem?_zip_eq_some.mpr ⟨ht0, by rw [List.getElem?_tail]; exact ht1⟩
  rw [linkUtilizationOverTime, List.getElem?_map, hzip, Option.map_some, Option.bind_some, Dict.get?_mapValues,
    get?_byteCountDelta h hstats hback hlink, Option.map_some]

/-- Both copies measure eight times the bytes that each link carries in each period, in their units. -/
def MeasureCarried (snapshots : List (List (IfaceStats ι))) : Prop :=
  ∃ rates, PathHopping.computeLinkUtilizationOverTime snapshots = some rates ∧
    ∀ (t : Nat) t0 t1, snapshots[t]? = some t0 → snapshots[t + 1]? = some t1 →
    ∀ stats ∈ t0, ∀ back ∈ t0, back.link = stats.link.swap → ∃ rate rate',
      rates[t]?.bind (·.get? (computeLinkKey stats.sourceSwitchId stats.destinationSwitchId)) = some rate ∧
      (StatMonitor.computeLinkUtilizationOverTime snapshots)[t]?.bind
        (·.get? (computeLinkKey stats.sourceSwitchId stats.destinationSwitchId)) = some rate' ∧
      rate * 10 ^ 7 = rate' * (10 * 2 ^ 20) ∧ rate * 10 ^ 7 = 8 * carried t1 stats back ∧
      rate' * (10 * 2 ^ 20) = 8 * carried t1 stats back

/-- No link sends anything between two snapshots. -/
def Idle (snapshots : List (List (IfaceStats ι))) : Prop :=
  ∀ (t : Nat) t0 t1, snapshots[t]? = some t0 → snapshots[t + 1]? = some t1 →
    ∀ stats ∈ t0, ∀ stats' ∈ t1, stats'.link = stats.link → stats'.bytesSent = stats.bytesSent

/-- What the copies measure of a link that carries bytes in both directions. -/
theorem rates_of_lossless {snapshots : List (List (IfaceStats ι))} (h : Lossless snapshots) {t : Nat}
    {t0 t1 : List (IfaceStats ι)} (ht0 : snapshots[t]? = some t0) (ht1 : snapshots[t + 1]? = some t1)
    {stats back : IfaceStats ι} (hstats : stats ∈ t0) (hback : back ∈ t0) (hlink : back.link = stats.link.swap) :
    (linkUtilizationOverTime (fun stats => stats.bytesSent + stats.bytesReceived) PathHopping.computeTxRate
      snapshots)[t]?.bind (·.get? (computeLinkKey stats.sourceSwitchId stats.destinationSwitchId)) =
        some (PathHopping.computeTxRate ((2 * carried t1 stats back : Int) : ℚ)) ∧
    (StatMonitor.computeLinkUtilizationOverTime snapshots)[t]?.bind
      (·.get? (computeLinkKey stats.sourceSwitchId stats.destinationSwitchId)) =
        some (StatMonitor.computeTxRate ((carried t1 stats back : Int) : ℚ)) := by
  have hbothWays := h.bothWays t0 (List.mem_of_getElem? ht0)
  constructor
  · rw [rate_eq _ _ ht0 ht1 hbothWays hstats hback hlink,
      sent_and_received_eq (h.bothWays t1 (List.mem_of_getElem? ht1)) (h.step t t0 t1 ht0 ht1) hstats hback hlink]
  · exact rate_eq _ _ ht0 ht1 hbothWays hstats hback hlink

theorem sentDelta_eq_zero_iff {t1 : List (IfaceStats ι)} (hnodup : (t1.map IfaceStats.link).Nodup)
    (stats : IfaceStats ι) : countDelta IfaceStats.bytesSent t1 stats = 0 ↔
      ∀ stats' ∈ t1, stats'.link = stats.link → stats'.bytesSent = stats.bytesSent := by
  rcases countDelta_cases hnodup stats with ⟨stats', hstats', hlink, hdelta⟩ | ⟨hnone, hdelta⟩
  · rw [hdelta, sub_eq_zero]
    constructor
    · intro heq found hfound hsame
      rw [eq_of_link_eq hnodup hfound hstats' (hsame.trans hlink.symm)]
      exact heq
    · intro hall
      exact hall stats' hstats' hlink
  · exact iff_of_true (hdelta _) fun stats' h heq => absurd heq (hnone stats' h)

theorem sentDelta_nonneg {t0 t1 : List (IfaceStats ι)} (hnodup : (t1.map IfaceStats.link).Nodup)
    (hstep : LosslessStep t0 t1) {stats : IfaceStats ι} (hstats : stats ∈ t0) :
    0 ≤ countDelta IfaceStats.bytesSent t1 stats := by
  rcases countDelta_cases hnodup stats with ⟨stats', hstats', hlink, hdelta⟩ | ⟨-, hdelta⟩
  · rw [hdelta]
    exact sub_nonneg.mpr (hstep.sent_mono stats hstats stats' hstats' hlink)
  · rw [hdelta]

/-- The rates agree on a link exactly when it carries nothing. -/
theorem rates_agree_iff (bytes : Int) :
    (PathHopping.computeTxRate ((2 * bytes : Int) : ℚ) * 10 ^ 7 =
        StatMonitor.computeTxRate (bytes : ℚ) * (10 * 2 ^ 20) ∧
      PathHopping.computeTxRate ((2 * bytes : Int) : ℚ) * 10 ^ 7 = 8 * bytes ∧
      StatMonitor.computeTxRate (bytes : ℚ) * (10 * 2 ^ 20) = 8 * bytes) ↔ bytes = 0 := by
  have hpath : PathHopping.computeTxRate ((2 * bytes : Int) : ℚ) * 10 ^ 7 = 16 * bytes := by
    rw [PathHopping.computeTxRate]
    push_cast
    ring
  have hstat : StatMonitor.computeTxRate (bytes : ℚ) * (10 * 2 ^ 20) = 8 * bytes := by
    rw [StatMonitor.computeTxRate]
    ring
  rw [hpath, hstat]
  constructor
  · intro hrates
    have hzero : (bytes : ℚ) = 0 := by linarith [hrates.1]
    exact_mod_cast hzero
  · intro hzero
    rw [hzero]
    norm_num

theorem measureCarried_iff {snapshots : List (List (IfaceStats ι))} (h : Lossless snapshots) (hne : snapshots ≠ []) :
    MeasureCarried snapshots ↔ ∀ (t : Nat) t0 t1, snapshots[t]? = some t0 → snapshots[t + 1]? = some t1 →
      ∀ stats ∈ t0, ∀ back ∈ t0, back.link = stats.link.swap → carried t1 stats back = 0 := by
  have hrates : PathHopping.computeLinkUtilizationOverTime snapshots = some (linkUtilizationOverTime
      (fun stats => stats.bytesSent + stats.bytesReceived) PathHopping.computeTxRate snapshots) := by
    cases snapshots with
    | nil => exact absurd rfl hne
    | cons first rest => rfl
  rw [MeasureCarried, hrates]
  simp only [Option.some.injEq, exists_eq_left']
  apply forall₄_congr
  intro t t0 t1 ht0
  apply forall₄_congr
  intro ht1 stats hstats back
  apply forall₂_congr
  intro hback hlink
  obtain ⟨hpath, hstat⟩ := rates_of_lossless h ht0 ht1 hstats hback hlink
  rw [← rates_agree_iff, hpath, hstat]
  simp only [Option.some.injEq, exists_and_left, exists_eq_left']

/-- The copies measure the same traffic exactly when there are snapshots and nothing is sent between them. -/
theorem measure_carried_iff_idle {snapshots : List (List (IfaceStats ι))} (h : Lossless snapshots) :
    MeasureCarried snapshots ↔ snapshots ≠ [] ∧ Idle snapshots := by
  by_cases hne : snapshots = []
  · rw [hne]
    refine iff_of_false ?_ (fun hboth => hboth.1 rfl)
    intro hmeasure
    obtain ⟨rates, hrates, -⟩ := hmeasure
    cases hrates
  · rw [measureCarried_iff h hne, and_iff_right hne, Idle]
    apply forall₃_congr
    intro t t0 t1
    apply forall₂_congr
    intro ht0 ht1
    have hbothWays := h.bothWays t1 (List.mem_of_getElem? ht1)
    have hstep := h.step t t0 t1 ht0 ht1
    constructor
    · intro hzero stats hstats
      obtain ⟨back, hback, hlink⟩ := (h.bothWays t0 (List.mem_of_getElem? ht0)).reverse stats hstats
      have hsum := hzero stats hstats back hback hlink
      have hforth := sentDelta_nonneg hbothWays.nodup hstep hstats
      have hreturn := sentDelta_nonneg hbothWays.nodup hstep hback
      rw [carried] at hsum
      exact (sentDelta_eq_zero_iff hbothWays.nodup stats).mp (by omega)
    · intro hidle stats hstats back hback _
      rw [carried, (sentDelta_eq_zero_iff hbothWays.nodup stats).mpr (hidle stats hstats),
        (sentDelta_eq_zero_iff hbothWays.nodup back).mpr (hidle back hback), add_zero]

/-- A link between the switches 1 and 2 that has carried `forth` and `back` bytes. -/
def oneLinkSnapshot (forth back : Int) : List (IfaceStats Nat) :=
  [{ sourceSwitchId := 1, destinationSwitchId := 2, bytesReceived := back, bytesSent := forth },
    { sourceSwitchId := 2, destinationSwitchId := 1, bytesReceived := forth, bytesSent := back }]

theorem listsBothWays_oneLink (forth back : Int) : ListsBothWays (oneLinkSnapshot forth back) where
  nodup := by simp [oneLinkSnapshot, IfaceStats.link]
  ends_ne := by simp [oneLinkSnapshot]
  reverse := by simp [oneLinkSnapshot, IfaceStats.link]

theorem losslessStep_oneLink {forth back forth' back' : Int} (hforth : forth ≤ forth') (hback : back ≤ back') :
    LosslessStep (oneLinkSnapshot forth back) (oneLinkSnapshot forth' back') where
  sent_mono := by simp [oneLinkSnapshot, IfaceStats.link, hforth, hback]
  received_mono := by simp [oneLinkSnapshot, IfaceStats.link, hforth, hback]
  received_eq_sent := by simp [oneLinkSnapshot, IfaceStats.link]

theorem lossless_oneLink {forth back forth' back' : Int} (hforth : forth ≤ forth') (hback : back ≤ back') :
    Lossless [oneLinkSnapshot forth back, oneLinkSnapshot forth' back'] where
  bothWays := by simp [listsBothWays_oneLink]
  step := by
    intro t t0 t1 ht0 ht1
    match t with
    | 0 =>
        cases ht0
        cases ht1
        exact losslessStep_oneLink hforth hback
    | t + 1 => cases ht1

theorem measure_carried_iff_idle_oneLink : MeasureCarried [oneLinkSnapshot 10 20, oneLinkSnapshot 10 20] ↔
    [oneLinkSnapshot 10 20, oneLinkSnapshot 10 20] ≠ [] ∧ Idle [oneLinkSnapshot 10 20, oneLinkSnapshot 10 20] :=
  measure_carried_iff_idle (lossless_oneLink (le_refl 10) (le_refl 20))

/-- Ten bytes over one link, which one copy measures as twenty. -/
theorem ten_bytes_counted_twice : Lossless [oneLinkSnapshot 0 0, oneLinkSnapshot 10 0] ∧
    ¬ MeasureCarried [oneLinkSnapshot 0 0, oneLinkSnapshot 10 0] := by
  have hlossless : Lossless [oneLinkSnapshot 0 0, oneLinkSnapshot 10 0] := lossless_oneLink (by decide) (le_refl 0)
  refine ⟨hlossless, fun hmeasure => ?_⟩
  have hzero := (measureCarried_iff hlossless (List.cons_ne_nil _ _)).mp hmeasure 0 _ _ rfl rfl
    ⟨1, 2, 0, 0⟩ (by decide) ⟨2, 1, 0, 0⟩ (by decide) rfl
  exact absurd hzero (by decide)

end OfTestbed.Utilization
