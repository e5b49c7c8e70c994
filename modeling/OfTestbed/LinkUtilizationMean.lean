import Mathlib.Algebra.BigOperators.Ring.List
import Mathlib.Data.Prod.Lex
import OfTestbed.LinkUtilization

/-!
The mean utilization of a link: `compute_mean_link_utilization` in `nw_control/stat_monitor.py`. The rates of the
periods between the snapshots are differences of the counters, so that their mean is decided by the first and the last
snapshot, whatever the counters were in between. Means are exact rationals.
-/

namespace OfTestbed.Utilization

open Lib

variable {ι : Type} [LinearOrder ι]

/-- `np.mean` of a list that is not empty. -/
def mean (values : List ℚ) : ℚ := values.sum / values.length

namespace StatMonitor

def collectAllLinkKeys (linkUtilT : List (Dict (ι × ι) ℚ)) : Finset (ι × ι) :=
  linkUtilT.foldl (fun linkKeys rates => rates.keys.foldl (fun linkKeys linkKey => insert linkKey linkKeys) linkKeys) ∅

/-- The order in which the loop walks the set of keys is a parameter. -/
def computeMeanLinkUtilization (order : SetOrder (ι × ι)) (linkByteCounts : List (List (IfaceStats ι))) :
    Dict (ι × ι) ℚ :=
  let linkUtilT := computeLinkUtilizationOverTime linkByteCounts
  .ofList ((order.list (collectAllLinkKeys linkUtilT)).map fun linkKey =>
    (linkKey, mean (linkUtilT.filterMap (·.get? linkKey))))

end StatMonitor

/-! ### The counters of a directed link -/

/-- Every snapshot lists the same directed links, each once. -/
structure SameLinks (snapshots : List (List (IfaceStats ι))) : Prop where
  nodup : ∀ snapshot ∈ snapshots, (snapshot.map IfaceStats.link).Nodup
  same : ∀ snapshot ∈ snapshots, ∀ snapshot' ∈ snapshots, ∀ link ∈ snapshot.map IfaceStats.link,
    link ∈ snapshot'.map IfaceStats.link

/-- The bytes sent over a directed link. -/
def sent (snapshot : List (IfaceStats ι)) (link : ι × ι) : Int :=
  ((snapshot.find? (·.link = link)).map IfaceStats.bytesSent).getD 0

/-- The listed directions of a link. -/
def directions (snapshot : List (IfaceStats ι)) (key : ι × ι) : List (ι × ι) :=
  (snapshot.map IfaceStats.link).filter fun link => computeLinkKey link.1 link.2 = key

/-- The bytes sent in these directions together. -/
def sentTotal (links : List (ι × ι)) (snapshot : List (IfaceStats ι)) : Int := (links.map (sent snapshot)).sum

theorem sent_of_mem {snapshot : List (IfaceStats ι)} (hnodup : (snapshot.map IfaceStats.link).Nodup)
    {stats : IfaceStats ι} (h : stats ∈ snapshot) : sent snapshot stats.link = stats.bytesSent := by
  rw [sent, find?_key_of_mem hnodup h]
  rfl

/-- The directions of a link are the same in all snapshots, up to their order. -/
theorem directions_perm {t0 t1 : List (IfaceStats ι)} (h0 : (t0.map IfaceStats.link).Nodup)
    (h1 : (t1.map IfaceStats.link).Nodup)
    (hsame : ∀ link, link ∈ t0.map IfaceStats.link ↔ link ∈ t1.map IfaceStats.link) (key : ι × ι) :
    (directions t0 key).Perm (directions t1 key) := by
  apply (List.perm_ext_iff_of_nodup (h0.filter _) (h1.filter _)).mpr
  intro link
  rw [List.mem_filter, List.mem_filter, hsame]

theorem sentTotal_perm {links links' : List (ι × ι)} (h : links.Perm links') (snapshot : List (IfaceStats ι)) :
    sentTotal links snapshot = sentTotal links' snapshot := (h.map _).sum_eq

/-- The entry of a directed link contributes what was sent over it between the snapshots. -/
theorem countDelta_eq_sent {t0 t1 : List (IfaceStats ι)} (h0 : (t0.map IfaceStats.link).Nodup)
    (h1 : (t1.map IfaceStats.link).Nodup) (hlisted : ∀ link ∈ t0.map IfaceStats.link, link ∈ t1.map IfaceStats.link)
    {stats : IfaceStats ι} (h : stats ∈ t0) :
    countDelta IfaceStats.bytesSent t1 stats = sent t1 stats.link - sent t0 stats.link := by
  obtain ⟨stats', hstats', hlink⟩ := List.mem_map.mp (hlisted stats.link (List.mem_map_of_mem h))
  rw [countDelta_of_mem h1 hstats' hlink, sent_of_mem h0 h, ← hlink, sent_of_mem h1 hstats']

theorem sum_sent_sub (links : List (ι × ι)) (t0 t1 : List (IfaceStats ι)) :
    (links.map fun link => ((sent t1 link - sent t0 link : Int) : ℚ)).sum =
      (sentTotal links t1 : ℚ) - sentTotal links t0 := by
  induction links with
  | nil => simp [sentTotal]
  | cons link rest ih =>
      rw [List.map_cons, List.sum_cons, ih]
      simp only [sentTotal, List.map_cons, List.sum_cons]
      push_cast
      ring

/-- The difference of a link between two snapshots that list the same directed links. -/
theorem get?_byteCountDelta_sent {t0 t1 : List (IfaceStats ι)} (h0 : (t0.map IfaceStats.link).Nodup)
    (h1 : (t1.map IfaceStats.link).Nodup) (hlisted : ∀ link ∈ t0.map IfaceStats.link, link ∈ t1.map IfaceStats.link)
    (key : ι × ι) :
    (byteCountDelta IfaceStats.bytesSent t0 t1).get? key =
      if directions t0 key = [] then none
      else some ((sentTotal (directions t0 key) t1 : ℚ) - sentTotal (directions t0 key) t0) := by
  have hdirections : directions t0 key = (t0.filter fun stats =>
      computeLinkKey stats.sourceSwitchId stats.destinationSwitchId = key).map IfaceStats.link := by
    rw [directions, List.filter_map]
    rfl
  have hempty : directions t0 key = [] ↔
      key ∉ t0.map fun stats => computeLinkKey stats.sourceSwitchId stats.destinationSwitchId := by
    rw [hdirections, List.map_eq_nil_iff, List.filter_eq_nil_iff, List.mem_map]
    simp
  have hsum : ((t0.filter fun stats => computeLinkKey stats.sourceSwitchId stats.destinationSwitchId = key).map
      fun stats => (countDelta IfaceStats.bytesSent t1 stats : ℚ)).sum =
        (sentTotal (directions t0 key) t1 : ℚ) - sentTotal (directions t0 key) t0 := by
    rw [← sum_sent_sub, hdirections, List.map_map]
    congr 1
    apply List.map_congr_left
    intro stats hstats
    rw [countDelta_eq_sent h0 h1 hlisted (List.mem_filter.mp hstats).1]
    rfl
  rw [byteCountDelta, Dict.get?_foldl_addTo, hsum]
  by_cases hnone : directions t0 key = []
  · rw [if_pos hnone, if_neg (hempty.mp hnone)]
  · rw [if_neg hnone, if_pos (not_not.mp (mt hempty.mpr hnone))]

/-- Differences of neighbours add up to the difference of the ends. -/
theorem sum_map_zip_tail {α : Type} (value : α → ℚ) (first : α) (rest : List α) :
    (((first :: rest).zip rest).map fun step => value step.2 - value step.1).sum =
      value ((first :: rest).getLast (List.cons_ne_nil first rest)) - value first := by
  induction rest generalizing first with
  | nil => simp
  | cons next rest ih =>
      rw [List.zip_cons_cons, List.map_cons, List.sum_cons, ih next, List.getLast_cons (List.cons_ne_nil next rest)]
      ring

/-! ### The rates of all periods -/

theorem SameLinks.perm {snapshots : List (List (IfaceStats ι))} (h : SameLinks snapshots) {t0 t1 : List (IfaceStats ι)}
    (h0 : t0 ∈ snapshots) (h1 : t1 ∈ snapshots) (key : ι × ι) : (directions t0 key).Perm (directions t1 key) :=
  directions_perm (h.nodup t0 h0) (h.nodup t1 h1) (fun link => ⟨h.same t0 h0 t1 h1 link, h.same t1 h1 t0 h0 link⟩) key

/-- The rate of a link in every period, by the directions that the first snapshot lists. -/
theorem SameLinks.get?_rates {snapshots : List (List (IfaceStats ι))} (h : SameLinks snapshots)
    {first t0 t1 : List (IfaceStats ι)} (hfirst : first ∈ snapshots) (h0 : t0 ∈ snapshots) (h1 : t1 ∈ snapshots)
    (key : ι × ι) :
    ((byteCountDelta IfaceStats.bytesSent t0 t1).mapValues StatMonitor.computeTxRate).get? key =
      if directions first key = [] then none
      else some (StatMonitor.computeTxRate
        ((sentTotal (directions first key) t1 : ℚ) - sentTotal (directions first key) t0)) := by
  have hperm := h.perm h0 hfirst key
  have hnil : directions t0 key = [] ↔ directions first key = [] := by
    constructor
    · intro hempty
      exact (hempty ▸ hperm).nil_eq.symm
    · intro hempty
      exact List.Perm.eq_nil (hempty ▸ hperm)
  rw [Dict.get?_mapValues, get?_byteCountDelta_sent (h.nodup t0 h0) (h.nodup t1 h1) (h.same t0 h0 t1 h1) key,
    sentTotal_perm hperm, sentTotal_perm hperm]
  simp only [hnil]
  split <;> rfl

section Mean

variable {first : List (IfaceStats ι)} {rest : List (List (IfaceStats ι))} (h : SameLinks (first :: rest)) (key : ι × ι)
include h

/-- The rates of a link over all periods. -/
theorem SameLinks.filterMap_rates :
    (StatMonitor.computeLinkUtilizationOverTime (first :: rest)).filterMap (·.get? key) =
      if directions first key = [] then []
      else ((first :: rest).zip rest).map fun step => StatMonitor.computeTxRate
        ((sentTotal (directions first key) step.2 : ℚ) - sentTotal (directions first key) step.1) := by
  have hrate : ∀ step ∈ (first :: rest).zip rest,
      ((byteCountDelta IfaceStats.bytesSent step.1 step.2).mapValues StatMonitor.computeTxRate).get? key =
        if directions first key = [] then none
        else some (StatMonitor.computeTxRate
          ((sentTotal (directions first key) step.2 : ℚ) - sentTotal (directions first key) step.1)) := by
    intro step hstep
    obtain ⟨h0, h1⟩ := List.of_mem_zip hstep
    exact h.get?_rates List.mem_cons_self h0 (List.mem_cons_of_mem first h1) key
  have hlist : (StatMonitor.computeLinkUtilizationOverTime (first :: rest)).filterMap (·.get? key) =
      ((first :: rest).zip rest).filterMap fun step =>
        if directions first key = [] then none
        else some (StatMonitor.computeTxRate
          ((sentTotal (directions first key) step.2 : ℚ) - sentTotal (directions first key) step.1)) := by
    rw [StatMonitor.computeLinkUtilizationOverTime, linkUtilizationOverTime, List.tail_cons, List.filterMap_map]
    exact List.filterMap_congr hrate
  rw [hlist]
  by_cases hempty : directions first key = []
  · simp [hempty]
  · simp only [if_neg hempty]
    exact congrFun List.filterMap_eq_map _

theorem SameLinks.mem_collectAllLinkKeys (hne : rest ≠ []) :
    key ∈ StatMonitor.collectAllLinkKeys (StatMonitor.computeLinkUtilizationOverTime (first :: rest)) ↔
      directions first key ≠ [] := by
  have hkeys : key ∈ StatMonitor.collectAllLinkKeys (StatMonitor.computeLinkUtilizationOverTime (first :: rest)) ↔
      (StatMonitor.computeLinkUtilizationOverTime (first :: rest)).filterMap (·.get? key) ≠ [] := by
    rw [StatMonitor.collectAllLinkKeys, foldl_foldl_insert, Finset.empty_union, List.mem_toFinset, List.mem_flatMap]
    rw [Ne, List.filterMap_eq_nil_iff]
    push Not
    simp only [Dict.mem_keys_iff, Option.isSome_iff_ne_none]
  rw [hkeys, h.filterMap_rates key]
  split
  · rename_i hempty
    exact iff_of_false (fun hne' => hne' rfl) (fun hne' => hne' hempty)
  · rename_i hempty
    refine iff_of_true ?_ hempty
    rw [Ne, List.map_eq_nil_iff, List.zip_eq_nil_iff]
    rintro (hnil | hnil)
    · cases hnil
    · exact hne hnil

end Mean

theorem get?_computeMeanLinkUtilization (order : SetOrder (ι × ι)) (snapshots : List (List (IfaceStats ι)))
    (key : ι × ι) :
    (StatMonitor.computeMeanLinkUtilization order snapshots).get? key =
      if key ∈ StatMonitor.collectAllLinkKeys (StatMonitor.computeLinkUtilizationOverTime snapshots) then
        some (mean ((StatMonitor.computeLinkUtilizationOverTime snapshots).filterMap (·.get? key)))
      else none := by
  have hnodup : (((order.list (StatMonitor.collectAllLinkKeys
      (StatMonitor.computeLinkUtilizationOverTime snapshots))).map fun linkKey =>
        (linkKey, mean ((StatMonitor.computeLinkUtilizationOverTime snapshots).filterMap
          (·.get? linkKey)))).map Prod.fst).Nodup := by
    rw [List.map_map]
    exact (List.map_id _).symm ▸ order.nodup _
  unfold StatMonitor.computeMeanLinkUtilization
  apply Option.ext
  intro value
  rw [Dict.get?_ofList hnodup, List.mem_map]
  simp only [order.mem_list, Prod.mk.injEq]
  split
  · rename_i hkey
    rw [Option.some_inj]
    constructor
    · rintro ⟨linkKey, -, rfl, hvalue⟩
      exact hvalue
    · intro hvalue
      exact ⟨key, hkey, rfl, hvalue⟩
  · rename_i hkey
    constructor
    · rintro ⟨linkKey, hmem, rfl, -⟩
      exact absurd hmem hkey
    · intro hnone
      cases hnone

/-- The sum of the rates of a link is the rate of what was sent from the first snapshot to the last. -/
theorem sum_rates {first : List (IfaceStats ι)} {rest : List (List (IfaceStats ι))} (links : List (ι × ι)) :
    (((first :: rest).zip rest).map fun step =>
      StatMonitor.computeTxRate ((sentTotal links step.2 : ℚ) - sentTotal links step.1)).sum =
        StatMonitor.computeTxRate
          ((sentTotal links ((first :: rest).getLast (List.cons_ne_nil first rest)) : ℚ) - sentTotal links first) := by
  have hscale : ∀ count : ℚ, StatMonitor.computeTxRate count = count * (8 / 10 / 2 ^ 20) := by
    intro count
    rw [StatMonitor.computeTxRate]
    ring
  simp only [hscale]
  rw [List.sum_map_mul_right, sum_map_zip_tail fun snapshot => (sentTotal links snapshot : ℚ)]

/-- The mean rate of a link is given by the first and the last snapshot alone: the bytes that its listed directions
sent between them, spread over the periods. -/
theorem mean_utilization_of_ends (order : SetOrder (ι × ι)) (snapshots : List (List (IfaceStats ι)))
    (h : SameLinks snapshots) (hlength : 2 ≤ snapshots.length) (first last : List (IfaceStats ι))
    (hfirst : snapshots.head? = some first) (hlast : snapshots.getLast? = some last) (key : ι × ι) :
    (StatMonitor.computeMeanLinkUtilization order snapshots).get? key =
      if directions first key = [] then none
      else some ((directions first key).map fun link =>
        ((sent last link - sent first link : Int) : ℚ) * 8 / (10 * 2 ^ 20 * ((snapshots.length : ℚ) - 1))).sum := by
  obtain ⟨rest, rfl⟩ : ∃ rest, snapshots = first :: rest := by
    cases snapshots with
    | nil => cases hfirst
    | cons head rest => exact ⟨rest, by rw [Option.some.inj hfirst]⟩
  have hne : rest ≠ [] := by
    rintro rfl
    simp at hlength
  rw [get?_computeMeanLinkUtilization]
  simp only [h.mem_collectAllLinkKeys key hne, h.filterMap_rates key]
  by_cases hempty : directions first key = []
  · rw [if_neg (not_not.mpr hempty), if_pos hempty]
  · rw [if_pos hempty, if_neg hempty, if_neg hempty, mean, sum_rates, List.length_map]
    have hperiods : (((first :: rest).zip rest).length : ℚ) = ((first :: rest).length : ℚ) - 1 := by
      rw [List.length_zip, List.length_cons, Nat.min_eq_right (Nat.le_succ _)]
      push_cast
      ring
    have hend : (first :: rest).getLast (List.cons_ne_nil first rest) = last := by
      rw [List.getLast?_eq_some_getLast (List.cons_ne_nil first rest)] at hlast
      exact Option.some.inj hlast
    have hshare : ∀ count periods : ℚ, count * 8 / (10 * 2 ^ 20 * periods) = count * (8 / 10 / 2 ^ 20 / periods) := by
      intro count periods
      ring
    simp only [hshare]
    rw [List.sum_map_mul_right, sum_sent_sub, hperiods, hend, StatMonitor.computeTxRate]
    apply congrArg some
    ring

/-- Three snapshots of a link, of which the second lists the directions the other way round. -/
def threeSnapshots : List (List (IfaceStats Nat)) :=
  [oneLinkSnapshot 0 5, (oneLinkSnapshot 7 100).reverse, oneLinkSnapshot 10 25]

/-- Links by their first ends. -/
def byEnds : SetOrder (Nat × Nat) := SetOrder.byKey (β := Lex (Nat × Nat)) toLex toLex.injective

theorem mean_utilization_of_ends_threeSnapshots :
    (StatMonitor.computeMeanLinkUtilization byEnds threeSnapshots).get? (1, 2) =
      some (30 * 8 / (10 * 2 ^ 20 * 2)) := by
  have hlinks : SameLinks threeSnapshots := ⟨by decide, by decide⟩
  rw [mean_utilization_of_ends _ threeSnapshots hlinks (by decide) (oneLinkSnapshot 0 5) (oneLinkSnapshot 10 25)
    rfl rfl]
  decide +kernel

end OfTestbed.Utilization
