import Mathlib.Algebra.BigOperators.Group.Finset.Basic
import Mathlib.Algebra.BigOperators.Group.Finset.Piecewise
import Mathlib.Algebra.Order.BigOperators.Group.Finset
import Mathlib.Algebra.Order.Group.Defs
import Mathlib.Data.Finset.Max
import Mathlib.Tactic.Abel
import OfTestbed.LibRoute

/-!
Flows in a network of directed links. A flow of value `val` from `s` to `t` is balanced at every other
node, so across every cut between `s` and `t` it nets to `val`. Without cycles a flow is a sum of flows along
routes; giving each route the least amount on its links reproduces the flow exactly when each route has a
link to itself.
-/

namespace OfTestbed.Lib

variable {V A : Type} [DecidableEq V] [AddCommGroup A]

/-- What leaves a node minus what enters it. -/
def net (links : Finset (V × V)) (F : V × V → A) (v : V) : A :=
  (∑ link ∈ links, if link.1 = v then F link else 0) - ∑ link ∈ links, if link.2 = v then F link else 0

/-- What leaves a set of nodes. -/
def outOf (links : Finset (V × V)) (F : V × V → A) (S : Finset V) : A :=
  ∑ link ∈ links, if link.1 ∈ S ∧ link.2 ∉ S then F link else 0

/-- What enters a set of nodes. -/
def into (links : Finset (V × V)) (F : V × V → A) (S : Finset V) : A :=
  ∑ link ∈ links, if link.1 ∉ S ∧ link.2 ∈ S then F link else 0

theorem sum_net_eq_cut (links : Finset (V × V)) (F : V × V → A) (S : Finset V) :
    ∑ v ∈ S, net links F v = outOf links F S - into links F S := by
  calc ∑ v ∈ S, net links F v
      = ∑ link ∈ links, ((if link.1 ∈ S then F link else 0) - if link.2 ∈ S then F link else 0) := by
        simp only [net, Finset.sum_sub_distrib]
        rw [Finset.sum_comm, Finset.sum_comm (s := S)]
        simp only [Finset.sum_ite_eq]
    _ = ∑ link ∈ links, ((if link.1 ∈ S ∧ link.2 ∉ S then F link else 0) -
          if link.1 ∉ S ∧ link.2 ∈ S then F link else 0) := by
        apply Finset.sum_congr rfl
        intro link _
        by_cases hfrom : link.1 ∈ S <;> by_cases hto : link.2 ∈ S <;> simp [hfrom, hto]
    _ = outOf links F S - into links F S := Finset.sum_sub_distrib _ _

/-- A flow of value `val` from `s` to `t`. -/
def IsFlow (links : Finset (V × V)) (F : V × V → A) (s t : V) (val : A) : Prop :=
  ∀ v, net links F v = (if v = s then val else 0) - if v = t then val else 0

/-- Across every cut between source and target a flow nets to its value. -/
theorem IsFlow.cut {links : Finset (V × V)} {F : V × V → A} {s t : V} {val : A}
    (h : IsFlow links F s t val) {S : Finset V} (hs : s ∈ S) (ht : t ∉ S) :
    outOf links F S - into links F S = val := by
  rw [← sum_net_eq_cut]
  simp only [h _, Finset.sum_sub_distrib, Finset.sum_ite_eq', hs, ht, if_true, if_false, sub_zero]

theorem net_add (links : Finset (V × V)) (F G : V × V → A) (v : V) :
    net links (fun link => F link + G link) v = net links F v + net links G v := by
  have hadd : ∀ p : V × V → Prop, ∀ _ : DecidablePred p,
      (∑ link ∈ links, if p link then F link + G link else 0) =
        (∑ link ∈ links, if p link then F link else 0) + ∑ link ∈ links, if p link then G link else 0 := by
    intro p _
    rw [← Finset.sum_add_distrib]
    apply Finset.sum_congr rfl
    intro link _
    split <;> simp
  simp only [net, hadd]
  abel

/-- The amount `m` along a path. -/
def along (path : List V) (m : A) (link : V × V) : A := if link ∈ pairwise path then m else 0

theorem isFlow_along {links : Finset (V × V)} {path : List V} {s t : V} (hhead : path.head? = some s)
    (hlast : path.getLast? = some t) (hnodup : path.Nodup) (hlinks : ∀ link ∈ pairwise path, link ∈ links)
    (m : A) : IsFlow links (along path m) s t m := by
  induction path generalizing s with
  | nil => cases hhead
  | cons a rest ih =>
      cases hhead
      cases rest with
      | nil =>
          cases hlast
          intro v
          rw [List.getLast_singleton, sub_self]
          simp [net, along]
      | cons b rest =>
          intro v
          have hlast' : (b :: rest).getLast? = some t := by simpa using hlast
          have hfirst : (a, b) ∈ links := hlinks (a, b) (by simp)
          have hnew : (a, b) ∉ pairwise (b :: rest) := fun hmem =>
            (List.nodup_cons.mp hnodup).1 (mem_of_mem_pairwise hmem).1
          have hsplit : along (a :: b :: rest) m =
              fun link => (if link = (a, b) then m else 0) + along (b :: rest) m link := by
            funext link
            simp only [along, pairwise_cons_cons, List.mem_cons]
            by_cases hlink : link = (a, b)
            · subst hlink
              simp [hnew]
            · simp [hlink]
          have hone : net links (fun link => if link = (a, b) then m else 0) v =
              (if v = a then m else 0) - if v = b then m else 0 := by
            have hend : ∀ p : V × V → Prop, ∀ _ : DecidablePred p,
                (∑ link ∈ links, if p link then (if link = (a, b) then m else 0) else 0) =
                  if p (a, b) then m else 0 := by
              intro p _
              rw [Finset.sum_eq_single_of_mem (a, b) hfirst]
              · simp
              · intro link _ hne
                simp [hne]
            simp only [net, hend, eq_comm (a := v)]
          rw [hsplit, net_add, hone,
            ih rfl hlast' (List.nodup_cons.mp hnodup).2 (fun link hmem => hlinks link (by simp [hmem])) v]
          abel

/-- Flows between the same two nodes add up. -/
theorem isFlow_sum {α : Type} {links : Finset (V × V)} {s t : V} (l : List α) (F : α → V × V → A) (value : α → A)
    (h : ∀ a ∈ l, IsFlow links (F a) s t (value a)) :
    IsFlow links (fun link => (l.map fun a => F a link).sum) s t (l.map value).sum := by
  induction l with
  | nil =>
      intro v
      simp [net]
  | cons a rest ih =>
      intro v
      have hrest := ih (fun a' ha' => h a' (List.mem_cons_of_mem a ha')) v
      have hfirst := h a List.mem_cons_self v
      simp only [List.map_cons, List.sum_cons]
      rw [net_add, hfirst, hrest]
      split <;> split <;> abel

/-! ### Flows without cycles -/

/-- The links that carry something. -/
def Carries (links : Finset (V × V)) (F : V × V → A) (u v : V) : Prop := (u, v) ∈ links ∧ F (u, v) ≠ 0

theorem carries_wellFounded {links : Finset (V × V)} {F : V × V → A} (hacyclic : Acyclic (Carries links F)) :
    WellFounded fun v u => Carries links F u v :=
  hacyclic.wellFounded (links.image Prod.snd) fun _ _ h => Finset.mem_image.mpr ⟨_, h.1, rfl⟩

/-- What is left after the amount `m` has been taken off a route. -/
theorem IsFlow.sub_along {links : Finset (V × V)} {F : V × V → A} {s t : V} {val : A}
    (h : IsFlow links F s t val) {path : List V}
    (hroute : Route (Carries links F) s t path) (m : A) :
    IsFlow links (fun link => F link - along path m link) s t (val - m) := by
  have halong := isFlow_along hroute.head hroute.last hroute.nodup
    (fun link hlink => (isChain_iff_forall_mem_pairwise.mp hroute.chain link hlink).1) m
  intro v
  have hadd := net_add links (fun link => F link - along path m link) (along path m) v
  simp only [sub_add_cancel] at hadd
  rw [eq_sub_of_add_eq hadd.symm]
  change net links F v - _ = _
  rw [h v, halong v]
  split <;> split <;> abel

section Decomposition

variable [LinearOrder A] [IsOrderedAddMonoid A] {links : Finset (V × V)} {F : V × V → A} {s t : V} {val : A}

omit [IsOrderedAddMonoid A] in
theorem exists_carries_of_leaving {v : V} (hleave : 0 < ∑ link ∈ links, if link.1 = v then F link else 0) :
    ∃ w, Carries links F v w := by
  obtain ⟨link, hlink, hne⟩ := Finset.exists_ne_zero_of_sum_ne_zero hleave.ne'
  obtain ⟨hfrom, hcarries⟩ := ite_ne_right_iff.mp hne
  subst hfrom
  exact ⟨link.2, hlink, hcarries⟩

omit [IsOrderedAddMonoid A] in
theorem entering_nonneg (hnonneg : ∀ link ∈ links, 0 ≤ F link) (v : V) :
    ∀ link ∈ links, 0 ≤ if link.2 = v then F link else 0 := by
  intro link hlink
  split
  · exact hnonneg link hlink
  · exact le_rfl

/-- What enters a node that keeps nothing leaves it again. -/
theorem exists_carries_out (hnonneg : ∀ link ∈ links, 0 ≤ F link) {v : V} (hnet : 0 ≤ net links F v)
    {u : V} (hin : Carries links F u v) : ∃ w, Carries links F v w := by
  have henter : 0 < ∑ link ∈ links, if link.2 = v then F link else 0 := by
    refine Finset.sum_pos' (entering_nonneg hnonneg v) ⟨(u, v), hin.1, ?_⟩
    rw [if_pos rfl]
    exact lt_of_le_of_ne (hnonneg (u, v) hin.1) (Ne.symm hin.2)
  exact exists_carries_of_leaving (lt_of_lt_of_le henter (sub_nonneg.mp hnet))

theorem exists_carries_of_net_pos (hnonneg : ∀ link ∈ links, 0 ≤ F link) {v : V}
    (hnet : 0 < net links F v) : ∃ w, Carries links F v w :=
  exists_carries_of_leaving (lt_of_le_of_lt (Finset.sum_nonneg (entering_nonneg hnonneg v)) (sub_pos.mp hnet))

/-- A flow of value 0 without cycles carries nothing. -/
theorem IsFlow.eq_zero (h : IsFlow links F s t 0) (hnonneg : ∀ link ∈ links, 0 ≤ F link)
    (hacyclic : Acyclic (Carries links F)) : ∀ link ∈ links, F link = 0 := by
  have hdead : ∀ v u, ¬Carries links F u v := by
    intro v
    induction v using (carries_wellFounded hacyclic).induction with
    | _ v ih =>
        intro u hin
        have hnet : 0 ≤ net links F v := by simp [h v]
        obtain ⟨w, hout⟩ := exists_carries_out hnonneg hnet hin
        exact ih w hout v hout
  intro link hlink
  by_contra hne
  exact hdead link.2 link.1 ⟨hlink, hne⟩

/-- A flow of positive value without cycles carries something all the way. -/
theorem IsFlow.exists_route (h : IsFlow links F s t val) (hval : 0 < val) (hne : s ≠ t)
    (hnonneg : ∀ link ∈ links, 0 ≤ F link) (hacyclic : Acyclic (Carries links F)) :
    ∃ path, Route (Carries links F) s t path := by
  have hgo : ∀ u, (∃ v, Carries links F u v) → Relation.ReflTransGen (Carries links F) u t := by
    intro u
    induction u using (carries_wellFounded hacyclic).induction with
    | _ u ih =>
        intro ⟨v, hlink⟩
        by_cases hv : v = t
        · exact hv ▸ Relation.ReflTransGen.single hlink
        · have hnet : 0 ≤ net links F v := by
            rw [h v, if_neg hv, sub_zero]
            split
            · exact hval.le
            · exact le_rfl
          exact Relation.ReflTransGen.head hlink (ih v hlink (exists_carries_out hnonneg hnet hlink))
  refine Lib.exists_route (hgo s (exists_carries_of_net_pos hnonneg ?_))
  rwa [h s, if_pos rfl, if_neg hne, sub_zero]

/-- A flow of value `val` as a sum of flows along paths. -/
structure Decomposition (links : Finset (V × V)) (F : V × V → A) (paths : Finset (List V)) (val : A)
    (share : List V → A) : Prop where
  nonneg : ∀ path, 0 ≤ share path
  total : ∑ path ∈ paths, share path = val
  eq_sum : ∀ link ∈ links, F link = ∑ path ∈ paths, along path (share path) link

variable {paths : Finset (List V)} {share : List V → A} {path : List V} {m : A}

omit [IsOrderedAddMonoid A] in
theorem Decomposition.of_eq_zero (hzero : ∀ link ∈ links, F link = 0) : Decomposition links F paths 0 fun _ => 0 :=
  ⟨fun _ => le_rfl, by simp, fun link hlink => by simp [hzero link hlink, along]⟩

/-- The amount along one more path. -/
theorem Decomposition.add_along (h : Decomposition links (fun link => F link - along path m link) paths val share)
    (hpath : path ∈ paths) (hm : 0 ≤ m) :
    Decomposition links F paths (val + m) fun q => share q + if q = path then m else 0 := by
  refine ⟨fun q => ?_, ?_, fun link hlink => ?_⟩
  · exact add_nonneg (h.nonneg q) (by split <;> [exact hm; exact le_rfl])
  · rw [Finset.sum_add_distrib, h.total, Finset.sum_ite_eq' paths path, if_pos hpath]
  · have hsplit : ∀ q, along q (share q + if q = path then m else 0) link =
        along q (share q) link + if q = path then along path m link else 0 := by
      intro q
      unfold along
      by_cases hq : q = path
      · subst hq
        split <;> simp
      · simp [hq]
    simp only [hsplit, Finset.sum_add_distrib, ← h.eq_sum link hlink, Finset.sum_ite_eq' paths path,
      if_pos hpath, sub_add_cancel]

/-- No link carries more than the whole flow. -/
theorem Decomposition.le_val (h : Decomposition links F paths val share) {link : V × V} (hlink : link ∈ links) :
    F link ≤ val := by
  rw [h.eq_sum link hlink, ← h.total]
  apply Finset.sum_le_sum
  intro path _
  unfold along
  split
  · exact le_rfl
  · exact h.nonneg path

omit [IsOrderedAddMonoid A] in
/-- A route has a link with the least amount. -/
theorem exists_least_link (hroute : Route (Carries links F) s t path) (hne : s ≠ t)
    (hnonneg : ∀ link ∈ links, 0 ≤ F link) :
    ∃ least ∈ pairwise path, 0 < F least ∧ ∀ link ∈ pairwise path, F least ≤ F link := by
  obtain ⟨least, hleast, hmin⟩ := (pairwise path).toFinset.exists_min_image F
    (List.toFinset_nonempty_iff _ |>.mpr (exists_mem_pairwise_of_ne hroute.head hroute.last hne))
  simp only [List.mem_toFinset] at hleast hmin
  have hcarries := isChain_iff_forall_mem_pairwise.mp hroute.chain least hleast
  exact ⟨least, hleast, lt_of_le_of_ne (hnonneg least hcarries.1) (Ne.symm hcarries.2), hmin⟩

theorem sub_along_nonneg (hnonneg : ∀ link ∈ links, 0 ≤ F link) (hm : ∀ link ∈ pairwise path, m ≤ F link) :
    ∀ link ∈ links, 0 ≤ F link - along path m link := by
  intro link hlink
  unfold along
  split
  · rename_i hmem
    exact sub_nonneg.mpr (hm link hmem)
  · rw [sub_zero]
    exact hnonneg link hlink

omit [LinearOrder A] [IsOrderedAddMonoid A] in
/-- Taking something off a route adds no link to the ones that carry something. -/
theorem carries_of_carries_sub_along (hroute : Route (Carries links F) s t path) {u v : V}
    (h : Carries links (fun link => F link - along path m link) u v) : Carries links F u v := by
  refine ⟨h.1, fun hnone => h.2 ?_⟩
  have hoff : (u, v) ∉ pairwise path := fun hmem =>
    (isChain_iff_forall_mem_pairwise.mp hroute.chain (u, v) hmem).2 hnone
  show F (u, v) - along path m (u, v) = 0
  rw [hnone, along, if_neg hoff, sub_zero]

omit [IsOrderedAddMonoid A] in
/-- Fewer links carry something when a route gives all of its least link. -/
theorem card_carrying_lt (hroute : Route (Carries links F) s t path) {least : V × V} (hleast : least ∈ pairwise path)
    (hm : m = F least) :
    (links.filter fun link => F link - along path m link ≠ 0).card <
      (links.filter fun link => F link ≠ 0).card := by
  have hcarries := isChain_iff_forall_mem_pairwise.mp hroute.chain least hleast
  refine Finset.card_lt_card (Finset.ssubset_iff_of_subset ?_ |>.mpr ⟨least, ?_, ?_⟩)
  · intro link hlink
    rw [Finset.mem_filter] at hlink ⊢
    exact ⟨hlink.1, (carries_of_carries_sub_along hroute hlink).2⟩
  · exact Finset.mem_filter.mpr hcarries
  · simp [along, hleast, hm]

/-- A flow without cycles is a sum of flows along routes; `paths` holds at least all routes. -/
theorem IsFlow.exists_decomposition (h : IsFlow links F s t val) (hval : 0 ≤ val) (hne : s ≠ t)
    (hnonneg : ∀ link ∈ links, 0 ≤ F link) (hacyclic : Acyclic (Carries links F))
    (hpaths : ∀ path, Route (Carries links F) s t path → path ∈ paths) :
    ∃ share, Decomposition links F paths val share := by
  -- by induction on the number of links that carry something
  obtain ⟨n, hn⟩ : ∃ n, (links.filter fun link => F link ≠ 0).card = n := ⟨_, rfl⟩
  induction n using Nat.strong_induction_on generalizing F val with
  | _ n ih =>
      rcases hval.eq_or_lt with hzero | hpos
      · subst hzero
        exact ⟨_, .of_eq_zero (h.eq_zero hnonneg hacyclic)⟩
      obtain ⟨path, hroute⟩ := h.exists_route hpos hne hnonneg hacyclic
      obtain ⟨least, hleast, hleastpos, hmin⟩ := exists_least_link hroute hne hnonneg
      -- take off the route as much as it can give, but not more than the whole flow
      have hrest := h.sub_along hroute (min val (F least))
      have hnonneg' := sub_along_nonneg hnonneg fun link hlink =>
        le_trans (min_le_right val (F least)) (hmin link hlink)
      have hacyclic' := hacyclic.mono fun u v => carries_of_carries_sub_along (m := min val (F least)) hroute
      have hshare : ∃ share, Decomposition links (fun link => F link - along path (min val (F least)) link) paths
          (val - min val (F least)) share := by
        rcases min_choice val (F least) with hall | hsome
        · rw [hall, sub_self] at hrest ⊢
          rw [hall] at hnonneg' hacyclic'
          exact ⟨_, .of_eq_zero (hrest.eq_zero hnonneg' hacyclic')⟩
        · exact ih _ (hn ▸ card_carrying_lt hroute hleast hsome) hrest (sub_nonneg.mpr (min_le_left _ _)) hnonneg'
            hacyclic' (fun path' hroute' => hpaths path' (hroute'.mono fun u v => carries_of_carries_sub_along hroute))
            rfl
      obtain ⟨share, hshare⟩ := hshare
      have hadd := hshare.add_along (hpaths path hroute) (lt_min hpos hleastpos).le
      rw [sub_add_cancel] at hadd
      exact ⟨_, hadd⟩

/-! ### Giving each route its least link -/

/-- Every route has a link that no other route uses. -/
def PrivateLinks (paths : Finset (List V)) : Prop :=
  ∀ path ∈ paths, ∃ link ∈ pairwise path, ∀ other ∈ paths, link ∈ pairwise other → other = path

/-- `ratio` gives each route the least amount on its links. -/
structure LeastAmount (F : V × V → A) (paths : Finset (List V)) (ratio : List V → A) : Prop where
  pos : ∀ path ∈ paths, 0 < ratio path
  le : ∀ path ∈ paths, ∀ link ∈ pairwise path, ratio path ≤ F link
  attained : ∀ path ∈ paths, ∃ link ∈ pairwise path, ratio path = F link

variable {ratio : List V → A}

omit [LinearOrder A] [IsOrderedAddMonoid A] in
theorem sum_along_eq_of_private {amount : List V → A} {path : List V} (hpath : path ∈ paths) {link : V × V}
    (hlink : link ∈ pairwise path) (hprivate : ∀ other ∈ paths, link ∈ pairwise other → other = path) :
    ∑ q ∈ paths, along q (amount q) link = amount path := by
  rw [Finset.sum_eq_single_of_mem path hpath]
  · rw [along, if_pos hlink]
  · intro q hq hne
    rw [along, if_neg fun hmem => hne (hprivate q hq hmem)]

/-- With private links the least amount of a route is its share of the flow. -/
theorem LeastAmount.eq_share (hratio : LeastAmount F paths ratio) (hprivate : PrivateLinks paths)
    (hlinks : ∀ path ∈ paths, ∀ link ∈ pairwise path, link ∈ links)
    (hdecomp : Decomposition links F paths val share)
    (hpath : path ∈ paths) : ratio path = share path := by
  apply le_antisymm
  · obtain ⟨link, hlink, honly⟩ := hprivate path hpath
    have hF := hdecomp.eq_sum link (hlinks path hpath link hlink)
    rw [sum_along_eq_of_private hpath hlink honly] at hF
    exact hF ▸ hratio.le path hpath link hlink
  · obtain ⟨link, hlink, heq⟩ := hratio.attained path hpath
    rw [heq, hdecomp.eq_sum link (hlinks path hpath link hlink)]
    have hterm : along path (share path) link = share path := if_pos hlink
    rw [← hterm]
    refine Finset.single_le_sum (f := fun q => along q (share q) link) (fun q _ => ?_) hpath
    show 0 ≤ along q (share q) link
    unfold along
    split
    · exact hdecomp.nonneg q
    · exact le_rfl

/-- The least amounts reproduce the flow exactly when every route has a private link. -/
theorem LeastAmount.realises_iff (hratio : LeastAmount F paths ratio)
    (hlinks : ∀ path ∈ paths, ∀ link ∈ pairwise path, link ∈ links)
    (hdecomp : Decomposition links F paths val share) :
    (∀ link ∈ links, ∑ path ∈ paths, along path (ratio path) link = F link) ↔ PrivateLinks paths := by
  constructor
  · intro hrealises path hpath
    obtain ⟨link, hlink, heq⟩ := hratio.attained path hpath
    refine ⟨link, hlink, fun other hother hmem => ?_⟩
    by_contra hne
    -- the other route would add to a link that is already used up
    have hsum := hrealises link (hlinks path hpath link hlink)
    have hpair : ratio path + ratio other ≤ ∑ q ∈ paths, along q (ratio q) link := by
      have hsub : ({path, other} : Finset (List V)) ⊆ paths := by
        intro q hq
        rcases Finset.mem_insert.mp hq with rfl | hq
        · exact hpath
        · exact Finset.mem_singleton.mp hq ▸ hother
      have hle := Finset.sum_le_sum_of_subset_of_nonneg (f := fun q => along q (ratio q) link) hsub
        (fun q hq _ => by
          change 0 ≤ along q (ratio q) link
          unfold along
          split
          · exact (hratio.pos q hq).le
          · exact le_rfl)
      rw [Finset.sum_pair (Ne.symm hne)] at hle
      simpa only [along, if_pos hlink, if_pos hmem] using hle
    rw [hsum, ← heq] at hpair
    exact absurd hpair (not_le.mpr (lt_add_of_pos_right _ (hratio.pos other hother)))
  · intro hprivate link hlink
    rw [hdecomp.eq_sum link hlink]
    apply Finset.sum_congr rfl
    intro path hpath
    rw [hratio.eq_share hprivate hlinks hdecomp hpath]

end Decomposition

end OfTestbed.Lib
