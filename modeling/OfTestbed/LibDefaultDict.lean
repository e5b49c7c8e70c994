import Mathlib.Algebra.BigOperators.Group.List.Basic
import Mathlib.Tactic.Abel
import OfTestbed.LibDict

/-!
Dictionaries whose missing entries have a default: the groups that `defaultdict(list)` collects and the counters of
`defaultdict(float)`. A group is never empty, the groups stand in the order in which their keys were first met, and
each holds its values in the order in which they were met. Then dictionaries of dictionaries, as `defaultdict(dict)`
holds them.
-/

namespace OfTestbed.Lib.Dict

variable {κ ν μ : Type}

def mapValues (f : ν → μ) (d : Dict κ ν) : Dict κ μ where
  entries := d.entries.map fun e => (e.1, f e.2)
  nodupKeys := by
    rw [List.map_map]
    exact d.nodupKeys

variable [DecidableEq κ]

theorem set_ne_nil (d : Dict κ ν) (k : κ) (v : ν) : (d.set k v).entries ≠ [] := by
  intro hnil
  have hget := get?_set_self d k v
  rw [get?_eq_some_iff] at hget
  exact absurd hget (hnil ▸ List.not_mem_nil)

theorem ofList_ne_nil {l : List (κ × ν)} (h : l ≠ []) : (ofList l).entries ≠ [] := by
  obtain ⟨before, last, rfl⟩ := List.eq_nil_or_concat l |>.resolve_left h
  rw [ofList, List.concat_eq_append, List.foldl_append]
  exact set_ne_nil _ _ _

theorem get?_mapValues (f : ν → μ) (d : Dict κ ν) (k : κ) : (d.mapValues f).get? k = (d.get? k).map f := by
  apply Option.ext
  intro w
  simp only [get?_eq_some_iff, mapValues, List.mem_map, Option.map_eq_some_iff]
  constructor
  · rintro ⟨e, he, heq⟩
    cases heq
    exact ⟨e.2, he, rfl⟩
  · rintro ⟨v, hv, rfl⟩
    exact ⟨(k, v), hv, rfl⟩

/-- The assignments of a display leave no entries but those assigned. -/
theorem mem_of_mem_ofList {l : List (κ × ν)} {e : κ × ν} (h : e ∈ (ofList l).entries) : e ∈ l := by
  suffices hfold : ∀ (l : List (κ × ν)) (d : Dict κ ν), e ∈ (l.foldl (fun d e => d.set e.1 e.2) d).entries →
      e ∈ d.entries ∨ e ∈ l from (hfold l empty h).resolve_left List.not_mem_nil
  intro l
  induction l with
  | nil =>
      intro d hmem
      exact Or.inl hmem
  | cons first rest ih =>
      intro d hmem
      rcases ih (d.set first.1 first.2) hmem with hset | hrest
      · have hget : (d.set first.1 first.2).get? e.1 = some e.2 := get?_eq_some_iff.mpr hset
        rw [get?_set] at hget
        split at hget
        · rename_i hkey
          exact Or.inr (List.mem_cons.mpr (Or.inl (Prod.ext hkey (Option.some.inj hget).symm)))
        · exact Or.inl (get?_eq_some_iff.mp hget)
      · exact Or.inr (List.mem_cons_of_mem first hrest)

/-- `d[k].append(v)`, for a dictionary whose missing entries are empty lists. -/
def push (d : Dict κ (List ν)) (k : κ) (v : ν) : Dict κ (List ν) := d.set k ((d.get? k).getD [] ++ [v])

/-- The groups of keyed values. -/
def groups (l : List (κ × ν)) : Dict κ (List ν) := l.foldl (fun d e => d.push e.1 e.2) empty

/-- The keyed values of groups. -/
def ungroup (d : Dict κ (List ν)) : List (κ × ν) := d.entries.flatMap fun e => e.2.map (e.1, ·)

/-- A group is not empty and holds values of its key. -/
theorem groups_spec (l : List (κ × ν)) : ∀ e ∈ (groups l).entries, e.2 ≠ [] ∧ ∀ v ∈ e.2, (e.1, v) ∈ l := by
  suffices hfold : ∀ (l done : List (κ × ν)) (d : Dict κ (List ν)),
      (∀ e ∈ d.entries, e.2 ≠ [] ∧ ∀ v ∈ e.2, (e.1, v) ∈ done) →
      ∀ e ∈ (l.foldl (fun d e => d.push e.1 e.2) d).entries, e.2 ≠ [] ∧ ∀ v ∈ e.2, (e.1, v) ∈ done ++ l from
    hfold l [] empty fun e he => absurd he List.not_mem_nil
  intro l
  induction l with
  | nil =>
      intro done d hd
      simpa using hd
  | cons first rest ih =>
      intro done d hd
      have hnext := ih (done ++ [first]) (d.push first.1 first.2)
      rw [List.append_assoc, List.singleton_append] at hnext
      apply hnext
      intro e he
      have hget : (d.push first.1 first.2).get? e.1 = some e.2 := get?_eq_some_iff.mpr he
      rw [push, get?_set] at hget
      split at hget
      · rename_i hkey
        rw [← Option.some.inj hget]
        refine ⟨by simp, fun v hv => ?_⟩
        rcases List.mem_append.mp hv with hold | hnew
        · cases hgroup : d.get? first.1 with
          | none => simp [hgroup] at hold
          | some group =>
              rw [hgroup, Option.getD_some] at hold
              rw [hkey]
              exact List.mem_append_left _ ((hd _ (get?_eq_some_iff.mp hgroup)).2 v hold)
        · rw [hkey, List.mem_singleton.mp hnew]
          exact List.mem_append_right _ List.mem_cons_self
      · obtain ⟨hne, hmem⟩ := hd e (get?_eq_some_iff.mp hget)
        exact ⟨hne, fun v hv => List.mem_append_left _ (hmem v hv)⟩

theorem groups_ne_nil {l : List (κ × ν)} (h : l ≠ []) : (groups l).entries ≠ [] := by
  obtain ⟨before, last, rfl⟩ := List.eq_nil_or_concat l |>.resolve_left h
  rw [groups, List.concat_eq_append, List.foldl_append]
  exact set_ne_nil _ _ _

/-- Appending to the group of the last key. -/
theorem entries_push_last {d : Dict κ (List ν)} {before : List (κ × List ν)} {k : κ} {done : List ν}
    (h : d.entries = before ++ [(k, done)]) (v : ν) : (d.push k v).entries = before ++ [(k, done ++ [v])] := by
  have hget : d.get? k = some done := get?_eq_some_iff.mpr (by simp [h])
  have hkey : k ∈ d.keys := mem_keys_iff.mpr (by rw [hget]; rfl)
  have hnodup := d.nodupKeys
  rw [h, List.map_append, List.nodup_append] at hnodup
  rw [push, entries_set_of_mem hkey, h, hget, List.map_append, Option.getD_some]
  congr 1
  · calc before.map (fun e => if e.1 = k then (k, done ++ [v]) else e) = before.map id := by
          apply List.map_congr_left
          intro e he
          exact if_neg (hnodup.2.2 e.1 (List.mem_map_of_mem he) k (by simp))
      _ = before := List.map_id before
  · simp

theorem entries_foldl_push_last {d : Dict κ (List ν)} {before : List (κ × List ν)} {k : κ} {done : List ν}
    (h : d.entries = before ++ [(k, done)]) (values : List ν) :
    ((values.map (k, ·)).foldl (fun d e => d.push e.1 e.2) d).entries = before ++ [(k, done ++ values)] := by
  induction values generalizing d done with
  | nil => simpa using h
  | cons v rest ih =>
      rw [List.map_cons, List.foldl_cons, ih (entries_push_last h v)]
      simp

/-- A new key opens a group. -/
theorem entries_foldl_push_new {d : Dict κ (List ν)} {k : κ} (hk : k ∉ d.keys) {values : List ν}
    (hne : values ≠ []) :
    ((values.map (k, ·)).foldl (fun d e => d.push e.1 e.2) d).entries = d.entries ++ [(k, values)] := by
  cases values with
  | nil => exact absurd rfl hne
  | cons v rest =>
      have hpush : (d.push k v).entries = d.entries ++ [(k, [v])] := by
        rw [push, get?_eq_none_iff.mpr hk, entries_set_of_notMem hk]
        rfl
      rw [List.map_cons, List.foldl_cons, entries_foldl_push_last hpush]
      rfl

/-- Grouping undoes ungrouping. -/
theorem groups_ungroup {d : Dict κ (List ν)} (hne : ∀ e ∈ d.entries, e.2 ≠ []) : groups d.ungroup = d := by
  suffices hfold : ∀ (l : List (κ × List ν)) (d : Dict κ (List ν)), (∀ e ∈ l, e.2 ≠ []) →
      (d.keys ++ l.map Prod.fst).Nodup →
      ((l.flatMap fun e => e.2.map (e.1, ·)).foldl (fun d e => d.push e.1 e.2) d).entries = d.entries ++ l from
    ext_entries (hfold d.entries empty hne d.nodupKeys)
  intro l
  induction l with
  | nil =>
      intro d _ _
      exact (List.append_nil d.entries).symm
  | cons e rest ih =>
      intro d hne hnodup
      have hnew : e.1 ∉ d.keys := by
        intro hmem
        exact (List.nodup_append.mp hnodup).2.2 e.1 hmem e.1 (by simp) rfl
      have hfirst := entries_foldl_push_new hnew (hne e List.mem_cons_self)
      rw [List.flatMap_cons, List.foldl_append, ih _ (fun e' he' => hne e' (List.mem_cons_of_mem e he')), hfirst,
        List.append_assoc]
      · rfl
      · rw [keys, hfirst, List.map_append]
        simpa [keys] using hnodup

/-- Ungrouping undoes grouping where the keys come one after the other, as those of a dictionary do. -/
theorem ungroup_groups {d : Dict κ (List μ)} {l : List (κ × ν)}
    (h : l.map Prod.fst = d.ungroup.map Prod.fst) : (groups l).ungroup = l := by
  suffices hfold : ∀ (entries : List (κ × List μ)) (l : List (κ × ν)) (done : Dict κ (List ν)),
      l.map Prod.fst = entries.flatMap (fun e => e.2.map fun _ => e.1) → (done.keys ++ entries.map Prod.fst).Nodup →
      (l.foldl (fun d e => d.push e.1 e.2) done).ungroup = done.ungroup ++ l by
    refine hfold d.entries l empty ?_ d.nodupKeys
    rw [h, ungroup, List.map_flatMap]
    simp only [List.map_map, Function.comp_def]
  intro entries
  induction entries with
  | nil =>
      intro l done hkeys _
      rw [List.flatMap_nil, List.map_eq_nil_iff] at hkeys
      rw [hkeys, List.append_nil]
      rfl
  | cons e rest ih =>
      intro l done hkeys hnodup
      rw [List.flatMap_cons, List.map_eq_append_iff] at hkeys
      obtain ⟨block, l', rfl, hblock, hrest⟩ := hkeys
      have hvalues : block = (block.map Prod.snd).map (e.1, ·) := by
        rw [List.map_map]
        conv_lhs => rw [← List.map_id block]
        apply List.map_congr_left
        intro x hx
        have hkey : x.1 ∈ e.2.map fun _ => e.1 := hblock ▸ List.mem_map_of_mem hx
        obtain ⟨_, -, hkey⟩ := List.mem_map.mp hkey
        exact Prod.ext hkey.symm rfl
      cases hsnd : block.map Prod.snd with
      | nil =>
          have hempty : block = [] := List.map_eq_nil_iff.mp hsnd
          rw [hempty, List.nil_append]
          refine ih l' done hrest (hnodup.sublist ?_)
          exact (List.sublist_cons_self e.1 _).append_left done.keys
      | cons v values =>
          have hnew : e.1 ∉ done.keys := by
            intro hmem
            exact (List.nodup_append.mp hnodup).2.2 e.1 hmem e.1 List.mem_cons_self rfl
          have hfirst := entries_foldl_push_new hnew (List.cons_ne_nil v values)
          rw [← hsnd, ← hvalues] at hfirst
          have hungroup : (block.foldl (fun d e => d.push e.1 e.2) done).ungroup = done.ungroup ++ block := by
            rw [ungroup, hfirst, List.flatMap_append, List.flatMap_singleton, ← hvalues]
            rfl
          rw [List.foldl_append, ih l' _ hrest, hungroup, List.append_assoc]
          rw [keys, hfirst, List.map_append, List.append_assoc]
          exact hnodup

/-! ### Sums -/

section Sums

variable [AddCommMonoid ν]

/-- `d[k] += v`, for a dictionary whose missing entries are zero. -/
def addTo (d : Dict κ ν) (k : κ) (v : ν) : Dict κ ν := d.set k ((d.get? k).getD 0 + v)

/-- What a loop of additions leaves under a key: the sum of what was added under it. -/
theorem get?_foldl_addTo {α : Type} (l : List α) (key : α → κ) (value : α → ν) (k : κ) :
    (l.foldl (fun d a => d.addTo (key a) (value a)) empty).get? k =
      if k ∈ l.map key then some ((l.filter (key · = k)).map value).sum else none := by
  induction l using List.reverseRecOn with
  | nil => rfl
  | append_singleton before last ih =>
      rw [List.foldl_append, List.foldl_cons, List.foldl_nil, addTo, get?_set, List.map_append, List.filter_append]
      by_cases hk : k = key last
      · subst hk
        rw [if_pos rfl, if_pos (by simp), ih]
        by_cases hmem : key last ∈ before.map key
        · rw [if_pos hmem]
          simp
        · have hnone : before.filter (key · = key last) = [] := by
            apply List.filter_eq_nil_iff.mpr
            intro a ha hkey
            exact hmem (List.mem_map.mpr ⟨a, ha, of_decide_eq_true hkey⟩)
          rw [if_neg hmem, hnone]
          simp
      · rw [if_neg hk, ih]
        simp [hk, Ne.symm hk]

/-- The dictionary holds the values of `v` under the first `n` numbers, in their order. -/
def Tabulates (d : Dict Nat ν) (n : Nat) (v : Nat → ν) : Prop := d.entries = (List.range n).map fun i => (i, v i)

omit [AddCommMonoid ν] in
theorem tabulates_empty (v : Nat → ν) : (empty : Dict Nat ν).Tabulates 0 v := rfl

omit [AddCommMonoid ν] in
theorem Tabulates.keys_eq {d : Dict Nat ν} {n : Nat} {v : Nat → ν} (h : d.Tabulates n v) : d.keys = List.range n := by
  rw [keys, h, List.map_map]
  exact List.map_id (List.range n)

omit [AddCommMonoid ν] in
theorem Tabulates.values_eq {d : Dict Nat ν} {n : Nat} {v : Nat → ν} (h : d.Tabulates n v) :
    d.values = (List.range n).map v := by
  rw [values, h, List.map_map]
  rfl

/-- An addition at a present position changes it in place, one at the first missing position appends it. -/
theorem Tabulates.addTo {d : Dict Nat ν} {n k : Nat} {v : Nat → ν} (h : d.Tabulates n v)
    (hzero : ∀ i, n ≤ i → v i = 0) (hk : k ≤ n) (x : ν) :
    (d.addTo k x).Tabulates (max n (k + 1)) fun i => if i = k then v i + x else v i := by
  unfold Tabulates
  by_cases hlt : k < n
  · have hmem : k ∈ d.keys := by
      rw [h.keys_eq]
      exact List.mem_range.mpr hlt
    have hget : d.get? k = some (v k) := by
      rw [get?_eq_some_iff, h]
      exact List.mem_map.mpr ⟨k, List.mem_range.mpr hlt, rfl⟩
    rw [Dict.addTo, entries_set_of_mem hmem, hget, h, List.map_map, Nat.max_eq_left hlt]
    apply List.map_congr_left
    intro i _
    by_cases hi : i = k
    · subst hi
      simp
    · simp [hi]
  · have hlast : k = n := by omega
    subst hlast
    have hmem : k ∉ d.keys := by
      rw [h.keys_eq]
      exact List.not_mem_range_self
    rw [Dict.addTo, entries_set_of_notMem hmem, get?_eq_none_iff.mpr hmem, h, Nat.max_eq_right (Nat.le_succ k),
      List.range_succ, List.map_append]
    congr 1
    · apply List.map_congr_left
      intro i hi
      show (i, v i) = (i, if i = k then v i + x else v i)
      rw [if_neg (Nat.ne_of_lt (List.mem_range.mp hi))]
    · simp [hzero k (Nat.le_refl k)]

/-- A list that is added position by position is counted as zero where it has no entry. -/
theorem Tabulates.foldl_addTo {α : Type} {d : Dict Nat ν} {n : Nat} {v : Nat → ν} (h : d.Tabulates n v)
    (hzero : ∀ i, n ≤ i → v i = 0) (value : α → ν) (l : List α) :
    (l.zipIdx.foldl (fun d e => d.addTo e.2 (value e.1)) d).Tabulates (max n l.length)
      fun i => v i + (l.map value).getD i 0 := by
  induction l using List.reverseRecOn with
  | nil => simpa using h
  | append_singleton before last ih =>
      have hbeyond : ∀ i, max n before.length ≤ i → v i + (before.map value).getD i 0 = 0 := by
        intro i hi
        rw [hzero i (by omega), List.getD_eq_getElem?_getD, List.getElem?_eq_none (by rw [List.length_map]; omega),
          Option.getD_none, add_zero]
      have hvalues : (fun i => v i + ((before ++ [last]).map value).getD i 0) = fun i =>
          if i = before.length then v i + (before.map value).getD i 0 + value last
          else v i + (before.map value).getD i 0 := by
        funext i
        rw [List.map_append, List.getD_eq_getElem?_getD, List.getD_eq_getElem?_getD, List.getElem?_append,
          List.length_map]
        rcases Nat.lt_trichotomy i before.length with hlt | rfl | hgt
        · rw [if_pos hlt, if_neg (Nat.ne_of_lt hlt)]
        · simp
        · rw [if_neg (Nat.lt_asymm hgt), if_neg (Nat.ne_of_gt hgt), List.getElem?_eq_none (by simp; omega),
            List.getElem?_eq_none (by simp; omega)]
      rw [List.zipIdx_append, List.foldl_append, Nat.zero_add, List.length_append, List.length_singleton, hvalues,
        show max n (before.length + 1) = max (max n before.length) (before.length + 1) by omega]
      exact ih.addTo hbeyond (Nat.le_max_right n before.length) (value last)

/-- An addition to a present entry adds to the sum of the values. -/
theorem sum_values_set {d : Dict κ ν} {k : κ} {v : ν} (h : d.get? k = some v) (x : ν) :
    (d.set k (v + x)).values.sum = d.values.sum + x := by
  have hmem : k ∈ d.keys := mem_keys_iff.mpr (by rw [h]; rfl)
  obtain ⟨before, after, hentries⟩ := List.append_of_mem (get?_eq_some_iff.mp h)
  have hnodup := d.nodupKeys
  rw [hentries, List.map_append, List.map_cons, List.nodup_append, List.nodup_cons] at hnodup
  obtain ⟨-, ⟨hafter, -⟩, hbefore⟩ := hnodup
  have hkeep : ∀ l : List (κ × ν), k ∉ l.map Prod.fst → l.map (fun e => if e.1 = k then (k, v + x) else e) = l := by
    intro l hl
    calc l.map (fun e => if e.1 = k then (k, v + x) else e) = l.map id := by
          apply List.map_congr_left
          intro e he
          have hne : e.1 ≠ k := fun hkey => hl (hkey ▸ List.mem_map_of_mem he)
          exact if_neg hne
      _ = l := List.map_id l
  have hout : k ∉ before.map Prod.fst := fun hk => hbefore k hk k List.mem_cons_self rfl
  rw [values, values, entries_set_of_mem hmem, hentries, List.map_append, List.map_cons, hkeep before hout,
    hkeep after hafter, if_pos rfl]
  simp only [List.map_append, List.map_cons, List.sum_append, List.sum_cons]
  abel

/-- A loop of `d[k] += v` on a dictionary without a default raises no `KeyError` exactly when its keys are there. -/
theorem isSome_foldlM_update?_iff {α : Type} (l : List α) (key : α → κ) (value : α → ν) (d : Dict κ ν) :
    (l.foldlM (fun (d : Dict κ ν) a => d.update? (key a) fun v => some (v + value a)) d).isSome ↔
      ∀ a ∈ l, key a ∈ d.keys := by
  induction l generalizing d with
  | nil => simp
  | cons a rest ih =>
      rw [List.foldlM_cons, List.forall_mem_cons]
      cases hget : d.get? (key a) with
      | none =>
          have hout : key a ∉ d.keys := get?_eq_none_iff.mp hget
          simp [update?_of_none hget, hout]
      | some v =>
          have hin : key a ∈ d.keys := mem_keys_iff.mpr (by rw [hget]; rfl)
          have hrest := ih (d.set (key a) (v + value a))
          rw [keys_set_of_mem hin] at hrest
          rw [update?_of_some hget]
          simpa [hin] using hrest

/-- It leaves the keys as they are and adds under each of them what was added under it. -/
theorem get?_foldlM_update? {α : Type} {l : List α} {key : α → κ} {value : α → ν} {d d' : Dict κ ν}
    (h : l.foldlM (fun (d : Dict κ ν) a => d.update? (key a) fun v => some (v + value a)) d = some d') :
    d'.keys = d.keys ∧ ∀ k v, d.get? k = some v →
      d'.get? k = some (v + (l.map fun a => if key a = k then value a else 0).sum) := by
  induction l generalizing d with
  | nil =>
      cases h
      refine ⟨rfl, fun k v hv => ?_⟩
      rw [hv, List.map_nil, List.sum_nil, add_zero]
  | cons a rest ih =>
      rw [List.foldlM_cons, Option.bind_eq_bind, Option.bind_eq_some_iff] at h
      obtain ⟨d₁, hfirst, hrest⟩ := h
      obtain ⟨hkeys, hget⟩ := ih hrest
      obtain ⟨w, w', hw, hchange, rfl⟩ := update?_eq_some_iff.mp hfirst
      cases hchange
      have hin : key a ∈ d.keys := mem_keys_iff.mpr (by rw [hw]; rfl)
      refine ⟨hkeys.trans (keys_set_of_mem hin), fun k v hv => ?_⟩
      rw [List.map_cons, List.sum_cons, ← add_assoc]
      apply hget
      rw [get?_set]
      by_cases hk : k = key a
      · subst hk
        rw [hw] at hv
        rw [if_pos rfl, if_pos rfl, Option.some.inj hv]
      · rw [if_neg hk, if_neg (Ne.symm hk), add_zero, hv]

end Sums

/-! ### Dictionaries of dictionaries -/

section Nested

variable {ι : Type} [DecidableEq ι]

/-- `d[k][j]`. -/
def get2? (d : Dict κ (Dict ι ν)) (k : κ) (j : ι) : Option ν := (d.get? k).bind (·.get? j)

/-- `d[k][j] = v`, for a dictionary whose missing entries are empty dictionaries. -/
def set2 (d : Dict κ (Dict ι ν)) (k : κ) (j : ι) (v : ν) : Dict κ (Dict ι ν) :=
  d.set k (((d.get? k).getD empty).set j v)

theorem get2?_set2 (d : Dict κ (Dict ι ν)) (k k' : κ) (j j' : ι) (v : ν) :
    (d.set2 k j v).get2? k' j' = if k' = k ∧ j' = j then some v else d.get2? k' j' := by
  rw [get2?, set2, get?_set]
  by_cases hk : k' = k
  · subst hk
    rw [if_pos rfl, Option.bind_some, get?_set]
    by_cases hj : j' = j
    · rw [if_pos hj, if_pos ⟨rfl, hj⟩]
    · rw [if_neg hj, if_neg (fun h => hj h.2), get2?]
      cases d.get? k' <;> rfl
  · rw [if_neg hk, if_neg (fun h => hk h.1), get2?]

/-- The same under the pair of keys. -/
theorem get2?_set2_pair (d : Dict κ (Dict ι ν)) (x : κ × ι) (v : ν) (x' : κ × ι) :
    (d.set2 x.1 x.2 v).get2? x'.1 x'.2 = (if x' = x then some v else none).or (d.get2? x'.1 x'.2) := by
  rw [get2?_set2]
  by_cases hx : x' = x
  · rw [if_pos hx, if_pos ⟨congrArg Prod.fst hx, congrArg Prod.snd hx⟩, Option.some_or]
  · rw [if_neg hx, if_neg (fun h => hx (Prod.ext h.1 h.2)), Option.none_or]

@[simp] theorem get2?_empty (k : κ) (j : ι) : (empty : Dict κ (Dict ι ν)).get2? k j = none := rfl

theorem get2?_mapValues (f : ν → μ) (d : Dict κ (Dict ι ν)) (k : κ) (j : ι) :
    (d.mapValues (mapValues f)).get2? k j = (d.get2? k j).map f := by
  rw [get2?, get?_mapValues, get2?]
  cases d.get? k with
  | none => rfl
  | some inner => exact get?_mapValues f inner j

/-- Assignments under different pairs of keys are all kept. -/
theorem get2?_foldl_set2 {l : List ((κ × ι) × ν)} (hnodup : (l.map Prod.fst).Nodup) {x : κ × ι} {v : ν}
    (hmem : (x, v) ∈ l) (d : Dict κ (Dict ι ν)) :
    (l.foldl (fun d e => d.set2 e.1.1 e.1.2 e.2) d).get2? x.1 x.2 = some v := by
  induction l using List.reverseRecOn with
  | nil => cases hmem
  | append_singleton before last ih =>
      rw [List.map_append, List.nodup_append] at hnodup
      rw [List.foldl_append, List.foldl_cons, List.foldl_nil, get2?_set2_pair]
      obtain hbefore | hlast := List.mem_append.mp hmem
      · have hne : x ≠ last.1 := hnodup.2.2 x (List.mem_map_of_mem hbefore) last.1 List.mem_cons_self
        rw [if_neg hne, Option.none_or]
        exact ih hnodup.1 hbefore
      · cases List.mem_singleton.mp hlast
        rw [if_pos rfl, Option.some_or]

/-- The values of a dictionary of dictionaries under their pairs of keys. -/
def items2 (d : Dict κ (Dict ι ν)) : List ((κ × ι) × ν) :=
  d.entries.flatMap fun e => e.2.entries.map fun e' => ((e.1, e'.1), e'.2)

theorem mem_items2 {d : Dict κ (Dict ι ν)} {x : κ × ι} {v : ν} : (x, v) ∈ d.items2 ↔ d.get2? x.1 x.2 = some v := by
  simp only [items2, List.mem_flatMap, List.mem_map, get2?, Option.bind_eq_some_iff, get?_eq_some_iff]
  constructor
  · rintro ⟨⟨k, inner⟩, he, ⟨j, w⟩, he', heq⟩
    cases heq
    exact ⟨inner, he, he'⟩
  · rintro ⟨inner, he, he'⟩
    exact ⟨(x.1, inner), he, (x.2, v), he', rfl⟩

omit [DecidableEq κ] [DecidableEq ι] in
theorem nodup_items2 (d : Dict κ (Dict ι ν)) : (d.items2.map Prod.fst).Nodup := by
  have hkeys : d.items2.map Prod.fst = d.entries.flatMap fun e => e.2.keys.map (e.1, ·) := by
    simp only [items2, List.map_flatMap, List.map_map, keys]
    rfl
  rw [hkeys, List.nodup_flatMap]
  refine ⟨fun e _ => ?_, ?_⟩
  · exact e.2.nodupKeys.map fun j j' h => (Prod.mk.inj h).2
  · apply (List.pairwise_map.mp d.nodupKeys).imp
    intro e e' hne x hx hx'
    obtain ⟨j, -, rfl⟩ := List.mem_map.mp hx
    obtain ⟨j', -, heq⟩ := List.mem_map.mp hx'
    exact hne (Prod.mk.inj heq).1.symm

theorem find?_items2 (d : Dict κ (Dict ι ν)) (x : κ × ι) :
    (d.items2.find? (·.1 = x)).map Prod.snd = d.get2? x.1 x.2 := by
  cases hfind : d.items2.find? (·.1 = x) with
  | none =>
      refine (Option.eq_none_iff_forall_ne_some.mpr fun v hv => ?_).symm
      exact List.find?_eq_none.mp hfind _ (mem_items2.mpr hv) (decide_eq_true rfl)
  | some e =>
      have hkey : e.1 = x := by simpa using List.find?_some hfind
      rw [← hkey]
      exact (mem_items2.mp (List.mem_of_find?_eq_some hfind)).symm

end Nested

/-! ### Entries that are built up -/

section Build

variable {α : Type} (add : ν → α → ν) (start : ν)

/-- Adding to the entry of a key, which begins as `start` where it is missing. -/
def addIn (d : Dict κ ν) (k : κ) (a : α) : Dict κ ν := d.set k (add ((d.get? k).getD start) a)

/-- Adding to the entry of the last key. -/
theorem entries_foldl_addIn_last {d : Dict κ ν} {before : List (κ × ν)} {k : κ} {v : ν}
    (h : d.entries = before ++ [(k, v)]) (block : List α) :
    (block.foldl (fun d a => d.addIn add start k a) d).entries = before ++ [(k, block.foldl add v)] := by
  induction block generalizing d v with
  | nil => exact h
  | cons a rest ih =>
      rw [List.foldl_cons, List.foldl_cons]
      refine ih ?_
      have hget : d.get? k = some v := get?_eq_some_iff.mpr (by simp [h])
      have hkey : k ∈ d.keys := mem_keys_iff.mpr (by rw [hget]; rfl)
      have hnodup := d.nodupKeys
      rw [h, List.map_append, List.nodup_append] at hnodup
      have hothers : before.map (fun e => if e.1 = k then (k, add v a) else e) = before.map id := by
        apply List.map_congr_left
        intro e he
        exact if_neg (hnodup.2.2 e.1 (List.mem_map_of_mem he) k (by simp))
      rw [addIn, entries_set_of_mem hkey, h, hget, Option.getD_some, List.map_append, hothers, List.map_id]
      simp

/-- A block of additions to a new key makes one entry, unless it is empty. -/
theorem entries_foldl_addIn_new {d : Dict κ ν} {k : κ} (hk : k ∉ d.keys) (block : List α) :
    (block.foldl (fun d a => d.addIn add start k a) d).entries =
      d.entries ++ if block.isEmpty then [] else [(k, block.foldl add start)] := by
  cases block with
  | nil => exact (List.append_nil d.entries).symm
  | cons a rest =>
      have hfirst : (d.addIn add start k a).entries = d.entries ++ [(k, add start a)] := by
        rw [addIn, get?_eq_none_iff.mpr hk, entries_set_of_notMem hk]
        rfl
      rw [List.foldl_cons, entries_foldl_addIn_last add start hfirst]
      rfl

/-- Additions that come key by key leave one entry for each key that has any, in their order. -/
theorem entries_foldl_addIn (blocks : List (κ × List α)) (hkeys : (blocks.map Prod.fst).Nodup) :
    ((blocks.flatMap fun b => b.2.map (b.1, ·)).foldl (fun d e => d.addIn add start e.1 e.2) empty).entries =
      (blocks.filter fun b => !b.2.isEmpty).map fun b => (b.1, b.2.foldl add start) := by
  suffices hfold : ∀ (blocks : List (κ × List α)) (d : Dict κ ν), (d.keys ++ blocks.map Prod.fst).Nodup →
      ((blocks.flatMap fun b => b.2.map (b.1, ·)).foldl (fun d e => d.addIn add start e.1 e.2) d).entries =
        d.entries ++ (blocks.filter fun b => !b.2.isEmpty).map fun b => (b.1, b.2.foldl add start) from
    hfold blocks empty hkeys
  intro blocks
  induction blocks with
  | nil =>
      intro d _
      exact (List.append_nil d.entries).symm
  | cons b rest ih =>
      intro d hnodup
      have hnew : b.1 ∉ d.keys := by
        intro hmem
        exact (List.nodup_append.mp hnodup).2.2 b.1 hmem b.1 List.mem_cons_self rfl
      have hblock := entries_foldl_addIn_new add start hnew b.2
      rw [List.flatMap_cons, List.foldl_append, List.foldl_map, ih, hblock, List.filter_cons, List.append_assoc]
      · cases b.2.isEmpty <;> rfl
      · rw [keys, hblock, List.map_append, List.append_assoc]
        refine hnodup.sublist ((List.Sublist.refl _).append ?_)
        cases b.2.isEmpty
        · exact List.Sublist.refl _
        · exact List.sublist_cons_self _ _

end Build

end OfTestbed.Lib.Dict
