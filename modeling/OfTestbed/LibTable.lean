import Mathlib.Data.List.Perm.Basic
import OfTestbed.LibDefaultDict

/-!
Tables that a loop fills in: for every element of a list that has a place, a pair of keys, its value is assigned there;
elements without a place are passed over, and the loop ends with an error at one whose value cannot be computed. Where
no two elements have the same place, the table holds the values of the elements and nothing else.
-/

namespace OfTestbed.Lib.Dict

variable {α κ ι ν : Type} [DecidableEq κ] [DecidableEq ι]

/-- A dictionary has at most one entry for a key. -/
theorem map_filter_entries (d : Dict κ ν) (k : κ) : (d.entries.filter (·.1 = k)).map Prod.snd = (d.get? k).toList := by
  obtain ⟨entries, nodupKeys⟩ := d
  change (entries.filter (·.1 = k)).map Prod.snd = (entries.lookup k).toList
  induction entries with
  | nil => rfl
  | cons e rest ih =>
      rw [List.map_cons, List.nodup_cons] at nodupKeys
      by_cases hk : e.1 = k
      · subst hk
        have hrest : rest.filter (·.1 = e.1) = [] := by
          rw [List.filter_eq_nil_iff]
          intro e' he' heq
          exact nodupKeys.1 (List.mem_map.mpr ⟨e', he', of_decide_eq_true heq⟩)
        rw [List.filter_cons_of_pos (by simp), hrest, List.lookup_cons_self]
        rfl
      · rw [List.filter_cons_of_neg (by simpa using hk), List.lookup_cons, beq_eq_false_iff_ne.mpr (Ne.symm hk)]
        exact ih nodupKeys.2

/-- The group of a key holds the values that were put under it, and there is one where there are such values. -/
theorem get?_groups (l : List (κ × ν)) (k : κ) :
    (groups l).get? k = if l.filter (·.1 = k) = [] then none else some ((l.filter (·.1 = k)).map Prod.snd) := by
  induction l using List.reverseRecOn with
  | nil => rfl
  | append_singleton l e ih =>
      have hpush : groups (l ++ [e]) = (groups l).push e.1 e.2 := by
        rw [groups, List.foldl_append]
        rfl
      rw [hpush, push, get?_set, List.filter_append]
      by_cases hk : k = e.1
      · subst hk
        rw [if_pos rfl, ih]
        by_cases hnil : l.filter (·.1 = e.1) = []
        · simp [hnil]
        · simp [hnil]
      · have hlast : [e].filter (·.1 = k) = [] := by simp [Ne.symm hk]
        rw [if_neg hk, ih, hlast, List.append_nil]

variable (place : α → Option (κ × ι)) (value : α → Option ν)

/-- One turn of the loop. -/
def fillStep (d : Dict κ (Dict ι ν)) (a : α) : Option (Dict κ (Dict ι ν)) :=
  match place a with
  | none => some d
  | some x => (value a).map (d.set2 x.1 x.2)

def fillIn (l : List α) : Option (Dict κ (Dict ι ν)) := l.foldlM (fillStep place value) empty

variable {place value} {l : List α} {d : Dict κ (Dict ι ν)}

theorem fillIn_concat (l : List α) (a : α) :
    fillIn place value (l ++ [a]) = (fillIn place value l).bind fun d => fillStep place value d a := by
  rw [fillIn, List.foldlM_append]
  simp [fillIn]

/-- The loop ends without an error when every element with a place has a value. -/
theorem isSome_fillIn_iff :
    (fillIn place value l).isSome ↔ ∀ a ∈ l, (place a).isSome → (value a).isSome := by
  induction l using List.reverseRecOn with
  | nil => exact iff_of_true rfl fun a ha => absurd ha List.not_mem_nil
  | append_singleton l a ih =>
      have hturn : ∀ d, (fillStep place value d a).isSome ↔ ((place a).isSome → (value a).isSome) := by
        intro d
        cases hplace : place a <;> simp [fillStep, hplace]
      rw [fillIn_concat, List.forall_mem_append, List.forall_mem_singleton, ← ih]
      cases fillIn place value l with
      | none => simp
      | some d =>
          rw [Option.bind_some, hturn]
          simp

/-- No two elements have the same place. -/
def OwnPlaces (place : α → Option (κ × ι)) (l : List α) : Prop := (l.filterMap place).Nodup

theorem get2?_fillIn (h : fillIn place value l = some d) (hown : OwnPlaces place l) (x : κ × ι) (v : ν) :
    d.get2? x.1 x.2 = some v ↔ ∃ a ∈ l, place a = some x ∧ value a = some v := by
  induction l using List.reverseRecOn generalizing d with
  | nil =>
      obtain rfl : empty = d := Option.some.inj h
      simp
  | append_singleton l a ih =>
      rw [fillIn_concat, Option.bind_eq_some_iff] at h
      obtain ⟨d', hd', hturn⟩ := h
      rw [OwnPlaces, List.filterMap_append, List.nodup_append] at hown
      have hbefore := ih hd' hown.1
      cases hplace : place a with
      | none =>
          obtain rfl : d' = d := by simpa [fillStep, hplace] using hturn
          rw [hbefore]
          simp [hplace]
      | some y =>
          obtain ⟨w, hw, rfl⟩ : ∃ w, value a = some w ∧ d'.set2 y.1 y.2 w = d := by
            simpa [fillStep, hplace] using hturn
          rw [get2?_set2_pair]
          by_cases hxy : x = y
          · subst hxy
            have hnone : ∀ a' ∈ l, place a' ≠ some x := by
              intro a' ha' hplace'
              exact hown.2.2 x (List.mem_filterMap.mpr ⟨a', ha', hplace'⟩) x
                (List.mem_filterMap.mpr ⟨a, List.mem_singleton_self a, hplace⟩) rfl
            rw [if_pos rfl, Option.some_or]
            constructor
            · intro heq
              exact ⟨a, List.mem_append_right _ (List.mem_singleton_self a), hplace, hw.trans heq⟩
            · rintro ⟨a', ha', hplace', hvalue'⟩
              rcases List.mem_append.mp ha' with hl | hlast
              · exact absurd hplace' (hnone a' hl)
              · rw [List.mem_singleton.mp hlast] at hvalue'
                exact hw.symm.trans hvalue'
          · rw [if_neg hxy, Option.none_or, hbefore]
            have hlast : place a ≠ some x := fun heq => hxy (Option.some.inj (heq.symm.trans hplace))
            constructor
            · rintro ⟨a', ha', hrest⟩
              exact ⟨a', List.mem_append_left _ ha', hrest⟩
            · rintro ⟨a', ha', hplace', hvalue'⟩
              rcases List.mem_append.mp ha' with hl | hsingle
              · exact ⟨a', hl, hplace', hvalue'⟩
              · exact absurd (List.mem_singleton.mp hsingle ▸ hplace') hlast

/-- The table has an entry for every element with a place, and no other. -/
theorem perm_places_fillIn (h : fillIn place value l = some d) (hown : OwnPlaces place l) :
    (d.items2.map Prod.fst).Perm (l.filterMap place) := by
  rw [List.perm_ext_iff_of_nodup (nodup_items2 d) hown]
  intro x
  rw [List.mem_filterMap, List.mem_map]
  constructor
  · rintro ⟨⟨x', v⟩, hmem, rfl⟩
    obtain ⟨a, ha, hplace, -⟩ := (get2?_fillIn h hown x' v).mp (mem_items2.mp hmem)
    exact ⟨a, ha, hplace⟩
  · rintro ⟨a, ha, hplace⟩
    have hvalue := isSome_fillIn_iff.mp (by rw [h]; rfl) a ha (by rw [hplace]; rfl)
    obtain ⟨v, hv⟩ := Option.isSome_iff_exists.mp hvalue
    exact ⟨(x, v), mem_items2.mpr ((get2?_fillIn h hown x v).mpr ⟨a, ha, hplace, hv⟩), rfl⟩

end OfTestbed.Lib.Dict
