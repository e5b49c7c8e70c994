import Mathlib.Data.List.Nodup
import Mathlib.Data.Finset.Basic
import Mathlib.Data.Finset.Dedup
import OfTestbed.LibLoop

/-!
Insertion-ordered dictionaries. A dictionary is the list of its entries in insertion order, with no
key twice: an assignment to a present key keeps the position of the entry, an assignment to a fresh
key appends one, and a deletion leaves the order of the others alone. Nothing here knows what is
stored.
-/

namespace OfTestbed.Lib

structure Dict (κ ν : Type) where
  entries : List (κ × ν)
  nodupKeys : (entries.map Prod.fst).Nodup
  deriving DecidableEq

namespace Dict

variable {κ ν : Type}

theorem ext_entries {d d' : Dict κ ν} (h : d.entries = d'.entries) : d = d' := by
  cases d
  cases d'
  cases h
  rfl

def empty : Dict κ ν := ⟨[], List.nodup_nil⟩

def keys (d : Dict κ ν) : List κ := d.entries.map Prod.fst

def values (d : Dict κ ν) : List ν := d.entries.map Prod.snd

variable [DecidableEq κ]

def keySet (d : Dict κ ν) : Finset κ := d.keys.toFinset

def get? (d : Dict κ ν) (k : κ) : Option ν := d.entries.lookup k

/-- `d[k] = v`. -/
def set (d : Dict κ ν) (k : κ) (v : ν) : Dict κ ν where
  entries := if k ∈ d.keys then d.entries.map fun e => if e.1 = k then (k, v) else e
    else d.entries ++ [(k, v)]
  nodupKeys := by
    split
    · have hkeys : ((d.entries.map fun e => if e.1 = k then (k, v) else e).map Prod.fst) =
          d.entries.map Prod.fst := by
        rw [List.map_map]
        apply List.map_congr_left
        intro e _
        by_cases he : e.1 = k <;> simp [he]
      rw [hkeys]
      exact d.nodupKeys
    · rename_i hk
      rw [List.map_append]
      refine List.nodup_append.mpr ⟨d.nodupKeys, by simp, ?_⟩
      intro a ha b hb hab
      simp only [List.map_cons, List.map_nil, List.mem_singleton] at hb
      exact hk (by rw [← hb, ← hab]; exact ha)

/-- `del d[k]`. -/
def erase (d : Dict κ ν) (k : κ) : Dict κ ν where
  entries := d.entries.filter fun e => e.1 ≠ k
  nodupKeys := (List.filter_sublist.map Prod.fst).nodup d.nodupKeys

/-- Look up `d[k]` and change the object found there in place; a missing key or a failing change
fails. -/
def update? (d : Dict κ ν) (k : κ) (change : ν → Option ν) : Option (Dict κ ν) := do
  let v ← d.get? k
  let v' ← change v
  return d.set k v'

/-- A dictionary display or comprehension: the assignments are made from left to right. -/
def ofList (l : List (κ × ν)) : Dict κ ν := l.foldl (fun d e => d.set e.1 e.2) empty

/-- `d == d'`: the same entries, in whatever order. -/
def SameItems (d d' : Dict κ ν) : Prop :=
  d.entries.length = d'.entries.length ∧ ∀ e ∈ d.entries, d'.get? e.1 = some e.2

instance [DecidableEq ν] (d d' : Dict κ ν) : Decidable (d.SameItems d') :=
  inferInstanceAs (Decidable (_ ∧ ∀ e ∈ d.entries, d'.get? e.1 = some e.2))

theorem mem_keys_iff {d : Dict κ ν} {k : κ} : k ∈ d.keys ↔ (d.get? k).isSome := by
  rw [get?, List.lookup_isSome_iff, keys, List.mem_map]
  simp only [beq_iff_eq]
  constructor
  · rintro ⟨e, he, rfl⟩
    exact ⟨e, he, rfl⟩
  · rintro ⟨e, he, rfl⟩
    exact ⟨e, he, rfl⟩

theorem mem_keySet {d : Dict κ ν} {k : κ} : k ∈ d.keySet ↔ (d.get? k).isSome := by
  rw [keySet, List.mem_toFinset, mem_keys_iff]

theorem card_keySet (d : Dict κ ν) : d.keySet.card = d.entries.length := by
  rw [keySet, keys, List.toFinset_card_of_nodup d.nodupKeys, List.length_map]

theorem get?_eq_some_iff {d : Dict κ ν} {k : κ} {v : ν} :
    d.get? k = some v ↔ (k, v) ∈ d.entries := by
  obtain ⟨entries, hnodup⟩ := d
  simp only [get?]
  induction entries with
  | nil => simp
  | cons e entries ih =>
      obtain ⟨k', v'⟩ := e
      rw [List.map_cons, List.nodup_cons] at hnodup
      by_cases hk : k = k'
      · subst hk
        have hout : (k, v) ∉ entries := fun h => hnodup.1 (List.mem_map.mpr ⟨_, h, rfl⟩)
        rw [List.lookup_cons_self]
        simp only [Option.some.injEq, List.mem_cons, Prod.mk.injEq, true_and, hout, or_false]
        exact eq_comm
      · have hb : (k == k') = false := by simpa using hk
        rw [List.lookup_cons, hb]
        simp only [List.mem_cons, Prod.mk.injEq, hk, false_and, false_or]
        exact ih hnodup.2

theorem SameItems.refl (d : Dict κ ν) : d.SameItems d := ⟨rfl, fun _ he => get?_eq_some_iff.mpr he⟩

theorem get?_eq_none_iff {d : Dict κ ν} {k : κ} : d.get? k = none ↔ k ∉ d.keys := by
  rw [mem_keys_iff, Option.not_isSome_iff_eq_none]

@[simp] theorem get?_empty (k : κ) : (empty : Dict κ ν).get? k = none := rfl

theorem entries_set_of_mem {d : Dict κ ν} {k : κ} {v : ν} (hk : k ∈ d.keys) :
    (d.set k v).entries = d.entries.map fun e => if e.1 = k then (k, v) else e :=
  if_pos hk

theorem entries_set_of_notMem {d : Dict κ ν} {k : κ} {v : ν} (hk : k ∉ d.keys) :
    (d.set k v).entries = d.entries ++ [(k, v)] :=
  if_neg hk

theorem get?_set (d : Dict κ ν) (k k' : κ) (v : ν) :
    (d.set k v).get? k' = if k' = k then some v else d.get? k' := by
  apply Option.ext
  intro w
  by_cases hk : k ∈ d.keys
  · rw [get?_eq_some_iff, entries_set_of_mem hk]
    simp only [List.mem_map]
    by_cases heq : k' = k
    · subst heq
      simp only [if_true, Option.some.injEq]
      obtain ⟨e, he, hek⟩ := List.mem_map.mp hk
      constructor
      · rintro ⟨e', -, h⟩
        split at h <;> simp_all
      · rintro rfl
        exact ⟨e, he, by simp [hek]⟩
    · simp only [heq, if_false, get?_eq_some_iff]
      constructor
      · rintro ⟨e', he', h⟩
        split at h
        · simp_all
        · exact h ▸ he'
      · intro h
        exact ⟨_, h, by simp [heq]⟩
  · rw [get?_eq_some_iff, entries_set_of_notMem hk]
    simp only [List.mem_append, List.mem_singleton, Prod.mk.injEq]
    by_cases heq : k' = k
    · subst heq
      have hout : (k', w) ∉ d.entries := fun h => hk (List.mem_map.mpr ⟨_, h, rfl⟩)
      simp only [hout, true_and, false_or, if_true, Option.some.injEq]
      exact eq_comm
    · simp [heq, get?_eq_some_iff]

@[simp] theorem get?_set_self (d : Dict κ ν) (k : κ) (v : ν) : (d.set k v).get? k = some v := by
  rw [get?_set, if_pos rfl]

theorem get?_set_of_ne {d : Dict κ ν} {k k' : κ} {v : ν} (h : k' ≠ k) :
    (d.set k v).get? k' = d.get? k' := by
  rw [get?_set, if_neg h]

theorem get?_erase (d : Dict κ ν) (k k' : κ) :
    (d.erase k).get? k' = if k' = k then none else d.get? k' := by
  apply Option.ext
  intro w
  rw [get?_eq_some_iff, erase]
  simp only [List.mem_filter, ne_eq, decide_not, Bool.not_eq_eq_eq_not, Bool.not_true,
    decide_eq_false_iff_not]
  by_cases heq : k' = k
  · simp [heq]
  · simp [heq, get?_eq_some_iff]

theorem keys_set_of_mem {d : Dict κ ν} {k : κ} {v : ν} (hk : k ∈ d.keys) :
    (d.set k v).keys = d.keys := by
  rw [keys, entries_set_of_mem hk, List.map_map]
  apply List.map_congr_left
  intro e _
  by_cases he : e.1 = k <;> simp [he]

theorem keys_set_of_notMem {d : Dict κ ν} {k : κ} {v : ν} (hk : k ∉ d.keys) :
    (d.set k v).keys = d.keys ++ [k] := by
  rw [keys, entries_set_of_notMem hk, List.map_append]
  rfl

theorem keys_erase (d : Dict κ ν) (k : κ) : (d.erase k).keys = d.keys.filter (· ≠ k) := by
  simp only [keys, erase, List.filter_map]
  rfl

/-- A dictionary is determined by the order of its keys and by its lookups. -/
theorem ext_get? {d d' : Dict κ ν} (hkeys : d.keys = d'.keys) (hget : ∀ k, d.get? k = d'.get? k) :
    d = d' := by
  apply ext_entries
  have hentries : ∀ c : Dict κ ν, c.entries.map some = c.keys.map fun k => (c.get? k).map (k, ·) := by
    intro c
    rw [keys, List.map_map]
    apply List.map_congr_left
    intro e he
    have hfound : c.get? e.1 = some e.2 := get?_eq_some_iff.mpr he
    simp [hfound]
  have hsome : d.entries.map some = d'.entries.map some := by
    rw [hentries, hentries, hkeys]
    simp only [hget]
  exact List.map_injective_iff.mpr (Option.some_injective _) hsome

theorem update?_eq_some_iff {d d' : Dict κ ν} {k : κ} {change : ν → Option ν} :
    d.update? k change = some d' ↔
      ∃ v v', d.get? k = some v ∧ change v = some v' ∧ d' = d.set k v' := by
  simp only [update?, Option.bind_eq_bind, Option.bind_eq_some_iff, Option.pure_def,
    Option.some.injEq]
  constructor
  · rintro ⟨v, hv, v', hv', rfl⟩
    exact ⟨v, v', hv, hv', rfl⟩
  · rintro ⟨v, v', hv, hv', rfl⟩
    exact ⟨v, hv, v', hv', rfl⟩

theorem keys_update? {d d' : Dict κ ν} {k : κ} {change : ν → Option ν}
    (h : d.update? k change = some d') : d'.keys = d.keys := by
  obtain ⟨v, v', hv, -, rfl⟩ := update?_eq_some_iff.mp h
  exact keys_set_of_mem (mem_keys_iff.mpr (by rw [hv]; rfl))

/-- What `f` sees of the entries does not change when it sees the same in the new value. -/
theorem map_get?_set {α : Type} (f : ν → α) {d : Dict κ ν} {k : κ} {v : ν} (hv : (d.get? k).map f = some (f v))
    (k' : κ) : ((d.set k v).get? k').map f = (d.get? k').map f := by
  rw [get?_set]
  by_cases hk : k' = k
  · rw [if_pos hk, hk, hv]
    rfl
  · rw [if_neg hk]

theorem map_get?_update? {α : Type} (f : ν → α) {d d' : Dict κ ν} {k : κ} {change : ν → Option ν}
    (hchange : ∀ v v', change v = some v' → f v' = f v) (h : d.update? k change = some d') (k' : κ) :
    (d'.get? k').map f = (d.get? k').map f := by
  obtain ⟨v, v', hv, hv', rfl⟩ := update?_eq_some_iff.mp h
  apply map_get?_set
  rw [hv, Option.map_some, hchange v v' hv']

/-- Every value of the dictionary satisfies `P`. -/
def All (P : ν → Prop) (d : Dict κ ν) : Prop := ∀ k v, d.get? k = some v → P v

theorem All.set {P : ν → Prop} {d : Dict κ ν} (h : d.All P) (k : κ) {v : ν} (hv : P v) : (d.set k v).All P := by
  intro k' v' hget
  rw [get?_set] at hget
  split at hget
  · cases hget
    exact hv
  · exact h k' v' hget

theorem set_set_of_ne {d : Dict κ ν} {k k' : κ} {v v' : ν} (hne : k ≠ k') (hk : k ∈ d.keys)
    (hk' : k' ∈ d.keys) : (d.set k v).set k' v' = (d.set k' v').set k v := by
  apply ext_get?
  · rw [keys_set_of_mem (by rwa [keys_set_of_mem hk]), keys_set_of_mem hk,
      keys_set_of_mem (by rwa [keys_set_of_mem hk']), keys_set_of_mem hk']
  · intro j
    simp only [get?_set]
    by_cases hj : j = k
    · subst hj
      simp [hne]
    · simp [hj]

theorem set_set_self {d : Dict κ ν} {k : κ} {v v' : ν} : (d.set k v).set k v' = d.set k v' := by
  have hin : k ∈ (d.set k v).keys := mem_keys_iff.mpr (by rw [get?_set_self]; rfl)
  apply ext_get?
  · rw [keys_set_of_mem hin]
    by_cases hk : k ∈ d.keys
    · rw [keys_set_of_mem hk, keys_set_of_mem hk]
    · rw [keys_set_of_notMem hk, keys_set_of_notMem hk]
  · intro j
    simp only [get?_set]
    by_cases hj : j = k <;> simp [hj]

/-- Building a dictionary from entries with distinct keys keeps them as they are. -/
theorem entries_ofList {l : List (κ × ν)} (h : (l.map Prod.fst).Nodup) : (ofList l).entries = l := by
  suffices hfold : ∀ (l : List (κ × ν)) (d : Dict κ ν), (d.keys ++ l.map Prod.fst).Nodup →
      (l.foldl (fun d e => d.set e.1 e.2) d).entries = d.entries ++ l from hfold l empty h
  intro l
  induction l with
  | nil =>
      intro d _
      exact (List.append_nil d.entries).symm
  | cons e rest ih =>
      intro d hnodup
      have hnew : e.1 ∉ d.keys := by
        intro hmem
        exact (List.nodup_append.mp hnodup).2.2 e.1 hmem e.1 (by simp) rfl
      rw [List.foldl_cons, ih (d.set e.1 e.2), entries_set_of_notMem hnew, List.append_assoc]
      · rfl
      · rw [keys_set_of_notMem hnew]
        simpa using hnodup

theorem get?_ofList {l : List (κ × ν)} (h : (l.map Prod.fst).Nodup) {k : κ} {v : ν} :
    (ofList l).get? k = some v ↔ (k, v) ∈ l := by
  rw [get?_eq_some_iff, entries_ofList h]

theorem update?_of_none {d : Dict κ ν} {k : κ} {f : ν → Option ν} (h : d.get? k = none) :
    d.update? k f = none := by
  rw [update?, h]
  rfl

theorem update?_of_some {d : Dict κ ν} {k : κ} {v : ν} {f : ν → Option ν} (h : d.get? k = some v) :
    d.update? k f = (f v).map (d.set k) := by
  rw [update?, h]
  cases hf : f v <;> simp [hf]

/-- In-place changes of two entries commute when they are different entries, or when the two changes
of the one entry do. -/
theorem update?_comm {k k' : κ} {f g : ν → Option ν} (h : k = k' → StepsCommute f g) :
    StepsCommute (fun d : Dict κ ν => d.update? k f) (fun d => d.update? k' g) := by
  intro d
  change (d.update? k f).bind (·.update? k' g) = (d.update? k' g).bind (·.update? k f)
  by_cases hk : k = k'
  · subst hk
    cases hv : d.get? k with
    | none => simp [update?_of_none hv]
    | some v =>
        have hagain : ∀ (f' : ν → Option ν) w, (d.set k w).update? k f' = (f' w).map (d.set k) := by
          intro f' w
          rw [update?_of_some (get?_set_self d k w)]
          congr 1
          funext w'
          exact set_set_self
        simp only [update?_of_some hv, Option.bind_map, Function.comp_def, hagain]
        exact (h rfl).bind_map (d.set k) v
  · have hset : ∀ v, (d.set k v).get? k' = d.get? k' := fun v => get?_set_of_ne (Ne.symm hk)
    have hset' : ∀ v, (d.set k' v).get? k = d.get? k := fun v => get?_set_of_ne hk
    cases hv : d.get? k with
    | none =>
        rw [update?_of_none hv]
        cases hu : d.update? k' g with
        | none => rfl
        | some d' =>
            obtain ⟨w, w', -, -, rfl⟩ := update?_eq_some_iff.mp hu
            simp [update?_of_none ((hset' w').trans hv)]
    | some v =>
        cases hv' : d.get? k' with
        | none =>
            rw [update?_of_none hv']
            cases hu : d.update? k f with
            | none => rfl
            | some d' =>
                obtain ⟨w, w', -, -, rfl⟩ := update?_eq_some_iff.mp hu
                simp [update?_of_none ((hset w').trans hv')]
        | some v' =>
            simp only [update?_of_some hv, update?_of_some hv', Option.bind_map, Function.comp_def,
              update?_of_some ((hset _).trans hv'), update?_of_some ((hset' _).trans hv)]
            cases hf : f v <;> cases hg : g v' <;> simp
            exact set_set_of_ne hk (mem_keys_iff.mpr (by rw [hv]; rfl))
              (mem_keys_iff.mpr (by rw [hv']; rfl))

end Dict

end OfTestbed.Lib
