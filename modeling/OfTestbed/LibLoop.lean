import Mathlib.Data.Finset.Card
import Mathlib.Data.List.Forall2
import Mathlib.Data.List.Sort
import Mathlib.Data.List.Perm.Basic

/-!
Loops over collections. A loop body is a partial function on a state, `none` standing for an exception;
the loop is `List.foldlM`. The rules below say what a whole loop does from what one turn of it does, and
when the order of the turns does not matter. A set has no iteration order of its own: the order in
which a loop walks it is an argument of the loop.
-/

namespace OfTestbed.Lib

/-- A way to list the members of a finite set: each member once, in some order. -/
structure SetOrder (α : Type) where
  list : Finset α → List α
  nodup : ∀ s, (list s).Nodup
  mem_list : ∀ s x, x ∈ list s ↔ x ∈ s

namespace SetOrder

variable {α β : Type}

theorem perm (left right : SetOrder α) (s : Finset α) : (left.list s).Perm (right.list s) :=
  (List.perm_ext_iff_of_nodup (left.nodup s) (right.nodup s)).mpr fun x => by
    rw [left.mem_list, right.mem_list]

theorem length_list (order : SetOrder α) (s : Finset α) : (order.list s).length = s.card := by
  classical
  have hset : (order.list s).toFinset = s := by
    ext x
    rw [List.mem_toFinset, order.mem_list]
  rw [← List.toFinset_card_of_nodup (order.nodup s), hset]

/-- In a walk over the set, the element at hand is a member. -/
theorem mem_of_split {order : SetOrder α} {s : Finset α} {done rest : List α} {a : α}
    (h : order.list s = done ++ a :: rest) : a ∈ s := by
  rw [← order.mem_list, h]
  exact List.mem_append_right done List.mem_cons_self

/-- In a walk over the set, the element at hand has not been met before. -/
theorem notMem_of_split {order : SetOrder α} {s : Finset α} {done rest : List α} {a : α}
    (h : order.list s = done ++ a :: rest) : a ∉ done := by
  have hnodup := order.nodup s
  rw [h, List.nodup_append] at hnodup
  exact fun hmem => hnodup.2.2 a hmem a List.mem_cons_self rfl

/-- The members in increasing order of an injective key. -/
def byKey [LinearOrder β] (key : α → β) (hkey : Function.Injective key) : SetOrder α :=
  let le : α → α → Prop := fun x y => key x ≤ key y
  have : Std.Total le := ⟨fun x y => le_total (key x) (key y)⟩
  have : IsTrans α le := ⟨fun _ _ _ h h' => le_trans h h'⟩
  have : Std.Antisymm le := ⟨fun _ _ h h' => hkey (le_antisymm h h')⟩
  { list := fun s => Quot.liftOn s.val (fun l => l.insertionSort le) fun l l' h =>
      (((List.perm_insertionSort le l).trans h).trans (List.perm_insertionSort le l').symm).eq_of_pairwise'
        (List.pairwise_insertionSort le l) (List.pairwise_insertionSort le l')
    nodup := fun s => by
      obtain ⟨⟨l⟩, hl⟩ := s
      exact (List.perm_insertionSort le l).nodup_iff.mpr hl
    mem_list := fun s x => by
      obtain ⟨⟨l⟩, hl⟩ := s
      exact List.mem_insertionSort le }

end SetOrder

section Loops

variable {σ α : Type}

/-- Total correctness: `inv done s` relates the state to the elements already processed. -/
theorem foldlM_total (body : σ → α → Option σ) (l : List α) (start : σ) (inv : List α → σ → Prop)
    (hstart : inv [] start)
    (hturn : ∀ done a rest s, l = done ++ a :: rest → inv done s →
      ∃ s', body s a = some s' ∧ inv (done ++ [a]) s') :
    ∃ final, l.foldlM body start = some final ∧ inv l final := by
  suffices h : ∀ todo done s, l = done ++ todo → inv done s →
      ∃ final, todo.foldlM body s = some final ∧ inv l final from h l [] start rfl hstart
  intro todo
  induction todo with
  | nil =>
      intro done s hl hinv
      rw [List.append_nil] at hl
      exact ⟨s, rfl, hl ▸ hinv⟩
  | cons a rest ih =>
      intro done s hl hinv
      obtain ⟨s', hbody, hinv'⟩ := hturn done a rest s hl hinv
      obtain ⟨final, hfinal, hend⟩ := ih (done ++ [a]) s' (by simpa using hl) hinv'
      refine ⟨final, ?_, hend⟩
      rw [List.foldlM_cons, hbody]
      exact hfinal

/-- Partial correctness: the same relation, for a loop that is known to end. -/
theorem foldlM_partial {body : σ → α → Option σ} {l : List α} {start final : σ}
    (inv : List α → σ → Prop) (hstart : inv [] start)
    (hturn : ∀ done a rest s s', l = done ++ a :: rest → inv done s → body s a = some s' → inv (done ++ [a]) s')
    (hrun : l.foldlM body start = some final) : inv l final := by
  suffices h : ∀ todo done s, l = done ++ todo → inv done s → todo.foldlM body s = some final →
      inv l final from h l [] start rfl hstart hrun
  intro todo
  induction todo with
  | nil =>
      intro done s hl hinv hend
      rw [List.append_nil] at hl
      cases hend
      exact hl ▸ hinv
  | cons a rest ih =>
      intro done s hl hinv hend
      rw [List.foldlM_cons, Option.bind_eq_bind, Option.bind_eq_some_iff] at hend
      obtain ⟨s', hbody, hrest⟩ := hend
      exact ih (done ++ [a]) s' (by simpa using hl) (hturn done a rest s s' hl hinv hbody) hrest

/-- In a loop over a list with its indices the index of a turn is the number of turns before it. -/
theorem split_of_zipIdx {l : List α} {done rest : List (α × Nat)} {turn : α × Nat}
    (h : l.zipIdx = done ++ turn :: rest) :
    turn.2 = (done.map Prod.fst).length ∧ l = done.map Prod.fst ++ turn.1 :: rest.map Prod.fst := by
  constructor
  · have hget := congrArg (·[done.length]?) h
    simp only [List.getElem?_zipIdx, List.getElem?_append_right (le_refl _), Nat.sub_self,
      List.getElem?_cons_zero] at hget
    obtain ⟨found, -, heq⟩ := Option.map_eq_some_iff.mp hget
    rw [List.length_map, ← heq, Nat.zero_add]
  · calc l = l.zipIdx.map Prod.fst := (List.zipIdx_map_fst 0 l).symm
      _ = done.map Prod.fst ++ turn.1 :: rest.map Prod.fst := by rw [h, List.map_append, List.map_cons]

theorem foldlM_zipIdx_total (body : σ → α × Nat → Option σ) (l : List α) (start : σ) (inv : List α → σ → Prop)
    (hstart : inv [] start)
    (hturn : ∀ done a rest s, l = done ++ a :: rest → inv done s →
      ∃ s', body s (a, done.length) = some s' ∧ inv (done ++ [a]) s') :
    ∃ final, l.zipIdx.foldlM body start = some final ∧ inv l final := by
  have htotal := foldlM_total body l.zipIdx start (fun done s => inv (done.map Prod.fst) s) hstart (by
    intro done ⟨a, i⟩ rest s hsplit hinv
    obtain ⟨rfl, hl⟩ := split_of_zipIdx hsplit
    rw [List.map_append, List.map_singleton]
    exact hturn (done.map Prod.fst) a (rest.map Prod.fst) s hl hinv)
  rw [List.zipIdx_map_fst] at htotal
  exact htotal

theorem foldlM_zipIdx_partial {body : σ → α × Nat → Option σ} {l : List α} {start final : σ}
    (inv : List α → σ → Prop) (hstart : inv [] start)
    (hturn : ∀ done a rest s s', l = done ++ a :: rest → inv done s → body s (a, done.length) = some s' →
      inv (done ++ [a]) s')
    (hrun : l.zipIdx.foldlM body start = some final) : inv l final := by
  have hpartial := foldlM_partial (fun done s => inv (done.map Prod.fst) s) hstart (by
    intro done ⟨a, i⟩ rest s s' hsplit hinv hbody
    obtain ⟨rfl, hl⟩ := split_of_zipIdx hsplit
    rw [List.map_append, List.map_singleton]
    exact hturn (done.map Prod.fst) a (rest.map Prod.fst) s s' hl hinv hbody) hrun
  rw [List.zipIdx_map_fst] at hpartial
  exact hpartial

/-- What every turn preserves, the loop preserves. -/
theorem foldlM_preserves {body : σ → α → Option σ} {l : List α} {start final : σ} (inv : σ → Prop)
    (hturn : ∀ a ∈ l, ∀ s s', inv s → body s a = some s' → inv s')
    (hstart : inv start) (hrun : l.foldlM body start = some final) : inv final := by
  refine foldlM_partial (fun _ => inv) hstart ?_ hrun
  intro done a rest s s' hl
  exact hturn a (by rw [hl]; simp) s s'

/-- Two bodies commute when running them in either order ends in the same state or fails both times. -/
def StepsCommute (f g : σ → Option σ) : Prop := ∀ s, (f s).bind g = (g s).bind f

theorem StepsCommute.symm {f g : σ → Option σ} (h : StepsCommute f g) : StepsCommute g f := fun s => (h s).symm

theorem StepsCommute.refl (f : σ → Option σ) : StepsCommute f f := fun _ => rfl

theorem StepsCommute.bind_right {f g g' : σ → Option σ} (h : StepsCommute f g) (h' : StepsCommute f g') :
    StepsCommute f fun s => (g s).bind g' := by
  intro s
  calc (f s).bind (fun s => (g s).bind g') = ((f s).bind g).bind g' := (Option.bind_assoc _ _ _).symm
    _ = ((g s).bind f).bind g' := by rw [h s]
    _ = (g s).bind (fun s => (f s).bind g') := Option.bind_assoc _ _ _
    _ = (g s).bind (fun s => (g' s).bind f) := by simp only [h' _]
    _ = ((g s).bind g').bind f := (Option.bind_assoc _ _ _).symm

/-- What is read off the final state does not depend on the order either. -/
theorem StepsCommute.bind_map {τ : Type} {f g : σ → Option σ} (h : StepsCommute f g) (read : σ → τ) (s : σ) :
    ((f s).bind fun s => (g s).map read) = (g s).bind fun s => (f s).map read := by
  have hmap := congrArg (Option.map read) (h s)
  simpa only [Option.map_bind, Function.comp_def] using hmap

theorem StepsCommute.foldlM_right {f : σ → Option σ} {body : σ → α → Option σ} {l : List α}
    (h : ∀ a ∈ l, StepsCommute f (body · a)) : StepsCommute f (l.foldlM body ·) := by
  induction l with
  | nil =>
      intro s
      simp
  | cons a rest ih =>
      have hrest := ih fun b hb => h b (List.mem_cons_of_mem a hb)
      simp only [List.foldlM_cons, Option.bind_eq_bind]
      exact (h a List.mem_cons_self).bind_right hrest

/-- A loop whose turns commute pairwise does not depend on their order. -/
theorem foldlM_perm {body : σ → α → Option σ} {l l' : List α} (hperm : l.Perm l')
    (hcomm : ∀ a b, StepsCommute (body · a) (body · b)) (s : σ) : l.foldlM body s = l'.foldlM body s := by
  induction hperm generalizing s with
  | nil => rfl
  | cons a _ ih =>
      rw [List.foldlM_cons, List.foldlM_cons]
      congr 1
      funext s'
      exact ih s'
  | swap a b l =>
      simp only [List.foldlM_cons, Option.bind_eq_bind]
      rw [← Option.bind_assoc, ← Option.bind_assoc, hcomm b a s]
  | trans _ _ ih ih' => rw [ih, ih']

/-- A map of states that intertwines the turns of two loops intertwines the loops. -/
theorem foldlM_hom {τ : Type} {body : σ → α → Option σ} {body' : τ → α → Option τ} {l : List α}
    (change : σ → τ) (h : ∀ a ∈ l, ∀ s, body' (change s) a = (body s a).map change) (s : σ) :
    l.foldlM body' (change s) = (l.foldlM body s).map change := by
  induction l generalizing s with
  | nil => rfl
  | cons a rest ih =>
      rw [List.foldlM_cons, List.foldlM_cons, h a List.mem_cons_self s]
      cases body s a with
      | none => rfl
      | some s' => exact ih (fun b hb => h b (List.mem_cons_of_mem a hb)) s'

/-- A list of results exists when each element has one. -/
theorem mapM_eq_some_iff {β : Type} {f : α → Option β} {l : List α} {l' : List β} :
    l.mapM f = some l' ↔ l.map f = l'.map some := by
  induction l generalizing l' with
  | nil =>
      rw [List.mapM_nil, List.map_nil, List.nil_eq, List.map_eq_nil_iff]
      exact Option.some_inj.trans eq_comm
  | cons a rest ih =>
      rw [List.mapM_cons, List.map_cons]
      cases hfa : f a with
      | none => cases l' <;> simp
      | some b =>
          cases l' with
          | nil => cases rest.mapM f <;> simp
          | cons b' rest' =>
              simp only [Option.bind_eq_bind, Option.bind_some, Option.pure_def, Option.bind_eq_some_iff,
                Option.some.injEq, List.cons.injEq, List.map_cons, ← ih]
              exact ⟨fun ⟨out, hout, hb, hrest⟩ => ⟨hb, hrest ▸ hout⟩,
                fun ⟨hb, hrest⟩ => ⟨rest', hrest, hb, rfl⟩⟩

theorem exists_mapM {β : Type} {f : α → Option β} {l : List α} (h : ∀ a ∈ l, ∃ b, f a = some b) :
    ∃ l', l.mapM f = some l' := by
  induction l with
  | nil => exact ⟨[], rfl⟩
  | cons a rest ih =>
      obtain ⟨b, hb⟩ := h a List.mem_cons_self
      obtain ⟨rest', hrest⟩ := ih fun a' ha' => h a' (List.mem_cons_of_mem a ha')
      refine ⟨b :: rest', ?_⟩
      rw [List.mapM_cons, hb, hrest]
      rfl

theorem mapM_of_isSome {β : Type} {f : α → Option β} {l : List α} (h : ∀ a ∈ l, (f a).isSome) :
    l.mapM f = some (l.filterMap f) := by
  induction l with
  | nil => rfl
  | cons a rest ih =>
      obtain ⟨b, hb⟩ := Option.isSome_iff_exists.mp (h a List.mem_cons_self)
      rw [List.mapM_cons, hb, ih fun a' ha' => h a' (List.mem_cons_of_mem a ha'), List.filterMap_cons_some hb]
      rfl

theorem mapM_eq_none_of_mem {β : Type} {f : α → Option β} {l : List α} {a : α} (ha : a ∈ l) (hnone : f a = none) :
    l.mapM f = none := by
  induction l with
  | nil => cases ha
  | cons first rest ih =>
      rw [List.mapM_cons]
      rcases List.mem_cons.mp ha with rfl | hrest
      · rw [hnone]
        rfl
      · rw [ih hrest]
        cases f first <;> rfl

theorem forall₂_of_mapM {β : Type} {f : α → Option β} {l : List α} {l' : List β} (h : l.mapM f = some l') :
    List.Forall₂ (fun a b => f a = some b) l l' := by
  have hmap := mapM_eq_some_iff.mp h
  rwa [← List.forall₂_eq_eq_eq, List.forall₂_map_left_iff, List.forall₂_map_right_iff] at hmap

theorem exists_of_mem_of_mapM {β : Type} {f : α → Option β} {l : List α} {l' : List β} (h : l.mapM f = some l')
    {a : α} (ha : a ∈ l) : ∃ b ∈ l', f a = some b := by
  have hmem : f a ∈ l'.map some := mapM_eq_some_iff.mp h ▸ List.mem_map_of_mem ha
  obtain ⟨b, hb, hfa⟩ := List.mem_map.mp hmem
  exact ⟨b, hb, hfa.symm⟩

theorem mem_iff_of_mapM {β : Type} {f : α → Option β} {l : List α} {l' : List β} (h : l.mapM f = some l') {b : β} :
    b ∈ l' ↔ ∃ a ∈ l, f a = some b := by
  rw [← List.mem_map, mapM_eq_some_iff.mp h, List.mem_map_of_injective (Option.some_injective β)]

theorem exists_of_mem_mapM {β : Type} {f : α → Option β} {l : List α} {l' : List β} (h : l.mapM f = some l')
    {b : β} (hb : b ∈ l') : ∃ a ∈ l, f a = some b := (mem_iff_of_mapM h).mp hb

theorem length_of_mapM {β : Type} {f : α → Option β} {l : List α} {l' : List β} (h : l.mapM f = some l') :
    l'.length = l.length := by
  have hlength := congrArg List.length (mapM_eq_some_iff.mp h)
  rw [List.length_map, List.length_map] at hlength
  exact hlength.symm

/-- Different elements with different results give a list without repetitions. -/
theorem nodup_of_mapM {β : Type} {f : α → Option β} {l : List α} {l' : List β} (hl : l.Nodup)
    (hf : ∀ a ∈ l, ∀ a' ∈ l, ∀ b, f a = some b → f a' = some b → a = a') (h : l.mapM f = some l') : l'.Nodup := by
  apply List.Nodup.of_map some
  rw [← mapM_eq_some_iff.mp h]
  refine hl.map_on fun a ha a' ha' heq => ?_
  obtain ⟨b, -, hb⟩ := exists_of_mem_of_mapM h ha
  exact hf a ha a' ha' b hb (heq ▸ hb)

theorem getElem?_of_mapM {β : Type} {f : α → Option β} {l : List α} {l' : List β} (h : l.mapM f = some l')
    (i : Nat) : l'[i]? = l[i]?.bind f := by
  have hget := congrArg (·[i]?) (mapM_eq_some_iff.mp h)
  simp only [List.getElem?_map] at hget
  cases hl : l[i]? with
  | none =>
      rw [hl] at hget
      exact Option.map_eq_none_iff.mp hget.symm
  | some a =>
      rw [hl] at hget
      obtain ⟨b, hb, hfa⟩ := Option.map_eq_some_iff.mp hget.symm
      rw [hb, Option.bind_some, ← hfa]

/-- The turn of one index in a loop that numbers its elements. -/
theorem exists_of_mapM_zipIdx {β : Type} {f : α × Nat → Option β} {l : List α} {l' : List β}
    (h : l.zipIdx.mapM f = some l') {i : Nat} {a : α} (ha : l[i]? = some a) :
      ∃ b, l'[i]? = some b ∧ f (a, i) = some b := by
  have hturn : l.zipIdx[i]? = some (a, i) := by
    rw [List.getElem?_zipIdx, ha, Option.map_some, Nat.zero_add]
  obtain ⟨b, -, hb⟩ := exists_of_mem_of_mapM h (List.mem_of_getElem? hturn)
  refine ⟨b, ?_, hb⟩
  rw [getElem?_of_mapM h, hturn, Option.bind_some, hb]

/-- Results determine the elements when they do so one by one. -/
theorem mapM_injective {β : Type} {f : α → Option β} (hf : ∀ a a' b, f a = some b → f a' = some b → a = a')
    {l l' : List α} {out : List β} (h : l.mapM f = some out) (h' : l'.mapM f = some out) : l = l' := by
  apply List.ext_getElem?
  intro i
  cases hout : out[i]? with
  | none =>
      have hlength := List.getElem?_eq_none_iff.mp hout
      rw [List.getElem?_eq_none (length_of_mapM h ▸ hlength), List.getElem?_eq_none (length_of_mapM h' ▸ hlength)]
  | some b =>
      obtain ⟨a, ha, hfa⟩ := Option.bind_eq_some_iff.mp ((getElem?_of_mapM h i).symm.trans hout)
      obtain ⟨a', ha', hfa'⟩ := Option.bind_eq_some_iff.mp ((getElem?_of_mapM h' i).symm.trans hout)
      rw [ha, ha', hf a a' b hfa hfa']

/-- A property of elements and their indices, after one more element. -/
theorem forall_getElem?_concat {p : Nat → α → Prop} {l : List α} (h : ∀ i a, l[i]? = some a → p i a) {last : α}
    (hlast : p l.length last) : ∀ i a, (l ++ [last])[i]? = some a → p i a := by
  intro i a ha
  rcases Nat.lt_or_ge i l.length with hlt | hge
  · rw [List.getElem?_append_left hlt] at ha
    exact h i a ha
  · rw [List.getElem?_append_right hge] at ha
    obtain ⟨hi, rfl⟩ := List.getElem?_eq_some_iff.mp ha
    rw [List.length_singleton] at hi
    have heq : i = l.length := by omega
    subst heq
    simpa using hlast

theorem foldlM_congr_mem {body body' : σ → α → Option σ} {l : List α} (h : ∀ a ∈ l, ∀ s, body s a = body' s a)
    (start : σ) : l.foldlM body start = l.foldlM body' start := by
  have hhom := foldlM_hom id (fun a ha s => (h a ha s).trans (Option.map_id_apply (x := body' s a)).symm) start
  rw [Option.map_id_apply] at hhom
  exact hhom

theorem mapM_congr_mem {m : Type → Type} [Monad m] [LawfulMonad m] {β : Type} {f g : α → m β} {l : List α}
    (h : ∀ a ∈ l, f a = g a) : l.mapM f = l.mapM g := by
  induction l with
  | nil => rfl
  | cons a rest ih =>
      obtain ⟨ha, hrest⟩ := List.forall_mem_cons.mp h
      rw [List.mapM_cons, List.mapM_cons, ha, ih hrest]

/-- A loop within a loop is one loop. -/
theorem foldlM_flatMap {β : Type} (body : σ → β → Option σ) (inner : α → List β) (l : List α) (start : σ) :
    (l.flatMap inner).foldlM body start = l.foldlM (fun s a => (inner a).foldlM body s) start := by
  induction l generalizing start with
  | nil => rfl
  | cons a rest ih =>
      rw [List.flatMap_cons, List.foldlM_append, List.foldlM_cons]
      congr 1
      funext s
      exact ih s

/-- A loop that reads each element and puts what it read into the state reads them all and puts them in turn. -/
theorem foldlM_read {β : Type} (read : α → Option β) (put : σ → β → σ) (l : List α) (start : σ) :
    l.foldlM (fun s a => (read a).map (put s)) start = (l.mapM read).map (·.foldl put start) := by
  induction l generalizing start with
  | nil => rfl
  | cons a rest ih =>
      rw [List.foldlM_cons, List.mapM_cons]
      cases read a with
      | none => rfl
      | some b =>
          have hrest := ih (put start b)
          cases hread : rest.mapM read with
          | none => simpa [hread] using hrest
          | some rest' => simpa [hread] using hrest

/-- The same for a body that is known only on elements that can be read. -/
theorem foldlM_of_mapM {β : Type} {read : α → Option β} {put : σ → β → σ} {body : σ → α → Option σ}
    (hbody : ∀ s a b, read a = some b → body s a = some (put s b)) {l : List α} {l' : List β}
    (hread : l.mapM read = some l') (start : σ) : l.foldlM body start = some (l'.foldl put start) := by
  induction l generalizing l' start with
  | nil =>
      cases hread
      rfl
  | cons a rest ih =>
      simp only [List.mapM_cons, Option.bind_eq_bind, Option.bind_eq_some_iff, Option.pure_def,
        Option.some.injEq] at hread
      obtain ⟨b, hb, rest', hrest, rfl⟩ := hread
      rw [List.foldlM_cons, hbody start a b hb]
      exact ih hrest (put start b)

theorem exists_forall₂ {β : Type} {r : α → β → Prop} {l : List α} (h : ∀ a ∈ l, ∃ b, r a b) :
    ∃ l', List.Forall₂ r l l' := by
  induction l with
  | nil => exact ⟨[], .nil⟩
  | cons a rest ih =>
      obtain ⟨b, hb⟩ := h a List.mem_cons_self
      obtain ⟨rest', hrest⟩ := ih fun a' ha' => h a' (List.mem_cons_of_mem a ha')
      exact ⟨b :: rest', .cons hb hrest⟩

theorem map_eq_of_forall₂ {β γ : Type} {r : α → β → Prop} {f : α → γ} {g : β → γ} (hr : ∀ a b, r a b → g b = f a)
    {l : List α} {l' : List β} (h : List.Forall₂ r l l') : l'.map g = l.map f := by
  induction h with
  | nil => rfl
  | cons hfirst _ ih => rw [List.map_cons, List.map_cons, ih, hr _ _ hfirst]

/-- Related lists have related elements, in both directions. -/
theorem exists_mem_of_forall₂ {β : Type} {r : α → β → Prop} {l : List α} {l' : List β} (h : List.Forall₂ r l l') :
    (∀ a ∈ l, ∃ b ∈ l', r a b) ∧ ∀ b ∈ l', ∃ a ∈ l, r a b := by
  induction h with
  | nil => simp
  | cons hfirst _ ih =>
      refine ⟨List.forall_mem_cons.mpr ⟨⟨_, List.mem_cons_self, hfirst⟩, fun a ha => ?_⟩,
        List.forall_mem_cons.mpr ⟨⟨_, List.mem_cons_self, hfirst⟩, fun b hb => ?_⟩⟩
      · obtain ⟨b, hb, hr⟩ := ih.1 a ha
        exact ⟨b, List.mem_cons_of_mem _ hb, hr⟩
      · obtain ⟨a, ha, hr⟩ := ih.2 b hb
        exact ⟨a, List.mem_cons_of_mem _ ha, hr⟩

theorem forall₂_zipIdx {β : Type} {r : α → β → Prop} {l : List α} {l' : List β} (h : List.Forall₂ r l l') (n : Nat) :
    List.Forall₂ (fun a b => r a.1 b.1 ∧ a.2 = b.2) (l.zipIdx n) (l'.zipIdx n) := by
  induction h generalizing n with
  | nil => exact .nil
  | cons hfirst _ ih => exact .cons ⟨hfirst, rfl⟩ (ih (n + 1))

/-- The same where a relation says what is read from an element. -/
theorem foldlM_of_forall₂ {β : Type} {r : α → β → Prop} {put : σ → β → σ} {body : σ → α → Option σ}
    (hbody : ∀ s a b, r a b → body s a = some (put s b)) {l : List α} {l' : List β}
    (hread : List.Forall₂ r l l') (start : σ) : l.foldlM body start = some (l'.foldl put start) := by
  induction hread generalizing start with
  | nil => rfl
  | cons hfirst _ ih =>
      rw [List.foldlM_cons, hbody start _ _ hfirst]
      exact ih (put start _)

/-- An element with a key of its own is the one that is found under it. -/
theorem find?_key_of_mem {ξ : Type} [DecidableEq ξ] {key : α → ξ} {l : List α} (hnodup : (l.map key).Nodup) {a : α}
    (ha : a ∈ l) : l.find? (key · = key a) = some a := by
  cases hfound : l.find? (key · = key a) with
  | none => exact absurd (decide_eq_true rfl) (List.find?_eq_none.mp hfound a ha)
  | some found =>
      have hkey := List.find?_some hfound
      rw [decide_eq_true_eq] at hkey
      rw [List.inj_on_of_nodup_map hnodup (List.mem_of_find?_eq_some hfound) ha hkey]

/-- A loop whose turns each write what is seen under a key of their own writes under every key what the turn of that
key writes. -/
theorem foldlM_keyed {ξ ν : Type} [DecidableEq ξ] {body : σ → α → Option σ} (look : σ → ξ → Option ν) (key : α → ξ)
    (value : α → Option ν) {l : List α} (hnodup : (l.map key).Nodup)
    (hturn : ∀ a ∈ l, ∀ s, ∃ s', body s a = some s' ∧
      ∀ x, look s' x = (if x = key a then value a else none).or (look s x)) (start : σ) :
    ∃ final, l.foldlM body start = some final ∧
      ∀ x, look final x = ((l.find? (key · = x)).bind value).or (look start x) := by
  induction l generalizing start with
  | nil => exact ⟨start, rfl, fun x => rfl⟩
  | cons a rest ih =>
      rw [List.map_cons, List.nodup_cons] at hnodup
      obtain ⟨s', hbody, hlook⟩ := hturn a List.mem_cons_self start
      obtain ⟨final, hfinal, hview⟩ := ih hnodup.2 (fun b hb => hturn b (List.mem_cons_of_mem a hb)) s'
      refine ⟨final, ?_, fun x => ?_⟩
      · rw [List.foldlM_cons, hbody]
        exact hfinal
      · rw [hview, hlook, List.find?_cons]
        by_cases hx : x = key a
        · have hnone : rest.find? (key · = x) = none := by
            apply List.find?_eq_none.mpr
            intro b hb hkey
            exact hnodup.1 (List.mem_map.mpr ⟨b, hb, (of_decide_eq_true hkey).trans hx⟩)
          rw [hnone, if_pos hx, decide_eq_true hx.symm]
          rfl
        · rw [if_neg hx, decide_eq_false (Ne.symm hx)]
          rfl

/-- Loops whose turns agree as far as `read` sees agree as far as `read` sees. -/
theorem mapM_map_congr {β γ : Type} {f g : α → Option β} {read : β → γ}
    (h : ∀ a, (f a).map read = (g a).map read) (l : List α) :
    (l.mapM f).map (List.map read) = (l.mapM g).map (List.map read) := by
  induction l with
  | nil => rfl
  | cons a rest ih =>
      have hcons : ∀ f : α → Option β, ((a :: rest).mapM f).map (List.map read) =
          ((f a).map read).bind fun b => ((rest.mapM f).map (List.map read)).map (b :: ·) := by
        intro f
        rw [List.mapM_cons]
        cases f a with
        | none => rfl
        | some b => cases rest.mapM f <;> rfl
      rw [hcons, hcons, h a, ih]

/-- A loop that only adds to a set adds what its turns add. -/
theorem foldlM_collects {β : Type} {body : Finset β → α → Option (Finset β)} {adds : α → β → Prop} {l : List α}
    (hturn : ∀ a ∈ l, ∀ s, ∃ s', body s a = some s' ∧ ∀ b, b ∈ s' ↔ b ∈ s ∨ adds a b) (start : Finset β) :
    ∃ final, l.foldlM body start = some final ∧ ∀ b, b ∈ final ↔ b ∈ start ∨ ∃ a ∈ l, adds a b := by
  apply foldlM_total body l start fun done s => ∀ b, b ∈ s ↔ b ∈ start ∨ ∃ a ∈ done, adds a b
  · intro b
    simp
  · intro done a rest s hl hinv
    obtain ⟨s', hbody, hmem⟩ := hturn a (by simp [hl]) s
    refine ⟨s', hbody, fun b => ?_⟩
    rw [hmem, hinv]
    simp only [List.mem_append, List.mem_singleton, or_and_right, exists_or, exists_eq_left, or_assoc]

/-- The same for loops that add the members of lists. -/
theorem foldl_insert [DecidableEq α] (l : List α) (start : Finset α) :
    l.foldl (fun s a => insert a s) start = start ∪ l.toFinset := by
  induction l generalizing start with
  | nil => simp
  | cons a rest ih =>
      rw [List.foldl_cons, ih]
      ext b
      simp only [Finset.mem_union, Finset.mem_insert, List.mem_toFinset, List.mem_cons]
      tauto

theorem foldl_foldl_insert {β : Type} [DecidableEq β] (inner : α → List β) (l : List α) (start : Finset β) :
    l.foldl (fun s a => (inner a).foldl (fun s b => insert b s) s) start = start ∪ (l.flatMap inner).toFinset := by
  induction l generalizing start with
  | nil => simp
  | cons a rest ih =>
      rw [List.foldl_cons, ih, foldl_insert, List.flatMap_cons, List.toFinset_append, Finset.union_assoc]

/-- A loop that keeps only what its last turn gives. -/
theorem foldl_some_eq_getLast? (l : List α) : l.foldl (fun (_ : Option α) a => some a) none = l.getLast? := by
  induction l using List.reverseRecOn with
  | nil => rfl
  | append_singleton before last _ =>
      rw [List.foldl_append, List.getLast?_concat]
      rfl

/-- The elements before the end of the leading run satisfy the predicate, the one at its end does not. -/
theorem getElem?_length_takeWhile (p : α → Bool) (l : List α) :
    (∀ i < (l.takeWhile p).length, ∃ a, l[i]? = some a ∧ p a = true) ∧
      ∀ a, l[(l.takeWhile p).length]? = some a → p a = false := by
  induction l with
  | nil => simp
  | cons first rest ih =>
      cases hfirst : p first with
      | false => simp [hfirst]
      | true =>
          rw [List.takeWhile_cons_of_pos hfirst, List.length_cons]
          refine ⟨fun i hi => ?_, fun a ha => ih.2 a ha⟩
          cases i with
          | zero => exact ⟨first, rfl, hfirst⟩
          | succ i => exact ih.1 i (Nat.lt_of_succ_lt_succ hi)

/-- A part of a list may be left out where it adds nothing. -/
theorem flatMap_filter_of_nil {α β : Type} {p : α → Bool} {f : α → List β} {l : List α}
    (hnil : ∀ a ∈ l, p a = false → f a = []) : (l.filter p).flatMap f = l.flatMap f := by
  induction l with
  | nil => rfl
  | cons a rest ih =>
      obtain ⟨hfirst, hrest⟩ := List.forall_mem_cons.mp hnil
      rw [List.flatMap_cons, ← ih hrest, List.filter_cons]
      cases hp : p a with
      | true => rw [if_pos rfl, List.flatMap_cons]
      | false => rw [if_neg Bool.false_ne_true, hfirst hp, List.nil_append]

/-- Blocks of one length after another: the quotient of an index says in which block it is, the remainder where. -/
theorem getElem?_flatMap_of_length {β : Type} {f : α → List β} {l : List α} {K : Nat} (hK : 0 < K)
    (hlength : ∀ a ∈ l, (f a).length = K) (i : Nat) :
    (l.flatMap f)[i]? = l[i / K]?.bind fun a => (f a)[i % K]? := by
  induction l generalizing i with
  | nil => simp
  | cons a rest ih =>
      obtain ⟨hfirst, hrest⟩ := List.forall_mem_cons.mp hlength
      rw [List.flatMap_cons, List.getElem?_append, hfirst]
      by_cases hlt : i < K
      · rw [if_pos hlt, Nat.div_eq_of_lt hlt, Nat.mod_eq_of_lt hlt]
        rfl
      · obtain ⟨j, rfl⟩ : ∃ j, i = j + K := ⟨i - K, by omega⟩
        rw [if_neg hlt, Nat.add_sub_cancel, ih hrest, Nat.add_div_right j hK, Nat.add_mod_right,
          List.getElem?_cons_succ]

/-- A loop counts each of its turns once. -/
theorem nodup_zipIdx_snd (l : List α) : (l.zipIdx.map Prod.snd).Nodup := by
  rw [List.zipIdx_map_snd, ← List.range_eq_range']
  exact List.nodup_range

end Loops

end OfTestbed.Lib
