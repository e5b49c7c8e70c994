import Mathlib.Data.List.Perm.Subperm

/-!
Programs that change a state and may raise an exception, as the statements `try`, `except` and `finally` see them. What
is raised does not matter here. The rules say in which state a program ends, whether or not it raises, and which
elements a loop reaches whose body may raise.
-/

namespace OfTestbed.Lib

variable {σ α : Type}

abbrev Act (σ α : Type) := EStateM Unit σ α

/-- A call that does nothing here but raise or not. -/
def call (raises : Bool) : Act σ Unit := if raises then throw () else pure ()

namespace Act

/-- The state in which a program ends. -/
def state (program : Act σ α) (s : σ) : σ :=
  match program s with
  | .ok _ s' => s'
  | .error _ s' => s'

/-- Whether a program ends with an exception. -/
def raises (program : Act σ α) (s : σ) : Bool :=
  match program s with
  | .ok _ _ => false
  | .error _ _ => true

@[simp] theorem state_pure (a : α) (s : σ) : (pure a : Act σ α).state s = s := rfl

@[simp] theorem raises_pure (a : α) (s : σ) : (pure a : Act σ α).raises s = false := rfl

@[simp] theorem state_throw (s : σ) : (throw () : Act σ α).state s = s := rfl

@[simp] theorem raises_throw (s : σ) : (throw () : Act σ α).raises s = true := rfl

@[simp] theorem state_modify (f : σ → σ) (s : σ) : (modify f : Act σ PUnit).state s = f s := rfl

@[simp] theorem raises_modify (f : σ → σ) (s : σ) : (modify f : Act σ PUnit).raises s = false := rfl

@[simp] theorem state_call (raises : Bool) (s : σ) : (call raises : Act σ Unit).state s = s := by
  cases raises <;> rfl

@[simp] theorem raises_call (raises : Bool) (s : σ) : (call raises : Act σ Unit).raises s = raises := by
  cases raises <;> rfl

@[simp] theorem state_get_bind (next : σ → Act σ α) (s : σ) : (get >>= next : Act σ α).state s = (next s).state s := rfl

@[simp] theorem raises_get_bind (next : σ → Act σ α) (s : σ) : (get >>= next : Act σ α).raises s = (next s).raises s :=
  rfl

/-- After a program without a value the next one runs in the state it leaves, unless it has raised. -/
theorem state_seq (program : Act σ PUnit) (next : Act σ α) (s : σ) :
    (program >>= fun _ => next).state s =
      if program.raises s then program.state s else next.state (program.state s) := by
  cases hrun : program s <;> simp [state, raises, bind, EStateM.bind, hrun]

theorem raises_seq (program : Act σ PUnit) (next : Act σ α) (s : σ) :
    (program >>= fun _ => next).raises s = (program.raises s || next.raises (program.state s)) := by
  cases hrun : program s <;> simp [state, raises, bind, EStateM.bind, hrun]

/-- Whatever happens in the body, the last block runs in the state it leaves. -/
theorem state_tryFinally (program : Act σ α) (last : Act σ PUnit) (s : σ) :
    (tryFinally program last).state s = last.state (program.state s) := by
  cases hrun : program s with
  | ok a s' => cases hlast : last s' <;> simp [state, tryFinally, tryFinally', Functor.map, EStateM.map, hrun, hlast]
  | error e s' => cases hlast : last s' <;> simp [state, tryFinally, tryFinally', Functor.map, EStateM.map, hrun, hlast]

theorem tryCatch_of_ok {program : Act σ α} {s s' : σ} {a : α} (h : program s = .ok a s') (handler : Unit → Act σ α) :
    (tryCatch program handler) s = .ok a s' := by
  show EStateM.tryCatch program handler s = _
  rw [EStateM.tryCatch, h]

theorem tryCatch_of_error {program : Act σ α} {s s' : σ} (h : program s = .error () s') (handler : Unit → Act σ α) :
    (tryCatch program handler) s = handler () s' := by
  show EStateM.tryCatch program handler s = _
  rw [EStateM.tryCatch, h]
  rfl

theorem state_tryCatch (program : Act σ α) (handler : Unit → Act σ α) (s : σ) :
    (tryCatch program handler).state s =
      if program.raises s then (handler ()).state (program.state s) else program.state s := by
  cases hrun : program s with
  | ok a s' => simp [state, raises, tryCatch_of_ok hrun, hrun]
  | error e s' => simp [state, raises, tryCatch_of_error hrun, hrun]

theorem raises_tryCatch (program : Act σ α) (handler : Unit → Act σ α) (s : σ) :
    (tryCatch program handler).raises s = (program.raises s && (handler ()).raises (program.state s)) := by
  cases hrun : program s with
  | ok a s' => simp [raises, tryCatch_of_ok hrun, hrun]
  | error e s' => simp [state, raises, tryCatch_of_error hrun, hrun]

end Act

/-! ### Loops -/

/-- The elements that a loop reaches: up to the first one whose turn raises. -/
def through (raises : α → Bool) : List α → List α
  | [] => []
  | a :: rest => if raises a then [a] else a :: through raises rest

theorem through_sublist (raises : α → Bool) (l : List α) : (through raises l).Sublist l := by
  induction l with
  | nil => exact .slnil
  | cons a rest ih =>
      rw [through]
      split
      · exact (List.nil_sublist rest).cons_cons a
      · exact ih.cons_cons a

/-- A loop reaches the end if none of the turns before the last raises. -/
theorem through_eq_self_iff (raises : α → Bool) (l : List α) :
    through raises l = l ↔ ∀ a ∈ l.dropLast, raises a = false := by
  induction l with
  | nil => simp [through]
  | cons a rest ih =>
      cases rest with
      | nil => simp [through]
      | cons b rest =>
          rw [through, List.dropLast_cons_cons, List.forall_mem_cons, ← ih]
          cases raises a <;> simp

/-- Without repeats nothing short of the end reaches all elements. -/
theorem forall_mem_through_iff (raises : α → Bool) {l : List α} (hl : l.Nodup) :
    (∀ a ∈ l, a ∈ through raises l) ↔ ∀ a ∈ l.dropLast, raises a = false := by
  rw [← through_eq_self_iff]
  constructor
  · intro hall
    have hlength := (List.subperm_of_subset hl hall).length_le
    exact (through_sublist raises l).eq_of_length_le hlength
  · intro heq a ha
    rwa [heq]

namespace Act

/-- A loop whose turns leave a note and then call what may raise. -/
theorem state_forM_call (note : α → σ → σ) (raises : α → Bool) (l : List α) (s : σ) :
    (forM l fun a => (do modify (note a); call (raises a)) : Act σ PUnit).state s =
      (through raises l).foldl (fun s a => note a s) s := by
  induction l generalizing s with
  | nil => rfl
  | cons a rest ih =>
      rw [List.forM_cons, state_seq, raises_seq, state_seq, ih, through]
      cases hraises : raises a <;> simp

theorem raises_forM_call (note : α → σ → σ) (raises : α → Bool) (l : List α) (s : σ) :
    (forM l fun a => (do modify (note a); call (raises a)) : Act σ PUnit).raises s = l.any raises := by
  induction l generalizing s with
  | nil => rfl
  | cons a rest ih =>
      rw [List.forM_cons, raises_seq, raises_seq, state_seq, ih]
      simp

/-- A loop whose turns catch what their call raises. -/
theorem state_forM_guarded (note : α → σ → σ) (raises : α → Bool) (l : List α) (s : σ) :
    (forM l fun a => (do modify (note a); tryCatch (call (raises a)) fun _ => pure ()) : Act σ PUnit).state s =
      l.foldl (fun s a => note a s) s := by
  induction l generalizing s with
  | nil => rfl
  | cons a rest ih =>
      rw [List.forM_cons, state_seq, raises_seq, state_seq, ih, state_tryCatch, raises_tryCatch]
      simp

theorem raises_forM_guarded (note : α → σ → σ) (raises : α → Bool) (l : List α) (s : σ) :
    (forM l fun a => (do modify (note a); tryCatch (call (raises a)) fun _ => pure ()) : Act σ PUnit).raises s =
      false := by
  induction l generalizing s with
  | nil => rfl
  | cons a rest ih =>
      rw [List.forM_cons, raises_seq, raises_seq, ih, raises_tryCatch]
      simp

end Act

end OfTestbed.Lib
