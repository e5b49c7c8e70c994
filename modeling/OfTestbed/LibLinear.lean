import Mathlib.Algebra.BigOperators.Group.List.Basic
import Mathlib.Algebra.BigOperators.Ring.List
import Mathlib.Algebra.Order.Field.Rat
import Mathlib.Tactic.Ring

/-!
Linear models as a solver receives them: variables with bounds, linear expressions and linear
constraints. A model says which assignments are feasible. Variables have a type of their own, so that a
model names them the way the program does.
-/

namespace OfTestbed.Lib

structure LinExpr (ι : Type) where
  terms : List (ι × ℚ)
  const : ℚ

namespace LinExpr

variable {ι : Type}

def ofConst (c : ℚ) : LinExpr ι := ⟨[], c⟩

def ofVar (v : ι) : LinExpr ι := ⟨[(v, 1)], 0⟩

def add (e e' : LinExpr ι) : LinExpr ι := ⟨e.terms ++ e'.terms, e.const + e'.const⟩

def scale (c : ℚ) (e : LinExpr ι) : LinExpr ι := ⟨e.terms.map fun (v, k) => (v, c * k), c * e.const⟩

instance : Add (LinExpr ι) := ⟨add⟩

instance : Sub (LinExpr ι) := ⟨fun e e' => e.add (e'.scale (-1))⟩

/-- The sum of a list of expressions. -/
def sum (l : List (LinExpr ι)) : LinExpr ι := l.foldl (· + ·) (ofConst 0)

/-- The value of an expression under an assignment. -/
def eval (x : ι → ℚ) (e : LinExpr ι) : ℚ := (e.terms.map fun (v, c) => c * x v).sum + e.const

@[simp] theorem eval_ofConst (x : ι → ℚ) (c : ℚ) : (ofConst c).eval x = c := by simp [eval, ofConst]

@[simp] theorem eval_ofVar (x : ι → ℚ) (v : ι) : (ofVar v).eval x = x v := by simp [eval, ofVar]

@[simp] theorem eval_add (x : ι → ℚ) (e e' : LinExpr ι) : (e + e').eval x = e.eval x + e'.eval x := by
  change (e.add e').eval x = _
  simp only [eval, add, List.map_append, List.sum_append]
  ring

@[simp] theorem eval_scale (x : ι → ℚ) (c : ℚ) (e : LinExpr ι) : (e.scale c).eval x = c * e.eval x := by
  simp only [eval, scale, List.map_map, Function.comp_def, mul_assoc, List.sum_map_mul_left]
  ring

@[simp] theorem eval_sub (x : ι → ℚ) (e e' : LinExpr ι) : (e - e').eval x = e.eval x - e'.eval x := by
  change (e + e'.scale (-1)).eval x = _
  rw [eval_add, eval_scale]
  ring

@[simp] theorem eval_sum (x : ι → ℚ) (l : List (LinExpr ι)) : (sum l).eval x = (l.map (eval x)).sum := by
  have hfold : ∀ (l : List (LinExpr ι)) (e : LinExpr ι),
      (l.foldl (· + ·) e).eval x = e.eval x + (l.map (eval x)).sum := by
    intro l
    induction l with
    | nil => simp
    | cons e' rest ih =>
        intro e
        rw [List.foldl_cons, ih, eval_add, List.map_cons, List.sum_cons, add_assoc]
  rw [sum, hfold, eval_ofConst, zero_add]

end LinExpr

inductive Sense where
  | le
  | ge
  | eq
  deriving DecidableEq

structure LinConstr (ι : Type) where
  lhs : LinExpr ι
  sense : Sense
  rhs : LinExpr ι

def LinConstr.Holds {ι : Type} (x : ι → ℚ) (constr : LinConstr ι) : Prop :=
  match constr.sense with
  | .le => constr.lhs.eval x ≤ constr.rhs.eval x
  | .ge => constr.rhs.eval x ≤ constr.lhs.eval x
  | .eq => constr.lhs.eval x = constr.rhs.eval x

instance {ι : Type} (x : ι → ℚ) (constr : LinConstr ι) : Decidable (constr.Holds x) :=
  match constr with
  | ⟨lhs, .le, rhs⟩ => inferInstanceAs (Decidable (lhs.eval x ≤ rhs.eval x))
  | ⟨lhs, .ge, rhs⟩ => inferInstanceAs (Decidable (rhs.eval x ≤ lhs.eval x))
  | ⟨lhs, .eq, rhs⟩ => inferInstanceAs (Decidable (lhs.eval x = rhs.eval x))

inductive VarType where
  | continuous
  | semicont
  deriving DecidableEq

/-- The declaration of a variable; without an upper bound it is unbounded above. The defaults are those of
the solver. -/
structure VarDecl where
  lb : ℚ := 0
  ub : Option ℚ := none
  vtype : VarType := .continuous

def VarDecl.InBounds (decl : VarDecl) (value : ℚ) : Prop :=
  decl.lb ≤ value ∧ ∀ ub ∈ decl.ub, value ≤ ub

instance (decl : VarDecl) (value : ℚ) : Decidable (decl.InBounds value) :=
  inferInstanceAs (Decidable (decl.lb ≤ value ∧ ∀ ub ∈ decl.ub, value ≤ ub))

/-- A semi-continuous variable may also be 0. -/
def VarDecl.Allows (decl : VarDecl) (value : ℚ) : Prop :=
  match decl.vtype with
  | .continuous => decl.InBounds value
  | .semicont => value = 0 ∨ decl.InBounds value

instance (decl : VarDecl) (value : ℚ) : Decidable (decl.Allows value) :=
  match decl with
  | ⟨lb, ub, .continuous⟩ => inferInstanceAs (Decidable (VarDecl.InBounds ⟨lb, ub, .continuous⟩ value))
  | ⟨lb, ub, .semicont⟩ =>
      inferInstanceAs (Decidable (value = 0 ∨ VarDecl.InBounds ⟨lb, ub, .semicont⟩ value))

structure LinModel (ι : Type) where
  vars : List (ι × VarDecl)
  constrs : List (LinConstr ι)

structure LinModel.Feasible {ι : Type} (model : LinModel ι) (x : ι → ℚ) : Prop where
  vars : ∀ decl ∈ model.vars, decl.2.Allows (x decl.1)
  constrs : ∀ constr ∈ model.constrs, constr.Holds x

instance {ι : Type} (model : LinModel ι) (x : ι → ℚ) : Decidable (model.Feasible x) :=
  decidable_of_iff
    ((∀ decl ∈ model.vars, decl.2.Allows (x decl.1)) ∧ ∀ constr ∈ model.constrs, constr.Holds x)
    ⟨fun h => ⟨h.1, h.2⟩, fun h => ⟨h.vars, h.constrs⟩⟩

/-- A feasible assignment that gives the objective, a variable to be minimised, its least value. -/
structure LinModel.Optimal {ι : Type} (model : LinModel ι) (objective : ι) (x : ι → ℚ) : Prop where
  feasible : model.Feasible x
  le : ∀ y, model.Feasible y → x objective ≤ y objective

def LinModel.Unbounded {ι : Type} (model : LinModel ι) (objective : ι) : Prop :=
  ∀ bound, ∃ x, model.Feasible x ∧ x objective < bound

/-- What a solver may answer: any optimal assignment, or that the model is infeasible or unbounded. -/
def LinModel.Answer {ι : Type} (model : LinModel ι) (objective : ι) : Option (ι → ℚ) → Prop
  | some x => model.Optimal objective x
  | none => (∀ x, ¬model.Feasible x) ∨ model.Unbounded objective

open Classical in
/-- A solver that finds an optimal assignment whenever there is one. -/
noncomputable def LinModel.solve {ι : Type} (objective : ι) (model : LinModel ι) : Option (ι → ℚ) :=
  if h : ∃ x, model.Optimal objective x then some h.choose else none

theorem LinModel.answer_solve {ι : Type} {model : LinModel ι} {objective : ι}
    (h : ∀ x, model.Feasible x → ∃ y, model.Optimal objective y) :
    model.Answer objective (LinModel.solve objective model) := by
  by_cases hoptimal : ∃ x, model.Optimal objective x
  · rw [LinModel.solve, dif_pos hoptimal]
    exact hoptimal.choose_spec
  · rw [LinModel.solve, dif_neg hoptimal]
    exact Or.inl fun x hx => hoptimal (h x hx)

/-- The order of summation over two lists. -/
theorem sum_map_sum_comm {α β : Type} (l : List α) (m : List β) (f : α → β → ℚ) :
    (l.map fun a => (m.map fun b => f a b).sum).sum = (m.map fun b => (l.map fun a => f a b).sum).sum := by
  induction l with
  | nil => simp
  | cons a rest ih =>
      rw [List.map_cons, List.sum_cons, ih, ← List.sum_map_add]
      simp only [List.map_cons, List.sum_cons]

end OfTestbed.Lib
