import Mathlib.Data.List.Basic

/-!
Programs that are watched from outside. A program emits events, and then it returns, or it does not: it has raised an
exception, or waits for something that has not come. What it has emitted counts either way. A program that is stopped
from outside has emitted the beginning of such a list.
-/

namespace OfTestbed.Lib

structure Emit (ε α : Type) where
  events : List ε
  result : Option α

namespace Emit

variable {ε σ α β : Type}

def emit (event : ε) : Emit ε Unit := ⟨[event], some ()⟩

/-- A value that may be missing, and then nothing more happens. -/
def ofOption (value : Option α) : Emit ε α := ⟨[], value⟩

instance : Monad (Emit ε) where
  pure a := ⟨[], some a⟩
  bind program next :=
    match program.result with
    | none => ⟨program.events, none⟩
    | some a => ⟨program.events ++ (next a).events, (next a).result⟩

/-- What a program emits when it returns, and when it does not. -/
def Spec (program : Emit ε α) (returns : α → List ε → Prop) (stops : List ε → Prop) : Prop :=
  match program.result with
  | none => stops program.events
  | some a => returns a program.events

variable {returns : α → List ε → Prop} {stops : List ε → Prop}

theorem spec_pure {a : α} (h : returns a []) : Spec (pure a : Emit ε α) returns stops := h

theorem spec_emit {event : ε} {returns : Unit → List ε → Prop} (h : returns () [event]) :
    Spec (emit event) returns stops := h

theorem spec_ofOption (value : Option α) :
    Spec (ofOption value : Emit ε α) (fun a events => value = some a ∧ events = []) fun events => events = [] := by
  cases value with
  | none => rfl
  | some a => exact ⟨rfl, rfl⟩

theorem Spec.mono {program : Emit ε α} {returns' : α → List ε → Prop} {stops' : List ε → Prop}
    (h : Spec program returns stops) (hreturns : ∀ a events, returns a events → returns' a events)
    (hstops : ∀ events, stops events → stops' events) : Spec program returns' stops' := by
  unfold Spec at *
  cases hresult : program.result with
  | none =>
      rw [hresult] at h
      exact hstops _ h
  | some a =>
      rw [hresult] at h
      exact hreturns a _ h

/-- What was emitted, whether the program returns or not. -/
theorem Spec.events {program : Emit ε α} {P : List ε → Prop} (h : Spec program returns stops)
    (hreturns : ∀ a events, returns a events → P events) (hstops : ∀ events, stops events → P events) :
    P program.events := by
  unfold Spec at h
  cases hresult : program.result with
  | none =>
      rw [hresult] at h
      exact hstops _ h
  | some a =>
      rw [hresult] at h
      exact hreturns a _ h

theorem Spec.and {program : Emit ε α} {returns' : α → List ε → Prop} {stops' : List ε → Prop}
    (h : Spec program returns stops) (h' : Spec program returns' stops') :
    Spec program (fun a events => returns a events ∧ returns' a events) fun events => stops events ∧ stops' events := by
  unfold Spec at *
  cases hresult : program.result with
  | none =>
      rw [hresult] at h h'
      exact ⟨h, h'⟩
  | some a =>
      rw [hresult] at h h'
      exact ⟨h, h'⟩

/-- The second program goes on where the first one has returned. -/
theorem Spec.bind {program : Emit ε α} {next : α → Emit ε β} {returns' : β → List ε → Prop} {stops' : List ε → Prop}
    (h : Spec program returns stops) (hstops : ∀ events, stops events → stops' events)
    (hnext : ∀ a before, returns a before →
      Spec (next a) (fun b after => returns' b (before ++ after)) fun after => stops' (before ++ after)) :
    Spec (program >>= next) returns' stops' := by
  unfold Spec at h
  cases hresult : program.result with
  | none =>
      rw [hresult] at h
      simp only [Spec, Bind.bind, hresult]
      exact hstops _ h
  | some a =>
      rw [hresult] at h
      have hafter := hnext a _ h
      simp only [Spec, Bind.bind, hresult]
      exact hafter

/-- A loop: what holds before a turn of the state and of all that was emitted holds before the next one. -/
theorem spec_foldlM {body : σ → α → Emit ε σ} {l : List α} {start : σ} (inv : List α → σ → List ε → Prop)
    (stops : List ε → Prop) (hstart : inv [] start [])
    (hturn : ∀ done a rest state sofar, l = done ++ a :: rest → inv done state sofar →
      Spec (body state a) (fun state' events => inv (done ++ [a]) state' (sofar ++ events))
        fun events => stops (sofar ++ events)) :
    Spec (l.foldlM body start) (inv l) stops := by
  suffices h : ∀ todo done state sofar, l = done ++ todo → inv done state sofar →
      Spec (todo.foldlM body state) (fun state' events => inv l state' (sofar ++ events))
        fun events => stops (sofar ++ events) from h l [] start [] rfl hstart
  intro todo
  induction todo with
  | nil =>
      intro done state sofar hl hinv
      rw [List.append_nil] at hl
      refine spec_pure ?_
      rw [List.append_nil]
      exact hl ▸ hinv
  | cons a rest ih =>
      intro done state sofar hl hinv
      rw [List.foldlM_cons]
      refine (hturn done a rest state sofar hl hinv).bind (fun _ h => h) fun state' events hinv' => ?_
      have hrest := ih (done ++ [a]) state' (sofar ++ events) (by simpa using hl) hinv'
      simp only [List.append_assoc] at hrest
      exact hrest

end Emit

end OfTestbed.Lib
