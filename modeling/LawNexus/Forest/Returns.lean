import LawNexus.Forest.Climb
import LawNexus.Loops

/-!
# Programs that come to an end

A program made of loops comes to an end where each of its loops does.
-/

namespace LawNexus.Forest

open Loops

variable {α β ε ε' : Type}

/-- The program gives a result or an error. -/
def Returns (r : Except (Stop ε) α) : Prop := r ≠ .error .endless

theorem returns_ok (a : α) : Returns (.ok a : Except (Stop ε) α) := nofun

theorem returns_failed (error : ε) : Returns (.error (.failed error) : Except (Stop ε) α) := nofun

theorem Returns.bind {x : Except (Stop ε) α} {f : α → Except (Stop ε) β} (hx : Returns x)
    (hf : ∀ a, Returns (f a)) : Returns (x >>= f) := by
  intro hendless
  rcases bind_eq_error_iff.mp hendless with h | ⟨a, -, h⟩
  · exact hx h
  · exact hf a h

theorem returns_ite {p : Prop} [Decidable p] {x y : Except (Stop ε) α} (hx : Returns x)
    (hy : Returns y) : Returns (if p then x else y) := by
  split_ifs
  · exact hx
  · exact hy

theorem Returns.map {x : Except (Stop ε) α} (hx : Returns x) (f : α → β) : Returns (x.map f) := by
  cases x with
  | ok a => exact returns_ok (f a)
  | error stop =>
    intro hendless
    obtain rfl := Except.error.inj hendless
    exact hx rfl

theorem returns_mapError_failed {δ : Type} (x : Except δ α) (f : δ → ε) :
    Returns (x.mapError fun error => .failed (f error)) := by
  cases x with
  | ok a => exact returns_ok a
  | error error => exact returns_failed (f error)

theorem Returns.mapError {x : Except (Stop ε) α} (hx : Returns x) (f : ε → ε') :
    Returns (x.mapError (Stop.map f)) := by
  cases x with
  | ok a => exact returns_ok a
  | error stop =>
    cases stop with
    | failed error => exact returns_failed (f error)
    | endless => exact absurd rfl hx

/-! ## Passes over a list -/

variable {l : List α}

theorem returns_mapM {f : α → Except (Stop ε) β} (h : ∀ a ∈ l, Returns (f a)) :
    Returns (l.mapM f) := by
  intro hendless
  obtain ⟨a, ha, herror⟩ := exists_of_mapM_error hendless
  exact h a ha herror

theorem returns_foldlM {f : β → α → Except (Stop ε) β} (h : ∀ s a, Returns (f s a)) (s : β) :
    Returns (l.foldlM f s) := by
  induction l generalizing s with
  | nil => exact returns_ok s
  | cons a l ih => exact (h s a).bind ih

theorem returns_forM {f : α → Except (Stop ε) Unit} (h : ∀ a, Returns (f a)) :
    Returns (l.forM f) := by
  induction l with
  | nil => exact returns_ok ()
  | cons a l ih => exact (h a).bind fun _ => ih

/-! ## Loops -/

variable {σ ρ : Type} {body : σ → Except ε (Turn σ ρ)} {s : σ}

theorem grounded_of_returns {turns : Nat} (h : Returns (climb body turns s)) :
    Grounded (goesOn body) s := by
  rw [Returns, Ne, climb_endless_iff] at h
  simp only [not_forall, not_not] at h
  obtain ⟨n, -, hn⟩ := h
  exact ⟨n, hn⟩

/-- A loop that always goes on to where the links lead ends where they do. -/
theorem returns_climb {m : Links σ} {keys : List σ} (hkeys : ∀ s, m s ≠ none → s ∈ keys)
    (hsub : ∀ s t, body s = .ok (.next t) → m s = some t) (hground : Grounded m s) :
    Returns (climb body (keys.length + 1) s) :=
  climb_ne_endless (fun _ => True) hkeys (fun _ _ _ _ => trivial) (fun s t _ => hsub s t) trivial
    hground

/-- A loop that comes back to where it was never ends. -/
theorem climb_self (h : body s = .ok (.next s)) (turns : Nat) :
    climb body turns s = .error .endless := by
  induction turns with
  | zero => rfl
  | succ turns ih => rw [climb_next h, ih]

end LawNexus.Forest
