import LawNexus.Forest.Links

/-!
# Loops that climb

A loop that goes from one state to the next, or stops with a result. The states that it goes
through are links, so it ends where the links from its first state do.
-/

namespace LawNexus.Forest

variable {σ ρ ε : Type*}

inductive Turn (σ ρ : Type*)
  | next (state : σ)
  | done (result : ρ)

/-- How a program with loops goes wrong: by an error, or by never coming to an end. -/
inductive Stop (ε : Type*)
  | failed (error : ε)
  | endless
deriving DecidableEq, Repr

def Stop.map {ε' : Type*} (f : ε → ε') : Stop ε → Stop ε'
  | .failed error => .failed (f error)
  | .endless => .endless

/-- The loop, where `endless` says that the turns ran out. -/
def climb (body : σ → Except ε (Turn σ ρ)) : Nat → σ → Except (Stop ε) ρ
  | 0, _ => .error .endless
  | turns + 1, state =>
    match body state with
    | .error error => .error (.failed error)
    | .ok (.done result) => .ok result
    | .ok (.next state) => climb body turns state

/-- The states that the loop goes on to. -/
def goesOn (body : σ → Except ε (Turn σ ρ)) : Links σ := fun state =>
  match body state with
  | .ok (.next state) => some state
  | _ => none

variable {body : σ → Except ε (Turn σ ρ)} {s t : σ} {n turns : Nat}

theorem goesOn_eq_some : goesOn body s = some t ↔ body s = .ok (.next t) := by
  unfold goesOn
  split
  · rename_i heq
    rw [heq, Option.some.injEq, Except.ok.injEq, Turn.next.injEq]
  · rename_i hne
    exact iff_of_false (by simp) fun h => hne t h

theorem climb_next (h : body s = .ok (.next t)) : climb body (turns + 1) s = climb body turns t := by
  rw [climb, h]

theorem climb_done {r : ρ} (h : body s = .ok (.done r)) : climb body (turns + 1) s = .ok r := by
  rw [climb, h]

/-- The loop runs out of turns exactly where the links are as long as that. -/
theorem climb_endless_iff :
    climb body turns s = .error .endless ↔ ∀ n < turns, ¬ Depth (goesOn body) s n := by
  induction turns generalizing s with
  | zero => exact iff_of_true rfl fun n hn => absurd hn (Nat.not_lt_zero n)
  | succ turns ih =>
    rw [climb]
    split
    · rename_i error heq
      refine iff_of_false (by simp) fun h => h 0 (Nat.succ_pos _) (.top ?_)
      rw [goesOn, heq]
    · rename_i result heq
      refine iff_of_false (by simp) fun h => h 0 (Nat.succ_pos _) (.top ?_)
      rw [goesOn, heq]
    · rename_i t heq
      have hlink : goesOn body s = some t := goesOn_eq_some.mpr heq
      rw [ih]
      constructor
      · intro h n hn hdepth
        obtain ⟨k, rfl, hk⟩ := hdepth.parent hlink
        exact h k (Nat.lt_of_succ_lt_succ hn) hk
      · intro h n hn hdepth
        exact h (n + 1) (Nat.succ_lt_succ hn) (.under hlink hdepth)

/-- A loop that ends does not need more turns. -/
theorem climb_add (h : climb body turns s ≠ .error .endless) (more : Nat) :
    climb body (turns + more) s = climb body turns s := by
  induction turns generalizing s with
  | zero => exact absurd rfl h
  | succ turns ih =>
    rw [Nat.add_right_comm, climb, climb]
    rw [climb] at h
    split
    · rfl
    · rfl
    · rename_i t heq
      rw [heq] at h
      exact ih h

/-- Where few states are gone through, a loop that runs out of turns never ends. -/
theorem climb_endless {keys : List σ} (hkeys : ∀ s, goesOn body s ≠ none → s ∈ keys)
    (h : climb body (keys.length + 1) s = .error .endless) (turns : Nat) :
    climb body turns s = .error .endless := by
  rw [climb_endless_iff] at h ⊢
  intro n _ hdepth
  exact h n (Nat.lt_succ_of_le (hdepth.le_length hkeys)) hdepth

/-- A loop over the links of a forest ends below each top. -/
theorem climb_ne_endless {m : Links σ} {keys : List σ} (inv : σ → Prop)
    (hkeys : ∀ s, m s ≠ none → s ∈ keys) (hinv : ∀ s t, inv s → m s = some t → inv t)
    (hsub : ∀ s t, inv s → body s = .ok (.next t) → m s = some t) (hs : inv s)
    (hground : Grounded m s) : climb body (keys.length + 1) s ≠ .error .endless := by
  have hlinks : ∀ {a n}, Depth m a n → inv a → ∃ k ≤ n, Depth (goesOn body) a k := by
    intro a n hdepth
    induction hdepth with
    | @top a htop =>
      intro ha
      refine ⟨0, le_refl _, .top ?_⟩
      cases hgo : goesOn body a with
      | none => rfl
      | some t => exact nomatch htop.symm.trans (hsub a t ha (goesOn_eq_some.mp hgo))
    | @under a b n hab _ ih =>
      intro ha
      obtain ⟨k, hk, hdepth⟩ := ih (hinv a b ha hab)
      cases hgo : goesOn body a with
      | none => exact ⟨0, Nat.zero_le _, .top hgo⟩
      | some t =>
        obtain rfl := Option.some.inj (hab.symm.trans (hsub a t ha (goesOn_eq_some.mp hgo)))
        exact ⟨k + 1, Nat.succ_le_succ hk, .under hgo hdepth⟩
  obtain ⟨n, hn⟩ := hground
  obtain ⟨k, hk, hdepth⟩ := hlinks hn hs
  rw [Ne, climb_endless_iff]
  intro h
  exact h k (Nat.lt_succ_of_le (hk.trans (hn.le_length hkeys))) hdepth

/-- What every turn keeps holds at the turn that ends the loop. -/
theorem climb_ok (inv : σ → Prop) (post : ρ → Prop) {r : ρ}
    (hnext : ∀ s t, inv s → body s = .ok (.next t) → inv t)
    (hdone : ∀ s r, inv s → body s = .ok (.done r) → post r) (hs : inv s)
    (h : climb body turns s = .ok r) : post r := by
  induction turns generalizing s with
  | zero => exact nomatch h
  | succ turns ih =>
    rw [climb] at h
    split at h
    · exact nomatch h
    · rename_i result heq
      obtain rfl := Except.ok.inj h
      exact hdone s result hs heq
    · rename_i t heq
      exact ih (hnext s t hs heq) h

/-- A loop without failing turns does not fail. -/
theorem climb_ne_failed (inv : σ → Prop)
    (hnext : ∀ s t, inv s → body s = .ok (.next t) → inv t) (hbody : ∀ s e, inv s → body s ≠ .error e) (hs : inv s) (e : ε) :
    climb body turns s ≠ .error (.failed e) := by
  induction turns generalizing s with
  | zero => simp [climb]
  | succ turns ih =>
    rw [climb]
    split
    · rename_i error heq
      exact absurd heq (hbody s error hs)
    · simp
    · rename_i t heq
      exact ih (hnext s t hs heq)

end LawNexus.Forest
