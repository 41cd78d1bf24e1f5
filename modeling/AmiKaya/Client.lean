import Mathlib.Tactic.Common

/-! Programs that get at some data only by calls of its operations. When one way to keep the data
simulates another call by call, every program does the same with both. -/
namespace Client

variable {ω ρ ε α β γ σ τ : Type}

/-- A program ends with a result, gives up, or makes a call and goes on with what it returns. -/
inductive Prog (ω ρ ε α : Type)
  | done (a : α)
  | stop (e : ε)
  | call (op : ω) (next : ρ → Prog ω ρ ε α)

namespace Prog

def bind : Prog ω ρ ε α → (α → Prog ω ρ ε β) → Prog ω ρ ε β
  | .done a, f => f a
  | .stop e, _ => .stop e
  | .call op next, f => .call op fun r => (next r).bind f

instance : Monad (Prog ω ρ ε) where
  pure := .done
  bind := bind

/-- A computation that makes no call. -/
def lift : Except ε α → Prog ω ρ ε α
  | .ok a => .done a
  | .error e => .stop e

/-- The program on data of which each call returns something or does not end. -/
def run (f : σ → ω → Option (ρ × σ)) : Prog ω ρ ε α → σ → Option (Except ε (α × σ))
  | .done a, s => some (.ok (a, s))
  | .stop e, _ => some (.error e)
  | .call op next, s => (f s op).bind fun r => (next r.1).run f r.2

/-- On the data `t`, with calls that are all allowed, the program comes to a result as `R` says. -/
def Follows (g : τ → ω → ρ × τ) (pre : τ → ω → Prop) (R : α → τ → Prop) :
    Prog ω ρ ε α → τ → Prop
  | .done a, t => R a t
  | .stop _, _ => False
  | .call op next, t => pre t op ∧ (next (g t op).1).Follows g pre R (g t op).2

end Prog

/-- Of two ways to keep the data, `f` may need a bound on its work, `g` is how one thinks of them.
-/
def Simulates (S : σ → τ → Prop) (f : Nat → σ → ω → Option (ρ × σ)) (g : τ → ω → ρ × τ)
    (pre : τ → ω → Prop) : Prop :=
  ∀ s t op, S s t → pre t op →
    ∃ n s', (∀ fuel, n ≤ fuel → f fuel s op = some ((g t op).1, s')) ∧ S s' (g t op).2

variable {g : τ → ω → ρ × τ} {pre : τ → ω → Prop} {R R' : α → τ → Prop} {Q : γ → τ → Prop}
  {p : Prog ω ρ ε α} {q : α → Prog ω ρ ε γ} {s : σ} {t : τ}

namespace Prog

/-- The call is allowed, and the rest goes on from what it returns and leaves. -/
theorem Follows.call {op : ω} {next : ρ → Prog ω ρ ε α} {r : ρ} {t' : τ} (hp : pre t op)
    (hg : g t op = (r, t')) (h : (next r).Follows g pre R t') :
    (Prog.call op next).Follows g pre R t := by
  refine ⟨hp, ?_⟩
  rw [hg]
  exact h

/-- By induction on the first program. -/
theorem Follows.bind (hp : p.Follows g pre R t)
    (hq : ∀ a t, R a t → (q a).Follows g pre Q t) : (p >>= q).Follows g pre Q t := by
  induction p generalizing t with
  | done a => exact hq a t hp
  | stop e => exact hp.elim
  | call op next ih => exact ⟨hp.1, ih _ hp.2⟩

theorem Follows.mono (hp : p.Follows g pre R t) (hr : ∀ a t, R a t → R' a t) :
    p.Follows g pre R' t := by
  induction p generalizing t with
  | done a => exact hr a t hp
  | stop e => exact hp
  | call op next ih => exact ⟨hp.1, ih _ hp.2⟩

end Prog

/-- What a program comes to on the data as one thinks of them, it comes to on the data as they are
kept, and its calls end. -/
theorem Simulates.run {S : σ → τ → Prop} {f : Nat → σ → ω → Option (ρ × σ)}
    (h : Simulates S f g pre) (hs : S s t) (hp : p.Follows g pre R t) :
    ∃ n a s', (∀ fuel, n ≤ fuel → p.run (f fuel) s = some (.ok (a, s'))) ∧
      ∃ t', S s' t' ∧ R a t' := by
  induction p generalizing s t with
  | done a => exact ⟨0, a, s, fun _ _ => rfl, t, hs, hp⟩
  | stop e => exact hp.elim
  | call op next ih =>
    obtain ⟨n₁, s', hf, hs'⟩ := h s t op hs hp.1
    obtain ⟨n₂, a, s'', hrun, hend⟩ := ih _ hs' hp.2
    refine ⟨max n₁ n₂, a, s'', ?_, hend⟩
    intro fuel hn
    rw [Prog.run, hf fuel (Nat.le_trans (Nat.le_max_left _ _) hn)]
    exact hrun fuel (Nat.le_trans (Nat.le_max_right _ _) hn)

end Client
