import CardDeck.Stream

/-! # Loops over a stream

A loop goes rounds until a round leaves it. `Loop.Runs` is a run from a state of the loop to the
outcome that it is left with. `Loop.Computes` says of every round by itself that it brings the loop
closer to what a function comes to, with a token passed, or is there; so that is what the loop comes
to: `Loop.Computes.comesTo`. -/

namespace CardDeck

namespace Stream

variable {α β : Type} {s s' s'' : Stream}

/-- The second stream stands in the same tokens, not before the first one and not past the end. -/
structure Onward (s s' : Stream) : Prop where
  tokens_eq : s'.tokens = s.tokens
  le : s.index ≤ s'.index
  le_length : s'.index ≤ s.tokens.length

theorem onward_self (hs : s.index ≤ s.tokens.length) : s.Onward s := ⟨rfl, Nat.le_refl _, hs⟩

theorem Onward.trans (h : s.Onward s') (h' : s'.Onward s'') : s.Onward s'' where
  tokens_eq := h'.tokens_eq.trans h.tokens_eq
  le := Nat.le_trans h.le h'.le
  le_length := h.tokens_eq ▸ h'.le_length

/-- What stands past the last token does not change. -/
theorem Onward.last_eq (h : s.Onward s') : s'.last = s.last :=
  congrArg Token.endAfter h.tokens_eq

/-! ### What comes next -/

theorem current_of_rest_nil (h : s.rest = []) : s.current = s.last := by
  rw [current, h]
  rfl

theorem current_of_rest_cons {t : Token} {ts : List Token} (h : s.rest = t :: ts) :
    s.current = t := by
  rw [current, h]
  rfl

/-- Past the last token a stream sees the end of the deck. -/
theorem rest_ne_nil_of_kind (h : s.current.kind ≠ .endOfInput) :
    ∃ ts, s.rest = s.current :: ts := by
  cases hrest : s.rest with
  | nil =>
    rw [current_of_rest_nil hrest] at h
    exact absurd rfl h
  | cons t ts => exact ⟨ts, by rw [current_of_rest_cons hrest]⟩

theorem onward_advance {t : Token} {ts : List Token} (h : s.rest = t :: ts) :
    s.Onward s.advance := by
  refine ⟨rfl, Nat.le_succ _, ?_⟩
  have hlength := congrArg List.length h
  rw [rest, List.length_drop, List.length_cons] at hlength
  simp only [advance]
  omega

/-! ### Reading -/

/-- A stream stays where nothing is read. -/
theorem read_eq_self {f : List Token → α × List Token} {a : α} (h : f s.rest = (a, s.rest)) :
    s.read f = (a, s) := by
  simp [read, h]

/-- A stream goes on behind the first token if the rest is read from there. -/
theorem read_eq_read_advance {f g : List Token → α × List Token} {t : Token} {ts : List Token}
    (hrest : s.rest = t :: ts) (h : f (t :: ts) = g ts) (hsuffix : (g ts).2 <:+ ts) :
    s.read f = s.advance.read g := by
  have hle := hsuffix.length_le
  simp only [read, rest_advance, hrest, h, List.drop_succ_cons, List.drop_zero, List.length_cons]
  refine Prod.ext rfl (congrArg (Stream.mk s.tokens) ?_)
  simp only [advance]
  omega

end Stream

/-- A loop over a stream. A round starts from a state of the loop, and either it leaves the loop
with an outcome or it has a state for a further round; the stream may stand elsewhere then. -/
structure Loop (σ β : Type) where
  round : σ → Stream → (β ⊕ σ) × Stream

namespace Loop

variable {σ β : Type} {l : Loop σ β} {state : σ} {s : Stream}

/-- A run up to the outcome that the loop is left with, and how many rounds do not leave it. -/
inductive Runs (l : Loop σ β) : σ → Stream → Nat → β → Stream → Prop
  | leave {state : σ} {s s' : Stream} {outcome : β} (h : l.round state s = (.inl outcome, s')) :
      Runs l state s 0 outcome s'
  | more {state state' : σ} {s s' s'' : Stream} {n : Nat} {outcome : β}
      (h : l.round state s = (.inr state', s')) (hrest : Runs l state' s' n outcome s'') :
      Runs l state s (n + 1) outcome s''

/-- What a round of a loop comes to, if the loop is to compute the function: it leaves the loop with
the outcome of the function, or it passes a token at least and leaves the rest to a further round. -/
inductive Steps (l : Loop σ β) (f : σ → Stream → β × Stream) (state : σ) (s : Stream) : Prop
  | leave {outcome : β} {s' : Stream} (hround : l.round state s = (.inl outcome, s'))
      (honward : s.Onward s') (hf : f state s = (outcome, s'))
  | more (state' : σ) {s' : Stream} (hround : l.round state s = (.inr state', s'))
      (honward : s.Onward s') (hlt : s.index < s'.index) (hf : f state s = f state' s')

/-- In whatever state and wherever in the tokens a round starts, it is one of a loop that computes
the function. -/
def Computes (l : Loop σ β) (f : σ → Stream → β × Stream) : Prop :=
  ∀ (state : σ) (s : Stream), s.index ≤ s.tokens.length → l.Steps f state s

/-- Wherever in the tokens a round starts, it goes on in them, and a round that does not leave the
loop passes a token at least. -/
structure Progresses (l : Loop σ β) : Prop where
  onward : ∀ state (s : Stream), s.index ≤ s.tokens.length → s.Onward (l.round state s).2
  lt_index : ∀ state (s : Stream) state' s', s.index ≤ s.tokens.length →
    l.round state s = (.inr state', s') → s.index < s'.index

/-- The loop ends with this outcome, after no more rounds than tokens are passed. -/
def ComesTo (l : Loop σ β) (state : σ) (s : Stream) (last : β × Stream) : Prop :=
  ∃ n, l.Runs state s n last.1 last.2 ∧ s.index + n ≤ last.2.index

namespace Computes

variable {f : σ → Stream → β × Stream}

theorem progresses (h : l.Computes f) : l.Progresses where
  onward state s hs := by
    cases h state s hs with
    | leave hround honward | more _ hround honward =>
      rw [hround]
      exact honward
  lt_index state s state' s' hs hround' := by
    cases h state s hs with
    | leave hround =>
      rw [hround] at hround'
      cases hround'
    | more _ hround _ hlt =>
      rw [hround] at hround'
      cases hround'
      exact hlt

/-- What a loop computes goes on in the tokens, since its rounds do. -/
theorem onward (h : l.Computes f) (state : σ) (hs : s.index ≤ s.tokens.length) :
    s.Onward (f state s).2 := by
  induction hn : s.tokens.length - s.index using Nat.strongRecOn generalizing state s with
  | ind n ih =>
    cases h state s hs with
    | leave _ honward hf =>
      rw [hf]
      exact honward
    | @more state' s' _ honward hlt hf =>
      have hs' : s'.index ≤ s'.tokens.length := honward.tokens_eq ▸ honward.le_length
      have hless : s'.tokens.length - s'.index < n := by
        rw [honward.tokens_eq] at hs' ⊢
        omega
      rw [hf]
      exact honward.trans (ih _ hless state' hs' rfl)

/-- A loop that computes a function comes to what the function says. -/
theorem comesTo (h : l.Computes f) (state : σ) (hs : s.index ≤ s.tokens.length) :
    l.ComesTo state s (f state s) := by
  induction hn : s.tokens.length - s.index using Nat.strongRecOn generalizing state s with
  | ind n ih =>
    cases h state s hs with
    | leave hround honward hf =>
      rw [hf]
      exact ⟨0, .leave hround, honward.le⟩
    | @more state' s' hround honward hlt hf =>
      have hs' : s'.index ≤ s'.tokens.length := honward.tokens_eq ▸ honward.le_length
      have hless : s'.tokens.length - s'.index < n := by
        rw [honward.tokens_eq] at hs' ⊢
        omega
      obtain ⟨m, hruns, hm⟩ := ih _ hless state' hs' rfl
      rw [hf]
      exact ⟨m + 1, .more hround hruns, by omega⟩

end Computes

end Loop

end CardDeck
