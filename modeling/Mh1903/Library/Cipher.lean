/-
  File:      Mh1903/Library/Cipher.lean
  Subject:   ITERATED CIPHERS AND STREAMS. A block passes rounds of a substitution, a mixing and the
             addition of a round key; the last round does not mix. The equivalent inverse runs the
             same rounds with the inverse substitution and mixing, over the keys in reverse order.
             A stream is transformed piece for piece, with a state between. Names nothing of the
             bootloader.
-/
import Mathlib.Data.List.Basic

namespace Mh1903.Library

/-- The layers of an iterated cipher. -/
structure Layers (α : Type) where
  add : α → α → α
  substitute : α → α
  mix : α → α

namespace Layers

variable {α : Type}

/-- A round: substitution, mixing, the round key. -/
def round (L : Layers α) (x k : α) : α := L.add k (L.mix (L.substitute x))

/-- The key in front, a round for each key of `mids`, and the round that does not mix. -/
def run (L : Layers α) (first : α) (mids : List α) (last x : α) : α :=
  L.add last (L.substitute (mids.foldl L.round (L.add first x)))

/-- `U` undoes `L`, and its mixing is linear. -/
structure Undoes (U L : Layers α) : Prop where
  add : U.add = L.add
  cancel : ∀ k x, L.add k (L.add k x) = x
  unsubstitute : ∀ x, U.substitute (L.substitute x) = x
  unmix : ∀ x, U.mix (L.mix x) = x
  linear : ∀ x y, U.mix (L.add x y) = L.add (U.mix x) (U.mix y)

section Inverse

variable {U L : Layers α} (h : U.Undoes L)
include h

/-- A round of `U` goes from the substitution of a state to that of the state before it. -/
theorem Undoes.round (x k : α) :
    U.round (L.substitute (L.round x k)) (U.mix k) = L.substitute x := by
  have hback : L.add k (L.round x k) = L.mix (L.substitute x) := h.cancel k _
  calc U.round (L.substitute (L.round x k)) (U.mix k)
      = L.add (U.mix k) (U.mix (L.round x k)) := by
        rw [Layers.round, h.add, h.unsubstitute]
    _ = U.mix (L.add k (L.round x k)) := (h.linear _ _).symm
    _ = L.substitute x := by rw [hback, h.unmix]

/-- The rounds of `U` undo those of `L`. -/
theorem Undoes.rounds (mids : List α) (x : α) :
    (mids.reverse.map U.mix).foldl U.round (L.substitute (mids.foldl L.round x)) =
      L.substitute x := by
  induction mids generalizing x with
  | nil => rfl
  | cons k mids ih =>
      rw [List.foldl_cons, List.reverse_cons, List.map_append, List.foldl_append, ih]
      exact h.round x k

/-- **The equivalent inverse**: keys in reverse order, those between mixed. -/
theorem Undoes.run (first : α) (mids : List α) (last x : α) :
    U.run last (mids.reverse.map U.mix) first (L.run first mids last x) = x := by
  unfold Layers.run
  rw [h.add, h.cancel, h.rounds, h.unsubstitute, h.cancel]

end Inverse

end Layers

/-! ## Pieces of a stream -/

section Pieces

variable {σ α β : Type} {f : σ → List α → σ × List β}

/-- Piece for piece, each with the state the one before it leaves. -/
def inPieces (f : σ → List α → σ × List β) : σ → List (List α) → σ × List β
  | s, [] => (s, [])
  | s, p :: ps =>
      let r := f s p
      let rest := inPieces f r.1 ps
      (rest.1, r.2 ++ rest.2)

/-- Where two pieces give what both give at one go, many do. -/
theorem inPieces_eq {Whole : List α → Prop} (hnil : ∀ s, f s [] = (s, []))
    (happend : ∀ s p q, Whole p →
      f s (p ++ q) = ((f (f s p).1 q).1, (f s p).2 ++ (f (f s p).1 q).2))
    (s : σ) {ps : List (List α)} (hps : ∀ p ∈ ps, Whole p) : inPieces f s ps = f s ps.flatten := by
  induction ps generalizing s with
  | nil => exact (hnil s).symm
  | cons p ps ih =>
      rw [List.flatten_cons, happend s p _ (hps p (List.mem_cons_self ..)), inPieces,
        ih _ fun q hq => hps q (List.mem_cons_of_mem _ hq)]

end Pieces

end Mh1903.Library
