/-
  File:      Mh1903/Library/Frames.lean
  Subject:   SIZES IN FRONT OF PAYLOADS. Names nothing of the bootloader.

  A frame is a header of fixed length and the payload whose size the header gives. `payloads` takes
  whole frames off the front of a list until none is left; of frames that were written one behind
  the other it gives the payloads back.
-/
import Mathlib.Data.List.Basic

namespace Mh1903.Library

/-- Headers of a fixed length, and the size each of them gives. -/
structure Framing (α : Type) where
  header : Nat
  size : List α → Nat
  header_pos : 1 ≤ header

namespace Framing

variable {α : Type} (F : Framing α)

/-! ## 1. Taking frames off the front -/

/-- The size the header in front of `bs` gives. -/
def front (bs : List α) : Nat := F.size (bs.take F.header)

/-- A whole frame is in front of `bs`. -/
def Whole (bs : List α) : Prop := F.header + F.front bs ≤ bs.length

instance (bs : List α) : Decidable (F.Whole bs) := Nat.decLe _ _

def payload (bs : List α) : List α := (bs.drop F.header).take (F.front bs)

def rest (bs : List α) : List α := bs.drop (F.header + F.front bs)

theorem length_rest_lt {bs : List α} (h : F.Whole bs) : (F.rest bs).length < bs.length := by
  have hpos := F.header_pos
  unfold Whole at h
  rw [rest, List.length_drop]
  omega

/-- The payloads of the whole frames in front of `bs`. -/
def payloads (bs : List α) : List (List α) :=
  if F.Whole bs then F.payload bs :: payloads (F.rest bs) else []
termination_by bs.length
decreasing_by exact F.length_rest_lt ‹_›

theorem payloads_whole {bs : List α} (h : F.Whole bs) :
    F.payloads bs = F.payload bs :: F.payloads (F.rest bs) := by
  rw [payloads, if_pos h]

theorem payloads_none {bs : List α} (h : ¬ F.Whole bs) : F.payloads bs = [] := by
  rw [payloads, if_neg h]

/-! ## 2. Frames one behind the other -/

variable (mk : Nat → List α)

/-- `mk` writes the headers of sizes up to `n`. -/
def WrittenBy (n : Nat) : Prop := ∀ s ≤ n, (mk s).length = F.header ∧ F.size (mk s) = s

/-- The frames of `ps`. -/
def encode (ps : List (List α)) : List α := ps.flatMap fun p => mk p.length ++ p

theorem encode_cons (p : List α) (ps : List (List α)) :
    encode mk (p :: ps) = mk p.length ++ (p ++ encode mk ps) := by
  rw [encode, List.flatMap_cons, List.append_assoc]
  rfl

variable {F mk} {n : Nat}

/-- Without frames there is none in front. -/
theorem not_whole_nil : ¬ F.Whole [] := by
  have hpos := F.header_pos
  unfold Whole
  rw [List.length_nil]
  omega

section Cons

variable {p : List α} (h : F.WrittenBy mk n) (hp : p.length ≤ n) (bs : List α)
include h hp

theorem front_frame : F.front (mk p.length ++ (p ++ bs)) = p.length := by
  obtain ⟨hlen, hsize⟩ := h p.length hp
  rw [front, List.take_left' hlen, hsize]

theorem whole_frame : F.Whole (mk p.length ++ (p ++ bs)) := by
  have hlen := (h p.length hp).1
  unfold Whole
  rw [front_frame h hp, List.length_append, List.length_append, hlen]
  omega

theorem payload_frame : F.payload (mk p.length ++ (p ++ bs)) = p := by
  have hlen := (h p.length hp).1
  rw [payload, front_frame h hp, List.drop_left' hlen, List.take_left]

theorem rest_frame : F.rest (mk p.length ++ (p ++ bs)) = bs := by
  have hlen := (h p.length hp).1
  rw [rest, front_frame h hp, ← List.drop_drop, List.drop_left' hlen, List.drop_left]

end Cons

/-- **What was framed is parsed back.** -/
theorem payloads_encode (h : F.WrittenBy mk n) {ps : List (List α)}
    (hps : ∀ p ∈ ps, p.length ≤ n) : F.payloads (encode mk ps) = ps := by
  induction ps with
  | nil => exact F.payloads_none not_whole_nil
  | cons p ps ih =>
      have hp : p.length ≤ n := hps p (List.mem_cons_self ..)
      have hps : ∀ q ∈ ps, q.length ≤ n := fun q hq => hps q (List.mem_cons_of_mem _ hq)
      rw [encode_cons, F.payloads_whole (whole_frame h hp _), payload_frame h hp,
        rest_frame h hp, ih hps]

end Framing

end Mh1903.Library
