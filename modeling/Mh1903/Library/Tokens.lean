/-
  File:      Mh1903/Library/Tokens.lean
  Subject:   COPIES FROM WHAT IS THERE. A text as literals and copies of its own past: what a list
             of tokens expands to, and when a token describes the next piece of a given text.
             Names nothing of the bootloader.
-/
import Mathlib.Data.List.Basic

namespace Mh1903.Library

variable {α : Type}

/-! ## 1. A copy -/

/-- `n` times: the element `dist` back is put behind. A copy may run into what it has put. -/
def copyBack (dist : Nat) : Nat → List α → List α
  | 0, out => out
  | n + 1, out => copyBack dist n (out ++ (out[out.length - dist]?).toList)

section CopyBack

variable {dist : Nat} {out : List α}

theorem copyBack_add (m n : Nat) (out : List α) :
    copyBack dist (m + n) out = copyBack dist n (copyBack dist m out) := by
  induction m generalizing out with
  | zero => rw [Nat.zero_add]; rfl
  | succ m ih =>
      rw [Nat.succ_add]
      exact ih _

/-- One element more, where there is one to copy. -/
theorem copyBack_succ (h1 : 1 ≤ dist) (h : dist ≤ out.length) (n : Nat) :
    copyBack dist (n + 1) out =
      copyBack dist n (out ++ [out.get ⟨out.length - dist, by omega⟩]) := by
  show copyBack dist n (out ++ (out[out.length - dist]?).toList) = _
  rw [List.getElem?_eq_getElem (by omega)]
  rfl

theorem length_copyBack (h1 : 1 ≤ dist) (h : dist ≤ out.length) (n : Nat) :
    (copyBack dist n out).length = out.length + n := by
  induction n generalizing out with
  | zero => rfl
  | succ n ih =>
      rw [copyBack_succ h1 h, ih (by rw [List.length_append]; omega), List.length_append,
        List.length_singleton]
      omega

/-- Copying the last element repeats it. -/
theorem copyBack_one (b : α) (n : Nat) (out : List α) :
    copyBack 1 n (out ++ [b]) = out ++ [b] ++ List.replicate n b := by
  induction n generalizing out with
  | zero => rw [List.replicate_zero, List.append_nil]; rfl
  | succ n ih =>
      have hlast : (out ++ [b])[(out ++ [b]).length - 1]? = some b := by simp
      show copyBack 1 n (out ++ [b] ++ ((out ++ [b])[(out ++ [b]).length - 1]?).toList) = _
      rw [hlast, Option.toList_some, ih, List.replicate_succ]
      simp only [List.append_assoc, List.cons_append, List.nil_append]

/-- The next `n` elements of `text` behind `pos` are those `dist` in front of them. -/
def Repeats (text : List α) (pos dist n : Nat) : Prop :=
  ∀ k < n, text[pos + k]? = text[pos + k - dist]?

theorem Repeats.drop {text : List α} {pos m n : Nat} (h : Repeats text pos dist (m + n)) :
    Repeats text (pos + m) dist n := by
  intro k hk
  rw [Nat.add_assoc]
  exact h (m + k) (by omega)

/-- **A copy of what repeats** gives the next piece of the text. -/
theorem copyBack_take {text : List α} {pos n : Nat} (h1 : 1 ≤ dist) (hpos : dist ≤ pos)
    (hn : pos + n ≤ text.length) (h : Repeats text pos dist n) :
    copyBack dist n (text.take pos) = text.take (pos + n) := by
  induction n generalizing pos with
  | zero => rfl
  | succ n ih =>
      have hlen : (text.take pos).length = pos := by rw [List.length_take]; omega
      have hback : (text.take pos)[(text.take pos).length - dist]? = text[pos]? := by
        have h0 := h 0 (Nat.succ_pos n)
        rw [Nat.add_zero] at h0
        rw [hlen, List.getElem?_take_of_lt (by omega), h0]
      show copyBack dist n (text.take pos ++ ((text.take pos)[(text.take pos).length - dist]?).toList) = _
      rw [hback, ← List.take_add_one, ih (by omega) (by omega)]
      · rw [Nat.add_assoc, Nat.add_comm 1]
      · rw [Nat.add_comm n 1] at h
        exact h.drop

end CopyBack

/-! ## 2. Tokens -/

inductive Token (α : Type) where
  | literal (bs : List α)
  | copy (dist len : Nat)

/-- `out` with what the token stands for behind it. -/
def Token.expand (out : List α) : Token α → List α
  | .literal bs => out ++ bs
  | .copy dist len => copyBack dist len out

/-- How much that is. -/
def Token.size : Token α → Nat
  | .literal bs => bs.length
  | .copy _ len => len

/-- A copy starts inside `n` elements. -/
def Token.Inside (n : Nat) : Token α → Prop
  | .literal _ => True
  | .copy dist _ => 1 ≤ dist ∧ dist ≤ n

def expandAll (ts : List (Token α)) (out : List α) : List α := ts.foldl Token.expand out

/-- How many elements the tokens give. -/
def sizes : List (Token α) → Nat
  | [] => 0
  | t :: ts => t.size + sizes ts

/-- Every copy starts inside what is there then. -/
def AllInside : Nat → List (Token α) → Prop
  | _, [] => True
  | n, t :: ts => t.Inside n ∧ AllInside (n + t.size) ts

section Expand

variable {t : Token α} {ts us : List (Token α)} {out : List α}

@[simp] theorem expandAll_nil : expandAll [] out = out := rfl

@[simp] theorem expandAll_cons : expandAll (t :: ts) out = expandAll ts (t.expand out) := rfl

theorem expandAll_append : expandAll (ts ++ us) out = expandAll us (expandAll ts out) :=
  List.foldl_append ..

/-- Copies from one distance are one copy. -/
theorem expandAll_replicate (dist n k : Nat) :
    expandAll (List.replicate k (.copy dist n)) out = copyBack dist (n * k) out := by
  induction k generalizing out with
  | zero => rfl
  | succ k ih =>
      rw [List.replicate_succ, expandAll_cons, ih, Token.expand, ← copyBack_add, Nat.mul_succ,
        Nat.add_comm]

theorem Token.Inside.length (h : t.Inside out.length) :
    (t.expand out).length = out.length + t.size := by
  cases t with
  | literal bs => exact List.length_append
  | copy dist len => exact length_copyBack h.1 h.2 len

theorem length_expandAll (h : AllInside out.length ts) :
    (expandAll ts out).length = out.length + sizes ts := by
  induction ts generalizing out with
  | nil => rfl
  | cons t ts ih =>
      have hlen := h.1.length
      rw [expandAll_cons, ih (by rw [hlen]; exact h.2), hlen, sizes]
      omega

theorem allInside_append {n : Nat} :
    AllInside n (ts ++ us) ↔ AllInside n ts ∧ AllInside (n + sizes ts) us := by
  induction ts generalizing n with
  | nil => exact ⟨fun h => ⟨trivial, h⟩, fun h => h.2⟩
  | cons t ts ih =>
      rw [List.cons_append, sizes, ← Nat.add_assoc]
      constructor
      · rintro ⟨h₁, h₂⟩
        exact ⟨⟨h₁, (ih.mp h₂).1⟩, (ih.mp h₂).2⟩
      · rintro ⟨⟨h₁, h₂⟩, h₃⟩
        exact ⟨h₁, ih.mpr ⟨h₂, h₃⟩⟩

end Expand

end Mh1903.Library
