/-
  File:      Mh1903/Verify/Strcmp.lean
  Subject:   `strcmp` ON FIELDS. It stops at the first zero, and only there: a field without one is
             compared together with what follows it.
-/
import Mh1903.Model.Verify

namespace Mh1903

/-- Against a string that starts with a zero only another such string is equal. -/
theorem rtStrcmp_zero_cons (cs : List Byte) (d : Byte) (ds : List Byte) :
    rtStrcmp (0 :: cs) (d :: ds) = -(d.toNat : Int) := by
  simp [rtStrcmp]

/-- A common front with a zero in it makes two strings equal. -/
theorem rtStrcmp_terminated {p : List Byte} (h : 0 ∈ p) (x y : List Byte) :
    rtStrcmp (p ++ x) (p ++ y) = 0 := by
  induction p with
  | nil => cases h
  | cons c p ih =>
      by_cases hc : c = 0
      · subst hc
        rw [List.cons_append, List.cons_append, rtStrcmp_zero_cons]
        rfl
      · have hp : 0 ∈ p := (List.mem_cons.mp h).resolve_left fun h0 => hc h0.symm
        simp only [List.cons_append, rtStrcmp, hc, ne_eq, not_false_eq_true, and_self, if_true]
        exact ih hp

/-- A common front without one is passed over. -/
theorem rtStrcmp_unterminated {p : List Byte} (h : 0 ∉ p) (x y : List Byte) :
    rtStrcmp (p ++ x) (p ++ y) = rtStrcmp x y := by
  induction p with
  | nil => rfl
  | cons c p ih =>
      have hc : c ≠ 0 := fun h0 => h (h0 ▸ List.mem_cons_self)
      simp only [List.cons_append, rtStrcmp, hc, ne_eq, not_false_eq_true, and_self, if_true]
      exact ih fun hp => h (List.mem_cons_of_mem _ hp)

/-- Equal strings agree up to the first zero and there. -/
theorem getD_of_rtStrcmp_eq {a b : List Byte} (h : rtStrcmp a b = 0) {i : Nat}
    (hi : ∀ j < i, a.getD j 0 ≠ 0) : a.getD i 0 = b.getD i 0 := by
  induction i generalizing a b with
  | zero =>
      cases a with
      | nil =>
          cases b with
          | nil => rfl
          | cons d ds =>
              have hd : d.toNat = 0 := by simpa [rtStrcmp] using h
              exact (BitVec.eq_of_toNat_eq hd : d = 0).symm
      | cons c cs =>
          cases b with
          | nil =>
              have hc : c.toNat = 0 := by simpa [rtStrcmp] using h
              exact (BitVec.eq_of_toNat_eq hc : c = 0)
          | cons d ds =>
              show c = d
              unfold rtStrcmp at h
              split at h
              · rename_i hcd; exact hcd.2
              · exact BitVec.eq_of_toNat_eq (by omega)
  | succ i ih =>
      have h0 := hi 0 (Nat.succ_pos _)
      cases a with
      | nil => exact absurd rfl h0
      | cons c cs =>
          have hc : c ≠ 0 := h0
          cases b with
          | nil =>
              have hc' : c.toNat = 0 := by simpa [rtStrcmp] using h
              exact absurd (BitVec.eq_of_toNat_eq hc' : c = 0) hc
          | cons d ds =>
              unfold rtStrcmp at h
              split at h
              · exact ih h fun j hj => hi (j + 1) (by omega)
              · rename_i hcd
                have hcd' : c = d := BitVec.eq_of_toNat_eq (by omega)
                exact absurd ⟨hc, hcd'⟩ hcd

/-- Only what lies in front of a zero of the second string matters of the first. -/
theorem rtStrcmp_take {d : List Byte} {n : Nat} (h : 0 ∈ d.take n) (c : List Byte) :
    rtStrcmp c d = rtStrcmp (c.take n) d := by
  induction n generalizing c d with
  | zero => simp at h
  | succ n ih =>
      cases d with
      | nil => simp at h
      | cons e es =>
          cases c with
          | nil => rfl
          | cons b bs =>
              rw [List.take_succ_cons]
              unfold rtStrcmp
              split
              · rename_i hb
                refine ih ?_ bs
                rw [List.take_succ_cons] at h
                exact (List.mem_cons.mp h).resolve_left fun h0 => hb.1 (hb.2.trans h0.symm)
              · rfl

/-- Strings with the same front are the same for a comparison that ends in it. -/
theorem rtStrcmp_congr {a b d : List Byte} {n : Nat} (hab : a.take n = b.take n)
    (h : 0 ∈ d.take n) : rtStrcmp a d = rtStrcmp b d := by
  rw [rtStrcmp_take h a, hab, ← rtStrcmp_take h b]

end Mh1903
