/-
  File:      Mh1903/Boot/Prompt.lean
  Subject:   THE PROMPT OBEYS THE ENTER KEY. `ch` is looked at after every pass, read or not: before
             the first character it is what the stack left there. So the prompt is right in every
             run but those that find no character at first, are released, and start with a carriage
             return in `ch`.
-/
import Mh1903.Model.Shell

namespace Mh1903

/-! ## 1. What is to hold -/

/-- Every timeout passed so far lies between zero and the second the prompt waits. -/
def ShellKey.Patient (s : ShellKey) : Prop :=
  ∀ t ∈ s.timeouts, 0 ≤ t.toInt ∧ t.toInt ≤ rtFotaGetCharWaittign.toInt

/-- `RT_EOK` says that Enter was read, `RT_ERROR` that it was not. -/
structure KeyEnd.Obeys (e : KeyEnd) (s : ShellKey) : Prop where
  enter : e = .returned rtEok → 0x0D ∈ s.chars
  other : e = .returned rtError → 0x0D ∉ s.chars
  patient : s.Patient

/-- A pass that reads nothing and is released. -/
def ShellKey.Blind (p : Pass) (s : ShellKey) : Prop :=
  (s.con.after p.beforeRead).rxFifo = [] ∧
    ∃ con, rtSemTake s.timeout.toInt p.inTake (s.con.after p.beforeRead) = some (rtEok, con)

/-- What every pass finds: Enter was not read, and the next timeout is one to wait for. -/
structure ShellKey.Waits (s : ShellKey) : Prop where
  chars : 0x0D ∉ s.chars
  timeout : s.timeout ≤ rtFotaGetCharWaittign
  patient : s.Patient

/-! ## 2. One pass -/

theorem toInt_of_le_waittign {t : Word} (h : t ≤ rtFotaGetCharWaittign) :
    0 ≤ t.toInt ∧ t.toInt ≤ rtFotaGetCharWaittign.toInt := by
  have hle : t.toNat ≤ 1000 := h
  have ht : t.toInt = t.toNat := BitVec.toInt_eq_toNat_of_lt (by omega)
  have hw : rtFotaGetCharWaittign.toInt = 1000 := rfl
  omega

/-- What is left of the second, whatever the tick wrapped to. -/
theorem remaining_le {start stop : Word} (h : ¬ stop - start > rtFotaGetCharWaittign) :
    rtFotaGetCharWaittign - stop + start ≤ rtFotaGetCharWaittign := by
  unfold rtFotaGetCharWaittign at *
  bv_omega

theorem ShellKey.Patient.pass {s : ShellKey} (h : s.Patient)
    (ht : s.timeout ≤ rtFotaGetCharWaittign) {con : Console} :
    ({ s with con := con, timeouts := s.timeouts ++ [s.timeout] } : ShellKey).Patient := by
  intro t hmem
  rcases List.mem_append.mp hmem with hold | hnew
  · exact h t hold
  · rw [List.mem_singleton.mp hnew]
    exact toInt_of_le_waittign ht

section Check

variable {p : Pass} {s s' : ShellKey} {e : KeyEnd}

/-- The second half of a pass: a carriage return in `ch` ends the call as Enter, the end of the
    second as its absence, and else the loop goes on. -/
theorem check_cases (s : ShellKey) (p : Pass) :
    (s.ch = 0x0D ∧ s.check p = (some (.returned rtEok), s)) ∨
    (s.ch ≠ 0x0D ∧ ∃ con, s.check p = (some (.returned rtError), { s with con := con })) ∨
    (s.ch ≠ 0x0D ∧ ∃ con timeout, timeout ≤ rtFotaGetCharWaittign ∧
      s.check p = (none, { s with con := con, timeout := timeout })) := by
  unfold ShellKey.check
  by_cases hch : s.ch = 0x0D
  · exact .inl ⟨hch, if_pos hch⟩
  · rw [if_neg hch]
    by_cases hover : (s.con.after p.beforeTick).tick - s.tickStart > rtFotaGetCharWaittign
    · exact .inr (.inl ⟨hch, _, if_pos hover⟩)
    · exact .inr (.inr ⟨hch, _, _, remaining_le hover, if_neg hover⟩)

/-- A pass that reads `c`. -/
theorem pass_read {c : Byte} {cs : List Byte} (h : (s.con.after p.beforeRead).rxFifo = c :: cs) :
    ∃ con, s.pass p = { s with ch := c, con := con, chars := s.chars ++ [c] }.check p := by
  unfold ShellKey.pass Console.read
  rw [h]
  exact ⟨_, rfl⟩

/-- A pass that reads nothing ends, asleep or late, unless it is released. -/
theorem pass_empty (h : (s.con.after p.beforeRead).rxFifo = []) :
    (¬ s.Blind p ∧ ∃ e con, e ≠ .returned rtEok ∧
      s.pass p = (some e, { s with con := con, timeouts := s.timeouts ++ [s.timeout] })) ∨
    (s.Blind p ∧ ∃ con,
      s.pass p = { s with con := con, timeouts := s.timeouts ++ [s.timeout] }.check p) := by
  unfold ShellKey.Blind ShellKey.pass Console.read
  rw [h]
  simp only [true_and]
  cases htake : rtSemTake s.timeout.toInt p.inTake (s.con.after p.beforeRead) with
  | none => exact .inl ⟨by simp, .waiting, (s.con.after p.beforeRead), by simp, rfl⟩
  | some r =>
      obtain ⟨err, con⟩ := r
      by_cases herr : err = rtEok
      · exact .inr ⟨⟨con, by rw [herr]⟩, con, if_neg (not_not.mpr herr)⟩
      · refine .inl ⟨fun hblind => ?_, .returned rtError, con, by decide, if_pos herr⟩
        obtain ⟨_, hok⟩ := hblind
        cases hok
        exact herr rfl

/-- Where `ch` is what was read last, or no carriage return, the second half of a pass ends the call
    as it should, or leaves another pass to make. -/
theorem check_obeys (hchars : 0x0D ∈ s.chars ↔ s.ch = 0x0D) (hpatient : s.Patient) :
    (∃ e s', s.check p = (some e, s') ∧ e.Obeys s') ∨
    (∃ s', s.check p = (none, s') ∧ s'.Waits ∧ s'.ch ≠ 0x0D) := by
  rcases check_cases s p with ⟨hch, hcheck⟩ | ⟨hch, con, hcheck⟩ | ⟨hch, con, timeout, hle, hcheck⟩
  · refine .inl ⟨_, _, hcheck, fun _ => hchars.mpr hch, fun herr => ?_, hpatient⟩
    exact absurd herr (by decide)
  · refine .inl ⟨_, _, hcheck, fun hok => ?_, fun _ hmem => hch (hchars.mp hmem), hpatient⟩
    exact absurd hok (by decide)
  · exact .inr ⟨_, hcheck, ⟨fun hmem => hch (hchars.mp hmem), hle, hpatient⟩, hch⟩

/-- **One pass**, unless it takes what the stack left in `ch` for a character. -/
theorem ShellKey.Waits.pass (h : s.Waits) (hseen : ¬ (s.ch = 0x0D ∧ s.Blind p)) :
    (∃ e s', s.pass p = (some e, s') ∧ e.Obeys s') ∨
    (∃ s', s.pass p = (none, s') ∧ s'.Waits ∧ s'.ch ≠ 0x0D) := by
  cases hfifo : (s.con.after p.beforeRead).rxFifo with
  | cons c cs =>
      obtain ⟨con, hpass⟩ := pass_read hfifo
      rw [hpass]
      refine check_obeys ?_ h.patient
      rw [List.mem_append, List.mem_singleton, or_iff_right h.chars]
      exact eq_comm
  | nil =>
      rcases pass_empty hfifo with ⟨-, e, con, he, hpass⟩ | ⟨hblind, con, hpass⟩
      · exact .inl ⟨_, _, hpass, fun hok => absurd hok he, fun _ => h.chars,
          h.patient.pass h.timeout⟩
      · rw [hpass]
        refine check_obeys ?_ (h.patient.pass h.timeout)
        exact iff_of_false h.chars fun hch => hseen ⟨hch, hblind⟩

/-- A blind pass takes a carriage return in `ch` for Enter. -/
theorem pass_blind (hch : s.ch = 0x0D) (hblind : s.Blind p) :
    ∃ s', s.pass p = (some (.returned rtEok), s') ∧ s'.chars = s.chars := by
  rcases pass_empty hblind.1 with ⟨hnot, -⟩ | ⟨-, con, hpass⟩
  · exact absurd hblind hnot
  · rw [hpass]
    exact ⟨_, if_pos hch, rfl⟩

end Check

/-! ## 3. The whole call -/

/-- The loop, once `ch` holds no carriage return that was not read. -/
theorem loop_obeys {s : ShellKey} (h : s.Waits) {passes : List Pass}
    (hseen : ∀ p ∈ passes.head?, ¬ (s.ch = 0x0D ∧ s.Blind p)) :
    (s.loop passes).1.Obeys (s.loop passes).2 := by
  induction passes generalizing s with
  | nil =>
      exact ⟨fun hok => KeyEnd.noConfusion hok, fun herr => KeyEnd.noConfusion herr, h.patient⟩
  | cons p ps ih =>
      unfold ShellKey.loop
      rcases h.pass (hseen p rfl) with ⟨e, s', hpass, hobeys⟩ | ⟨s', hpass, hwaits, hch⟩
      · rw [hpass]
        exact hobeys
      · rw [hpass]
        exact ih hwaits fun _ _ hblind => hch hblind.1

theorem ShellKey.start_waits (ch : Byte) (con : Console) (events : List Event) :
    (ShellKey.start ch con events).Waits :=
  ⟨List.not_mem_nil, Nat.le_refl _, fun _ h => absurd h List.not_mem_nil⟩

/-- **The prompt obeys the Enter key exactly in the runs that do not start with a carriage return in
    `ch` and a pass that reads nothing and is released.** -/
theorem shell_key_obeys_iff (ch : Byte) (con : Console) (events : List Event)
    (passes : List Pass) :
    (rtFotaGetShellKey ch con events passes).1.Obeys (rtFotaGetShellKey ch con events passes).2 ↔
      ¬ (ch = 0x0D ∧ ∃ p ∈ passes.head?, (ShellKey.start ch con events).Blind p) := by
  constructor
  · rintro hobeys ⟨hch, p, hp, hblind⟩
    obtain ⟨ps, rfl⟩ : ∃ ps, passes = p :: ps := List.head?_eq_some_iff.mp hp
    obtain ⟨s', hpass, hchars⟩ := pass_blind hch hblind
    have hrun : rtFotaGetShellKey ch con events (p :: ps) = (.returned rtEok, s') := by
      unfold rtFotaGetShellKey ShellKey.loop
      rw [hpass]
    rw [hrun] at hobeys
    have henter := hobeys.enter rfl
    rw [hchars] at henter
    exact absurd henter List.not_mem_nil
  · intro hseen
    exact loop_obeys (ShellKey.start_waits ch con events) fun p hp hblind =>
      hseen ⟨hblind.1, p, hp, hblind.2⟩

/-- A carriage return on the stack, and nothing but a press of `a` within the second: the call
    returns `RT_EOK` and the `a` is still waiting to be read. -/
theorem shell_key_unread_enter :
    ¬ ∀ (ch : Byte) (con : Console) (events : List Event) (passes : List Pass),
      (rtFotaGetShellKey ch con events passes).1.Obeys
        (rtFotaGetShellKey ch con events passes).2 := by
  intro h
  have henter := (h 0x0D ⟨[], 0, 0⟩ [] [⟨[], [.received 0x61, .released], []⟩]).enter (by decide)
  exact absurd henter (by decide)

end Mh1903
