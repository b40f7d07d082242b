/-
  File:      Mh1903/Tools/FactoryImage.lean
  Subject:   THE FACTORY IMAGE. `merge_bin` writes the application over an image of 0xff and then the
             font, and compares no length with an offset: the image is right as long as both files
             fit their places, and no file is refused.
-/
import Mh1903.Model.Merge

namespace Mh1903

open Library

/-! ## 1. What the image has to be -/

/-- `img` holds the whole of `app` and of `font`, and nothing but 0xff elsewhere. -/
structure FactoryImage (app font img : List Byte) : Prop where
  size : img.length = imgSize
  appWhole : (img.drop appOffset).take app.length = app
  fontWhole : (img.drop fontOffset).take font.length = font
  rest : ∀ i < imgSize, ¬ (appOffset ≤ i ∧ i < appOffset + app.length) →
    ¬ (fontOffset ≤ i ∧ i < fontOffset + font.length) → img[i]? = some 0xFF

/-- Both files fit their places. -/
def MergeFits (app font : List Byte) : Prop :=
  appOffset + app.length ≤ fontOffset ∧ fontOffset + font.length ≤ imgSize

/-- An application is rejected: the call raises, and `img.bin` holds nothing of it, other bytes in
    it would have left the same. -/
def RejectsApp (bootBin : Option (List Byte)) (app font : List Byte) : Prop :=
  (mergeBin bootBin (some app) (some font)).1 = .raised ∧
  ∀ app', app'.length = app.length →
    (mergeBin bootBin (some app') (some font)).2 = (mergeBin bootBin (some app) (some font)).2

/-- A font is rejected. -/
def RejectsFont (bootBin : Option (List Byte)) (app font : List Byte) : Prop :=
  (mergeBin bootBin (some app) (some font)).1 = .raised ∧
  ∀ font', font'.length = font.length →
    (mergeBin bootBin (some app) (some font')).2 = (mergeBin bootBin (some app) (some font)).2

/-- `merge_bin` completes with a right image only, and rejects a file that does not fit. -/
structure NeverDamages (bootBin : Option (List Byte)) (app font : List Byte) : Prop where
  completes : (mergeBin bootBin (some app) (some font)).1 ≠ .raised →
    FactoryImage app font (mergeBin bootBin (some app) (some font)).2
  refusesApp : fontOffset < appOffset + app.length → RejectsApp bootBin app font
  refusesFont : imgSize < fontOffset + font.length → RejectsFont bootBin app font

/-! ## 2. The three writes -/

/-- The image in front of the two files. -/
def blankImage : File Byte := File.empty.write 0 (List.replicate imgSize 0xFF)

theorem blankImage_content : blankImage.content = List.replicate imgSize 0xFF := File.write_empty _

/-- `img.bin` when it is closed. -/
def mergedImage (app font : List Byte) : List Byte :=
  (mergeFile (mergeFile blankImage appOffset app) fontOffset font).content

theorem mergeBin_ends (bootBin : Option (List Byte)) (app font : List Byte) :
    mergeBin bootBin (some app) (some font) =
      (bootBin.elim .raised fun boot => .printed (sizeKB boot) (sizeKB app) (sizeKB font)
        (sizeKB (mergedImage app font)), mergedImage app font) := by
  cases bootBin with
  | none => rfl
  | some boot => rfl

/-- A file merged in at an offset inside the image. -/
theorem mergeFile_inside {fImg : File Byte} {offset : Nat} (h : offset ≤ fImg.content.length)
    (fBin : List Byte) :
    (mergeFile fImg offset fBin).content.length = max fImg.content.length (offset + fBin.length) ∧
    ∀ i, (mergeFile fImg offset fBin).content[i]? =
      if offset ≤ i ∧ i < offset + fBin.length then fBin[i - offset]? else fImg.content[i]? := by
  have hpos : (fImg.seek offset).pos ≤ (fImg.seek offset).content.length := h
  exact ⟨File.length_write hpos, File.getElem?_write hpos⟩

section Merged

variable {app font : List Byte}

/-- Both writes start inside the image, whatever the application is. -/
theorem mergedImage_writes (app font : List Byte) :
    (mergedImage app font).length = max (max imgSize app.length) (fontOffset + font.length) ∧
    ∀ i, (mergedImage app font)[i]? =
      if fontOffset ≤ i ∧ i < fontOffset + font.length then font[i - fontOffset]?
      else if i < app.length then app[i]? else blankImage.content[i]? := by
  have hin : fontOffset ≤ imgSize := by decide
  have hblank : blankImage.content.length = imgSize := by
    rw [blankImage_content, List.length_replicate]
  have hoff : appOffset = 0 := Nat.zero_mul _
  obtain ⟨happLen, happ⟩ := @mergeFile_inside blankImage appOffset (by omega) app
  rw [hblank, hoff, Nat.zero_add] at happLen
  obtain ⟨hlen, hfont⟩ :=
    @mergeFile_inside (mergeFile blankImage appOffset app) fontOffset (by rw [hoff]; omega) font
  refine ⟨?_, fun i => ?_⟩
  · rw [mergedImage, hlen, hoff, happLen]
  · rw [mergedImage, hfont, happ, hoff]
    simp only [Nat.zero_le, Nat.zero_add, Nat.sub_zero, true_and]

/-- **Files that fit make a right image.** -/
theorem MergeFits.image (h : MergeFits app font) :
    FactoryImage app font (mergedImage app font) := by
  obtain ⟨hlen, hat⟩ := mergedImage_writes app font
  obtain ⟨happ, hfont⟩ := h
  have hoff : appOffset = 0 := Nat.zero_mul _
  have hin : fontOffset ≤ imgSize := by decide
  rw [hoff, Nat.zero_add] at happ
  refine ⟨by omega, ?_, ?_, fun i hi hnot hnot' => ?_⟩
  · refine List.ext_getElem? fun i => ?_
    rw [hoff, List.drop_zero]
    by_cases hi : i < app.length
    · rw [List.getElem?_take_of_lt hi, hat, if_neg (by omega), if_pos hi]
    · rw [List.getElem?_eq_none (by rw [List.length_take]; omega), List.getElem?_eq_none (by omega)]
  · refine List.ext_getElem? fun i => ?_
    by_cases hi : i < font.length
    · rw [List.getElem?_take_of_lt hi, List.getElem?_drop, hat, if_pos (by omega),
        Nat.add_sub_cancel_left]
    · rw [List.getElem?_eq_none (by rw [List.length_take]; omega), List.getElem?_eq_none (by omega)]
  · rw [hoff, Nat.zero_add] at hnot
    rw [hat, if_neg hnot', if_neg (by omega), blankImage_content, List.getElem?_replicate, if_pos hi]

end Merged

/-! ## 3. Every pair of files -/

section Rejects

variable {bootBin : Option (List Byte)} {app font : List Byte}

theorem mergeBin_image (bootBin : Option (List Byte)) (app font : List Byte) :
    (mergeBin bootBin (some app) (some font)).2 = mergedImage app font := by
  rw [mergeBin_ends]

/-- The image holds the first byte of the application, whatever its length is. -/
theorem not_rejectsApp (h : app ≠ []) : ¬ RejectsApp bootBin app font := by
  rintro ⟨-, hsame⟩
  obtain ⟨b, rest, rfl⟩ := List.exists_cons_of_ne_nil h
  have himage := hsame ((b + 1) :: rest) rfl
  rw [mergeBin_image, mergeBin_image] at himage
  have hfirst : ∀ c : Byte, (mergedImage (c :: rest) font)[0]? = some c := by
    intro c
    have hin : 0 < fontOffset := by decide
    rw [(mergedImage_writes _ _).2, if_neg (by omega), if_pos (show 0 < (c :: rest).length from Nat.succ_pos _)]
    rfl
  have hbyte := congrArg (·[0]?) himage
  rw [hfirst, hfirst] at hbyte
  have := Option.some.inj hbyte
  bv_omega

/-- The image holds the first byte of the font. -/
theorem not_rejectsFont (h : font ≠ []) : ¬ RejectsFont bootBin app font := by
  rintro ⟨-, hsame⟩
  obtain ⟨b, rest, rfl⟩ := List.exists_cons_of_ne_nil h
  have himage := hsame ((b + 1) :: rest) rfl
  rw [mergeBin_image, mergeBin_image] at himage
  have hfirst : ∀ c : Byte, (mergedImage app (c :: rest))[fontOffset]? = some c := by
    intro c
    rw [(mergedImage_writes _ _).2, if_pos ⟨Nat.le_refl _, by rw [List.length_cons]; omega⟩,
      Nat.sub_self]
    rfl
  have hbyte := congrArg (·[fontOffset]?) himage
  rw [hfirst, hfirst] at hbyte
  have := Option.some.inj hbyte
  bv_omega

end Rejects

/-- **`merge_bin` never damages the image exactly if both files fit**: nothing of a file that does
    not is kept out of the image. -/
theorem never_damages_iff (bootBin : Option (List Byte)) (app font : List Byte) :
    NeverDamages bootBin app font ↔
      appOffset + app.length ≤ fontOffset ∧ fontOffset + font.length ≤ imgSize := by
  constructor
  · intro h
    refine ⟨Nat.le_of_not_lt fun hlong => ?_, Nat.le_of_not_lt fun hlong => ?_⟩
    · refine not_rejectsApp (fun hnil => ?_) (h.refusesApp hlong)
      rw [hnil] at hlong
      exact absurd hlong (by decide)
    · refine not_rejectsFont (fun hnil => ?_) (h.refusesFont hlong)
      rw [hnil] at hlong
      exact absurd hlong (by decide)
  · intro hfits
    have hfits : MergeFits app font := hfits
    refine ⟨fun _ => ?_, fun hlong => absurd hfits.1 (Nat.not_le_of_lt hlong),
      fun hlong => absurd hfits.2 (Nat.not_le_of_lt hlong)⟩
    rw [mergeBin_image]
    exact hfits.image

/-- An application one byte too long: its last byte is overwritten by the font, and the call
    completes. -/
theorem long_app_accepted :
    ¬ ∀ (bootBin : Option (List Byte)) (app font : List Byte), NeverDamages bootBin app font := by
  intro h
  have hraised := ((h (some []) (List.replicate (fontOffset - appOffset + 1) 0) [1]).refusesApp (by
    rw [List.length_replicate]
    omega)).1
  rw [mergeBin_ends] at hraised
  exact MergeEnd.noConfusion hraised

end Mh1903
