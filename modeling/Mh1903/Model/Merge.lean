/-
  File:      Mh1903/Model/Merge.lean
  Subject:   `tools/build_merge.py`: `merge_bin`, which puts `app.bin` and `gb2312_font.bin` into the
             factory image.

  A file that cannot be opened is `none`; `img.bin` can be created and written.
-/
import Mh1903.Library.Files
import Mh1903.Model.Machine

namespace Mh1903

open Library

def appOffset : Nat := 0 * 4096
def fontOffset : Nat := 360 * 4096
def imgSize : Nat := (360 + 128) * 4096

/-- How `merge_bin` ends: it prints the sizes in KB, it returns where a file cannot be opened, or it
    raises. -/
inductive MergeEnd where
  | printed (bootSize appSize fontSize imgSize : Nat)
  | openError
  | raised
  deriving DecidableEq

/-- `f_img.seek(offset)` and `f_img.write(f_bin.read())` -/
def mergeFile (fImg : File Byte) (offset : Nat) (fBin : List Byte) : File Byte :=
  (fImg.seek offset).write 0 fBin

/-- `int(os.path.getsize(…) / 1024)` -/
def sizeKB (file : List Byte) : Nat := file.length / 1024

/-- `merge_bin` with `bootloader.bin`, `app.bin` and `gb2312_font.bin`: how it ends and what
    `img.bin` holds then. -/
def mergeBin (bootBin appBin fontBin : Option (List Byte)) : MergeEnd × List Byte :=
  let fImg := File.empty.write 0 (List.replicate imgSize (0xFF : Byte))
  match appBin with
  | none => (.openError, fImg.content)
  | some app =>
    let fImg := mergeFile fImg appOffset app
    match fontBin with
    | none => (.openError, fImg.content)
    | some font =>
      let fImg := mergeFile fImg fontOffset font
      match bootBin with
      | none => (.raised, fImg.content)
      | some boot =>
        (.printed (sizeKB boot) (sizeKB app) (sizeKB font) (sizeKB fImg.content), fImg.content)

end Mh1903
