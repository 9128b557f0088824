import Stowage.Backup.Inspect
import Stowage.Proofs.Path.Names
import Stowage.Proofs.Moment
import Stowage.Proofs.Text.Lossy

/-! The name of an archive: whatever the id is, the digits and the extension stand at the end of its
last component. -/
namespace Stowage.Backup

open Stowage.Path

variable {time : Moment}

def nameEnd (time : Moment) : Bytes :=
  Utf8.encode ('-' :: (toString time.seconds).toList ++ ".tar".toList)

theorem ofString_backupFileName (id : String) (time : Moment) :
    Utf8.ofString (backupFileName id time) = Utf8.ofString id ++ nameEnd time := by
  have text : backupFileName id time = id ++ "-" ++ toString time.seconds ++ "." ++ "tar" := rfl
  rw [nameEnd, Utf8.ofString, Utf8.ofString, ← Utf8.encode_append, text]
  simp only [String.toList_append, List.append_assoc]
  rfl

theorem toList_toString_seconds (since : 0 ≤ time.seconds) :
    (toString time.seconds).toList = Nat.toDigits 10 time.seconds.toNat := by
  obtain ⟨n, eq⟩ := Int.eq_ofNat_of_zero_le since
  rw [eq, Int.toNat_natCast]
  exact Nat.toList_repr

theorem slash_not_mem_nameEnd (since : 0 ≤ time.seconds) : slash ∉ nameEnd time := by
  intro mem
  have text := Utf8.mem_of_mem_encode (c := '/') (by decide) mem
  rw [toList_toString_seconds since] at text
  rcases List.mem_append.mp text with front | last
  · rcases List.mem_cons.mp front with hyphen | digit
    · exact absurd hyphen (by decide)
    · exact absurd (isDigit_of_mem_toDigits (by decide) (by decide) digit) (by decide)
  · exact absurd last (by decide)

theorem nameEnd_eq (time : Moment) : ∃ b front, nameEnd time = front ++ [b] ++ ascii ".tar" := by
  have extension : Utf8.encode ".tar".toList = ascii ".tar" := by decide
  have full : Utf8.encode ('-' :: (toString time.seconds).toList) ≠ [] := by
    rw [ne_eq, Utf8.encode_eq_nil_iff]
    exact List.cons_ne_nil _ _
  obtain ⟨front, b, eq⟩ := List.eq_nil_or_concat' _ |>.resolve_left full
  exact ⟨b, front, by rw [nameEnd, Utf8.encode_append, extension, eq]⟩

theorem long_nameEnd (time : Moment) : 2 < (nameEnd time).length := by
  obtain ⟨b, front, eq⟩ := nameEnd_eq time
  have extension : (ascii ".tar").length = 4 := by decide
  rw [eq, List.length_append, List.length_append, extension]
  omega

theorem extensionOf?_append (front : Bytes) (b : UInt8) :
    extensionOf? (front ++ [b] ++ ascii ".tar") = some (Utf8.ofString backupExtension) := by
  have reversed : (front ++ [b] ++ ascii ".tar").reverse = [0x72, 0x61, 0x74, dot,
      b] ++ front.reverse := by
    rw [List.reverse_append, List.reverse_append]
    rfl
  rw [extensionOf?, reversed]
  rfl

theorem hasExtension_joinText (backups : Path) (id : String) (since : 0 ≤ time.seconds) :
    hasExtension (backups.joinText (backupFileName id time)) := by
  obtain ⟨front, spelling⟩ : ∃ front, backups.joinText (backupFileName id time) =
      ⟨front ++ nameEnd time⟩ := by
    rw [joinText, join, ofString, ofString_backupFileName]
    split
    · exact ⟨_, rfl⟩
    · split
      · exact ⟨backups.spelling ++ Utf8.ofString id, by rw [List.append_assoc]⟩
      · exact ⟨backups.spelling ++ slash :: Utf8.ofString id,
          by rw [List.append_assoc, List.cons_append]⟩
  obtain ⟨part, name⟩ := fileName?_append (slash_not_mem_nameEnd since) (long_nameEnd time) front
  obtain ⟨b, start, tail⟩ := nameEnd_eq time
  rw [hasExtension, spelling, extension?, name, Option.bind_some, tail, ← List.append_assoc,
    ← List.append_assoc, extensionOf?_append]
  exact BEq.rfl

end Stowage.Backup
