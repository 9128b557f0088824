import Stowage.Proofs.Text.Utf8
import Stowage.Settings

/-! The text of settings as it is put together in memory: no piece is refused there, and the pieces
are the whole text. -/
namespace Stowage

namespace Ini

theorem flatten_sectionPieces (s : IniSection) : (sectionPieces s).flatten = sectionLines s := by
  rw [sectionPieces, sectionLines, List.flatten_append, List.flatMap_def]
  cases s.name with
  | none => rfl
  | some name => rw [Option.map_some, Option.toList_some, List.flatten_singleton, heading]

theorem flatten_pieces (ini : Ini) : ini.pieces.flatten = ini.print := by
  rw [pieces, print]
  induction ini with
  | nil => rfl
  | cons s rest ih =>
    cases rest with
    | nil => simp [flatten_sectionPieces]
    | cons t rest =>
      simp only [List.map_cons, List.intercalate_cons_cons, List.flatten_append,
        List.flatten_singleton, flatten_sectionPieces] at ih ⊢
      rw [ih]

end Ini

namespace Settings

theorem run_buffer (pieces : List (List Char)) (octets : Bytes) :
    (pieces.forM buffer).run octets = .ok ((), octets ++ Utf8.encode pieces.flatten) := by
  induction pieces generalizing octets with
  | nil => exact congrArg (fun all => Except.ok ((), all)) (List.append_nil octets).symm
  | cons piece rest ih =>
    rw [List.flatten_cons, Utf8.encode_append, ← List.append_assoc]
    exact ih (octets ++ Utf8.encode piece)

theorem serialize_eq (s : Settings) : s.serialize = .ok s.print := by
  have run : (s.toIni.writeTo buffer).run [] = .ok ((), Utf8.encode s.print) := by
    rw [Ini.writeTo, run_buffer, Ini.flatten_pieces, List.nil_append, print]
  rw [serialize, run]
  exact congrArg Except.ok (Utf8.decodeLossy_encode _)

end Settings
end Stowage
