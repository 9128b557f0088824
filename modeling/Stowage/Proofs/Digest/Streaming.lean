import Mathlib.Tactic.Common
import Stowage.Digest

/-! A digest does not depend on how the octets arrive: the hasher that takes them one by one has
compressed the same blocks as the hash of the whole. -/
namespace Stowage

namespace Sha256

theorem compressAll_short {bs : Bytes} (h : bs.length < 64) (s : Chain) : compressAll s bs = s := by
  have empty : bs.drop 63 = [] := List.drop_eq_nil_of_le (by omega)
  unfold compressAll
  split
  · rfl
  · rename_i eq
    rw [empty] at eq
    cases eq

theorem compressAll_block {block : Bytes} (h : block.length = 64) (s : Chain) (rest : Bytes) :
    compressAll s (block ++ rest) = compressAll (compress s block) rest := by
  have cut : (block ++ rest).drop 64 = rest := List.drop_left' h
  rw [compressAll]
  split
  · rename_i eq
    have short := List.drop_eq_nil_iff.mp eq
    rw [List.length_append] at short
    omega
  · rename_i b behind eq
    have tail : behind = rest := by
      rw [← cut, show 64 = 63 + 1 from rfl, ← List.drop_drop, eq]
      rfl
    rw [tail, List.take_left' h]

structure Hasher.Sound (h : Hasher) : Prop where
  held : h.held = h.block.length
  small : h.block.length < 64

theorem Hasher.chain_update {h : Hasher} (sound : h.Sound) (bs : Bytes) :
    (h.update bs).chain = compressAll h.chain (h.block.reverse ++ bs) := by
  induction bs generalizing h with
  | nil =>
    rw [List.append_nil, compressAll_short (by rw [List.length_reverse]; exact sound.small)]
    rfl
  | cons b bs ih =>
    change ((h.push b).update bs).chain = _
    rw [push, sound.held]
    split
    · rename_i room
      have sound' : Sound ⟨h.chain, b :: h.block, h.block.length + 1, h.length + 1⟩ := ⟨rfl, room⟩
      rw [ih sound', List.reverse_cons, List.append_assoc]
      rfl
    · have size : (b :: h.block).reverse.length = 64 := by
        have small := sound.small
        rw [List.length_reverse, List.length_cons]
        omega
      have sound' : Sound ⟨compress h.chain (b :: h.block).reverse, [], 0, h.length + 1⟩ :=
        ⟨rfl, Nat.succ_pos 63⟩
      rw [ih sound', List.reverse_nil, List.nil_append, ← compressAll_block size, List.reverse_cons,
        List.append_assoc]
      rfl

theorem Hasher.length_update (h : Hasher) (bs : Bytes) :
    (h.update bs).length = h.length + bs.length := by
  induction bs generalizing h with
  | nil => rfl
  | cons b bs ih =>
    have step : (h.push b).length = h.length + 1 := by
      rw [push]
      split <;> rfl
    change ((h.push b).update bs).length = _
    rw [ih, step, List.length_cons]
    omega

theorem Hasher.finish_update (bs : Bytes) : (({} : Hasher).update bs).finish = hash bs := by
  have sound : ({} : Hasher).Sound := ⟨rfl, by decide⟩
  have length : (({} : Hasher).update bs).length = bs.length :=
    (length_update _ _).trans (Nat.zero_add _)
  rw [finish, length, ← update_append, chain_update sound]
  rfl

end Sha256

open Sha256

theorem foldl_update_buffers (h : Hasher) (bs : Bytes) :
    (buffers bs).foldl Hasher.update h = h.update bs := by
  induction bs using buffers.induct generalizing h with
  | case1 bs small =>
    rw [buffers, if_pos small]
    rfl
  | case2 bs large ih =>
    rw [buffers, if_neg large, List.foldl_cons, ih, ← Hasher.update_append, List.take_append_drop]

variable {ε : Type}

theorem digestReadings_octets (bs : Bytes) :
    digestReadings [.octets bs] = (.ok (digest bs) : Except ε String) := by
  rw [digestReadings, digestFrom]
  split
  · rename_i empty
    rw [List.isEmpty_iff.mp empty]
    exact congrArg (fun bs => Except.ok (Bytes.toHex bs)) (Hasher.finish_update [])
  · rw [foldl_update_buffers, digestFrom, Hasher.finish_update]
    rfl

theorem mem_digest {bs : Bytes} {c : Char} (h : c ∈ (digest bs).toList) :
    ∃ n < 16, c = Nat.digitChar n := by
  rw [digest, Bytes.toHex, String.toList_ofList] at h
  obtain ⟨b, -, hc⟩ := List.mem_flatMap.mp h
  rcases List.mem_cons.mp hc with rfl | hc
  · exact ⟨_, Nat.mod_lt _ (by decide), rfl⟩
  · exact ⟨_, Nat.mod_lt _ (by decide), List.mem_singleton.mp hc⟩

end Stowage
