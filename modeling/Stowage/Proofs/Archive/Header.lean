import Mathlib.Algebra.Group.Nat.Defs
import Stowage.Archive.Reader
import Stowage.Proofs.Text.Decimal

/-! A header read back: each field is found where it was put, a number is the number written in
either of its forms, and the checksum is the sum of the block. -/
namespace Stowage.Archive

@[simp]
theorem length_zeros (n : Nat) : (zeros n).length = n := List.length_replicate

theorem slice_of_append (front back : Bytes) {bs mid : Bytes} {start length : Nat}
    (h : bs = front ++ (mid ++ back)) (before : front.length = start) (size : mid.length = length) :
    slice bs start length = mid := by
  rw [slice, h, List.drop_left' before, List.take_left' size]

section Numbers

variable {width value : Nat}

theorem length_octal (room : 1 < width) (h : value < 8 ^ (width - 1)) :
    (octal width value).length = width := by
  have few := (Nat.length_toDigits_le_iff (b := 8) (by decide) (by omega : 0 < width - 1)).mpr h
  simp only [octal, padLeft, List.length_append, List.length_map, List.length_replicate,
    List.length_singleton]
  omega

theorem mem_padLeft_toDigits {c : Char} (h : c ∈ padLeft width '0' (Nat.toDigits 8 value)) :
    ∃ d < 8, c = Nat.digitChar d := by
  rcases List.mem_append.mp h with fill | digit
  · exact ⟨0, by decide, (List.mem_replicate.mp fill).2⟩
  · exact mem_toDigits (by decide) digit

theorem isOctalDigit_digitChar : ∀ d < 8, isOctalDigit (Nat.digitChar d) := by decide

theorem digitChar_lt : ∀ d < 8, ¬ 0x80 ≤ UInt8.ofNat (Nat.digitChar d).toNat := by decide

theorem octalValue_padLeft (width value : Nat) :
    octalValue (padLeft width '0' (Nat.toDigits 8 value)) = value := by
  have same : (fun (v : Nat) (c : Char) => v * 8 + digitValue c) = fun v c =>
      8 * v + (c.toNat - '0'.toNat) := by
    funext v c
    rw [Nat.mul_comm]
    rfl
  rw [octalValue, same]
  change Nat.ofDigitChars 8 _ 0 = value
  rw [padLeft, Nat.ofDigitChars_append, Nat.ofDigitChars_replicate_zero, Nat.mul_zero,
    Nat.ofDigitChars_toDigits (by decide) (by decide)]

theorem octal?_padLeft (h : value < wordLimit) :
    octal? (padLeft width '0' (Nat.toDigits 8 value)) = some value := by
  have digits : ∀ c ∈ padLeft width '0' (Nat.toDigits 8 value), isDigit c := by
    intro c hc
    obtain ⟨d, small, rfl⟩ := mem_padLeft_toDigits hc
    rw [isDigit_iff, toNat_digitChar d (by omega)]
    omega
  have octals : ∀ c ∈ padLeft width '0' (Nat.toDigits 8 value), isOctalDigit c := by
    intro c hc
    obtain ⟨d, small, rfl⟩ := mem_padLeft_toDigits hc
    exact isOctalDigit_digitChar d small
  have nonempty : (padLeft width '0' (Nat.toDigits 8 value)).isEmpty = false := by simp [padLeft]
  rw [octal?, trim_of_isDigit digits, dropPlus_of_isDigit digits, nonempty,
    List.all_eq_true.mpr octals, octalValue_padLeft]
  exact if_pos h

theorem readOctal_octal (h : value < wordLimit) : readOctal (octal width value) = .ok value := by
  have ascii : ∀ c ∈ padLeft (width - 1) '0' (Nat.toDigits 8 value), 48 ≤ c.toNat ∧
      c.toNat ≤ 0x7f := by
    intro c hc
    obtain ⟨d, small, rfl⟩ := mem_padLeft_toDigits hc
    rw [toNat_digitChar d (by omega)]
    omega
  have text : untilZero (octal width value) =
      Utf8.encode (padLeft (width - 1) '0' (Nat.toDigits 8 value)) := by
    rw [encode_of_ascii fun c hc => (ascii c hc).2, untilZero, octal, List.takeWhile_append_of_pos]
    · simp
    · intro b hb
      obtain ⟨c, hc, rfl⟩ := List.mem_map.mp hb
      obtain ⟨low, high⟩ := ascii c hc
      simp only [bne_iff_ne, ne_eq, ← UInt8.toNat_inj, UInt8.toNat_ofNat', UInt8.reduceToNat]
      omega
  rw [readOctal, text, Utf8.decode?_encode]
  dsimp only
  rw [octal?_padLeft h]

theorem bigEndian_succ (n value : Nat) :
    bigEndian (n + 1) value = UInt8.ofNat (value >>> (8 * n)) :: bigEndian n value := by
  rw [bigEndian, List.range_succ, List.reverse_append]
  rfl

@[simp]
theorem length_bigEndian (n value : Nat) : (bigEndian n value).length = n := by simp [bigEndian]

theorem foldl_bigEndian (n value start : Nat) :
    (bigEndian n value).foldl (fun m b => m * 256 + b.toNat) start =
      start * 256 ^ n + value % 256 ^ n := by
  induction n generalizing start with
  | zero => simp [bigEndian, Nat.mod_one]
  | succ n ih =>
    rw [bigEndian_succ, List.foldl_cons, ih, UInt8.toNat_ofNat', Nat.shiftRight_eq_div_pow,
      Nat.pow_mul, show (2 : Nat) ^ 8 = 256 from rfl, Nat.add_mul, Nat.pow_succ, Nat.mod_mul,
      Nat.add_assoc]
    congr 1
    · rw [Nat.mul_assoc, Nat.mul_comm 256]
    · rw [Nat.add_comm, Nat.mul_comm]

theorem ofBigEndian_bigEndian {n : Nat} (h : value < 256 ^ n) :
    ofBigEndian (bigEndian n value) = value := by
  rw [ofBigEndian, foldl_bigEndian, Nat.zero_mul, Nat.zero_add, Nat.mod_eq_of_lt h]

@[simp]
theorem length_number (value : Nat) : (number value).length = 12 := by
  unfold number
  split
  · rename_i small
    exact length_octal (by decide) small
  · simp

theorem readNumber_number (h : value < wordLimit) : readNumber (number value) = .ok value := by
  by_cases small : value < octalLimit
  · rw [number, if_pos small, readNumber]
    obtain ⟨c, cs, eq⟩ :=
      List.exists_cons_of_ne_nil (l := padLeft 11 '0' (Nat.toDigits 8 value)) (by simp [padLeft])
    have first : (octal 12 value).head? = some (UInt8.ofNat c.toNat) := by
      rw [octal, show 12 - 1 = 11 from rfl, eq]
      rfl
    obtain ⟨d, digit, rfl⟩ := mem_padLeft_toDigits (eq ▸ List.mem_cons_self)
    rw [first]
    dsimp only
    rw [if_neg (digitChar_lt d digit), readOctal_octal h]
  · rw [number, if_neg small, readNumber]
    dsimp only [List.cons_append, List.head?_cons]
    rw [if_pos (by decide)]
    simp only [List.length_cons, List.length_append, length_zeros, length_bigEndian]
    exact congrArg _ (ofBigEndian_bigEndian h)

end Numbers

section Block

variable {h : Header}

theorem octetSum_le (bs : Bytes) : octetSum bs ≤ 255 * bs.length := by
  have bound (start : Nat) : bs.foldl (fun n b => n + b.toNat) start ≤ start + 255 * bs.length := by
    induction bs generalizing start with
    | nil => exact Nat.le_refl _
    | cons b bs ih =>
      have small := b.toNat_lt
      have rest := ih (start + b.toNat)
      rw [List.foldl_cons, List.length_cons]
      omega
  simpa [octetSum] using bound 0

theorem length_beforeSum (room : h.name.length = nameSize) : h.beforeSum.length = 148 := by
  have texts : (ascii "0000644").length = 7 ∧ (ascii "0000000").length = 7 := by decide
  simp only [Header.beforeSum, List.length_append, List.length_singleton, length_number, room,
    texts, nameSize]

theorem length_afterSum : h.afterSum.length = 356 := by
  have text : (ascii "ustar  ").length = 7 := by decide
  simp only [Header.afterSum, List.length_append, List.length_cons, length_zeros, text]

theorem checksum_lt (room : h.name.length = nameSize) :
    checksum h.beforeSum h.afterSum < 8 ^ 7 := by
  have before := octetSum_le h.beforeSum
  have after := octetSum_le h.afterSum
  rw [length_beforeSum room] at before
  rw [length_afterSum] at after
  rw [checksum]
  omega

theorem length_encode (room : h.name.length = nameSize) : h.encode.length = blockSize := by
  rw [Header.encode, List.length_append, List.length_append, length_beforeSum room,
    length_octal (by decide) (checksum_lt room), length_afterSum]
  rfl

theorem slice_name (room : h.name.length = nameSize) : slice h.encode 0 nameSize = h.name := by
  rw [slice, List.drop_zero, Header.encode, Header.beforeSum]
  simp only [List.append_assoc]
  exact List.take_left' room

theorem slice_size (room : h.name.length = nameSize) : slice h.encode 124 12 = number h.size := by
  have texts : (ascii "0000644").length = 7 ∧ (ascii "0000000").length = 7 := by decide
  refine slice_of_append (h.name ++ ascii "0000644" ++ [0] ++ ascii "0000000" ++ [0] ++
    ascii "0000000" ++ [0])
    (number h.modified ++ (octal 8 (checksum h.beforeSum h.afterSum) ++ h.afterSum)) ?_ ?_
      (length_number _)
  · simp only [Header.encode, Header.beforeSum, List.append_assoc]
  · simp only [List.length_append, List.length_singleton, room, texts, nameSize]

theorem slice_sum (room : h.name.length = nameSize) :
    slice h.encode 148 8 = octal 8 (checksum h.beforeSum h.afterSum) := by
  refine slice_of_append h.beforeSum h.afterSum ?_ (length_beforeSum room)
    (length_octal (by decide) (checksum_lt room))
  rw [Header.encode, List.append_assoc]

theorem take_encode (room : h.name.length = nameSize) : h.encode.take 148 = h.beforeSum := by
  rw [Header.encode, List.append_assoc, List.take_left' (length_beforeSum room)]

theorem drop_encode (room : h.name.length = nameSize) : h.encode.drop 156 = h.afterSum := by
  refine List.drop_left' ?_
  rw [List.length_append, length_beforeSum room, length_octal (by decide) (checksum_lt room)]

theorem verifyChecksum_encode (room : h.name.length = nameSize) :
    verifyChecksum h.encode = .ok () := by
  have small := checksum_lt room
  rw [verifyChecksum, slice_sum room, readOctal_octal (Nat.lt_trans small (by decide)),
    take_encode room, drop_encode room]
  dsimp only
  rw [if_pos (Nat.mod_eq_of_lt (Nat.lt_trans small (by decide)))]

theorem sizeOf_encode (room : h.name.length = nameSize) (fits : h.size < wordLimit) :
    sizeOf h.encode none = .ok h.size := by
  rw [Archive.sizeOf, slice_size room, readNumber_number fits]
  dsimp only [Option.bind_none, Option.getD_none]
  rw [ite_self]

theorem kindOf_encode (room : h.name.length = nameSize) : kindOf h.encode = h.kind := by
  rw [kindOf, drop_encode room]
  rfl

theorem slice_magic (room : h.name.length = nameSize) :
    slice h.encode 257 8 = ascii "ustar  " ++ [0] := by
  have text : (ascii "ustar  ").length = 7 := by decide
  refine slice_of_append (h.beforeSum ++ octal 8 (checksum h.beforeSum h.afterSum) ++
    (h.kind :: zeros 100))
    (zeros 247) ?_ ?_ ?_
  · rw [Header.encode, Header.afterSum]
    simp only [List.append_assoc, List.cons_append]
    rfl
  · simp only [List.length_append, List.length_cons, length_zeros, length_beforeSum room,
      length_octal (by decide : 1 < 8) (checksum_lt room)]
  · rw [List.length_append, text]
    rfl

theorem isGnu_encode (room : h.name.length = nameSize) : isGnu h.encode := by
  rw [isGnu, slice_magic room]
  exact BEq.rfl

theorem isUstar_encode (room : h.name.length = nameSize) : isUstar h.encode = false := by
  rw [isUstar, slice_magic room]
  decide

theorem headerName_encode (room : h.name.length = nameSize) :
    headerName h.encode = untilZero h.name := by
  rw [headerName, slice_name room, isUstar_encode room]
  rfl

theorem not_all_zero (room : h.name.length = nameSize) : h.encode.all (· == 0) = false := by
  have magic := slice_magic room
  have mem : (0x75 : UInt8) ∈ slice h.encode 257 8 := by
    rw [magic]
    decide
  exact List.all_eq_false.mpr ⟨0x75, List.mem_of_mem_drop (List.mem_of_mem_take mem), by decide⟩

end Block
end Stowage.Archive
