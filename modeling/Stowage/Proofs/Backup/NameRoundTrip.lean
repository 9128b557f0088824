import Mathlib.Data.List.TakeWhile
import Stowage.Proofs.Backup.FileName

/-! The name of an archive tells its backup: it is cut in one way only, at the last hyphen, whatever
hyphens and digits the id holds. -/
namespace Stowage

open BackupName

theorem Moment.ofDecimal?_eq_some {cs : List Char} {t : Moment} (h : ofDecimal? cs = some t) :
    0 ≤ t.seconds ∧ t.nanos = 0 := by
  obtain ⟨-, second, whole⟩ := ofDecimal?_eq_some_iff.mp h
  exact ⟨second ▸ Int.natCast_nonneg _, whole⟩

namespace BackupName

variable {cs id digits : List Char}

def spell (id digits : List Char) : List Char := id ++ '-' :: (digits ++ ['.', 't', 'a', 'r'])

theorem reverse_spell (id digits : List Char) :
    (spell id digits).reverse = ['r', 'a', 't', '.'] ++ (digits.reverse ++ '-' :: id.reverse) := by
  simp [spell]

theorem takeWhile_digits (h : ∀ c ∈ digits, isDigit c) (front : List Char) :
    (digits.reverse ++ '-' :: front).takeWhile isDigit = digits.reverse := by
  have all : ∀ c ∈ digits.reverse, isDigit c := fun c hc => h c (List.mem_reverse.mp hc)
  rw [List.takeWhile_append_of_pos all, List.takeWhile_cons_of_neg (by decide), List.append_nil]

/-- No other cut leaves digits alone behind the hyphen. -/
theorem spell_inj {id' digits' : List Char} (h : ∀ c ∈ digits, isDigit c)
    (h' : ∀ c ∈ digits', isDigit c) (same : spell id digits = spell id' digits') :
    id = id' ∧ digits = digits' := by
  have reversed := congrArg List.reverse same
  rw [reverse_spell, reverse_spell, List.append_cancel_left_eq] at reversed
  have tails := congrArg (List.takeWhile isDigit) reversed
  rw [takeWhile_digits h, takeWhile_digits h', List.reverse_inj] at tails
  subst tails
  rw [List.append_cancel_left_eq] at reversed
  exact ⟨List.reverse_inj.mp (List.cons.inj reversed).2, rfl⟩

theorem parts?_eq_some_iff :
    parts? cs = some (id, digits) ↔
      cs = spell id digits ∧ '\n' ∉ id ∧ digits ≠ [] ∧ ∀ c ∈ digits, isDigit c := by
  constructor
  · intro h
    obtain ⟨_, dropped, h⟩ := Option.bind_eq_some_iff.mp h
    obtain ⟨extension, rfl⟩ : ['r', 'a', 't', '.'].isPrefixOf cs.reverse ∧
        cs.reverse.drop 4 = _ := by
      simpa [dropExtension?] using dropped
    obtain ⟨rest, eq⟩ := List.isPrefixOf_iff_prefix.mp extension
    have behind : cs.reverse.drop 4 = rest := by
      rw [← eq]
      rfl
    have whole : rest.takeWhile isDigit ++ rest.drop (rest.takeWhile isDigit).length = rest :=
      List.prefix_iff_eq_append.mp (List.takeWhile_prefix _)
    rw [behind] at h
    dsimp only at h
    split at h
    · cases h
    · rename_i nonempty
      split at h
      · rename_i front cut
        split at h
        · cases h
        · rename_i oneLine
          cases h
          refine ⟨List.reverse_injective ?_, by simpa using oneLine, by simpa using nonempty,
            fun c hc => ?_⟩
          · rw [reverse_spell, ← eq, List.reverse_reverse, List.reverse_reverse, ← cut, whole]
          · exact List.mem_takeWhile_imp (List.mem_reverse.mp hc)
      · cases h
  · rintro ⟨rfl, oneLine, nonempty, all⟩
    have dropped : dropExtension? (spell id digits).reverse =
        Option.some (digits.reverse ++ '-' :: id.reverse) := by
      rw [reverse_spell]
      rfl
    have full : digits.reverse.isEmpty = false := by simpa using nonempty
    have clean : id.reverse.contains '\n' = false := by simpa using oneLine
    rw [parts?, dropped]
    simp only [bind, Option.bind, takeWhile_digits all, full, List.drop_left, clean,
      List.reverse_reverse]
    rfl

theorem toList_backupFileName (id : String) {time : Moment} (since : 0 ≤ time.seconds) :
    (backupFileName id time).toList = spell id.toList (Nat.toDigits 10 time.seconds.toNat) := by
  have text : backupFileName id time = id ++ "-" ++ toString time.seconds ++ "." ++ "tar" := rfl
  rw [text]
  simp only [String.toList_append, Backup.toList_toString_seconds since, List.append_assoc]
  rfl

theorem isDigit_of_mem_seconds {time : Moment} :
    ∀ c ∈ Nat.toDigits 10 time.seconds.toNat, isDigit c := fun _ hc =>
  isDigit_of_mem_toDigits (by decide) (by decide) hc

theorem parse_eq_ok {name : String} {n : BackupName} :
    parse name = .ok n ↔ ofText? name.toList = some n := by
  rw [parse]
  cases ofText? name.toList <;> simp

theorem ofText?_eq_some {n : BackupName} :
    ofText? cs = some n ↔
      ∃ digits, parts? cs = some (n.instanceId.toList, digits) ∧
      Moment.ofDecimal? digits = some n.time := by
  constructor
  · intro h
    obtain ⟨⟨id, digits⟩, cut, h⟩ := Option.bind_eq_some_iff.mp h
    obtain ⟨time, read, same⟩ := Option.bind_eq_some_iff.mp h
    cases same
    exact ⟨digits, by rw [cut, String.toList_ofList], read⟩
  · rintro ⟨digits, cut, read⟩
    rw [ofText?, cut]
    simp only [bind, Option.bind, read, String.ofList_toList]
    rfl

theorem backupFileName_inj {id id' : String} {time time' : Moment} (since : 0 ≤ time.seconds)
    (since' : 0 ≤ time'.seconds) :
    backupFileName id time = backupFileName id' time' ↔
      id = id' ∧ time.seconds = time'.seconds := by
  constructor
  · intro same
    have texts := congrArg String.toList same
    rw [toList_backupFileName _ since, toList_backupFileName _ since'] at texts
    obtain ⟨ids, digits⟩ := spell_inj isDigit_of_mem_seconds isDigit_of_mem_seconds texts
    have values := congrArg decimalValue digits
    rw [decimalValue_toDigits, decimalValue_toDigits] at values
    exact ⟨String.toList_inj.mp ids, by omega⟩
  · rintro ⟨rfl, seconds⟩
    rw [backupFileName, backupFileName, seconds]

/-- What a file name gives back of the name that it was made of. -/
def counted (n : BackupName) : BackupName := ⟨n.instanceId, n.time.unixSecond⟩

theorem counted_eq_self {n : BackupName} (whole : n.time.nanos = 0) : n.counted = n := by
  rw [counted, Moment.unixSecond_eq_self whole]

theorem map_counted_perm_iff {names : List BackupName}
    (whole : ∀ n ∈ names, n.time.wholeSecond = n.time) :
    (names.map counted).Perm names ↔ ∀ n ∈ names, ¬ n.time.Leaps := by
  constructor
  · intro same n mem
    obtain ⟨m, -, rfl⟩ := List.mem_map.mp (same.mem_iff.mpr mem)
    exact (Moment.nanos_eq_zero_iff (whole _ mem)).mp rfl
  · intro before
    have kept : names.map counted = names.map id := List.map_congr_left fun n mem =>
      counted_eq_self ((Moment.nanos_eq_zero_iff (whole n mem)).mpr (before n mem))
    rw [kept, List.map_id]

theorem parse_backupFileName {id : String} {time : Moment} (since : 0 ≤ time.seconds)
    (oneLine : '\n' ∉ id.toList) :
    parse (backupFileName id time) = .ok ⟨id, time.unixSecond⟩ := by
  refine parse_eq_ok.mpr (ofText?_eq_some.mpr ⟨_, ?_, Moment.ofDecimal?_toDigits since⟩)
  exact parts?_eq_some_iff.mpr
    ⟨toList_backupFileName _ since, oneLine, Nat.toDigits_ne_nil, isDigit_of_mem_seconds⟩

/-- A name gives back the id and the whole second that it was made of, unless the id has lines, the
second is before 1970 or it is a leap second. No two ids and seconds since 1970 share a name, but
for a leap second and the second before it. -/
theorem parse_fileName_iff (n : BackupName) (whole : n.time.wholeSecond = n.time) :
    (parse (backupFileName n.instanceId n.time) = .ok n ↔
      0 ≤ n.time.seconds ∧ '\n' ∉ n.instanceId.toList ∧ ¬ n.time.Leaps) ∧
    ∀ m : BackupName, m.time.wholeSecond = m.time → 0 ≤ n.time.seconds → 0 ≤ m.time.seconds →
      (backupFileName m.instanceId m.time = backupFileName n.instanceId n.time ↔
        m.instanceId = n.instanceId ∧ m.time.unixSecond = n.time.unixSecond) ∧
      (¬ m.time.Leaps → ¬ n.time.Leaps →
        backupFileName m.instanceId m.time = backupFileName n.instanceId n.time → m = n) := by
  have zero := Moment.nanos_eq_zero_iff whole
  refine ⟨⟨fun parsed => ?_, fun ⟨since, oneLine, before⟩ => ?_⟩, fun m whole' since since' => ?_⟩
  · obtain ⟨digits, cut, read⟩ := ofText?_eq_some.mp (parse_eq_ok.mp parsed)
    obtain ⟨since, nanos⟩ := Moment.ofDecimal?_eq_some read
    exact ⟨since, (parts?_eq_some_iff.mp cut).2.1, zero.mp nanos⟩
  · rw [parse_backupFileName since oneLine, Moment.unixSecond_eq_self (zero.mpr before)]
  · rw [backupFileName_inj since' since, Moment.unixSecond_inj]
    refine ⟨Iff.rfl, fun before' before ⟨ids, seconds⟩ => ?_⟩
    have nanos' := (Moment.nanos_eq_zero_iff whole').mpr before'
    obtain ⟨id, time⟩ := m
    obtain ⟨id', time'⟩ := n
    rw [BackupName.mk.injEq]
    exact ⟨ids, Moment.ext seconds (nanos'.trans (zero.mpr before).symm)⟩

theorem parse_fileName_hyphens :
    let n : BackupName := ⟨"a-1.tar-2", { seconds := lastSecond, nanos := 0 }⟩
    parse "a-1.tar-2-8210266876799.tar" = .ok n ∧
      ∀ m : BackupName, m.time.wholeSecond = m.time → 0 ≤ m.time.seconds → ¬ m.time.Leaps →
        backupFileName m.instanceId m.time = "a-1.tar-2-8210266876799.tar" → m = n := by
  intro n
  have name : backupFileName n.instanceId n.time = "a-1.tar-2-8210266876799.tar" := by
    decide +kernel
  obtain ⟨back, only⟩ := parse_fileName_iff n rfl
  refine ⟨?_, fun m whole since before same => ?_⟩
  · rw [← name]
    exact back.mpr (by decide)
  · exact (only m whole (by decide) since).2 before (by decide) (name ▸ same)

/-- 23:59:60 has the name of 23:59:59, and is read back as that. -/
theorem not_parse_fileName_of_leaps :
    (¬ ∀ n : BackupName, n.time.wholeSecond = n.time →
      (parse (backupFileName n.instanceId n.time) = .ok n ↔
        0 ≤ n.time.seconds ∧ '\n' ∉ n.instanceId.toList)) ∧
    ¬ ∀ m n : BackupName, m.time.wholeSecond = m.time → n.time.wholeSecond = n.time →
      0 ≤ m.time.seconds → 0 ≤ n.time.seconds →
      backupFileName m.instanceId m.time = backupFileName n.instanceId n.time → m = n := by
  let leap : BackupName := ⟨"node", { seconds := 1483228799, nanos := 1000000000 }⟩
  let before : BackupName := ⟨"node", { seconds := 1483228799, nanos := 0 }⟩
  refine ⟨fun back => ?_, fun only => ?_⟩
  · have read := (back leap (by decide)).mpr (by decide)
    rw [parse_backupFileName (by decide) (by decide)] at read
    exact absurd read (by decide)
  · exact absurd (only leap before (by decide) (by decide) (by decide) (by decide) rfl) (by decide)

/-- The format of a name: an id on one line, a hyphen, the digits of a second that the calendar has,
and the extension. Zeros may stand in front of the digits. -/
structure Written (name id : String) (digits : List Char) : Prop where
  text : name.toList = id.toList ++ '-' :: (digits ++ ['.', 't', 'a', 'r'])
  oneLine : '\n' ∉ id.toList
  nonempty : digits ≠ []
  decimal : ∀ c ∈ digits, isDigit c
  within : decimalValue digits ≤ lastSecond

namespace Written

variable {name : String} {id : String} {digits : List Char}

theorem unique {id' : String} {digits' : List Char} (h : Written name id digits)
    (h' : Written name id' digits') :
    id' = id ∧ digits' = digits := by
  obtain ⟨ids, same⟩ := spell_inj h'.decimal h.decimal (h'.text.symm.trans h.text)
  exact ⟨String.toList_inj.mp ids, same⟩

theorem exists_time (h : Written name id digits) :
    ∃ time : Moment, time.seconds = decimalValue digits ∧ time.nanos = 0 := by
  have first : firstSecond ≤ decimalValue digits := by
    have early : firstSecond ≤ 0 := by decide
    omega
  exact ⟨⟨decimalValue digits, 0, first, h.within, Moment.nanosLimit_pos _⟩, rfl, rfl⟩

end Written

theorem parse_eq_ok_iff {name : String} {n : BackupName} :
    parse name = .ok n ↔
      ∃ digits, Written name n.instanceId digits ∧
        n.time.seconds = decimalValue digits ∧ n.time.nanos = 0 := by
  rw [parse_eq_ok, ofText?_eq_some]
  refine exists_congr fun digits => ?_
  rw [parts?_eq_some_iff, Moment.ofDecimal?_eq_some_iff]
  constructor
  · rintro ⟨⟨text, oneLine, nonempty, decimal⟩, -, second, whole⟩
    rw [dropPlus_of_isDigit decimal] at second
    exact ⟨⟨text, oneLine, nonempty, decimal, second ▸ n.time.le_last⟩, second, whole⟩
  · rintro ⟨⟨text, oneLine, nonempty, decimal, -⟩, second, whole⟩
    rw [dropPlus_of_isDigit decimal]
    exact ⟨⟨text, oneLine, nonempty, decimal⟩, ⟨nonempty, decimal⟩, second, whole⟩

theorem parse_cases (name : String) :
    (∃ n, parse name = .ok n) ∨ parse name = .error (.invalidBackupName name) := by
  rw [parse]
  cases ofText? name.toList with
  | some n => exact .inl ⟨n, rfl⟩
  | none => exact .inr rfl

/-- Exactly the names in the format are read, each in one way, and any other name is refused as it
stands. -/
theorem parse_iff_written (name : String) :
    (∀ n, parse name = .ok n ↔
        ∃ digits, Written name n.instanceId digits ∧
          n.time.seconds = decimalValue digits ∧ n.time.nanos = 0) ∧
      (∀ id digits, Written name id digits →
        (∃ n, parse name = .ok n) ∧
          ∀ id' digits', Written name id' digits' → id' = id ∧ digits' = digits) ∧
      (parse name = .error (.invalidBackupName name) ↔ ∀ id digits, ¬ Written name id digits) := by
  have reads (id : String) (digits : List Char) (written : Written name id digits) :
      ∃ n, parse name = .ok n := by
    obtain ⟨time, second, whole⟩ := written.exists_time
    exact ⟨⟨id, time⟩, parse_eq_ok_iff.mpr ⟨digits, written, second, whole⟩⟩
  refine ⟨fun n => parse_eq_ok_iff, fun id digits written =>
    ⟨reads id digits written, fun _ _ => written.unique⟩, ?_⟩
  constructor
  · intro refused id digits written
    obtain ⟨n, read⟩ := reads id digits written
    rw [refused] at read
    cases read
  · intro other
    rcases parse_cases name with ⟨n, read⟩ | refused
    · obtain ⟨digits, written, -⟩ := parse_eq_ok_iff.mp read
      exact absurd written (other _ _)
    · exact refused

example :
    parse "a-1.tar-0000000000000000000000008210266876799.tar" =
      .ok ⟨"a-1.tar", { seconds := lastSecond, nanos := 0 }⟩ ∧
      parse "a-8210266876800.tar" = .error (.invalidBackupName "a-8210266876800.tar") := by
  decide +kernel

end BackupName
end Stowage
