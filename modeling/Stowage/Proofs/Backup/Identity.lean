import Stowage.Backup
import Stowage.Proofs.Moment
import Stowage.Proofs.Text.Lossy

/-! What the id of a backup tells of it. The text that is hashed joins four fields with hyphens, and
three of them may hold hyphens of their own: how many there are in the first two of these is all
that the text leaves open. -/
namespace Stowage.Backup

def hyphens (text : String) : Nat := text.toList.count '-'

/-- The fields that make up the identity, of which neither the URL nor the part of a second is
one. -/
structure SameSource (a b : Backup) : Prop where
  instanceId : a.instanceId = b.instanceId
  seconds : a.time.seconds = b.time.seconds
  version : a.version = b.version
  commit : a.commit = b.commit

structure SameHyphens (a b : Backup) : Prop where
  instanceId : hyphens a.instanceId = hyphens b.instanceId
  version : hyphens a.version = hyphens b.version

def differences (a b : Backup) : Nat :=
  [decide (a.instanceId ≠ b.instanceId), decide (a.time.seconds ≠ b.time.seconds),
    decide (a.version ≠ b.version), decide (a.commit ≠ b.commit)].count true

def Collide (m n : Bytes) : Prop := m ≠ n ∧ digest m = digest n

theorem append_cons_inj_of_count {α : Type} [DecidableEq α] {x : α}
    {front front' back back' : List α} (count : front.count x = front'.count x)
    (h : front ++ x :: back = front' ++ x :: back') :
    front = front' ∧ back = back' := by
  induction front generalizing front' with
  | nil =>
    cases front' with
    | nil => exact ⟨rfl, (List.cons.inj h).2⟩
    | cons c rest =>
      obtain ⟨rfl, -⟩ := List.cons.inj h
      rw [List.count_nil, List.count_cons_self] at count
      cases count
  | cons c rest ih =>
    cases front' with
    | nil =>
      obtain ⟨rfl, -⟩ := List.cons.inj h
      rw [List.count_nil, List.count_cons_self] at count
      cases count
    | cons c' rest' =>
      obtain ⟨rfl, tails⟩ := List.cons.inj h
      rw [List.count_cons, List.count_cons] at count
      obtain ⟨rfl, backs⟩ := ih (Nat.add_right_cancel count) tails
      exact ⟨rfl, backs⟩

section Seconds

variable {m n : Int} {rest rest' : List Char}

def sign (n : Int) : List Char := if n < 0 then ['-'] else []

theorem toList_toString_int (n : Int) :
    (toString n).toList = sign n ++ Nat.toDigits 10 n.natAbs := by
  cases n with
  | ofNat n => exact Nat.toList_repr
  | negSucc n =>
    have text : toString (Int.negSucc n) = "-" ++ Nat.repr (n + 1) := rfl
    rw [text, String.toList_append, Nat.toList_repr, sign, if_pos (Int.negSucc_lt_zero n)]
    rfl

theorem hyphen_not_mem_toDigits (n : Nat) : '-' ∉ Nat.toDigits 10 n := fun mem =>
  absurd (isDigit_of_mem_toDigits (by decide) (by decide) mem) (by decide)

theorem head?_sign_iff (n : Int) (rest : List Char) :
    (sign n ++ Nat.toDigits 10 n.natAbs ++ rest).head? = some '-' ↔ n < 0 := by
  unfold sign
  split
  · rename_i negative
    exact iff_of_true rfl negative
  · rename_i positive
    refine iff_of_false (fun first => ?_) positive
    obtain ⟨d, ds, eq⟩ := List.exists_cons_of_ne_nil (Nat.toDigits_ne_nil (b := 10) (n := n.natAbs))
    rw [eq] at first
    have mem : '-' ∈ Nat.toDigits 10 n.natAbs := by
      rw [eq, ← Option.some.inj first]
      exact List.mem_cons_self
    exact hyphen_not_mem_toDigits _ mem

/-- The seconds of a text end before the first hyphen that is not their sign. -/
theorem seconds_inj (h : (toString m).toList ++ '-' :: rest = (toString n).toList ++ '-' :: rest') :
    m = n ∧ rest = rest' := by
  rw [toList_toString_int, toList_toString_int] at h
  have signs : m < 0 ↔ n < 0 := by
    rw [← head?_sign_iff m ('-' :: rest), h, head?_sign_iff]
  have same : sign m = sign n := by
    rw [sign, sign]
    simp only [signs]
  rw [same, List.append_assoc, List.append_assoc, List.append_cancel_left_eq] at h
  have free (k : Nat) : (Nat.toDigits 10 k).count '-' = 0 :=
    List.count_eq_zero.mpr (hyphen_not_mem_toDigits k)
  obtain ⟨digits, rests⟩ := append_cons_inj_of_count ((free _).trans (free _).symm) h
  have size := congrArg decimalValue digits
  rw [decimalValue_toDigits, decimalValue_toDigits] at size
  exact ⟨by omega, rests⟩

end Seconds

variable {a b : Backup}

theorem toList_identity (a : Backup) :
    a.identity.toList = a.instanceId.toList ++
      '-' :: ((toString a.time.seconds).toList ++
        '-' :: (a.version.toList ++ '-' :: a.commit.toList)) := by
  have text : a.identity = a.instanceId ++ "-" ++ toString a.time.seconds ++ "-" ++ a.version ++
      "-" ++ a.commit := rfl
  have hyphen : "-".toList = ['-'] := rfl
  rw [text]
  simp only [String.toList_append, hyphen, List.append_assoc, List.cons_append, List.nil_append]

theorem SameSource.identity_eq (h : SameSource a b) : a.identity = b.identity := by
  rw [identity, identity, h.instanceId, h.seconds, h.version, h.commit]

theorem sameSource_of_identity_eq (same : a.identity = b.identity) (level : SameHyphens a b) :
    SameSource a b := by
  have texts := congrArg String.toList same
  rw [toList_identity, toList_identity] at texts
  obtain ⟨ids, texts⟩ := append_cons_inj_of_count level.instanceId texts
  obtain ⟨seconds, texts⟩ := seconds_inj texts
  obtain ⟨versions, commits⟩ := append_cons_inj_of_count level.version texts
  exact ⟨String.toList_inj.mp ids, seconds, String.toList_inj.mp versions,
    String.toList_inj.mp commits⟩

theorem agreements_of_differences (few : differences a b ≤ 1) :
    (a.time.seconds = b.time.seconds ∧ a.version = b.version ∧ a.commit = b.commit) ∨
      (a.instanceId = b.instanceId ∧ a.version = b.version ∧ a.commit = b.commit) ∨
      (a.instanceId = b.instanceId ∧ a.time.seconds = b.time.seconds ∧ a.commit = b.commit) ∨
      a.instanceId = b.instanceId ∧ a.time.seconds = b.time.seconds ∧ a.version = b.version := by
  by_cases ids : a.instanceId = b.instanceId <;> by_cases seconds :
    a.time.seconds = b.time.seconds <;>
    by_cases versions : a.version = b.version <;> by_cases commits : a.commit = b.commit <;>
    simp_all [differences]

theorem sameSource_of_differences (few : differences a b ≤ 1) (same : a.identity = b.identity) :
    SameSource a b := by
  have texts := congrArg String.toList same
  rw [toList_identity, toList_identity] at texts
  rcases agreements_of_differences few with ⟨seconds, versions, commits⟩ |
    ⟨ids, versions, commits⟩ |
    ⟨ids, seconds, commits⟩ | ⟨ids, seconds, versions⟩
  · rw [seconds, versions, commits, List.append_cancel_right_eq] at texts
    exact ⟨String.toList_inj.mp texts, seconds, versions, commits⟩
  · rw [ids, List.append_cancel_left_eq, List.cons_inj_right] at texts
    exact ⟨ids, (seconds_inj texts).1, versions, commits⟩
  · rw [ids, seconds, commits, List.append_cancel_left_eq, List.cons_inj_right,
      List.append_cancel_left_eq, List.cons_inj_right, List.append_cancel_right_eq] at texts
    exact ⟨ids, seconds, String.toList_inj.mp texts, commits⟩
  · rw [ids, seconds, versions, List.append_cancel_left_eq, List.cons_inj_right,
      List.append_cancel_left_eq, List.cons_inj_right, List.append_cancel_left_eq,
      List.cons_inj_right] at texts
    exact ⟨ids, seconds, versions, String.toList_inj.mp texts⟩

theorem collide_of_id_eq (apart : a.identity ≠ b.identity) (same : a.id = b.id) :
    Collide (Utf8.ofString a.identity) (Utf8.ofString b.identity) := by
  refine ⟨fun texts => apart ?_, same⟩
  exact String.toList_inj.mp (Utf8.encode_injective texts)

theorem seconds_eq_of_identity_eq (ids : a.instanceId = b.instanceId)
    (same : a.identity = b.identity) : a.time.seconds = b.time.seconds := by
  have texts := congrArg String.toList same
  rw [toList_identity, toList_identity, ids, List.append_cancel_left_eq, List.cons_inj_right]
    at texts
  exact (seconds_inj texts).1

/-- Two backups are of one source exactly where their texts are equal, with as many hyphens in their
instances and in their versions. One field that differs is enough to tell the texts apart, and so
are the seconds of one instance; where the texts differ the ids do, but for a collision. -/
theorem sameSource_iff (a b : Backup) :
    (SameSource a b ↔ a.identity = b.identity ∧ SameHyphens a b) ∧
      (differences a b = 1 → a.identity ≠ b.identity) ∧
      (a.instanceId = b.instanceId → a.time.seconds ≠ b.time.seconds → a.identity ≠ b.identity) ∧
      (a.identity ≠ b.identity → a.id = b.id →
        Collide (Utf8.ofString a.identity) (Utf8.ofString b.identity)) ∧
      (SameSource a b → a.id = b.id) := by
  refine ⟨⟨fun source => ⟨source.identity_eq, ?_⟩, fun ⟨same, level⟩ =>
    sameSource_of_identity_eq same level⟩, fun one same => ?_, fun ids other same =>
    other (seconds_eq_of_identity_eq ids same),
    collide_of_id_eq, fun source => ?_⟩
  · exact ⟨congrArg hyphens source.instanceId, congrArg hyphens source.version⟩
  · have source := sameSource_of_differences (Nat.le_of_eq one) same
    rw [differences, source.instanceId, source.seconds, source.version, source.commit] at one
    simp at one
  · rw [id, id, source.identity_eq]

/-- A hyphen that moves from the version to the commit leaves the text as it was. -/
theorem not_sameSource_of_same_identity :
    ¬ ∀ a b : Backup, ¬ SameSource a b → a.identity ≠ b.identity := by
  intro apart
  let a : Backup := ⟨"n-d", { seconds := 1, nanos := 0 }, "2-3", "c", "u"⟩
  let b : Backup := ⟨"n-d", { seconds := 1, nanos := 0 }, "2", "3-c", "u"⟩
  have other : ¬ SameSource a b := fun source => absurd source.commit (by decide)
  have same : a.identity = b.identity := by decide
  exact apart a b other same

def ones : Nat → List Char
  | 0 => ['1']
  | n + 1 => '1' :: '-' :: ones n

theorem count_ones (n : Nat) : (ones n).count '-' = n := by
  induction n with
  | zero => rfl
  | succ n ih => rw [ones, List.count_cons_of_ne (by decide), List.count_cons_self, ih]

theorem ones_append (m n : Nat) : ones m ++ '-' :: ones n = ones (m + n + 1) := by
  induction m with
  | zero => rw [Nat.zero_add, ones, ones, List.singleton_append]
  | succ m ih => rw [ones, List.cons_append, List.cons_append, ih, Nat.succ_add, ← ones]

/-- Nothing else could stand for the hyphens: whatever their numbers are on both sides, the texts
can be equal. -/
theorem exists_identity_eq (m n m' n' : Nat) :
    ∃ a b : Backup, hyphens a.instanceId = m ∧ hyphens a.version = n ∧ hyphens b.instanceId = m' ∧
    hyphens b.version = n' ∧
      a.identity = b.identity := by
  let made (m n rest : Nat) : Backup :=
    ⟨String.ofList (ones m), { seconds := 1, nanos := 0 }, String.ofList (ones n),
      String.ofList (ones rest), ""⟩
  have count (k : Nat) : hyphens (String.ofList (ones k)) = k := by
    rw [hyphens, String.toList_ofList, count_ones]
  have one : (toString (1 : Int)).toList = ones 0 := by decide
  have text (m n rest : Nat) : (made m n rest).identity.toList = ones (m + n + rest + 3) := by
    rw [toList_identity]
    dsimp only [made]
    rw [String.toList_ofList, String.toList_ofList, String.toList_ofList, one, ones_append,
      ones_append, ones_append]
    congr 1
    omega
  refine ⟨made m n (m' + n'), made m' n' (m + n), count m, count n, count m', count n',
    String.toList_inj.mp ?_⟩
  rw [text, text, Nat.add_comm (m + n)]

end Stowage.Backup
