import Stowage.Failure
import Stowage.Proofs.Digest.Streaming

/-! The digest of octets that arrive in readings: it is the one of all octets before the end,
however they are cut, unless a failure comes first. A reading that was interrupted changes
nothing. -/
namespace Stowage

variable {ε : Type}

namespace Reading

def isEnd : Reading ε → Bool
  | .octets bs => bs.isEmpty
  | _ => false

def content : Reading ε → Bytes
  | .octets bs => bs
  | _ => []

def failure? : Reading ε → Option ε
  | .failed failure => some failure
  | _ => none

end Reading

def beforeEnd (readings : List (Reading ε)) : List (Reading ε) :=
  readings.takeWhile fun r => !r.isEnd

def arrived (readings : List (Reading ε)) : Bytes := (beforeEnd readings).flatMap Reading.content

def firstFailure? (readings : List (Reading ε)) : Option ε :=
  (beforeEnd readings).findSome? Reading.failure?

section Steps

variable {r : Reading ε} {rest : List (Reading ε)}

theorem beforeEnd_cons_of_end (h : r.isEnd) (rest : List (Reading ε)) :
    beforeEnd (r :: rest) = [] :=
  List.takeWhile_cons_of_neg (by simp [h])

theorem beforeEnd_cons (h : r.isEnd = false) (rest : List (Reading ε)) :
    beforeEnd (r :: rest) = r :: beforeEnd rest :=
  List.takeWhile_cons_of_pos (by simp [h])

theorem arrived_cons (h : r.isEnd = false) : arrived (r :: rest) = r.content ++ arrived rest := by
  rw [arrived, beforeEnd_cons h, List.flatMap_cons, arrived]

theorem firstFailure?_cons (h : r.isEnd = false) :
    firstFailure? (r :: rest) = r.failure?.or (firstFailure? rest) := by
  rw [firstFailure?, beforeEnd_cons h, List.findSome?_cons]
  cases r.failure? <;> rfl

end Steps

open Sha256

theorem digestFrom_eq (h : Hasher) (readings : List (Reading ε)) :
    digestFrom h readings =
      match firstFailure? readings with
      | some failure => .error failure
      | none => .ok (Bytes.toHex (h.update (arrived readings)).finish) := by
  induction readings generalizing h with
  | nil => rfl
  | cons r rest ih =>
    cases r with
    | octets bs =>
      rw [digestFrom]
      split
      · rename_i isLast
        have last : (Reading.octets bs : Reading ε).isEnd := isLast
        rw [firstFailure?, arrived, beforeEnd_cons_of_end last]
        rfl
      · rename_i notLast
        have more : (Reading.octets bs : Reading ε).isEnd = false := Bool.eq_false_iff.mpr notLast
        rw [foldl_update_buffers, ih, ← Hasher.update_append, firstFailure?_cons more,
          arrived_cons more]
        rfl
    | interrupted =>
      rw [digestFrom, ih, firstFailure?_cons rfl, arrived_cons rfl]
      rfl
    | failed failure =>
      rw [digestFrom, firstFailure?_cons rfl]
      rfl

theorem digestReadings_eq (readings : List (Reading ε)) :
    digestReadings readings =
      match firstFailure? readings with
      | some failure => .error failure
      | none => .ok (digest (arrived readings)) := by
  rw [digestReadings, digestFrom_eq, Hasher.finish_update, digest]

theorem digestReadings_eq_ok {readings : List (Reading ε)} {d : String} :
    digestReadings readings = .ok d ↔
      firstFailure? readings = none ∧ digest (arrived readings) = d := by
  rw [digestReadings_eq]
  cases firstFailure? readings <;> simp

theorem digitChar_mem : ∀ n < 16, Nat.digitChar n ∈ "0123456789abcdef".toList := by decide

/-- Readings have the digest of all that arrives before their end, or fail with the first failure
before it. So the digest does not depend on where the octets are cut, and is made of 64 small
hexadecimal digits. -/
theorem digestReadings_exact (readings : List (Reading ε)) :
    (∀ failure, firstFailure? readings = some failure → digestReadings readings = .error failure) ∧
      (firstFailure? readings = none → digestReadings readings = .ok (digest (arrived readings))) ∧
      (∀ others : List (Reading ε), firstFailure? others = firstFailure? readings →
        arrived others = arrived readings → digestReadings others = digestReadings readings) ∧
      ∀ d, digestReadings readings = .ok d → d.length = 64 ∧
        ∀ c ∈ d.toList, c ∈ "0123456789abcdef".toList := by
  refine ⟨fun failure failed => ?_, fun whole => ?_, fun others failures octets => ?_, fun d read =>
    ?_⟩
  · rw [digestReadings_eq, failed]
  · exact digestReadings_eq_ok.mpr ⟨whole, rfl⟩
  · rw [digestReadings_eq, digestReadings_eq, failures, octets]
  · obtain ⟨-, rfl⟩ := digestReadings_eq_ok.mp read
    refine ⟨digest_length _, fun c mem => ?_⟩
    obtain ⟨n, small, rfl⟩ := mem_digest mem
    exact digitChar_mem n small

/-- What stands behind the end is not read, so that a failure there is none. -/
theorem digestReadings_exact_interrupted :
    ∃ d, digestReadings [.octets [1], .interrupted, .octets [2, 3], .octets [],
      .failed .unexpectedEnd] =
        (.ok d : Except Failure String) ∧ d = digest [1, 2, 3] ∧ d.length = 64 ∧
      digestReadings [.octets [1, 2], .octets [3]] = (.ok d : Except Failure String) ∧
      digestReadings [.octets [1], .interrupted, .failed .unexpectedEnd, .octets []] =
        (.error .unexpectedEnd : Except Failure String) := by
  obtain ⟨-, read, other, form⟩ :=
    digestReadings_exact [.octets [1], .interrupted, .octets [2, 3], .octets [],
      .failed Failure.unexpectedEnd]
  obtain ⟨failed, -⟩ :=
    digestReadings_exact [.octets [1], .interrupted, .failed Failure.unexpectedEnd, .octets []]
  exact ⟨_, read rfl, rfl, (form _ (read rfl)).1,
    (other [.octets [1, 2], .octets [3]] rfl rfl).trans (read rfl), failed _ rfl⟩

end Stowage
