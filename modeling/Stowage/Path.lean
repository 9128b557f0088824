import Stowage.Text.Utf8

/-! Paths: the octets they are spelled with, cut into segments at slashes. Empty segments and dots
inside a path name nothing, so that two spellings may have the same components; comparison and order
go by components, while joining and the walk to the parent keep the spelling. -/
namespace Stowage

structure Path where
  spelling : Bytes
deriving DecidableEq

inductive Component
  | root
  | here
  | up
  | name (octets : Bytes)
deriving DecidableEq

/-- A part of a path between slashes, and whether it is a component. -/
structure Segment where
  octets : Bytes
  solid : Bool
deriving DecidableEq

def slash : UInt8 := 0x2f
def dot : UInt8 := 0x2e

def Component.ofOctets (s : Bytes) : Component :=
  if s = [dot] then .here else if s = [dot, dot] then .up else .name s

def Component.octets : Component → Bytes
  | .root => [slash]
  | .here => [dot]
  | .up => [dot, dot]
  | .name s => s

def Component.rank : Component → Nat
  | .root => 0
  | .here => 1
  | .up => 2
  | .name _ => 3

def Component.compare : Component → Component → Ordering :=
  compareLex (compareOn Component.rank) (compareOn Component.octets)

instance : Ord Component := ⟨Component.compare⟩

instance : Std.TransOrd Component :=
  inferInstanceAs
    (Std.TransCmp (compareLex (compareOn Component.rank) (compareOn Component.octets)))

theorem Component.eq_of_rank_octets {c d : Component} (rank : c.rank = d.rank)
    (octets : c.octets = d.octets) :
    c = d := by
  cases c <;> cases d <;> simp_all [Component.rank, Component.octets]

instance : Std.LawfulEqOrd Component where
  compare_self := Std.ReflCmp.compare_self
  eq_of_compare h := by
    obtain ⟨rank, octets⟩ := Ordering.then_eq_eq.mp h
    exact Component.eq_of_rank_octets (Std.LawfulEqCmp.eq_of_compare rank)
      (Std.LawfulEqCmp.eq_of_compare octets)

namespace Path

def ofString (s : String) : Path := ⟨Utf8.ofString s⟩

def display (p : Path) : String := Utf8.lossy p.spelling

def isRooted (p : Path) : Bool := p.spelling.head? == some slash

def isEmpty (p : Path) : Bool := p.spelling.isEmpty

def split : Bytes → List Bytes
  | [] => [[]]
  | b :: bs =>
    if b = slash then [] :: split bs
    else match split bs with
      | s :: rest => (b :: s) :: rest
      | [] => [[b]]

def inner (s : Bytes) : Segment := ⟨s, s ≠ [] && s ≠ [dot]⟩

/-- The segments, less the root. A dot at the head of a path that has no root is a component. -/
def segments (p : Path) : List Segment :=
  if p.isRooted then (split (p.spelling.drop 1)).map inner
  else match split p.spelling with
    | s :: rest => ⟨s, s ≠ []⟩ :: rest.map inner
    | [] => []

def components (p : Path) : List Component :=
  let body := (p.segments.filter Segment.solid).map fun s => Component.ofOctets s.octets
  if p.isRooted then .root :: body else body

def same (p q : Path) : Bool := p.components == q.components

def compare : Path → Path → Ordering := compareOn components

instance : Std.TransCmp compare := inferInstanceAs (Std.TransCmp (compareOn components))

theorem same_iff {p q : Path} : p.same q ↔ p.components = q.components := beq_iff_eq

theorem same_congr {p q : Path} (h : p.same q) (r : Path) : p.same r = q.same r := by
  rw [same, same, same_iff.mp h]

theorem same_comm (p q : Path) : p.same q = q.same p := by
  rw [same, same, BEq.comm]

theorem same_iff_compare {p q : Path} : p.same q ↔ p.compare q = .eq := by
  rw [same, beq_iff_eq, compare, compareOn, Std.LawfulEqCmp.compare_eq_iff_eq]

def le (p q : Path) : Bool := (compare p q).isLE

def spellSegments (rooted : Bool) (segments : List Segment) : Path :=
  let body := [slash].intercalate (segments.map Segment.octets)
  ⟨if rooted then slash :: body else body⟩

def dropHollow (segments : List Segment) : List Segment := segments.dropWhile fun s => !s.solid

/-- The segments before each component, nearest the end first; lists are reversed. -/
def prefixes : List Segment → List (List Segment)
  | [] => []
  | s :: rest => if s.solid then dropHollow rest :: prefixes rest else prefixes rest

/-- The parent, its parent and so on, as they are spelled. The last one of a path without root is
empty. -/
def ancestors (p : Path) : List Path :=
  (prefixes p.segments.reverse).map fun segments => spellSegments p.isRooted segments.reverse

def parentSegments : List Segment → Option (List Segment)
  | [] => none
  | s :: rest => if s.solid then some (dropHollow rest) else parentSegments rest

def parent? (p : Path) : Option Path :=
  (parentSegments p.segments.reverse).map fun segments => spellSegments p.isRooted segments.reverse

def dropSolid : Nat → List Segment → List Segment
  | 0, segments => segments
  | _, [] => []
  | n + 1, s :: rest => if s.solid then dropSolid n rest else dropSolid (n + 1) rest

def trimHollow (segments : List Segment) : List Segment := (dropHollow segments.reverse).reverse

def below? (p base : Path) : Option Path :=
  let front := base.components
  if front.isPrefixOf p.components then
    if front.isEmpty then some (spellSegments p.isRooted (trimHollow p.segments))
    else
      let count := if p.isRooted then front.length - 1 else front.length
      some (spellSegments false (trimHollow (dropHollow (dropSolid count p.segments))))
  else none

/-- A path with a root stands for itself; any other is put behind the base and one slash. -/
def join (base p : Path) : Path :=
  if p.isRooted then p
  else if base.isEmpty || base.spelling.getLast? == some slash then ⟨base.spelling ++ p.spelling⟩
  else ⟨base.spelling ++ slash :: p.spelling⟩

def joinText (base : Path) (s : String) : Path := base.join (ofString s)

def fileName? (p : Path) : Option Bytes :=
  match p.components.getLast? with
  | some (.name s) => some s
  | _ => none

def extensionOf? (name : Bytes) : Option Bytes :=
  let after := name.reverse.takeWhile (· != dot)
  match name.reverse.drop after.length with
  | _ :: _ :: _ => some after.reverse
  | _ => none

def extension? (p : Path) : Option Bytes := p.fileName?.bind extensionOf?

def fileNameText? (p : Path) : Option String := p.fileName?.bind Utf8.toString?

end Path
end Stowage
