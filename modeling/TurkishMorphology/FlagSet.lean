/-!
# Sets of flags

A flag is a member of a small enumeration; a set of flags is a 64-bit word with one bit per
member. Equality of sets is equality of words, so a bit that belongs to no member still tells two
sets apart and still counts towards the size.

## Main definitions

- `Flag` — an enumeration whose members have distinct bit positions below 64
- `FlagSet` — a set of flags
- `FlagSet.contains`, `insert`, `erase`, `union`, `ofList`, `toList`, `size`

## Design notes

Every operation is described through `contains`: one lemma per operation says which members the
result has. Later modules use these lemmas and never look at the bits.
-/

namespace TurkishMorphology

/-- An enumeration whose members have distinct bit positions below 64. -/
class Flag (α : Type) where
  /-- Every member, in declaration order. -/
  all : List α
  /-- The bit position of a member. -/
  bit : α → Fin 64
  mem_all : ∀ a, a ∈ all
  bit_injective : ∀ a b, bit a = bit b → a = b

/-- A set of flags, one bit per member. -/
structure FlagSet (α : Type) where
  /-- The underlying 64-bit word. -/
  bits : BitVec 64

namespace FlagSet

variable {α : Type} {s t u : FlagSet α}

@[ext]
theorem ext_bits {s t : FlagSet α} (h : s.bits = t.bits) : s = t := by
  cases s; cases t; cases h; rfl

instance : DecidableEq (FlagSet α) := fun s t =>
  if h : s.bits = t.bits then isTrue (ext_bits h) else isFalse fun e => h (e ▸ rfl)

def empty : FlagSet α := ⟨0⟩

instance : EmptyCollection (FlagSet α) := ⟨empty⟩

instance : Inhabited (FlagSet α) := ⟨empty⟩

def isEmpty (s : FlagSet α) : Bool := s.bits == 0

/-- How many bits are set, those without a member included. -/
def size (s : FlagSet α) : Nat := (List.range 64).countP s.bits.getLsbD

/-- All sets of flags. There are too many to list them; what counts is that there are finitely
    many. -/
noncomputable def all : List (FlagSet α) :=
  (List.range (Nat.pow 2 64)).map fun n => ⟨BitVec.ofNat 64 n⟩

theorem mem_all (s : FlagSet α) : s ∈ all := by
  refine List.mem_map.mpr ⟨s.bits.toNat, List.mem_range.mpr s.bits.isLt, ?_⟩
  rw [BitVec.ofNat_toNat, BitVec.setWidth_eq]

def union (s t : FlagSet α) : FlagSet α := ⟨s.bits ||| t.bits⟩

instance : Union (FlagSet α) := ⟨union⟩

@[simp]
theorem union_empty (s : FlagSet α) : s ∪ ∅ = s := ext_bits BitVec.or_zero

@[simp]
theorem empty_union (s : FlagSet α) : ∅ ∪ s = s := ext_bits BitVec.zero_or

def containsAny (s t : FlagSet α) : Bool := s.bits &&& t.bits != 0

/-- Whether every bit of `t` is set in `s`. -/
def containsAll (s t : FlagSet α) : Bool := s.bits &&& t.bits == t.bits

theorem containsAll_self (s : FlagSet α) : s.containsAll s = true := by
  rw [containsAll, BitVec.and_self, beq_self_eq_true]

theorem containsAll_trans (hst : s.containsAll t = true) (htu : t.containsAll u = true) :
    s.containsAll u = true := by
  have hst : s.bits &&& t.bits = t.bits := eq_of_beq hst
  have htu : t.bits &&& u.bits = u.bits := eq_of_beq htu
  refine beq_iff_eq.mpr ?_
  calc s.bits &&& u.bits = s.bits &&& (t.bits &&& u.bits) := by rw [htu]
    _ = t.bits &&& u.bits := by rw [← BitVec.and_assoc, hst]
    _ = u.bits := htu

section Members

variable [Flag α] {a : α}

/-- The word with the bit of `a` alone. -/
def mask (a : α) : BitVec 64 := BitVec.twoPow 64 (Flag.bit a)

def contains (s : FlagSet α) (a : α) : Bool := s.bits.getLsbD (Flag.bit a)

def insert (s : FlagSet α) (a : α) : FlagSet α := ⟨s.bits ||| mask a⟩

def erase (s : FlagSet α) (a : α) : FlagSet α := ⟨s.bits &&& ~~~ mask a⟩

def ofList (as : List α) : FlagSet α := as.foldl insert empty

/-- The members, in declaration order. -/
def toList (s : FlagSet α) : List α := (Flag.all).filter s.contains

theorem getLsbD_mask (a : α) (i : Nat) : (mask a).getLsbD i = decide (i = Flag.bit a) := by
  have h := (Flag.bit a).isLt
  rw [mask, BitVec.getLsbD_twoPow]
  by_cases hi : i = Flag.bit a
  · subst hi; simp [h]
  · have : ¬ (Flag.bit a : Nat) = i := fun e => hi e.symm
    simp [hi, this]

theorem bit_eq_iff {a b : α} : ((Flag.bit a : Nat) = Flag.bit b) ↔ a = b :=
  ⟨fun h => Flag.bit_injective a b (Fin.ext h), fun h => h ▸ rfl⟩

theorem contains_mask (a b : α) [DecidableEq α] :
    (mask a).getLsbD (Flag.bit b) = decide (b = a) := by
  rw [getLsbD_mask]
  by_cases h : b = a
  · simp [h]
  · simp [h, mt bit_eq_iff.mp h]

@[simp]
theorem contains_empty (a : α) : (∅ : FlagSet α).contains a = false := by
  simp [contains, EmptyCollection.emptyCollection, empty]

@[simp]
theorem contains_insert [DecidableEq α] (s : FlagSet α) (a b : α) :
    (s.insert a).contains b = (s.contains b || decide (b = a)) := by
  simp only [contains, insert, BitVec.getLsbD_or, contains_mask]

@[simp]
theorem contains_erase [DecidableEq α] (s : FlagSet α) (a b : α) :
    (s.erase a).contains b = (s.contains b && !decide (b = a)) := by
  have h := (Flag.bit b).isLt
  simp only [contains, erase, BitVec.getLsbD_and, BitVec.getLsbD_not, contains_mask, h,
    decide_true, Bool.true_and]

@[simp]
theorem contains_union (s t : FlagSet α) (a : α) :
    (s ∪ t).contains a = (s.contains a || t.contains a) := by
  simp [contains, Union.union, union]

theorem contains_foldl_insert [DecidableEq α] (as : List α) (s : FlagSet α) (b : α) :
    (as.foldl insert s).contains b = (s.contains b || decide (b ∈ as)) := by
  induction as generalizing s with
  | nil => simp
  | cons a as ih => simp [ih, Bool.or_assoc]

@[simp]
theorem contains_ofList [DecidableEq α] (as : List α) (b : α) :
    (ofList as).contains b = decide (b ∈ as) := by
  have h := contains_foldl_insert as (∅ : FlagSet α) b
  rw [contains_empty, Bool.false_or] at h
  exact h

/-- A set made of a list has the bits of its members and no others. -/
theorem getLsbD_ofList (as : List α) (i : Nat) :
    (ofList as).bits.getLsbD i = as.any fun a => decide (i = Flag.bit a) := by
  have hfold : ∀ s : FlagSet α, (as.foldl insert s).bits.getLsbD i =
      (s.bits.getLsbD i || as.any fun a => decide (i = Flag.bit a)) := by
    induction as with
    | nil => simp
    | cons a as ih =>
      intro s
      rw [List.foldl_cons, ih, insert, BitVec.getLsbD_or, getLsbD_mask, List.any_cons,
        Bool.or_assoc]
  have h := hfold empty
  rwa [show (empty : FlagSet α).bits.getLsbD i = false by simp [empty], Bool.false_or] at h

/-- Lists with the same members make the same set. -/
theorem ofList_congr {as bs : List α} (h : ∀ a, a ∈ as ↔ a ∈ bs) : ofList as = ofList bs := by
  refine ext_bits (BitVec.eq_of_getLsbD_eq fun i _ => ?_)
  rw [getLsbD_ofList, getLsbD_ofList, Bool.eq_iff_iff, List.any_eq_true, List.any_eq_true]
  simp only [h]

theorem union_insert (s t : FlagSet α) (a : α) : s ∪ t.insert a = (s ∪ t).insert a :=
  ext_bits (BitVec.or_assoc ..).symm

@[simp]
theorem ofList_nil : ofList ([] : List α) = ∅ := rfl

theorem ofList_concat (as : List α) (a : α) : ofList (as ++ [a]) = (ofList as).insert a :=
  List.foldl_append ..

@[simp]
theorem mem_toList (s : FlagSet α) (a : α) : a ∈ s.toList ↔ s.contains a = true := by
  simp [toList, Flag.mem_all]

theorem containsAll_insert (s : FlagSet α) (a : α) : (s.insert a).containsAll s = true := by
  refine beq_iff_eq.mpr (BitVec.eq_of_getLsbD_eq fun i _ => ?_)
  rw [insert, BitVec.getLsbD_and, BitVec.getLsbD_or]
  cases s.bits.getLsbD i
  · rw [Bool.and_false]
  · rw [Bool.true_or, Bool.and_self]

theorem contains_of_containsAll (h : s.containsAll t = true) (ha : t.contains a = true) :
    s.contains a = true := by
  have hbits : s.bits &&& t.bits = t.bits := eq_of_beq h
  rw [contains, ← hbits, BitVec.getLsbD_and, Bool.and_eq_true] at ha
  exact ha.1

theorem insert_of_contains (h : s.contains a = true) : s.insert a = s := by
  refine ext_bits (BitVec.eq_of_getLsbD_eq fun i _ => ?_)
  rw [insert, BitVec.getLsbD_or, getLsbD_mask]
  by_cases hi : i = Flag.bit a
  · rw [hi, show s.bits.getLsbD (Flag.bit a) = true from h, Bool.true_or]
  · rw [decide_eq_false hi, Bool.or_false]

end Members

end FlagSet

end TurkishMorphology
