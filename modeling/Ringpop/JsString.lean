import Mathlib.Data.List.Lex
import Mathlib.Data.List.Sort
import Mathlib.Data.Fin.Basic
import Mathlib.Algebra.Order.Ring.Int
import Mathlib.Data.Nat.Digits.Defs
import Mathlib.Tactic.Common

/-! Strings of JavaScript: sequences of 16-bit code units, compared code unit by
code unit, and the few operations on them that the modelled code uses. -/
namespace Ringpop.JsString

abbrev Str := List (Fin 65536)

def ofChars (chars : List Char) : Str := chars.map fun c => Fin.ofNat 65536 c.toNat

/-- A literal of the source; all of them are ASCII. -/
def str (s : String) : Str := ofChars s.toList

def natString (n : ℕ) : Str := ofChars (Nat.toDigits 10 n)

/-- The decimal form of an integer of magnitude below `10 ^ 21`. -/
def intString : ℤ → Str
  | .ofNat n => natString n
  | .negSucc n => str "-" ++ natString (n + 1)

def join (separator : Str) : List Str → Str
  | [] => []
  | [s] => s
  | s :: rest => s ++ separator ++ join separator rest

/-- The properties that every object inherits from `Object.prototype`. -/
def objectPrototype : List Str :=
  ["__defineGetter__", "__defineSetter__", "__lookupGetter__", "__lookupSetter__", "__proto__",
    "constructor", "hasOwnProperty", "isPrototypeOf", "propertyIsEnumerable", "toLocaleString",
    "toString", "valueOf"].map str

def isDigit (c : Fin 65536) : Bool := 48 ≤ c.val && c.val ≤ 57

theorem char_lt {n : ℕ} {c : Char} (h : c ∈ Nat.toDigits 10 n) :
    48 ≤ c.toNat ∧ c.toNat ≤ 57 :=
  Char.isDigit_iff_toNat.mp (Nat.isDigit_of_mem_toDigits (by omega) (by omega) h)

theorem isDigit_of_mem_natString {n : ℕ} {c : Fin 65536} (h : c ∈ natString n) :
    isDigit c = true := by
  obtain ⟨char, digit, rfl⟩ := List.mem_map.mp h
  have bounds := char_lt digit
  have small : char.toNat % 65536 = char.toNat := Nat.mod_eq_of_lt (by omega)
  simp [isDigit, Fin.ofNat, small, bounds]

theorem natString_ne_nil (n : ℕ) : natString n ≠ [] := by
  simp [natString, ofChars, Nat.toDigits_ne_nil]

theorem natString_injective : Function.Injective natString := by
  -- the digits are read back from their code units
  have back (n : ℕ) : (natString n).map (fun c => Char.ofNat c.val) = Nat.toDigits 10 n := by
    rw [natString, ofChars, List.map_map]
    refine (List.map_congr_left fun c hc => ?_).trans (List.map_id _)
    have small : c.toNat % 65536 = c.toNat := Nat.mod_eq_of_lt (by have := char_lt hc; omega)
    simp [Fin.ofNat, small]
  intro n m h
  rw [← Nat.ofDigitChars_ten_toDigits (n := n), ← Nat.ofDigitChars_ten_toDigits (n := m), ← back,
    ← back, h]

/-- The number named by an array index, a canonical decimal below `2 ^ 32 - 1`. -/
def arrayIndex (s : Str) : Option ℕ :=
  let value := s.foldl (fun n c => 10 * n + (c.val - 48)) 0
  if s.all isDigit && natString value == s && decide (value < 2 ^ 32 - 1) then some value else none

/-- The order of `Object.keys`: array indices in ascending order, then the others by age. -/
def propertyOrder {κ : Type} (name : κ → Str) (keys : List κ) : List κ :=
  (keys.filter fun k => (arrayIndex (name k)).isSome).insertionSort
      (fun a b => (arrayIndex (name a)).getD 0 ≤ (arrayIndex (name b)).getD 0) ++
    keys.filter fun k => (arrayIndex (name k)).isNone

theorem mem_propertyOrder {κ : Type} {name : κ → Str} {keys : List κ} {k : κ} :
    k ∈ propertyOrder name keys ↔ k ∈ keys := by
  rw [propertyOrder, List.mem_append, List.mem_insertionSort, List.mem_filter, List.mem_filter]
  cases arrayIndex (name k) <;> simp

theorem nodup_propertyOrder {κ : Type} {name : κ → Str} {keys : List κ} (nodup : keys.Nodup) :
    (propertyOrder name keys).Nodup := by
  refine List.nodup_append.mpr ⟨?_, nodup.filter _, ?_⟩
  · exact (List.perm_insertionSort _ _).nodup_iff.mpr (nodup.filter _)
  · rintro a ha b hb rfl
    rw [List.mem_insertionSort, List.mem_filter] at ha
    have := (List.mem_filter.mp hb).2
    cases h : arrayIndex (name a) <;> simp [h] at ha this

def sort (names : List Str) : List Str := names.insertionSort (· ≤ ·)

theorem sort_eq_of_perm {names others : List Str} (h : names.Perm others) :
    sort names = sort others :=
  List.Perm.eq_of_pairwise' (List.pairwise_insertionSort (· ≤ ·) names)
    (List.pairwise_insertionSort (· ≤ ·) others)
    (((List.perm_insertionSort _ names).trans h).trans (List.perm_insertionSort _ others).symm)

end Ringpop.JsString
