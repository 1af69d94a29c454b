import Ringpop.RingRouting
import Ringpop.MemberList
import Ringpop.TerminatedWords

/-! The checksum string as a digest of the member list. Address, status and incarnation
are glued together, so an entry is read from the right: digits, a status, the address. -/
namespace Ringpop.Members
open JsString TerminatedWords Ringpop.Ring

def semicolon : Fin 65536 := ⟨';'.toNat, by decide⟩

/-- The address holds no `;`. -/
def Address.plain (a : Address) : Bool := a.name.all fun c => c.val != ';'.toNat

def minus (negative : Bool) : Str := if negative then str "-" else []

theorem intString_eq (i : ℤ) : intString i = minus (decide (i < 0)) ++ natString i.natAbs := by
  cases i with
  | ofNat n =>
    have natural : ¬ Int.ofNat n < 0 := Int.not_lt.mpr (Int.natCast_nonneg n)
    rw [decide_eq_false natural]
    rfl
  | negSucc n =>
    rw [decide_eq_true (Int.negSucc_lt_zero n)]
    rfl

/-- The letters between the address and the digits. -/
def letters (status : Status) (negative : Bool) : Str := status.name ++ minus negative

theorem letters_last (status : Status) (negative : Bool) :
    ∃ front c, letters status negative = front ++ [c] ∧ isDigit c = false := by
  have nonempty : letters status negative ≠ [] := by
    cases status <;> cases negative <;> decide
  refine ⟨_, _, (List.dropLast_concat_getLast nonempty).symm, ?_⟩
  cases status <;> cases negative <;> decide +revert

/-- No letters are the end of others. -/
theorem letters_suffix {u u' : Str} {s s' : Status} {n n' : Bool}
    (h : u ++ letters s n = u' ++ letters s' n') : u = u' ∧ s = s' ∧ n = n' := by
  have ends (u : Str) (s : Status) (n : Bool) :
      (u ++ letters s n).reverse.take 4 = (letters s n).reverse.take 4 := by
    have long : 4 ≤ (letters s n).reverse.length := by cases s <;> cases n <;> decide
    rw [List.reverse_append, List.take_append_of_le_length long]
  have same : (letters s n).reverse.take 4 = (letters s' n').reverse.take 4 := by
    rw [← ends u, ← ends u', h]
  have known : s = s' ∧ n = n' := by
    revert same
    cases s <;> cases n <;> cases s' <;> cases n' <;> decide
  obtain ⟨rfl, rfl⟩ := known
  exact ⟨List.append_cancel_right h, rfl, rfl⟩

theorem digits_suffix {u u' v v' : Str} {c c' : Fin 65536} (last : isDigit c = false)
    (last' : isDigit c' = false) (digits : ∀ d ∈ v, isDigit d = true)
    (digits' : ∀ d ∈ v', isDigit d = true) (h : u ++ [c] ++ v = u' ++ [c'] ++ v') :
    u ++ [c] = u' ++ [c'] ∧ v = v' := by
  have inside {u u' v : Str} {c c' : Fin 65536} (mid : Str) (last' : isDigit c' = false)
      (digits : ∀ d ∈ v, isDigit d = true) (rest : Str) (front : u' ++ [c'] = u ++ [c] ++ mid)
      (back : v = mid ++ rest) : mid = [] := by
    rcases List.eq_nil_or_concat mid with none | ⟨before, d, rfl⟩
    · exact none
    · rw [List.concat_eq_append, ← List.append_assoc] at front
      obtain rfl := (List.append_singleton_inj.mp front).2
      have digit := digits c' (by simp [back])
      rw [last'] at digit
      cases digit
  rcases List.append_eq_append_iff.mp h with ⟨mid, front, back⟩ | ⟨mid, front, back⟩
  · obtain rfl := inside mid last' digits v' front back
    exact ⟨by simpa using front.symm, back⟩
  · obtain rfl := inside mid last digits' v front back
    exact ⟨by simpa using front, back.symm⟩

/-- An entry without its semicolon. -/
def listingWord (entry : Address × Standing) : Str :=
  entry.1.name ++ entry.2.status.name ++ intString entry.2.incarnationNumber

theorem listingWord_eq (entry : Address × Standing) :
    listingWord entry =
      entry.1.name ++ letters entry.2.status (decide (entry.2.incarnationNumber < 0)) ++
        natString entry.2.incarnationNumber.natAbs := by
  simp only [listingWord, intString_eq, letters, List.append_assoc]

theorem listingWord_injective : Function.Injective listingWord := by
  rintro ⟨a, i, s⟩ ⟨a', i', s'⟩ h
  rw [listingWord_eq, listingWord_eq] at h
  obtain ⟨front, c, split, last⟩ := letters_last s (decide (i < 0))
  obtain ⟨front', c', split', last'⟩ := letters_last s' (decide (i' < 0))
  simp only [split, split', ← List.append_assoc] at h
  obtain ⟨names, digits⟩ := digits_suffix last last'
    (fun _ => isDigit_of_mem_natString) (fun _ => isDigit_of_mem_natString) h
  rw [List.append_assoc, List.append_assoc, ← split, ← split'] at names
  obtain ⟨name, rfl, sign⟩ := letters_suffix names
  obtain rfl := Address.name_injective name
  have absolute := natString_injective digits
  rw [decide_eq_decide] at sign
  obtain rfl : i = i' := by omega
  rfl

theorem listingWord_ne_nil (entry : Address × Standing) : listingWord entry ≠ [] := by
  rw [listingWord_eq]
  simp [natString_ne_nil]

theorem semicolon_notMem {entry : Address × Standing} (plain : entry.1.plain = true) :
    semicolon ∉ listingWord entry := by
  rw [listingWord_eq, List.mem_append, List.mem_append]
  rintro ((h | h) | h)
  · have := List.all_eq_true.mp plain _ h
    revert this
    decide
  · revert h
    cases entry.2.status <;> cases decide (entry.2.incarnationNumber < 0) <;> decide
  · have := isDigit_of_mem_natString h
    revert this
    decide

namespace Membership

/-- The checksum string of a list of members. -/
def checksumString (entries : List (Address × Standing)) : Str :=
  ((listed entries).flatMap listingEntry).dropLast

theorem generateChecksumString_eq (m : Membership) :
    m.generateChecksumString = checksumString m.entries := by
  rw [generateChecksumString_listing, listing_eq, checksumString]

/-- All addresses of the list are free of `;`. -/
def Plain (entries : List (Address × Standing)) : Prop :=
  ∀ entry ∈ entries, entry.1.plain = true

instance (entries : List (Address × Standing)) : Decidable (Plain entries) :=
  inferInstanceAs (Decidable (∀ entry ∈ entries, _))

section
variable {es es' : List (Address × Standing)}

theorem listed_eq_iff (distinct : (es.map Prod.fst).Nodup) (distinct' : (es'.map Prod.fst).Nodup) :
    listed es = listed es' ↔ ∀ a s, s.status ≠ .tombstone → ((a, s) ∈ es ↔ (a, s) ∈ es') := by
  constructor
  · intro h a s kept
    have shown : (a, s) ∈ listed es ↔ (a, s) ∈ es ∧ s.status ≠ .tombstone := mem_listed
    rw [h, mem_listed] at shown
    exact (and_congr_left_iff.mp shown kept).symm
  · intro same
    refine (pairwise_listed distinct).eq_of_mem_iff (pairwise_listed distinct') fun entry => ?_
    rw [mem_listed, mem_listed]
    exact and_congr_left (same entry.1 entry.2)

theorem checksumString_eq_iff (distinct : (es.map Prod.fst).Nodup)
    (distinct' : (es'.map Prod.fst).Nodup) (plain : Plain es) (plain' : Plain es') :
    checksumString es = checksumString es' ↔
      ∀ a s, s.status ≠ .tombstone → ((a, s) ∈ es ↔ (a, s) ∈ es') := by
  rw [← listed_eq_iff distinct distinct']
  have closed (es : List (Address × Standing)) :
      checksumString es = (close semicolon listingWord (listed es)).dropLast := rfl
  rw [closed, closed]
  constructor
  · exact dropLast_close_injective
      (fun entry h => semicolon_notMem (plain entry (mem_listed.mp h).1))
      (fun entry h => semicolon_notMem (plain' entry (mem_listed.mp h).1)) listingWord_ne_nil
      fun _ _ _ _ same => listingWord_injective same
  · intro h
    rw [h]

end

variable {m m' : Membership}

/-- The servers of the ring are the members of the list that are alive or suspect. -/
def Serves (m : Membership) (ring : HashRing) : Prop :=
  ∀ name, ring.servers.has name = true ↔ ∃ a s, (a, s) ∈ m.entries ∧ a.name = name ∧
    (s.status = .alive ∨ s.status = .suspect)

theorem Serves.has_eq {ring ring' : HashRing} (serves : m.Serves ring)
    (serves' : m'.Serves ring')
    (same : ∀ a s, s.status ≠ .tombstone → ((a, s) ∈ m.entries ↔ (a, s) ∈ m'.entries))
    (name : Str) : ring.servers.has name = ring'.servers.has name := by
  rw [Bool.eq_iff_iff, serves name, serves' name]
  refine exists_congr fun a => exists_congr fun s => ?_
  by_cases tombstone : s.status = .tombstone
  · simp [tombstone]
  · rw [same a s tombstone]

/-- Equal strings are equal lists but for tombstones and order, and equal rings. -/
theorem generateChecksumString_faithful (m m' : Membership)
    (distinct : (m.entries.map Prod.fst).Nodup) (distinct' : (m'.entries.map Prod.fst).Nodup)
    (plain : Plain m.entries) (plain' : Plain m'.entries) :
    (m.generateChecksumString = m'.generateChecksumString ↔
      ∀ a s, s.status ≠ .tombstone → ((a, s) ∈ m.entries ↔ (a, s) ∈ m'.entries)) ∧
    (m.generateChecksumString = m'.generateChecksumString → ∀ (o : Options) (ops ops' : List Op),
      m.Serves (run o ops).1 → m'.Serves (run o ops').1 →
        (∀ s, (run o ops).1.servers.has s = (run o ops').1.servers.has s) ∧
        (run o ops).1.points = (run o ops').1.points ∧
        (∀ key, (run o ops).1.lookup o key = (run o ops').1.lookup o key) ∧
        ∀ key n, (run o ops).1.lookupN o key n = (run o ops').1.lookupN o key n) := by
  rw [generateChecksumString_eq, generateChecksumString_eq]
  have lists := checksumString_eq_iff distinct distinct' plain plain'
  refine ⟨lists, fun h o ops ops' serves serves' => ?_⟩
  have servers := serves.has_eq serves' (lists.mp h)
  have c := HashRing.consistent_run o ops
  have c' := HashRing.consistent_run o ops'
  have points := c.points_eq c' servers
  have count : (run o ops).1.getServerCount = (run o ops').1.getServerCount :=
    (Dictionary.Dict.keys_perm servers).length_eq
  refine ⟨servers, points, fun key => ?_, fun key n => ?_⟩
  · rw [HashRing.lookup_eq, HashRing.lookup_eq, points]
  · rw [c.lookupN_walk, c'.lookupN_walk, points, count]

theorem generateChecksumString_faithful_reordered :
    let env := Env.sample (.of "a:1" (by decide))
    let member (address : Address) (status : Status) (inc : ℤ) : Member :=
      .ofUpdate env ⟨address, status, inc, none, none, none⟩
    let a := member env.whoami .alive 7
    let b := member (.of "b:1" (by decide)) .faulty 12
    let c := member (.of "c:1" (by decide)) .tombstone 3
    let m := ((new env).insertMember 0 a).insertMember 1 b
    let m' := (((new env).insertMember 0 b).insertMember 0 c).insertMember 2 a
    m.generateChecksumString = str "a:1alive7;b:1faulty12" ∧
      m'.generateChecksumString = m.generateChecksumString ∧
      ∀ a s, s.status ≠ .tombstone → ((a, s) ∈ m.entries ↔ (a, s) ∈ m'.entries) := by
  intro env member a b c m m'
  have same : m.generateChecksumString = m'.generateChecksumString := by decide
  exact ⟨by decide, same.symm, (generateChecksumString_faithful m m' (by decide) (by decide)
    (by decide) (by decide)).1.mp same⟩

end Membership
end Ringpop.Members
