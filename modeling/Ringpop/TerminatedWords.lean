import Mathlib.Data.List.Basic
import Mathlib.Tactic.Common

/-! Words of a list, each closed by a separator that occurs in none of them. -/
namespace Ringpop.TerminatedWords

variable {α β : Type} {sep : β} {word : α → List β} {xs ys : List α}

def close (sep : β) (word : α → List β) (xs : List α) : List β :=
  xs.flatMap fun x => word x ++ [sep]

theorem close_cons (x : α) (xs : List α) :
    close sep word (x :: xs) = word x ++ sep :: close sep word xs := by
  simp [close]

theorem cancel {u v rest rest' : List β} (free : sep ∉ u) (free' : sep ∉ v)
    (h : u ++ sep :: rest = v ++ sep :: rest') : u = v ∧ rest = rest' := by
  induction u generalizing v with
  | nil =>
    cases v with
    | nil => exact ⟨rfl, (List.cons.inj h).2⟩
    | cons c v => exact absurd (List.cons.inj h).1 (List.ne_of_not_mem_cons free')
  | cons c u ih =>
    cases v with
    | nil => exact absurd (List.cons.inj h).1.symm (List.ne_of_not_mem_cons free)
    | cons d v =>
      obtain ⟨rfl, tail⟩ := List.cons.inj h
      obtain ⟨rfl, rest⟩ := ih (List.not_mem_of_not_mem_cons free)
        (List.not_mem_of_not_mem_cons free') tail
      exact ⟨rfl, rest⟩

/-- The list can be read back when its words can. -/
theorem close_injective (free : ∀ x ∈ xs, sep ∉ word x) (free' : ∀ y ∈ ys, sep ∉ word y)
    (reads : ∀ x ∈ xs, ∀ y ∈ ys, word x = word y → x = y)
    (h : close sep word xs = close sep word ys) : xs = ys := by
  induction xs generalizing ys with
  | nil =>
    cases ys with
    | nil => rfl
    | cons y ys => simp [close] at h
  | cons x xs ih =>
    cases ys with
    | nil => simp [close] at h
    | cons y ys =>
      rw [close_cons, close_cons] at h
      rw [List.forall_mem_cons] at free free'
      obtain ⟨words, tail⟩ := cancel free.1 free'.1 h
      obtain rfl : x = y := reads x List.mem_cons_self y List.mem_cons_self words
      have reads' : ∀ a ∈ xs, ∀ b ∈ ys, word a = word b → a = b := fun a ha b hb =>
        reads a (List.mem_cons_of_mem _ ha) b (List.mem_cons_of_mem _ hb)
      rw [ih free.2 free'.2 reads' tail]

variable (sep word) in
theorem close_concat (nonempty : xs ≠ []) : ∃ body, close sep word xs = body ++ [sep] := by
  obtain ⟨front, last, rfl⟩ := (List.eq_nil_or_concat xs).resolve_left nonempty
  exact ⟨close sep word front ++ word last, by simp [close]⟩

theorem dropLast_close_ne_nil (nonempty : xs ≠ []) (words : ∀ x ∈ xs, word x ≠ []) :
    (close sep word xs).dropLast ≠ [] := by
  obtain ⟨x, rest, rfl⟩ := List.exists_cons_of_ne_nil nonempty
  obtain ⟨c, tail, first⟩ := List.exists_cons_of_ne_nil (words x List.mem_cons_self)
  have more : tail ++ sep :: close sep word rest ≠ [] := by simp
  rw [close_cons, first, List.cons_append, List.dropLast_cons_of_ne_nil more]
  exact List.cons_ne_nil _ _

/-- The last separator may be left out, unless some word is empty. -/
theorem dropLast_close_injective (free : ∀ x ∈ xs, sep ∉ word x)
    (free' : ∀ y ∈ ys, sep ∉ word y) (words : ∀ x, word x ≠ [])
    (reads : ∀ x ∈ xs, ∀ y ∈ ys, word x = word y → x = y)
    (h : (close sep word xs).dropLast = (close sep word ys).dropLast) : xs = ys := by
  by_cases none : xs = []
  · by_contra differs
    subst none
    exact dropLast_close_ne_nil (Ne.symm differs) (fun y _ => words y) h.symm
  · by_cases none' : ys = []
    · subst none'
      exact absurd h (dropLast_close_ne_nil none fun x _ => words x)
    · obtain ⟨body, first⟩ := close_concat sep word none
      obtain ⟨body', second⟩ := close_concat sep word none'
      rw [first, second, List.dropLast_concat, List.dropLast_concat] at h
      exact close_injective free free' reads (by rw [first, second, h])

end Ringpop.TerminatedWords
