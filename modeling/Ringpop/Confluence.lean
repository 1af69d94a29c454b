import Ringpop.MemberList

/-! Gossip is confluent: the changes that reach a node decide its member list,
and the order, the batches and the repetitions in which they arrive do not. -/
namespace Ringpop.Members
open JsString Dictionary GreatestWins

namespace MemberList
variable {env : Env}

def updateAll (l : MemberList env) (batches : List (List (Update × Tick))) : MemberList env :=
  batches.foldl update l

theorem about_append (a : Address) (first second : List (Update × Tick)) :
    about a (first ++ second) = about a first ++ about a second := by
  rw [about, List.map_append, List.filter_append]
  rfl

theorem view_updateAll (l : MemberList env) (batches : List (List (Update × Tick))) {a : Address}
    (other : a ≠ env.whoami) :
    (l.updateAll batches).view a =
      absorbAll refused Update.standing (l.view a) (about a batches.flatten) := by
  induction batches generalizing l with
  | nil => rfl
  | cons batch batches ih =>
    rw [updateAll, List.foldl_cons, List.flatten_cons, about_append, absorbAll_append,
      ← l.view_update batch other]
    exact ih (l.update batch)

theorem view_updateAll_whoami (l : MemberList env) {batches : List (List (Update × Tick))}
    (other : ∀ change ∈ batches.flatten, change.1.address ≠ env.whoami) :
    (l.updateAll batches).view env.whoami = l.view env.whoami := by
  induction batches generalizing l with
  | nil => rfl
  | cons batch batches ih =>
    rw [List.flatten_cons, List.forall_mem_append] at other
    rw [updateAll, List.foldl_cons,
      ← l.view_update_whoami fun change hc self => absurd self (other.1 change hc)]
    exact ih (l.update batch) other.2

theorem mem_about {a : Address} {changes : List (Update × Tick)} {u : Update} :
    u ∈ about a changes ↔ u ∈ changes.map Prod.fst ∧ u.address = a := by
  rw [about, List.mem_filter, decide_eq_true_eq]

/-- A member's standing is the greatest of its old one and all that was heard. -/
theorem view_updateAll_greatest (l : MemberList env) {changes : List Update}
    (other : ∀ c ∈ changes, c.address ≠ env.whoami)
    (known : ∀ c ∈ changes, c.status = .tombstone → l.view c.address ≠ none)
    {batches : List (List (Update × Tick))}
    (covers : ∀ c, c ∈ batches.flatten.map Prod.fst ↔ c ∈ changes) (a : Address) :
    (l.updateAll batches).view a =
      greatest Update.standing (l.view a) (changes.filter fun c => c.address = a) := by
  have same : ∀ c, c ∈ about a batches.flatten ↔ c ∈ changes.filter fun c => c.address = a := by
    intro c
    rw [mem_about, covers, List.mem_filter, decide_eq_true_eq]
  by_cases self : a = env.whoami
  · subst self
    have quiet : ∀ change ∈ batches.flatten, change.1.address ≠ env.whoami := fun change hc =>
      other _ ((covers _).mp (List.mem_map_of_mem hc))
    have nothing : (changes.filter fun c => c.address = env.whoami) = [] :=
      List.filter_eq_nil_iff.mpr fun c hc => by simpa using other c hc
    rw [l.view_updateAll_whoami quiet, nothing, l.view_whoami]
    rfl
  · have welcome : Welcome refused Update.standing (l.view a) (about a batches.flatten) := by
      intro absent c hc
      obtain ⟨hc, address⟩ := mem_about.mp hc
      rw [refused, decide_eq_false_iff_not]
      intro tombstone
      exact known c ((covers c).mp hc) tombstone (address ▸ absent)
    rw [l.view_updateAll batches self, absorbAll_eq_greatest welcome, greatest_congr same]

theorem generateChecksumString_congr {env' : Env} (l : MemberList env) (l' : MemberList env')
    (same : ∀ a s, s.status ≠ .tombstone → (l.view a = some s ↔ l'.view a = some s)) :
    l.generateChecksumString = l'.generateChecksumString :=
  Membership.generateChecksumString_congr l.wellFormed.toIndexed l'.wellFormed.toIndexed same

theorem updateAll_confluent (l : MemberList env) (changes : List Update)
    (other : ∀ c ∈ changes, c.address ≠ env.whoami)
    (known : ∀ c ∈ changes, c.status = .tombstone → l.view c.address ≠ none)
    (batches batches' : List (List (Update × Tick)))
    (covers : ∀ c, c ∈ batches.flatten.map Prod.fst ↔ c ∈ changes)
    (covers' : ∀ c, c ∈ batches'.flatten.map Prod.fst ↔ c ∈ changes) :
    (∀ a, (l.updateAll batches).view a =
        greatest Update.standing (l.view a) (changes.filter fun c => c.address = a)) ∧
      (∀ a, (l.updateAll batches').view a = (l.updateAll batches).view a) ∧
      (l.updateAll batches').generateChecksumString =
        (l.updateAll batches).generateChecksumString := by
  have first := l.view_updateAll_greatest other known covers
  have second := l.view_updateAll_greatest other known covers'
  have same : ∀ a, (l.updateAll batches').view a = (l.updateAll batches).view a :=
    fun a => (second a).trans (first a).symm
  exact ⟨first, same, generateChecksumString_congr _ _ fun a s _ => by rw [same]⟩

theorem updateAll_confluent_two_orders :
    let env := Env.sample (.of "a:1" (by decide))
    let b := Address.of "b:1" (by decide)
    let l := alone env ⟨7, [], 0⟩
    let alive : Update × Tick := (⟨b, .alive, 3, none, none, none⟩, ⟨8, [], 0⟩)
    let faulty : Update × Tick := (⟨b, .faulty, 3, none, none, none⟩, ⟨9, [], 0⟩)
    (l.updateAll [[faulty, alive]]).generateChecksumString =
      (l.updateAll [[alive], [alive, faulty]]).generateChecksumString := by
  intro env b l alive faulty
  exact (updateAll_confluent l [alive.1, faulty.1] (by decide) (by decide)
    [[alive], [alive, faulty]] [[faulty, alive]] (fun c => by simp)
    (fun c => by simp [or_comm])).2.2

end MemberList
end Ringpop.Members
