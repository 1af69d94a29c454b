import Ringpop.MemberList

/-! A full sync in both directions. Each node sends its list as changes and absorbs
the list of the other; what is refused for being an unknown tombstone on one side is
not part of the checksum on the other. -/
namespace Ringpop.Members
open JsString Dictionary GreatestWins

/-- A standing after the other side's standing has been absorbed. -/
def absorbOption (current : Option Standing) : Option Standing → Option Standing
  | none => current
  | some offer => absorb refused current offer

/-- What the checksum shows of a standing. -/
def shown (s : Option Standing) : Option Standing := s.filter fun s => s.status ≠ .tombstone

theorem absorb_none (offer : Standing) : absorb refused none offer = shown (some offer) := by
  by_cases h : offer.status = .tombstone <;> simp [absorb, admits, refused, shown, Option.filter, h]

theorem absorbOption_some (x y : Standing) :
    absorbOption (some x) (some y) = some (max x y) :=
  absorb_some x y

theorem shown_shown (s : Option Standing) : shown (shown s) = shown s := by
  cases s with
  | none => rfl
  | some s => by_cases h : s.status = .tombstone <;> simp [shown, Option.filter, h]

/-- Both sides show the same after they have absorbed each other. -/
theorem shown_absorbOption_comm (x y : Option Standing) :
    shown (absorbOption x y) = shown (absorbOption y x) := by
  cases x with
  | none =>
    cases y with
    | none => rfl
    | some y => exact (congrArg shown (absorb_none y)).trans (shown_shown _)
  | some x =>
    cases y with
    | none => exact ((congrArg shown (absorb_none x)).trans (shown_shown _)).symm
    | some y => rw [absorbOption_some, absorbOption_some, max_comm]

/-- It makes no difference if one side has absorbed the other first. -/
theorem absorbOption_again (x y : Option Standing) :
    absorbOption y (absorbOption x y) = absorbOption y x := by
  cases y with
  | none => rfl
  | some y =>
    cases x with
    | none =>
      rw [show absorbOption none (some y) = shown (some y) from absorb_none y]
      by_cases h : y.status = .tombstone
      · simp [shown, Option.filter, h]
      · simp [shown, Option.filter, h, absorbOption, absorb_some]
    | some x =>
      rw [absorbOption_some, absorbOption_some, absorbOption_some, max_left_comm, max_self,
        max_comm]

namespace MemberList
variable {env envA envB : Env}

def membershipAsChanges (l : MemberList env) : List Update :=
  l.membership.membershipAsChanges env

/-- There is one change for each member, with its standing. -/
theorem changes_about (l : MemberList env) (a : Address) :
    (l.membershipAsChanges.filter fun c => c.address = a).map Update.standing =
      (l.view a).toList := by
  rw [membershipAsChanges, Membership.membershipAsChanges, List.filter_map, List.map_map]
  have w := l.wellFormed.toIndexed
  cases found : l.membership.membersByAddress.get a with
  | none =>
    have nothing : l.membership.members.filter
        ((fun c : Update => decide (c.address = a)) ∘ fun ref =>
          (⟨(l.membership.heap ref).address, (l.membership.heap ref).status,
            (l.membership.heap ref).incarnationNumber, none, some env.whoami, none⟩ : Update)) =
        [] := by
      refine List.filter_eq_nil_iff.mpr fun r hr h => ?_
      have := (w.index a r).mpr ⟨hr, by simpa using h⟩
      rw [found] at this
      cases this
    rw [nothing, view, Membership.view_eq_none.mpr found]
    rfl
  | some r =>
    have single : l.membership.members.filter
        ((fun c : Update => decide (c.address = a)) ∘ fun ref =>
          (⟨(l.membership.heap ref).address, (l.membership.heap ref).status,
            (l.membership.heap ref).incarnationNumber, none, some env.whoami, none⟩ : Update)) =
        [r] := by
      refine List.perm_singleton.mp ((List.perm_ext_iff_of_nodup (w.nodup.filter _)
        (List.nodup_singleton r)).mpr fun r' => ?_)
      simp only [List.mem_filter, Function.comp_apply, decide_eq_true_eq, List.mem_singleton,
        ← w.index, found, Option.some.injEq]
      exact eq_comm
    rw [single, view, Membership.view_of_get found]
    rfl

theorem view_eq_some (l : MemberList env) {a : Address} {s : Standing} :
    l.view a = some s ↔ ∃ c ∈ l.membershipAsChanges, c.address = a ∧ c.standing = s := by
  rw [← Option.mem_toList, ← l.changes_about, List.mem_map]
  simp only [List.mem_filter, decide_eq_true_eq, and_assoc]

theorem about_eq {l : MemberList envB} {batch : List (Update × Tick)}
    (list : batch.map Prod.fst = l.membershipAsChanges) (a : Address) :
    (about a batch).map Update.standing = (l.view a).toList := by
  rw [about, list, changes_about]

theorem view_sync (l : MemberList envA) (l' : MemberList envB) {batch : List (Update × Tick)}
    (list : batch.map Prod.fst = l'.membershipAsChanges) {a : Address} (other : a ≠ envA.whoami) :
    (l.update batch).view a = absorbOption (l.view a) (l'.view a) := by
  rw [l.view_update batch other]
  have standings := about_eq list a
  have fold : absorbAll refused Update.standing (l.view a) (about a batch) =
      absorbAll refused id (l.view a) ((about a batch).map Update.standing) := by
    rw [absorbAll, absorbAll, List.foldl_map]
    rfl
  rw [fold, standings]
  cases l'.view a <;> rfl

/-- The other side knows nothing of the local member that would have to be refuted. -/
def NotAhead (l : MemberList envA) (l' : MemberList envB) : Prop :=
  ∀ c ∈ l'.membershipAsChanges, c.address = envA.whoami →
    shouldProcessGossip (l.membership.findMemberByAddress envA.whoami) c = false

instance (l : MemberList envA) (l' : MemberList envB) : Decidable (l.NotAhead l') :=
  inferInstanceAs (Decidable (∀ c ∈ l'.membershipAsChanges, c.address = envA.whoami →
    shouldProcessGossip (l.membership.findMemberByAddress envA.whoami) c = false))

theorem NotAhead.le {l : MemberList envA} {l' : MemberList envB} (h : l.NotAhead l') {s : Standing}
    (known : l'.view envA.whoami = some s) : s ≤ l.localStanding := by
  obtain ⟨c, hc, address, rfl⟩ := l'.view_eq_some.mp known
  have rejected := h c hc address
  have self : (l.membership.findMemberByAddress envA.whoami).map Member.standing =
      some l.localStanding := l.view_whoami
  rw [shouldProcessGossip_eq, self, admits, decide_eq_false_iff_not, not_lt] at rejected
  exact rejected

theorem notAhead_of_le {l : MemberList envA} {l' : MemberList envB}
    (h : ∀ s, l'.view envA.whoami = some s → s ≤ l.localStanding) {batch : List (Update × Tick)}
    (list : batch.map Prod.fst = l'.membershipAsChanges) :
    ∀ change ∈ batch, change.1.address = envA.whoami → change.1.standing ≤ l.localStanding := by
  intro change hc address
  refine h _ ?_
  have mem : change.1.standing ∈ (about envA.whoami batch).map Update.standing :=
    List.mem_map_of_mem (List.mem_filter.mpr ⟨List.mem_map_of_mem hc, by simpa using address⟩)
  rw [about_eq list] at mem
  simpa using mem

/-- The list `r` of a node that had `l` and has absorbed `l'`. -/
def Synced (l : MemberList envA) (l' : MemberList envB) (r : MemberList envA) : Prop :=
  r.view envA.whoami = l.view envA.whoami ∧
    ∀ a ≠ envA.whoami, r.view a = absorbOption (l.view a) (l'.view a)

theorem synced_update {l : MemberList envA} {l' : MemberList envB} (h : l.NotAhead l')
    {batch : List (Update × Tick)} (list : batch.map Prod.fst = l'.membershipAsChanges) :
    Synced l l' (l.update batch) :=
  ⟨l.view_update_whoami (notAhead_of_le (fun _ => h.le) list),
    fun _ other => view_sync l l' list other⟩

/-- The answer of a node that has absorbed the list already changes nothing more. -/
theorem synced_update_again {l : MemberList envA} {l' r' : MemberList envB} (h : l.NotAhead l')
    (synced : Synced l' l r') {batch : List (Update × Tick)}
    (list : batch.map Prod.fst = r'.membershipAsChanges) : Synced l l' (l.update batch) := by
  have bound : ∀ s, r'.view envA.whoami = some s → s ≤ l.localStanding := by
    intro s hs
    by_cases shared : envA.whoami = envB.whoami
    · rw [shared, synced.1, ← shared] at hs
      exact h.le hs
    · rw [synced.2 _ shared, l.view_whoami] at hs
      cases known : l'.view envA.whoami with
      | none =>
        rw [known, show absorbOption none (some l.localStanding) = shown (some l.localStanding) from
          absorb_none _] at hs
        exact (Option.some.inj (Option.filter_eq_some_iff.mp hs).1).ge
      | some y =>
        rw [known, absorbOption_some, max_eq_right (h.le known)] at hs
        exact (Option.some.inj hs).ge
  refine ⟨l.view_update_whoami (notAhead_of_le bound list), fun a other => ?_⟩
  rw [view_sync l r' list other]
  by_cases remote : a = envB.whoami
  · rw [remote, synced.1]
  · rw [synced.2 a remote, absorbOption_again]

theorem absorbOption_local {y : Option Standing} {s : Standing} (le : ∀ v, y = some v → v ≤ s) :
    shown (absorbOption y (some s)) = shown (some s) := by
  cases y with
  | none => exact (congrArg shown (absorb_none s)).trans (shown_shown _)
  | some y => rw [absorbOption_some, max_eq_right (le y rfl)]

theorem Synced.agree {l r : MemberList envA} {l' r' : MemberList envB} (h : l.NotAhead l')
    (h' : l'.NotAhead l)
    (synced : Synced l l' r) (synced' : Synced l' l r') :
    r.generateChecksumString = r'.generateChecksumString := by
  have same (a : Address) : shown (r.view a) = shown (r'.view a) := by
    by_cases here : a = envA.whoami <;> by_cases there : a = envB.whoami
    · have own : l.view a = some l.localStanding := here ▸ l.view_whoami
      have own' : l'.view a = some l'.localStanding := there ▸ l'.view_whoami
      rw [here, synced.1, ← here, there, synced'.1, ← there, own, own',
        le_antisymm (h'.le (there ▸ own)) (h.le (here ▸ own'))]
    · subst here
      rw [synced.1, synced'.2 _ there, l.view_whoami]
      exact (absorbOption_local fun v => h.le).symm
    · subst there
      rw [synced'.1, synced.2 _ here, l'.view_whoami]
      exact absorbOption_local fun v => h'.le
    · rw [synced.2 a here, synced'.2 a there, shown_absorbOption_comm]
  refine Membership.generateChecksumString_congr r.wellFormed.toIndexed r'.wellFormed.toIndexed
    fun a s listed => ?_
  have mem (v : Option Standing) : v = some s ↔ shown v = some s := by
    rw [shown, Option.filter_eq_some_iff, decide_eq_true_eq]
    exact (and_iff_left listed).symm
  rw [mem (r.membership.view a), mem (r'.membership.view a)]
  exact (congrArg (· = some s) (same a)).to_iff

/-- In each of the three orders of the two transfers the checksum strings meet. -/
theorem fullSync_agree (a : MemberList envA) (b : MemberList envB) (notAhead : a.NotAhead b)
    (notAhead' : b.NotAhead a) (fromA fromB fromA₁ fromB₁ : List (Update × Tick))
    (listA : fromA.map Prod.fst = a.membershipAsChanges)
    (listB : fromB.map Prod.fst = b.membershipAsChanges)
    (listA₁ : fromA₁.map Prod.fst = (a.update fromB).membershipAsChanges)
    (listB₁ : fromB₁.map Prod.fst = (b.update fromA).membershipAsChanges) :
    (a.update fromB).generateChecksumString = (b.update fromA).generateChecksumString ∧
      (a.update fromB).generateChecksumString = (b.update fromA₁).generateChecksumString ∧
      (a.update fromB₁).generateChecksumString = (b.update fromA).generateChecksumString := by
  have syncedA := synced_update notAhead listB
  have syncedB := synced_update notAhead' listA
  exact ⟨syncedA.agree notAhead notAhead' syncedB,
    syncedA.agree notAhead notAhead' (synced_update_again notAhead' syncedA listA₁),
    (synced_update_again notAhead syncedB listB₁).agree notAhead notAhead' syncedB⟩

/-- Two nodes that accuse each other, and disagree about a third. -/
theorem fullSync_agree_accusations :
    let tick : Tick := ⟨7, [], 0⟩
    let about (address : String) (own : str address ∉ objectPrototype) (status : Status) (inc : ℤ) :
        Update × Tick := (⟨.of address own, status, inc, none, none, none⟩, tick)
    let a := (alone (Env.sample (.of "a:1" (by decide))) tick).update
      [about "b:1" (by decide) .suspect 5, about "c:1" (by decide) .faulty 3]
    let b := (alone (Env.sample (.of "b:1" (by decide))) tick).update
      [about "a:1" (by decide) .faulty 6, about "c:1" (by decide) .alive 3]
    (a.update (b.membershipAsChanges.map (·, tick))).generateChecksumString =
      (b.update (a.membershipAsChanges.map (·, tick))).generateChecksumString := by
  intro tick about a b
  have list (changes : List Update) : (changes.map (·, tick)).map Prod.fst = changes := by
    simp [Function.comp_def]
  exact (fullSync_agree a b (by decide +kernel) (by decide +kernel) _ _ _ _ (list _) (list _)
    (list _) (list _)).1

end MemberList
end Ringpop.Members
