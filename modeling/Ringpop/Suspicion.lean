import Ringpop.Cluster
import Ringpop.Runs

/-! Who is to blame for an accusation: some instance has suspected that very incarnation, or
the member has accused itself. -/
namespace Ringpop.Members
open JsString Dictionary

namespace Cluster
variable (setup : Setup) (events : List (Address × PeerEvent))

/-- In the course of a run an instance suspects an incarnation of a member, or asks another
to do so. -/
def Suspected (a : Address) (incarnationNumber : ℤ) : Prop :=
  ∃ before event rest, events = before ++ event :: rest ∧
    (∀ e ∈ event.2.receives, e ∈ (run setup before).messages ∧ e.receiver = event.1) ∧
    (a, incarnationNumber) ∈
      ((run setup before).peer event.1).suspects (setup.config event.1) event.2

/-- A standing that somebody answers for. -/
inductive Accountable (announced : Address → List Standing) (a : Address) : Standing → Prop
  | announced {s : Standing} (said : s ∈ announced a) : Accountable announced a s
  | confessed {s : Standing} {status : Status} (said : s ∈ announced a)
      (confession : isAccusation s.status = true) (accusation : isAccusation status = true) :
      Accountable announced a ⟨s.incarnationNumber, status⟩
  | suspected {incarnationNumber : ℤ} {status : Status}
      (suspected : Suspected setup events a incarnationNumber)
      (accusation : isAccusation status = true) :
      Accountable announced a ⟨incarnationNumber, status⟩

variable {setup events}

/-- An accusation stands for every later one of the same incarnation. -/
theorem Accountable.escalate {announced : Address → List Standing} {a : Address}
    {incarnationNumber : ℤ} {before later : Status}
    (accountable : Accountable setup events announced a ⟨incarnationNumber, before⟩)
    (accused : isAccusation before = true) (accusation : isAccusation later = true) :
    Accountable setup events announced a ⟨incarnationNumber, later⟩ := by
  cases accountable with
  | announced said => exact .confessed said accused accusation
  | confessed said confession _ => exact .confessed said confession accusation
  | suspected suspected _ => exact .suspected suspected accusation

theorem accountable_voucher : Voucher (Accountable setup events) where
  mono grows a s accountable := by
    cases accountable with
    | announced said => exact .announced (grows a said)
    | confessed said confession accusation => exact .confessed (grows a said) confession accusation
    | suspected suspected accusation => exact .suspected suspected accusation
  said s := .announced s
  escalates _ :=
    { faulty := fun _ _ accountable => accountable.escalate rfl rfl
      tombstone := fun _ _ accountable => accountable.escalate rfl rfl }

theorem accountable_run (setup : Setup) (events : List (Address × PeerEvent)) :
    Vouched setup (Accountable setup events) (run setup events) := by
  have blamed : Runs.Throughout (step setup)
      (fun c event => (∀ e ∈ event.2.receives, e ∈ c.messages ∧ e.receiver = event.1) →
        ∀ x ∈ (c.peer event.1).suspects (setup.config event.1) event.2,
          Suspected setup events x.1 x.2) (new setup) events :=
    .of_splits fun before event rest split enabled x suspected =>
      ⟨before, event, rest, split, enabled, suspected⟩
  refine blamed.foldl_invariant (Vouched setup (Accountable setup events)) ?_ (vouched_new setup _)
  intro c event vouched blame
  exact vouched.step accountable_voucher event fun enabled x suspected _ _ =>
    .suspected (blame enabled x suspected) rfl

/-- Whatever happens, and whatever the network does: what is believed, recorded, stashed or on
its way about a member is what the member has announced, or accuses an incarnation that the
member has accused itself, or one that an instance has suspected in the course of the run. -/
theorem run_accountable (setup : Setup) (events : List (Address × PeerEvent)) :
    let c := run setup events
    (∀ a b s, c.view b a = some s → Accountable setup events c.announced a s) ∧
      (∀ b, (c.peer b).node.Sourced (Accountable setup events c.announced)) ∧
      ∀ e ∈ c.messages, e.Vouched (Accountable setup events c.announced) := by
  intro c
  have vouched := accountable_run setup events
  exact ⟨fun a b s => vouched.view, fun b => (vouched.sound b).sourced, vouched.messages⟩

end Cluster
end Ringpop.Members
