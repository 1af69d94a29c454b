import Ringpop.MemberList

/-! What a node says about itself. Every local status change and every answer to
a rumour is stamped with the clock, and the stamp alone decides whether the rest
of the cluster takes the new standing over the earlier ones. -/
namespace Ringpop.Members
open JsString Dictionary GreatestWins

/-- The statements about one member that carry a standing. -/
def rumourOf (env : Env) (s : Standing) : Update :=
  ⟨env.whoami, s.status, s.incarnationNumber, none, none, none⟩

/-- A node that believes `q` about the member takes a rumour of `p`. -/
def overrides (env : Env) (p q : Standing) : Bool :=
  shouldProcessGossip (some (.ofUpdate env (rumourOf env q))) (rumourOf env p)

theorem overrides_iff {env : Env} {p q : Standing} : overrides env p q = true ↔ q < p := by
  rw [overrides, shouldProcessGossip_eq]
  exact decide_eq_true_iff

inductive LocalEvent where
  | setLocalStatus (status : Status) (tick : Tick)
  | update (changes : List (Update × Tick))

def LocalEvent.readings : LocalEvent → List ℤ
  | .setLocalStatus _ tick => [tick.now]
  | .update changes => changes.map fun change => change.2.now

/-- A standing that is published. It has to win when it is a new status or answers `rumour`. -/
structure Announcement where
  standing : Standing
  rumour : Option Standing
  mustWin : Bool

def Announcement.Wins (env : Env) (earlier : List Standing) (a : Announcement) : Prop :=
  a.mustWin = true →
    (∀ q ∈ earlier, q.status ≠ a.standing.status → overrides env a.standing q = true) ∧
      ∀ r, a.rumour = some r → overrides env a.standing r = true

def AllWin (env : Env) : List Standing → List Announcement → Prop
  | _, [] => True
  | earlier, a :: rest => a.Wins env earlier ∧ AllWin env (a.standing :: earlier) rest

/-- The standings of the local member in the `updated` events. -/
def published (env : Env) (events : List MembershipEvent) : List Standing :=
  events.flatMap fun
    | .updated updates => (updates.filter fun u => u.address = env.whoami).map Update.standing
    | _ => []

namespace MemberList
variable {env : Env}

def setLocalStatus (l : MemberList env) (tick : Tick) (status : Status) : MemberList env where
  membership := (l.membership.setLocalStatus env tick status).1
  ref := l.membership.localRef
  wellFormed := (l.wellFormed.setLocalStatus tick status).1
  known := (l.wellFormed.setLocalStatus tick status).2.1

theorem localStanding_setLocalStatus (l : MemberList env) (tick : Tick) (status : Status) :
    (l.setLocalStatus tick status).localStanding = ⟨tick.now, status⟩ := by
  have view := (l.wellFormed.setLocalStatus tick status).2.2.1 env.whoami
  rw [if_pos rfl] at view
  exact Option.some.inj ((l.setLocalStatus tick status).view_whoami.symm.trans view)

def apply (l : MemberList env) : LocalEvent → MemberList env × List MembershipEvent
  | .setLocalStatus status tick =>
    (l.setLocalStatus tick status, (l.membership.setLocalStatus env tick status).2)
  | .update changes => (l.update changes, (l.membership.update env true changes).2.2)

def announcements (l : MemberList env) : LocalEvent → List Announcement
  | .setLocalStatus status tick =>
    [⟨⟨tick.now, status⟩, none, decide (status ≠ l.localStanding.status)⟩]
  | .update changes =>
    (refutations env.whoami l.localStanding changes).map fun answer =>
      ⟨answer.1, some answer.2, true⟩

theorem published_damping {damping : List MembershipEvent}
    (h : ∀ e ∈ damping, e.isDamping = true) : published env damping = [] := by
  refine List.flatMap_eq_nil_iff.mpr fun e he => ?_
  have := h e he
  cases e <;> first | rfl | cases this

/-- The announcements are what an event publishes. -/
theorem published_apply (l : MemberList env) (event : LocalEvent) :
    published env (l.apply event).2 = (l.announcements event).map Announcement.standing := by
  cases event with
  | setLocalStatus status tick =>
    obtain ⟨-, -, -, u, checksum, old, address, standing, events⟩ :=
      l.wellFormed.setLocalStatus tick status
    have quiet : published env (l.membership.leaving status) = [] := by
      rw [Membership.leaving, l.known]
      simp only
      split <;> rfl
    simp only [apply, announcements, events]
    rw [published, List.flatMap_append]
    change published env (l.membership.leaving status) ++ _ = _
    rw [quiet]
    simp [address, standing]
  | update changes =>
    obtain ⟨applied, damping, checksum, old, quiet, events⟩ := l.wellFormed.update l.known changes
    have own := applied.own
    simp only [apply, announcements, events]
    rw [published, List.flatMap_append]
    change published env damping ++ published env _ = _
    rw [published_damping quiet, List.nil_append, List.map_map, Membership.announce]
    split
    case isTrue idle =>
      rw [idle] at own
      exact own
    case isFalse => simpa [published, Function.comp_def, localStanding] using own

/-- All that is published in a run, in order. -/
def history : MemberList env → List LocalEvent → List Announcement
  | _, [] => []
  | l, event :: rest => l.announcements event ++ history (l.apply event).1 rest

def emitted : MemberList env → List LocalEvent → List MembershipEvent
  | _, [] => []
  | l, event :: rest => (l.apply event).2 ++ emitted (l.apply event).1 rest

theorem published_emitted (l : MemberList env) (events : List LocalEvent) :
    published env (l.emitted events) = (l.history events).map Announcement.standing := by
  induction events generalizing l with
  | nil => rfl
  | cons event rest ih =>
    have first := l.published_apply event
    have later := ih (l.apply event).1
    rw [published] at first later ⊢
    rw [emitted, history, List.flatMap_append, first, later, List.map_append]

/-- A status stamped `now` takes precedence over a standing. -/
def ClockAhead (now : ℤ) (status : Status) (s : Standing) : Prop :=
  s.incarnationNumber < now ∨
    s.incarnationNumber = now ∧ statusPrecedence s.status < statusPrecedence status

/-- The clock is ahead of the standing that an event replaces and of the rumours it answers. -/
def Ahead (l : MemberList env) : LocalEvent → Prop
  | .setLocalStatus status tick =>
    status = l.localStanding.status ∨ ClockAhead tick.now status l.localStanding
  | .update changes => ∀ answer ∈ refutations env.whoami l.localStanding changes,
      ClockAhead answer.1.incarnationNumber l.localStanding.status answer.2

def AheadRun : MemberList env → List LocalEvent → Prop
  | _, [] => True
  | l, event :: rest => l.Ahead event ∧ AheadRun (l.apply event).1 rest

/-- The current standing has been published and no earlier one beats it. -/
def Latest (s : Standing) (earlier : List Standing) : Prop := s ∈ earlier ∧ ∀ q ∈ earlier, q ≤ s

theorem Latest.cons {s p : Standing} {earlier : List Standing} (latest : Latest s earlier)
    (le : s ≤ p) : Latest p (p :: earlier) :=
  ⟨List.mem_cons_self, List.forall_mem_cons.mpr ⟨le_rfl, fun q hq => (latest.2 q hq).trans le⟩⟩

theorem allWin_append {earlier : List Standing} {first second : List Announcement} :
    AllWin env earlier (first ++ second) ↔
      AllWin env earlier first ∧
        AllWin env ((first.map Announcement.standing).reverse ++ earlier) second := by
  induction first generalizing earlier with
  | nil => simp [AllWin]
  | cons a first ih => simp [AllWin, ih, and_assoc]

/-- The answers in one batch win exactly when the clock is ahead of each rumour. -/
theorem answers_win (env : Env) {s : Standing} {earlier : List Standing} (latest : Latest s earlier)
    (changes : List (Update × Tick)) :
    (AllWin env earlier ((refutations env.whoami s changes).map
        fun answer => ⟨answer.1, some answer.2, true⟩) ↔
      ∀ answer ∈ refutations env.whoami s changes, answer.2 < answer.1) ∧
    ((∀ answer ∈ refutations env.whoami s changes, answer.2 < answer.1) →
      Latest (answered s (refutations env.whoami s changes))
        (((refutations env.whoami s changes).map Prod.fst).reverse ++ earlier)) := by
  induction changes generalizing s earlier with
  | nil => exact ⟨by simp [refutations, AllWin], fun _ => latest⟩
  | cons change rest ih =>
    obtain ⟨change, tick⟩ := change
    rw [refutations]
    split
    case isFalse => exact ih latest
    case isTrue taken =>
      by_cases ahead : change.standing < ⟨tick.now, s.status⟩
      · have newer : s < ⟨tick.now, s.status⟩ := taken.2.trans ahead
        obtain ⟨wins, next⟩ := ih (latest.cons newer.le)
        constructor
        · simp only [List.map_cons, AllWin, wins, List.forall_mem_cons, ahead, true_and]
          refine and_iff_right fun _ => ⟨fun q hq _ => ?_, fun r hr => ?_⟩
          · exact overrides_iff.mpr ((latest.2 q hq).trans_lt newer)
          · obtain rfl := Option.some.inj hr
            exact overrides_iff.mpr ahead
        · intro all
          rw [answered_cons, List.map_cons, List.reverse_cons, List.append_assoc]
          exact next (List.forall_mem_cons.mp all).2
      · have fails : ¬ ∀ answer ∈ ((⟨tick.now, s.status⟩, change.standing) : Standing × Standing) ::
            refutations env.whoami ⟨tick.now, s.status⟩ rest, answer.2 < answer.1 :=
          fun all => ahead (all _ List.mem_cons_self)
        refine ⟨iff_of_false (fun all => ?_) fails, fun all => absurd all fails⟩
        exact ahead (overrides_iff.mp ((all.1 rfl).2 _ rfl))

theorem ahead_iff (l : MemberList env) (changes : List (Update × Tick)) :
    l.Ahead (.update changes) ↔
      ∀ answer ∈ refutations env.whoami l.localStanding changes, answer.2 < answer.1 := by
  refine forall₂_congr fun answer h => ?_
  rw [Standing.lt_iff, status_refutations answer h]
  rfl

theorem event_wins (l : MemberList env) {earlier : List Standing}
    (latest : Latest l.localStanding earlier) (event : LocalEvent)
    (clock : ∀ t ∈ event.readings, l.localStanding.incarnationNumber ≤ t) :
    (AllWin env earlier (l.announcements event) ↔ l.Ahead event) ∧
      (l.Ahead event → Latest (l.apply event).1.localStanding
        (((l.announcements event).map Announcement.standing).reverse ++ earlier)) := by
  cases event with
  | setLocalStatus status tick =>
    have now : (l.apply (.setLocalStatus status tick)).1.localStanding = ⟨tick.now, status⟩ :=
      l.localStanding_setLocalStatus tick status
    have ahead (h : ClockAhead tick.now status l.localStanding) :
        l.localStanding < ⟨tick.now, status⟩ := Standing.lt_iff.mpr h
    rw [now]
    simp only [announcements, AllWin, Announcement.Wins, and_true, decide_eq_true_eq, List.map_cons,
      List.map_nil, List.reverse_singleton, List.singleton_append, overrides_iff, reduceCtorEq,
      false_implies, implies_true, Ahead]
    by_cases same : status = l.localStanding.status
    · refine ⟨iff_of_true (fun differs => absurd same differs) (Or.inl same), fun _ => ?_⟩
      refine latest.cons (Standing.le_iff.mpr ?_)
      rcases (clock tick.now List.mem_cons_self).lt_or_eq with less | equal
      · exact Or.inl less
      · exact Or.inr ⟨equal, by rw [same]⟩
    · simp only [same, false_or, ne_eq, not_false_eq_true, true_implies]
      refine ⟨⟨fun wins => ?_, fun h q hq _ => ?_⟩, fun h => latest.cons (ahead h).le⟩
      · exact Standing.lt_iff.mp (wins l.localStanding latest.1 (Ne.symm same))
      · exact (latest.2 q hq).trans_lt (ahead h)
  | update changes =>
    obtain ⟨wins, next⟩ := answers_win env latest changes
    rw [ahead_iff]
    refine ⟨wins, fun h => ?_⟩
    have local' := l.localStanding_update changes
    simp only [apply, announcements, List.map_map, local']
    exact next h

theorem stamp_answered (whoami : Address) (s : Standing) (changes : List (Update × Tick)) :
    (answered s (refutations whoami s changes)).incarnationNumber = s.incarnationNumber ∨
      (answered s (refutations whoami s changes)).incarnationNumber ∈
        (LocalEvent.update changes).readings := by
  induction changes generalizing s with
  | nil => exact Or.inl rfl
  | cons change rest ih =>
    obtain ⟨change, tick⟩ := change
    rw [refutations]
    split
    · rw [answered_cons]
      rcases ih ⟨tick.now, s.status⟩ with h | h
      · exact Or.inr (by rw [h]; exact List.mem_cons_self)
      · exact Or.inr (List.mem_cons_of_mem _ h)
    · exact (ih s).imp_right (List.mem_cons_of_mem _)

theorem stamp_apply (l : MemberList env) (event : LocalEvent) :
    (l.apply event).1.localStanding.incarnationNumber = l.localStanding.incarnationNumber ∨
      (l.apply event).1.localStanding.incarnationNumber ∈ event.readings := by
  cases event with
  | setLocalStatus status tick =>
    right
    have now : (l.apply (.setLocalStatus status tick)).1.localStanding = ⟨tick.now, status⟩ :=
      l.localStanding_setLocalStatus tick status
    rw [now]
    exact List.mem_cons_self
  | update changes =>
    have now : (l.apply (.update changes)).1.localStanding =
        answered l.localStanding (refutations env.whoami l.localStanding changes) :=
      l.localStanding_update changes
    rw [now]
    exact stamp_answered env.whoami l.localStanding changes

/-- In a run with a clock that never goes backwards, everything the node says
about itself wins exactly when the clock was ahead each time. -/
theorem history_wins_iff (l : MemberList env) {earlier : List Standing}
    (latest : Latest l.localStanding earlier) (events : List LocalEvent)
    (clock : (l.localStanding.incarnationNumber ::
      events.flatMap LocalEvent.readings).Pairwise (· ≤ ·)) :
    AllWin env earlier (l.history events) ↔ l.AheadRun events := by
  induction events generalizing l earlier with
  | nil => exact Iff.rfl
  | cons event rest ih =>
    rw [List.flatMap_cons, ← List.cons_append, List.pairwise_append] at clock
    obtain ⟨first, later, order⟩ := clock
    obtain ⟨wins, next⟩ := l.event_wins latest event (List.pairwise_cons.mp first).1
    have clock' : ((l.apply event).1.localStanding.incarnationNumber ::
        rest.flatMap LocalEvent.readings).Pairwise (· ≤ ·) := by
      refine List.pairwise_cons.mpr ⟨fun t ht => ?_, later⟩
      rcases l.stamp_apply event with h | h
      · exact order _ (h ▸ List.mem_cons_self) t ht
      · exact order _ (List.mem_cons_of_mem _ h) t ht
    rw [history, allWin_append, AheadRun, wins]
    exact and_congr_right fun ahead => ih _ (next ahead) clock'

theorem alone_history_wins_iff (env : Env) (tick : Tick) (events : List LocalEvent)
    (clock : (tick.now :: events.flatMap LocalEvent.readings).Pairwise (· ≤ ·)) :
    AllWin env [(alone env tick).localStanding] ((alone env tick).history events) ↔
      (alone env tick).AheadRun events := by
  have now : (alone env tick).localStanding = ⟨tick.now, .alive⟩ := by
    have view := (alone env tick).view_whoami
    rw [view_alone, if_pos rfl] at view
    exact (Option.some.inj view).symm
  exact history_wins_iff (alone env tick) ⟨List.mem_singleton_self _, by simp⟩ events
    (by rw [now]; exact clock)

theorem alone_history_wins_later :
    let env := Env.sample (.of "a:1" (by decide))
    let events : List LocalEvent :=
      [.setLocalStatus .leave ⟨8, [], 0⟩, .setLocalStatus .alive ⟨9, [], 0⟩]
    AllWin env [(alone env ⟨7, [], 0⟩).localStanding] ((alone env ⟨7, [], 0⟩).history events) ↔
      (alone env ⟨7, [], 0⟩).AheadRun events :=
  alone_history_wins_iff _ _ _ (by decide)

/-- A leave and a rejoin within one millisecond: the rejoin is ignored. -/
theorem alone_history_same_tick :
    let env := Env.sample (.of "a:1" (by decide))
    let events : List LocalEvent :=
      [.setLocalStatus .leave ⟨8, [], 0⟩, .setLocalStatus .alive ⟨8, [], 0⟩]
    ¬ AllWin env [(alone env ⟨7, [], 0⟩).localStanding]
      ((alone env ⟨7, [], 0⟩).history events) := by
  intro env events wins
  exact absurd ((wins.2.1 (by decide)).1 ⟨8, .leave⟩ (by decide) (by decide)) (by decide)

end MemberList
end Ringpop.Members
