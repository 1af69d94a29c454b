import Ringpop.Cluster

/-! An owner and the rumours about it. With a clock that moves on, nobody is ahead of a
member, and an accusation that reaches it is answered by a standing that beats all others. -/
namespace Ringpop.Members
open JsString Dictionary GreatestWins RecordedChange

namespace Membership
variable {env : Env} {m : Membership}

/-- What a list publishes of its own member names that member as the source. -/
theorem source_processChanges (w : WellFormed env m) {ref : ℕ} (known : m.localMember = some ref)
    (changes : List (Update × Tick)) : ∀ u ∈ (processChanges env m changes).2.1,
      u.address = env.whoami → u.source = some env.whoami := by
  induction changes generalizing m with
  | nil => exact List.forall_mem_nil _
  | cons change rest ih =>
    obtain ⟨change, tick⟩ := change
    rw [processChanges]
    cases takes : m.takes change with
    | false =>
      rw [processChange_skip takes]
      exact ih w known
    | true =>
      by_cases self : change.address = env.whoami
      · rw [w.processChange_local known tick takes self]
        have step := (w.reincarnate known tick).1
        refine List.forall_mem_cons.mpr
          ⟨fun _ => ?_, ih step.wellFormed (step.localMember.trans known)⟩
        simp [Membership.reincarnate, Update.new, Membership.write, w.local_address known]
      · obtain ⟨m₁, events, run, step, -⟩ := w.processChange_other tick takes self
        rw [run]
        exact List.forall_mem_cons.mpr ⟨fun about => absurd about self,
          ih step.wellFormed (step.localMember.trans known)⟩

end Membership

/-- A list of changes that says more of the local member than it is gets an answer. -/
theorem refutations_ne_nil {whoami : Address} {s : Standing} {changes : List (Update × Tick)}
    {u : Update} (hu : u ∈ changes.map Prod.fst) (self : u.address = whoami)
    (accused : s < u.standing) : refutations whoami s changes ≠ [] := by
  induction changes with
  | nil => cases hu
  | cons change rest ih =>
    obtain ⟨change, tick⟩ := change
    rw [refutations]
    split
    case isTrue => exact List.cons_ne_nil _ _
    case isFalse quiet =>
      rcases List.mem_cons.mp hu with rfl | later
      · exact absurd ⟨self, accused⟩ quiet
      · exact ih later

/-- What is recorded and not used up is handed out, unless it is filtered. -/
theorem mem_issueAs_of_get {maxPiggybackCount : ℕ} {filterChange : Update → Bool}
    {changes : Dict Address RecordedChange} {a : Address} {r : RecordedChange}
    (recorded : changes.get a = some r) (kept : filterChange r.change = false)
    (fresh : r.piggybackCount < maxPiggybackCount) :
    r.change ∈ (issueAs maxPiggybackCount filterChange changes).2 := by
  have grows (issued : Dict Address RecordedChange × List Update) (key : Address) :
      issued.2 ⊆ (issueChange maxPiggybackCount filterChange issued key).2 := by
    unfold issueChange
    repeat' split
    all_goals simp
  have along (keys : List Address) (issued : Dict Address RecordedChange × List Update)
      (here : issued.1.get a = some r) (waits : a ∈ keys ∨ r.change ∈ issued.2) :
      r.change ∈ (keys.foldl (issueChange maxPiggybackCount filterChange) issued).2 := by
    induction keys generalizing issued with
    | nil => exact waits.resolve_left List.not_mem_nil
    | cons key keys ih =>
      refine ih _ ?_ ?_
      · rw [issueChange_get, here, Option.filter_some, RecordedChange.kept]
        simp [fresh]
      · by_cases now : key = a
        · right
          rw [now, issueChange, here]
          simp [kept, Nat.not_le_of_lt fresh]
        · refine waits.imp (fun later => ?_) fun out => grows issued key out
          exact (List.mem_cons.mp later).resolve_left fun same => now same.symm
  refine along _ (changes, []) recorded (.inl ?_)
  rw [mem_objectKeys, Dict.has, recorded]
  rfl

namespace Node
variable {env : Env} {node : Node}

/-- A ready node believes at least what it is told, and never less than before. -/
theorem Heard.le {node' : Node} {changes : List (Update × Tick)}
    (heard : Heard env node node' changes) {a : Address} (remote : a ≠ env.whoami) :
    (∀ s, node.view a = some s → ∃ s', node'.view a = some s' ∧ s ≤ s') ∧
      ∀ u ∈ changes.map Prod.fst, u.address = a → (node.view a = none → u.status ≠ .tombstone) →
        ∃ s', node'.view a = some s' ∧ u.standing ≤ s' := by
  have after : node'.view a =
      absorbAll refused Update.standing (node.view a) (about a changes) := by
    rw [heard.view a remote, absorbAll_eq_getLast]
    rfl
  refine ⟨fun s known => ?_, fun u hu address live => ?_⟩
  · rw [after, known]
    exact le_absorbAll _ _
  · rw [after]
    have listed : u ∈ about a changes := List.mem_filter.mpr ⟨hu, by simpa using address⟩
    exact offer_le_absorbAll listed fun unknown => decide_eq_false (live unknown)

/-- A ready node that hears of a standing of its own above its own reincarnates, and the
change that says so waits to be handed out. -/
theorem Inv.refutes (inv : Inv env node) (ready : node.isReady = true) {s : Standing}
    (own : node.view env.whoami = some s) {changes : List (Update × Tick)} {u : Update}
    (hu : u ∈ changes.map Prod.fst) (self : u.address = env.whoami) (accused : s < u.standing) :
    let node' := node.update env changes
    ∃ r, node'.changes.get env.whoami = some ⟨r, 0⟩ ∧ r.address = env.whoami ∧
      r.source = some env.whoami ∧ r.status = s.status ∧
      node'.view env.whoami = some r.standing ∧
      (node.announces env (.update changes)).getLast? = some r.standing := by
  intro node'
  obtain ⟨ref, known⟩ := inv.started ready
  obtain ⟨applied, damping, checksum, old, quiet, events⟩ := inv.wellFormed.update known changes
  have standing : node.membership.localStanding ref = s :=
    Option.some.inj ((inv.wellFormed.view_whoami known).symm.trans own)
  have performed : node.performs env (.update changes) =
      ((Membership.update env true node.membership changes).1,
        (Membership.update env true node.membership changes).2.2) := by
    rw [Node.performs, performs.updates, ready]
  have reports : reported (node.performs env (.update changes)).2 =
      (Membership.update env true node.membership changes).2.1 := by
    rw [performed, events, reported_append, reported_damping quiet, reported_announce]
    rfl
  have some : (reportedAbout env.whoami (node.performs env (.update changes)).2) ≠ [] := by
    intro none
    rw [reportedAbout, reports] at none
    have silent := applied.own
    rw [none, standing] at silent
    exact refutations_ne_nil hu self accused (List.map_eq_nil_iff.mp silent.symm)
  obtain ⟨r, last⟩ := Option.ne_none_iff_exists'.mp fun none =>
    some (List.getLast?_eq_none_iff.mp none)
  have listed := List.mem_of_getLast? last
  have about : r.address = env.whoami := by simpa using (List.mem_filter.mp listed).2
  have emitted := apply_performs env node (.update changes)
  have belief := inv.accounts (.update changes) env.whoami
  refine ⟨r, ?_, about, ?_, ?_, ?_, ?_⟩
  · refine (congrArg (fun changes => Dict.get changes env.whoami) emitted.changes).trans ?_
    rw [get_recorded]
    change ((reportedAbout env.whoami _).getLast?.map _).or _ = _
    rw [last]
    rfl
  · have mentioned := (List.mem_filter.mp listed).1
    rw [reports] at mentioned
    by_cases none : changes = []
    · subst none
      cases hu
    · rw [Membership.update_ready env _ none] at mentioned
      simp only at mentioned
      split at mentioned <;>
        exact Membership.source_processChanges inv.wellFormed known changes r mentioned about
  · rw [reportedAbout, reports] at listed
    have status := applied.own_status listed
    rw [standing] at status
    exact status
  · cases belief with
    | evicted remote | joined remote => exact absurd rfl remote
    | told belief =>
      refine belief.last.trans ?_
      rw [last]
      rfl
  · rw [announces, List.getLast?_map, last]
    rfl

end Node

/-- Between any two announcements the clock has moved on. -/
def Advancing (announced : List Standing) : Prop :=
  announced.Pairwise fun s t => s.incarnationNumber < t.incarnationNumber

instance (announced : List Standing) : Decidable (Advancing announced) :=
  inferInstanceAs (Decidable (announced.Pairwise _))

theorem Advancing.le_last {announced : List Standing} (advancing : Advancing announced)
    {e last : Standing} (said : e ∈ announced) (latest : announced.getLast? = some last) :
    e.incarnationNumber < last.incarnationNumber ∨ e = last := by
  obtain ⟨before, rfl⟩ := List.getLast?_eq_some_iff.mp latest
  rcases List.mem_append.mp said with earlier | here
  · exact .inl ((List.pairwise_append.mp advancing).2.2 e earlier last List.mem_cons_self)
  · exact .inr (List.mem_singleton.mp here)

/-- What was founded before an announcement is older than it. -/
theorem Founded.lt_next {announced : Address → List Standing} {a : Address} {s next : Standing}
    (founded : Founded announced a s) {more : List Standing}
    (advancing : Advancing (announced a ++ more)) (later : next ∈ more) : s < next := by
  obtain ⟨e, said, same, -⟩ := founded.source
  have less := (List.pairwise_append.mp advancing).2.2 e said next later
  exact Standing.lt_iff.mpr (.inl (same ▸ less))

namespace Peer
variable {config : PeerConfig} {p : Peer}

/-- A ready instance believes at least what it is told. -/
theorem le_update (inv : Node.Inv config.members p.node) (ready : p.node.isReady = true)
    {changes : List Update} {u : Update} (hu : u ∈ changes)
    (remote : u.address ≠ config.members.whoami) (live : u.status ≠ .tombstone)
    (tick : ℕ → Tick) :
    ∃ s, (p.update config changes tick).node.view u.address = some s ∧ u.standing ≤ s :=
  ((inv.heard ready (timed tick changes)).le remote).2 u ((map_timed tick changes).symm ▸ hu)
    rfl fun _ => live

/-- The answer to a ping hands out the change that has just been recorded. -/
theorem mem_issueAsReceiver {senderAddr : Address} {a : Address} {r : RecordedChange}
    (recorded : p.node.changes.get a = some r) (other : r.change.source ≠ some senderAddr)
    (fresh : r.piggybackCount < p.dissemination.maxPiggybackCount)
    (senderIncarnationNumber senderChecksum : Option ℤ) :
    r.change ∈
      (p.issueAsReceiver config senderAddr senderIncarnationNumber senderChecksum).2.1 := by
  have kept : filterChange senderAddr senderIncarnationNumber r.change = false := by
    simp [filterChange, other]
  have issued := mem_issueAs_of_get recorded kept fresh
  have some := List.length_pos_of_mem issued
  have partly : ¬ ((issueAs p.dissemination.maxPiggybackCount
      (filterChange senderAddr senderIncarnationNumber) p.node.changes).2.length = 0 ∧
        p.node.membership.checksum ≠ senderChecksum) := fun none => by omega
  simp only [issueAsReceiver, Dissemination.issueAsReceiver]
  rw [if_neg (by simpa [node] using partly)]
  exact issued

theorem issueAsReceiver_keeps (config : PeerConfig) (p : Peer) (senderAddr : Address)
    (senderIncarnationNumber senderChecksum : Option ℤ) :
    let p' := (p.issueAsReceiver config senderAddr senderIncarnationNumber senderChecksum).1
    p'.announced = p.announced ∧ ∀ a, p'.node.view a = p.node.view a := by
  refine ⟨?_, fun a => ?_⟩ <;> simp only [issueAsReceiver]
  rfl

theorem tryStartReverseFullSync_keeps (config : PeerConfig) (p : Peer) (target : Address) :
    (p.tryStartReverseFullSync config target).1.announced = p.announced ∧
      (p.tryStartReverseFullSync config target).1.node = p.node := by
  unfold tryStartReverseFullSync
  split <;> exact ⟨rfl, rfl⟩

/-- A ping that is accepted is an update, and its answer is issued after it. -/
theorem handlePing_ok {body : Option PingBody} {source : Address} {changes : List Update}
    {checksum : ℤ} {sourceIncarnationNumber : Option ℤ}
    (checked : p.checkPing config body = .ok (source, changes, checksum, sourceIncarnationNumber))
    (tick : ℕ → Tick) :
    (p.handlePing config body tick).1.announced = (p.update config changes tick).announced ∧
      (∀ a, (p.handlePing config body tick).1.node.view a =
        (p.update config changes tick).node.view a) ∧
      (p.handlePing config body tick).2.1 =
        .ok ((p.update config changes tick).issueAsReceiver config source
          sourceIncarnationNumber checksum).2.1 := by
  obtain ⟨announced, view⟩ := issueAsReceiver_keeps config (p.update config changes tick) source
    sourceIncarnationNumber checksum
  simp only [handlePing, checked]
  split
  case isTrue =>
    obtain ⟨announced', node⟩ := tryStartReverseFullSync_keeps config
      ((p.update config changes tick).issueAsReceiver config source sourceIncarnationNumber
        checksum).1 source
    exact ⟨announced'.trans announced, fun a => node ▸ view a, rfl⟩
  case isFalse => exact ⟨announced, view, rfl⟩

/-- A ping that accuses its target is answered with a new incarnation. -/
theorem refutes_ping (inv : Node.Inv config.members p.node) {body : PingBody} {source : Address}
    {changes : List Update} {checksum : ℤ} {sourceIncarnationNumber : Option ℤ}
    (checked : p.checkPing config (some body) =
      .ok (source, changes, checksum, sourceIncarnationNumber))
    (remote : source ≠ config.members.whoami) {s : Standing}
    (own : p.node.view config.members.whoami = some s) {u : Update} (hu : u ∈ changes)
    (about : u.address = config.members.whoami) (accused : s < u.standing)
    (disseminates : 0 < p.dissemination.maxPiggybackCount) (tick : ℕ → Tick) :
    let handled := p.handlePing config (some body) tick
    ∃ r issued, handled.2.1 = .ok issued ∧ r ∈ issued ∧ r.address = config.members.whoami ∧
      r.status = s.status ∧ handled.1.node.view config.members.whoami = some r.standing ∧
      ∃ more, handled.1.announced = p.announced ++ more ∧ r.standing ∈ more := by
  intro handled
  obtain ⟨ready, -⟩ := checkPing_ok checked
  have heard : u ∈ (timed tick changes).map Prod.fst := (map_timed tick changes).symm ▸ hu
  obtain ⟨r, recorded, address, reason, status, believed, announces⟩ :=
    inv.refutes ready own heard about accused
  obtain ⟨announced, view, answers⟩ := handlePing_ok checked tick
  refine ⟨r, _, answers, ?_, address, status, (view _).trans believed, _, announced,
    List.mem_of_getLast? announces⟩
  have updated : (p.update config changes tick).node.changes.get config.members.whoami =
      some ⟨r, 0⟩ := recorded
  have other : r.source ≠ some source := by
    rw [reason]
    exact fun same => remote (Option.some.inj same).symm
  exact mem_issueAsReceiver updated other disseminates _ _

end Peer

namespace Cluster
variable {setup : Setup} {c : Cluster}

theorem peer_step (setup : Setup) {a : Address} {event : PeerEvent}
    (enabled : ∀ e ∈ event.receives, e ∈ c.messages ∧ e.receiver = a) :
    (c.step setup (a, event)).peer a =
        ((c.peer a).step (setup.config a) setup.logarithm event).1 ∧
      (∀ b ≠ a, (c.step setup (a, event)).peer b = c.peer b) ∧
      (c.step setup (a, event)).messages =
        c.messages ++ ((c.peer a).step (setup.config a) setup.logarithm event).2 := by
  have step : c.step setup (a, event) =
      { peer := Function.update c.peer a
          ((c.peer a).step (setup.config a) setup.logarithm event).1
        messages := c.messages ++
          ((c.peer a).step (setup.config a) setup.logarithm event).2 } := if_pos enabled
  rw [step]
  exact ⟨Function.update_self _ _ _, fun b other => Function.update_of_ne other _ _, rfl⟩

theorem messages_after (events : List (Address × PeerEvent)) :
    c.messages ⊆ (c.after setup events).messages := by
  induction events generalizing c with
  | nil => exact List.Subset.refl _
  | cons event events ih =>
    refine List.Subset.trans ?_ ih
    rcases step_cases setup c event with idle | ⟨-, step⟩
    · rw [idle]
      exact List.Subset.refl _
    · rw [step]
      exact List.subset_append_left _ _

theorem run_after (events more : List (Address × PeerEvent)) :
    (run setup events).after setup more = run setup (events ++ more) :=
  List.foldl_append.symm

/-- If the clock of a member has moved on between its announcements, nobody believes a newer
incarnation of it than its latest, which is what it believes of itself; and who believes that
one believes what the member says or accuses it. -/
theorem run_newest (setup : Setup) (events : List (Address × PeerEvent)) {a : Address}
    (advancing : Advancing ((run setup events).announced a)) :
    let c := run setup events
    ∀ b s, c.view b a = some s → ∃ last, (c.announced a).getLast? = some last ∧
      (∀ own, c.view a a = some own → own = last) ∧
      (s.incarnationNumber < last.incarnationNumber ∨ s = last ∨
        s.incarnationNumber = last.incarnationNumber ∧ isAccusation s.status = true) := by
  intro c b s known
  have honest := honest_run setup events
  obtain ⟨e, said, same, made⟩ := (honest.toVouched.view known).source
  obtain ⟨last, latest⟩ := Option.ne_none_iff_exists'.mp fun none =>
    List.ne_nil_of_mem said (List.getLast?_eq_none_iff.mp none)
  refine ⟨last, latest, fun own self => ?_, ?_⟩
  · have aware := honest.aware a own
    rw [setup.whoami] at aware
    exact Option.some.inj ((aware self).symm.trans latest)
  · rcases advancing.le_last said latest with older | rfl
    · exact .inl (same ▸ older)
    · exact .inr (made.imp id fun accusation => ⟨same.symm, accusation⟩)

theorem run_newest_restart :
    let a := Address.of "a:1" (by decide)
    let setup : Setup := ⟨fun x => ⟨Env.sample x, ⟨none, none, none⟩, str "app", false, false, [],
      5⟩, fun _ => 1, fun _ => rfl⟩
    let c := run setup [(a, .setLocalStatus .alive ⟨1, [], 0⟩), (a, .restart),
      (a, .setLocalStatus .alive ⟨2, [], 0⟩)]
    ∀ b s, c.view b a = some s → s.incarnationNumber < 2 ∨ s = ⟨2, .alive⟩ ∨
      s.incarnationNumber = 2 ∧ isAccusation s.status = true := by
  intro a setup c b s known
  have advancing : Advancing (c.announced a) := by decide
  obtain ⟨last, latest, -, older⟩ := run_newest setup _ advancing b s known
  obtain rfl : ⟨2, .alive⟩ = last := by
    have now : (c.announced a).getLast? = some ⟨2, .alive⟩ := by decide
    exact Option.some.inj (now.symm.trans latest)
  exact older

/-- A ping brings its target a rumour that beats what the target is. The target reincarnates
with its old status, above everything that anybody believes or has sent about it, and
whenever its answer arrives, the one that has pinged it believes at least that. -/
theorem run_refuted (setup : Setup) (events : List (Address × PeerEvent)) {a : Address}
    {ping : Envelope} {body : PingBody} {tick : ℕ → Tick}
    (sent : ping ∈ (run setup events).messages) (receiver : ping.receiver = a)
    (message : ping.message = .ping body) {source : Address} {changes : List Update}
    {checksum : ℤ} {sourceIncarnationNumber : Option ℤ}
    (checked : ((run setup events).peer a).checkPing (setup.config a) (some body) =
      .ok (source, changes, checksum, sourceIncarnationNumber)) (remote : source ≠ a)
    {s : Standing} (own : (run setup events).view a a = some s) (live : s.status ≠ .tombstone)
    {u : Update} (hu : u ∈ changes) (about : u.address = a) (accused : s < u.standing)
    (disseminates : 0 < ((run setup events).peer a).dissemination.maxPiggybackCount)
    (advancing : Advancing
      (((run setup events).step setup (a, .receive ping tick)).announced a)) :
    let c := run setup events
    let c' := c.step setup (a, .receive ping tick)
    ∃ refutation answer, c'.view a a = some refutation ∧ refutation.status = s.status ∧
      (∀ b ≠ a, ∀ t, c'.view b a = some t → t < refutation) ∧
      (∀ e ∈ c.messages, ∀ v ∈ e.message.updates, v.address = a → v.standing < refutation) ∧
      answer ∈ c'.messages ∧ answer.receiver = ping.sender ∧
      (ping.sender ≠ a → ∀ more tick', ((c'.after setup more).peer ping.sender).node.isReady →
        ∃ t, ((c'.after setup more).step setup (ping.sender, .receive answer tick')).view
          ping.sender a = some t ∧ refutation ≤ t) := by
  intro c c'
  have honest := honest_run setup events
  have inv := (honest.sound a).current.inv
  have who := setup.whoami a
  have enabled : ∀ e ∈ (PeerEvent.receive ping tick).receives, e ∈ c.messages ∧ e.receiver = a :=
    List.forall_mem_singleton.mpr ⟨sent, receiver⟩
  obtain ⟨here, others, messages⟩ := peer_step setup enabled
  obtain ⟨r, issued, answers, listed, address, status, believed, more, announced, later⟩ :=
    Peer.refutes_ping inv checked (who.symm ▸ remote) (who.symm ▸ own) hu (about.trans who.symm)
      accused disseminates tick
  rw [who] at address believed
  have received : (c.peer a).step (setup.config a) setup.logarithm (.receive ping tick) =
      (((c.peer a).handlePing (setup.config a) (some body) tick).1,
        Peer.reply ping .pingAnswer ((c.peer a).handlePing (setup.config a) (some body) tick).2.1 ++
          ((c.peer a).handlePing (setup.config a) (some body) tick).2.2) := by
    rw [Peer.step, Peer.receive, message]
  rw [received] at here messages
  rw [answers] at messages
  have grown : c'.announced a = c.announced a ++ more :=
    (congrArg Peer.announced here).trans announced
  rw [grown] at advancing
  have answered : (⟨ping.receiver, ping.sender, .pingAnswer issued⟩ : Envelope) ∈ c'.messages :=
    messages ▸ List.mem_append_right _ (List.mem_append_left _ List.mem_cons_self)
  refine ⟨r.standing, _, ?_, status, fun b other t known => ?_, fun e he v hv self => ?_,
    answered, rfl, fun elsewhere more tick' awake => ?_⟩
  · rw [Cluster.view, here]
    exact believed
  · rw [Cluster.view, others b other] at known
    exact (honest.toVouched.view known).lt_next advancing later
  · have said := honest.messages e he v hv
    rw [Update.Vouched, self] at said
    exact said.lt_next advancing later
  · have arrives : ∀ e ∈ (PeerEvent.receive ⟨ping.receiver, ping.sender, .pingAnswer issued⟩
        tick').receives, e ∈ (c'.after setup more).messages ∧ e.receiver = ping.sender :=
      List.forall_mem_singleton.mpr ⟨messages_after more answered, rfl⟩
    have moved := (peer_step setup arrives).1
    have honest' : Honest setup (c'.after setup more) :=
      Runs.foldl_invariant (step setup) (Honest setup) (fun _ event honest => honest.step event)
        (honest.step _) more
    have away : r.address ≠ (setup.config ping.sender).members.whoami := by
      rw [address, setup.whoami]
      exact elsewhere.symm
    rw [← address, Cluster.view, moved]
    exact Peer.le_update (honest'.sound ping.sender).current.inv awake listed away
      (status.trans_ne live) tick'

theorem run_refuted_suspicion :
    let a := Address.of "a:1" (by decide)
    let b := Address.of "b:1" (by decide)
    let setup : Setup := ⟨fun x => ⟨Env.sample x, ⟨none, none, none⟩, str "app", false, false, [],
      5⟩, fun _ => 1, fun _ => rfl⟩
    let tick (now : ℤ) : Tick := ⟨now, [], 0⟩
    let join : Envelope := ⟨b, a, .join ⟨some (str "app"), some (str "b:1"), some 2⟩⟩
    let answer : Envelope := ⟨a, b, .joinAnswer
      ⟨str "app", a, [⟨a, .alive, 1, none, some a, none⟩], some 9⟩⟩
    let suspicion : Update := ⟨a, .suspect, 1, some [], some b, some 2⟩
    let changes := [⟨b, .alive, 2, some [], some b, some 2⟩, suspicion]
    let body : PingBody := ⟨some 21, some changes, some b, some (str "app"), some 2⟩
    let events : List (Address × PeerEvent) :=
      [(a, .setLocalStatus .alive (tick 1)), (a, .onJoin), (b, .setLocalStatus .alive (tick 2)),
        (b, .sendJoin a), (a, .receive join fun _ => tick 3),
        (b, .joined [answer] fun _ => tick 4), (b, .onJoin), (b, .makeSuspect 1 [] (tick 5)),
        (b, .sendPing a)]
    let c' := (run setup events).step setup (a, .receive ⟨b, a, .ping body⟩ fun _ => tick 6)
    ∃ refutation, c'.view a a = some refutation ∧ refutation.status = .alive ∧
      ∀ x ≠ a, ∀ t, c'.view x a = some t → t < refutation := by
  intro a b setup tick join answer suspicion changes body events c'
  have sent : ⟨b, a, .ping body⟩ ∈ (run setup events).messages := by decide
  have checked : ((run setup events).peer a).checkPing (setup.config a) (some body) =
      .ok (b, changes, 21, some 2) := by decide
  have own : (run setup events).view a a = some ⟨1, .alive⟩ := by decide
  have listed : suspicion ∈ changes := by decide
  have advancing : Advancing (c'.announced a) := by decide
  obtain ⟨refutation, -, own, status, beats, -⟩ := run_refuted setup events sent rfl rfl checked
    (by decide) own (by decide) listed rfl (by decide) (by decide) advancing
  exact ⟨refutation, own, status, beats⟩

end Cluster
end Ringpop.Members
