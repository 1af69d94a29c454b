import Ringpop.ProbeOrder
import Ringpop.Gossip
import Ringpop.NodeReports

/-! How a member that answers nobody is found out: the iterator comes to it, its ping fails,
nobody else reaches it, and it becomes a suspect. -/
namespace Ringpop.Members
open JsString Dictionary

/-- An instance that probes. The last field is a history: who has been pinged, in the order of
the rounds. -/
structure Prober where
  node : Node
  iterator : MembershipIterator
  gossip : Gossip
  /-- the member object of the round that began last -/
  target : Option ℕ
  probed : List Address

/-- Anything that happens to an instance. `changes` are those in the body of an answer, which
say nothing of the list that an update leaves when it throws. -/
inductive ProberEvent where
  | node (event : NodeEvent)
  | start (order : List ℕ)
  | stop
  | fire (timer : ℕ) (shuffles : ℕ → List ℕ)
  | tick (shuffles : ℕ → List ℕ)
  | pingResponse (id : ℕ) (res : Response) (listed : ListedMembers)
      (changes : List (Update × Tick)) (pingReqMembers : List Address) (uuid : Str) (tick : Tick)
  | pingReqResponse (id : ℕ) (selected : Address) (res : Response) (listed : ListedMembers)
      (changes : List (Update × Tick)) (uuid : Str) (tick : Tick)

/-- The calls of `makeSuspect` by the ping-reqs of a round. -/
def Gossip.suspected (g : Gossip) (id : ℕ) : List (Address × ℤ) :=
  match g.rounds.get id with
  | some ⟨_, _, .pingReq reqs _⟩ => reqs.suspected
  | _ => []

namespace Prober
variable (env : Env)

def new (periods : Periods) : Prober := ⟨.new env periods, .new, .new, none, []⟩

/-- The head of `tick`, with the call of `memberIterator.next` where it comes to that. -/
def choose (s : Prober) (shuffles : ℕ → List ℕ) : Prober × Target :=
  if s.gossip.isPinging || !s.node.isReady then (s, ⟨s.node.isReady, none⟩)
  else
    let m := s.node.membership
    match s.iterator.next env shuffles (2 * m.getMemberCount + 1) m with
    | none => (s, ⟨true, none⟩)
    | some (result, iterator, m) =>
      let member := result.map fun r => (m.heap r).address
      ({ s with
          node := { s.node with membership := m }
          iterator
          target := result
          probed := s.probed ++ member.toList },
        ⟨true, member⟩)

/-- The incarnation of the member that is probed, as it is now. -/
def incarnationNumber (s : Prober) : ℤ :=
  match s.target with
  | none => 0
  | some ref => (s.node.membership.heap ref).incarnationNumber

def hear (s : Prober) (heard : Option Json) (changes : List (Update × Tick)) : Prober :=
  if heard.isSome then { s with node := s.node.update env changes } else s

/-- Gossip goes on, and makes suspects of those whom the round has given up. -/
def judge (s : Prober) (id : ℕ) (gossip : Gossip) (uuid : Str) (tick : Tick) : Prober :=
  let suspects := (gossip.suspected id).drop (s.gossip.suspected id).length
  { s with
    gossip
    node := suspects.foldl
      (fun node suspect => node.makeSuspect env suspect.1 suspect.2 uuid tick) s.node }

def pingResponse (s : Prober) (id : ℕ) (res : Response) (listed : ListedMembers)
    (changes : List (Update × Tick)) (pingReqMembers : List Address) (uuid : Str) (tick : Tick) :
    Prober :=
  match s.gossip.rounds.get id with
  | some ⟨_, _, .ping⟩ =>
    let s := s.hear env (PingSender.onPing listed res).2 changes
    let gossip := s.gossip.pingResponse id res listed pingReqMembers s.incarnationNumber
    s.judge env id gossip uuid tick
  | _ => s

def pingReqResponse (s : Prober) (id : ℕ) (selected : Address) (res : Response)
    (listed : ListedMembers) (changes : List (Update × Tick)) (uuid : Str) (tick : Tick) : Prober :=
  match s.gossip.rounds.get id with
  | some ⟨_, member, .pingReq _ outstanding⟩ =>
    if selected ∈ outstanding then
      let s := s.hear env (PingReqSender.onPingReq listed selected member res).2 changes
      let answer : PingReqAnswer := ⟨selected, res, listed, s.incarnationNumber⟩
      s.judge env id (s.gossip.pingReqResponse id answer) uuid tick
    else s
  | _ => s

def step (s : Prober) : ProberEvent → Prober
  | .node event => { s with node := s.node.apply env event }
  | .start order =>
    if s.gossip.isStopped then
      { s with
        node := { s.node with membership := s.node.membership.shuffle order }
        gossip := s.gossip.start }
    else s
  | .stop => { s with gossip := s.gossip.stop }
  | .fire timer shuffles =>
    match s.gossip.queue.callback timer with
    | none => s
    | some _ =>
      let (s, target) := s.choose env shuffles
      { s with gossip := s.gossip.fire timer target }
  | .tick shuffles =>
    let (s, target) := s.choose env shuffles
    { s with gossip := s.gossip.tick false target }
  | .pingResponse id res listed changes pingReqMembers uuid tick =>
    s.pingResponse env id res listed changes pingReqMembers uuid tick
  | .pingReqResponse id selected res listed changes uuid tick =>
    s.pingReqResponse env id selected res listed changes uuid tick

def run (periods : Periods) (events : List ProberEvent) : Prober :=
  events.foldl (step env) (new env periods)

end Prober

namespace PingReqs

theorem unreachableMember_answer (reqs : PingReqs) (a : PingReqAnswer) :
    (reqs.answer a).unreachableMember = reqs.unreachableMember := by
  simp only [answer, onPingReqHandler]
  repeat' split
  all_goals rfl

theorem pending_sendPingReqs (unreachableMember : Address) (incarnationNumber : ℤ)
    {pingReqMembers : List Address} (some : pingReqMembers ≠ []) :
    let reqs := sendPingReqs unreachableMember incarnationNumber pingReqMembers
    reqs.unreachableMember = unreachableMember ∧ reqs.Pending pingReqMembers := by
  obtain ⟨waiting, same, members, errors⟩ :=
    waiting_sendPingReqs unreachableMember incarnationNumber some
  exact ⟨same, waiting, by rw [errors, members]; exact (Nat.zero_add _).le,
    by rw [errors, members]; exact List.length_pos_iff.mpr some⟩

/-- A verdict that the member is out of reach comes with its suspicion. -/
theorem Waiting.verdict {reqs : PingReqs} (waiting : reqs.Waiting) (a : PingReqAnswer) :
    (reqs.answer a).results = [] ∨
      (∃ result, (reqs.answer a).results = [result] ∧
        ∀ pingReqAddrs errs, result ≠ .unreachable pingReqAddrs errs) ∨
      (reqs.answer a).suspected = [(reqs.unreachableMember, a.incarnationNumber)] := by
  obtain ⟨updates, answered⟩ := reqs.answer_cases a
  rw [answered]
  rcases handled reqs.unreachableMember a with _ | _ | err
  case throws => exact .inl waiting.results
  all_goals
    simp only [onPingReqHandler, waiting.calledBack, waiting.suspected, waiting.results,
      Bool.false_eq_true, if_false, List.nil_append]
  case callsBack.none => exact .inr (.inl ⟨_, rfl, fun _ _ reached => by cases reached⟩)
  case callsBack.some =>
    split
    case isTrue => exact .inl rfl
    case isFalse =>
      split
      case isTrue => exact .inr (.inr rfl)
      case isFalse => exact .inr (.inl ⟨_, rfl, fun _ _ unclear => by cases unclear⟩)

theorem Pending.gives_up {reqs : PingReqs} {outstanding : List Address} {a : PingReqAnswer}
    (pending : reqs.Pending outstanding) (asked : a.selected ∈ outstanding)
    (unreachable : ∀ result ∈ (reqs.answer a).results,
      ∃ pingReqAddrs errs, result = .unreachable pingReqAddrs errs) :
    (reqs.answer a).Pending (outstanding.erase a.selected) ∨
      (reqs.answer a).suspected = [(reqs.unreachableMember, a.incarnationNumber)] := by
  refine (pending.answer asked).imp_right fun ⟨suspects, called⟩ => ?_
  rcases pending.waiting.verdict a with none | ⟨result, one, other⟩ | suspected
  · have once := called.results
    rw [none] at once
    cases once
  · obtain ⟨pingReqAddrs, errs, same⟩ := unreachable result (one ▸ List.mem_singleton_self result)
    exact absurd same (other pingReqAddrs errs)
  · exact suspected

end PingReqs

namespace Gossip
variable {g : Gossip}

theorem get_pingResponse {id other : ℕ} (apart : other ≠ id) (res : Response)
    (listed : ListedMembers) (pingReqMembers : List Address) (incarnationNumber : ℤ) :
    (g.pingResponse id res listed pingReqMembers incarnationNumber).rounds.get other =
      g.rounds.get other := by
  unfold pingResponse
  split
  · split
    · exact (Dict.get_set _ _ _ _).trans (if_neg apart)
    · rw [rounds_onPingReq]
      exact (Dict.get_set _ _ _ _).trans (if_neg apart)
    · rw [finish, rounds_callBack]
      exact (Dict.get_delete _ _ _).trans (if_neg apart)
  · rfl

theorem get_pingReqResponse {id other : ℕ} (apart : other ≠ id) (a : PingReqAnswer) :
    (g.pingReqResponse id a).rounds.get other = g.rounds.get other := by
  unfold pingReqResponse
  split
  · split
    · rw [rounds_onPingReq]
      exact (Dict.get_set _ _ _ _).trans (if_neg apart)
    · rfl
  · rfl

end Gossip

namespace Membership
variable {env : Env} {m : Membership} {a : Address} {x : ℕ}

theorem get_processChange (change : Update) (tick : Tick)
    (known : m.membersByAddress.get a = some x) :
    (processChange env m change tick).1.membersByAddress.get a = some x := by
  have other : (processChange.applyOther env m change tick).1.membersByAddress.get a = some x := by
    unfold processChange.applyOther
    split
    case h_1 unknown =>
      have away : a ≠ (Member.ofUpdate env change).address := by
        rintro rfl
        cases known.symm.trans unknown
      exact (Dict.get_set _ _ _ _).trans ((if_neg away).trans known)
    case h_2 => exact known
  unfold processChange
  split
  case isFalse => exact known
  case isTrue =>
    split
    case h_1 =>
      split
      · exact known
      · exact other
    case h_2 => exact other

theorem get_processChanges (changes : List (Update × Tick))
    (known : m.membersByAddress.get a = some x) :
    (processChanges env m changes).1.membersByAddress.get a = some x := by
  induction changes generalizing m with
  | nil => exact known
  | cons change rest ih => exact ih (get_processChange change.1 change.2 known)

/-- A member that is known stays the same object. -/
theorem get_update (isReady : Bool) (changes : List (Update × Tick))
    (known : m.membersByAddress.get a = some x) :
    (update env isReady m changes).1.membersByAddress.get a = some x := by
  have processed : (processChanges env m changes).1.membersByAddress.get a = some x :=
    get_processChanges changes known
  unfold update
  split
  · exact known
  · split
    · exact known
    · simp only
      split
      · exact processed
      · exact processed

theorem get_setLocalStatus (tick : Tick) (status : Status)
    (remote : a ≠ env.whoami) (known : m.membersByAddress.get a = some x) :
    (setLocalStatus env tick m status).1.membersByAddress.get a = some x := by
  unfold setLocalStatus
  split
  · exact known
  · exact (Dict.get_set _ _ _ _).trans ((if_neg remote).trans known)

theorem get_evict (address : Address) (known : m.membersByAddress.get a = some x) :
    (evict env m address).1.membersByAddress.get a = some x ∨
      (evict env m address).1.view a = none := by
  unfold evict removeMember
  split
  · exact .inl known
  · split
    · exact .inl known
    · rw [view_eq_none]
      change (m.membersByAddress.delete address).get a = some x ∨
        (m.membersByAddress.delete address).get a = none
      rw [Dict.get_delete]
      split
      · exact .inr rfl
      · exact .inl known

theorem get_shuffle (order : List ℕ) (a : Address) :
    (m.shuffle order).membersByAddress.get a = m.membersByAddress.get a := by
  unfold shuffle
  split <;> rfl

end Membership

namespace Node
variable {env : Env} {node : Node} {a : Address} {x : ℕ}

theorem get_update (changes : List (Update × Tick))
    (known : node.membership.membersByAddress.get a = some x) :
    (node.update env changes).membership.membersByAddress.get a = some x := by
  have performed := (apply_performs env node (.update changes)).membership
  rw [apply] at performed
  rw [performed]
  exact Membership.get_update node.isReady changes known

/-- Whatever happens, a member stays the same object or is forgotten. -/
theorem get_apply (ready : node.isReady = true) (remote : a ≠ env.whoami) (event : NodeEvent)
    (known : node.membership.membersByAddress.get a = some x) :
    (node.apply env event).membership.membersByAddress.get a = some x ∨
      (node.apply env event).view a = none := by
  have updated (changes : List (Update × Tick)) :
      (performs.updates env node changes).1.membersByAddress.get a = some x :=
    Membership.get_update node.isReady changes known
  rw [Node.view, (apply_performs env node event).membership]
  cases event with
  | setLocalStatus status tick =>
    exact .inl (Membership.get_setLocalStatus tick status remote known)
  | update | makeSuspect | makeFaulty | makeTombstone => exact .inl (updated _)
  | onJoin =>
    left
    rw [performs]
    split
    · exact known
    · rwa [ready]
  | fire =>
    rw [performs]
    split
    · exact .inl known
    · split
      · exact .inl (updated _)
      · exact .inl (updated _)
      · exact Membership.get_evict _ known
  | handleJoin =>
    left
    rw [performs]
    split
    · exact known
    · split
      · exact Membership.get_setLocalStatus _ _ remote known
      · exact known

/-- Who is suspected as it is now is not alive any more. -/
theorem view_makeSuspect (inv : Inv env node) (ready : node.isReady = true)
    (remote : a ≠ env.whoami) {s : Standing} (known : node.view a = some s) (uuid : Str)
    (tick : Tick) (inc : ℤ) :
    (node.makeSuspect env a s.incarnationNumber uuid tick).view a ≠ some ⟨inc, .alive⟩ := by
  have heard := (inv.heard ready (node.made a s.incarnationNumber .suspect uuid tick)).view a remote
  rw [taken_made, known] at heard
  rw [makeSuspect_eq, heard]
  split
  case isTrue =>
    rintro ⟨⟩
  case isFalse rejected =>
    rintro ⟨⟩
    have worse : statusPrecedence .alive < statusPrecedence .suspect := by decide
    exact rejected (decide_eq_true (Standing.lt_iff.mpr (.inr ⟨rfl, worse⟩)))

theorem ready_of_view (inv : Inv env node) (remote : a ≠ env.whoami) {s : Standing}
    (known : node.view a = some s) : node.isReady = true := by
  refine Bool.not_eq_false _ ▸ fun joining => ?_
  cases known.symm.trans (inv.joining joining a remote).1

theorem Inv.shuffle (inv : Inv env node) (order : List ℕ) :
    Inv env { node with membership := node.membership.shuffle order } :=
  inv.remembered (inv.wellFormed.shuffle order) (Membership.localMember_shuffle _ order)
    fun a => Membership.view_shuffle _ order a

end Node

namespace Prober
variable {env : Env} {s s' : Prober} {a : Address} {x limit : ℕ}

def BelievesAlive (s : Prober) (a : Address) : Prop :=
  ∃ incarnationNumber, s.node.view a = some ⟨incarnationNumber, .alive⟩

/-- `membership.update` gets through the changes of an answer. -/
def GetsThrough : ProberEvent → Prop
  | .pingResponse _ res listed _ _ _ _ => PingSender.breaks listed res = false
  | .pingReqResponse _ selected res listed _ _ _ =>
    (⟨selected, res, listed, 0⟩ : PingReqAnswer).breaks = false
  | _ => True

/-- Nobody comes to the list or leaves it, and it is not shuffled but by the iterator. -/
def Keeps (env : Env) (s : Prober) : ProberEvent → Prop
  | .fire _ _ | .tick _ => True
  | event =>
    GetsThrough event ∧ (s.step env event).node.membership.members = s.node.membership.members

/-- A member does not answer, and every verdict on it is that it cannot be reached. -/
def Unreached (a : Address) (s : Prober) : ProberEvent → Prop
  | .pingResponse id res listed _ _ _ _ => ∀ call,
      s.gossip.rounds.get id = some ⟨call, a, .ping⟩ →
        ∃ err, (PingSender.onPing listed res).1 = .callsBack (some err)
  | .pingReqResponse id selected res listed _ _ _ => ∀ call reqs outstanding,
      s.gossip.rounds.get id = some ⟨call, a, .pingReq reqs outstanding⟩ →
      ∀ incarnationNumber,
        ∀ result ∈ (reqs.answer ⟨selected, res, listed, incarnationNumber⟩).results,
          ∃ pingReqAddrs errs, result = .unreachable pingReqAddrs errs
  | _ => True

/-- What a round about a member waits for. -/
def Awaits (a : Address) : Stage → Prop
  | .ping => True
  | .broken => False
  | .pingReq reqs outstanding => reqs.unreachableMember = a ∧ reqs.Pending outstanding

/-- The round about a member is in flight. -/
def OnTrial (s : Prober) (a : Address) (x : ℕ) : Prop :=
  s.target = some x ∧
    ∃ id call stage, s.gossip.rounds.get id = some ⟨call, a, stage⟩ ∧ Awaits a stage

theorem OnTrial.of_same (trial : s.OnTrial a x) (target : s'.target = s.target)
    (rounds : s'.gossip.rounds = s.gossip.rounds) : s'.OnTrial a x := by
  rw [OnTrial, target, rounds]
  exact trial

/-- What holds of an instance whatever has happened to it. -/
structure Sound (env : Env) (s : Prober) : Prop where
  inv : Node.Inv env s.node
  exclusive : s.gossip.Exclusive

/-- A member that is believed alive is coming closer or is on trial. -/
structure Hunting (env : Env) (a : Address) (x limit : ℕ) (s : Prober) : Prop
    extends Sound env s where
  bound : s.probed.length ≤ limit
  chase : s.BelievesAlive a → s.node.membership.membersByAddress.get a = some x ∧
    (s.OnTrial a x ∨ s.probed.length + s.iterator.distance s.node.membership x ≤ limit)

theorem hear_keeps (env : Env) (s : Prober) (heard : Option Json) (changes : List (Update × Tick)) :
    (s.hear env heard changes).iterator = s.iterator ∧
      (s.hear env heard changes).gossip = s.gossip ∧
      (s.hear env heard changes).target = s.target ∧
      (s.hear env heard changes).probed = s.probed := by
  unfold hear
  split <;> exact ⟨rfl, rfl, rfl, rfl⟩

theorem get_hear (heard : Option Json) (changes : List (Update × Tick))
    (known : s.node.membership.membersByAddress.get a = some x) :
    (s.hear env heard changes).node.membership.membersByAddress.get a = some x := by
  unfold hear
  split
  · exact Node.get_update _ known
  · exact known

theorem get_judge {id : ℕ} {gossip : Gossip} {uuid : Str} {tick : Tick}
    (known : s.node.membership.membersByAddress.get a = some x) :
    (s.judge env id gossip uuid tick).node.membership.membersByAddress.get a = some x := by
  rw [judge]
  refine List.foldlRecOn (motive := fun node : Node =>
    node.membership.membersByAddress.get a = some x) _ _ known fun node known suspect _ => ?_
  exact Node.get_update (node.made suspect.1 suspect.2 .suspect uuid tick) known

theorem Sound.hear (sound : s.Sound env) (heard : Option Json) (changes : List (Update × Tick)) :
    (s.hear env heard changes).Sound env := by
  unfold Prober.hear
  split
  · exact ⟨sound.inv.update _, sound.exclusive⟩
  · exact sound

theorem Sound.judge (sound : s.Sound env) {id : ℕ} {gossip : Gossip}
    (exclusive : gossip.Exclusive) (uuid : Str) (tick : Tick) :
    (s.judge env id gossip uuid tick).Sound env := by
  refine ⟨List.foldlRecOn _ _ sound.inv fun node inv suspect _ => ?_, exclusive⟩
  exact inv.update (node.made suspect.1 suspect.2 .suspect uuid tick)

theorem Sound.choose (sound : s.Sound env) (shuffles : ℕ → List ℕ) :
    (s.choose env shuffles).1.Sound env := by
  unfold Prober.choose
  split
  · exact sound
  · simp only
    split
    case h_1 => exact sound
    case h_2 run =>
      refine ⟨?_, sound.exclusive⟩
      exact MembershipIterator.nextLoop_keeps
        (fun m => Node.Inv env { s.node with membership := m })
        (fun m order inv => inv.shuffle order) shuffles run sound.inv

theorem gossip_choose (env : Env) (s : Prober) (shuffles : ℕ → List ℕ) :
    (s.choose env shuffles).1.gossip = s.gossip := by
  unfold choose
  split
  · rfl
  · simp only
    split <;> rfl

theorem Sound.pingResponse (sound : s.Sound env) (id : ℕ) (res : Response)
    (listed : ListedMembers) (changes : List (Update × Tick)) (pingReqMembers : List Address)
    (uuid : Str) (tick : Tick) :
    (s.pingResponse env id res listed changes pingReqMembers uuid tick).Sound env := by
  unfold Prober.pingResponse
  split
  · have heard := sound.hear (PingSender.onPing listed res).2 changes
    exact heard.judge (heard.exclusive.step (.pingResponse id res listed pingReqMembers _)) uuid
      tick
  · exact sound

theorem Sound.pingReqResponse (sound : s.Sound env) (id : ℕ) (selected : Address)
    (res : Response) (listed : ListedMembers) (changes : List (Update × Tick)) (uuid : Str)
    (tick : Tick) : (s.pingReqResponse env id selected res listed changes uuid tick).Sound env := by
  unfold Prober.pingReqResponse
  split
  case h_1 member _ _ _ =>
    split
    · have heard := sound.hear (PingReqSender.onPingReq listed selected member res).2 changes
      exact heard.judge (heard.exclusive.step (.pingReqResponse id _)) uuid tick
    · exact sound
  case h_2 => exact sound

theorem Sound.step (sound : s.Sound env) (event : ProberEvent) : (s.step env event).Sound env := by
  cases event with
  | node event => exact ⟨sound.inv.apply event, sound.exclusive⟩
  | start order =>
    rw [Prober.step]
    split
    · exact ⟨sound.inv.shuffle order, sound.exclusive.step .start⟩
    · exact sound
  | stop => exact ⟨sound.inv, sound.exclusive.step .stop⟩
  | fire timer shuffles =>
    rw [Prober.step]
    split
    · exact sound
    · have chosen := sound.choose shuffles
      exact ⟨chosen.inv, chosen.exclusive.step (.fire timer _)⟩
  | tick shuffles =>
    have chosen := sound.choose shuffles
    exact ⟨chosen.inv, chosen.exclusive.step (.tick _)⟩
  | pingResponse id res listed changes pingReqMembers uuid tick =>
    exact sound.pingResponse id res listed changes pingReqMembers uuid tick
  | pingReqResponse id selected res listed changes uuid tick =>
    exact sound.pingReqResponse id selected res listed changes uuid tick

theorem sound_run (env : Env) (periods : Periods) (events : List ProberEvent) :
    (run env periods events).Sound env :=
  Runs.foldl_invariant (step env) (Sound env) (fun _ event sound => sound.step event)
    ⟨Node.inv_new env periods, Gossip.exclusive_new⟩ events

/-- Where nobody is probed, a round that goes on is all there is to see to. -/
theorem Hunting.of_same (hunting : Hunting env a x limit s) (alive : s.BelievesAlive a)
    (sound : s'.Sound env) (iterator : s'.iterator = s.iterator) (probed : s'.probed = s.probed)
    (members : s'.node.membership.members = s.node.membership.members)
    (known : s'.BelievesAlive a → s'.node.membership.membersByAddress.get a = some x)
    (trial : s'.BelievesAlive a → s.OnTrial a x → s'.OnTrial a x) : Hunting env a x limit s' := by
  refine ⟨sound, probed ▸ hunting.bound, fun alive' => ⟨known alive', ?_⟩⟩
  refine (hunting.chase alive).2.imp (trial alive') fun closer => ?_
  rwa [probed, iterator, MembershipIterator.distance_congr members]

/-- An answer that gives the member up makes a suspect of it. -/
theorem not_alive_judge (inv : Node.Inv env s.node) (remote : a ≠ env.whoami)
    (known : s.node.membership.membersByAddress.get a = some x) (target : s.target = some x)
    {id : ℕ} {gossip : Gossip} (before : s.gossip.suspected id = [])
    (after : gossip.suspected id = [(a, s.incarnationNumber)]) (uuid : Str) (tick : Tick) :
    ¬ (s.judge env id gossip uuid tick).BelievesAlive a := by
  rintro ⟨inc, alive⟩
  have view : s.node.view a = some (s.node.membership.heap x).standing :=
    Membership.view_of_get known
  have number : s.incarnationNumber = (s.node.membership.heap x).standing.incarnationNumber := by
    rw [incarnationNumber, target]
    rfl
  rw [judge, before, after, number] at alive
  exact Node.view_makeSuspect inv (Node.ready_of_view inv remote view) remote view uuid tick inc
    alive

theorem Awaits.inFlight {call : TickCall} {stage : Stage} (awaits : Awaits a stage) :
    (⟨call, a, stage⟩ : Round).inFlight = true := by
  cases stage with
  | ping => rfl
  | broken => cases awaits
  | pingReq reqs outstanding => exact List.isEmpty_iff.mpr awaits.2.waiting.results

/-- Nobody is on trial when no round is in flight. -/
theorem not_onTrial (exclusive : s.gossip.Exclusive) (idle : s.gossip.isPinging = false) :
    ¬ s.OnTrial a x := by
  rintro ⟨-, id, call, stage, found, awaits⟩
  have flies := Gossip.flying_isSome.mpr ⟨_, found, awaits.inFlight⟩
  cases idle.symm.trans (exclusive.pinging.mpr ⟨id, flies⟩)

theorem pingable_of_alive (inv : Node.Inv env s.node) (remote : a ≠ env.whoami)
    (alive : s.BelievesAlive a) (known : s.node.membership.membersByAddress.get a = some x) :
    Membership.isPingable env (s.node.membership.heap x) = true := by
  obtain ⟨inc, view⟩ := alive
  have standing : (s.node.membership.heap x).standing = ⟨inc, .alive⟩ :=
    Option.some.inj ((Membership.view_of_get known).symm.trans view)
  obtain ⟨-, address⟩ := (inv.wellFormed.index a x).mp known
  rw [Membership.isPingable, address, decide_eq_true remote]
  exact congrArg (fun s => isStatusPingable s.status) standing

/-- What `choose` comes to while a member is believed alive. -/
theorem choose_cases (inv : Node.Inv env s.node) (remote : a ≠ env.whoami)
    (alive : s.BelievesAlive a) (known : s.node.membership.membersByAddress.get a = some x)
    (shuffles : ℕ → List ℕ) :
    (s.gossip.isPinging = true ∧ s.choose env shuffles = (s, ⟨true, none⟩)) ∨
      ∃ r iterator m, s.gossip.isPinging = false ∧
        MembershipIterator.Finds env s.node.membership (s.iterator.ahead s.node.membership) x r
          iterator m ∧
        s.choose env shuffles =
          ({ s with
              node := { s.node with membership := m }
              iterator
              target := some r
              probed := s.probed ++ [(m.heap r).address] },
            ⟨true, some (m.heap r).address⟩) := by
  have pingable := pingable_of_alive inv remote alive known
  have ready : s.node.isReady = true := alive.elim fun _ view => Node.ready_of_view inv remote view
  unfold choose
  cases idle : s.gossip.isPinging with
  | true => exact .inl ⟨rfl, by rw [ready]; rfl⟩
  | false =>
    right
    obtain ⟨listed, -⟩ := (inv.wellFormed.index a x).mp known
    obtain ⟨r, iterator, m, run, finds⟩ := MembershipIterator.next_finds shuffles s.iterator
      inv.wellFormed.toIndexed listed pingable (Nat.lt_succ_self _)
    refine ⟨r, iterator, m, rfl, finds, ?_⟩
    simp only [ready, run]
    rfl

/-- A tick goes on with the round in flight, comes closer to the member or puts it on trial. -/
theorem Hunting.probe (hunting : Hunting env a x limit s) (remote : a ≠ env.whoami)
    (alive : s.BelievesAlive a) (fromLoop : Bool) (shuffles : ℕ → List ℕ) {g : Gossip}
    (exclusive : g.Exclusive) (isPinging : g.isPinging = s.gossip.isPinging)
    (rounds : g.rounds = s.gossip.rounds) :
    Hunting env a x limit { (s.choose env shuffles).1 with
      gossip := g.tick fromLoop (s.choose env shuffles).2 } := by
  obtain ⟨known, chase⟩ := hunting.chase alive
  rcases choose_cases hunting.inv remote alive known shuffles with
    ⟨busy, chosen⟩ | ⟨r, iterator, m, idle, finds, chosen⟩
  · rw [chosen]
    have same : (g.tick fromLoop ⟨true, none⟩).rounds = s.gossip.rounds :=
      (g.rounds_tick fromLoop (.inl (isPinging.trans busy))).trans rounds
    exact hunting.of_same alive ⟨hunting.inv, exclusive.tick _ _⟩ rfl rfl rfl (fun _ => known)
      fun _ trial => trial.of_same rfl same
  · have inv : Node.Inv env { s.node with membership := m } :=
      finds.keeps (fun m => Node.Inv env { s.node with membership := m }) hunting.inv
        hunting.inv.shuffle
    have known' : m.membersByAddress.get a = some x :=
      finds.keeps (fun m => m.membersByAddress.get a = some x) known
        fun order => (Membership.get_shuffle order a).trans known
    have closer := chase.resolve_left (not_onTrial hunting.exclusive idle)
    obtain ⟨listed, address⟩ := (hunting.inv.wellFormed.index a x).mp known
    have ahead := s.iterator.distance_pos listed
    have bound : (s.probed ++ [(m.heap r).address]).length = s.probed.length + 1 :=
      List.length_append
    rw [chosen]
    refine ⟨⟨inv, exclusive.tick _ _⟩, by rw [bound]; omega, fun alive' => ⟨known', ?_⟩⟩
    by_cases this : r = x
    · subst this
      left
      refine ⟨rfl, g.ticks, ⟨g.ticks, fromLoop, g.stops⟩, .ping, ?_, trivial⟩
      obtain ⟨-, same⟩ := (inv.wellFormed.index a r).mp known'
      rw [← same]
      exact g.get_tick fromLoop _ (isPinging.trans idle)
    · right
      have pingable := pingable_of_alive hunting.inv remote alive known
      have less := finds.closer listed pingable this
      rw [bound]
      simp only
      omega

/-- The round about a member goes on, or makes a suspect of it. -/
def Concludes (s : Prober) (a : Address) (id : ℕ) (gossip : Gossip) : Prop :=
  (∃ id call stage, gossip.rounds.get id = some ⟨call, a, stage⟩ ∧ Awaits a stage) ∨
    s.gossip.suspected id = [] ∧ gossip.suspected id = [(a, s.incarnationNumber)]

theorem Hunting.judge (hunting : Hunting env a x limit s) (remote : a ≠ env.whoami)
    (alive : s.BelievesAlive a) (heard : Option Json) (changes : List (Update × Tick)) {id : ℕ}
    {gossip : Gossip} {uuid : Str} {tick : Tick}
    (sound : ((s.hear env heard changes).judge env id gossip uuid tick).Sound env)
    (members : ((s.hear env heard changes).judge env id gossip uuid tick).node.membership.members =
      s.node.membership.members)
    (concludes : s.OnTrial a x → (s.hear env heard changes).Concludes a id gossip) :
    Hunting env a x limit ((s.hear env heard changes).judge env id gossip uuid tick) := by
  obtain ⟨known, -⟩ := hunting.chase alive
  have known : (s.hear env heard changes).node.membership.membersByAddress.get a = some x :=
    get_hear heard changes known
  obtain ⟨iterator, -, target, probed⟩ := s.hear_keeps env heard changes
  refine hunting.of_same alive sound iterator probed members (fun _ => get_judge known)
    fun alive' trial => ?_
  rcases concludes trial with still | ⟨before, after⟩
  · exact ⟨target.trans trial.1, still⟩
  · have inv := (hunting.toSound.hear heard changes).inv
    exact absurd alive' (not_alive_judge inv remote known (target.trans trial.1) before after _ _)

theorem Hunting.pingResponse (hunting : Hunting env a x limit s) (remote : a ≠ env.whoami)
    (alive : s.BelievesAlive a) {id : ℕ} {res : Response} {listed : ListedMembers}
    {changes : List (Update × Tick)} {pingReqMembers : List Address} {uuid : Str} {tick : Tick}
    (keeps :
      (s.pingResponse env id res listed changes pingReqMembers uuid tick).node.membership.members =
        s.node.membership.members)
    (unreached : ∀ call, s.gossip.rounds.get id = some ⟨call, a, .ping⟩ →
      ∃ err, (PingSender.onPing listed res).1 = .callsBack (some err)) :
    Hunting env a x limit (s.pingResponse env id res listed changes pingReqMembers uuid tick) := by
  have sound := hunting.toSound.pingResponse id res listed changes pingReqMembers uuid tick
  rw [Prober.pingResponse] at keeps sound ⊢
  rcases found : s.gossip.rounds.get id with _ | ⟨call, member, _ | _ | ⟨reqs, outstanding⟩⟩
  case none => exact hunting
  case some.broken => exact hunting
  case some.pingReq => exact hunting
  case some.ping =>
    rw [found] at keeps
    rw [found] at sound
    have same := (s.hear_keeps env (PingSender.onPing listed res).2 changes).2.1
    refine hunting.judge remote alive _ changes sound keeps ?_
    rintro ⟨-, other, call', stage, found', awaits⟩
    rw [Concludes, same]
    by_cases this : other = id
    case neg =>
      refine .inl ⟨other, call', stage, ?_, awaits⟩
      rwa [Gossip.get_pingResponse this]
    case pos =>
      subst this
      obtain ⟨rfl, rfl, rfl⟩ := Round.mk.inj (Option.some.inj (found.symm.trans found'))
      obtain ⟨err, failed⟩ := unreached call found
      have tried (inc : ℤ) :
          (s.gossip.pingResponse other res listed pingReqMembers inc).rounds.get other = some
            ⟨call, member, .pingReq (sendPingReqs member inc pingReqMembers) pingReqMembers⟩ := by
        rw [Gossip.pingResponse, found]
        simp only [failed, Gossip.rounds_onPingReq, Dict.get_set, if_true]
      cases pingReqMembers with
      | nil =>
        right
        simp only [Gossip.suspected, found, tried]
        exact ⟨trivial, rfl⟩
      | cons first rest =>
        left
        refine ⟨other, call, _, tried _, ?_⟩
        exact PingReqs.pending_sendPingReqs member _ (List.cons_ne_nil first rest)

theorem Hunting.pingReqResponse (hunting : Hunting env a x limit s) (remote : a ≠ env.whoami)
    (alive : s.BelievesAlive a) {id : ℕ} {selected : Address} {res : Response}
    {listed : ListedMembers} {changes : List (Update × Tick)} {uuid : Str} {tick : Tick}
    (keeps :
      (s.pingReqResponse env id selected res listed changes uuid tick).node.membership.members =
        s.node.membership.members)
    (unreached : ∀ call reqs outstanding,
      s.gossip.rounds.get id = some ⟨call, a, .pingReq reqs outstanding⟩ →
      ∀ incarnationNumber,
        ∀ result ∈ (reqs.answer ⟨selected, res, listed, incarnationNumber⟩).results,
          ∃ pingReqAddrs errs, result = .unreachable pingReqAddrs errs) :
    Hunting env a x limit (s.pingReqResponse env id selected res listed changes uuid tick) := by
  have sound := hunting.toSound.pingReqResponse id selected res listed changes uuid tick
  rw [Prober.pingReqResponse] at keeps sound ⊢
  rcases found : s.gossip.rounds.get id with _ | ⟨call, member, _ | _ | ⟨reqs, outstanding⟩⟩
  case none => exact hunting
  case some.ping => exact hunting
  case some.broken => exact hunting
  case some.pingReq =>
    simp only [found] at keeps sound ⊢
    by_cases asked : selected ∈ outstanding
    case neg =>
      rw [if_neg asked]
      exact hunting
    case pos =>
      rw [if_pos asked] at keeps sound ⊢
      have same :=
        (s.hear_keeps env (PingReqSender.onPingReq listed selected member res).2 changes).2.1
      refine hunting.judge remote alive _ changes sound keeps ?_
      rintro ⟨-, other, call', stage, found', awaits⟩
      rw [Concludes, same]
      by_cases this : other = id
      case neg =>
        refine .inl ⟨other, call', stage, ?_, awaits⟩
        rwa [Gossip.get_pingReqResponse this]
      case pos =>
        subst this
        obtain ⟨rfl, rfl, rfl⟩ := Round.mk.inj (Option.some.inj (found.symm.trans found'))
        obtain ⟨unreachable, pending⟩ := awaits
        generalize (s.hear env _ changes).incarnationNumber = inc
        have answered : (s.gossip.pingReqResponse other ⟨selected, res, listed, inc⟩).rounds.get other =
            some ⟨call, member, .pingReq (reqs.answer ⟨selected, res, listed, inc⟩)
              (outstanding.erase selected)⟩ := by
          rw [Gossip.pingReqResponse, found]
          simp only [asked, Gossip.rounds_onPingReq, Dict.get_set, if_true]
        rcases pending.gives_up asked (unreached call reqs outstanding found inc) with
          still | suspected
        · left
          refine ⟨other, call, _, answered, ?_, still⟩
          exact (reqs.unreachableMember_answer _).trans unreachable
        · right
          rw [unreachable] at suspected
          simp only [Gossip.suspected, found, answered, pending.waiting.suspected]
          exact ⟨trivial, suspected⟩

theorem Hunting.step (hunting : Hunting env a x limit s) (remote : a ≠ env.whoami)
    {event : ProberEvent} (alive : s.BelievesAlive a) (keeps : s.Keeps env event)
    (unreached : s.Unreached a event) : Hunting env a x limit (s.step env event) := by
  obtain ⟨known, -⟩ := hunting.chase alive
  have sound := hunting.toSound.step event
  cases event with
  | node event =>
    have ready := alive.elim fun _ view => Node.ready_of_view hunting.inv remote view
    refine hunting.of_same alive sound rfl rfl keeps.2 (fun alive' => ?_) fun _ trial => trial
    refine (Node.get_apply ready remote event known).resolve_right fun gone => ?_
    obtain ⟨inc, view⟩ := alive'
    cases gone.symm.trans view
  | start order =>
    obtain ⟨-, keeps⟩ := keeps
    simp only [Prober.step] at keeps sound ⊢
    split at keeps
    case isTrue stopped =>
      rw [if_pos stopped] at sound ⊢
      exact hunting.of_same alive sound rfl rfl keeps
        (fun _ => (Membership.get_shuffle order a).trans known)
        fun _ trial => trial.of_same rfl s.gossip.rounds_start
    case isFalse started =>
      rw [if_neg started]
      exact hunting
  | stop =>
    exact hunting.of_same alive sound rfl rfl rfl (fun _ => known)
      fun _ trial => trial.of_same rfl s.gossip.rounds_stop
  | fire timer shuffles =>
    rw [Prober.step]
    cases pending : s.gossip.queue.callback timer with
    | none => exact hunting
    | some _ =>
      have same := s.gossip_choose env shuffles
      have pending' : (s.choose env shuffles).1.gossip.queue.callback timer = some _ :=
        (congrArg (fun g => g.queue.callback timer) same).trans pending
      have isPinging := congrArg Gossip.isPinging same
      have rounds := congrArg Gossip.rounds same
      simp only [Gossip.fire, pending']
      have cleared : Gossip.Exclusive { (s.choose env shuffles).1.gossip with
          queue := (s.choose env shuffles).1.gossip.queue.clearTimeout timer } :=
        (hunting.toSound.choose shuffles).exclusive.of_same rfl rfl rfl rfl
      exact hunting.probe remote alive true shuffles cleared isPinging rounds
  | tick shuffles =>
    have same := s.gossip_choose env shuffles
    exact hunting.probe remote alive false shuffles (hunting.toSound.choose shuffles).exclusive
      (congrArg Gossip.isPinging same) (congrArg Gossip.rounds same)
  | pingResponse => exact hunting.pingResponse remote alive keeps.2 unreached
  | pingReqResponse => exact hunting.pingReqResponse remote alive keeps.2 unreached

/-- However the events come: while nobody joins or leaves the list, only the iterator shuffles
it, `membership.update` gets through what answers carry and a member answers nobody,
`2 * n - 1` pings go out at most, with `n` the length of the list, before it is no longer
believed alive. -/
theorem run_detects (env : Env) (periods : Periods) (before after : List ProberEvent)
    {a : Address} (remote : a ≠ env.whoami)
    (quiet : Runs.Throughout (step env)
      (fun s event => s.BelievesAlive a ∧ s.Keeps env event ∧ s.Unreached a event)
      (run env periods before) after) :
    (run env periods (before ++ after)).probed.length ≤
      (run env periods before).probed.length +
        (2 * (run env periods before).node.membership.members.length - 1) := by
  have sound := sound_run env periods before
  rw [run, List.foldl_append, ← run]
  generalize run env periods before = s at quiet sound ⊢
  cases after with
  | nil => exact Nat.le_add_right _ _
  | cons event after =>
    obtain ⟨inc, view⟩ := quiet.1.1
    cases known : s.node.membership.membersByAddress.get a with
    | none => cases (Membership.view_eq_none.mpr known).symm.trans view
    | some x =>
      obtain ⟨listed, -⟩ := (sound.inv.wellFormed.index a x).mp known
      have hunting : Hunting env a x (s.probed.length +
          (2 * s.node.membership.members.length - 1)) s :=
        ⟨sound, Nat.le_add_right _ _, fun _ =>
          ⟨known, .inr (Nat.add_le_add_left (s.iterator.distance_le listed) _)⟩⟩
      exact (quiet.foldl_invariant (Hunting env a x _)
        (fun s event hunting h => hunting.step remote h.1 h.2.1 h.2.2) hunting).bound

/-- Two members. The one that answers nobody is pinged once, and then a suspect. -/
theorem run_detects_silent :
    let env := Env.sample (.of "a:1" (by decide))
    let b := Address.of "b:1" (by decide)
    let tick : Tick := ⟨7, [], 0⟩
    let found : Update × Tick := (⟨b, .alive, 3, none, none, none⟩, tick)
    let before : List ProberEvent :=
      [.node (.setLocalStatus .alive tick), .node .onJoin, .node (.update [found])]
    let failed : ProberEvent :=
      .pingResponse 0 (.error (str "timeout")) ⟨false, true, true⟩ [] [] (str "uuid") tick
    let after : List ProberEvent := [.tick fun _ => [], failed]
    (run env ⟨none, none, none⟩ (before ++ after)).probed.length ≤
      (run env ⟨none, none, none⟩ before).probed.length + 3 := by
  intro env b tick found before failed after
  let s := run env ⟨none, none, none⟩ before
  let pinged := s.step env (.tick fun _ => [])
  have alive : s.BelievesAlive b := ⟨3, by decide⟩
  have still : pinged.BelievesAlive b := ⟨3, by decide⟩
  have same : (pinged.step env failed).node.membership.members = pinged.node.membership.members :=
    by decide
  have keeps : pinged.Keeps env failed := ⟨rfl, same⟩
  have unreached : pinged.Unreached b failed := fun _ _ => ⟨str "timeout", rfl⟩
  have detected := run_detects env ⟨none, none, none⟩ before after (a := b) (by decide)
    ⟨⟨alive, trivial, trivial⟩, ⟨still, keeps, unreached⟩, trivial⟩
  have two : s.node.membership.members.length = 2 := by decide
  rwa [two] at detected

end Prober
end Ringpop.Members
