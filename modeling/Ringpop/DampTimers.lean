import Ringpop.Damper

/-! The timer chains of the damper. A flapper that is added while the requests about the
last ones are still out starts a second damping chain. -/
namespace Ringpop.Members
open JsString Dictionary

namespace Damper
variable {config : DamperConfig} {m : Membership} {d : Damper}

/-- A run of the subprotocol waits for responses. -/
def InFlight (d : Damper) (id : ℕ) : Prop :=
  ∃ fanout, d.fanouts.get id = some fanout ∧ fanout.calledBack = false

instance (d : Damper) (id : ℕ) : Decidable (d.InFlight id) :=
  decidable_of_iff ((d.fanouts.get id).any fun fanout => !fanout.calledBack) (by
    simp [InFlight, Option.any_eq_true])

/-- The damping chain and the expiration chain. -/
structure OneChain (d : Damper) : Prop where
  apart : ∀ a, d.flappers.has a = true → d.dampedMembers.has a = false
  dampTimer : d.dampTimer.isSome ↔ ∃ a, d.flappers.has a = true
  expirationTimer : d.expirationTimer.isSome ↔ ∃ a, d.dampedMembers.has a = true
  timers : ∀ t t', d.queue.callback t = some .damp → d.queue.callback t' = some .damp → t = t'
  runs : ∀ id id', d.InFlight id → d.InFlight id' → id = id'
  exclusive : ∀ t id, d.queue.callback t = some .damp → ¬ d.InFlight id
  expirations : ∀ t t', d.queue.callback t = some .expiration →
    d.queue.callback t' = some .expiration → t = t'

/-- A first flapper comes when no run of the subprotocol is in flight. -/
def Settled (d : Damper) : DamperEvent → Prop
  | .addFlapper a => d.dampedMembers.has a = false → (∀ b, d.flappers.has b = false) →
      ∀ id, ¬ d.InFlight id
  | _ => True

/-- The invariant of both chains: only the timers in the two fields are pending. -/
structure Chained (d : Damper) : Prop where
  apart : ∀ a, d.flappers.has a = true → d.dampedMembers.has a = false
  dampTimer : d.dampTimer.isSome ↔ ∃ a, d.flappers.has a = true
  expirationTimer : d.expirationTimer.isSome ↔ ∃ a, d.dampedMembers.has a = true
  damp : ∀ t, d.queue.callback t = some .damp → d.dampTimer = some t ∧ ∀ id, ¬ d.InFlight id
  expiration : ∀ t, d.queue.callback t = some .expiration → d.expirationTimer = some t
  runs : ∀ id id', d.InFlight id → d.InFlight id' → id = id'
  fresh : ∀ id fanout, d.fanouts.get id = some fanout → id < d.nextFanout

theorem chained_new : Chained new where
  apart _ h := by cases h
  dampTimer := iff_of_false Bool.false_ne_true fun ⟨_, h⟩ => by cases h
  expirationTimer := iff_of_false Bool.false_ne_true fun ⟨_, h⟩ => by cases h
  damp _ h := by cases h
  expiration _ h := by cases h
  runs _ _ h := by obtain ⟨_, h, -⟩ := h; cases h
  fresh _ _ h := by cases h

theorem Chained.oneChain (chained : d.Chained) : d.OneChain where
  apart := chained.apart
  dampTimer := chained.dampTimer
  expirationTimer := chained.expirationTimer
  timers t t' h h' := Option.some.inj ((chained.damp t h).1.symm.trans (chained.damp t' h').1)
  runs := chained.runs
  exclusive t id h := (chained.damp t h).2 id
  expirations t t' h h' :=
    Option.some.inj ((chained.expiration t h).symm.trans (chained.expiration t' h'))

theorem exists_has_iff {ν : Type} {object : Dict Address ν} :
    (∃ a, object.has a = true) ↔ ¬ (objectKeys object).length = 0 := by
  rw [List.length_eq_zero_iff, List.eq_nil_iff_forall_not_mem, not_forall]
  simp only [mem_objectKeys, not_not]

/-- After an addition there is one key exactly when there was none. -/
theorem length_objectKeys_set_eq_one {ν : Type} {object : Dict Address ν} {a : Address}
    {value : ν} (missing : object.has a = false) :
    (objectKeys (object.set a value)).length = 1 ↔ ∀ b, object.has b = false := by
  have keys (b : Address) : b ∈ objectKeys (object.set a value) ↔ b = a ∨ object.has b = true := by
    rw [mem_objectKeys, Dict.has_set, Bool.or_eq_true, decide_eq_true_eq]
  constructor
  · intro one b
    obtain ⟨c, only⟩ := List.length_eq_one_iff.mp one
    rw [only] at keys
    obtain rfl := List.mem_singleton.mp ((keys a).mpr (.inl rfl))
    refine Bool.eq_false_iff.mpr fun present => ?_
    obtain rfl := List.mem_singleton.mp ((keys b).mpr (.inr present))
    cases missing.symm.trans present
  · intro none
    have only : (objectKeys (object.set a value)).Perm [a] := by
      refine (List.perm_ext_iff_of_nodup (nodup_objectKeys _) (List.nodup_singleton a)).mpr
        fun b => ?_
      simp [keys, none]
    exact only.length_eq

/-- No damp timer is pending and no run is in flight. -/
structure Quiet (d : Damper) : Prop where
  timers : ∀ t, d.queue.callback t ≠ some .damp
  runs : ∀ id, ¬ d.InFlight id

theorem Chained.onSubprotocol (chained : d.Chained) (quiet : d.Quiet) :
    d.onSubprotocol.Chained := by
  rw [Damper.onSubprotocol]
  split
  case isFalse => exact chained
  case isTrue on =>
    refine
      { chained with
        dampTimer := iff_of_true rfl (chained.dampTimer.mp on)
        damp := fun t h => ?_
        expiration := fun t h => ?_ }
    · obtain ⟨rfl, -⟩ | before := TimerQueue.callback_of_setTimeout h
      · exact ⟨rfl, quiet.runs⟩
      · exact absurd before (quiet.timers t)
    · obtain ⟨-, ⟨⟩⟩ | before := TimerQueue.callback_of_setTimeout h
      exact chained.expiration t before

/-- The damper after a flapper has gone. -/
structure Removed (d next : Damper) (address : Address) : Prop where
  chained : next.Chained
  quiet : d.Quiet → next.Quiet
  flappers : ∀ a, next.flappers.has a = (!decide (a = address) && d.flappers.has a)
  dampedMembers : next.dampedMembers = d.dampedMembers

theorem Chained.removeFlapper (chained : d.Chained) (address : Address) :
    Removed d (d.removeFlapper address) address := by
  have flappers (a : Address) := has_flappers_removeFlapper d a address
  by_cases present : d.flappers.has address = true
  case neg =>
    have same : d.removeFlapper address = d := by
      rw [Damper.removeFlapper, if_pos (by simpa using present)]
    rw [same] at flappers ⊢
    exact ⟨chained, id, flappers, rfl⟩
  case pos =>
    rw [Damper.removeFlapper, if_neg (by simp [present])] at flappers ⊢
    have apart (a : Address) (h : (d.flappers.delete address).has a = true) :
        d.dampedMembers.has a = false := by
      rw [Dict.has_delete, Bool.and_eq_true] at h
      exact chained.apart a h.2
    have on : d.dampTimer.isSome := chained.dampTimer.mpr ⟨address, present⟩
    simp only at flappers ⊢
    by_cases empty : (objectKeys (d.flappers.delete address)).length = 0
    case pos =>
      rw [flapperCount, if_pos empty] at flappers ⊢
      obtain ⟨timer, set⟩ := Option.isSome_iff_exists.mp on
      have stopped (t : ℕ) : (d.queue.clearTimeout timer).callback t ≠ some .damp := by
        intro h
        obtain ⟨other, before⟩ := TimerQueue.callback_of_clearTimeout h
        exact other (Option.some.inj ((chained.damp t before).1.symm.trans set))
      rw [stopDampTimer, set] at flappers ⊢
      have off : Chained { d with
          flappers := d.flappers.delete address
          queue := d.queue.clearTimeout timer
          dampTimer := none } :=
        { chained with
          apart := apart
          dampTimer := iff_of_false Bool.false_ne_true fun left => exists_has_iff.mp left empty
          damp := fun t h => absurd h (stopped t)
          expiration := fun t h =>
            chained.expiration t (TimerQueue.callback_of_clearTimeout h).2 }
      exact ⟨off, fun quiet => ⟨stopped, quiet.runs⟩, flappers, rfl⟩
    case neg =>
      rw [flapperCount, if_neg empty] at flappers ⊢
      have still : Chained { d with flappers := d.flappers.delete address } :=
        { chained with
          apart := apart
          dampTimer := iff_of_true on (exists_has_iff.mpr empty) }
      exact ⟨still, fun quiet => { quiet with }, flappers, rfl⟩

/-- A member joins the damped ones, and the expiration chain begins with the first. -/
theorem Chained.addDampedMember (chained : d.Chained) (now : ℤ) {a : Address}
    (gone : d.flappers.has a = false) :
    let added := d.addDampedMember now a
    let next := if added.expirationTimer.isNone then added.startExpirationTimer else added
    next.Chained ∧ (d.Quiet → next.Quiet) ∧ next.flappers = d.flappers := by
  have has (b : Address) : (d.dampedMembers.set a now).has b =
      (decide (b = a) || d.dampedMembers.has b) := Dict.has_set _ _ _ _
  have apart (b : Address) (h : d.flappers.has b = true) :
      (d.dampedMembers.set a now).has b = false := by
    have other : b ≠ a := by
      rintro rfl
      cases gone.symm.trans h
    simp [has, other, chained.apart b h]
  have some : ∃ b, (d.dampedMembers.set a now).has b = true := ⟨a, by simp⟩
  intro added next
  rcases Option.eq_none_or_eq_some d.expirationTimer with timer | ⟨t, timer⟩
  case inr =>
    have same : next = added := if_neg (by simp [added, Damper.addDampedMember, timer])
    have on : added.expirationTimer.isSome := by simp [added, Damper.addDampedMember, timer]
    rw [same]
    exact ⟨{ chained with apart := apart, expirationTimer := iff_of_true on some },
      fun quiet => { quiet with }, rfl⟩
  case inl =>
    have off : added.expirationTimer = none := timer
    have started : next = added.scheduleExpiration :=
      (if_pos (by simp [off])).trans (if_neg (by simp [off]))
    rw [started, scheduleExpiration]
    refine ⟨{ chained with
      apart := apart
      expirationTimer := iff_of_true rfl some
      damp := fun t h => ?_
      expiration := fun t h => ?_ }, fun quiet => { quiet with timers := fun t h => ?_ }, rfl⟩
    · obtain ⟨-, ⟨⟩⟩ | before := TimerQueue.callback_of_setTimeout h
      exact chained.damp t before
    · obtain ⟨rfl, -⟩ | before := TimerQueue.callback_of_setTimeout h
      · rfl
      · cases timer.symm.trans (chained.expiration t before)
    · obtain ⟨-, ⟨⟩⟩ | before := TimerQueue.callback_of_setTimeout h
      exact quiet.timers t before

theorem Chained.dampMember (chained : d.Chained) (now : ℤ) (addr : Address) :
    (d.dampMember config m now addr).Chained ∧
      (d.Quiet → (d.dampMember config m now addr).Quiet) := by
  have idle : d.Chained ∧ (d.Quiet → d.Quiet) := ⟨chained, id⟩
  rw [Damper.dampMember]
  cases m.findMemberByAddress addr with
  | none => exact idle
  | some member =>
    simp only
    split
    case isTrue => exact idle
    case isFalse =>
      split
      case isTrue => exact idle
      case isFalse =>
        have removed := chained.removeFlapper member.address
        have gone : (d.removeFlapper member.address).flappers.has member.address = false := by
          simp [removed.flappers]
        obtain ⟨added, quiet, -⟩ := removed.chained.addDampedMember now gone
        exact ⟨added, fun before => quiet (removed.quiet before)⟩

theorem has_foldl_delete {ν : Type} (object : Dict Address ν) (keys : List Address) (a : Address) :
    (keys.foldl Dict.delete object).has a = (!decide (a ∈ keys) && object.has a) := by
  induction keys generalizing object with
  | nil => simp
  | cons key keys ih =>
    rw [List.foldl_cons, ih, Dict.has_delete]
    by_cases here : a = key <;> simp [here]

/-- With its own timer spent, an expiration leaves the chain to be carried on. -/
theorem Chained.expireDampedMembers (config : DamperConfig) (chained : d.Chained)
    (clock : Address → ℤ)
    (spent : ∀ t, d.queue.callback t ≠ some .expiration) :
    let next := d.expireDampedMembers config clock
    next.Chained ∧ next.flappers = d.flappers ∧
      ∀ t, next.queue.callback t ≠ some .expiration := by
  rw [Damper.expireDampedMembers]
  generalize (objectKeys d.dampedMembers).filter _ = undamped
  by_cases none : undamped.length = 0
  case pos =>
    simp only [if_pos none]
    exact ⟨chained, trivial, spent⟩
  case neg =>
    have apart (a : Address) (h : d.flappers.has a = true) :
        (undamped.foldl Dict.delete d.dampedMembers).has a = false := by
      simp [has_foldl_delete, chained.apart a h]
    have cleared {timer t : ℕ} {timeout : DamperTimeout}
        (h : (d.queue.clearTimeout timer).callback t = some timeout) :
        d.queue.callback t = some timeout := (TimerQueue.callback_of_clearTimeout h).2
    simp only [if_neg none]
    by_cases empty : (objectKeys (undamped.foldl Dict.delete d.dampedMembers)).length = 0
    case pos =>
      have ended : ¬ ∃ a, (undamped.foldl Dict.delete d.dampedMembers).has a = true :=
        fun left => exists_has_iff.mp left empty
      rw [if_pos empty, stopExpirationTimer]
      rcases Option.eq_none_or_eq_some d.expirationTimer with timer | ⟨t, timer⟩
      case inl =>
        simp only [timer]
        exact ⟨{ chained with
          apart := apart
          expirationTimer := iff_of_false (by simp) ended
          expiration := fun t h => absurd h (spent t) }, trivial, spent⟩
      case inr =>
        simp only [timer]
        exact ⟨{ chained with
          apart := apart
          expirationTimer := iff_of_false Bool.false_ne_true ended
          damp := fun t h => chained.damp t (cleared h)
          expiration := fun t h => absurd (cleared h) (spent t) },
          trivial, fun t h => spent t (cleared h)⟩
    case neg =>
      rw [if_neg empty]
      have left : ∃ a, (undamped.foldl Dict.delete d.dampedMembers).has a = true :=
        exists_has_iff.mpr empty
      have on : d.expirationTimer.isSome := by
        obtain ⟨a, h⟩ := left
        rw [has_foldl_delete, Bool.and_eq_true] at h
        exact chained.expirationTimer.mpr ⟨a, h.2⟩
      exact ⟨{ chained with apart := apart, expirationTimer := iff_of_true on left }, rfl, spent⟩

/-- The expiration timer fires. -/
theorem Chained.expire (chained : d.Chained) (clock : Address → ℤ)
    (spent : ∀ t, d.queue.callback t ≠ some .expiration) :
    let next := d.expireDampedMembers config clock
    (if next.expirationTimer.isSome then next.scheduleExpiration else next).Chained := by
  obtain ⟨chained, -, spent⟩ := chained.expireDampedMembers config clock spent
  intro next
  split
  case isFalse => exact chained
  case isTrue on =>
    refine
      { chained with
        expirationTimer := iff_of_true rfl (chained.expirationTimer.mp on)
        damp := fun t h => ?_
        expiration := fun t h => ?_ }
    · obtain ⟨-, ⟨⟩⟩ | before := TimerQueue.callback_of_setTimeout h
      exact chained.damp t before
    · obtain ⟨rfl, -⟩ | before := TimerQueue.callback_of_setTimeout h
      · rfl
      · exact absurd before (spent t)

/-- The first flapper starts the damp timer. -/
theorem addFlapper_first {a : Address} (undamped : d.dampedMembers.has a = false)
    (empty : ∀ b, d.flappers.has b = false) (off : d.dampTimer = none) :
    d.addFlapper a = scheduleDamp { d with flappers := d.flappers.set a () } := by
  rw [Damper.addFlapper, if_neg (by simp [undamped]), if_neg (by simp [empty])]
  have one : ({ d with flappers := d.flappers.set a () } : Damper).flapperCount = 1 :=
    (length_objectKeys_set_eq_one (empty a)).mpr empty
  simp only [if_pos one]
  rw [startDampTimer, if_neg (by simp [off])]

theorem Chained.dampTimer_off (chained : d.Chained) (empty : ∀ b, d.flappers.has b = false) :
    d.dampTimer = none := by
  refine Option.not_isSome_iff_eq_none.mp fun on => ?_
  obtain ⟨a, h⟩ := chained.dampTimer.mp on
  cases h.symm.trans (empty a)

theorem Chained.addFlapper (chained : d.Chained) {a : Address}
    (settled : d.Settled (.addFlapper a)) : (d.addFlapper a).Chained := by
  cases undamped : d.dampedMembers.has a with
  | true => rwa [Damper.addFlapper, if_pos undamped]
  | false =>
    cases missing : d.flappers.has a with
    | true => rwa [Damper.addFlapper, if_neg (by simp [undamped]), if_pos missing]
    | false =>
      have apart (b : Address) (h : (d.flappers.set a ()).has b = true) :
          d.dampedMembers.has b = false := by
        rw [Dict.has_set, Bool.or_eq_true, decide_eq_true_eq] at h
        rcases h with rfl | h
        · exact undamped
        · exact chained.apart b h
      have some : ∃ b, (d.flappers.set a ()).has b = true := ⟨a, by simp⟩
      by_cases empty : ∀ b, d.flappers.has b = false
      case pos =>
        have off := chained.dampTimer_off empty
        rw [addFlapper_first undamped empty off, scheduleDamp]
        refine
          { chained with
            apart := apart
            dampTimer := iff_of_true rfl some
            damp := fun t h => ?_
            expiration := fun t h => ?_ }
        · obtain ⟨rfl, -⟩ | before := TimerQueue.callback_of_setTimeout h
          · exact ⟨rfl, settled undamped empty⟩
          · cases off.symm.trans (chained.damp t before).1
        · obtain ⟨-, ⟨⟩⟩ | before := TimerQueue.callback_of_setTimeout h
          exact chained.expiration t before
      case neg =>
        have more : ¬ ({ d with flappers := d.flappers.set a () } : Damper).flapperCount = 1 :=
          fun one => empty ((length_objectKeys_set_eq_one missing).mp one)
        have on : d.dampTimer.isSome := by
          simp only [not_forall, Bool.not_eq_false] at empty
          exact chained.dampTimer.mpr empty
        rw [Damper.addFlapper, if_neg (by simp [undamped]), if_neg (by simp [missing])]
        simp only [if_neg more]
        exact { chained with apart := apart, dampTimer := iff_of_true on some }

theorem inFlight_set {fanout : Fanout} {id other : ℕ} :
    InFlight { d with fanouts := d.fanouts.set id fanout } other ↔
      if other = id then fanout.calledBack = false else d.InFlight other := by
  simp only [InFlight, Dict.get_set]
  split
  · simp
  · rfl

theorem Chained.initiateSubprotocol (chained : d.Chained) (quiet : d.Quiet)
    (dampReqMembers : List Address) :
    (d.initiateSubprotocol config m dampReqMembers).Chained := by
  rw [Damper.initiateSubprotocol]
  split
  case isTrue => exact chained.onSubprotocol quiet
  case isFalse =>
    simp only
    split
    case isTrue => exact chained.onSubprotocol quiet
    case isFalse =>
      refine
        { chained with
          damp := fun t h => absurd h (quiet.timers t)
          runs := fun id id' here there => ?_
          fresh := fun id fanout h => ?_ }
      · have only {id : ℕ} (h : InFlight { d with
            fanouts := d.fanouts.set d.nextFanout ⟨d.getFlapperAddrs,
              min config.dampReqRVal dampReqMembers.length, dampReqMembers,
              dampReqMembers.length, [], false⟩ } id) : id = d.nextFanout := by
          rw [inFlight_set] at h
          split at h
          case isTrue same => exact same
          case isFalse => exact absurd h (quiet.runs id)
        exact (only here).trans (only there).symm
      · simp only [Dict.get_set] at h
        split at h
        case isTrue same => exact same ▸ Nat.lt_succ_self _
        case isFalse => exact (chained.fresh id fanout h).trans (Nat.lt_succ_self _)

theorem Chained.onFanout (chained : d.Chained) (quiet : d.Quiet) (now rVal : ℤ)
    (res : Option (List DampReqResult)) : (d.onFanout config m now rVal res).Chained := by
  cases res with
  | none => exact chained.onSubprotocol quiet
  | some res =>
    simp only [Damper.onFanout]
    split
    case isTrue => exact chained.onSubprotocol quiet
    case isFalse =>
      obtain ⟨damped, still⟩ := Runs.foldl_invariant (Damper.dampMember config m now)
        (fun d => d.Chained ∧ d.Quiet)
        (fun d addr ⟨chained, quiet⟩ =>
          ⟨(chained.dampMember now addr).1, (chained.dampMember now addr).2 quiet⟩)
        ⟨chained, quiet⟩ (getMembersToDamp res rVal config)
      exact damped.onSubprotocol still

/-- A response that is waited for, and one that is not. -/
theorem onDampReq_calledBack (fanout : Fanout) (addr : Address) (res : Option DampReqResult) :
    let told := onDampReq fanout addr res
    told.2 = none ∧ told.1.calledBack = fanout.calledBack ∨
      told.2.isSome ∧ fanout.calledBack = false ∧ told.1.calledBack = true := by
  simp only [onDampReq]
  split
  case isTrue => exact .inl ⟨rfl, rfl⟩
  case isFalse open_ =>
    have open_ : fanout.calledBack = false := by simpa using open_
    split
    case isTrue => exact .inr ⟨rfl, open_, rfl⟩
    case isFalse =>
      split
      case isTrue => exact .inr ⟨rfl, open_, rfl⟩
      case isFalse => exact .inl ⟨rfl, rfl⟩

theorem Chained.dampReqResponse (chained : d.Chained) (now : ℤ) (id : ℕ) (addr : Address)
    (res : Option DampReqResult) : (d.dampReqResponse config m now id addr res).Chained := by
  rw [Damper.dampReqResponse]
  rcases found : d.fanouts.get id with _ | fanout
  case none => exact chained
  case some =>
    simp only
    split
    case isFalse => exact chained
    case isTrue =>
      have calls := onDampReq_calledBack fanout addr res
      generalize onDampReq fanout addr res = told at calls
      obtain ⟨after, result⟩ := told
      have fresh (other : ℕ) (f : Fanout) (h : (d.fanouts.set id after).get other = some f) :
          other < d.nextFanout := by
        rw [Dict.get_set] at h
        split at h
        case isTrue same => exact same ▸ chained.fresh id fanout found
        case isFalse => exact chained.fresh other f h
      rcases calls with ⟨rfl, same⟩ | ⟨some, was, called⟩
      · have still (other : ℕ) :
            InFlight { d with fanouts := d.fanouts.set id after } other ↔ d.InFlight other := by
          rw [inFlight_set]
          split
          case isTrue equal =>
            have same : after.calledBack = fanout.calledBack := same
            simp [InFlight, equal, found, same]
          case isFalse => rfl
        exact
          { chained with
            damp := fun t h =>
              ⟨(chained.damp t h).1, fun id h' => (chained.damp t h).2 id ((still id).mp h')⟩
            runs := fun id id' h h' => chained.runs id id' ((still id).mp h) ((still id').mp h')
            fresh := fresh }
      · obtain ⟨result, rfl⟩ := Option.isSome_iff_exists.mp some
        have mine : d.InFlight id := ⟨fanout, found, was⟩
        have ended (other : ℕ) : ¬ InFlight { d with fanouts := d.fanouts.set id after } other := by
          rw [inFlight_set]
          split
          case isTrue => exact fun waits => Bool.noConfusion (waits.symm.trans called)
          case isFalse differs => exact fun h => differs (chained.runs other id h mine)
        have timers (t : ℕ) : d.queue.callback t ≠ Option.some .damp :=
          fun h => (chained.damp t h).2 id mine
        have landed : Chained { d with fanouts := d.fanouts.set id after } :=
          { chained with
            damp := fun t h => absurd h (timers t)
            runs := fun id _ h => absurd h (ended id)
            fresh := fresh }
        exact landed.onFanout ⟨timers, ended⟩ now after.rVal result

theorem Chained.fire (chained : d.Chained) (dampReqMembers : List Address) (clock : Address → ℤ)
    (timer : ℕ) : (d.fire config m dampReqMembers clock timer).Chained := by
  rw [Damper.fire]
  rcases pending : d.queue.callback timer with _ | timeout
  case none => exact chained
  case some =>
    have cleared {t : ℕ} {timeout' : DamperTimeout}
        (h : (d.queue.clearTimeout timer).callback t = some timeout') :
        t ≠ timer ∧ d.queue.callback t = some timeout' := TimerQueue.callback_of_clearTimeout h
    have spent : Chained { d with queue := d.queue.clearTimeout timer } :=
      { chained with
        damp := fun t h => chained.damp t (cleared h).2
        expiration := fun t h => chained.expiration t (cleared h).2 }
    cases timeout with
    | damp =>
      obtain ⟨field, idle⟩ := chained.damp timer pending
      refine spent.initiateSubprotocol ⟨fun t h => (cleared h).1 ?_, idle⟩ dampReqMembers
      exact Option.some.inj ((chained.damp t (cleared h).2).1.symm.trans field)
    | expiration =>
      have field := chained.expiration timer pending
      refine spent.expire clock fun t h => (cleared h).1 ?_
      exact Option.some.inj ((chained.expiration t (cleared h).2).symm.trans field)

theorem Chained.step (chained : d.Chained) (event : DamperEvent) (settled : d.Settled event) :
    (d.step config event).Chained := by
  cases event with
  | addFlapper flapper => exact chained.addFlapper settled
  | removeFlapper address => exact (chained.removeFlapper address).chained
  | dampMember m now addr => exact (chained.dampMember now addr).1
  | fire m dampReqMembers clock timer => exact chained.fire dampReqMembers clock timer
  | dampReqResponse m now id addr res => exact chained.dampReqResponse now id addr res

/-- A flapper that comes too early starts a second chain. -/
theorem Chained.spoils (chained : d.Chained) {event : DamperEvent} (early : ¬ d.Settled event) :
    ¬ (d.step config event).OneChain := by
  intro one
  cases event with
  | addFlapper a =>
    simp only [Settled, not_forall, not_not] at early
    obtain ⟨undamped, empty, id, flies⟩ := early
    have first := addFlapper_first undamped empty (chained.dampTimer_off empty)
    rw [Damper.step, first] at one
    exact one.exclusive d.queue.next id (by simp [scheduleDamp]) flies
  | removeFlapper | dampMember | fire | dampReqResponse => exact early trivial

/-- Both chains are single in every state of a run exactly when no first flapper is added
while a run of the subprotocol is in flight. -/
theorem run_oneChain_iff (config : DamperConfig) (events : List DamperEvent) :
    (∀ reached, reached <+: events → (run config reached).OneChain) ↔
      Runs.Throughout (step config) Settled new events :=
  Runs.always_iff_throughout Chained OneChain (fun _ => Chained.oneChain)
    (fun _ event chained => chained.step event) (fun _ _ chained => chained.spoils)
    chained_new events

/-- The last flapper goes and another one comes while a damp-req is out. -/
theorem run_two_chains :
    let env := Env.sample (.of "a:1" (by decide))
    let b := Address.of "b:1" (by decide)
    let m := (Membership.setLocalStatus env ⟨7, [], 0⟩ (.new env) .alive).1
    ¬ (run ⟨10, 3, 1000, 5000⟩ [.addFlapper b, .fire m [.of "c:1" (by decide)] (fun _ => 0) 0,
      .removeFlapper b, .addFlapper b]).OneChain := by
  intro env b m one
  exact one.exclusive 1 0 (by decide) (by decide)

end Damper
end Ringpop.Members
