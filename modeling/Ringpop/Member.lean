import Ringpop.JsString
import Ringpop.GreatestWins
import Mathlib.Data.Prod.Lex

/-! `lib/membership/member.js` and `update.js`: what a node believes about a member,
and the rule by which a rumour replaces a belief. -/
namespace Ringpop.Members
open JsString GreatestWins

/-- A host and port. Objects indexed by addresses inherit no property of that name. -/
structure Address where
  name : Str
  own : name ∉ objectPrototype
deriving DecidableEq

namespace Address

theorem name_injective : Function.Injective name := by
  rintro ⟨a, ha⟩ ⟨b, hb⟩ rfl
  rfl

instance : LinearOrder Address := LinearOrder.lift' name name_injective

/-- The address of a literal. -/
def of (s : String) (own : str s ∉ objectPrototype) : Address := ⟨str s, own⟩

end Address

inductive Status where
  | alive | suspect | faulty | leave | tombstone
deriving DecidableEq, Repr

namespace Status

def name : Status → Str
  | alive => str "alive"
  | faulty => str "faulty"
  | leave => str "leave"
  | suspect => str "suspect"
  | tombstone => str "tombstone"

end Status

def isStatusPingable : Status → Bool
  | .alive | .suspect => true
  | _ => false

/-- The default `-1` of the source is for statuses outside `Member.Status`. -/
def statusPrecedence : Status → ℤ
  | .alive => 0
  | .suspect => 1
  | .faulty => 2
  | .leave => 3
  | .tombstone => 4

theorem statusPrecedence_injective : Function.Injective statusPrecedence := by
  intro a b h
  cases a <;> cases b <;> first | rfl | cases h

/-- What the gossip rules look at in a member and in a rumour. -/
@[ext] structure Standing where
  incarnationNumber : ℤ
  status : Status
deriving DecidableEq, Repr

namespace Standing

def key (s : Standing) : ℤ ×ₗ ℤ := toLex (s.incarnationNumber, statusPrecedence s.status)

theorem key_injective : Function.Injective key := by
  intro a b h
  obtain ⟨hi, hs⟩ := Prod.mk.inj (toLex.injective h)
  exact Standing.ext hi (statusPrecedence_injective hs)

/-- Newer incarnations first, then the precedence of the status. -/
instance : LinearOrder Standing := LinearOrder.lift' key key_injective

theorem lt_iff {a b : Standing} :
    a < b ↔ a.incarnationNumber < b.incarnationNumber ∨
      a.incarnationNumber = b.incarnationNumber ∧
        statusPrecedence a.status < statusPrecedence b.status :=
  Prod.Lex.toLex_lt_toLex

theorem le_iff {a b : Standing} :
    a ≤ b ↔ a.incarnationNumber < b.incarnationNumber ∨
      a.incarnationNumber = b.incarnationNumber ∧
        statusPrecedence a.status ≤ statusPrecedence b.status :=
  Prod.Lex.toLex_le_toLex

end Standing

/-- A change as it is gossiped. The last three fields are missing in many of them. -/
structure Update where
  address : Address
  status : Status
  incarnationNumber : ℤ
  id : Option Str
  source : Option Address
  sourceIncarnationNumber : Option ℤ
deriving DecidableEq

def Update.standing (u : Update) : Standing := ⟨u.incarnationNumber, u.status⟩

/-- The damping part of the configuration. `decay score ms` stands for the rounded
exponential decay over `ms` milliseconds, a floating-point computation. -/
structure DampingConfig where
  dampScoringEnabled : Bool
  dampScoringInitial : ℤ
  dampScoringMax : ℤ
  dampScoringMin : ℤ
  dampScoringPenalty : ℤ
  dampScoringReuseLimit : ℤ
  dampScoringSuppressLimit : ℤ
  decay : ℤ → ℤ → ℤ

/-- What a member list takes from its ringpop instance. -/
structure Env where
  whoami : Address
  hashFunc : Str → ℤ
  config : DampingConfig

/-- The defaults of `config.js`, scores that never decay, and lengths as hashes. -/
def Env.sample (whoami : Address) : Env :=
  ⟨whoami, fun s => s.length, ⟨true, 0, 10000, 0, 500, 2500, 5000, fun score _ => score⟩⟩

structure Member where
  address : Address
  status : Status
  incarnationNumber : ℤ
  dampScore : ℤ
  lastUpdateTimestamp : Option ℤ
  lastUpdateDampScore : ℤ
deriving DecidableEq

inductive MembershipEvent where
  | checksumComputed (checksum : ℤ) (oldChecksum : Option ℤ)
  | localMemberLeave (oldStatus : Status)
  | set (updates : List Update)
  | updated (updates : List Update)
  | memberReusable (address : Address) (oldDampScore : ℤ)
  | memberSuppressLimitExceeded (address : Address)
deriving DecidableEq

/-- The events about damp scores. -/
def MembershipEvent.isDamping : MembershipEvent → Bool
  | .memberReusable _ _ => true
  | .memberSuppressLimitExceeded _ => true
  | _ => false

namespace Member

def standing (m : Member) : Standing := ⟨m.incarnationNumber, m.status⟩

/-- The constructor; no update carries a damp score of its own. -/
def ofUpdate (env : Env) (update : Update) : Member where
  address := update.address
  status := update.status
  incarnationNumber := update.incarnationNumber
  dampScore := env.config.dampScoringInitial
  lastUpdateTimestamp := none
  lastUpdateDampScore := env.config.dampScoringInitial

def decayDampScore (env : Env) (now : ℤ) (m : Member) : Member × List MembershipEvent :=
  let timeSince := now - m.lastUpdateTimestamp.getD 0
  let oldDampScore := m.dampScore
  let dampScore :=
    max (env.config.decay m.lastUpdateDampScore timeSince) env.config.dampScoringMin
  let reuseLimit := env.config.dampScoringReuseLimit
  ({ m with dampScore := dampScore },
    if oldDampScore > reuseLimit ∧ dampScore ≤ reuseLimit then
      [.memberReusable m.address oldDampScore]
    else [])

def applyUpdatePenalty (env : Env) (now : ℤ) (m : Member) : Member × List MembershipEvent :=
  let (m, events) := decayDampScore env now m
  let oldDampScore := m.dampScore
  let dampScore := min (m.dampScore + env.config.dampScoringPenalty) env.config.dampScoringMax
  let suppressLimit := env.config.dampScoringSuppressLimit
  ({ m with dampScore := dampScore },
    events ++
      if oldDampScore < suppressLimit ∧ dampScore ≥ suppressLimit then
        [.memberSuppressLimitExceeded m.address]
      else [])

def applyUpdate (env : Env) (now : ℤ) (m : Member) (update : Update) :
    Member × List MembershipEvent :=
  let m := { m with status := update.status, incarnationNumber := update.incarnationNumber }
  let (m, events) :=
    if env.config.dampScoringEnabled ∧ update.address ≠ env.whoami then
      let (m, events) := applyUpdatePenalty env now m
      ({ m with lastUpdateDampScore := m.dampScore }, events)
    else (m, [])
  ({ m with lastUpdateTimestamp := some now }, events)

@[simp] theorem address_ofUpdate (env : Env) (update : Update) :
    (ofUpdate env update).address = update.address := rfl

@[simp] theorem standing_ofUpdate (env : Env) (update : Update) :
    (ofUpdate env update).standing = update.standing := rfl

@[simp] theorem address_applyUpdate (env : Env) (now : ℤ) (m : Member) (update : Update) :
    (applyUpdate env now m update).1.address = m.address := by
  unfold applyUpdate
  split <;> rfl

@[simp] theorem standing_applyUpdate (env : Env) (now : ℤ) (m : Member) (update : Update) :
    (applyUpdate env now m update).1.standing = update.standing := by
  unfold applyUpdate
  split <;> rfl

theorem damping_applyUpdate (env : Env) (now : ℤ) (m : Member) (update : Update) :
    ∀ e ∈ (applyUpdate env now m update).2, e.isDamping = true := by
  intro e he
  unfold applyUpdate at he
  split at he
  case isTrue =>
    simp only [applyUpdatePenalty, decayDampScore, List.mem_append] at he
    rcases he with he | he <;> split at he <;> simp_all [MembershipEvent.isDamping]
  case isFalse => cases he

end Member

/-- `Update`'s constructor for a subject that exists. -/
def Update.new (id : Str) (subject : Member) (source : Option Member) : Update where
  address := subject.address
  status := subject.status
  incarnationNumber := subject.incarnationNumber
  id := some id
  source := source.map Member.address
  sourceIncarnationNumber := source.map Member.incarnationNumber

def shouldProcessGossip (member : Option Member) (gossip : Update) : Bool :=
  match member with
  | none => if gossip.status = .tombstone then false else true
  | some member =>
    if gossip.incarnationNumber < member.incarnationNumber then false
    else if gossip.incarnationNumber > member.incarnationNumber then true
    else if statusPrecedence gossip.status > statusPrecedence member.status then true
    else false

/-- An unknown member is not brought in as a tombstone. -/
def refused (s : Standing) : Bool := decide (s.status = .tombstone)

theorem shouldProcessGossip_eq (member : Option Member) (gossip : Update) :
    shouldProcessGossip member gossip =
      admits refused (member.map Member.standing) gossip.standing := by
  cases member with
  | none => by_cases h : gossip.status = .tombstone <;>
      simp [shouldProcessGossip, admits, refused, Update.standing, h]
  | some member =>
    simp only [shouldProcessGossip, Option.map_some, admits, Standing.lt_iff, Member.standing,
      Update.standing]
    rcases lt_trichotomy gossip.incarnationNumber member.incarnationNumber with h | h | h
    · simp [h, h.not_gt, h.ne']
    · simp [h]
    · simp [h, h.not_gt]

end Ringpop.Members
