import Ringpop.RequestProxy
import Ringpop.Groups
import Ringpop.Runs
import Mathlib.Data.List.Perm.Subperm

/-! `handleOrProxyAll` of `index.js`: the keys are split by their owners, each owner gets one
request, and the callback waits for all responses or for the first error. -/
namespace Ringpop.Forwarding
open JsString Dictionary Ringpop.Ring Ringpop.Members

structure DestResponse (ρ : Type) where
  res : ρ
  dest : Str
  keys : List Str

/-- `toCome` is the rest of `dests.forEach`, and `cb` says whether there is a callback that
has not been called. The last five fields are a history: the destinations so far, the heads
of the requests that were emitted, the keys that were proxied and where to, whose responses
have arrived with which errors, and the calls of the callback. -/
structure HandleOrProxyAll (ρ : Type) where
  keysByDest : Dict Str (List Str)
  toCome : List Str
  pending : ℤ
  responses : List (DestResponse ρ)
  cb : Bool
  dispatched : List Str
  emitted : List RawHead
  proxied : List (Str × List Str)
  arrivals : List (Str × Option Str)
  callbacks : List (Option Str × List (DestResponse ρ))

/-- `checksum` is the one of the membership at that moment. -/
inductive AllEvent (ρ : Type) where
  | dispatch (checksum : Option ℤ)
  | onResponse (dest : Str) (err : Option Str) (resp : ρ)

namespace HandleOrProxyAll
variable {ρ : Type}

def callBack (s : HandleOrProxyAll ρ) (err : Option Str) : HandleOrProxyAll ρ :=
  { s with callbacks := s.callbacks ++ [(err, s.responses)], cb := false }

def keysOf (s : HandleOrProxyAll ρ) (dest : Str) : List Str := (s.keysByDest.get dest).getD []

/-- Up to `dests.forEach`. -/
def begin (o : Options) (whoami : Address) (ring : HashRing) (keys : List Str) (cb : Bool) :
    HandleOrProxyAll ρ :=
  let keysByDest := groupBy (lookup o whoami ring) keys
  let dests := propertyOrder id keysByDest.keys
  let s : HandleOrProxyAll ρ := ⟨keysByDest, dests, dests.length, [], cb, [], [], [], [], []⟩
  if s.pending = 0 ∧ cb then s.callBack none else s

def dispatch (whoami : Address) (req : HttpRequest) (s : HandleOrProxyAll ρ)
    (checksum : Option ℤ) : HandleOrProxyAll ρ :=
  match s.toCome with
  | [] => s
  | dest :: rest =>
    let destKeys := s.keysOf dest
    let s := { s with toCome := rest, dispatched := s.dispatched ++ [dest] }
    if whoami.name = dest then
      { s with emitted := s.emitted ++ [rawHead req checksum destKeys] }
    else { s with proxied := s.proxied ++ [(dest, destKeys)] }

def onResponse (s : HandleOrProxyAll ρ) (dest : Str) (err : Option Str) (resp : ρ) :
    HandleOrProxyAll ρ :=
  let s := { s with
    responses := s.responses ++ [⟨resp, dest, s.keysOf dest⟩]
    pending := s.pending - 1
    arrivals := s.arrivals ++ [(dest, err)] }
  if (s.pending = 0 ∨ err.isSome) ∧ s.cb then s.callBack err else s

/-- Each request that was dispatched is answered once. -/
def step (whoami : Address) (req : HttpRequest) (s : HandleOrProxyAll ρ) :
    AllEvent ρ → HandleOrProxyAll ρ
  | .dispatch checksum => s.dispatch whoami req checksum
  | .onResponse dest err resp =>
    if s.dispatched.contains dest ∧ !(s.arrivals.map Prod.fst).contains dest then
      s.onResponse dest err resp
    else s

def run (o : Options) (whoami : Address) (ring : HashRing) (keys : List Str) (cb : Bool)
    (req : HttpRequest) (events : List (AllEvent ρ)) : HandleOrProxyAll ρ :=
  events.foldl (step whoami req) (begin o whoami ring keys cb)

/-- All responses have arrived, or one with an error. -/
def Answered (s : HandleOrProxyAll ρ) : Prop :=
  (s.toCome = [] ∧ s.dispatched ⊆ s.arrivals.map Prod.fst) ∨ ∃ a ∈ s.arrivals, a.2.isSome = true

/-- The invariant of a run with these keys. -/
structure Sound (owner : Str → Str) (keys : List Str) (given : Bool) (whoami : Address)
    (s : HandleOrProxyAll ρ) : Prop where
  groups : s.keysByDest = groupBy owner keys
  dests : s.dispatched ++ s.toCome = propertyOrder id (groupBy owner keys).keys
  emitted : s.emitted.map RawHead.ringpopKeys =
    (s.dispatched.filter (· = whoami.name)).map (group owner keys)
  proxied : s.proxied =
    (s.dispatched.filter (· ≠ whoami.name)).map fun dest => (dest, group owner keys dest)
  arrived : s.arrivals.map Prod.fst ⊆ s.dispatched
  single : (s.arrivals.map Prod.fst).Nodup
  answers : s.responses.map DestResponse.dest = s.arrivals.map Prod.fst
  answerKeys : ∀ r ∈ s.responses, r.keys = group owner keys r.dest
  pending : s.pending + s.arrivals.length = s.dispatched.length + s.toCome.length
  cb : s.cb = true ↔ given = true ∧ s.callbacks = []
  once : s.callbacks.length ≤ 1
  unasked : given = false → s.callbacks = []
  called : given = true →
    (s.callbacks ≠ [] ↔ s.pending = 0 ∨ ∃ a ∈ s.arrivals, a.2.isSome = true)
  result : ∀ c ∈ s.callbacks, c.1 = s.arrivals.findSome? Prod.snd ∧ (c.1 = none →
    c.2 = s.responses ∧ s.pending = 0)

variable {owner : Str → Str} {keys : List Str} {given : Bool} {whoami : Address}
  {s : HandleOrProxyAll ρ}

theorem mem_dests {dest : Str} :
    dest ∈ propertyOrder id (groupBy owner keys).keys ↔ ∃ key ∈ keys, owner key = dest := by
  rw [mem_propertyOrder, Dict.mem_keys, has_groupBy]

theorem Sound.keysOf (sound : s.Sound owner keys given whoami) {dest : Str}
    (listed : dest ∈ s.dispatched ++ s.toCome) : s.keysOf dest = group owner keys dest := by
  rw [sound.dests, mem_propertyOrder, Dict.mem_keys, Dict.has, get_groupBy] at listed
  rw [HandleOrProxyAll.keysOf, sound.groups, get_groupBy]
  split
  case isTrue none =>
    rw [if_pos none] at listed
    cases listed
  case isFalse => rfl

theorem Sound.nodup (sound : s.Sound owner keys given whoami) :
    (s.dispatched ++ s.toCome).Nodup := by
  rw [sound.dests]
  exact nodup_propertyOrder (Dict.nodup_keys _)

/-- A response that is still to come is counted in `pending`. -/
theorem Sound.expects (sound : s.Sound owner keys given whoami) {dest : Str}
    (listed : dest ∈ s.dispatched) (fresh : dest ∉ s.arrivals.map Prod.fst) : 0 < s.pending := by
  have among : (dest :: s.arrivals.map Prod.fst) ⊆ s.dispatched :=
    List.cons_subset.mpr ⟨listed, sound.arrived⟩
  have single : (dest :: s.arrivals.map Prod.fst).Nodup :=
    List.nodup_cons.mpr ⟨fresh, sound.single⟩
  have fewer := (single.subperm among).length_le
  have pending := sound.pending
  rw [List.length_cons, List.length_map] at fewer
  omega

theorem sound_begin (o : Options) (whoami : Address) (ring : HashRing) (keys : List Str)
    (given : Bool) :
    (begin o whoami ring keys given : HandleOrProxyAll ρ).Sound (lookup o whoami ring) keys given
      whoami := by
  unfold begin
  simp only
  split
  case isTrue asked =>
    exact
      { groups := rfl
        dests := rfl
        emitted := rfl
        proxied := rfl
        arrived := fun _ h => by cases h
        single := List.nodup_nil
        answers := rfl
        answerKeys := fun _ h => by cases h
        pending := by simp [callBack]
        cb := iff_of_false Bool.false_ne_true fun h => by cases h.2
        once := Nat.le_refl 1
        unasked := fun h => by cases asked.2.symm.trans h
        called := fun _ => iff_of_true (List.cons_ne_nil _ _) (.inl asked.1)
        result := fun c hc => by
          rw [List.mem_singleton.mp hc]
          exact ⟨rfl, fun _ => ⟨rfl, asked.1⟩⟩ }
  case isFalse waits =>
    exact
      { groups := rfl
        dests := rfl
        emitted := rfl
        proxied := rfl
        arrived := fun _ h => by cases h
        single := List.nodup_nil
        answers := rfl
        answerKeys := fun _ h => by cases h
        pending := by simp
        cb := by simp
        once := Nat.zero_le 1
        unasked := fun _ => rfl
        called := fun asked => by
          refine iff_of_false (fun h => h rfl) ?_
          rintro (h | ⟨a, h, -⟩)
          · exact waits ⟨h, asked⟩
          · cases h
        result := fun c hc => by cases hc }

theorem Sound.dispatch (sound : s.Sound owner keys given whoami) (req : HttpRequest)
    (checksum : Option ℤ) : (s.dispatch whoami req checksum).Sound owner keys given whoami := by
  unfold HandleOrProxyAll.dispatch
  cases rest : s.toCome with
  | nil => exact sound
  | cons dest rest' =>
    have destKeys : s.keysOf dest = group owner keys dest :=
      sound.keysOf (by rw [rest]; exact List.mem_append_right _ List.mem_cons_self)
    have dests : (s.dispatched ++ [dest]) ++ rest' =
        propertyOrder id (groupBy owner keys).keys := by
      rw [List.append_assoc, List.singleton_append, ← rest]
      exact sound.dests
    have pending : s.pending + s.arrivals.length =
        (s.dispatched ++ [dest]).length + rest'.length := by
      have before := sound.pending
      rw [rest, List.length_cons] at before
      rw [List.length_append, List.length_singleton]
      push_cast at before ⊢
      omega
    have arrived : s.arrivals.map Prod.fst ⊆ s.dispatched ++ [dest] :=
      fun _ arrived => List.mem_append_left _ (sound.arrived arrived)
    simp only
    split
    case isTrue self =>
      have here : (decide (dest = whoami.name)) = true := decide_eq_true self.symm
      have away : (decide (dest ≠ whoami.name)) = false := by simp [self]
      exact
        { sound with
          dests := dests
          pending := pending
          arrived := arrived
          emitted := by
            rw [List.map_append, List.filter_append, List.map_append, sound.emitted,
              List.filter_singleton, here, destKeys]
            rfl
          proxied := by
            rw [List.filter_append, List.map_append, ← sound.proxied, List.filter_singleton, away]
            exact (List.append_nil _).symm }
    case isFalse other =>
      have here : (decide (dest = whoami.name)) = false := decide_eq_false (Ne.symm other)
      have away : (decide (dest ≠ whoami.name)) = true := decide_eq_true (Ne.symm other)
      exact
        { sound with
          dests := dests
          pending := pending
          arrived := arrived
          emitted := by
            rw [List.filter_append, List.map_append, ← sound.emitted, List.filter_singleton, here]
            exact (List.append_nil _).symm
          proxied := by
            rw [List.filter_append, List.map_append, ← sound.proxied, List.filter_singleton, away,
              destKeys]
            rfl }

theorem map_arrivals (s : HandleOrProxyAll ρ) (dest : Str) (err : Option Str) :
    (s.arrivals ++ [(dest, err)]).map Prod.fst = s.arrivals.map Prod.fst ++ [dest] :=
  List.map_append

theorem Sound.arrived_append (sound : s.Sound owner keys given whoami) {dest : Str}
    (listed : dest ∈ s.dispatched) (err : Option Str) :
    (s.arrivals ++ [(dest, err)]).map Prod.fst ⊆ s.dispatched := by
  rw [map_arrivals]
  exact List.append_subset.mpr ⟨sound.arrived, List.cons_subset.mpr ⟨listed, List.nil_subset _⟩⟩

theorem Sound.single_append (sound : s.Sound owner keys given whoami) {dest : Str}
    (fresh : dest ∉ s.arrivals.map Prod.fst) (err : Option Str) :
    ((s.arrivals ++ [(dest, err)]).map Prod.fst).Nodup := by
  rw [map_arrivals]
  exact sound.single.append (List.nodup_singleton dest) (by simpa using fresh)

theorem Sound.answers_append (sound : s.Sound owner keys given whoami) (dest : Str)
    (err : Option Str) (resp : ρ) :
    (s.responses ++ [DestResponse.mk resp dest (s.keysOf dest)]).map DestResponse.dest =
      (s.arrivals ++ [(dest, err)]).map Prod.fst := by
  rw [map_arrivals, List.map_append, sound.answers]
  rfl

theorem Sound.answerKeys_append (sound : s.Sound owner keys given whoami) {dest : Str}
    (listed : dest ∈ s.dispatched) (resp : ρ) :
    ∀ r ∈ s.responses ++ [DestResponse.mk resp dest (s.keysOf dest)],
      r.keys = group owner keys r.dest := by
  intro r among
  rcases Runs.mem_extended.mp among with before | rfl
  · exact sound.answerKeys r before
  · exact sound.keysOf (List.mem_append_left s.toCome listed)

theorem Sound.pending_append (sound : s.Sound owner keys given whoami)
    (arrival : Str × Option Str) :
    s.pending - 1 + (s.arrivals ++ [arrival]).length = s.dispatched.length + s.toCome.length := by
  have before := sound.pending
  rw [List.length_append, List.length_singleton]
  push_cast
  omega

theorem failed_append (s : HandleOrProxyAll ρ) (dest : Str) (err : Option Str) :
    (∃ a ∈ s.arrivals ++ [(dest, err)], a.2.isSome = true) ↔
      (∃ a ∈ s.arrivals, a.2.isSome = true) ∨ err.isSome = true := by
  simp only [List.mem_append, List.mem_singleton, or_and_right, exists_or, exists_eq_left]

theorem firstError_append (s : HandleOrProxyAll ρ) (dest : Str) (err : Option Str) :
    (s.arrivals ++ [(dest, err)]).findSome? Prod.snd =
      (s.arrivals.findSome? Prod.snd).or err := by
  rw [List.findSome?_append]
  cases err <;> rfl

/-- No error has arrived before the callback is called. -/
theorem Sound.no_error (sound : s.Sound owner keys given whoami) (asked : given = true)
    (silent : s.callbacks = []) : s.arrivals.findSome? Prod.snd = none := by
  rw [List.findSome?_eq_none_iff]
  intro a among
  refine Option.not_isSome_iff_eq_none.mp fun error => ?_
  exact (sound.called asked).mpr (.inr ⟨a, among, error⟩) silent

/-- A response before which the callback has not been called calls it when it is the last or
has an error. -/
theorem Sound.onResponse (sound : s.Sound owner keys given whoami) {dest : Str}
    (listed : dest ∈ s.dispatched) (fresh : dest ∉ s.arrivals.map Prod.fst) (err : Option Str)
    (resp : ρ) : (s.onResponse dest err resp).Sound owner keys given whoami := by
  have expects := sound.expects listed fresh
  unfold HandleOrProxyAll.onResponse
  simp only
  split
  case isTrue answered =>
    obtain ⟨last, cb⟩ := answered
    obtain ⟨asked, silent⟩ := sound.cb.mp cb
    exact
      { sound with
        arrived := sound.arrived_append listed err
        single := sound.single_append fresh err
        answers := sound.answers_append dest err resp
        answerKeys := sound.answerKeys_append listed resp
        pending := sound.pending_append (dest, err)
        cb := iff_of_false Bool.false_ne_true fun h =>
          List.append_ne_nil_of_right_ne_nil _ (List.cons_ne_nil _ _) h.2
        once := by simp [callBack, silent]
        unasked := fun h => by cases asked.symm.trans h
        called := fun _ => by
          refine iff_of_true (List.append_ne_nil_of_right_ne_nil _ (List.cons_ne_nil _ _)) ?_
          exact last.imp_right fun error => (failed_append s dest err).mpr (.inr error)
        result := fun c hc => by
          simp only [callBack, silent, List.nil_append, List.mem_singleton] at hc
          have first := firstError_append s dest err
          rw [sound.no_error asked silent] at first
          rw [hc]
          refine ⟨first.symm, fun fine => ⟨rfl, ?_⟩⟩
          exact last.resolve_right fun error => by
            have fine : err = none := fine
            rw [fine] at error
            cases error }
  case isFalse going =>
    exact
      { sound with
        arrived := sound.arrived_append listed err
        single := sound.single_append fresh err
        answers := sound.answers_append dest err resp
        answerKeys := sound.answerKeys_append listed resp
        pending := sound.pending_append (dest, err)
        called := fun asked => by
          rw [failed_append]
          constructor
          · intro called
            rcases (sound.called asked).mp called with none | errors
            · exact absurd none expects.ne'
            · exact .inr (.inl errors)
          · intro last silent
            have cb := sound.cb.mpr ⟨asked, silent⟩
            rcases last with last | errors | error
            · exact going ⟨.inl last, cb⟩
            · exact (sound.called asked).mpr (.inr errors) silent
            · exact going ⟨.inr error, cb⟩
        result := fun c hc => by
          obtain ⟨result, fine⟩ := sound.result c hc
          cases error : c.1 with
          | none => exact absurd (fine error).2 expects.ne'
          | some e =>
            rw [error] at result
            refine ⟨?_, fun h => by cases h⟩
            rw [firstError_append, ← result]
            rfl }

theorem Sound.step (sound : s.Sound owner keys given whoami) (req : HttpRequest)
    (event : AllEvent ρ) : (s.step whoami req event).Sound owner keys given whoami := by
  cases event with
  | dispatch checksum => exact sound.dispatch req checksum
  | onResponse dest err resp =>
    rw [HandleOrProxyAll.step]
    split
    case isFalse => exact sound
    case isTrue due =>
      refine sound.onResponse (List.contains_iff_mem.mp due.1) (fun arrived => ?_) err resp
      rw [List.contains_iff_mem.mpr arrived] at due
      exact Bool.false_ne_true due.2

/-- All responses that are waited for are in when `pending` is zero. -/
theorem Sound.pending_zero (sound : s.Sound owner keys given whoami) :
    s.pending = 0 ↔ s.toCome = [] ∧ s.dispatched ⊆ s.arrivals.map Prod.fst := by
  have pending := sound.pending
  have fewer := (sound.single.subperm sound.arrived).length_le
  rw [List.length_map] at fewer
  constructor
  · intro zero
    have all : s.dispatched.length ≤ (s.arrivals.map Prod.fst).length := by
      rw [List.length_map]
      omega
    refine ⟨List.length_eq_zero_iff.mp (by omega), ?_⟩
    exact ((sound.single.subperm sound.arrived).perm_of_length_le all).symm.subset
  · rintro ⟨none, all⟩
    have more := (sound.nodup.of_append_left.subperm all).length_le
    rw [List.length_map] at more
    rw [none, List.length_nil] at pending
    omega

/-- The keys are split by their owners, each share is emitted or proxied once, and the callback
is called once: with the first error, or with a response from each owner. -/
theorem run_answers (o : Options) (whoami : Address) (ops : List Op) (keys : List Str)
    (given : Bool) (req : HttpRequest) (events : List (AllEvent ρ)) :
    let owner := lookup o whoami (Ring.run o ops).1
    let s := run o whoami (Ring.run o ops).1 keys given req events
    let dests := s.dispatched ++ s.toCome
    (dests.Nodup ∧ (∀ dest, dest ∈ dests ↔ ∃ key ∈ keys, owner key = dest) ∧
      (dests.flatMap fun dest => keys.filter fun key => owner key = dest).Perm keys) ∧
    s.emitted.map RawHead.ringpopKeys = (s.dispatched.filter (· = whoami.name)).map
      (fun dest => keys.filter fun key => owner key = dest) ∧
    s.proxied = (s.dispatched.filter (· ≠ whoami.name)).map
      (fun dest => (dest, keys.filter fun key => owner key = dest)) ∧
    s.callbacks.length ≤ 1 ∧ (s.callbacks ≠ [] ↔ given = true ∧ s.Answered) ∧
    ∀ c ∈ s.callbacks, c.1 = s.arrivals.findSome? Prod.snd ∧ (c.1 = none →
      (c.2.map DestResponse.dest).Perm dests ∧
      (∀ r ∈ c.2, r.keys = keys.filter fun key => owner key = r.dest) ∧
      (c.2.flatMap DestResponse.keys).Perm keys) := by
  intro owner s dests
  have sound : s.Sound owner keys given whoami :=
    Runs.foldl_invariant (step whoami req) (Sound owner keys given whoami)
      (fun _ event sound => sound.step req event) (sound_begin o whoami _ keys given) events
  have mem (dest : Str) : dest ∈ dests ↔ ∃ key ∈ keys, owner key = dest := by
    rw [← mem_dests, ← sound.dests]
  have whole (l : List Str) (same : l.Perm dests) : (l.flatMap (group owner keys)).Perm keys :=
    flatMap_group_perm owner keys (same.nodup_iff.mpr sound.nodup) fun key listed =>
      same.mem_iff.mpr ((mem _).mpr ⟨key, listed, rfl⟩)
  refine ⟨⟨sound.nodup, mem, whole dests (.refl _)⟩, sound.emitted, sound.proxied, sound.once, ?_,
    fun c called => ?_⟩
  · cases asked : given with
    | false => exact iff_of_false (fun some => some (sound.unasked asked)) fun h => by cases h.1
    | true =>
      rw [sound.called asked, sound.pending_zero, Answered]
      exact (and_iff_right rfl).symm
  · obtain ⟨result, fine⟩ := sound.result c called
    refine ⟨result, fun none => ?_⟩
    obtain ⟨all, zero⟩ := fine none
    obtain ⟨last, arrived⟩ := sound.pending_zero.mp zero
    have same : (c.2.map DestResponse.dest).Perm dests := by
      have order := (sound.nodup.of_append_left.subperm arrived).antisymm
        (sound.single.subperm sound.arrived)
      rw [all, sound.answers]
      show (s.arrivals.map Prod.fst).Perm (s.dispatched ++ s.toCome)
      rw [last, List.append_nil]
      exact order.symm
    have shares : ∀ r ∈ c.2, r.keys = group owner keys r.dest := all ▸ sound.answerKeys
    refine ⟨same, shares, ?_⟩
    have split : c.2.flatMap DestResponse.keys =
        (c.2.map DestResponse.dest).flatMap (group owner keys) := by
      rw [List.flatMap_map]
      exact List.flatMap_congr shares
    rw [split]
    exact whole _ same

end HandleOrProxyAll
end Ringpop.Forwarding
