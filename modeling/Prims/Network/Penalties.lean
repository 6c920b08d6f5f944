import Mathlib.Data.List.Induction
import Prims.Lib.Bytes

/-!
# Peer penalties

The bans and reconnect delays of `network/connection.rs`, and the calls of `network/node.rs` that
apply them. The node counts the invalid messages of a peer. When the limit is reached, the count
starts again and the peer is banned for some time; a ban that is over is cleared when the peer asks
to be accepted. Independently of bans, a peer waits for some time after it was disconnected.

All times are given by the caller, in seconds, and additions saturate.

## Main definitions

* `ConnectionLimits`, `PeerPenalty`, `PrimsNode`: the limits, what is kept for a peer, and the node
* `PeerEvent`, `nodeRun`: the calls that a node gets, and the node after some of them
* `BannedAt`: what it means to be banned, in terms of the times of the invalid messages
* `Tracks`: what is kept for a peer agrees with its history

## Main results

* `tracks_nodeRun`: the node keeps track of every peer
* `peerPenalties_nodeRun_filter`: a peer is treated by its own history
* `penalties_implement_policy`: the answers of a node after any calls
-/

namespace Prims.Network

/-! ## Penalties -/

/-- The limits that the penalties use, with their defaults. -/
structure ConnectionLimits where
  reconnectDelaySecs : UInt64 := 5
  temporaryBanSecs : UInt64 := 60
  maxInvalidMessages : UInt32 := 3
  deriving DecidableEq, Repr

/-- What the node keeps for a peer. -/
structure PeerPenalty where
  invalidMessages : UInt32 := 0
  bannedUntilUnix : Option UInt64 := none
  lastDisconnectUnix : Option UInt64 := none
  deriving DecidableEq, Repr

namespace PeerPenalty

def registerDisconnect (penalty : PeerPenalty) (nowUnix : UInt64) : PeerPenalty :=
  { penalty with lastDisconnectUnix := some nowUnix }

def canReconnect (penalty : PeerPenalty) (nowUnix : UInt64) (limits : ConnectionLimits) : Bool :=
  match penalty.lastDisconnectUnix with
  | some lastDisconnect => nowUnix.saturatingSub lastDisconnect ≥ limits.reconnectDelaySecs
  | none => true

/-- Count an invalid message. The answer says whether the peer is banned for it. -/
def registerInvalidMessage (penalty : PeerPenalty) (nowUnix : UInt64) (limits : ConnectionLimits) :
    Bool × PeerPenalty :=
  let penalty := { penalty with invalidMessages := penalty.invalidMessages + 1 }
  if penalty.invalidMessages ≥ limits.maxInvalidMessages then
    (true, { penalty with
      invalidMessages := 0
      bannedUntilUnix := some (nowUnix.saturatingAdd limits.temporaryBanSecs) })
  else (false, penalty)

def isBanned (penalty : PeerPenalty) (nowUnix : UInt64) : Bool :=
  match penalty.bannedUntilUnix with
  | some bannedUntil => nowUnix < bannedUntil
  | none => false

def clearExpiredBan (penalty : PeerPenalty) (nowUnix : UInt64) : PeerPenalty :=
  match penalty.bannedUntilUnix with
  | some bannedUntil =>
    if nowUnix ≥ bannedUntil then { penalty with bannedUntilUnix := none } else penalty
  | none => penalty

end PeerPenalty

/-- The part of the node that the penalties are about. -/
structure PrimsNode (PeerId : Type) where
  connectionLimits : ConnectionLimits
  peerPenalties : PeerId → Option PeerPenalty := fun _ => none

/-- A call about a peer. -/
inductive PeerEvent (PeerId : Type) where
  | canAcceptPeer (peerId : PeerId) (nowUnix : UInt64)
  | registerPeerDisconnect (peerId : PeerId) (nowUnix : UInt64)
  | registerInvalidMessage (peerId : PeerId) (nowUnix : UInt64)
  deriving DecidableEq, Repr

namespace PeerEvent

variable {PeerId : Type}

def peerId : PeerEvent PeerId → PeerId
  | .canAcceptPeer peerId _ => peerId
  | .registerPeerDisconnect peerId _ => peerId
  | .registerInvalidMessage peerId _ => peerId

def nowUnix : PeerEvent PeerId → UInt64
  | .canAcceptPeer _ nowUnix => nowUnix
  | .registerPeerDisconnect _ nowUnix => nowUnix
  | .registerInvalidMessage _ nowUnix => nowUnix

end PeerEvent

section Node

variable {PeerId : Type} [DecidableEq PeerId]

namespace PrimsNode

/-- What is kept for a peer, or the default when there is nothing. -/
def penalty (node : PrimsNode PeerId) (peerId : PeerId) : PeerPenalty :=
  (node.peerPenalties peerId).getD {}

def setPenalty (node : PrimsNode PeerId) (peerId : PeerId) (penalty : PeerPenalty) :
    PrimsNode PeerId :=
  { node with peerPenalties := Function.update node.peerPenalties peerId (some penalty) }

def canAcceptPeer (node : PrimsNode PeerId) (peerId : PeerId) (nowUnix : UInt64) :
    Bool × PrimsNode PeerId :=
  let penalty := (node.penalty peerId).clearExpiredBan nowUnix
  (!penalty.isBanned nowUnix && penalty.canReconnect nowUnix node.connectionLimits,
    node.setPenalty peerId penalty)

def registerPeerDisconnect (node : PrimsNode PeerId) (peerId : PeerId) (nowUnix : UInt64) :
    PrimsNode PeerId :=
  node.setPenalty peerId ((node.penalty peerId).registerDisconnect nowUnix)

def registerInvalidMessage (node : PrimsNode PeerId) (peerId : PeerId) (nowUnix : UInt64) :
    Bool × PrimsNode PeerId :=
  let (banned, penalty) :=
    (node.penalty peerId).registerInvalidMessage nowUnix node.connectionLimits
  (banned, node.setPenalty peerId penalty)

/-- The node after a call. -/
def step (node : PrimsNode PeerId) : PeerEvent PeerId → PrimsNode PeerId
  | .canAcceptPeer peerId nowUnix => (node.canAcceptPeer peerId nowUnix).2
  | .registerPeerDisconnect peerId nowUnix => node.registerPeerDisconnect peerId nowUnix
  | .registerInvalidMessage peerId nowUnix => (node.registerInvalidMessage peerId nowUnix).2

end PrimsNode

/-- A node after some calls. -/
def nodeRun (limits : ConnectionLimits) (events : List (PeerEvent PeerId)) : PrimsNode PeerId :=
  events.foldl PrimsNode.step { connectionLimits := limits }

/-- What a call does to what is kept for its peer. -/
def PeerPenalty.step (limits : ConnectionLimits) (penalty : PeerPenalty) :
    PeerEvent PeerId → PeerPenalty
  | .canAcceptPeer _ nowUnix => penalty.clearExpiredBan nowUnix
  | .registerPeerDisconnect _ nowUnix => penalty.registerDisconnect nowUnix
  | .registerInvalidMessage _ nowUnix => (penalty.registerInvalidMessage nowUnix limits).2

/-- **A call changes what is kept for its own peer** and nothing else. -/
theorem step_eq (node : PrimsNode PeerId) (event : PeerEvent PeerId) :
    node.step event = node.setPenalty event.peerId
      ((node.penalty event.peerId).step node.connectionLimits event) := by
  cases event <;> rfl

theorem peerPenalties_step (node : PrimsNode PeerId) (event : PeerEvent PeerId)
    (peerId : PeerId) :
    (node.step event).peerPenalties peerId =
      if event.peerId = peerId then some ((node.penalty peerId).step node.connectionLimits event)
      else node.peerPenalties peerId := by
  rw [step_eq, PrimsNode.setPenalty]
  dsimp only
  rw [Function.update_apply]
  by_cases h : event.peerId = peerId
  · rw [if_pos h, if_pos h.symm, h]
  · rw [if_neg h, if_neg (Ne.symm h)]

theorem nodeRun_concat (limits : ConnectionLimits) (events : List (PeerEvent PeerId))
    (event : PeerEvent PeerId) :
    nodeRun limits (events ++ [event]) = (nodeRun limits events).step event := by
  rw [nodeRun, List.foldl_concat]
  rfl

theorem connectionLimits_nodeRun (limits : ConnectionLimits) (events : List (PeerEvent PeerId)) :
    (nodeRun limits events).connectionLimits = limits := by
  induction events using List.reverseRecOn with
  | nil => rfl
  | append_singleton events event ih => rw [nodeRun_concat, step_eq, PrimsNode.setPenalty, ih]

/-- **A peer is treated by its own history**: the calls about the other peers do not matter. -/
theorem peerPenalties_nodeRun_filter (limits : ConnectionLimits)
    (events : List (PeerEvent PeerId)) (peerId : PeerId) :
    (nodeRun limits events).peerPenalties peerId =
      (nodeRun limits (events.filter fun event => event.peerId = peerId)).peerPenalties peerId := by
  induction events using List.reverseRecOn with
  | nil => rfl
  | append_singleton events event ih =>
    rw [nodeRun_concat, peerPenalties_step, List.filter_append]
    by_cases h : event.peerId = peerId
    · rw [if_pos h, List.filter_cons_of_pos (by simpa using h), List.filter_nil, nodeRun_concat,
        peerPenalties_step, if_pos h, PrimsNode.penalty, PrimsNode.penalty, ih,
        connectionLimits_nodeRun, connectionLimits_nodeRun]
    · rw [if_neg h, List.filter_cons_of_neg (by simpa using h), List.filter_nil, List.append_nil,
        ih]

end Node

/-! ## Bans -/

/-- Every how many invalid messages a peer is banned. -/
def banEvery (limits : ConnectionLimits) : ℕ := max 1 limits.maxInvalidMessages.toNat

/-- **To be banned**: a ban came with the last of as many invalid messages as the limit says, and it
is not over. -/
def BannedAt (limits : ConnectionLimits) (invalidTimes : List UInt64) (nowUnix : UInt64) : Prop :=
  ∃ i b, invalidTimes[i]? = some b ∧ banEvery limits ∣ i + 1 ∧
    nowUnix.toNat < min (b.toNat + limits.temporaryBanSecs.toNat) (2 ^ 64 - 1)

section Bans

variable {limits : ConnectionLimits} {penalty : PeerPenalty} {invalidTimes : List UInt64}

theorem banEvery_pos (limits : ConnectionLimits) : 0 < banEvery limits :=
  lt_of_lt_of_le Nat.one_pos (le_max_left _ _)

theorem banEvery_lt (limits : ConnectionLimits) : banEvery limits < 2 ^ 32 :=
  max_lt (by decide) limits.maxInvalidMessages.toNat_lt

/-- The count of a peer stays below the number of messages between two bans, so that counting one
more does not overflow. -/
theorem count_lt {n : ℕ} (hcount : penalty.invalidMessages.toNat = n % banEvery limits) :
    penalty.invalidMessages.toNat + 1 < 2 ^ 32 := by
  rw [hcount]
  exact lt_of_le_of_lt (Nat.mod_lt n (banEvery_pos limits)) (banEvery_lt limits)

theorem toNat_count_succ {n : ℕ} (hcount : penalty.invalidMessages.toNat = n % banEvery limits) :
    (penalty.invalidMessages + 1).toNat = n % banEvery limits + 1 := by
  rw [UInt32.toNat_add, ← hcount]
  exact Nat.mod_eq_of_lt (count_lt hcount)

/-- The count goes up by one, until it is full. -/
theorem mod_succ_of_ne {n : ℕ} (hne : n % banEvery limits + 1 ≠ banEvery limits) :
    (n + 1) % banEvery limits = n % banEvery limits + 1 := by
  have hlt := Nat.mod_lt n (banEvery_pos limits)
  rw [← Nat.mod_add_mod, Nat.mod_eq_of_lt (by omega)]

/-- The count is full with every message whose number is a multiple. -/
theorem dvd_succ_iff {n : ℕ} :
    banEvery limits ∣ n + 1 ↔ n % banEvery limits + 1 = banEvery limits := by
  rw [Nat.dvd_iff_mod_eq_zero]
  constructor
  · intro hzero
    by_contra hne
    rw [mod_succ_of_ne hne] at hzero
    cases hzero
  · intro hfull
    rw [← Nat.mod_add_mod, hfull, Nat.mod_self]

/-- **The limit is reached** when the count is full. -/
theorem limit_reached_iff {n : ℕ} (hcount : penalty.invalidMessages.toNat = n % banEvery limits) :
    penalty.invalidMessages + 1 ≥ limits.maxInvalidMessages ↔ banEvery limits ∣ n + 1 := by
  have hlt : n % banEvery limits < banEvery limits := Nat.mod_lt n (banEvery_pos limits)
  rw [ge_iff_le, UInt32.le_iff_toNat_le, toNat_count_succ hcount, dvd_succ_iff]
  constructor
  · intro hle
    exact le_antisymm hlt (max_le (Nat.succ_le_succ (Nat.zero_le _)) hle)
  · intro hfull
    rw [hfull]
    exact le_max_right _ _

/-- Counting an invalid message, when the count is that of `n` messages. -/
theorem registerInvalidMessage_eq {n : ℕ}
    (hcount : penalty.invalidMessages.toNat = n % banEvery limits) (nowUnix : UInt64) :
    penalty.registerInvalidMessage nowUnix limits =
      if banEvery limits ∣ n + 1 then
        (true, { penalty with
          invalidMessages := 0
          bannedUntilUnix := some (nowUnix.saturatingAdd limits.temporaryBanSecs) })
      else (false, { penalty with invalidMessages := penalty.invalidMessages + 1 }) := by
  rw [PeerPenalty.registerInvalidMessage]
  exact if_congr (limit_reached_iff hcount) rfl rfl

/-- A message that does not reach the limit brings no ban. -/
theorem bannedAt_concat_of_not_dvd (h : ¬ banEvery limits ∣ invalidTimes.length + 1)
    (b nowUnix : UInt64) :
    BannedAt limits (invalidTimes ++ [b]) nowUnix ↔ BannedAt limits invalidTimes nowUnix := by
  constructor
  · rintro ⟨i, b', hget, hdvd, hlt⟩
    rcases lt_trichotomy i invalidTimes.length with hi | rfl | hi
    · rw [List.getElem?_append_left hi] at hget
      exact ⟨i, b', hget, hdvd, hlt⟩
    · exact absurd hdvd h
    · rw [List.getElem?_eq_none (by simp; omega)] at hget
      cases hget
  · rintro ⟨i, b', hget, hdvd, hlt⟩
    obtain ⟨hi, -⟩ := List.getElem?_eq_some_iff.mp hget
    exact ⟨i, b', by rwa [List.getElem?_append_left hi], hdvd, hlt⟩

/-- The ban that a message brings is over after all earlier ones. -/
theorem bannedAt_concat_of_dvd (h : banEvery limits ∣ invalidTimes.length + 1)
    {b : UInt64} (hlast : ∀ b' ∈ invalidTimes, b' ≤ b) (nowUnix : UInt64) :
    BannedAt limits (invalidTimes ++ [b]) nowUnix ↔
      nowUnix < b.saturatingAdd limits.temporaryBanSecs := by
  rw [UInt64.lt_iff_toNat_lt, UInt64.toNat_saturatingAdd]
  constructor
  · rintro ⟨i, b', hget, -, hlt⟩
    have hle : b' ≤ b := by
      rcases List.mem_append.mp (List.mem_of_getElem? hget) with hmem | hmem
      · exact hlast b' hmem
      · rw [List.mem_singleton.mp hmem]
        exact UInt64.le_refl b
    rw [UInt64.le_iff_toNat_le] at hle
    omega
  · intro hlt
    exact ⟨invalidTimes.length, b, List.getElem?_concat_length, h, hlt⟩

end Bans

/-! ## Histories -/

section Histories

variable {PeerId : Type} [DecidableEq PeerId]

/-- When a peer sent its invalid messages. -/
def invalidTimes (peerId : PeerId) (events : List (PeerEvent PeerId)) : List UInt64 :=
  events.filterMap fun
    | .registerInvalidMessage peerId' nowUnix => if peerId' = peerId then some nowUnix else none
    | _ => none

/-- When a peer was disconnected. -/
def disconnectTimes (peerId : PeerId) (events : List (PeerEvent PeerId)) : List UInt64 :=
  events.filterMap fun
    | .registerPeerDisconnect peerId' nowUnix => if peerId' = peerId then some nowUnix else none
    | _ => none

/-- **What is kept for a peer agrees with its history**: the count with the number of its invalid
messages, the ban with their times, now and later, and the last disconnect with the last one. -/
structure Tracks (limits : ConnectionLimits) (peerId : PeerId) (events : List (PeerEvent PeerId))
    (penalty : PeerPenalty) : Prop where
  count : penalty.invalidMessages.toNat =
    (invalidTimes peerId events).length % banEvery limits
  banned : ∀ nowUnix, (∀ event ∈ events, event.nowUnix ≤ nowUnix) →
    (penalty.isBanned nowUnix ↔ BannedAt limits (invalidTimes peerId events) nowUnix)
  disconnected : penalty.lastDisconnectUnix = (disconnectTimes peerId events).getLast?

variable {limits : ConnectionLimits} {peerId : PeerId} {events : List (PeerEvent PeerId)}
  {penalty : PeerPenalty} {event : PeerEvent PeerId}

theorem mem_of_mem_invalidTimes {b : UInt64} (h : b ∈ invalidTimes peerId events) :
    ∃ event ∈ events, event.nowUnix = b := by
  obtain ⟨event, hevent, hb⟩ := List.mem_filterMap.mp h
  refine ⟨event, hevent, ?_⟩
  cases event with
  | registerInvalidMessage peerId' nowUnix =>
    dsimp only at hb
    split_ifs at hb
    exact Option.some.inj hb
  | _ => cases hb

/-- A ban that is cleared was over, and is over later. -/
theorem isBanned_clearExpiredBan {cleared nowUnix : UInt64} (h : cleared ≤ nowUnix) :
    (penalty.clearExpiredBan cleared).isBanned nowUnix = penalty.isBanned nowUnix := by
  unfold PeerPenalty.clearExpiredBan
  split
  · next bannedUntil hban =>
    split_ifs with hover
    · rw [PeerPenalty.isBanned, PeerPenalty.isBanned, hban]
      exact (decide_eq_false (UInt64.not_lt.mpr (UInt64.le_trans hover h))).symm
    · rfl
  · rfl

theorem clearExpiredBan_fields (penalty : PeerPenalty) (cleared : UInt64) :
    (penalty.clearExpiredBan cleared).invalidMessages = penalty.invalidMessages ∧
      (penalty.clearExpiredBan cleared).lastDisconnectUnix = penalty.lastDisconnectUnix := by
  unfold PeerPenalty.clearExpiredBan
  split
  · split_ifs <;> exact ⟨rfl, rfl⟩
  · exact ⟨rfl, rfl⟩

theorem canReconnect_eq_false {nowUnix : UInt64} :
    penalty.canReconnect nowUnix limits = false ↔
      ∃ d, penalty.lastDisconnectUnix = some d ∧
        nowUnix.toNat - d.toNat < limits.reconnectDelaySecs.toNat := by
  unfold PeerPenalty.canReconnect
  split
  · next lastDisconnect hlast =>
    rw [decide_eq_false_iff_not, ge_iff_le, UInt64.not_le, UInt64.lt_iff_toNat_lt,
      UInt64.toNat_saturatingSub]
    constructor
    · intro hlt
      exact ⟨lastDisconnect, hlast, hlt⟩
    · rintro ⟨d, hd, hlt⟩
      obtain rfl : lastDisconnect = d := Option.some.inj (hlast.symm.trans hd)
      exact hlt
  · next hlast => simp [hlast]

/-- A call about another peer is not part of the history. -/
theorem Tracks.concat_of_ne (h : Tracks limits peerId events penalty)
    (hne : event.peerId ≠ peerId) : Tracks limits peerId (events ++ [event]) penalty := by
  have hinvalid : invalidTimes peerId (events ++ [event]) = invalidTimes peerId events := by
    cases event <;> simp_all [invalidTimes, PeerEvent.peerId]
  have hdisconnect :
      disconnectTimes peerId (events ++ [event]) = disconnectTimes peerId events := by
    cases event <;> simp_all [disconnectTimes, PeerEvent.peerId]
  refine ⟨by rw [hinvalid, h.count], fun nowUnix hlater => ?_, by rw [hdisconnect, h.disconnected]⟩
  rw [hinvalid]
  exact h.banned nowUnix fun event hevent => hlater event (List.mem_append_left _ hevent)

theorem Tracks.canAcceptPeer (h : Tracks limits peerId events penalty) (cleared : UInt64) :
    Tracks limits peerId (events ++ [.canAcceptPeer peerId cleared])
      (penalty.clearExpiredBan cleared) := by
  have hinvalid : invalidTimes peerId (events ++ [.canAcceptPeer peerId cleared]) =
      invalidTimes peerId events := by simp [invalidTimes]
  have hdisconnect : disconnectTimes peerId (events ++ [.canAcceptPeer peerId cleared]) =
      disconnectTimes peerId events := by simp [disconnectTimes]
  obtain ⟨hmessages, hlast⟩ := clearExpiredBan_fields penalty cleared
  refine ⟨by rw [hinvalid, hmessages, h.count], fun nowUnix hlater => ?_,
    by rw [hdisconnect, hlast, h.disconnected]⟩
  rw [List.forall_mem_append] at hlater
  have hcleared : cleared ≤ nowUnix := hlater.2 _ List.mem_cons_self
  rw [hinvalid, isBanned_clearExpiredBan hcleared]
  exact h.banned nowUnix hlater.1

theorem Tracks.registerDisconnect (h : Tracks limits peerId events penalty) (nowUnix : UInt64) :
    Tracks limits peerId (events ++ [.registerPeerDisconnect peerId nowUnix])
      (penalty.registerDisconnect nowUnix) := by
  have hinvalid : invalidTimes peerId (events ++ [.registerPeerDisconnect peerId nowUnix]) =
      invalidTimes peerId events := by simp [invalidTimes]
  have hdisconnect : disconnectTimes peerId (events ++ [.registerPeerDisconnect peerId nowUnix]) =
      disconnectTimes peerId events ++ [nowUnix] := by simp [disconnectTimes]
  refine ⟨by rw [hinvalid, ← h.count]; rfl, fun later hlater => ?_,
    by rw [hdisconnect, List.getLast?_concat]; rfl⟩
  rw [List.forall_mem_append] at hlater
  rw [hinvalid]
  exact h.banned later hlater.1

/-- Either the message is counted, or it brings a ban that covers the earlier ones. -/
theorem Tracks.registerInvalidMessage (h : Tracks limits peerId events penalty) {nowUnix : UInt64}
    (hlast : ∀ event ∈ events, event.nowUnix ≤ nowUnix) :
    Tracks limits peerId (events ++ [.registerInvalidMessage peerId nowUnix])
      (penalty.registerInvalidMessage nowUnix limits).2 := by
  have hinvalid : invalidTimes peerId (events ++ [.registerInvalidMessage peerId nowUnix]) =
      invalidTimes peerId events ++ [nowUnix] := by simp [invalidTimes]
  have hdisconnect : disconnectTimes peerId (events ++ [.registerInvalidMessage peerId nowUnix]) =
      disconnectTimes peerId events := by simp [disconnectTimes]
  rw [registerInvalidMessage_eq h.count]
  split_ifs with hdvd
  · refine ⟨?_, fun later hlater => ?_, by rw [hdisconnect, ← h.disconnected]⟩
    · rw [hinvalid, List.length_append, List.length_singleton, Nat.mod_eq_zero_of_dvd hdvd]
      rfl
    · have hbefore : ∀ b ∈ invalidTimes peerId events, b ≤ nowUnix := by
        intro b hb
        obtain ⟨event, hevent, rfl⟩ := mem_of_mem_invalidTimes hb
        exact hlast event hevent
      rw [hinvalid, bannedAt_concat_of_dvd hdvd hbefore]
      exact decide_eq_true_iff
  · refine ⟨?_, fun later hlater => ?_, by rw [hdisconnect, ← h.disconnected]⟩
    · rw [hinvalid, List.length_append, List.length_singleton,
        mod_succ_of_ne (mt dvd_succ_iff.mpr hdvd)]
      exact toNat_count_succ h.count
    · rw [List.forall_mem_append] at hlater
      rw [hinvalid, bannedAt_concat_of_not_dvd hdvd]
      exact h.banned later hlater.1

/-- **The node keeps track of every peer**, when its calls come in the order of their times. -/
theorem tracks_nodeRun (limits : ConnectionLimits) (peerId : PeerId)
    (hordered : events.Pairwise fun a b => a.nowUnix ≤ b.nowUnix) :
    Tracks limits peerId events ((nodeRun limits events).penalty peerId) := by
  induction events using List.reverseRecOn with
  | nil =>
    refine ⟨(Nat.zero_mod _).symm, fun nowUnix _ => ?_, rfl⟩
    refine iff_of_false (fun h => nomatch h) ?_
    rintro ⟨i, b, hget, -⟩
    cases hget
  | append_singleton events event ih =>
    rw [List.pairwise_append] at hordered
    obtain ⟨hevents, -, hlast⟩ := hordered
    have htracks := ih hevents
    have hlast : ∀ earlier ∈ events, earlier.nowUnix ≤ event.nowUnix :=
      fun earlier hearlier => hlast earlier hearlier event List.mem_cons_self
    rw [PrimsNode.penalty, nodeRun_concat, peerPenalties_step, connectionLimits_nodeRun]
    by_cases hpeer : event.peerId = peerId
    · rw [if_pos hpeer, Option.getD_some]
      cases event with
      | canAcceptPeer peerId' cleared =>
        obtain rfl : peerId' = peerId := hpeer
        exact htracks.canAcceptPeer cleared
      | registerPeerDisconnect peerId' nowUnix =>
        obtain rfl : peerId' = peerId := hpeer
        exact htracks.registerDisconnect nowUnix
      | registerInvalidMessage peerId' nowUnix =>
        obtain rfl : peerId' = peerId := hpeer
        exact htracks.registerInvalidMessage hlast
    · rw [if_neg hpeer]
      exact htracks.concat_of_ne hpeer

end Histories

/-- **The penalties are the policy.** After any calls in the order of their times, the next invalid
message of a peer brings a ban exactly when its number is a multiple of the limit. The peer is
turned away exactly while a ban of it is not over, or while the delay after its last disconnect is
not over. The counter does not overflow, and the calls about other peers do not matter. -/
theorem penalties_implement_policy {PeerId : Type} [DecidableEq PeerId] (limits : ConnectionLimits)
    (events : List (PeerEvent PeerId)) (peerId : PeerId) (nowUnix : UInt64)
    (hordered : (events.map PeerEvent.nowUnix ++ [nowUnix]).Pairwise (· ≤ ·)) :
    (((nodeRun limits events).registerInvalidMessage peerId nowUnix).1 = true ↔
      banEvery limits ∣ (invalidTimes peerId events).length + 1) ∧
    (((nodeRun limits events).canAcceptPeer peerId nowUnix).1 = false ↔
      BannedAt limits (invalidTimes peerId events) nowUnix ∨
        ∃ d, (disconnectTimes peerId events).getLast? = some d ∧
          nowUnix.toNat - d.toNat < limits.reconnectDelaySecs.toNat) ∧
    ((nodeRun limits events).penalty peerId).invalidMessages.toNat + 1 < 2 ^ 32 ∧
    (nodeRun limits events).peerPenalties peerId =
      (nodeRun limits (events.filter fun event => event.peerId = peerId)).peerPenalties peerId := by
  rw [List.pairwise_append, List.pairwise_map] at hordered
  obtain ⟨hevents, -, hlast⟩ := hordered
  have hlater : ∀ event ∈ events, event.nowUnix ≤ nowUnix := fun event hevent =>
    hlast event.nowUnix (List.mem_map_of_mem hevent) nowUnix List.mem_cons_self
  have htracks := tracks_nodeRun limits peerId hevents
  refine ⟨?_, ?_, count_lt htracks.count, peerPenalties_nodeRun_filter limits events peerId⟩
  · rw [PrimsNode.registerInvalidMessage, connectionLimits_nodeRun,
      registerInvalidMessage_eq htracks.count]
    split_ifs with hdvd
    · exact iff_of_true rfl hdvd
    · exact iff_of_false nofun hdvd
  · rw [PrimsNode.canAcceptPeer, connectionLimits_nodeRun]
    dsimp only
    rw [isBanned_clearExpiredBan (UInt64.le_refl nowUnix), Bool.and_eq_false_iff,
      Bool.not_eq_false', htracks.banned nowUnix hlater, canReconnect_eq_false,
      (clearExpiredBan_fields _ _).2, htracks.disconnected]

/-- With the default limits, the third invalid message of peer 1 brings a ban, although peer 2 sent
one in between. -/
theorem third_message_bans :
    ([2000, 2000, 2001, 2002].Pairwise fun a b : UInt64 => a ≤ b) ∧
      ((nodeRun {} [.registerInvalidMessage 1 2000, .registerInvalidMessage 2 2000,
        .registerInvalidMessage 1 2001]).registerInvalidMessage (1 : ℕ) 2002).1 = true := by
  refine ⟨by decide, ?_⟩
  exact (penalties_implement_policy {} [.registerInvalidMessage 1 2000,
    .registerInvalidMessage 2 2000, .registerInvalidMessage 1 2001] 1 2002 (by decide)).1.mpr
      (by decide)

end Prims.Network
