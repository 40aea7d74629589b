import MoaCrypto.Lib.Flight
import MoaCrypto.Blockchain.Node

/-!
# Broadcasts over a network of peers (`Node.java`)

A node that receives a broadcast with index `i` forwards it with the indices `i - 1` to `-1` and
sends the package to itself.  Whatever the tables contain and whoever receives a message, it amounts
to no more than `2 ^ (i + 1)` broadcast messages, itself included, if its package carries none
(`load`): a broadcast that is started with index `k` stays within `2 ^ (k + 1) - 1`
(`sent_le`).

The package may be a `Toss`, and what is tossed may be a broadcast: that one is sent with an index
of its own when the package has arrived (`sent_toss`).
-/

namespace MoaCrypto.P2P

open Flight StepRun

variable {C : Type}

/-! ## The network -/

/-- Whoever receives a message, with the table that it has by then. -/
structure Reception (C : Type) where
  ref : Nat
  table : RouteTable C
  nodeSelf : Node C

/-- What the reception of a packet sends. -/
def handle (peer : Peer C) (r : Reception C) (packet : Packet) : List Packet :=
  (receive peer r.ref r.table r.nodeSelf packet.message).sent

def Message.isBroadcast : Message → Bool
  | .broadcast _ _ => true
  | _ => false

/-- The message is a broadcast or a toss that has one in it. -/
def Message.carriesBroadcast : Message → Bool
  | .broadcast _ _ => true
  | .toss _ jsonPackage => jsonPackage.carriesBroadcast
  | _ => false

def counts (packet : Packet) : Nat := if packet.message.isBroadcast then 1 else 0

/-- The network after some receptions and losses, a broadcast having been started by a node with the
table `t`; the broadcast messages are counted. -/
def network (peer : Peer C) (t : RouteTable C) (k : Int) (jsonPackage : Message)
    (events : List (Event (Reception C))) : Net Packet :=
  run (step (handle peer) counts) (.start counts (udpBroadcast k jsonPackage t)) events

/-! ## What a message amounts to -/

/-- The broadcast messages that a message can amount to, itself included. -/
def Message.load : Message → Nat
  | .broadcast bcIndex jsonPackage => 2 ^ (bcIndex + 1).toNat * (jsonPackage.load + 1)
  | .toss _ jsonPackage => jsonPackage.load
  | _ => 0

def load (packet : Packet) : Nat := packet.message.load

/-- The same without itself. -/
def cost (packet : Packet) : Nat := load packet - counts packet

theorem counts_add_cost (packet : Packet) : counts packet + cost packet = load packet := by
  have hle : counts packet ≤ load packet := by
    unfold counts load
    cases packet.message with
    | broadcast bcIndex jsonPackage =>
      exact Nat.mul_pos (Nat.two_pow_pos _) (Nat.succ_pos _)
    | _ => exact Nat.zero_le _
  rw [cost, Nat.add_sub_cancel' hle]

theorem load_eq_zero {message : Message} (h : message.carriesBroadcast = false) : message.load = 0 := by
  induction message with
  | toss bypassNode jsonPackage ih => exact ih h
  | broadcast bcIndex jsonPackage ih => cases h
  | _ => rfl

theorem total_counts_add_cost (packets : List Packet) :
    total counts packets + total cost packets = total load packets := by
  induction packets with
  | nil => rfl
  | cons packet packets ih =>
    have hpacket := counts_add_cost packet
    unfold total at ih ⊢
    rw [List.map_cons, List.sum_cons, List.map_cons, List.sum_cons, List.map_cons, List.sum_cons]
    omega

/-- The loop from index `i` on sends what amounts to `2 ^ (i + 1) - 1` broadcasts of the package. -/
theorem total_broadcastFrom_le (t : RouteTable C) (jsonPackage : Message) (i : Nat) :
    total load (broadcastFrom t jsonPackage i) ≤ (2 ^ (i + 1) - 1) * (jsonPackage.load + 1) := by
  have hpacket (i : Nat) : total load ((t.getOuterNode i).map fun n =>
      (⟨n.ipAddress, n.port, .broadcast (i - 1) jsonPackage⟩ : Packet)).toList ≤
        2 ^ i * (jsonPackage.load + 1) := by
    cases t.getOuterNode i with
    | none => exact Nat.zero_le _
    | some n => simp [total, load, Message.load]
  induction i with
  | zero =>
    rw [broadcastFrom, List.append_nil]
    exact hpacket 0
  | succ i ih =>
    have hhere := hpacket (i + 1)
    have hpow : 2 ^ (i + 1 + 1) - 1 = 2 ^ (i + 1) + (2 ^ (i + 1) - 1) := by
      have := Nat.one_le_two_pow (n := i + 1)
      rw [Nat.pow_succ]
      omega
    rw [broadcastFrom, total_append, hpow, Nat.add_mul]
    exact Nat.add_le_add hhere ih

theorem total_udpBroadcast_le (t : RouteTable C) (jsonPackage : Message) (k : Int) :
    total load (udpBroadcast k jsonPackage t) ≤ (2 ^ (k + 1).toNat - 1) * (jsonPackage.load + 1) := by
  unfold udpBroadcast
  split
  next hneg => exact Nat.zero_le _
  next hpos =>
    have hindex : (k + 1).toNat = k.toNat + 1 := by omega
    rw [hindex]
    exact total_broadcastFrom_le t jsonPackage k.toNat

/-! ## Receptions -/

/-- Nothing that the rest of the server sends carries a broadcast. -/
def Peer.Quiet (peer : Peer C) : Prop :=
  ∀ nodeSelf text, ∀ packet ∈ peer.rest nodeSelf text, packet.message.carriesBroadcast = false

/-- A message is no broadcast, and none of a package that carries one. -/
def Message.Plain : Message → Prop
  | .broadcast _ jsonPackage => jsonPackage.carriesBroadcast = false
  | message => message.carriesBroadcast = false

theorem total_load_eq_zero {packets : List Packet}
    (h : ∀ packet ∈ packets, packet.message.carriesBroadcast = false) : total load packets = 0 := by
  unfold total
  rw [List.sum_eq_zero_iff_forall_eq_nat]
  intro n hn
  obtain ⟨packet, hpacket, rfl⟩ := List.mem_map.1 hn
  exact load_eq_zero (h packet hpacket)

/-- What is neither a broadcast nor a toss is answered by a pong at most, or by the rest of the server. -/
theorem handle_quiet {peer : Peer C} {r : Reception C} {packet : Packet}
    (h : packet.message.isBroadcast = false) (htoss : ∀ node jsonPackage, packet.message ≠ .toss node jsonPackage)
    (hrest : peer.Quiet) : ∀ sent ∈ handle peer r packet, sent.message.carriesBroadcast = false := by
  unfold handle
  cases hmessage : packet.message with
  | ping srcNode =>
    intro sent hsent
    simp only [receive, Ping.receive] at hsent
    split at hsent
    · rw [List.mem_singleton.1 hsent]
      rfl
    · cases hsent
  | pong dstNode status blockHeight =>
    intro sent hsent
    simp only [receive, Pong.receive] at hsent
    split at hsent <;> cases hsent
  | findNode srcNode dstNodeId =>
    intro sent hsent
    simp only [receive, FindNode.receive] at hsent
    split at hsent
    · split at hsent
      · cases hsent
      · rw [List.mem_singleton.1 hsent]
        rfl
    · cases hsent
  | toss node jsonPackage => exact absurd hmessage (htoss node jsonPackage)
  | broadcast bcIndex jsonPackage =>
    rw [hmessage] at h
    cases h
  | other text => exact hrest r.nodeSelf text

/-- **Step.**  What a reception sends amounts to no more than what is received, without itself. -/
theorem total_load_handle_le {peer : Peer C} (hrest : peer.Quiet) (r : Reception C) (packet : Packet) :
    total load (handle peer r packet) ≤ cost packet := by
  have hsum := counts_add_cost packet
  cases hmessage : packet.message with
  | toss node jsonPackage =>
    have hcounts : counts packet = 0 := by rw [counts, hmessage]; rfl
    have hload : load packet = jsonPackage.load := by rw [load, hmessage]; rfl
    have hsent : total load (handle peer r packet) ≤ jsonPackage.load := by
      rw [handle, hmessage, receive, Toss.receive]
      split
      · exact Nat.le_refl _
      · exact Nat.zero_le _
    omega
  | broadcast bcIndex jsonPackage =>
    have hcounts : counts packet = 1 := by rw [counts, hmessage]; rfl
    have hload : load packet = 2 ^ (bcIndex + 1).toNat * (jsonPackage.load + 1) := by rw [load, hmessage]; rfl
    have hloop := total_udpBroadcast_le r.table jsonPackage bcIndex
    have hsent : total load (handle peer r packet) =
        total load (udpBroadcast bcIndex jsonPackage r.table) + jsonPackage.load := by
      rw [handle, hmessage, receive, Broadcast.receive, total_append]
      rfl
    -- the index gives `2 ^ (i + 1) - 1` packages and the node itself one more
    rw [Nat.sub_mul, Nat.one_mul, ← hload] at hloop
    have hpos : jsonPackage.load + 1 ≤ load packet := by
      rw [hload]
      exact Nat.le_mul_of_pos_left _ (Nat.two_pow_pos _)
    omega
  | _ =>
    have hzero := total_load_eq_zero (handle_quiet (r := r) (h := by rw [hmessage]; rfl)
      (by simp [hmessage]) hrest)
    omega

/-- Any package at all: what it amounts to counts once for each time it can arrive. -/
theorem sent_le {peer : Peer C} (hrest : peer.Quiet) (t : RouteTable C) (k : Int) (jsonPackage : Message)
    (events : List (Event (Reception C))) :
    (network peer t k jsonPackage events).sent ≤ (2 ^ (k + 1).toNat - 1) * (jsonPackage.load + 1) := by
  have hcost (r : Reception C) (packet : Packet) :
      total counts (handle peer r packet) + total cost (handle peer r packet) ≤ cost packet := by
    rw [total_counts_add_cost]
    exact total_load_handle_le hrest r packet
  have hrun := run_le hcost (udpBroadcast k jsonPackage t) events
  rw [total_counts_add_cost] at hrun
  exact hrun.trans (total_udpBroadcast_le t jsonPackage k)

theorem mem_broadcastFrom {t : RouteTable C} {jsonPackage : Message} {i : Nat} {packet : Packet}
    (h : packet ∈ broadcastFrom t jsonPackage i) :
    ∃ j < (i : Int), packet.message = .broadcast j jsonPackage := by
  have hhere (i : Nat) (hmem : packet ∈ ((t.getOuterNode i).map fun n =>
      (⟨n.ipAddress, n.port, .broadcast (i - 1) jsonPackage⟩ : Packet)).toList) :
      packet.message = .broadcast ((i : Int) - 1) jsonPackage := by
    obtain ⟨n, -, rfl⟩ := Option.map_eq_some_iff.1 (Option.mem_toList.1 hmem)
    rfl
  induction i with
  | zero =>
    rw [broadcastFrom, List.append_nil] at h
    exact ⟨_, by omega, hhere 0 h⟩
  | succ i ih =>
    rw [broadcastFrom] at h
    rcases List.mem_append.1 h with h | h
    · exact ⟨_, by omega, hhere (i + 1) h⟩
    · obtain ⟨j, hj, hmessage⟩ := ih h
      exact ⟨j, by omega, hmessage⟩

theorem mem_udpBroadcast {t : RouteTable C} {jsonPackage : Message} {k : Int} {packet : Packet}
    (h : packet ∈ udpBroadcast k jsonPackage t) : ∃ j < k, packet.message = .broadcast j jsonPackage := by
  unfold udpBroadcast at h
  split at h
  next => cases h
  next hpos =>
    obtain ⟨j, hj, hmessage⟩ := mem_broadcastFrom h
    exact ⟨j, by omega, hmessage⟩

theorem plain_of_quiet {message : Message} (h : message.carriesBroadcast = false) : message.Plain := by
  cases message with
  | broadcast => cases h
  | _ => exact h

/-- **Step.**  A broadcast is forwarded with smaller indices, and no other message sets one off. -/
theorem handle_plain {peer : Peer C} (hrest : peer.Quiet) (r : Reception C) {packet : Packet}
    (h : packet.message.Plain) {sent : Packet} (hsent : sent ∈ handle peer r packet) :
    sent.message.Plain ∧ ∀ j jsonPackage, sent.message = .broadcast j jsonPackage →
      ∃ i, packet.message = .broadcast i jsonPackage ∧ j < i := by
  have hquiet (h : sent.message.carriesBroadcast = false) : sent.message.Plain ∧
      ∀ j jsonPackage, sent.message = .broadcast j jsonPackage →
        ∃ i, packet.message = .broadcast i jsonPackage ∧ j < i := by
    refine ⟨plain_of_quiet h, fun j jsonPackage hmessage => ?_⟩
    rw [hmessage] at h
    cases h
  cases hmessage : packet.message with
  | toss node jsonPackage =>
    rw [hmessage] at h
    rw [handle, hmessage, receive, Toss.receive] at hsent
    split at hsent
    · refine hmessage ▸ hquiet ?_
      rw [List.mem_singleton.1 hsent]
      exact h
    · cases hsent
  | broadcast bcIndex jsonPackage =>
    rw [hmessage] at h
    rw [handle, hmessage, receive, Broadcast.receive] at hsent
    rcases List.mem_append.1 hsent with hsent | hsent
    · obtain ⟨j, hj, hforwarded⟩ := mem_udpBroadcast hsent
      rw [hforwarded]
      refine ⟨h, fun j' jsonPackage' heq => ?_⟩
      cases heq
      exact ⟨bcIndex, rfl, hj⟩
    · refine hmessage ▸ hquiet ?_
      rw [List.mem_singleton.1 hsent]
      exact h
  | _ =>
    refine hmessage ▸ hquiet (handle_quiet (by rw [hmessage]; rfl) (by simp [hmessage]) hrest sent hsent)

/-- A broadcast of a package that carries none stays within its budget in every run, and every
broadcast message that is sent on the way is set off by one with a greater index. -/
theorem broadcast_bounded {peer : Peer C} (hrest : peer.Quiet) (t : RouteTable C) (k : Int)
    {jsonPackage : Message} (hpackage : jsonPackage.carriesBroadcast = false)
    (events : List (Event (Reception C))) :
    (network peer t k jsonPackage events).sent ≤ 2 ^ (k + 1).toNat - 1 ∧
      Along (step (handle peer) counts)
        (fun s event => ∀ n r packet, event = .deliver n r → s.inFlight[n]? = some packet →
          ∀ sent ∈ handle peer r packet, ∀ j package, sent.message = .broadcast j package →
            ∃ i, packet.message = .broadcast i package ∧ j < i)
        (.start counts (udpBroadcast k jsonPackage t)) events := by
  constructor
  · have hsent := sent_le hrest t k jsonPackage events
    rwa [load_eq_zero hpackage, Nat.zero_add, Nat.mul_one] at hsent
  · have hstart : ∀ packet ∈ udpBroadcast k jsonPackage t, packet.message.Plain := by
      intro packet hpacket
      obtain ⟨j, -, hmessage⟩ := mem_udpBroadcast hpacket
      rw [hmessage]
      exact hpackage
    have hplain := along_inFlight (handle peer) counts
      (fun r (packet : Packet) h sent hsent => (handle_plain hrest r h hsent).1) hstart events
    refine hplain.mono _ fun s event h n r packet _ hpacket sent hsent => ?_
    exact (handle_plain hrest r (h packet (List.mem_of_getElem? hpacket)) hsent).2

/-! ## Runs -/

/-- A peer that does nothing with other messages. -/
def silent : Peer Unit := ⟨fun _ => true, fun _ _ => 3, fun _ _ => []⟩

def alone : Node Unit := .new 0 "10.0.0.1" 4445 "A"

/-- The table of a node that has itself for its outer node with index 0. -/
def selfReferring : RouteTable Unit := ⟨[(0, alone)], [], alone⟩

theorem broadcast_bounded_self :
    (network silent selfReferring 0 (.other "block") [.deliver 0 ⟨1, selfReferring, alone⟩]).sent ≤ 1 :=
  (broadcast_bounded (fun _ _ _ h => absurd h List.not_mem_nil) selfReferring 0 rfl
    [.deliver 0 ⟨1, selfReferring, alone⟩]).1

/-- A package that is no broadcast but is to be tossed and then is one. -/
def tossed : Message := .toss alone.getJson (.broadcast 0 (.other "block"))

/-- Once the package has come to the node and been tossed, it is a second broadcast message, where the
index 0 allows for one. -/
theorem sent_toss :
    tossed.isBroadcast = false ∧
      (network silent selfReferring 0 tossed
        [.deliver 0 ⟨1, selfReferring, alone⟩, .deliver 0 ⟨2, selfReferring, alone⟩]).sent = 2 := by
  decide

end MoaCrypto.P2P
