import MoaCrypto.Blockchain.Broadcast

/-!
# All messages of the peers (`Node.java`)

Not only broadcasts come to an end.  A package can be anything, a broadcast of a toss of a broadcast
too, and what it sets off when it has arrived is sent on top of what brought it there; still every
message amounts to a number of messages that can be read off it (`Message.work`), whatever is in the
tables and whoever receives it.  No run sends more than that, and after as many events there is
nothing left that could happen (`traffic_ends`).
-/

namespace MoaCrypto.P2P

open Flight StepRun

variable {C : Type}

/-- The messages that a message can amount to, itself included, where `w` says it of what the rest of
the server does. -/
def Message.work (w : String → Nat) : Message → Nat
  | .ping _ => 2
  | .pong _ _ _ => 1
  | .findNode _ _ => 2
  | .toss _ jsonPackage => jsonPackage.work w + 1
  | .broadcast bcIndex jsonPackage => 2 ^ (bcIndex + 1).toNat * (jsonPackage.work w + 1)
  | .other text => w text + 1

def work (w : String → Nat) (packet : Packet) : Nat := packet.message.work w

/-- What a message sets off. -/
def rest (w : String → Nat) (packet : Packet) : Nat := work w packet - 1

/-- The rest of the server sends what amounts to `w` at most. -/
def Peer.Within (peer : Peer C) (w : String → Nat) : Prop :=
  ∀ nodeSelf text, total (work w) (peer.rest nodeSelf text) ≤ w text

theorem work_pos (w : String → Nat) (message : Message) : 0 < message.work w := by
  cases message with
  | broadcast bcIndex jsonPackage => exact Nat.mul_pos (Nat.two_pow_pos _) (Nat.succ_pos _)
  | _ => exact Nat.succ_pos _

theorem total_one_add_rest (w : String → Nat) (packets : List Packet) :
    total (fun _ => 1) packets + total (rest w) packets = total (work w) packets := by
  induction packets with
  | nil => rfl
  | cons packet packets ih =>
    have hpos := work_pos w packet.message
    have hpacket : 1 + rest w packet = work w packet := Nat.add_sub_cancel' hpos
    unfold total at ih ⊢
    rw [List.map_cons, List.sum_cons, List.map_cons, List.sum_cons, List.map_cons, List.sum_cons]
    omega

/-- The loop from index `i` on. -/
theorem total_work_broadcastFrom_le (w : String → Nat) (t : RouteTable C) (jsonPackage : Message) (i : Nat) :
    total (work w) (broadcastFrom t jsonPackage i) ≤ (2 ^ (i + 1) - 1) * (jsonPackage.work w + 1) := by
  have hpacket (i : Nat) : total (work w) ((t.getOuterNode i).map fun n =>
      (⟨n.ipAddress, n.port, .broadcast (i - 1) jsonPackage⟩ : Packet)).toList ≤
        2 ^ i * (jsonPackage.work w + 1) := by
    cases t.getOuterNode i with
    | none => exact Nat.zero_le _
    | some n => simp [total, work, Message.work]
  induction i with
  | zero =>
    rw [broadcastFrom, List.append_nil]
    exact hpacket 0
  | succ i ih =>
    have hhere := hpacket (i + 1)
    have hpow : 2 ^ (i + 1 + 1) - 1 = 2 ^ (i + 1) + (2 ^ (i + 1) - 1) := by
      have := Nat.one_le_two_pow (n := i + 1)
      rw [Nat.pow_succ]
      omega
    rw [broadcastFrom, total_append, hpow, Nat.add_mul]
    exact Nat.add_le_add hhere ih

theorem total_work_udpBroadcast_le (w : String → Nat) (t : RouteTable C) (jsonPackage : Message) (k : Int) :
    total (work w) (udpBroadcast k jsonPackage t) ≤ (2 ^ (k + 1).toNat - 1) * (jsonPackage.work w + 1) := by
  unfold udpBroadcast
  split
  next => exact Nat.zero_le _
  next hpos =>
    rw [show (k + 1).toNat = k.toNat + 1 by omega]
    exact total_work_broadcastFrom_le w t jsonPackage k.toNat

/-- **Step.**  What a reception sends amounts to less than what is received. -/
theorem total_work_handle {peer : Peer C} {w : String → Nat} (hrest : peer.Within w) (r : Reception C)
    (packet : Packet) : total (work w) (handle peer r packet) ≤ rest w packet := by
  rw [handle, rest, show work w packet = packet.message.work w from rfl]
  cases packet.message with
  | ping srcNode =>
    rw [receive, Ping.receive]
    split
    · exact Nat.le_refl _
    · exact Nat.zero_le _
  | pong dstNode status blockHeight =>
    rw [receive, Pong.receive]
    split <;> exact Nat.le_refl _
  | findNode srcNode dstNodeId =>
    rw [receive, FindNode.receive]
    split
    · split
      · exact Nat.zero_le _
      · exact Nat.le_refl _
    · exact Nat.zero_le _
  | toss node jsonPackage =>
    rw [receive, Toss.receive]
    split
    · exact Nat.le_refl _
    · exact Nat.zero_le _
  | broadcast bcIndex jsonPackage =>
    have hloop := total_work_udpBroadcast_le w r.table jsonPackage bcIndex
    have hpos := Nat.le_mul_of_pos_left (jsonPackage.work w + 1) (Nat.two_pow_pos (bcIndex + 1).toNat)
    have hself : total (work w) [⟨r.nodeSelf.ipAddress, r.nodeSelf.port, jsonPackage⟩] = jsonPackage.work w := rfl
    -- the forwarded messages, and the package that the node sends itself
    rw [receive, Broadcast.receive, total_append, hself, Message.work]
    rw [Nat.sub_mul, Nat.one_mul] at hloop
    omega
  | other text => exact hrest r.nodeSelf text

/-- **The traffic ends.**  However messages of any kind are delivered or lost, whoever receives them with
whatever tables, no more messages are sent than the first ones amount to, and no run in which every
event happens is longer. -/
theorem traffic_ends {peer : Peer C} {w : String → Nat} (hrest : peer.Within w) (packets : List Packet)
    (events : List (Event (Reception C))) :
    (run (step (handle peer) fun _ => 1) (.start (fun _ => 1) packets) events).sent ≤
        total (work w) packets ∧
      (Along (step (handle peer) fun _ => 1) Happens (.start (fun _ => 1) packets) events →
        events.length ≤ total (work w) packets) := by
  have hcost (r : Reception C) (packet : Packet) :
      total (fun _ => 1) (handle peer r packet) + total (rest w) (handle peer r packet) ≤ rest w packet := by
    rw [total_one_add_rest]
    exact total_work_handle hrest r packet
  have hsent := run_le hcost packets events
  rw [total_one_add_rest] at hsent
  exact ⟨hsent, fun h => (length_le_sent (handle peer) h).trans hsent⟩

/-- A toss of a broadcast of a toss of a broadcast, received by a node that has itself for its outer
node. -/
theorem traffic_ends_nested :
    (run (step (handle silent) fun _ => 1)
      (.start (fun _ => 1) [⟨"10.0.0.1", 4445, .toss alone.getJson (.broadcast 0 tossed)⟩])
      [.deliver 0 ⟨1, selfReferring, alone⟩, .deliver 0 ⟨2, selfReferring, alone⟩,
        .deliver 0 ⟨3, selfReferring, alone⟩, .lose 0]).sent ≤ 13 :=
  (traffic_ends (show silent.Within fun _ => 0 from fun _ _ => Nat.le_refl 0) _ _).1

end MoaCrypto.P2P
