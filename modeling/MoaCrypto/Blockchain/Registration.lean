import MoaCrypto.Lib.Run
import MoaCrypto.Blockchain.Node

/-!
# Registering the senders of pings and pongs (`Node.java`)

The constructors of `Node` set no coordinate, so the arithmetic of `getSubtreeIndex` is never
reached: `regist` ends in a `NullPointerException` for every node with a valid address
(`receive_threw`), before a ping is answered and before anything is entered into the tables.
-/

namespace MoaCrypto.P2P

open StepRun

variable {C : Type}

/-- A ping or pong with a node description whose address is valid. -/
def Valid (peer : Peer C) : Message → Prop
  | .ping node | .pong node _ _ => ∃ nodeId, node.nodeId = some nodeId ∧ peer.isValidAddress nodeId = true
  | _ => False

/-- The node ids in the tables, the outer one first. -/
def RouteTable.ids (t : RouteTable C) : List String :=
  t.nodeOuterTable.map (fun entry => entry.2.nodeId) ++ t.nodeInnerTable.map fun entry => entry.1.nodeId

def WellFormed (nodeSelf : Node C) (t : RouteTable C) : Prop := nodeSelf.nodeId ∉ t.ids ∧ t.ids.Nodup

/-- A ping gets a pong, sent to where its description says. -/
def Answered (message : Message) (sent : List Packet) : Prop :=
  match message with
  | .ping srcNode => ∃ packet ∈ sent, srcNode.ipAddress = some packet.ip ∧
      srcNode.port.bind Java.Integer.valueOf = some packet.port ∧
      ∃ dstNode status blockHeight, packet.message = .pong dstNode status blockHeight
  | _ => True

/-- A node that receives one message after the other, and how many objects there are. -/
def onMessage (peer : Peer C) (nodeSelf : Node C) (s : Nat × RouteTable C) (message : Message) :
    Nat × RouteTable C :=
  (s.1 + 1, (receive peer s.1 s.2 nodeSelf message).table)

/-- In every state of the run the tables are well formed, and every message is received without an
exception and, if it is a ping, answered. -/
def Registers (peer : Peer C) (nodeSelf : Node C) (messages : List Message) : Prop :=
  let start : Nat × RouteTable C := (1, .new nodeSelf)
  Along (onMessage peer nodeSelf)
      (fun s message => WellFormed nodeSelf s.2 ∧
        (receive peer s.1 s.2 nodeSelf message).threw = false ∧
        Answered message (receive peer s.1 s.2 nodeSelf message).sent)
      start messages ∧
    WellFormed nodeSelf (run (onMessage peer nodeSelf) start messages).2

/-- A node without a coordinate is an exception, if it is not one of those that are passed over. -/
theorem regist_eq_none {peer : Peer C} {t : RouteTable C} {node : Node C}
    (hvalid : peer.isValidAddress node.nodeId = true) (href : node.ref ≠ t.selfNode.ref)
    (hcoordinate : node.coordinate = none) : t.regist peer node = none := by
  have hindex : getSubtreeIndex peer t.selfNode.coordinate node.coordinate = none := by
    rw [hcoordinate]
    cases t.selfNode.coordinate <;> rfl
  rw [RouteTable.regist, if_neg (by simp [hvalid]), if_neg href, hindex]
  rfl

/-- No node that a description makes gets through `regist`, but for one whose address is not valid. -/
theorem register_eq_none {peer : Peer C} {t : RouteTable C} {ref : Nat} {nodeJson : NodeJson}
    {nodeId : String} (hid : nodeJson.nodeId = some nodeId) (hvalid : peer.isValidAddress nodeId = true)
    (href : ref ≠ t.selfNode.ref) : register peer t ref nodeJson = none := by
  unfold register
  cases hnode : (Node.ofJson ref nodeJson : Option (Node C)) with
  | none => rfl
  | some node =>
    unfold Node.ofJson at hnode
    cases hip : nodeJson.ipAddress with
    | none =>
      rw [hip] at hnode
      cases hnode
    | some ipAddress =>
      cases hport : nodeJson.port.bind Java.Integer.valueOf with
      | none =>
        rw [hip, hport] at hnode
        cases hnode
      | some port =>
        rw [hip, hport, hid] at hnode
        obtain rfl : Node.new ref ipAddress port nodeId = node := Option.some.inj hnode
        have hregist : t.regist peer (Node.new ref ipAddress port nodeId) = none :=
          regist_eq_none hvalid href rfl
        rw [Option.bind_some, hregist]
        rfl

/-- **Step.**  Every valid message ends in an exception, answers nothing and leaves the tables. -/
theorem receive_threw {peer : Peer C} (nodeSelf : Node C) {t : RouteTable C} {ref : Nat} {message : Message}
    (hvalid : Valid peer message) (href : ref ≠ t.selfNode.ref) :
    receive peer ref t nodeSelf message = ⟨t, [], true⟩ := by
  cases message with
  | ping srcNode =>
    obtain ⟨nodeId, hid, hok⟩ := hvalid
    rw [receive, Ping.receive, register_eq_none hid hok href]
  | pong dstNode status blockHeight =>
    obtain ⟨nodeId, hid, hok⟩ := hvalid
    rw [receive, Pong.receive, register_eq_none hid hok href]
  | findNode => cases hvalid
  | toss => cases hvalid
  | broadcast => cases hvalid
  | other => cases hvalid

/-- A whole run is one exception after the other, with no answer, and leaves the tables as they were. -/
theorem run_threw {peer : Peer C} (nodeSelf : Node C) {messages : List Message}
    (hvalid : ∀ message ∈ messages, Valid peer message) (s : Nat × RouteTable C)
    (href : s.2.selfNode.ref < s.1) :
    Along (onMessage peer nodeSelf)
        (fun s message => receive peer s.1 s.2 nodeSelf message = ⟨s.2, [], true⟩) s messages ∧
      (run (onMessage peer nodeSelf) s messages).2 = s.2 := by
  induction messages generalizing s with
  | nil => exact ⟨trivial, rfl⟩
  | cons message messages ih =>
    have hstep := receive_threw nodeSelf (hvalid message List.mem_cons_self) (Nat.ne_of_gt href)
    have hnext : onMessage peer nodeSelf s message = (s.1 + 1, s.2) := by rw [onMessage, hstep]
    have hrest := ih (fun m hm => hvalid m (List.mem_cons_of_mem _ hm)) (s.1 + 1, s.2) (Nat.lt_succ_of_lt href)
    rw [run_cons, hnext]
    exact ⟨⟨hstep, hnext ▸ hrest.1⟩, hrest.2⟩

/-- Registration does what it should just where there is nothing to register. -/
theorem registers_iff (peer : Peer C) (ipAddress : String) (port : Int) (nodeId : String)
    (messages : List Message) (hvalid : ∀ message ∈ messages, Valid peer message) :
    Registers peer (Node.new 0 ipAddress port nodeId) messages ↔ messages = [] := by
  constructor
  · rintro ⟨halong, -⟩
    cases messages with
    | nil => rfl
    | cons message messages =>
      have hrun := (run_threw (Node.new 0 ipAddress port nodeId) hvalid
        (1, .new (Node.new 0 ipAddress port nodeId)) Nat.one_pos).1
      have hthrew := halong.1.2.1
      rw [hrun.1] at hthrew
      cases hthrew
  · rintro rfl
    exact ⟨trivial, by simp [WellFormed, RouteTable.ids, RouteTable.new]⟩

/-- A peer that takes every address for valid. -/
def lenient : Peer Unit := ⟨fun _ => true, fun _ _ => 3, fun _ _ => []⟩

theorem registers_iff_ping : Registers lenient (Node.new 0 "10.0.0.1" 4445 "A")
    [.ping ⟨some "10.0.0.2", some "4445", some "B"⟩] ↔
      [Message.ping ⟨some "10.0.0.2", some "4445", some "B"⟩] = [] :=
  registers_iff lenient "10.0.0.1" 4445 "A" _ (by simp [Valid, lenient])

/-- The first ping that a node receives. -/
theorem not_registers_ping : ¬ Registers lenient (Node.new 0 "10.0.0.1" 4445 "A")
    [.ping ⟨some "10.0.0.2", some "4445", some "B"⟩] := by
  rintro ⟨halong, -⟩
  have hthrew := halong.1.2.1
  rw [receive_threw _ (by simp [Valid, lenient]) Nat.one_ne_zero] at hthrew
  cases hthrew

end MoaCrypto.P2P
