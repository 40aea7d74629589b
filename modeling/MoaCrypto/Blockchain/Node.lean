import MoaCrypto.Java.Decimal

/-!
# Peers and their messages (`Node.java`)

A node description in a message becomes a new `Node` object each time.  `Node` has no `equals`, so
two of them are the same (`==`, the keys of `nodeInnerTable`) where they are one object; `ref` stands
for the object.  The constructors leave `coordinate` at `null`, and `getSubtreeIndex` reads it.

What is not in the repository is a parameter: the check of an address (`Crypto.isValidAddress`), the
arithmetic on coordinates, and what the server does with messages that are none of these
(`Peer.rest`).
-/

namespace MoaCrypto.P2P

open Java

/-! ## Data -/

/-- The fields of a node description as texts, `none` where one is missing. -/
structure NodeJson where
  ipAddress : Option String
  port : Option String
  nodeId : Option String

structure Node (C : Type) where
  ref : Nat
  coordinate : Option C
  ipAddress : String
  port : Int
  nodeId : String
  blockHeight : Int

inductive ServerStatus
  | PING_RESPONSE
  | FIND_RESPONSE_NODE_NOT_FOUND

/-- A JSON object by its `property`. -/
inductive Message
  | ping (srcNode : NodeJson)
  | pong (dstNode : NodeJson) (status : ServerStatus) (blockHeight : Option String)
  | findNode (srcNode : NodeJson) (dstNodeId : Option String)
  | toss (bypassNode : NodeJson) (jsonPackage : Message)
  | broadcast (bcIndex : Int) (jsonPackage : Message)
  | other (text : String)

/-- What `sendMessageToServer` is called with. -/
structure Packet where
  ip : String
  port : Int
  message : Message

structure Peer (C : Type) where
  isValidAddress : String → Bool
  subtreeIndex : C → C → Int
  rest : Node C → String → List Packet

variable {C : Type}

/-- `new Node(ipAddress, port, nodeId)`. -/
def Node.new (ref : Nat) (ipAddress : String) (port : Int) (nodeId : String) : Node C :=
  ⟨ref, none, ipAddress, port, nodeId, 0⟩

/-- `new Node(nodeJson)`; `none` where it throws. -/
def Node.ofJson (ref : Nat) (nodeJson : NodeJson) : Option (Node C) := do
  let ipAddress ← nodeJson.ipAddress
  let port ← nodeJson.port.bind Integer.valueOf
  let nodeId ← nodeJson.nodeId
  return Node.new ref ipAddress port nodeId

def Node.getJson (n : Node C) : NodeJson :=
  ⟨some n.ipAddress, some (String.ofList (intDigits n.port)), some n.nodeId⟩

/-! ## The routing table -/

structure RouteTable (C : Type) where
  nodeOuterTable : List (Int × Node C)
  nodeInnerTable : List (Node C × Int)
  selfNode : Node C

def DIVIDE_COUNT : Int := 3

def RouteTable.new (selfNode : Node C) : RouteTable C := ⟨[], [], selfNode⟩

def RouteTable.getOuterNode (t : RouteTable C) (idx : Int) : Option (Node C) := t.nodeOuterTable.lookup idx

/-- `getSubtreeIndex`; `none` is the `NullPointerException` at a coordinate that is `null`. -/
def getSubtreeIndex (peer : Peer C) (srcCoordinate dstCoordinate : Option C) : Option Int :=
  match srcCoordinate, dstCoordinate with
  | some c1, some c2 => some (peer.subtreeIndex c1 c2)
  | _, _ => none

def RouteTable.regist (peer : Peer C) (t : RouteTable C) (replyedNode : Node C) : Option (RouteTable C) :=
  if !peer.isValidAddress replyedNode.nodeId then some t
  else if replyedNode.ref = t.selfNode.ref then some t
  else
    (getSubtreeIndex peer t.selfNode.coordinate replyedNode.coordinate).map fun idx =>
      if idx < 0 then t
      else if idx = DIVIDE_COUNT then
        if t.nodeInnerTable.any fun entry => entry.1.ref = replyedNode.ref then t
        else { t with nodeInnerTable := t.nodeInnerTable ++ [(replyedNode, 10)] }
      else
        match t.getOuterNode idx with
        | none => { t with nodeOuterTable := t.nodeOuterTable ++ [(idx, replyedNode)] }
        | some _ => t

/-! ## Receiving -/

/-- The table after a `receive`, what was sent, and whether it ended in an exception. -/
structure Outcome (C : Type) where
  table : RouteTable C
  sent : List Packet
  threw : Bool

/-- The pong that a node answers with. -/
def answer (nodeSelf srcNode : Node C) (status : ServerStatus) : Packet :=
  ⟨srcNode.ipAddress, srcNode.port,
    .pong nodeSelf.getJson status (some (String.ofList (intDigits nodeSelf.blockHeight)))⟩

/-- `new BigInteger(s)` succeeds. -/
def isBigInteger (s : String) : Bool :=
  (splitSign s.toList).2 != [] && (digitsFrom 0 (splitSign s.toList).2).isSome

/-- A node description made a node, `ref` being the new object, and registered. -/
def register (peer : Peer C) (t : RouteTable C) (ref : Nat) (nodeJson : NodeJson) :
    Option (Node C × RouteTable C) :=
  (Node.ofJson ref nodeJson).bind fun node => (t.regist peer node).map fun t' => (node, t')

def Ping.receive (peer : Peer C) (srcJson : NodeJson) (ref : Nat) (t : RouteTable C) (nodeSelf : Node C) :
    Outcome C :=
  match register peer t ref srcJson with
  | some (srcNode, t') => ⟨t', [answer nodeSelf srcNode .PING_RESPONSE], false⟩
  | none => ⟨t, [], true⟩

def Pong.receive (peer : Peer C) (dstJson : NodeJson) (blockHeight : Option String) (ref : Nat)
    (t : RouteTable C) : Outcome C :=
  match register peer t ref dstJson with
  | some (_, t') => ⟨t', [], !(blockHeight.any isBigInteger)⟩
  | none => ⟨t, [], true⟩

/-- `searchedNode` is `null` whatever is looked for. -/
def FindNode.receive (peer : Peer C) (srcJson : NodeJson) (dstNodeId : Option String) (ref : Nat)
    (t : RouteTable C) (nodeSelf : Node C) : Outcome C :=
  match register peer t ref srcJson with
  | some (srcNode, t') =>
    if dstNodeId.isNone then ⟨t', [], true⟩
    else ⟨t', [answer nodeSelf srcNode .FIND_RESPONSE_NODE_NOT_FOUND], false⟩
  | none => ⟨t, [], true⟩

def Toss.receive (bypassNode : NodeJson) (jsonPackage : Message) (t : RouteTable C) : Outcome C :=
  match bypassNode.ipAddress, bypassNode.port.bind Integer.valueOf with
  | some ip, some port => ⟨t, [⟨ip, port, jsonPackage⟩], false⟩
  | _, _ => ⟨t, [], true⟩

/-- `for (int i = bcIndex; i >= 0; i--)` from `i` on. -/
def broadcastFrom (t : RouteTable C) (jsonPackage : Message) (i : Nat) : List Packet :=
  let packet := (t.getOuterNode i).map fun n =>
    (⟨n.ipAddress, n.port, .broadcast (i - 1) jsonPackage⟩ : Packet)
  packet.toList ++
    match i with
    | 0 => []
    | i + 1 => broadcastFrom t jsonPackage i

def udpBroadcast (bcIndex : Int) (jsonPackage : Message) (t : RouteTable C) : List Packet :=
  if bcIndex < 0 then [] else broadcastFrom t jsonPackage bcIndex.toNat

/-- The messages of the loop, then the package to the node itself. -/
def Broadcast.receive (bcIndex : Int) (jsonPackage : Message) (t : RouteTable C) (nodeSelf : Node C) : Outcome C :=
  ⟨t, udpBroadcast bcIndex jsonPackage t ++ [⟨nodeSelf.ipAddress, nodeSelf.port, jsonPackage⟩], false⟩

/-- A message to the `receive` of its class. -/
def receive (peer : Peer C) (ref : Nat) (t : RouteTable C) (nodeSelf : Node C) : Message → Outcome C
  | .ping srcNode => Ping.receive peer srcNode ref t nodeSelf
  | .pong dstNode _ blockHeight => Pong.receive peer dstNode blockHeight ref t
  | .findNode srcNode dstNodeId => FindNode.receive peer srcNode dstNodeId ref t nodeSelf
  | .toss bypassNode jsonPackage => Toss.receive bypassNode jsonPackage t
  | .broadcast bcIndex jsonPackage => Broadcast.receive bcIndex jsonPackage t nodeSelf
  | .other text => ⟨t, peer.rest nodeSelf text, false⟩

end MoaCrypto.P2P
