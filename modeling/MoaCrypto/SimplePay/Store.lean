import MoaCrypto.Lib.Prog
import MoaCrypto.Java.Base64
import MoaCrypto.Java.Sha256
import Mathlib.Logic.Function.Basic

/-!
# What the simple-pay server talks to

The handlers share a memory worker (one entry for each member), the card table
behind `SqlMapCardDao`, the merchant's callbacks and the KICC gateway.  Every
access is a query; `perform` answers it.

A DAO statement is one atomic query, answered `none` where it throws.  The columns
that an insert does not name take the defaults of the schema, which is not part of
the repository; a `NULL` column reads as the field's default, so a row is a
`CardVo`.  Random ids, the merchant and the gateway may answer differently at every
call: their answers in `Env` depend on the number of such calls made before.
-/

namespace MoaCrypto.SimplePay

open Java QueryProg

/-! ## Records -/

/-- `MoaMemoryVo`: the nonce in `memory1`, the order id or the new secret key in `memory2`. -/
structure MoaMemoryVo where
  actionType : String
  actionStep : String
  memory1 : String
  memory2 : String
  deriving DecidableEq

structure CardVo where
  MEMBER_ID : String := ""
  SEQ : Int := -1
  CNO : String := ""
  BILL_KEY : String := ""
  CARD_TOKEN : String := ""
  SECRET_KEY : String := ""
  CARD_NICK : String := ""
  USE_FLAG : String := ""
  ISSUER_NM : String := ""
  ISSUER_CD : String := ""
  deriving DecidableEq

structure CardChgPwdHisVo where
  MEMBER_ID : String
  CHANGE_CODE : String
  CHANGE_REASON : String
  deriving DecidableEq

/-- Members of a request or a reply, or the entries of the merchant's map, all texts. -/
abbrev JsonObject := List (String × String)

def JsonObject.get (json : JsonObject) (key : String) : Option String := List.lookup key json

/-- `addProperty`: an older member of the name is replaced. -/
def JsonObject.addProperty (json : JsonObject) (key value : String) : JsonObject :=
  json.filter (fun member => member.1 ≠ key) ++ [(key, value)]

/-- The fields of an approval request that are set; those from the merchant's map may be missing. -/
structure KiccTranSendVo where
  tr_cd : String
  card_txtype : String
  req_type : String
  wcc : String
  noint : String
  install_period : String
  mall_id : Option String
  order_no : Option String
  currency : Option String
  product_nm : Option String
  product_amt : Option String
  tot_amt : Option String
  card_amt : Option String
  user_id : Option String
  memb_user_no : Option String
  user_nm : Option String
  user_mail : Option String
  user_phone1 : Option String
  user_phone2 : Option String
  user_addr : Option String
  product_type : Option String
  card_no : String
  client_ip : String
  deriving DecidableEq

/-- The fields of a gateway response that the server reads. -/
structure KiccTranResultVo where
  r_res_cd : String
  r_res_msg : String
  r_order_no : String
  r_canc_date : String
  deriving DecidableEq

/-! ## Queries -/

inductive Query
  | memPut (memberId : String) (vo : MoaMemoryVo)
  | memGet (memberId : String)
  | memRemove (memberId : String)
  | addCardInfo (vo : CardVo)
  | getCardInfo (vo : CardVo)
  | getUserCardList (memberId : String)
  | updateCardInfo (vo : CardVo)
  | confirmkUserCardPwd (vo : CardVo)
  | changePwdSimplePay (vo : CardVo)
  | addCardChgPwdHis (vo : CardChgPwdHisVo)
  | randomUUID
  | getUserPayInfo (orderId : String)
  | easypay_run (vo : KiccTranSendVo)
  | payCallBack (vo : KiccTranResultVo)
  | cancle (orderId clientIp : String)

/-- Rows, row counts or texts; `none` where a statement or a callback throws, where the memory
has no entry, and (inside) where the merchant does not know the order. -/
@[reducible] def Answer : Query → Type
  | .memPut _ _ => Unit
  | .memGet _ => Option MoaMemoryVo
  | .memRemove _ => Unit
  | .addCardInfo _ => Option Int
  | .getCardInfo _ => Option (List CardVo)
  | .getUserCardList _ => Option (List CardVo)
  | .updateCardInfo _ => Option Int
  | .confirmkUserCardPwd _ => Option Int
  | .changePwdSimplePay _ => Option Int
  | .addCardChgPwdHis _ => Option Int
  | .randomUUID => String
  | .getUserPayInfo _ => Option (Option JsonObject)
  | .easypay_run _ => Option KiccTranResultVo
  | .payCallBack _ => Option Int
  | .cancle _ _ => Option Int

/-- What lies outside the repository: the columns' defaults, the random ids, the merchant, the
gateway. -/
structure Env where
  columnDefaults : CardVo
  uuid : Nat → String
  getUserPayInfo : Nat → String → Option (Option JsonObject)
  easypay_run : Nat → KiccTranSendVo → Option KiccTranResultVo
  payCallBack : Nat → KiccTranResultVo → Option Int
  cancle : Nat → String → String → Option Int
  cardRegistReturnUrl : String

/-- A merchant who knows every order and a gateway that approves everything. -/
def Env.willing : Env where
  columnDefaults := { USE_FLAG := "N" }
  uuid n := "nonce" ++ toString n
  getUserPayInfo _ orderId := some (some [("order_no", orderId)])
  easypay_run _ vo := some ⟨"0000", "", vo.order_no.getD "", ""⟩
  payCallBack _ _ := some 1
  cancle _ _ _ := some 1
  cardRegistReturnUrl := "/"

/-- The shared state; `approvals` are the requests the gateway has received, oldest first, and
`calls` counts the answers taken from outside. -/
structure Store where
  memory : String → Option MoaMemoryVo
  cards : List CardVo
  history : List CardChgPwdHisVo
  approvals : List KiccTranSendVo
  calls : Nat

def Store.empty : Store := ⟨fun _ => none, [], [], [], 0⟩

/-! ## The statements of `cardMapper.xml` -/

/-- `addCardInfo`: the columns it names, the others by default. -/
def Env.insertedCard (env : Env) (vo : CardVo) : CardVo :=
  { env.columnDefaults with
    MEMBER_ID := vo.MEMBER_ID, SEQ := vo.SEQ, BILL_KEY := vo.BILL_KEY,
    CARD_TOKEN := vo.CARD_TOKEN, SECRET_KEY := vo.SECRET_KEY, CARD_NICK := vo.CARD_NICK }

/-- `updateCardInfo`, on the rows of the token: the issuer and the member stay. -/
def CardVo.update (vo row : CardVo) : CardVo :=
  if row.CARD_TOKEN = vo.CARD_TOKEN then
    { row with
      SEQ := vo.SEQ, CNO := vo.CNO, BILL_KEY := vo.BILL_KEY, CARD_TOKEN := vo.CARD_TOKEN,
      SECRET_KEY := vo.SECRET_KEY, CARD_NICK := vo.CARD_NICK, USE_FLAG := vo.USE_FLAG }
  else row

/-- `changePwdSimplePay`, on all rows of the member. -/
def CardVo.changePwd (vo row : CardVo) : CardVo :=
  if row.MEMBER_ID = vo.MEMBER_ID then { row with SECRET_KEY := vo.SECRET_KEY } else row

/-- `getUserCardList`: the selected columns of the member's active rows. -/
def userCardList (cards : List CardVo) (memberId : String) : List CardVo :=
  (cards.filter fun row => row.MEMBER_ID = memberId ∧ row.USE_FLAG = "Y").map fun row =>
    { CARD_TOKEN := row.CARD_TOKEN, SEQ := row.SEQ, MEMBER_ID := row.MEMBER_ID,
      CARD_NICK := row.CARD_NICK, ISSUER_NM := row.ISSUER_NM }

/-- Every query at its word.  `confirmkUserCardPwd` throws: its statement names the parameter
`MEM BER_ID`, which a `CardVo` does not have. -/
def perform (env : Env) : (q : Query) → Store → Answer q × Store
  | .memPut memberId vo, s => ((), { s with memory := Function.update s.memory memberId (some vo) })
  | .memGet memberId, s => (s.memory memberId, s)
  | .memRemove memberId, s => ((), { s with memory := Function.update s.memory memberId none })
  | .addCardInfo vo, s => (some 1, { s with cards := s.cards ++ [env.insertedCard vo] })
  | .getCardInfo vo, s => (some (s.cards.filter fun row => row.CARD_TOKEN = vo.CARD_TOKEN), s)
  | .getUserCardList memberId, s => (some (userCardList s.cards memberId), s)
  | .updateCardInfo vo, s =>
    (some (s.cards.countP fun row => row.CARD_TOKEN = vo.CARD_TOKEN),
      { s with cards := s.cards.map vo.update })
  | .confirmkUserCardPwd _, s => (none, s)
  | .changePwdSimplePay vo, s =>
    (some (s.cards.countP fun row => row.MEMBER_ID = vo.MEMBER_ID),
      { s with cards := s.cards.map vo.changePwd })
  | .addCardChgPwdHis vo, s => (some 1, { s with history := s.history ++ [vo] })
  | .randomUUID, s => (env.uuid s.calls, { s with calls := s.calls + 1 })
  | .getUserPayInfo orderId, s =>
    (env.getUserPayInfo s.calls orderId, { s with calls := s.calls + 1 })
  | .easypay_run vo, s =>
    (env.easypay_run s.calls vo, { s with approvals := s.approvals ++ [vo], calls := s.calls + 1 })
  | .payCallBack vo, s => (env.payCallBack s.calls vo, { s with calls := s.calls + 1 })
  | .cancle orderId clientIp, s =>
    (env.cancle s.calls orderId clientIp, { s with calls := s.calls + 1 })

/-! ## Members of an object -/

theorem lookup_append (l m : List (String × String)) (key : String) :
    (l ++ m).lookup key = (l.lookup key).or (m.lookup key) := by
  induction l with
  | nil => simp
  | cons a l ih =>
    obtain ⟨k, v⟩ := a
    rw [List.cons_append, List.lookup_cons, List.lookup_cons]
    by_cases h : key == k
    · simp [h]
    · simp [h, ih]

theorem lookup_filter_ne (l : List (String × String)) {key key' : String} (h : key ≠ key') :
    (l.filter fun member => member.1 ≠ key').lookup key = l.lookup key := by
  induction l with
  | nil => rfl
  | cons a l ih =>
    obtain ⟨k, v⟩ := a
    by_cases hk : k = key'
    · subst hk
      have hne : (key == k) = false := by simpa using h
      simpa [List.lookup_cons, hne] using ih
    · rw [List.filter_cons_of_pos (by simpa using hk), List.lookup_cons, List.lookup_cons, ih]

theorem lookup_filter_self (l : List (String × String)) (key : String) :
    (l.filter fun member => member.1 ≠ key).lookup key = none := by
  induction l with
  | nil => rfl
  | cons a l ih =>
    obtain ⟨k, v⟩ := a
    by_cases hk : k = key
    · rw [List.filter_cons_of_neg (by simpa using hk)]
      exact ih
    · have hne : (key == k) = false := by simpa using fun h => hk h.symm
      rw [List.filter_cons_of_pos (by simpa using hk), List.lookup_cons]
      simp only [hne]
      exact ih

@[simp] theorem JsonObject.get_addProperty_self (json : JsonObject) (key value : String) :
    (json.addProperty key value).get key = some value := by
  rw [JsonObject.get, JsonObject.addProperty, lookup_append, lookup_filter_self]
  simp

theorem JsonObject.get_addProperty_ne (json : JsonObject) {key key' : String} (value : String)
    (h : key ≠ key') : (json.addProperty key' value).get key = json.get key := by
  have hne : (key == key') = false := by simpa using h
  rw [JsonObject.get, JsonObject.addProperty, lookup_append, lookup_filter_ne _ h]
  simp [List.lookup_cons, hne, JsonObject.get]

/-! ## What an update leaves -/

@[simp] theorem CardVo.update_MEMBER_ID (vo row : CardVo) :
    (vo.update row).MEMBER_ID = row.MEMBER_ID := by
  unfold CardVo.update
  split
  · rfl
  · rfl

@[simp] theorem CardVo.update_CARD_TOKEN (vo row : CardVo) :
    (vo.update row).CARD_TOKEN = row.CARD_TOKEN := by
  unfold CardVo.update
  split
  · next h => exact h.symm
  · rfl

theorem CardVo.update_of_ne {vo row : CardVo} (h : row.CARD_TOKEN ≠ vo.CARD_TOKEN) :
    vo.update row = row := if_neg h

@[simp] theorem CardVo.changePwd_MEMBER_ID (vo row : CardVo) :
    (vo.changePwd row).MEMBER_ID = row.MEMBER_ID := by
  unfold CardVo.changePwd
  split
  · rfl
  · rfl

@[simp] theorem CardVo.changePwd_CARD_TOKEN (vo row : CardVo) :
    (vo.changePwd row).CARD_TOKEN = row.CARD_TOKEN := by
  unfold CardVo.changePwd
  split
  · rfl
  · rfl

@[simp] theorem CardVo.changePwd_USE_FLAG (vo row : CardVo) :
    (vo.changePwd row).USE_FLAG = row.USE_FLAG := by
  unfold CardVo.changePwd
  split
  · rfl
  · rfl

theorem CardVo.changePwd_of_ne {vo row : CardVo} (h : row.MEMBER_ID ≠ vo.MEMBER_ID) :
    vo.changePwd row = row := if_neg h

end MoaCrypto.SimplePay
