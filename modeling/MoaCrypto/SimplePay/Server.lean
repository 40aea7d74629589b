import MoaCrypto.SimplePay.Outcome
import MoaCrypto.Lib.Interleave

/-!
# Runs of the simple-pay server

Calls of any members are served one after the other (`serve`; the calls are kept with
their replies), or concurrently, each a thread of queries on the shared store
(`startCalls`).
-/

namespace MoaCrypto.SimplePay

open Java QueryProg

/-! ## One after the other -/

/-- The store and the calls answered so far, the newest first. -/
structure World where
  store : Store
  done : List (Call × JsonObject)

/-- One call, alone. -/
def serve (env : Env) (w : World) (call : Call) : World :=
  match (handle env call).run (perform env) w.store with
  | (.ok reply, s) => ⟨s, (call, reply) :: w.done⟩
  | (.error _, s) => ⟨s, w.done⟩

theorem serve_outcome (env : Env) (w : World) (call : Call) :
    ∃ reply s', serve env w call = ⟨s', (call, reply) :: w.done⟩ ∧
      Outcome env w.store call reply s' := by
  obtain ⟨reply, s', hrun, hout⟩ := outcome env call w.store
  refine ⟨reply, s', ?_, hout⟩
  unfold serve
  rw [hrun]

/-- A server with these cards that has not been called yet. -/
def World.start (cards : List CardVo) : World := ⟨{ Store.empty with cards := cards }, []⟩

/-! ## Concurrently -/

variable {ι : Type} [DecidableEq ι]

abbrev Log (ι : Type) := List (Event ι Query Answer)

abbrev Server (ι : Type) := Config ι Answer HandlerException JsonObject Store

/-- All calls about to start, on a server that has no challenge open. -/
def startCalls (env : Env) (cards : List CardVo) (calls : ι → Call) : Server ι :=
  Config.start { Store.empty with cards := cards } fun i => handle env (calls i)

/-- A card in use, for small runs. -/
def activeCard : CardVo where
  MEMBER_ID := "m"
  CARD_TOKEN := "t"
  BILL_KEY := "b"
  SECRET_KEY := "c2VjcmV0"
  USE_FLAG := "Y"

end MoaCrypto.SimplePay
