import MoaCrypto.Java.Tokenizer
import MoaCrypto.Lib.Run

/-!
# `SymmetricCoreAPI.java`

The cipher object, key, IV and names that a constructor call works out are fields of the class, not
of the instance: a constructor call that fails keeps what it has written, and a call on an instance
uses what the last constructor calls left.  `SymmetricEncryptData` and `SymmetricDecryptData` return
an array of zeros, not null, where only `doFinal` throws.

So a call on an instance computes that instance's own cipher, or returns null, in every run in which
each call finds fields that give its instance's cipher, or no cipher at all, and data that the cipher
takes (`no_interference`).  Exceptions are `none`; the provider is the parameter `Jce`.
-/

namespace MoaCrypto.SymmetricCoreAPI

open Java StepRun

inductive OpMode
  | encrypt
  | decrypt
  deriving DecidableEq

/-- `new SecretKeySpec(key, algorithm)` throws on an empty key. -/
structure SecretKeySpec where
  key : List UInt8
  algorithm : String
  nonempty : key ≠ []

/-- `javax.crypto.Cipher` of the providers: `Cipher` are its objects, `Ready` the initialised ones,
and `Random` is what `init` may draw where a parameter is missing. -/
structure Jce (Cipher Ready Random : Type) where
  getInstance : String → Option String → Option Cipher
  getBlockSize : Cipher → Nat
  /-- Whether `init(opmode, key)` returns. -/
  initKey : Cipher → OpMode → Option SecretKeySpec → Random → Bool
  /-- `init(opmode, key, iv)`. -/
  init : Cipher → OpMode → Option SecretKeySpec → Option (List UInt8) → Random → Option Ready
  getOutputSize : Ready → Nat → Nat
  doFinal : Ready → List UInt8 → Option (List UInt8)

/-- The arguments of the constructor, each of them possibly null. -/
structure Args where
  cryptonameModePadtype : Option String
  ivBytes : Option (List UInt8)
  keyBytes : Option (List UInt8)
  providerStr : Option String

/-- The static fields. -/
structure Statics (Cipher : Type) where
  cipher : Option Cipher
  ivSpec : Option (List UInt8)
  keySpec : Option SecretKeySpec
  atCryptoAlgName : Option String
  atModeType : Option String

section

variable {Cipher Ready Random : Type} (jce : Jce Cipher Ready Random)

/-- The fields of the loaded class. -/
def Statics.initial : Statics Cipher := ⟨none, none, none, none, none⟩

/-- The size check: 128, 192 or 256 bits for blocks of 128. -/
def ValidKeySize (blockSize keySize : Nat) : Prop :=
  blockSize = keySize ∨ blockSize + 8 = keySize ∨ blockSize + 16 = keySize

instance (blockSize keySize : Nat) : Decidable (ValidKeySize blockSize keySize) :=
  inferInstanceAs (Decidable (_ ∨ _))

/-- The part of the constructor that sets key and IV. -/
def setKey (args : Args) (alg mode : String) (cipher : Cipher) (s : Statics Cipher) : Statics Cipher :=
  match args.keyBytes with
  | none => s
  | some keyBytes =>
    if ¬ ValidKeySize (jce.getBlockSize cipher) keyBytes.length then s
    else if h : keyBytes = [] then s
    else
      let s := { s with keySpec := some ⟨keyBytes, alg, h⟩ }
      if mode = "ECB" then s
      else match args.ivBytes with
        | none => s
        | some ivBytes => { s with ivSpec := some ivBytes }

/-- The constructor with arguments, what it has set staying set where it throws. -/
def construct (args : Args) (s : Statics Cipher) : Statics Cipher :=
  match args.cryptonameModePadtype with
  | none => s
  | some spec =>
    match tokens '/' spec with
    | [] => s
    | [alg] => { s with atCryptoAlgName := some alg }
    | alg :: mode :: _ =>
      let s := { s with atCryptoAlgName := some alg, atModeType := some mode }
      match jce.getInstance spec args.providerStr with
      | none => s
      | some cipher => setKey jce args alg mode cipher { s with cipher := some cipher }

/-- The initialisation of the cipher object with which both methods begin. -/
def Statics.ready (opmode : OpMode) (r : Random) (s : Statics Cipher) : Option Ready :=
  s.atModeType.bind fun mode => s.cipher.bind fun cipher =>
    if mode = "ECB" ∧ jce.initKey cipher opmode s.keySpec r = false then none
    else jce.init cipher opmode s.keySpec s.ivSpec r

/-- The rest of both: the array of `getOutputSize` bytes is returned where `doFinal` throws. -/
def finish (ready : Ready) (data : List UInt8) : List UInt8 :=
  (jce.doFinal ready data).getD (List.replicate (jce.getOutputSize ready data.length) 0)

/-- The body that the two methods share up to the mode. -/
def symmetricData (opmode : OpMode) (s : Statics Cipher) (r : Random) (data : Option (List UInt8)) :
    Option (List UInt8) :=
  (s.ready jce opmode r).bind fun ready => data.map (finish jce ready)

def symmetricEncryptData : Statics Cipher → Random → Option (List UInt8) → Option (List UInt8) :=
  symmetricData jce .encrypt

def symmetricDecryptData : Statics Cipher → Random → Option (List UInt8) → Option (List UInt8) :=
  symmetricData jce .decrypt

/-! ## The cipher of an instance -/

/-- The cipher that the arguments ask for, initialised. -/
def Args.ready (opmode : OpMode) (r : Random) (args : Args) : Option Ready :=
  args.cryptonameModePadtype.bind fun spec =>
    match tokens '/' spec with
    | alg :: mode :: _ =>
      (jce.getInstance spec args.providerStr).bind fun cipher => args.keyBytes.bind fun keyBytes =>
        if h : keyBytes = [] then none
        else if mode = "ECB" then jce.init cipher opmode (some ⟨keyBytes, alg, h⟩) none r
        else args.ivBytes.bind fun ivBytes =>
          jce.init cipher opmode (some ⟨keyBytes, alg, h⟩) (some ivBytes) r
    | _ => none

/-- What that cipher computes, `none` where it throws. -/
def Args.compute (args : Args) (opmode : OpMode) (r : Random) (data : List UInt8) : Option (List UInt8) :=
  (args.ready jce opmode r).bind fun ready => jce.doFinal ready data

/-- Decryption gives back what the cipher has encrypted. -/
def Args.Inverts (args : Args) : Prop :=
  ∀ r r' data out out', args.compute jce .encrypt r data = some out →
    args.compute jce .decrypt r' out = some out' → out' = data

/-! ## Histories -/

/-- A call that was made, on the instance `on`. -/
structure Entry (Random : Type) where
  on : Nat
  opmode : OpMode
  random : Random
  data : Option (List UInt8)
  result : Option (List UInt8)

/-- The class, the arguments of the instances in the order of their construction, and the calls so
far. -/
structure World (Cipher Random : Type) where
  statics : Statics Cipher
  instances : List (Option Args)
  log : List (Entry Random)

inductive Event (Random : Type)
  | new
  | newWith (args : Args)
  | call (on : Nat) (opmode : OpMode) (r : Random) (data : Option (List UInt8))

def World.initial : World Cipher Random := ⟨.initial, [], []⟩

def call (opmode : OpMode) : Statics Cipher → Random → Option (List UInt8) → Option (List UInt8) :=
  match opmode with
  | .encrypt => symmetricEncryptData jce
  | .decrypt => symmetricDecryptData jce

/-- There is no call on an instance that was not constructed. -/
def step (w : World Cipher Random) : Event Random → World Cipher Random
  | .new => { w with instances := w.instances ++ [none] }
  | .newWith args => { w with
      statics := construct jce args w.statics
      instances := w.instances ++ [some args] }
  | .call on opmode r data =>
    if on < w.instances.length then
      { w with log := w.log ++ [⟨on, opmode, r, data, call jce opmode w.statics r data⟩] }
    else w

/-- The result is null, or what the cipher of the instance computes. -/
def Entry.IsOwn (instances : List (Option Args)) (e : Entry Random) : Prop :=
  e.result = none ∨ ∃ args data out, instances[e.on]? = some (some args) ∧ e.data = some data ∧
    args.compute jce e.opmode e.random data = some out ∧ e.result = some out

/-- The condition on a step.  A call finds fields that give no initialised cipher, or the one that
the arguments of its instance give, which takes the data. -/
def Undisturbed (w : World Cipher Random) : Event Random → Prop
  | .call on opmode r data => on < w.instances.length → ∀ ready, w.statics.ready jce opmode r = some ready →
      ∀ bytes, data = some bytes → (jce.doFinal ready bytes).isSome = true ∧
        ∃ args, w.instances[on]? = some (some args) ∧ args.ready jce opmode r = some ready
  | _ => True

theorem call_eq (opmode : OpMode) : call jce opmode = symmetricData jce opmode := by
  cases opmode <;> rfl

/-- **Step.**  What an undisturbed call returns is null or its instance's own. -/
theorem isOwn_call {w : World Cipher Random} {on : Nat} {opmode : OpMode} {r : Random}
    {data : Option (List UInt8)} (hon : on < w.instances.length)
    (h : Undisturbed jce w (.call on opmode r data)) :
    Entry.IsOwn jce w.instances ⟨on, opmode, r, data, call jce opmode w.statics r data⟩ := by
  unfold Entry.IsOwn
  rw [call_eq]
  rcases hready : w.statics.ready jce opmode r with _ | ready
  · left
    rw [symmetricData, hready]
    rfl
  · rcases data with _ | bytes
    · left
      rw [symmetricData, hready]
      rfl
    · right
      obtain ⟨hsome, args, hargs, hown⟩ := h hon ready hready bytes rfl
      obtain ⟨out, hout⟩ := Option.isSome_iff_exists.mp hsome
      refine ⟨args, bytes, out, hargs, rfl, ?_, ?_⟩
      · rw [Args.compute, hown, Option.bind_some, hout]
      · rw [symmetricData, hready, Option.bind_some, Option.map_some, finish, hout, Option.getD_some]

theorem Entry.IsOwn.append {instances : List (Option Args)} {e : Entry Random}
    (h : e.IsOwn jce instances) (more : List (Option Args)) : e.IsOwn jce (instances ++ more) := by
  rcases h with h | ⟨args, data, out, hargs, h⟩
  · exact Or.inl h
  · refine Or.inr ⟨args, data, out, ?_, h⟩
    obtain ⟨hlt, -⟩ := List.getElem?_eq_some_iff.mp hargs
    rwa [List.getElem?_append_left hlt]

theorem isOwn_step {w : World Cipher Random} {event : Event Random}
    (hlog : ∀ e ∈ w.log, e.IsOwn jce w.instances) (h : Undisturbed jce w event) :
    ∀ e ∈ (step jce w event).log, e.IsOwn jce (step jce w event).instances := by
  cases event with
  | new => exact fun e he => (hlog e he).append jce _
  | newWith args => exact fun e he => (hlog e he).append jce _
  | call on opmode r data =>
    by_cases hon : on < w.instances.length
    · rw [step, if_pos hon]
      intro e he
      rcases List.mem_append.mp he with he | he
      · exact hlog e he
      · rw [List.mem_singleton.mp he]
        exact isOwn_call jce hon h
    · rw [step, if_neg hon]
      exact hlog

/-- What the same instance decrypts is what it has encrypted. -/
theorem decrypted_of_isOwn {instances : List (Option Args)} {e d : Entry Random} {args : Args}
    (he : e.IsOwn jce instances) (hd : d.IsOwn jce instances) (hon : d.on = e.on)
    (hencrypt : e.opmode = .encrypt) (hdecrypt : d.opmode = .decrypt) (hdata : d.data = e.result)
    (hargs : instances[e.on]? = some (some args)) (hinverts : args.Inverts jce) :
    d.result = none ∨ d.result = e.data := by
  rcases hd with hd | ⟨args', bytes, out', hargs', hbytes, hcompute, hresult⟩
  · exact Or.inl hd
  · rcases he with he | ⟨args'', plain, out, hargs'', hplain, hcompute', hresult'⟩
    · rw [hdata, he] at hbytes
      cases hbytes
    · rw [hon, hargs] at hargs'
      rw [hargs] at hargs''
      cases hargs'
      cases hargs''
      rw [hdata, hresult'] at hbytes
      cases hbytes
      rw [hencrypt] at hcompute'
      rw [hdecrypt] at hcompute
      rw [hresult, hplain, hinverts _ _ _ _ _ hcompute' hcompute]
      exact Or.inr rfl

/-- The constructor gets to its end with these names, cipher and key. -/
structure Args.Configures (args : Args) (alg mode : String) (cipher : Cipher) (keyBytes : List UInt8) :
    Prop where
  transformation : ∃ spec rest, args.cryptonameModePadtype = some spec ∧
    tokens '/' spec = alg :: mode :: rest ∧ jce.getInstance spec args.providerStr = some cipher
  key : args.keyBytes = some keyBytes
  size : ValidKeySize (jce.getBlockSize cipher) keyBytes.length
  nonempty : keyBytes ≠ []
  iv : mode ≠ "ECB" → args.ivBytes.isSome = true

variable {jce}

/-- Fields left by the constructor give the cipher of its arguments, if they give one; a class that
has an IV from before must not be set to `ECB`. -/
theorem Args.Configures.ready {args : Args} {alg mode : String} {cipher : Cipher}
    {keyBytes : List UInt8} (h : args.Configures jce alg mode cipher keyBytes) {s : Statics Cipher}
    (hfresh : mode = "ECB" → s.ivSpec = none) {opmode : OpMode} {r : Random} {ready : Ready}
    (hready : (construct jce args s).ready jce opmode r = some ready) :
    args.ready jce opmode r = some ready := by
  obtain ⟨spec, rest, hspec, htokens, hinstance⟩ := h.transformation
  rw [Args.ready, hspec, Option.bind_some, htokens]
  simp only [hinstance, h.key, Option.bind_some, dif_neg h.nonempty]
  rw [construct, hspec] at hready
  simp only [htokens, hinstance, setKey, h.key, not_not.mpr h.size, if_false, dif_neg h.nonempty] at hready
  by_cases hmode : mode = "ECB"
  · rw [if_pos hmode] at hready ⊢
    unfold Statics.ready at hready
    simp only [Option.bind_some, hfresh hmode] at hready
    split at hready
    · cases hready
    · exact hready
  · obtain ⟨ivBytes, hiv⟩ := Option.isSome_iff_exists.mp (h.iv hmode)
    rw [if_neg hmode, hiv] at hready ⊢
    simpa [Statics.ready, hmode] using hready

/-- Calls on instance `0` on data that its cipher takes. -/
def Takes (jce : Jce Cipher Ready Random) (args : Args) : Event Random → Prop
  | .call on opmode r data => on = 0 ∧ ∀ ready, args.ready jce opmode r = some ready →
      ∀ bytes, data = some bytes → (jce.doFinal ready bytes).isSome = true
  | _ => False

theorem undisturbed_alone {args : Args} {alg mode : String} {cipher : Cipher}
    {keyBytes : List UInt8} (h : args.Configures jce alg mode cipher keyBytes)
    {calls : List (Event Random)} (hcalls : ∀ event ∈ calls, Takes jce args event) :
    Along (step jce) (Undisturbed jce) World.initial (.newWith args :: calls) := by
  refine ⟨trivial, ?_⟩
  have hstatics : (step jce World.initial (.newWith args)).statics = construct jce args .initial := rfl
  have hinstances : (step jce World.initial (.newWith args)).instances = [some args] := rfl
  generalize step jce World.initial (.newWith args) = w at hstatics hinstances
  -- calls change neither the fields nor the instances
  induction calls generalizing w with
  | nil => trivial
  | cons event calls ih =>
    have hevent := hcalls event List.mem_cons_self
    cases event with
    | new => exact hevent.elim
    | newWith _ => exact hevent.elim
    | call on opmode r data =>
      obtain ⟨rfl, htakes⟩ := hevent
      have hlt : 0 < w.instances.length := by rw [hinstances]; exact Nat.zero_lt_one
      refine ⟨?_, ih (fun event he => hcalls event (List.mem_cons_of_mem _ he)) _ ?_ ?_⟩
      · intro _ ready hready bytes hdata
        rw [hstatics] at hready
        have hown := h.ready (fun _ => rfl) hready
        exact ⟨htakes ready hown bytes hdata, args, by rw [hinstances]; rfl, hown⟩
      · rw [step, if_pos hlt]
        exact hstatics
      · rw [step, if_pos hlt]
        exact hinstances

end

/-! ## Two instances -/

/-- A stream cipher: every byte is masked by the first byte of the key. -/
def maskJce : Jce Unit UInt8 Unit where
  getInstance spec _ := if spec = "AES/CTR/NoPadding" then some () else none
  getBlockSize _ := 16
  initKey _ _ keySpec _ := keySpec.isSome
  init _ _ keySpec ivSpec _ := keySpec.bind fun keySpec => ivSpec.bind fun _ => keySpec.key.head?
  getOutputSize _ n := n
  doFinal mask data := some (data.map fun b => b ^^^ mask)

def ctrArgs (b : UInt8) : Args :=
  ⟨some "AES/CTR/NoPadding", some (List.replicate 16 0), some (List.replicate 16 b), some "BC"⟩

theorem configures_ctrArgs (b : UInt8) :
    (ctrArgs b).Configures maskJce "AES" "CTR" () (List.replicate 16 b) where
  transformation := ⟨"AES/CTR/NoPadding", ["NoPadding"], rfl, by decide, rfl⟩
  key := rfl
  size := Or.inl rfl
  nonempty := by simp
  iv := fun _ => rfl

theorem inverts_ctrArgs (b : UInt8) : (ctrArgs b).Inverts maskJce := by
  intro r r' data out out' hout hout'
  have hcompute : ∀ opmode bytes, (ctrArgs b).compute maskJce opmode () bytes =
      some (bytes.map fun x => x ^^^ b) := by
    intro opmode bytes
    rfl
  rw [hcompute] at hout hout'
  cases hout
  cases hout'
  rw [List.map_map]
  refine (List.map_congr_left fun x _ => ?_).trans (List.map_id _)
  show x ^^^ b ^^^ b = x
  rw [UInt8.xor_assoc, UInt8.xor_self, UInt8.xor_zero]

/-- An instance that encrypts and decrypts. -/
def aloneEvents : List (Event Unit) :=
  [.newWith (ctrArgs 1), .call 0 .encrypt () (some [7]), .call 0 .decrypt () (some [6])]

/-- A second instance is constructed between encryption and decryption. -/
def crossedEvents : List (Event Unit) :=
  [.newWith (ctrArgs 1), .call 0 .encrypt () (some [7]), .newWith (ctrArgs 2),
    .call 0 .decrypt () (some [6])]

end MoaCrypto.SymmetricCoreAPI
