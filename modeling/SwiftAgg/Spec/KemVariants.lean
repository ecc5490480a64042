import SwiftAgg.Native.KemCalls
import SwiftAgg.Spec.KeyAgreement
import SwiftAgg.Spec.PacketCodecCorrect

/-!
# The active KEM variant

The variant of the adapter is global and can be switched between any two calls;
what a key or a ciphertext was made with is only known from its recorded
length. The public keys of the three variants have different lengths, and so do
the secret keys, so the length checks admit a key only under the variant that
it was generated with.

## Key results

- `KemGlobals.statics_*`: the functions on `KemGlobals` are the adapter's
- `kemHistory_matches`: in every history the sizes are those of the active variant
- `kemVariants_notMixed`: an exchange that succeeds used one variant and agrees on the secret
-/

namespace SwiftAgg.Native

namespace KemVariant

@[simp] theorem ofCode_code (v : KemVariant) : ofCode v.code = some v := by
  cases v <;> rfl

theorem code_of_ofCode {code : Int} {v : KemVariant} (h : ofCode code = some v) :
    code = v.code := by
  rw [ofCode] at h
  split at h
  · cases h
    assumption
  split at h
  · cases h
    assumption
  split at h
  · cases h
    assumption
  · cases h

theorem publicKeyBytes_injective : Function.Injective publicKeyBytes := by
  intro v w h
  cases v <;> cases w <;> first | rfl | exact absurd h (by decide)

theorem secretKeyBytes_injective : Function.Injective secretKeyBytes := by
  intro v w h
  cases v <;> cases w <;> first | rfl | exact absurd h (by decide)

end KemVariant

/-! ## The static variables -/

/-- The sizes are those of the active variant. -/
def KemStatics.Matches (g : KemStatics) (v : KemVariant) : Prop :=
  g.activeVariant = v.code ∧ g.pkBytes = v.publicKeyBytes ∧ g.skBytes = v.secretKeyBytes ∧
    g.ctBytes = v.ciphertextBytes ∧ g.ssBytes = v.sharedSecretBytes

/-- The static variables of globals. -/
def KemGlobals.statics (g : KemGlobals) : KemStatics where
  activeVariant := g.activeVariant.code
  pkBytes := g.pkBytes
  skBytes := g.skBytes
  ctBytes := g.ctBytes
  ssBytes := g.ssBytes

namespace KemGlobals

variable (lib : KemLib) (g : KemGlobals)

theorem statics_matches : g.statics.Matches g.activeVariant :=
  ⟨rfl, g.sizes⟩

theorem statics_initial : initial.statics = KemStatics.initial := rfl

theorem statics_init (variant : Int) :
    g.statics.init variant =
      ((kemAdapterInit variant g).1, (kemAdapterInit variant g).2.statics) := by
  by_cases h₀ : variant = 0
  · subst h₀
    rfl
  by_cases h₁ : variant = 1
  · subst h₁
    rfl
  by_cases h₂ : variant = 2
  · subst h₂
    rfl
  · simp [KemStatics.init, KemVariant.ofCode, kemAdapterInit, h₀, h₁, h₂]

theorem statics_keypair (coins : Nat) (kp : KemKeypair) :
    g.statics.keypair lib coins kp = kemAdapterKeypair lib g coins kp := by
  rw [KemStatics.keypair, statics, KemVariant.ofCode_code]
  rfl

/-- The typed model returns what it leaves in the structure on success. -/
theorem statics_encapsulate (coins : Nat) {publicKey : Bytes} (encap : KemEncapsulation) :
    kemAdapterEncapsulate lib g coins publicKey publicKey.length =
      let (status, encap') :=
        g.statics.encapsulate lib coins (.ofBytes publicKey) publicKey.length encap
      if status = .success then .ok (encap'.ciphertext, encap'.sharedSecret)
      else .error status := by
  rw [KemStatics.encapsulate, statics, KemVariant.ofCode_code, kemAdapterEncapsulate]
  dsimp only
  split
  · rfl
  · rename_i hlen
    rw [← g.sizes.1, ← not_not.mp hlen, Memory.read_ofBytes_length]
    split <;> rfl

theorem statics_decapsulate (ciphertext : Memory) (ctLen : Nat) (secretKey : Memory) (skLen : Nat)
    (sharedSecret : Bytes32) :
    kemAdapterDecapsulate lib g ciphertext ctLen secretKey skLen =
      let (status, ss) :=
        g.statics.decapsulate lib ciphertext ctLen secretKey skLen sharedSecret
      if status = .success then .ok ss else .error status := by
  rw [KemStatics.decapsulate, statics, KemVariant.ofCode_code, kemAdapterDecapsulate, g.sizes.2.1,
    g.sizes.2.2.1]
  dsimp only
  split
  · rfl
  · split <;> rfl

end KemGlobals

/-! ## The calls under a variant -/

namespace KemStatics

variable {lib : KemLib} {g : KemStatics} {v : KemVariant}

/-- A call of `kem_adapter_init` leaves a state whose sizes match, whatever its argument. -/
theorem Matches.init (h : g.Matches v) (variant : Int) : ∃ w, (g.init variant).2.Matches w := by
  rw [KemStatics.init]
  cases hcode : KemVariant.ofCode variant with
  | none => exact ⟨v, h⟩
  | some w => exact ⟨w, KemVariant.code_of_ofCode hcode, rfl, rfl, rfl, rfl⟩

/-- A generated keypair has the lengths of the variant. -/
theorem Matches.keypair_eq_success (h : g.Matches v) {coins : Nat} {kp₀ kp : KemKeypair}
    (hkp : g.keypair lib coins kp₀ = (.success, kp)) :
    lib.keypair v coins = (0, kp.publicKey, kp.secretKey) ∧
      kp.publicKeyLen = v.publicKeyBytes ∧ kp.secretKeyLen = v.secretKeyBytes := by
  obtain ⟨hactive, hpk, hsk, -, -⟩ := h
  rw [KemStatics.keypair, hactive, KemVariant.ofCode_code] at hkp
  dsimp only at hkp
  -- what is left is the status of the library
  split at hkp
  · cases hkp
  · rename_i hret
    cases hkp
    refine ⟨?_, hpk, hsk⟩
    rw [← not_not.mp hret]

/-- An encapsulation asks for a key of the length of the variant. -/
theorem Matches.encapsulate_eq_success (h : g.Matches v) {coins pkLen : Nat} {publicKey : Memory}
    {encap₀ encap : KemEncapsulation}
    (henc : g.encapsulate lib coins publicKey pkLen encap₀ = (.success, encap)) :
    pkLen = v.publicKeyBytes ∧
      lib.enc v coins (publicKey.read v.publicKeyBytes) =
        (0, encap.ciphertext, encap.sharedSecret) ∧
      encap.ciphertextLen = v.ciphertextBytes := by
  obtain ⟨hactive, hpk, -, hct, -⟩ := h
  rw [KemStatics.encapsulate] at henc
  -- the length of the key is compared with the global size, which is that of the variant
  split at henc
  · cases henc
  · rename_i hlen
    rw [hactive, KemVariant.ofCode_code] at henc
    dsimp only at henc
    split at henc
    · cases henc
    · rename_i hret
      cases henc
      refine ⟨(not_not.mp hlen).trans hpk, ?_, hct⟩
      rw [← not_not.mp hret]

/-- A decapsulation asks for a ciphertext and a key of the lengths of the variant. -/
theorem Matches.decapsulate_eq_success (h : g.Matches v) {ciphertext secretKey : Memory}
    {ctLen skLen : Nat} {ss₀ ss : Bytes32}
    (hdec : g.decapsulate lib ciphertext ctLen secretKey skLen ss₀ = (.success, ss)) :
    ctLen = v.ciphertextBytes ∧ skLen = v.secretKeyBytes ∧
      lib.dec v (ciphertext.read v.ciphertextBytes) (secretKey.read v.secretKeyBytes) =
        (0, ss) := by
  obtain ⟨hactive, -, hsk, hct, -⟩ := h
  rw [KemStatics.decapsulate] at hdec
  -- both lengths are compared with the global sizes
  split at hdec
  · cases hdec
  · rename_i hlen
    obtain ⟨hctLen, hskLen⟩ := not_or.mp hlen
    rw [hactive, KemVariant.ofCode_code] at hdec
    dsimp only at hdec
    split at hdec
    · cases hdec
    · rename_i hret
      cases hdec
      refine ⟨(not_not.mp hctLen).trans hct, (not_not.mp hskLen).trans hsk, ?_⟩
      rw [← not_not.mp hret]

end KemStatics

/-! ## Histories -/

variable {lib : KemLib} {g : KemStatics} {v : KemVariant}

/-- Every call leaves sizes that match. -/
theorem KemCall.perform_matches (lib : KemLib) (h : g.Matches v) (call : KemCall) :
    ∃ w, (call.perform lib g).2.Matches w := by
  cases call with
  | init variant => exact h.init variant
  | _ => exact ⟨v, h⟩

/-- In a history the sizes match after every call, and every event is a call under sizes that
    match. -/
theorem kemHistory_matches (lib : KemLib) (h : g.Matches v) (calls : List KemCall) :
    (∃ w, (kemHistory lib g calls).2.Matches w) ∧
      ∀ e ∈ (kemHistory lib g calls).1,
        (∃ w, e.statics.Matches w) ∧ (e.call.perform lib e.statics).1 = e.reply := by
  induction calls generalizing g v with
  | nil => exact ⟨⟨v, h⟩, fun e he => absurd he List.not_mem_nil⟩
  | cons call calls ih =>
    obtain ⟨w, hnext⟩ := call.perform_matches lib h
    obtain ⟨hlast, hevents⟩ := ih hnext
    refine ⟨hlast, fun e he => ?_⟩
    rcases List.mem_cons.mp he with rfl | hmem
    · exact ⟨⟨v, h⟩, rfl⟩
    · exact hevents e hmem

/-- Three calls that all succeed: a keypair, an encapsulation to its public key, and a
    decapsulation of that ciphertext with its secret key, each with the recorded lengths. -/
structure KemExchange (e₁ e₂ e₃ : KemEvent) (kp : KemKeypair) (encap : KemEncapsulation)
    (ss : Bytes32) : Prop where
  keypair : ∃ coins kp₀, e₁.call = .keypair coins kp₀
  generated : e₁.reply = .keypair .success kp
  encapsulate : ∃ coins pk encap₀, e₂.call = .encapsulate coins pk kp.publicKeyLen encap₀ ∧
    pk.read kp.publicKeyLen = kp.publicKey
  encapsulated : e₂.reply = .encapsulate .success encap
  decapsulate : ∃ ct sk ss₀,
    e₃.call = .decapsulate ct encap.ciphertextLen sk kp.secretKeyLen ss₀ ∧
      ct.read encap.ciphertextLen = encap.ciphertext ∧ sk.read kp.secretKeyLen = kp.secretKey
  decapsulated : e₃.reply = .decapsulate .success ss

namespace KemExchange

variable {e₁ e₂ e₃ : KemEvent} {kp : KemKeypair} {encap : KemEncapsulation} {ss : Bytes32}
  {v₁ v₂ v₃ : KemVariant}

/-- Under states whose sizes match, the lengths make the variants of an exchange the same. -/
theorem agrees (h : KemExchange e₁ e₂ e₃ kp encap ss) (hcorrect : lib.Correct)
    (hv₁ : e₁.statics.Matches v₁) (hr₁ : (e₁.call.perform lib e₁.statics).1 = e₁.reply)
    (hv₂ : e₂.statics.Matches v₂) (hr₂ : (e₂.call.perform lib e₂.statics).1 = e₂.reply)
    (hv₃ : e₃.statics.Matches v₃) (hr₃ : (e₃.call.perform lib e₃.statics).1 = e₃.reply) :
    v₁ = v₂ ∧ v₂ = v₃ ∧ ss = encap.sharedSecret := by
  obtain ⟨coins, kp₀, hcall₁⟩ := h.keypair
  obtain ⟨coins', pk, encap₀, hcall₂, hpk⟩ := h.encapsulate
  obtain ⟨ct, sk, ss₀, hcall₃, hct, hsk⟩ := h.decapsulate
  -- the three calls, each with what it returned
  rw [hcall₁, h.generated] at hr₁
  rw [hcall₂, h.encapsulated] at hr₂
  rw [hcall₃, h.decapsulated] at hr₃
  have hkp : e₁.statics.keypair lib coins kp₀ = (.success, kp) := by
    obtain ⟨hstatus, hresult⟩ := KemReply.keypair.inj hr₁
    exact Prod.ext hstatus hresult
  have henc : e₂.statics.encapsulate lib coins' pk kp.publicKeyLen encap₀ = (.success, encap) := by
    obtain ⟨hstatus, hresult⟩ := KemReply.encapsulate.inj hr₂
    exact Prod.ext hstatus hresult
  have hdec : e₃.statics.decapsulate lib ct encap.ciphertextLen sk kp.secretKeyLen ss₀ =
      (.success, ss) := by
    obtain ⟨hstatus, hresult⟩ := KemReply.decapsulate.inj hr₃
    exact Prod.ext hstatus hresult
  obtain ⟨hlibKp, hpkLen, hskLen⟩ := hv₁.keypair_eq_success hkp
  obtain ⟨hpkLen', hlibEnc, hctLen⟩ := hv₂.encapsulate_eq_success henc
  obtain ⟨-, hskLen', hlibDec⟩ := hv₃.decapsulate_eq_success hdec
  -- the public key settles the second variant, the secret key the third
  have h₁₂ : v₁ = v₂ := KemVariant.publicKeyBytes_injective (hpkLen.symm.trans hpkLen')
  have h₁₃ : v₁ = v₃ := KemVariant.secretKeyBytes_injective (hskLen.symm.trans hskLen')
  subst h₁₂
  subst h₁₃
  rw [← hpkLen', hpk] at hlibEnc
  rw [← hctLen, hct, ← hskLen', hsk] at hlibDec
  have hagreed := hcorrect v₁ _ _ _ _ _ _ hlibKp hlibEnc
  rw [hlibDec, Prod.mk.injEq] at hagreed
  exact ⟨rfl, rfl, hagreed.2⟩

end KemExchange

/-- In every history the sizes match the active variant throughout, and an exchange that succeeds
    used one variant, whatever was switched between its calls, and agrees on the secret. -/
theorem kemVariants_notMixed (lib : KemLib) (hcorrect : lib.Correct) (calls : List KemCall) :
    (∀ pre, pre <+: calls → ∃ v, (kemHistory lib .initial pre).2.Matches v) ∧
      ∀ e₁ ∈ (kemHistory lib .initial calls).1, ∀ e₂ ∈ (kemHistory lib .initial calls).1,
        ∀ e₃ ∈ (kemHistory lib .initial calls).1, ∀ kp encap ss,
          KemExchange e₁ e₂ e₃ kp encap ss →
            e₁.statics.activeVariant = e₂.statics.activeVariant ∧
              e₂.statics.activeVariant = e₃.statics.activeVariant ∧ ss = encap.sharedSecret := by
  have hinitial : KemStatics.initial.Matches .mlKem768 := ⟨rfl, rfl, rfl, rfl, rfl⟩
  refine ⟨fun pre _ => (kemHistory_matches lib hinitial pre).1, ?_⟩
  intro e₁ he₁ e₂ he₂ e₃ he₃ kp encap ss hexchange
  have hevents := (kemHistory_matches lib hinitial calls).2
  obtain ⟨⟨v₁, hv₁⟩, hr₁⟩ := hevents e₁ he₁
  obtain ⟨⟨v₂, hv₂⟩, hr₂⟩ := hevents e₂ he₂
  obtain ⟨⟨v₃, hv₃⟩, hr₃⟩ := hevents e₃ he₃
  obtain ⟨rfl, rfl, hss⟩ := hexchange.agrees hcorrect hv₁ hr₁ hv₂ hr₂ hv₃ hr₃
  exact ⟨hv₁.1.trans hv₂.1.symm, hv₂.1.trans hv₃.1.symm, hss⟩

/-! ## An exchange across switches -/

/-- A keypair under ML-KEM-768. -/
def keypair768 : KemKeypair := (KemStatics.initial.keypair repeatKem 5 .zero).2

/-- An encapsulation to its public key. -/
def encapsulation768 : KemEncapsulation :=
  (KemStatics.initial.encapsulate repeatKem 9 (.ofBytes keypair768.publicKey)
    keypair768.publicKeyLen ⟨[], Bytes.zero32, 0, 0⟩).2

/-- The secret that decapsulating it with the secret key gives. -/
def secret768 : Bytes32 :=
  (KemStatics.initial.decapsulate repeatKem (.ofBytes encapsulation768.ciphertext)
    encapsulation768.ciphertextLen (.ofBytes keypair768.secretKey) keypair768.secretKeyLen
    Bytes.zero32).2

/-- The three calls of the exchange, each under ML-KEM-768. -/
def exchange768 : KemEvent × KemEvent × KemEvent :=
  (⟨.initial, .keypair 5 .zero, .keypair .success keypair768⟩,
    ⟨.initial, .encapsulate 9 (.ofBytes keypair768.publicKey) keypair768.publicKeyLen
      ⟨[], Bytes.zero32, 0, 0⟩, .encapsulate .success encapsulation768⟩,
    ⟨.initial, .decapsulate (.ofBytes encapsulation768.ciphertext) encapsulation768.ciphertextLen
      (.ofBytes keypair768.secretKey) keypair768.secretKeyLen Bytes.zero32,
      .decapsulate .success secret768⟩)

/-- Between them the variant is switched away and back, once with a rejected argument. -/
def switchedCalls : List KemCall :=
  [exchange768.1.call, .init 2, .init 7, .init 1, exchange768.2.1.call, .init 0, .init 1,
    exchange768.2.2.call]

theorem exchange768_exchange :
    KemExchange exchange768.1 exchange768.2.1 exchange768.2.2 keypair768 encapsulation768
      secret768 := by
  have hread : ∀ b : Bytes, ∀ n, n = b.length → (Memory.ofBytes b).read n = b := by
    rintro b _ rfl
    exact Memory.read_ofBytes_length b
  exact
    { keypair := ⟨5, .zero, rfl⟩
      generated := rfl
      encapsulate := ⟨9, _, _, rfl, hread _ _ List.length_replicate.symm⟩
      encapsulated := rfl
      decapsulate := ⟨_, _, _, rfl, hread _ _ List.length_replicate.symm,
        hread _ _ List.length_replicate.symm⟩
      decapsulated := rfl }

/-- The exchange goes through and both ends hold the same secret. -/
theorem switchedCalls_agree :
    repeatKem.Correct ∧ secret768 = encapsulation768.sharedSecret :=
  ⟨repeatKem_correct,
    ((kemVariants_notMixed repeatKem repeatKem_correct switchedCalls).2
      exchange768.1 (List.mem_of_getElem? (i := 0) rfl)
      exchange768.2.1 (List.mem_of_getElem? (i := 4) rfl)
      exchange768.2.2 (List.mem_of_getElem? (i := 7) rfl)
      keypair768 encapsulation768 secret768 exchange768_exchange).2.2⟩

end SwiftAgg.Native
