import SwiftAgg.Native.KemAdapter

/-!
# HKDF of the crypto engine

`hkdf.c`, over TinyCrypt's HMAC, whose contexts are erased by the call that
writes the tag. A rejected call returns `-1`. A buffer and its length are one
byte string, so no pointer is `NULL`, and an absent salt or info string is an
empty one.
-/

namespace SwiftAgg.Native

/-- The HMAC-SHA256 that the engine is linked with: the tag under a key that was set, and what a
    context gives that is used again after `tc_hmac_final` has erased it, its key included. -/
structure TcHmac where
  hmac : Hmac
  erased : Bytes → Bytes32

/-- `struct tc_hmac_state_struct`: the key, as long as there is one. -/
abbrev TcHmacState := Option Bytes

/-- `tc_hmac_set_key`. -/
def tcHmacSetKey (key : Bytes) : TcHmacState := some key

/-- `tc_hmac_init`, `tc_hmac_update` with the parts of a message and `tc_hmac_final`: the tag, and
    the erased context. -/
def tcHmacFinal (lib : TcHmac) (hmac : TcHmacState) (message : Bytes) : Bytes32 × TcHmacState :=
  match hmac with
  | some key => (lib.hmac key message, none)
  | none => (lib.erased message, none)

/-- `HKDF_SHA256_MAX_OUTPUT_LEN`. -/
def hkdfSha256MaxOutputLen : Nat := 8192

/-- `hkdf_sha256_extract`. -/
def hkdfSha256Extract (lib : TcHmac) (salt ikm : Bytes) : Bytes32 :=
  let key := if salt = [] then Bytes.zero32.val else salt
  (tcHmacFinal lib (tcHmacSetKey key) ikm).1

/-- The loop of `hkdf_sha256_expand`; the context is the one that the last block left. -/
def hkdfSha256ExpandLoop (lib : TcHmac) (hmac : TcHmacState) (info : Bytes) (remaining : Nat)
    (t : Bytes) (ctr : UInt8) : Bytes :=
  if remaining = 0 then []
  else
    let result := tcHmacFinal lib hmac (t ++ info ++ [ctr])
    let chunk := if remaining < 32 then remaining else 32
    result.1.val.take chunk ++
      hkdfSha256ExpandLoop lib result.2 info (remaining - chunk) result.1.val (ctr + 1)
termination_by remaining
decreasing_by split <;> omega

/-- `hkdf_sha256_expand`: the bytes written to `okm`, or `-1`. The key is set once, before the
    loop. -/
def hkdfSha256Expand (lib : TcHmac) (prk info : Bytes) (okmLen : Nat) : Option Bytes :=
  if prk.length ≠ 32 then none
  else if hkdfSha256MaxOutputLen < okmLen then none
  else some (hkdfSha256ExpandLoop lib (tcHmacSetKey prk) info okmLen [] 1)

/-- `hkdf_sha256`. -/
def hkdfSha256 (lib : TcHmac) (salt ikm info : Bytes) (okmLen : Nat) : Option Bytes :=
  hkdfSha256Expand lib (hkdfSha256Extract lib salt ikm).val info okmLen

end SwiftAgg.Native
