import ZZ9K.Host.AllocShared
import ZZ9K.Host.CryptoBatch

namespace ZZ9K.Crypto

open ZZ9K.Abi ZZ9K.Host ZZ9K.Framework

def cryptoAeadAes128Gcm : UInt32 := 2
def cryptoAeadAes256Gcm : UInt32 := 3
def cryptoKxX25519 : UInt32 := 1
def cryptoKxP256 : UInt32 := 2
def cryptoKxFlagKeygen : UInt32 := 1
def cryptoVerifyEcdsaP256Sha256 : UInt32 := 1
def cryptoVerifyRsaPkcs12048Sha256 : UInt32 := 2
def cryptoAes128KeyBytes : UInt32 := 16
def cryptoAes256KeyBytes : UInt32 := 32

/-- `ZZ9K_CRYPTO_AEAD_FLAG_ALG` -/
def cryptoAeadFlagAlg (alg : UInt32) : UInt32 := alg <<< 8 &&& cryptoAeadAlgMask

/-- `ZZ9KCryptoKxDesc` -/
structure CryptoKxDesc where
  scalarHandle : UInt32
  scalarOffset : UInt32
  pointHandle : UInt32
  pointOffset : UInt32
  dstHandle : UInt32
  dstOffset : UInt32
  algorithm : UInt32
  flags : UInt32
  deriving DecidableEq, Repr

/-- `ZZ9KCryptoVerifyDesc` -/
structure CryptoVerifyDesc where
  hashHandle : UInt32
  hashOffset : UInt32
  hashLength : UInt32
  sigHandle : UInt32
  sigOffset : UInt32
  sigLength : UInt32
  keyHandle : UInt32
  keyOffset : UInt32
  keyLength : UInt32
  algorithm : UInt32
  deriving DecidableEq, Repr

/-- What the two AEAD builders refuse alike -/
def aeadDescRefused (srcHandle srcLength dstHandle aadHandle aadLength keyHandle nonceHandle
    flags : UInt32) : Bool :=
  srcHandle = invalidHandle ∨ srcLength = 0 ∨ dstHandle = invalidHandle ∨
    keyHandle = invalidHandle ∨ nonceHandle = invalidHandle ∨
    flags &&& ~~~cryptoAeadFlagDecrypt ≠ 0 ∨ (aadLength ≠ 0 ∧ aadHandle = invalidHandle)

/-- `zz9k_crypto_build_chacha20_poly1305_desc` -/
def buildChacha20Poly1305Desc (srcHandle srcOffset srcLength dstHandle dstOffset aadHandle
    aadOffset aadLength keyHandle keyOffset nonceHandle flags : UInt32) : Option CryptoAeadDesc :=
  if aeadDescRefused srcHandle srcLength dstHandle aadHandle aadLength keyHandle nonceHandle flags
  then none
  else some {
    srcHandle,srcOffset,srcLength,dstHandle,dstOffset
    aadHandle := if aadLength ≠ 0 then aadHandle else 0
    aadOffset := if aadLength ≠ 0 then aadOffset else 0
    aadLength,keyHandle,keyOffset,nonceHandle,flags }

/-- `zz9k_crypto_build_aes_gcm_desc` -/
def buildAesGcmDesc (srcHandle srcOffset srcLength dstHandle dstOffset aadHandle aadOffset
    aadLength keyHandle keyOffset keyLength nonceHandle flags : UInt32) : Option CryptoAeadDesc :=
  if aeadDescRefused srcHandle srcLength dstHandle aadHandle aadLength keyHandle nonceHandle flags
  then none
  else
    (if keyLength = cryptoAes128KeyBytes then some cryptoAeadAes128Gcm
      else if keyLength = cryptoAes256KeyBytes then some cryptoAeadAes256Gcm
      else none) >>= fun algorithm =>
    some {
      srcHandle,srcOffset,srcLength,dstHandle,dstOffset
      aadHandle := if aadLength ≠ 0 then aadHandle else 0
      aadOffset := if aadLength ≠ 0 then aadOffset else 0
      aadLength,keyHandle,keyOffset,nonceHandle
      flags := (flags &&& cryptoAeadFlagDecrypt) ||| cryptoAeadFlagAlg algorithm }

/-- `zz9k_crypto_build_kx_desc` -/
def buildKxDesc (algorithm scalarHandle scalarOffset pointHandle pointOffset dstHandle
    dstOffset : UInt32) : Option CryptoKxDesc :=
  if scalarHandle = invalidHandle ∨ pointHandle = invalidHandle ∨ dstHandle = invalidHandle then
    none
  else some ⟨scalarHandle,scalarOffset,pointHandle,pointOffset,dstHandle,dstOffset,algorithm,0⟩

/-- `zz9k_crypto_build_x25519_desc` -/
def buildX25519Desc : (scalarHandle scalarOffset pointHandle pointOffset dstHandle
    dstOffset : UInt32) → Option CryptoKxDesc :=
  buildKxDesc cryptoKxX25519

/-- `zz9k_crypto_build_p256_desc` -/
def buildP256Desc : (scalarHandle scalarOffset pointHandle pointOffset dstHandle
    dstOffset : UInt32) → Option CryptoKxDesc :=
  buildKxDesc cryptoKxP256

/-- `zz9k_crypto_build_p256_keygen_desc` -/
def buildP256KeygenDesc (scalarHandle scalarOffset dstHandle dstOffset : UInt32) :
    Option CryptoKxDesc :=
  if scalarHandle = invalidHandle ∨ dstHandle = invalidHandle then none
  else some ⟨scalarHandle,scalarOffset,invalidHandle,0,dstHandle,dstOffset,cryptoKxP256,
    cryptoKxFlagKeygen⟩

/-- `zz9k_crypto_build_verify_desc` -/
def buildVerifyDesc (algorithm hashHandle hashOffset hashLength sigHandle sigOffset sigLength
    keyHandle keyOffset keyLength : UInt32) : Option CryptoVerifyDesc :=
  if hashHandle = invalidHandle ∨ sigHandle = invalidHandle ∨ keyHandle = invalidHandle ∨
      (algorithm ≠ cryptoVerifyEcdsaP256Sha256 ∧ algorithm ≠ cryptoVerifyRsaPkcs12048Sha256) then
    none
  else some ⟨hashHandle,hashOffset,hashLength,sigHandle,sigOffset,sigLength,keyHandle,keyOffset,
    keyLength,algorithm⟩

/-- The scratch buffers of `ZZ9KOffloadCtx`, in the order of its fields -/
inductive Slot
  | key
  | small
  | nonce
  | aad
  | src
  | dst
  deriving DecidableEq, Repr

/-- `ZZ9KOffloadCtx`; a buffer with handle 0 is none. -/
structure OffloadCtx where
  inUse : Bool := false
  buffers : Slot → SharedBuffer := fun _ => {}

def OffloadCtx.set (o : OffloadCtx) (s : Slot) (b : SharedBuffer) : OffloadCtx :=
  {o with buffers := Function.update o.buffers s b}

/-- What the backend asks of the system and of the SDK, and its `memcpy`s into and out of a
buffer, `count` bytes at `offset` -/
inductive OffloadCall
  | disabled
  | openSdk
  | queryCrypto
  | malloc
  | closeSdk
  | allocShared (length alignment flags : UInt32)
  | freeShared (handle : UInt32)
  | copyIn (buffer : SharedBuffer) (offset count : UInt32) (source : List UInt8)
  | copyOut (buffer : SharedBuffer) (offset count : UInt32)
  | kx (desc : CryptoKxDesc)
  | aead (desc : CryptoAeadDesc)
  | verify (desc : CryptoVerifyDesc)

/-- What comes back: the flags of the service, the buffer of an allocation that succeeds, the
bytes copied out, a status, and for a verification also whether the signature is valid. -/
abbrev OffloadCall.Answer : OffloadCall → Type
  | .disabled | .openSdk | .malloc => Bool
  | .queryCrypto => Option UInt32
  | .closeSdk | .freeShared _ | .copyIn _ _ _ _ => Unit
  | .allocShared _ _ _ => Option SharedBuffer
  | .copyOut _ _ _ => List UInt8
  | .kx _ | .aead _ => Status
  | .verify _ => Status × Bool

abbrev Offload (α : Type) := Ask OffloadCall OffloadCall.Answer α

def OffloadCall.ask (c : OffloadCall) : Offload c.Answer := Ask.one c

/-- `ZZ9K_OFFLOAD_ALIGN` -/
def offloadAlign : UInt32 := 16

/-- `zz9k_offload_ensure` -/
def offloadEnsure (o : OffloadCtx) (s : Slot) (need : UInt32) : Offload (OffloadCtx × Bool) :=
  let need := if need = 0 then 1 else need
  if (o.buffers s).handle ≠ 0 ∧ need ≤ (o.buffers s).length then pure (o,true)
  else if 0xffffffff - (offloadAlign-1) < need then pure (o,false)
  else do
    let cap := (need+offloadAlign-1) &&& ~~~(offloadAlign-1)
    if (o.buffers s).handle ≠ 0 then (OffloadCall.freeShared (o.buffers s).handle).ask
    let some b ← (OffloadCall.allocShared cap offloadAlign allocHostWindow).ask |
      pure (o.set s {},false)
    pure (o.set s b,true)

/-- `zz9k_offload_acquire` -/
def offloadAcquire (o : OffloadCtx) : Option OffloadCtx :=
  if o.inUse then none else some {o with inUse := true}

/-- `ZZ9K_OFFLOAD_MAX_ATTEMPTS` -/
def offloadMaxAttempts : Nat := 3

/-- `zz9k_offload_transient` -/
def offloadTransient (status : Status) : Bool := status = .busy

/-- The loop of the three functions `zz9k_offload_run_*`, with the attempts after this one -/
def offloadRun {α : Type} (status : α → Status) (call : Offload α) : (attempts : Nat) → Offload α
  | 0 => call
  | attempts+1 => do
    let st ← call
    if status st ≠ .ok ∧ offloadTransient (status st) then offloadRun status call attempts
    else pure st

/-- `zz9k_offload_run_kx` -/
def offloadRunKx (desc : CryptoKxDesc) : Offload Status :=
  offloadRun id (OffloadCall.kx desc).ask (offloadMaxAttempts-1)

/-- `zz9k_offload_run_aead` -/
def offloadRunAead (desc : CryptoAeadDesc) : Offload Status :=
  offloadRun id (OffloadCall.aead desc).ask (offloadMaxAttempts-1)

/-- `zz9k_offload_run_verify` -/
def offloadRunVerify (desc : CryptoVerifyDesc) : Offload (Status × Bool) :=
  offloadRun Prod.fst (OffloadCall.verify desc).ask (offloadMaxAttempts-1)

/-- The lines of `zz9k_offload_close` that free the buffers of these slots -/
def offloadFree (o : OffloadCtx) : List Slot → Offload Unit
  | [] => pure ()
  | s::rest => do
    if (o.buffers s).handle ≠ 0 then (OffloadCall.freeShared (o.buffers s).handle).ask
    offloadFree o rest

/-- `zz9k_offload_close` -/
def offloadClose (o : OffloadCtx) : Offload Unit := do
  offloadFree o [.key,.small,.nonce,.aad,.src,.dst]
  OffloadCall.closeSdk.ask

/-- `zz9k_offload_open`, with the service flags -/
def offloadOpen : Offload (Option (OffloadCtx × UInt32)) := do
  if ← OffloadCall.disabled.ask then pure none
  else if ← OffloadCall.openSdk.ask then
    let some flags ← OffloadCall.queryCrypto.ask | do OffloadCall.closeSdk.ask; pure none
    if ← OffloadCall.malloc.ask then
      let (o,ensured) ← offloadEnsure {} .small 32
      if ensured then pure (some (o,flags))
      else do offloadClose o; pure none
    else do OffloadCall.closeSdk.ask; pure none
  else pure none

/-- The calls of `zz9k_offload_ensure` at the head of an operation, up to one that fails -/
def ensureAll (o : OffloadCtx) : List (Slot × UInt32) → Offload (OffloadCtx × Bool)
  | [] => pure (o,true)
  | (s,need)::rest => do
    let (o,ensured) ← offloadEnsure o s need
    if ensured then ensureAll o rest else pure (o,false)

/-- What the operations share: they take the context, make sure of their slots, go on with them,
and give the context back. The result is what they return 1 with. -/
def operation {α : Type} (o : OffloadCtx) (needs : List (Slot × UInt32))
    (work : OffloadCtx → Offload (Option α)) : Offload (OffloadCtx × Option α) :=
  match offloadAcquire o with
  | none => pure (o,none)
  | some o => do
    let (o,ensured) ← ensureAll o needs
    let result ← if ensured then work o else pure none
    pure ({o with inUse := false},result)

/-- A `memcpy` into a slot -/
def copyIn (o : OffloadCtx) (s : Slot) (offset : UInt32) (source : List UInt8) (count : UInt32) :
    Offload Unit :=
  (OffloadCall.copyIn (o.buffers s) offset count source).ask

/-- A `memcpy` out of a slot -/
def copyOut (o : OffloadCtx) (s : Slot) (offset count : UInt32) : Offload (List UInt8) :=
  (OffloadCall.copyOut (o.buffers s) offset count).ask

/-- The end of the three operations on keys: the exchange, and its `count` bytes of result -/
def exchange (o : OffloadCtx) (count : UInt32) :
    (desc : Option CryptoKxDesc) → Offload (Option (List UInt8))
  | none => pure none
  | some desc => do
    if (← offloadRunKx desc) = .ok then some <$> copyOut o .dst 0 count else pure none

/-- `zz9k_offload_x25519` -/
def offloadX25519 (o : OffloadCtx) (scalar point : List UInt8) :
    Offload (OffloadCtx × Option (List UInt8)) :=
  operation o [(.key,32),(.small,32),(.dst,32)] fun o => do
    copyIn o .key 0 scalar 32
    copyIn o .small 0 point 32
    exchange o 32 <| buildX25519Desc (o.buffers .key).handle 0 (o.buffers .small).handle 0
      (o.buffers .dst).handle 0

/-- `zz9k_offload_p256_derive` -/
def offloadP256Derive (o : OffloadCtx) (scalar peer : List UInt8) :
    Offload (OffloadCtx × Option (List UInt8)) :=
  operation o [(.key,32),(.src,65),(.dst,32)] fun o => do
    copyIn o .key 0 scalar 32
    copyIn o .src 0 peer 65
    exchange o 32 <| buildP256Desc (o.buffers .key).handle 0 (o.buffers .src).handle 0
      (o.buffers .dst).handle 0

/-- `zz9k_offload_p256_keygen` -/
def offloadP256Keygen (o : OffloadCtx) (scalar : List UInt8) :
    Offload (OffloadCtx × Option (List UInt8)) :=
  operation o [(.key,32),(.dst,65)] fun o => do
    copyIn o .key 0 scalar 32
    exchange o 65 <| buildP256KeygenDesc (o.buffers .key).handle 0 (o.buffers .dst).handle 0

/-- The arguments of `zz9k_offload_aead` that come in; the lengths are the caller's. -/
structure AeadArgs where
  aes : Bool
  keylen : UInt32
  decrypt : Bool
  key : List UInt8
  iv : List UInt8
  aad : List UInt8
  aadlen : UInt32
  input : List UInt8
  inlen : UInt32
  tag : List UInt8

/-- The descriptor that `zz9k_offload_aead` builds -/
def aeadDesc (o : OffloadCtx) (a : AeadArgs) : Option CryptoAeadDesc :=
  let flags : UInt32 := if a.decrypt then cryptoAeadFlagDecrypt else 0
  let aadHandle := if a.aadlen ≠ 0 then (o.buffers .aad).handle else invalidHandle
  if a.aes then
    buildAesGcmDesc (o.buffers .src).handle 0 a.inlen (o.buffers .dst).handle 0 aadHandle 0 a.aadlen
      (o.buffers .key).handle 0 a.keylen (o.buffers .nonce).handle flags
  else
    buildChacha20Poly1305Desc (o.buffers .src).handle 0 a.inlen (o.buffers .dst).handle 0 aadHandle
      0 a.aadlen (o.buffers .key).handle 0 (o.buffers .nonce).handle flags

/-- The `memcpy`s of `zz9k_offload_aead` into its slots -/
def aeadLoad (o : OffloadCtx) (a : AeadArgs) : Offload Unit := do
  copyIn o .key 0 a.key a.keylen
  copyIn o .nonce 0 a.iv 12
  if 0 < a.aadlen then copyIn o .aad 0 a.aad a.aadlen
  copyIn o .src 0 a.input a.inlen
  if a.decrypt then copyIn o .src a.inlen a.tag 16

/-- The end of `zz9k_offload_aead`, with the text and in encryption the tag -/
def aeadRun (o : OffloadCtx) (a : AeadArgs) :
    (desc : Option CryptoAeadDesc) → Offload (Option (List UInt8 × Option (List UInt8)))
  | none => pure none
  | some desc => do
    if (← offloadRunAead desc) = .ok then
      let out ← copyOut o .dst 0 a.inlen
      if a.decrypt then pure (some (out,none))
      else
        let tag ← copyOut o .dst a.inlen 16
        pure (some (out,some tag))
    else pure none

/-- `zz9k_offload_aead`; the lengths of the two buffers are sums in 32 bits. -/
def offloadAead (o : OffloadCtx) (a : AeadArgs) :
    Offload (OffloadCtx × Option (List UInt8 × Option (List UInt8))) :=
  let srcLen := a.inlen + if a.decrypt then 16 else 0
  let dstLen := a.inlen + if a.decrypt then 0 else 16
  let aadNeed := if 0 < a.aadlen then [(Slot.aad,a.aadlen)] else []
  operation o ([(.src,srcLen),(.dst,dstLen),(.key,a.keylen),(.nonce,12)]++aadNeed) fun o => do
    aeadLoad o a
    aeadRun o a (aeadDesc o a)

/-- `zz9k_offload_verify`; the result is `*valid`. -/
def offloadVerify (o : OffloadCtx) (algorithm : UInt32) (hash sig : List UInt8) (siglen : UInt32)
    (key : List UInt8) (keylen : UInt32) : Offload (OffloadCtx × Option Bool) :=
  operation o [(.small,32),(.src,siglen),(.key,keylen)] fun o => do
    copyIn o .small 0 hash 32
    copyIn o .src 0 sig siglen
    copyIn o .key 0 key keylen
    let some desc := buildVerifyDesc algorithm (o.buffers .small).handle 0 32
      (o.buffers .src).handle 0 siglen (o.buffers .key).handle 0 keylen | pure none
    let (st,valid) ← offloadRunVerify desc
    if st = .ok then pure (some valid) else pure none

end ZZ9K.Crypto
