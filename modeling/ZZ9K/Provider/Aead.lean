import ZZ9K.Crypto.AesGcmRuns
import ZZ9K.Framework.Ask

namespace ZZ9K.Provider

open ZZ9K.Crypto ZZ9K.Framework

/-- `ZZ9K_AEAD_AES128_GCM` and its siblings -/
inductive AeadAlg
  | aes128Gcm
  | aes256Gcm
  | chacha20Poly1305
  deriving DecidableEq

def aeadIvlen : Nat := 12
def aeadTaglen : Nat := 16
def tlsAadLen : Nat := 13
def tlsExplicitIv : Nat := 8
def tlsTagLen : Nat := 16

/-- The arguments of a call of `zz9k_prov_aead`; `tag` is what a decryption has to find. -/
structure AeadCall where
  alg : AeadAlg
  enc : Bool
  key : List UInt8
  nonce : List UInt8
  aad : List UInt8
  input : List UInt8
  tag : List UInt8
  deriving DecidableEq

/-- What the cipher contexts ask of others: the one-shot cipher, which gives the text and the tag,
random bytes, and memory for the additional data -/
inductive AeadQuery
  | provAead (call : AeadCall)
  | randBytes (n : Nat)
  | realloc (size : Nat)
  deriving DecidableEq

def AeadQuery.Answer : AeadQuery → Type
  | provAead _ => Option (List UInt8 × List UInt8)
  | randBytes n => Option {bytes : List UInt8 // bytes.length = n}
  | realloc _ => Bool

abbrev AeadProg (α : Type) : Type := Ask AeadQuery AeadQuery.Answer α

/-- `ZZ9K_AEAD_CTX`, zeroed by default. `aad` is as long as `aadlen` says. -/
structure AeadCtx where
  alg : AeadAlg
  keylen : Nat
  ivlen : Nat := aeadIvlen
  taglen : Nat := aeadTaglen
  key : List UInt8 := List.replicate 32 0
  iv : List UInt8 := List.replicate 12 0
  tag : List UInt8 := List.replicate 16 0
  enc : Bool := false
  haveKey : Bool := false
  haveIv : Bool := false
  tagSet : Bool := false
  done : Bool := false
  aad : List UInt8 := []
  aadcap : Nat := 0
  tlsAad : List UInt8 := List.replicate 13 0
  tlsIv : List UInt8 := List.replicate 12 0
  tlsIvSet : Bool := false
  tlsAadSet : Bool := false
  deriving DecidableEq

/-- The loop of `zz9k_ctr64_inc` with `n` bytes before the one it stopped at -/
def ctr64IncFrom : Nat → List UInt8 → List UInt8
  | 0,counter => counter
  | n+1,counter =>
    let next := counter.getD n 0+1
    if next ≠ 0 then counter.set n next else ctr64IncFrom n (counter.set n next)

/-- `zz9k_ctr64_inc` -/
def ctr64Inc (counter : List UInt8) : List UInt8 := ctr64IncFrom 8 counter

/-- What a successful update leaves: `*outl`, and the bytes written to `out` from `offset` on -/
structure AeadOut where
  outl : Nat
  offset : Nat := 0
  data : List UInt8 := []
  deriving DecidableEq

namespace AeadCtx

/-- The arguments of the one-shot cipher in the algorithm, the direction and under the key of the
context; an encryption reads no tag. -/
def call (ctx : AeadCtx) (nonce aad input tag : List UInt8) : AeadCall :=
  {alg := ctx.alg,enc := ctx.enc,key := ctx.key.take ctx.keylen,nonce,aad,input
   tag := if ctx.enc then [] else tag}

def oneShot (ctx : AeadCtx) (nonce aad input tag : List UInt8) :
    AeadProg (Option (List UInt8 × List UInt8)) :=
  .ask (.provAead (ctx.call nonce aad input tag)) .ret

/-- The nonce of a ChaCha20-Poly1305 record: the fixed IV with the sequence number added to its
last eight bytes -/
def chachaNonce (ctx : AeadCtx) : List UInt8 :=
  ctx.iv.take 4++xorBytes 8 (ctx.iv.drop 4) ctx.tlsAad

/-- The part of `zz9k_aead_tls_record` for AES-GCM. An encryption moves the invocation field on
before it is known to succeed. -/
def tlsRecordGcm (ctx : AeadCtx) (outsize : Nat) (input : List UInt8) :
    AeadProg (Option AeadOut × AeadCtx) :=
  let payload := input.length-tlsExplicitIv-tlsTagLen
  let text := (input.drop tlsExplicitIv).take payload
  if ctx.tlsIvSet = false then pure (none,ctx)
  else if input.length < tlsExplicitIv+tlsTagLen ∨ outsize < input.length then pure (none,ctx)
  else if ctx.enc then do
    let nonce := ctx.tlsIv
    let ctx := {ctx with tlsIv := nonce.take 4++ctr64Inc (nonce.drop 4)}
    match ← ctx.oneShot nonce ctx.tlsAad text [] with
    | none => pure (none,ctx)
    | some (text,tag) =>
      pure (some {outl := input.length,data := nonce.drop 4++text++tag},ctx)
  else do
    let nonce := ctx.tlsIv.take 4++input.take tlsExplicitIv
    let tag := (input.drop (tlsExplicitIv+payload)).take tlsTagLen
    match ← ctx.oneShot nonce ctx.tlsAad text tag with
    | none => pure (none,ctx)
    | some (text,_) => pure (some {outl := payload,offset := tlsExplicitIv,data := text},ctx)

/-- The part of `zz9k_aead_tls_record` for ChaCha20-Poly1305 -/
def tlsRecordChacha (ctx : AeadCtx) (outsize : Nat) (input : List UInt8) :
    AeadProg (Option AeadOut × AeadCtx) :=
  let payload := input.length-tlsTagLen
  let text := input.take payload
  if ctx.haveIv = false then pure (none,ctx)
  else if input.length < tlsTagLen ∨ outsize < input.length then pure (none,ctx)
  else if ctx.enc then do
    match ← ctx.oneShot ctx.chachaNonce ctx.tlsAad text [] with
    | none => pure (none,ctx)
    | some (text,tag) => pure (some {outl := input.length,data := text++tag},ctx)
  else do
    let tag := (input.drop payload).take tlsTagLen
    match ← ctx.oneShot ctx.chachaNonce ctx.tlsAad text tag with
    | none => pure (none,ctx)
    | some (text,_) => pure (some {outl := payload,data := text},ctx)

/-- `zz9k_aead_tls_record`, with an output buffer -/
def tlsRecord (ctx : AeadCtx) (outsize : Nat) (input : List UInt8) :
    AeadProg (Option AeadOut × AeadCtx) :=
  let ctx := {ctx with tlsAadSet := false}
  if ctx.haveKey = false then pure (none,ctx)
  else if ctx.alg = .chacha20Poly1305 then ctx.tlsRecordChacha outsize input
  else ctx.tlsRecordGcm outsize input

/-- `zz9k_aead_update` without an output buffer: additional data -/
def updateAad (ctx : AeadCtx) (input : List UInt8) : AeadProg (Option AeadOut × AeadCtx) :=
  if input = [] then pure (some {outl := 0},ctx)
  else do
    let size := ctx.aad.length+input.length
    let got : Bool ← (if ctx.aadcap < size then .ask (.realloc size) .ret else pure true)
    if got = false then pure (none,ctx)
    else pure (some {outl := input.length},{ctx with
      aad := ctx.aad++input
      aadcap := max ctx.aadcap size})

/-- `zz9k_aead_update` with an output buffer of `outsize` bytes -/
def updateData (ctx : AeadCtx) (outsize : Nat) (input : List UInt8) :
    AeadProg (Option AeadOut × AeadCtx) :=
  if ctx.tlsAadSet then ctx.tlsRecord outsize input
  else if ctx.done = true ∨ ctx.haveKey = false ∨ ctx.haveIv = false ∨ outsize < input.length then
    pure (none,ctx)
  else if ctx.enc = false ∧ ctx.tagSet = false then pure (none,ctx)
  else do
    match ← ctx.oneShot ctx.iv ctx.aad input ctx.tag with
    | none => pure (none,ctx)
    | some (text,tag) =>
      pure (some {outl := input.length,data := text},{ctx with
        tag := if ctx.enc then tag else ctx.tag
        done := true})

/-- `zz9k_aead_final`: a message of which no data came is still authenticated. -/
def final (ctx : AeadCtx) : AeadProg (Bool × AeadCtx) :=
  if ctx.done then pure (true,ctx)
  else if ctx.haveKey = false ∨ ctx.haveIv = false then pure (false,ctx)
  else if ctx.enc = false ∧ ctx.tagSet = false then pure (false,ctx)
  else do
    match ← ctx.oneShot ctx.iv ctx.aad [] ctx.tag with
    | none => pure (false,ctx)
    | some (_,tag) =>
      pure (true,{ctx with tag := if ctx.enc then tag else ctx.tag,done := true})

end AeadCtx

/-- What an `OSSL_PARAM` of these can be: an octet string, a number, or of another type -/
inductive AeadParam
  | octets (bytes : List UInt8)
  | size (n : Nat)
  | other

/-- The parameters that `zz9k_aead_set_ctx_params` looks for -/
structure AeadParams where
  tag : Option AeadParam := none
  ivlen : Option AeadParam := none
  keylen : Option AeadParam := none
  tls1Aad : Option AeadParam := none
  tls1IvFixed : Option AeadParam := none

namespace AeadCtx

/-- The tag, in `zz9k_aead_set_ctx_params` -/
def setTag (ctx : AeadCtx) : Option AeadParam → Bool × AeadCtx
  | none => (true,ctx)
  | some (.octets bytes) =>
    if aeadTaglen < bytes.length then (false,ctx)
    else (true,{ctx with
      tag := bytes++ctx.tag.drop bytes.length
      taglen := bytes.length
      tagSet := true})
  | some _ => (false,ctx)

/-- Whether a length that is set is the one the context has -/
def lengthIs (n : Nat) : Option AeadParam → Bool
  | none => true
  | some (.size m) => m = n
  | some _ => false

/-- The additional data of a record as `zz9k_aead_set_ctx_params` keeps it: the length field is
less the explicit IV and, for a decryption, the tag. Without an answer the field is too small. -/
def correctedLength (ctx : AeadCtx) (len : Nat) : Option Nat :=
  let explicit := if ctx.alg = .chacha20Poly1305 then 0 else tlsExplicitIv
  let tag := if ctx.enc then 0 else tlsTagLen
  if len < explicit then none
  else if len-explicit < tag then none
  else some (len-explicit-tag)

/-- The additional data of a record, in `zz9k_aead_set_ctx_params` -/
def setTlsAad (ctx : AeadCtx) : Option AeadParam → Bool × AeadCtx
  | none => (true,ctx)
  | some (.octets bytes) =>
    if bytes.length ≠ tlsAadLen then (false,ctx)
    else
      let ctx := {ctx with tlsAad := bytes}
      match ctx.correctedLength (256*(bytes.getD 11 0).toNat+(bytes.getD 12 0).toNat) with
      | none => (false,ctx)
      | some len => (true,{ctx with
          tlsAad := bytes.take 11++beBytes 2 len
          tlsAadSet := true})
  | some _ => (false,ctx)

/-- The fixed IV, in `zz9k_aead_set_ctx_params`: AES-GCM takes four bytes, and for an encryption a
random invocation field behind them. -/
def setTlsIvFixed (ctx : AeadCtx) : Option AeadParam → AeadProg (Bool × AeadCtx)
  | none => pure (true,ctx)
  | some (.octets bytes) =>
    if ctx.alg = .chacha20Poly1305 then
      if bytes.length ≠ aeadIvlen then pure (false,ctx)
      else pure (true,{ctx with tlsIv := bytes,tlsIvSet := true})
    else if bytes.length ≠ 4 then pure (false,ctx)
    else
      let ctx := {ctx with tlsIv := bytes++ctx.tlsIv.drop 4}
      if ctx.enc = false then pure (true,{ctx with tlsIvSet := true})
      else do
        match ← (.ask (.randBytes tlsExplicitIv) .ret :
          AeadProg (Option {bytes : List UInt8 // bytes.length = tlsExplicitIv})) with
        | none => pure (false,ctx)
        | some field => pure (true,{ctx with
            tlsIv := ctx.tlsIv.take 4++field.val
            tlsIvSet := true})
  | some _ => pure (false,ctx)

/-- `zz9k_aead_set_ctx_params` -/
def setCtxParams (ctx : AeadCtx) : Option AeadParams → AeadProg (Bool × AeadCtx)
  | none => pure (true,ctx)
  | some params =>
    let tagged := ctx.setTag params.tag
    if tagged.1 = false then pure tagged
    else if lengthIs aeadIvlen params.ivlen = false then pure (false,tagged.2)
    else
      let ctx := if params.ivlen.isSome then {tagged.2 with ivlen := aeadIvlen} else tagged.2
      if lengthIs ctx.keylen params.keylen = false then pure (false,ctx)
      else
        let armed := ctx.setTlsAad params.tls1Aad
        if armed.1 = false then pure armed else armed.2.setTlsIvFixed params.tls1IvFixed

/-- `zz9k_aead_init` -/
def init (ctx : AeadCtx) (key iv : Option (List UInt8)) (params : Option AeadParams) (enc : Bool) :
    AeadProg (Bool × AeadCtx) :=
  let ctx := {ctx with enc,done := false,aad := [],tlsAadSet := false}
  if iv.any (fun iv => iv.length ≠ ctx.ivlen) then pure (false,ctx)
  else
    let ctx := match iv with
      | none => ctx
      | some iv => {ctx with iv,haveIv := true}
    if key.any (fun key => key.length ≠ ctx.keylen) then pure (false,ctx)
    else
      let ctx := match key with
        | none => ctx
        | some key => {ctx with key := key++ctx.key.drop key.length,haveKey := true}
      ctx.setCtxParams params

/-- `zz9k_aead_newctx` under each of the three names -/
def new (alg : AeadAlg) : AeadCtx :=
  {alg,keylen := if alg = .aes128Gcm then 16 else 32}

end AeadCtx

end ZZ9K.Provider
