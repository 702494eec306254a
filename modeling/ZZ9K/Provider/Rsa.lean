import Mathlib.Data.Nat.Size
import ZZ9K.Crypto.Rsa

namespace ZZ9K.Provider

/-- What the default provider answers: a modulus, an exponent, a padding, the names of the digest and
of the MGF1 digest, a salt length, the signature and the data -/
abbrev DefaultProvider :=
  Nat → Nat → Int → Option String → Option String → Option Int → List UInt8 → List UInt8 → Bool

/-- What the code is run with -/
structure Env where
  default : DefaultProvider
  /-- Whether `EVP_PKEY_fromdata` takes a key -/
  fromdata : Nat → Nat → Bool
  /-- `zz9k_offload_verify` of a hash, a signature and a key: its verdict, if it returns one -/
  offloadVerify : List UInt8 → List UInt8 → List UInt8 → Option Bool
  /-- `zz9k_rsa_verify_offload_enabled` -/
  offloadEnabled : Bool
  /-- `sdk_ctx` of the provider, if it is there, and `service_flags` -/
  sdkCtx : Bool
  serviceFlags : UInt32

/-- `ZZ9K_RSA_MAX_BYTES` -/
def rsaMaxBytes : Nat := 512

def rsaPkcs1Padding : Int := 1

def rsaPssPadding : Int := 6

/-- `ZZ9K_RSA_MDNAME_MAX` -/
def rsaMdnameMax : Nat := 32

/-- `ZZ9K_SERVICE_FLAG_CRYPTO_RSA_2048` -/
def serviceFlagCryptoRsa2048 : UInt32 := 0x80000

/-- `BN_bn2binpad`: the lowest `len` bytes, the highest first -/
def bn2binpad (n : Nat) : Nat → List UInt8
  | 0 => []
  | len+1 => (n/256^len).toUInt8::bn2binpad n len

/-- `BN_num_bytes` -/
def bnNumBytes (n : Nat) : Nat := (n.size+7)/8

/-- `ZZ9K_RSA_KEY` -/
structure RsaKey where
  n : List UInt8 := []
  nbytes : UInt32 := 0
  e : UInt32 := 0
  hasPub : Bool := false
  accel : Bool := false
  /-- The key of the default provider -/
  shadow : Option (Nat × Nat) := none

/-- `zz9k_rsa_keymgmt_import`: `readable` says whether `OSSL_PARAM_get_BN` reads both numbers. -/
def rsaKeymgmtImport (env : Env) (key : RsaKey) (publicKey : Bool) (n e : Option Nat)
    (readable : Bool) : Bool × RsaKey :=
  if !publicKey then (false,key)
  else
    match n,e with
    | some n,some e =>
      if !env.fromdata n e then (false,key)
      else
        let key := {key with shadow := some (n,e),hasPub := true,accel := false,nbytes := 0,e := 0}
        let nbytes := bnNumBytes n
        if readable ∧ 0 < nbytes ∧ nbytes ≤ rsaMaxBytes ∧ nbytes%4 = 0 ∧ e.size ≤ 32 then
          (true,{key with n := bn2binpad n nbytes,nbytes := nbytes.toUInt32,e := e.toUInt32,
                          accel := true})
        else (true,key)
    | _,_ => (false,key)

/-- `zz9k_prov_rsa_verify`: nothing for -1 -/
def provRsaVerify (env : Env) (sig hash n : List UInt8) (nbits e : UInt32) : Option Bool :=
  if env.sdkCtx ∧ env.serviceFlags &&& serviceFlagCryptoRsa2048 ≠ 0 then
    let nbytes := (nbits/8).toNat
    if nbytes ≤ rsaMaxBytes then
      let key := n.take nbytes++
        [(e >>> 24).toUInt8,(e >>> 16).toUInt8,(e >>> 8).toUInt8,e.toUInt8]
      match env.offloadVerify hash sig key with
      | some valid => if valid ∨ nbytes ≤ 256 then some valid else none
      | none => none
    else none
  else none

/-- An `OSSL_PARAM`, with what it holds where that can be read -/
inductive Param
  | integer (v : Option Int)
  | utf8 (s : Option String)
  | other

/-- The parameters of a call that the code looks for -/
structure SigParams where
  padMode : Option Param := none
  digest : Option Param := none
  mgf1Digest : Option Param := none
  pssSaltlen : Option Param := none

/-- `ZZ9K_RSA_SIG_CTX`; `zz9k_rsa_sig_newctx` makes it with the defaults. -/
structure RsaSigCtx where
  key : Option RsaKey := none
  padMode : Int := rsaPkcs1Padding
  mdname : String := ""
  mgf1mdname : String := ""
  saltlen : Int := 0
  hasSaltlen : Bool := false

/-- `OSSL_PARAM_get_utf8_string` into a buffer -/
def getUtf8String (size : Nat) : Param → Option String
  | .utf8 (some s) => if s.utf8ByteSize < size then some s else none
  | _ => none

/-- `isspace` -/
def isSpace (c : Char) : Bool := c ∈ [' ','\t','\n','\x0b','\x0c','\r']

/-- The digits of `strtol`, if there are only digits -/
def strtolDigits (digits : List Char) : Option Nat :=
  if digits = [] ∨ !digits.all Char.isDigit then none
  else some (digits.foldl (fun v c => 10*v+(c.toNat - '0'.toNat)) 0)

/-- `strtol` of a whole string, to base 10, with a `long` of 32 bits -/
def strtol (s : String) : Option Int :=
  match s.toList.dropWhile isSpace with
  | '-'::digits => (strtolDigits digits).map fun v => max (-(v : Int)) (-2^31)
  | '+'::digits => (strtolDigits digits).map fun v => min (v : Int) (2^31-1)
  | digits => (strtolDigits digits).map fun v => min (v : Int) (2^31-1)

/-- The padding part of `zz9k_rsa_sig_set_ctx_params`: an integer is stored before it is checked. -/
def setPadMode (ctx : RsaSigCtx) : Option Param → Bool × RsaSigCtx
  | none => (true,ctx)
  | some (.integer (some v)) => (v = rsaPkcs1Padding ∨ v = rsaPssPadding,{ctx with padMode := v})
  | some (.utf8 (some s)) =>
    if s = "pkcs1" then (true,{ctx with padMode := rsaPkcs1Padding})
    else if s = "pss" then (true,{ctx with padMode := rsaPssPadding})
    else (false,ctx)
  | some _ => (false,ctx)

/-- The digest part -/
def setDigest (ctx : RsaSigCtx) : Option Param → Bool × RsaSigCtx
  | none => (true,ctx)
  | some p =>
    match getUtf8String rsaMdnameMax p with
    | some s => (true,{ctx with mdname := s})
    | none => (false,ctx)

/-- The part for the MGF1 digest -/
def setMgf1Digest (ctx : RsaSigCtx) : Option Param → Bool × RsaSigCtx
  | none => (true,ctx)
  | some p =>
    match getUtf8String rsaMdnameMax p with
    | some s => (true,{ctx with mgf1mdname := s})
    | none => (false,ctx)

/-- The salt length that a string names -/
def saltlenOf (s : String) : Option Int :=
  if s = "digest" then some (-1)
  else if s = "auto" then some (-2)
  else if s = "max" then some (-3)
  else if s = "auto-digest-max" then some (-4)
  else strtol s

/-- The part for the salt length -/
def setPssSaltlen (ctx : RsaSigCtx) : Option Param → Bool × RsaSigCtx
  | none => (true,ctx)
  | some (.integer (some v)) => (true,{ctx with saltlen := v,hasSaltlen := true})
  | some (.utf8 s) =>
    match (getUtf8String 16 (.utf8 s)).bind saltlenOf with
    | some v => (true,{ctx with saltlen := v,hasSaltlen := true})
    | none => (false,ctx)
  | some _ => (false,ctx)

/-- `zz9k_rsa_sig_set_ctx_params` -/
def rsaSigSetCtxParams (ctx : RsaSigCtx) : Option SigParams → Bool × RsaSigCtx
  | none => (true,ctx)
  | some params =>
    let (ok,ctx) := setPadMode ctx params.padMode
    if !ok then (false,ctx)
    else
      let (ok,ctx) := setDigest ctx params.digest
      if !ok then (false,ctx)
      else
        let (ok,ctx) := setMgf1Digest ctx params.mgf1Digest
        if !ok then (false,ctx)
        else setPssSaltlen ctx params.pssSaltlen

/-- `zz9k_rsa_sig_verify_init` -/
def rsaSigVerifyInit (ctx : RsaSigCtx) (provkey : Option RsaKey) (params : Option SigParams) :
    Bool × RsaSigCtx :=
  match provkey with
  | none => (false,ctx)
  | some key => rsaSigSetCtxParams {ctx with key := some key} params

/-- `zz9k_rsa_sig_accel_eligible` -/
def rsaSigAccelEligible (ctx : RsaSigCtx) (siglen tbslen : Nat) : Bool :=
  match ctx.key with
  | none => false
  | some key => ctx.padMode = rsaPkcs1Padding ∧
      (ctx.mdname = "" ∨ ctx.mdname = "SHA256" ∨ ctx.mdname = "SHA2-256") ∧
      key.accel ∧ tbslen = 32 ∧ siglen = key.nbytes.toNat

/-- A name, where one is set -/
def named (s : String) : Option String := if s = "" then none else some s

/-- `zz9k_rsa_sig_verify_delegated` -/
def rsaSigVerifyDelegated (env : Env) (ctx : RsaSigCtx) (sig tbs : List UInt8) : Bool :=
  match ctx.key.bind RsaKey.shadow with
  | none => false
  | some (n,e) =>
    if ctx.padMode = rsaPssPadding then
      env.default n e ctx.padMode (named ctx.mdname) (named ctx.mgf1mdname)
        (if ctx.hasSaltlen then some ctx.saltlen else none) sig tbs
    else env.default n e ctx.padMode (named ctx.mdname) none none sig tbs

/-- `zz9k_rsa_verify_pkcs1_sha256_via_default` -/
def rsaVerifyPkcs1Sha256ViaDefault (env : Env) (ctx : RsaSigCtx) (sig tbs : List UInt8) : Bool :=
  match ctx.key.bind RsaKey.shadow with
  | none => false
  | some (n,e) => env.default n e rsaPkcs1Padding (some "SHA256") none none sig tbs

/-- `zz9k_rsa_sig_verify`: whether it returns 1 -/
def rsaSigVerify (env : Env) (ctx : RsaSigCtx) (sig tbs : List UInt8) : Bool :=
  match ctx.key with
  | none => false
  | some key =>
    if !key.hasPub then false
    else if rsaSigAccelEligible ctx sig.length tbs.length then
      let verdict :=
        if env.offloadEnabled then provRsaVerify env sig tbs key.n (key.nbytes*8) key.e else none
      match verdict with
      | some v => v
      | none => rsaVerifyPkcs1Sha256ViaDefault env ctx sig tbs
    else rsaSigVerifyDelegated env ctx sig tbs

/-- A call that prepares a verify -/
inductive SigCall
  | verifyInit (provkey : Option RsaKey) (params : Option SigParams)
  | setCtxParams (params : Option SigParams)

def SigCall.run (ctx : RsaSigCtx) : SigCall → Bool × RsaSigCtx
  | .verifyInit provkey params => rsaSigVerifyInit ctx provkey params
  | .setCtxParams params => rsaSigSetCtxParams ctx params

/-- The context after some calls, whatever they return -/
def runCalls (ctx : RsaSigCtx) (calls : List SigCall) : RsaSigCtx :=
  calls.foldl (fun ctx call => (call.run ctx).2) ctx

end ZZ9K.Provider
