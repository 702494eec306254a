import ZZ9K.Provider.Rsa

namespace ZZ9K.Provider

/-- A key object holds the numbers that it was imported with. -/
def Imported (env : Env) (n e : Nat) (key : RsaKey) : Prop :=
  ∃ old readable, rsaKeymgmtImport env old true (some n) (some e) readable = (true,key)

/-- Whether the offload can take a key -/
def Accelerable (n e : Nat) : Prop :=
  0 < bnNumBytes n ∧ bnNumBytes n ≤ rsaMaxBytes ∧ bnNumBytes n%4 = 0 ∧ e.size ≤ 32

/-- What an offload returns is right: of a modulus of up to 2048 bits, and else where it is `valid`. -/
def FirmwareRight (env : Env) : Prop :=
  ∀ n e sig hash valid, Accelerable n e → hash.length = 32 → sig.length = bnNumBytes n →
    env.offloadVerify hash sig (bn2binpad n (bnNumBytes n)++bn2binpad e 4) = some valid →
    (valid = true → env.default n e rsaPkcs1Padding (some "SHA256") none none sig hash = true) ∧
    (bnNumBytes n ≤ 256 →
      env.default n e rsaPkcs1Padding (some "SHA256") none none sig hash = valid)

/-- The default provider takes both names of SHA-256 for the same. -/
def SameSha256 (D : DefaultProvider) : Prop :=
  ∀ n e sig data, D n e rsaPkcs1Padding (some "SHA2-256") none none sig data =
    D n e rsaPkcs1Padding (some "SHA256") none none sig data

/-- What the default provider answers for the parameters in force: the MGF1 digest and the salt length
are only of PSS. -/
def inForce (D : DefaultProvider) (ctx : RsaSigCtx) (n e : Nat) (sig data : List UInt8) : Bool :=
  if ctx.padMode = rsaPssPadding then
    D n e ctx.padMode (named ctx.mdname) (named ctx.mgf1mdname)
      (if ctx.hasSaltlen then some ctx.saltlen else none) sig data
  else D n e ctx.padMode (named ctx.mdname) none none sig data

/-- No digest is named, and the data could be a hash that the offload takes. -/
def UnnamedSha256 (ctx : RsaSigCtx) (key : RsaKey) (sig data : List UInt8) : Prop :=
  ctx.padMode = rsaPkcs1Padding ∧ ctx.mdname = "" ∧ key.accel = true ∧ data.length = 32 ∧
    sig.length = key.nbytes.toNat

instance (ctx : RsaSigCtx) (key : RsaKey) (sig data : List UInt8) :
    Decidable (UnnamedSha256 ctx key sig data) := inferInstanceAs (Decidable (_ ∧ _ ∧ _ ∧ _ ∧ _))

section

variable {env : Env} {n e : Nat} {key : RsaKey} {ctx : RsaSigCtx} {sig data : List UInt8}

@[simp] theorem bn2binpad_length (n len : Nat) : (bn2binpad n len).length = len := by
  induction len with
  | zero => rfl
  | succ len ih => simp [bn2binpad,ih]

/-- What an import leaves in the key object -/
structure Holds (n e : Nat) (key : RsaKey) : Prop where
  hasPub : key.hasPub = true
  shadow : key.shadow = some (n,e)
  accel : key.accel = true → Accelerable n e ∧ key.n = bn2binpad n (bnNumBytes n) ∧
    key.nbytes = (bnNumBytes n).toUInt32 ∧ key.e = e.toUInt32

theorem Imported.holds (h : Imported env n e key) : Holds n e key := by
  obtain ⟨old,readable,himport⟩ := h
  simp only [rsaKeymgmtImport,Bool.not_true,Bool.false_eq_true,if_false] at himport
  split_ifs at himport with hfrom haccel
  · cases himport
  · obtain rfl := (Prod.mk.inj himport).2
    exact ⟨rfl,rfl,fun _ => ⟨haccel.2,rfl,rfl,rfl⟩⟩
  · obtain rfl := (Prod.mk.inj himport).2
    exact ⟨rfl,rfl,fun h => Bool.noConfusion h⟩

theorem bn2binpad_word (e : Nat) (he : e.size ≤ 32) :
    [(e.toUInt32 >>> 24).toUInt8,(e.toUInt32 >>> 16).toUInt8,(e.toUInt32 >>> 8).toUInt8,
      e.toUInt32.toUInt8] = bn2binpad e 4 := by
  have hlt : e < 2^32 := Nat.size_le.mp he
  have hword : e.toUInt32.toNat = e := by
    rw [Nat.toUInt32_eq,UInt32.toNat_ofNat']
    exact Nat.mod_eq_of_lt hlt
  have hbyte : ∀ k : UInt32, k.toNat < 32 →
      (e.toUInt32 >>> k).toUInt8 = (e/2^k.toNat).toUInt8 := by
    intro k hk
    rw [← UInt8.toNat_inj,UInt32.toNat_toUInt8,UInt32.toNat_shiftRight,hword,Nat.toUInt8_eq,
      UInt8.toNat_ofNat',Nat.mod_eq_of_lt hk,Nat.shiftRight_eq_div_pow]
  have hlast : e.toUInt32.toUInt8 = (e/256^0).toUInt8 := by
    rw [← UInt8.toNat_inj,UInt32.toNat_toUInt8,hword,Nat.toUInt8_eq,UInt8.toNat_ofNat',Nat.pow_zero,
      Nat.div_one]
  rw [hbyte 24 (by decide),hbyte 16 (by decide),hbyte 8 (by decide),hlast]
  rfl

/-- An answer of the offload that counts is the default provider's. -/
theorem provRsaVerify_right (hfirm : FirmwareRight env) (hkey : Holds n e key)
    (haccel : key.accel = true) (hdata : data.length = 32)
    (hsig : sig.length = key.nbytes.toNat) {v : Bool}
    (h : provRsaVerify env sig data key.n (key.nbytes*8) key.e = some v) :
    v = env.default n e rsaPkcs1Padding (some "SHA256") none none sig data := by
  obtain ⟨hshape,hn,hnbytes,he⟩ := hkey.accel haccel
  have hmax : bnNumBytes n ≤ 512 := hshape.2.1
  have hbytes : key.nbytes.toNat = bnNumBytes n := by
    rw [hnbytes,Nat.toUInt32_eq,UInt32.toNat_ofNat']
    exact Nat.mod_eq_of_lt (by omega)
  have hbits : (key.nbytes*8/8).toNat = bnNumBytes n := by
    have height : (8 : UInt32).toNat = 8 := rfl
    rw [UInt32.toNat_div,UInt32.toNat_mul,hbytes,height]
    omega
  have htake : key.n.take (bnNumBytes n) = bn2binpad n (bnNumBytes n) := by
    rw [hn]
    exact List.take_of_length_le (by rw [bn2binpad_length])
  rw [provRsaVerify] at h
  simp only [hbits,htake,he,bn2binpad_word e hshape.2.2.2] at h
  split_ifs at h with hcan hsize
  cases hanswer : env.offloadVerify data sig
      (bn2binpad n (bnNumBytes n)++bn2binpad e 4) with
  | none =>
    rw [hanswer] at h
    cases h
  | some valid =>
    obtain ⟨hvalid,hright⟩ := hfirm n e sig data valid hshape hdata (hsig.trans hbytes) hanswer
    rw [hanswer] at h
    dsimp only at h
    split_ifs at h with hcounts
    obtain rfl := Option.some.inj h
    rcases hcounts with rfl | hsmall
    · exact (hvalid rfl).symm
    · exact (hright hsmall).symm

theorem rsaSigAccelEligible_iff (hkey : ctx.key = some key) :
    rsaSigAccelEligible ctx sig.length data.length = true ↔
      ctx.padMode = rsaPkcs1Padding ∧
      (ctx.mdname = "" ∨ ctx.mdname = "SHA256" ∨ ctx.mdname = "SHA2-256") ∧
      key.accel = true ∧ data.length = 32 ∧ sig.length = key.nbytes.toNat := by
  rw [rsaSigAccelEligible,hkey,decide_eq_true_eq]

/-- Whichever way a verify takes, it returns what the default provider answers, for the parameters in
force or, where no digest is named and the offload could take the data, for SHA-256. -/
theorem rsaSigVerify_eq (hfirm : FirmwareRight env) (hsame : SameSha256 env.default)
    (hkey : ctx.key = some key) (hholds : Holds n e key) :
    rsaSigVerify env ctx sig data =
      if UnnamedSha256 ctx key sig data then
        env.default n e rsaPkcs1Padding (some "SHA256") none none sig data
      else inForce env.default ctx n e sig data := by
  have hshadow : ctx.key.bind RsaKey.shadow = some (n,e) := by rw [hkey,Option.bind_some,hholds.shadow]
  have hpub : (!key.hasPub) = false := by rw [hholds.hasPub]; rfl
  have hdefault : rsaVerifyPkcs1Sha256ViaDefault env ctx sig data =
      env.default n e rsaPkcs1Padding (some "SHA256") none none sig data := by
    rw [rsaVerifyPkcs1Sha256ViaDefault,hshadow]
  have hdelegated : rsaSigVerifyDelegated env ctx sig data = inForce env.default ctx n e sig data := by
    rw [rsaSigVerifyDelegated,hshadow,inForce]
  simp only [rsaSigVerify,hkey,hpub,Bool.false_eq_true,if_false,hdelegated,hdefault]
  by_cases helig : rsaSigAccelEligible ctx sig.length data.length = true
  · obtain ⟨hpad,hname,haccel,hdata,hsig⟩ := (rsaSigAccelEligible_iff hkey).mp helig
    have hverdict : ∀ v, (if env.offloadEnabled = true then
        provRsaVerify env sig data key.n (key.nbytes*8) key.e else none) = some v →
          v = env.default n e rsaPkcs1Padding (some "SHA256") none none sig data := by
      intro v hv
      split_ifs at hv
      exact provRsaVerify_right hfirm hholds haccel hdata hsig hv
    have hsha : (if UnnamedSha256 ctx key sig data then
        env.default n e rsaPkcs1Padding (some "SHA256") none none sig data
      else inForce env.default ctx n e sig data) =
        env.default n e rsaPkcs1Padding (some "SHA256") none none sig data := by
      have hpkcs : rsaPkcs1Padding ≠ rsaPssPadding := by decide
      split_ifs with hunnamed
      · rfl
      · rw [inForce,hpad,if_neg hpkcs]
        rcases hname with hname | hname | hname
        · exact absurd ⟨hpad,hname,haccel,hdata,hsig⟩ hunnamed
        · rw [hname]
          rfl
        · rw [hname]
          exact hsame n e sig data
    rw [if_pos helig,hsha]
    cases hv : (if env.offloadEnabled = true then
        provRsaVerify env sig data key.n (key.nbytes*8) key.e else none) with
    | none => rfl
    | some v => exact hverdict v hv
  · have hnamed : ¬ UnnamedSha256 ctx key sig data := by
      rintro ⟨hpad,hname,haccel,hdata,hsig⟩
      exact helig ((rsaSigAccelEligible_iff hkey).mpr ⟨hpad,.inl hname,haccel,hdata,hsig⟩)
    rw [if_neg helig,if_neg hnamed]

end

/-- The parameters of a verify, as its caller means them -/
structure Settings where
  key : Option RsaKey := none
  padMode : Int := rsaPkcs1Padding
  digest : Option String := none
  mgf1Digest : Option String := none
  pssSaltlen : Option Int := none

/-- The padding that a parameter gives -/
def padModeOf : Param → Option Int
  | .integer v => v
  | .utf8 (some s) =>
    if s = "pkcs1" then some rsaPkcs1Padding else if s = "pss" then some rsaPssPadding else none
  | _ => none

/-- The salt length that a parameter gives -/
def pssSaltlenOf : Param → Option Int
  | .integer v => v
  | .utf8 s => (getUtf8String 16 (.utf8 s)).bind saltlenOf
  | .other => none

/-- Of each kind of parameter the last one that is given counts. -/
def Settings.set (s : Settings) (params : SigParams) : Settings where
  key := s.key
  padMode := (params.padMode.bind padModeOf).getD s.padMode
  digest := ((params.digest.bind (getUtf8String rsaMdnameMax)).map named).getD s.digest
  mgf1Digest := ((params.mgf1Digest.bind (getUtf8String rsaMdnameMax)).map named).getD s.mgf1Digest
  pssSaltlen := (params.pssSaltlen.bind pssSaltlenOf).or s.pssSaltlen

def Settings.after (s : Settings) : SigCall → Settings
  | .verifyInit provkey params => params.elim {s with key := provkey} {s with key := provkey}.set
  | .setCtxParams params => params.elim s s.set

/-- Each of some calls returns 1. -/
def AllSucceed : RsaSigCtx → List SigCall → Prop
  | _,[] => True
  | ctx,call::calls => (call.run ctx).1 = true ∧ AllSucceed (call.run ctx).2 calls

/-- A context has the parameters that the caller means. -/
structure RsaSigCtx.Carries (ctx : RsaSigCtx) (s : Settings) : Prop where
  key : ctx.key = s.key
  padMode : ctx.padMode = s.padMode
  digest : named ctx.mdname = s.digest
  mgf1Digest : named ctx.mgf1mdname = s.mgf1Digest
  pssSaltlen : (if ctx.hasSaltlen then some ctx.saltlen else none) = s.pssSaltlen

section

variable {ctx : RsaSigCtx}

theorem setPadMode_ok {p : Option Param} (h : (setPadMode ctx p).1 = true) :
    (setPadMode ctx p).2 = {ctx with padMode := (p.bind padModeOf).getD ctx.padMode} := by
  match p,h with
  | none,_ => rfl
  | some (.integer (some v)),_ => rfl
  | some (.utf8 (some s)),h =>
    simp only [setPadMode,Option.bind_some,padModeOf] at h ⊢
    split_ifs at h ⊢ with hpkcs hpss
    · rfl
    · rfl

theorem setDigest_ok {p : Option Param} (h : (setDigest ctx p).1 = true) :
    (setDigest ctx p).2 =
      {ctx with mdname := (p.bind (getUtf8String rsaMdnameMax)).getD ctx.mdname} := by
  cases p with
  | none => rfl
  | some p =>
    rw [setDigest] at h ⊢
    cases hs : getUtf8String rsaMdnameMax p with
    | none => rw [hs] at h; cases h
    | some s => rw [Option.bind_some,hs]; rfl

theorem setMgf1Digest_ok {p : Option Param} (h : (setMgf1Digest ctx p).1 = true) :
    (setMgf1Digest ctx p).2 =
      {ctx with mgf1mdname := (p.bind (getUtf8String rsaMdnameMax)).getD ctx.mgf1mdname} := by
  cases p with
  | none => rfl
  | some p =>
    rw [setMgf1Digest] at h ⊢
    cases hs : getUtf8String rsaMdnameMax p with
    | none => rw [hs] at h; cases h
    | some s => rw [Option.bind_some,hs]; rfl

theorem setPssSaltlen_ok {p : Option Param} (h : (setPssSaltlen ctx p).1 = true) :
    (setPssSaltlen ctx p).2 =
      {ctx with saltlen := (p.bind pssSaltlenOf).getD ctx.saltlen,
                hasSaltlen := (p.bind pssSaltlenOf).isSome || ctx.hasSaltlen} := by
  match p,h with
  | none,_ => rfl
  | some (.integer (some v)),_ => rfl
  | some (.utf8 s),h =>
    rw [setPssSaltlen] at h ⊢
    rw [Option.bind_some,pssSaltlenOf]
    cases hs : (getUtf8String 16 (.utf8 s)).bind saltlenOf with
    | none => rw [hs] at h; cases h
    | some v => rfl

theorem named_getD (p : Option String) (s : String) :
    named (p.getD s) = (p.map named).getD (named s) := by
  cases p <;> rfl

/-- A call that returns 1 has stored all that it was given. -/
theorem rsaSigSetCtxParams_ok {s : Settings} {params : SigParams} (hcarries : ctx.Carries s)
    (h : (rsaSigSetCtxParams ctx (some params)).1 = true) :
    (rsaSigSetCtxParams ctx (some params)).2.Carries (s.set params) := by
  rw [rsaSigSetCtxParams] at h ⊢
  dsimp only at h ⊢
  -- Each part returns 1, or the call would have stopped there.
  cases hpad : (setPadMode ctx params.padMode).1 with
  | false => rw [hpad] at h; cases h
  | true =>
    rw [hpad] at h
    rw [setPadMode_ok hpad] at h ⊢
    simp only [Bool.not_true,Bool.false_eq_true,if_false] at h ⊢
    generalize hctx : ({ctx with padMode := (params.padMode.bind padModeOf).getD ctx.padMode} :
      RsaSigCtx) = padded at h ⊢
    cases hdigest : (setDigest padded params.digest).1 with
    | false => rw [hdigest] at h; cases h
    | true =>
      rw [hdigest] at h
      rw [setDigest_ok hdigest] at h ⊢
      simp only [Bool.not_true,Bool.false_eq_true,if_false] at h ⊢
      generalize hctx' : ({padded with
        mdname := (params.digest.bind (getUtf8String rsaMdnameMax)).getD padded.mdname} :
        RsaSigCtx) = digested at h ⊢
      cases hmgf1 : (setMgf1Digest digested params.mgf1Digest).1 with
      | false => rw [hmgf1] at h; cases h
      | true =>
        rw [hmgf1] at h
        rw [setMgf1Digest_ok hmgf1] at h ⊢
        simp only [Bool.not_true,Bool.false_eq_true,if_false] at h ⊢
        rw [setPssSaltlen_ok h,← hctx',← hctx]
        exact {
          key := hcarries.key
          padMode := by rw [Settings.set,← hcarries.padMode]
          digest := by rw [Settings.set,← hcarries.digest,named_getD]
          mgf1Digest := by rw [Settings.set,← hcarries.mgf1Digest,named_getD]
          pssSaltlen := by
            rw [Settings.set,← hcarries.pssSaltlen]
            cases params.pssSaltlen.bind pssSaltlenOf <;> simp }

theorem SigCall.carries_ok {s : Settings} {call : SigCall} (hcarries : ctx.Carries s)
    (h : (call.run ctx).1 = true) : (call.run ctx).2.Carries (s.after call) := by
  cases call with
  | setCtxParams params =>
    cases params with
    | none => exact hcarries
    | some params => exact rsaSigSetCtxParams_ok hcarries h
  | verifyInit provkey params =>
    cases provkey with
    | none => cases h
    | some key =>
      have hkey : ({ctx with key := some key} : RsaSigCtx).Carries {s with key := some key} :=
        ⟨rfl,hcarries.padMode,hcarries.digest,hcarries.mgf1Digest,hcarries.pssSaltlen⟩
      cases params with
      | none => exact hkey
      | some params => exact rsaSigSetCtxParams_ok hkey h

theorem runCalls_carries {s : Settings} (calls : List SigCall) (hcarries : ctx.Carries s)
    (h : AllSucceed ctx calls) : (runCalls ctx calls).Carries (calls.foldl Settings.after s) := by
  induction calls generalizing ctx s with
  | nil => exact hcarries
  | cons call calls ih => exact ih (call.carries_ok hcarries h.1) h.2

end

/-- The number that bytes write, the highest first -/
def bytesNat (bytes : List UInt8) : Nat := bytes.foldl (fun v b => 256*v+b.toNat) 0

/-- PKCS#1 v1.5 with SHA-256, or of the bare data, and nothing else -/
def pkcs1Default : DefaultProvider := fun n e pad digest _ _ sig data =>
  let len := bnNumBytes n
  let block : Option (List UInt8) :=
    match digest with
    | none => some data
    | some name =>
      if (name = "SHA256" ∨ name = "SHA2-256") ∧ data.length = 32 then
        some (Crypto.sha256DigestInfo++data)
      else none
  match block with
  | none => false
  | some block => pad = rsaPkcs1Padding ∧ sig.length = len ∧ block.length+11 ≤ len ∧
      bytesNat sig < n ∧ bn2binpad (bytesNat sig^e%n) len =
        [0,1]++List.replicate (len-3-block.length) 0xff++[0]++block

/-- A library without a board -/
def softwareEnv : Env := ⟨pkcs1Default,fun _ _ => true,fun _ _ _ => none,false,false,0⟩

/-- A modulus of 512 bits, with exponent 1: a signature is the block that it signs. -/
def plainModulus : Nat := 2^256*2^256-1

def plainKey : RsaKey := (rsaKeymgmtImport softwareEnv {} true (some plainModulus) (some 1) true).2

/-- 32 bytes, signed bare -/
def plainData : List UInt8 := List.replicate 32 7

def bareSignature : List UInt8 := [0,1]++List.replicate 29 0xff++[0]++plainData

def infoSignature : List UInt8 :=
  [0,1]++List.replicate 10 0xff++[0]++Crypto.sha256DigestInfo++plainData

theorem softwareEnv_firmwareRight : FirmwareRight softwareEnv := by
  intro n e sig hash valid _ _ _ h
  cases h

theorem softwareEnv_sameSha256 : SameSha256 softwareEnv.default := by
  intro n e sig data
  simp [softwareEnv,pkcs1Default]

theorem plainKey_imported : Imported softwareEnv plainModulus 1 plainKey := by
  refine ⟨{},true,?_⟩
  have hsuccess :
      (rsaKeymgmtImport softwareEnv {} true (some plainModulus) (some 1) true).1 = true := by
    decide +kernel
  apply Prod.ext
  · exact hsuccess
  · rw [plainKey]

end ZZ9K.Provider
