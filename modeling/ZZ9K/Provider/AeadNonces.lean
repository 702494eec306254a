import ZZ9K.Provider.Aead

namespace ZZ9K.Provider

open ZZ9K.Crypto ZZ9K.Framework

theorem beBytes_succ (n x : Nat) : beBytes (n+1) x = beBytes n (x/256)++[UInt8.ofNat x] := by
  rw [beBytes,leBytes,List.reverse_cons]
  rfl

/-- The carry goes on only over a byte that wraps to zero. -/
theorem ctr64IncFrom_eq (n x : Nat) (rest : List UInt8) :
    ctr64IncFrom n (beBytes n x++rest) = beBytes n (x+1)++rest := by
  induction n generalizing x rest with
  | zero => rfl
  | succ n ih =>
    have hbyte : (beBytes (n+1) x++rest).getD n 0 = UInt8.ofNat x := by
      rw [beBytes_succ,List.append_assoc,List.getD_append_right _ _ _ _ (by simp)]
      simp
    have hset : ∀ b,(beBytes (n+1) x++rest).set n b = beBytes n (x/256)++(b::rest) := by
      intro b
      rw [beBytes_succ,List.append_assoc,List.set_append_right _ _ (by simp)]
      simp
    have hnext : UInt8.ofNat x+1 = UInt8.ofNat (x+1) := by simp
    rw [ctr64IncFrom,hbyte,hset,hnext]
    have hzero : UInt8.ofNat (x+1) = 0 ↔ (x+1)%256 = 0 := by
      rw [← UInt8.toNat_inj,UInt8.toNat_ofNat']
      rfl
    split
    · next hne =>
      have hcarry : (x+1)/256 = x/256 := by
        have hmod := mt hzero.mpr hne
        omega
      rw [beBytes_succ,hcarry,List.append_assoc]
      rfl
    · next heq =>
      have hmod := hzero.mp (not_not.mp heq)
      have hcarry : (x+1)/256 = x/256+1 := by omega
      rw [ih,beBytes_succ,hcarry,List.append_assoc]
      rfl

/-- The invocation field is a counter of 64 bits. -/
theorem ctr64Inc_eq (x : Nat) : ctr64Inc (beBytes 8 x) = beBytes 8 (x+1) := by
  have h := ctr64IncFrom_eq 8 x []
  rwa [List.append_nil,List.append_nil] at h

/-- A log of questions and answers of a context -/
abbrev AeadLog := List (Answered AeadQuery AeadQuery.Answer)

/-- The calls of the one-shot cipher in a log -/
def aeadCalls (log : AeadLog) : List AeadCall :=
  log.filterMap fun e =>
    match e.1 with
    | .provAead call => some call
    | _ => none

@[simp] theorem aeadCalls_append (log log' : AeadLog) :
    aeadCalls (log++log') = aeadCalls log++aeadCalls log' := by
  simp [aeadCalls]

@[simp] theorem aeadCalls_provAead (call : AeadCall)
    (x : (AeadQuery.provAead call).Answer) : aeadCalls [⟨.provAead call,x⟩] = [call] := rfl

/-- The nonces that a log encrypts under -/
def sealedNonces (log : AeadLog) : List (List UInt8) :=
  ((aeadCalls log).filter AeadCall.enc).map AeadCall.nonce

@[simp] theorem sealedNonces_append (log log' : AeadLog) :
    sealedNonces (log++log') = sealedNonces log++sealedNonces log' := by
  simp [sealedNonces]

@[simp] theorem sealedNonces_provAead (call : AeadCall) (x : (AeadQuery.provAead call).Answer) :
    sealedNonces [⟨.provAead call,x⟩] = if call.enc then [call.nonce] else [] := by
  cases h : call.enc <;> simp [sealedNonces,h]

/-- A call on a cipher context, but for the fixed IV of records -/
inductive AeadOp
  | init (key iv : Option (List UInt8)) (params : Option AeadParams) (enc : Bool)
  | updateAad (input : List UInt8)
  | updateData (outsize : Nat) (input : List UInt8)
  | final
  | setCtxParams (params : Option AeadParams)

namespace AeadOp

/-- The context that a call leaves -/
def run (ctx : AeadCtx) : AeadOp → AeadProg AeadCtx
  | init key iv params enc => Prod.snd <$> ctx.init key iv params enc
  | updateAad input => Prod.snd <$> ctx.updateAad input
  | updateData outsize input => Prod.snd <$> ctx.updateData outsize input
  | final => Prod.snd <$> ctx.final
  | setCtxParams params => Prod.snd <$> ctx.setCtxParams params

def runAll (ctx : AeadCtx) : List AeadOp → AeadProg AeadCtx
  | [] => pure ctx
  | op::ops => do
    let ctx ← op.run ctx
    runAll ctx ops

/-- The call sets neither an IV nor a fixed IV. -/
def KeepsIv : AeadOp → Prop
  | init _ iv params _ => iv = none ∧ ∀ p ∈ params,p.tls1IvFixed = none
  | setCtxParams params => ∀ p ∈ params,p.tls1IvFixed = none
  | _ => True

end AeadOp

/-- Setting the tag sets no more than that. -/
theorem setTag_kept (ctx : AeadCtx) (param : Option AeadParam) : ∃ tag taglen tagSet,
    (ctx.setTag param).2 = {ctx with tag := tag,taglen := taglen,tagSet := tagSet} := by
  unfold AeadCtx.setTag
  split
  · exact ⟨_,_,_,rfl⟩
  · split <;> exact ⟨_,_,_,rfl⟩
  · exact ⟨_,_,_,rfl⟩

/-- Setting the additional data of a record sets no more than that. -/
theorem setTlsAad_kept (ctx : AeadCtx) (param : Option AeadParam) : ∃ tlsAad tlsAadSet,
    (ctx.setTlsAad param).2 = {ctx with tlsAad := tlsAad,tlsAadSet := tlsAadSet} := by
  unfold AeadCtx.setTlsAad
  split
  · exact ⟨_,_,rfl⟩
  · split
    · exact ⟨_,_,rfl⟩
    · dsimp only
      split <;> exact ⟨_,_,rfl⟩
  · exact ⟨_,_,rfl⟩

section

variable {I : AeadCtx → AeadLog → Prop} {ctx : AeadCtx} {log : AeadLog}

/-- Additional data: what a question for memory and the longer data keep is kept. -/
theorem updateAad_wp (h : I ctx log) (input : List UInt8)
    (hasked : ∀ size got,I ctx (log++[⟨.realloc size,got⟩]))
    (hlonger : ∀ aad aadcap log,I ctx log → I {ctx with aad := aad,aadcap := aadcap} log) :
    (World.logged _ _).wp (ctx.updateAad input) (fun r log => I r.2 log) log := by
  unfold AeadCtx.updateAad
  by_cases hempty : input = []
  · rw [if_pos hempty]
    exact h
  · rw [if_neg hempty]
    dsimp only
    by_cases hroom : ctx.aadcap < ctx.aad.length+input.length
    · rw [if_pos hroom]
      intro got _
      cases got with
      | false => exact hasked _ _
      | true => exact hlonger _ _ _ (hasked _ _)
    · rw [if_neg hroom]
      exact hlonger _ _ _ h

/-- Parameters: what the tag, the additional data of a record and the fixed IV keep is kept. -/
theorem setCtxParams_wp (h : I ctx log) {params : Option AeadParams}
    (htag : ∀ ctx log tag taglen tagSet,I ctx log →
      I {ctx with tag := tag,taglen := taglen,tagSet := tagSet} log)
    (hivlen : ∀ ctx log,I ctx log → I {ctx with ivlen := aeadIvlen} log)
    (harm : ∀ p ∈ params,∀ ctx log,I ctx log → I (ctx.setTlsAad p.tls1Aad).2 log)
    (hfixed : ∀ p ∈ params,∀ ctx log,I ctx log →
      (World.logged _ _).wp (ctx.setTlsIvFixed p.tls1IvFixed) (fun r log => I r.2 log) log) :
    (World.logged _ _).wp (ctx.setCtxParams params) (fun r log => I r.2 log) log := by
  cases params with
  | none => exact h
  | some params =>
    have htagged : I (ctx.setTag params.tag).2 log := by
      obtain ⟨_,_,_,hset⟩ := setTag_kept ctx params.tag
      rw [hset]
      exact htag _ _ _ _ _ h
    unfold AeadCtx.setCtxParams
    dsimp only
    split_ifs
    · exact htagged
    · exact htagged
    · exact hivlen _ _ htagged
    · exact harm _ rfl _ _ (hivlen _ _ htagged)
    · exact hfixed _ rfl _ _ (harm _ rfl _ _ (hivlen _ _ htagged))
    · exact htagged
    · exact harm _ rfl _ _ htagged
    · exact hfixed _ rfl _ _ (harm _ rfl _ _ htagged)

end

/-- The nonce of the record of a given invocation -/
def invocationNonce (salt : List UInt8) (start i : Nat) : List UInt8 := salt++beBytes 8 (start+i)

/-- An AES-GCM context that has encrypted only records, each under the next invocation field -/
structure Invoking (salt : List UInt8) (start : Nat) (ctx : AeadCtx) (log : AeadLog) : Prop where
  alg : ctx.alg ≠ .chacha20Poly1305
  noIv : ctx.haveIv = false
  tlsIv : ctx.tlsIv = invocationNonce salt start (sealedNonces log).length
  nonces : sealedNonces log =
    (List.range (sealedNonces log).length).map (invocationNonce salt start)

section

variable {salt : List UInt8} {start : Nat} {ctx ctx' : AeadCtx} {log : AeadLog}

/-- What does not touch the algorithm or the IVs keeps the invocations. -/
theorem Invoking.frame (h : Invoking salt start ctx log) (halg : ctx'.alg = ctx.alg)
    (hiv : ctx'.haveIv = ctx.haveIv) (htls : ctx'.tlsIv = ctx.tlsIv) :
    Invoking salt start ctx' log :=
  ⟨halg ▸ h.alg,hiv.trans h.noIv,htls.trans h.tlsIv,h.nonces⟩

/-- A question that encrypts nothing keeps them. -/
theorem Invoking.asked (h : Invoking salt start ctx log)
    {e : Answered AeadQuery AeadQuery.Answer} (he : sealedNonces [e] = []) :
    Invoking salt start ctx (log++[e]) := by
  have hsame : sealedNonces (log++[e]) = sealedNonces log := by
    rw [sealedNonces_append,he,List.append_nil]
  exact ⟨h.alg,h.noIv,hsame ▸ h.tlsIv,hsame ▸ h.nonces⟩

/-- The next record is encrypted under the next nonce. -/
theorem Invoking.sealed (h : Invoking salt start ctx log) (hsalt : salt.length = 4)
    {call : AeadCall} (hcall : call.enc = true) (hnonce : call.nonce = ctx.tlsIv)
    (x : (AeadQuery.provAead call).Answer) :
    Invoking salt start {ctx with tlsIv := ctx.tlsIv.take 4++ctr64Inc (ctx.tlsIv.drop 4)}
      (log++[⟨.provAead call,x⟩]) := by
  have hone : sealedNonces (log++[⟨.provAead call,x⟩]) = sealedNonces log++[ctx.tlsIv] := by
    rw [sealedNonces_append,sealedNonces_provAead,if_pos hcall,hnonce]
  constructor
  · exact h.alg
  · exact h.noIv
  · dsimp only
    rw [hone,h.tlsIv,invocationNonce,List.take_left' hsalt,List.drop_left' hsalt,ctr64Inc_eq,
      List.length_append,List.length_singleton]
    rfl
  · rw [hone,List.length_append,List.length_singleton,List.range_succ,List.map_append,← h.nonces,
      h.tlsIv]
    rfl

/-- A question to the cipher that is no encryption -/
theorem Invoking.opened (h : Invoking salt start ctx log) {call : AeadCall}
    (hcall : call.enc = false) (x : (AeadQuery.provAead call).Answer) :
    Invoking salt start ctx (log++[⟨.provAead call,x⟩]) := by
  apply h.asked
  rw [sealedNonces_provAead,hcall]
  rfl

theorem Invoking.tlsRecordGcm (h : Invoking salt start ctx log) (hsalt : salt.length = 4)
    (outsize : Nat) (input : List UInt8) :
    (World.logged _ _).wp (ctx.tlsRecordGcm outsize input)
      (fun r log => Invoking salt start r.2 log) log := by
  unfold AeadCtx.tlsRecordGcm
  split_ifs with hset hlen henc
  · exact h
  · exact h
  · intro answer _
    have hnext := @Invoking.sealed salt start ctx log h hsalt (AeadCtx.call
      {ctx with tlsIv := ctx.tlsIv.take 4++ctr64Inc (ctx.tlsIv.drop 4)} ctx.tlsIv ctx.tlsAad
      ((input.drop tlsExplicitIv).take (input.length-tlsExplicitIv-tlsTagLen)) []) henc rfl answer
    cases answer with
    | none => exact hnext
    | some sealed => exact hnext
  · intro answer _
    have hsame := @Invoking.opened salt start ctx log h (ctx.call
      (ctx.tlsIv.take 4++input.take tlsExplicitIv) ctx.tlsAad
      ((input.drop tlsExplicitIv).take (input.length-tlsExplicitIv-tlsTagLen))
      ((input.drop (tlsExplicitIv+(input.length-tlsExplicitIv-tlsTagLen))).take tlsTagLen))
      (Bool.not_eq_true _ ▸ henc) answer
    cases answer with
    | none => exact hsame
    | some opened => exact hsame

theorem Invoking.updateData (h : Invoking salt start ctx log) (hsalt : salt.length = 4)
    (outsize : Nat) (input : List UInt8) :
    (World.logged _ _).wp (ctx.updateData outsize input)
      (fun r log => Invoking salt start r.2 log) log := by
  unfold AeadCtx.updateData
  by_cases harmed : ctx.tlsAadSet = true
  · rw [if_pos harmed]
    have hoff : Invoking salt start {ctx with tlsAadSet := false} log := h.frame rfl rfl rfl
    unfold AeadCtx.tlsRecord
    dsimp only
    split_ifs with hkey halg
    · exact hoff
    · exact absurd halg h.alg
    · exact hoff.tlsRecordGcm hsalt outsize input
  · rw [if_neg harmed,if_pos (.inr (.inr (.inl h.noIv)))]
    exact h

theorem Invoking.final (h : Invoking salt start ctx log) :
    (World.logged _ _).wp ctx.final (fun r log => Invoking salt start r.2 log) log := by
  unfold AeadCtx.final
  have hidle : ctx.haveKey = false ∨ ctx.haveIv = false := .inr h.noIv
  rw [if_pos hidle]
  split <;> exact h

theorem Invoking.updateAad (h : Invoking salt start ctx log) (input : List UInt8) :
    (World.logged _ _).wp (ctx.updateAad input)
      (fun r log => Invoking salt start r.2 log) log := by
  apply updateAad_wp h
  · exact fun _ _ => h.asked rfl
  · exact fun _ _ _ h => h.frame rfl rfl rfl

theorem Invoking.setCtxParams (h : Invoking salt start ctx log) {params : Option AeadParams}
    (hparams : ∀ p ∈ params,p.tls1IvFixed = none) :
    (World.logged _ _).wp (ctx.setCtxParams params)
      (fun r log => Invoking salt start r.2 log) log := by
  apply setCtxParams_wp h
  · exact fun _ _ _ _ _ h => h.frame rfl rfl rfl
  · exact fun _ _ h => h.frame rfl rfl rfl
  · intro p _ ctx log h
    obtain ⟨_,_,hset⟩ := setTlsAad_kept ctx p.tls1Aad
    rw [hset]
    exact h.frame rfl rfl rfl
  · intro p hp ctx log h
    rw [hparams p hp]
    exact h

theorem Invoking.init (h : Invoking salt start ctx log) {key : Option (List UInt8)}
    {params : Option AeadParams} (hparams : ∀ p ∈ params,p.tls1IvFixed = none) (enc : Bool) :
    (World.logged _ _).wp (ctx.init key none params enc)
      (fun r log => Invoking salt start r.2 log) log := by
  have hfresh : Invoking salt start
      {ctx with enc := enc,done := false,aad := [],tlsAadSet := false} log := h.frame rfl rfl rfl
  unfold AeadCtx.init
  dsimp only
  rw [Option.any_none,if_neg Bool.false_ne_true]
  split_ifs with hkey
  · exact hfresh
  · cases key with
    | none => exact hfresh.setCtxParams hparams
    | some key =>
      apply Invoking.setCtxParams _ hparams
      exact h.frame rfl rfl rfl

/-- A call keeps the invocations. -/
theorem Invoking.run (h : Invoking salt start ctx log) (hsalt : salt.length = 4) {op : AeadOp}
    (hop : op.KeepsIv) :
    (World.logged _ _).wp (op.run ctx) (fun ctx log => Invoking salt start ctx log) log := by
  cases op with
  | init key iv params enc =>
    obtain rfl := hop.1
    exact (World.wp_map _).mpr (h.init hop.2 enc)
  | updateAad input => exact (World.wp_map _).mpr (h.updateAad input)
  | updateData outsize input => exact (World.wp_map _).mpr (h.updateData hsalt outsize input)
  | final => exact (World.wp_map _).mpr h.final
  | setCtxParams params => exact (World.wp_map _).mpr (h.setCtxParams hop)

theorem Invoking.runAll (h : Invoking salt start ctx log) (hsalt : salt.length = 4)
    {ops : List AeadOp} (hops : ∀ op ∈ ops,op.KeepsIv) :
    (World.logged _ _).wp (AeadOp.runAll ctx ops)
      (fun ctx log => Invoking salt start ctx log) log := by
  induction ops generalizing ctx log with
  | nil => exact h
  | cons op ops ih =>
    apply (World.wp_bind _).mpr
    apply World.wp_mono _ (h.run hsalt (hops op List.mem_cons_self))
    intro ctx log h
    exact ih h fun op hop => hops op (List.mem_cons_of_mem _ hop)

theorem invocationNonce_inj {i j : Nat}
    (h : invocationNonce salt start i = invocationNonce salt start j) :
    (start+i)%256^8 = (start+j)%256^8 := by
  have hfield := congrArg beNat (List.append_cancel_left h)
  rwa [beNat_beBytes,beNat_beBytes] at hfield

/-- The invocation field repeats only after `2^64` records. -/
theorem invocationNonces_nodup (salt : List UInt8) (start : Nat) {n : Nat} (hn : n ≤ 2^64) :
    ((List.range n).map (invocationNonce salt start)).Nodup := by
  apply List.Nodup.map_on _ List.nodup_range
  intro i hi j hj h
  have hmod := invocationNonce_inj h
  rw [List.mem_range] at hi hj
  omega

/-- Whatever is asked of an AES-GCM context to which no IV is given, its records are encrypted
under consecutive invocation fields after one salt, and so under different nonces. -/
theorem gcm_records_nonces {ctx ctx' : AeadCtx} {ops : List AeadOp} {log : AeadLog}
    (halg : ctx.alg ≠ .chacha20Poly1305) (hiv : ctx.haveIv = false) (hlen : ctx.tlsIv.length = 12)
    (hops : ∀ op ∈ ops,op.KeepsIv) (hrun : (AeadOp.runAll ctx ops).Runs log ctx') :
    sealedNonces log = (List.range (sealedNonces log).length).map
        (invocationNonce (ctx.tlsIv.take 4) (beNat (ctx.tlsIv.drop 4))) ∧
      ((sealedNonces log).length ≤ 2^64 → (sealedNonces log).Nodup) := by
  have hfield : beBytes 8 (beNat (ctx.tlsIv.drop 4)) = ctx.tlsIv.drop 4 := by
    have hback := beBytes_beNat (ctx.tlsIv.drop 4)
    rwa [List.length_drop,hlen] at hback
  have hstart : Invoking (ctx.tlsIv.take 4) (beNat (ctx.tlsIv.drop 4)) ctx [] := by
    constructor
    · exact halg
    · exact hiv
    · change ctx.tlsIv = ctx.tlsIv.take 4++beBytes 8 (beNat (ctx.tlsIv.drop 4)+0)
      rw [Nat.add_zero,hfield,List.take_append_drop]
    · rfl
  have hsalt : (ctx.tlsIv.take 4).length = 4 := by simp [hlen]
  have hlast := World.logged_sound (hstart.runAll hsalt hops) hrun
  constructor
  · exact hlast.nonces
  · intro hn
    rw [hlast.nonces]
    exact invocationNonces_nodup _ _ hn

/-- What sets a context up for a record of no payload, and the record -/
def emptyRecord : List AeadOp :=
  [.setCtxParams (some {tls1Aad := some (.octets (List.replicate 12 0++[8]))}),
    .updateData 24 (List.replicate 24 0)]

/-- Two records over the wrap of the invocation field -/
theorem gcm_records_nonces_wrap :
    let ctx : AeadCtx := {AeadCtx.new .aes128Gcm with
      enc := true
      haveKey := true
      tlsIv := List.replicate 12 255
      tlsIvSet := true}
    let sealedAs (nonce : List UInt8) : Answered AeadQuery AeadQuery.Answer :=
      ⟨.provAead (ctx.call nonce (List.replicate 13 0) [] []),some ([],List.replicate 16 0)⟩
    let log := [sealedAs (List.replicate 12 255),
      sealedAs (List.replicate 4 255++List.replicate 8 0)]
    sealedNonces log = (List.range (sealedNonces log).length).map
        (invocationNonce (List.replicate 4 255) (beNat (List.replicate 8 255))) ∧
      ((sealedNonces log).length ≤ 2^64 → (sealedNonces log).Nodup) := by
  intro ctx sealedAs log
  have hops : ∀ op ∈ emptyRecord++emptyRecord,op.KeepsIv := by
    simp [emptyRecord,AeadOp.KeepsIv]
  have hrun : (AeadOp.runAll ctx (emptyRecord++emptyRecord)).Runs log
      {ctx with tlsIv := List.replicate 4 255++beBytes 8 1} :=
    Ask.runs_of_replay (by decide +kernel)
  exact @gcm_records_nonces ctx _ _ _ (by decide) rfl rfl hops hrun

end

/-- The IVs that calls give -/
def ivsGiven (ops : List AeadOp) : List (List UInt8) :=
  ops.filterMap fun op =>
    match op with
    | .init _ iv _ _ => iv
    | _ => none

/-- The call sets up no record, and an initialisation gives an IV of the right length. -/
def AeadOp.GivesIv : AeadOp → Prop
  | .init _ iv params _ => (∃ bytes,iv = some bytes ∧ bytes.length = aeadIvlen) ∧
      ∀ p ∈ params,p.tls1Aad = none
  | .setCtxParams params => ∀ p ∈ params,p.tls1Aad = none
  | _ => True

/-- The IV that a context may still encrypt under -/
def pendingIv (ctx : AeadCtx) : List (List UInt8) :=
  if ctx.done = false ∧ ctx.haveIv = true then [ctx.iv] else []

/-- The nonces of the encryptions of a log that the cipher carried out -/
def usedNonces (log : AeadLog) : List (List UInt8) :=
  log.filterMap fun e =>
    match e with
    | ⟨.provAead call,some _⟩ => if call.enc then some call.nonce else none
    | _ => none

@[simp] theorem usedNonces_append (log log' : AeadLog) :
    usedNonces (log++log') = usedNonces log++usedNonces log' := by
  simp [usedNonces]

/-- A context that uses up the IVs it was given for messages -/
structure Spending (given : List (List UInt8)) (ctx : AeadCtx) (log : AeadLog) : Prop where
  ivlen : ctx.ivlen = aeadIvlen
  noRecord : ctx.tlsAadSet = false
  spent : (usedNonces log++pendingIv ctx).Sublist given

section

variable {given : List (List UInt8)} {ctx ctx' : AeadCtx} {log : AeadLog}

theorem Spending.frame (h : Spending given ctx log) (hivlen : ctx'.ivlen = aeadIvlen)
    (hrecord : ctx'.tlsAadSet = false) (hiv : ctx'.iv = ctx.iv) (hhave : ctx'.haveIv = ctx.haveIv)
    (hdone : ctx'.done = ctx.done) : Spending given ctx' log := by
  constructor
  · exact hivlen
  · exact hrecord
  · have hspent := h.spent
    rwa [pendingIv,← hiv,← hhave,← hdone] at hspent

theorem Spending.asked (h : Spending given ctx log) {e : Answered AeadQuery AeadQuery.Answer}
    (he : usedNonces [e] = []) : Spending given ctx (log++[e]) := by
  constructor
  · exact h.ivlen
  · exact h.noRecord
  · rw [usedNonces_append,he,List.append_nil]
    exact h.spent

/-- The cipher is used under the pending IV, which is then spent. -/
theorem Spending.used (h : Spending given ctx log) (hdone : ctx.done = false)
    (hhave : ctx.haveIv = true) {call : AeadCall} (hnonce : call.nonce = ctx.iv)
    (out : List UInt8 × List UInt8) (tag : List UInt8) :
    Spending given {ctx with tag := tag,done := true} (log++[⟨.provAead call,some out⟩]) := by
  constructor
  · exact h.ivlen
  · exact h.noRecord
  · have hspent := h.spent
    have hpending : pendingIv ctx = [call.nonce] := by
      rw [pendingIv,if_pos ⟨hdone,hhave⟩,hnonce]
    have hnone : pendingIv {ctx with tag := tag,done := true} = [] := rfl
    rw [hpending] at hspent
    rw [hnone,List.append_nil,usedNonces_append]
    cases henc : call.enc with
    | true =>
      have hone : usedNonces [⟨.provAead call,some out⟩] = [call.nonce] := by
        simp [usedNonces,henc]
      rw [hone]
      exact hspent
    | false =>
      have hnothing : usedNonces [⟨.provAead call,some out⟩] = [] := by
        simp [usedNonces,henc]
      rw [hnothing,List.append_nil]
      exact (List.sublist_append_left _ _).trans hspent

theorem Spending.updateData (h : Spending given ctx log) (outsize : Nat) (input : List UInt8) :
    (World.logged _ _).wp (ctx.updateData outsize input)
      (fun r log => Spending given r.2 log) log := by
  unfold AeadCtx.updateData
  have hplain : ¬ctx.tlsAadSet = true := by simp [h.noRecord]
  rw [if_neg hplain]
  by_cases hidle : ctx.done = true ∨ ctx.haveKey = false ∨ ctx.haveIv = false ∨
      outsize < input.length
  · rw [if_pos hidle]
    exact h
  · rw [if_neg hidle]
    by_cases htag : ctx.enc = false ∧ ctx.tagSet = false
    · rw [if_pos htag]
      exact h
    · rw [if_neg htag]
      simp only [not_or,Bool.not_eq_true,Bool.not_eq_false] at hidle
      intro answer _
      cases answer with
      | none => exact h.asked rfl
      | some out => exact h.used hidle.1 hidle.2.2.1 rfl out _

theorem Spending.final (h : Spending given ctx log) :
    (World.logged _ _).wp ctx.final (fun r log => Spending given r.2 log) log := by
  unfold AeadCtx.final
  cases hdone : ctx.done with
  | true => exact h
  | false =>
    rw [if_neg Bool.false_ne_true]
    by_cases hidle : ctx.haveKey = false ∨ ctx.haveIv = false
    · rw [if_pos hidle]
      exact h
    · rw [if_neg hidle]
      by_cases htag : ctx.enc = false ∧ ctx.tagSet = false
      · rw [if_pos htag]
        exact h
      · rw [if_neg htag]
        simp only [not_or,Bool.not_eq_false] at hidle
        intro answer _
        cases answer with
        | none => exact h.asked rfl
        | some out => exact h.used hdone hidle.2 rfl out _

theorem Spending.updateAad (h : Spending given ctx log) (input : List UInt8) :
    (World.logged _ _).wp (ctx.updateAad input) (fun r log => Spending given r.2 log) log := by
  apply updateAad_wp h
  · exact fun _ _ => h.asked rfl
  · exact fun _ _ _ h => h.frame h.ivlen h.noRecord rfl rfl rfl

theorem Spending.setTlsIvFixed (h : Spending given ctx log) (param : Option AeadParam) :
    (World.logged _ _).wp (ctx.setTlsIvFixed param)
      (fun r log => Spending given r.2 log) log := by
  have hset : ∀ tlsIv tlsIvSet log,Spending given ctx log →
      Spending given {ctx with tlsIv := tlsIv,tlsIvSet := tlsIvSet} log := by
    intro tlsIv tlsIvSet log h
    exact h.frame h.ivlen h.noRecord rfl rfl rfl
  unfold AeadCtx.setTlsIvFixed
  split
  · exact h
  · dsimp only
    split_ifs
    · exact h
    · exact hset _ _ _ h
    · exact h
    · exact hset _ _ _ h
    · intro field _
      have hasked : Spending given ctx (log++[⟨.randBytes tlsExplicitIv,field⟩]) := h.asked rfl
      cases field with
      | none => exact hset _ _ _ hasked
      | some field => exact hset _ _ _ hasked
  · exact h

theorem Spending.setCtxParams (h : Spending given ctx log) {params : Option AeadParams}
    (hparams : ∀ p ∈ params,p.tls1Aad = none) :
    (World.logged _ _).wp (ctx.setCtxParams params)
      (fun r log => Spending given r.2 log) log := by
  apply setCtxParams_wp h
  · exact fun _ _ _ _ _ h => h.frame h.ivlen h.noRecord rfl rfl rfl
  · exact fun _ _ h => h.frame rfl h.noRecord rfl rfl rfl
  · intro p hp ctx log h
    rw [hparams p hp]
    exact h
  · exact fun p _ ctx log h => h.setTlsIvFixed p.tls1IvFixed

theorem Spending.init (h : Spending given ctx log) (key : Option (List UInt8)) {iv : List UInt8}
    (hiv : iv.length = aeadIvlen) {params : Option AeadParams}
    (hparams : ∀ p ∈ params,p.tls1Aad = none) (enc : Bool) :
    (World.logged _ _).wp (ctx.init key (some iv) params enc)
      (fun r log => Spending (given++[iv]) r.2 log) log := by
  have hspent : (usedNonces log++[iv]).Sublist (given++[iv]) :=
    ((List.sublist_append_left _ _).trans h.spent).append (.refl _)
  have hfresh : ∀ key haveKey,Spending (given++[iv]) {ctx with
      enc := enc
      done := false
      aad := []
      tlsAadSet := false
      iv := iv
      haveIv := true
      key := key
      haveKey := haveKey} log := fun _ _ => ⟨h.ivlen,rfl,hspent⟩
  unfold AeadCtx.init
  dsimp only
  have hlen : ¬Option.any (fun iv => decide (iv.length ≠ ctx.ivlen)) (some iv) = true := by
    simp [hiv,h.ivlen]
  rw [if_neg hlen]
  split_ifs with hkey
  · exact hfresh _ _
  · cases key with
    | none => exact (hfresh _ _).setCtxParams hparams
    | some key => exact (hfresh _ _).setCtxParams hparams

/-- A call spends the pending IV at most, or gets another. -/
theorem Spending.run (h : Spending given ctx log) {op : AeadOp} (hop : op.GivesIv) :
    (World.logged _ _).wp (op.run ctx)
      (fun ctx log => Spending (given++ivsGiven [op]) ctx log) log := by
  have hsame : ∀ {op : AeadOp},ivsGiven [op] = [] → given++ivsGiven [op] = given := by
    intro op hnone
    rw [hnone,List.append_nil]
  cases op with
  | init key iv params enc =>
    obtain ⟨⟨bytes,rfl,hlen⟩,hparams⟩ := hop
    exact (World.wp_map _).mpr (h.init key hlen hparams enc)
  | updateAad input =>
    rw [hsame rfl]
    exact (World.wp_map _).mpr (h.updateAad input)
  | updateData outsize input =>
    rw [hsame rfl]
    exact (World.wp_map _).mpr (h.updateData outsize input)
  | final =>
    rw [hsame rfl]
    exact (World.wp_map _).mpr h.final
  | setCtxParams params =>
    rw [hsame rfl]
    exact (World.wp_map _).mpr (h.setCtxParams hop)

theorem Spending.runAll (h : Spending given ctx log) {ops : List AeadOp}
    (hops : ∀ op ∈ ops,op.GivesIv) :
    (World.logged _ _).wp (AeadOp.runAll ctx ops)
      (fun ctx log => Spending (given++ivsGiven ops) ctx log) log := by
  induction ops generalizing given ctx log with
  | nil =>
    have hnil : given++ivsGiven [] = given := List.append_nil _
    rw [hnil]
    exact h
  | cons op ops ih =>
    have hcons : given++ivsGiven (op::ops) = given++ivsGiven [op]++ivsGiven ops := by
      rw [List.append_assoc]
      congr 1
      exact List.filterMap_append (l := [op])
    rw [hcons]
    apply (World.wp_bind _).mpr
    apply World.wp_mono _ (h.run (hops op List.mem_cons_self))
    intro ctx log h
    exact ih h fun op hop => hops op (List.mem_cons_of_mem _ hop)

end

/-- Of the IVs that a context is given in turn for messages, each is encrypted under at most once,
whatever else is asked of the context: the nonces used are a sublist of the IVs. -/
theorem messages_spend_ivs (alg : AeadAlg) {ops : List AeadOp} {log : AeadLog} {ctx' : AeadCtx}
    (hops : ∀ op ∈ ops,op.GivesIv) (hrun : (AeadOp.runAll (.new alg) ops).Runs log ctx') :
    (usedNonces log).Sublist (ivsGiven ops) ∧ ((ivsGiven ops).Nodup → (usedNonces log).Nodup) := by
  have hstart : Spending [] (.new alg) [] := ⟨rfl,rfl,.refl _⟩
  have hlast := World.logged_sound (hstart.runAll hops) hrun
  have hsub := (List.sublist_append_left _ _).trans hlast.spent
  constructor
  · exact hsub
  · exact fun hnodup => hnodup.sublist hsub

/-- A message that the cipher fails once and takes the second time, and one without data -/
theorem messages_spend_ivs_two :
    let params : AeadOp := .setCtxParams none
    let first : AeadOp := .init (some (List.replicate 16 7)) (some (List.replicate 12 1)) none true
    let second : AeadOp := .init none (some (List.replicate 12 2)) none true
    let ops := [first,.updateData 1 [5],.updateData 1 [5],.final,second,params,.final]
    let call (iv input : List UInt8) : AeadCall :=
      {alg := .aes128Gcm,enc := true,key := List.replicate 16 7,nonce := iv,aad := [],input
       tag := []}
    let log : AeadLog := [⟨.provAead (call (List.replicate 12 1) [5]),none⟩,
      ⟨.provAead (call (List.replicate 12 1) [5]),some ([6],List.replicate 16 0)⟩,
      ⟨.provAead (call (List.replicate 12 2) []),some ([],List.replicate 16 9)⟩]
    (usedNonces log).Sublist (ivsGiven ops) ∧ ((ivsGiven ops).Nodup → (usedNonces log).Nodup) := by
  intro params first second ops call log
  have hops : ∀ op ∈ ops,op.GivesIv := by
    simp [ops,params,first,second,AeadOp.GivesIv,aeadIvlen]
  have hrun : (AeadOp.runAll (.new .aes128Gcm) ops).Runs log {AeadCtx.new .aes128Gcm with
      key := List.replicate 16 7++List.replicate 16 0
      iv := List.replicate 12 2
      tag := List.replicate 16 9
      enc := true
      haveKey := true
      haveIv := true
      done := true} := Ask.runs_of_replay (by decide +kernel)
  exact messages_spend_ivs .aes128Gcm hops hrun

end ZZ9K.Provider
