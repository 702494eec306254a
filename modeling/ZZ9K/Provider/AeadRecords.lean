import ZZ9K.Provider.Aead
import ZZ9K.Crypto.ChaChaPoly

namespace ZZ9K.Provider

open ZZ9K.Crypto ZZ9K.Framework

/-- How many bytes of explicit IV lead a record -/
def explicitLen (alg : AeadAlg) : Nat := if alg = .chacha20Poly1305 then 0 else tlsExplicitIv

theorem explicitLen_le (alg : AeadAlg) : explicitLen alg ≤ 8 := by cases alg <;> decide

/-- A record to encrypt: its sequence number, type and version, and the payload with the room that
the encryption fills on both sides -/
structure TlsPlain where
  header : List UInt8
  payload : List UInt8
  lead : List UInt8
  trail : List UInt8
  header_length : header.length = 11
  payload_length : payload.length ≤ 2^14
  lead_length : lead.length = tlsExplicitIv
  trail_length : trail.length = tlsTagLen

/-- A record to decrypt, as long as its length field can say -/
structure TlsCipher where
  header : List UInt8
  record : List UInt8
  header_length : header.length = 11
  record_length : record.length < 2^16

/-- The key and the fixed IV of one direction of a connection -/
structure TlsKeys where
  alg : AeadAlg
  key : List UInt8
  fixed : List UInt8
  key_length : key.length = (AeadCtx.new alg).keylen
  fixed_length : fixed.length = aeadIvlen-explicitLen alg

/-- The additional data of a record as the record layer passes it -/
def recordParams (header : List UInt8) (len : Nat) : AeadParams :=
  {tls1Aad := some (.octets (header++beBytes 2 len))}

/-- How the record layer sets a context up: AES-GCM gets its fixed IV by a control, and
ChaCha20-Poly1305 as the IV of the initialisation. -/
def tlsSetup (keys : TlsKeys) (enc : Bool) : AeadProg (Option AeadCtx) :=
  if keys.alg = .chacha20Poly1305 then do
    let r ← (AeadCtx.new keys.alg).init (some keys.key) (some keys.fixed) none enc
    pure (if r.1 then some r.2 else none)
  else do
    let r ← (AeadCtx.new keys.alg).init (some keys.key) none none enc
    if r.1 = false then pure none
    else do
      let r ← r.2.setCtxParams (some {tls1IvFixed := some (.octets keys.fixed)})
      pure (if r.1 then some r.2 else none)

/-- One record through an encrypting context -/
def sealRecord (ctx : AeadCtx) (plain : TlsPlain) : AeadProg (Option (List UInt8) × AeadCtx) := do
  let input := plain.lead.take (explicitLen ctx.alg)++plain.payload++plain.trail
  let armed ← ctx.setCtxParams
    (some (recordParams plain.header (explicitLen ctx.alg+plain.payload.length)))
  if armed.1 = false then pure (none,armed.2)
  else do
    let r ← armed.2.updateData input.length input
    pure (r.1.map AeadOut.data,r.2)

/-- One record through a decrypting context -/
def openRecord (ctx : AeadCtx) (cipher : TlsCipher) : AeadProg (Option AeadOut × AeadCtx) := do
  let armed ← ctx.setCtxParams (some (recordParams cipher.header cipher.record.length))
  if armed.1 = false then pure (none,armed.2)
  else armed.2.updateData cipher.record.length cipher.record

/-- The nonce of a record from the fixed IV, the explicit IV and the header -/
def recordNonce (alg : AeadAlg) (fixed explicit header : List UInt8) : List UInt8 :=
  if alg = .chacha20Poly1305 then fixed.take 4++xorBytes 8 (fixed.drop 4) header
  else fixed++explicit

/-- The call that a record becomes; `field` is the length field that is authenticated. -/
def recordCall (alg : AeadAlg) (enc : Bool)
    (key fixed explicit header field input tag : List UInt8) : AeadCall :=
  {alg,enc,key,nonce := recordNonce alg fixed explicit header,aad := header++field,input,tag}

/-- A context that `tlsSetup` has made, at any record -/
structure Ready (alg : AeadAlg) (key fixed : List UInt8) (enc : Bool) (ctx : AeadCtx) : Prop where
  sameAlg : ctx.alg = alg
  direction : ctx.enc = enc
  keyed : ctx.haveKey = true
  sameKey : ctx.key.take ctx.keylen = key
  gcmIv : alg ≠ .chacha20Poly1305 → ctx.tlsIvSet = true ∧ fixed.length = 4 ∧
    ∃ field,field.length = tlsExplicitIv ∧ ctx.tlsIv = fixed++field
  chachaIv : alg = .chacha20Poly1305 →
    ctx.haveIv = true ∧ ctx.iv = fixed ∧ fixed.length = aeadIvlen

theorem ctr64IncFrom_length (n : Nat) (counter : List UInt8) :
    (ctr64IncFrom n counter).length = counter.length := by
  induction n generalizing counter with
  | zero => rfl
  | succ n ih =>
    rw [ctr64IncFrom]
    split
    · exact List.length_set
    · rw [ih,List.length_set]

/-- The length field reads back. -/
theorem lengthField (header : List UInt8) (h : header.length = 11) {len : Nat}
    (hlen : len < 2^16) :
    256*((header++beBytes 2 len).getD 11 0).toNat+((header++beBytes 2 len).getD 12 0).toNat =
      len := by
  have hbytes : beBytes 2 len = [UInt8.ofNat (len/256),UInt8.ofNat len] := rfl
  rw [List.getD_append_right _ _ _ _ (by omega),List.getD_append_right _ _ _ _ (by omega),h,hbytes]
  change 256*(UInt8.ofNat (len/256)).toNat+(UInt8.ofNat len).toNat = len
  rw [UInt8.toNat_ofNat',UInt8.toNat_ofNat']
  omega

theorem setCtxParams_record (ctx : AeadCtx) {header : List UInt8} (h : header.length = 11)
    {len : Nat} (hlen : len < 2^16) :
    ctx.setCtxParams (some (recordParams header len)) = .ret
      (match ctx.correctedLength len with
      | none => (false,{ctx with tlsAad := header++beBytes 2 len})
      | some n => (true,{ctx with tlsAad := header++beBytes 2 n,tlsAadSet := true})) := by
  have hsize : ¬(header++beBytes 2 len).length ≠ tlsAadLen := by simp [h,tlsAadLen]
  have htake : (header++beBytes 2 len).take 11 = header := List.take_left' h
  have harm : ctx.setTlsAad (some (.octets (header++beBytes 2 len))) =
      match ctx.correctedLength len with
      | none => (false,{ctx with tlsAad := header++beBytes 2 len})
      | some n => (true,{ctx with tlsAad := header++beBytes 2 n,tlsAadSet := true}) := by
    rw [AeadCtx.setTlsAad,if_neg hsize]
    dsimp only
    rw [lengthField header h hlen,htake]
    rfl
  change (if (ctx.setTlsAad (some (.octets (header++beBytes 2 len)))).1 = false then
      (pure (ctx.setTlsAad (some (.octets (header++beBytes 2 len)))) : AeadProg (Bool × AeadCtx))
    else (ctx.setTlsAad (some (.octets (header++beBytes 2 len)))).2.setTlsIvFixed none) = _
  rw [harm]
  cases ctx.correctedLength len with
  | none => rfl
  | some n => rfl

/-- The sequence number is in the header. -/
theorem xorBytes_header {header : List UInt8} (h : header.length = 11) (iv field : List UInt8) :
    xorBytes 8 iv (header++field) = xorBytes 8 iv header := by
  apply List.map_congr_left
  intro i hi
  have hi := List.mem_range.mp hi
  rw [List.getD_append _ _ _ _ (by omega)]

section

variable {alg : AeadAlg} {key fixed : List UInt8} {enc : Bool} {ctx : AeadCtx}

/-- Arming a context for a record, and the record itself, keep it ready. -/
theorem Ready.frame (h : Ready alg key fixed enc ctx) (tlsAad : List UInt8) (tlsAadSet : Bool) :
    Ready alg key fixed enc {ctx with tlsAad := tlsAad,tlsAadSet := tlsAadSet} :=
  ⟨h.sameAlg,h.direction,h.keyed,h.sameKey,h.gcmIv,h.chachaIv⟩

/-- The length field of an encryption leaves room for no more than the payload. -/
theorem Ready.correctedLength_seal (h : Ready alg key fixed true ctx) (n : Nat) :
    ctx.correctedLength (explicitLen ctx.alg+n) = some n := by
  rw [AeadCtx.correctedLength,h.direction]
  change (if explicitLen ctx.alg+n < explicitLen ctx.alg then none
    else if explicitLen ctx.alg+n-explicitLen ctx.alg < 0 then none
    else some (explicitLen ctx.alg+n-explicitLen ctx.alg-0)) = _
  rw [if_neg (by omega),if_neg (by omega),Nat.add_sub_cancel_left,Nat.sub_zero]

/-- That of a decryption counts the explicit IV and the tag. -/
theorem Ready.correctedLength_open (h : Ready alg key fixed false ctx) (n : Nat) :
    ctx.correctedLength n =
      if n < explicitLen alg+tlsTagLen then none else some (n-explicitLen alg-tlsTagLen) := by
  rw [AeadCtx.correctedLength,h.direction,h.sameAlg]
  change (if n < explicitLen alg then none
    else if n-explicitLen alg < tlsTagLen then none
    else some (n-explicitLen alg-tlsTagLen)) = _
  split_ifs <;> first | rfl | omega

/-- What the cipher is given of a record between its explicit IV and its tag -/
theorem payload_between {lead trail : List UInt8} (payload : List UInt8) {n : Nat}
    (hlead : lead.length = n) (htrail : trail.length = tlsTagLen) :
    ((lead++payload++trail).drop n).take ((lead++payload++trail).length-n-tlsTagLen) = payload ∧
      ((lead++payload++trail).drop (n+((lead++payload++trail).length-n-tlsTagLen))).take tlsTagLen =
        trail ∧
      (lead++payload++trail).length-n-tlsTagLen = payload.length := by
  have hlen : (lead++payload++trail).length-n-tlsTagLen = payload.length := by
    simp only [List.length_append]
    omega
  rw [hlen]
  refine ⟨?_,?_,rfl⟩
  · rw [List.append_assoc,List.drop_left' hlead,List.take_left]
  · rw [List.drop_left' (by simp [hlead]),← htrail,List.take_length]

theorem ask_provAead {α : Type} {call call' : AeadCall} (h : call = call')
    {k k' : Option (List UInt8 × List UInt8) → AeadProg α} (hk : ∀ answer,k answer = k' answer) :
    (Ask.ask (.provAead call) k : AeadProg α) = .ask (.provAead call') k' := by
  subst h
  exact congrArg _ (funext hk)

theorem Ready.call (h : Ready alg key fixed enc ctx) {header field : List UInt8}
    (haad : ctx.tlsAad = header++field) {nonce explicit : List UInt8}
    (hnonce : nonce = recordNonce alg fixed explicit header) (input tag : List UInt8) :
    ctx.call nonce ctx.tlsAad input tag = recordCall alg enc key fixed explicit header field input
      (if enc then [] else tag) := by
  rw [AeadCtx.call,recordCall,h.sameAlg,h.direction,h.sameKey,haad,hnonce]

theorem Ready.chachaNonce (h : Ready alg key fixed enc ctx) (halg : alg = .chacha20Poly1305)
    {header field : List UInt8} (haad : ctx.tlsAad = header++field) (hheader : header.length = 11)
    (explicit : List UInt8) : ctx.chachaNonce = recordNonce alg fixed explicit header := by
  rw [AeadCtx.chachaNonce,recordNonce,if_pos halg,haad,xorBytes_header hheader,
    (h.chachaIv halg).2.1]

variable {header field lead trail : List UInt8} (payload : List UInt8)

theorem record_length (hlead : lead.length = explicitLen alg) (htrail : trail.length = tlsTagLen) :
    (lead++payload++trail).length = explicitLen alg+payload.length+tlsTagLen := by
  simp only [List.length_append]
  omega

theorem Ready.sealedChacha (h : Ready alg key fixed true ctx) (halg : alg = .chacha20Poly1305)
    (haad : ctx.tlsAad = header++field) (hheader : header.length = 11)
    (hlead : lead.length = explicitLen alg) (htrail : trail.length = tlsTagLen) :
    ctx.tlsRecordChacha (lead++payload++trail).length (lead++payload++trail) =
      .ask (.provAead (recordCall alg true key fixed [] header field payload [])) fun answer =>
        .ret (answer.map fun out =>
          {outl := (lead++payload++trail).length,data := out.1++out.2},ctx) := by
  obtain ⟨hpayload,_,_⟩ := payload_between payload hlead htrail
  have hsize := record_length payload hlead htrail
  have hexplicit : explicitLen alg = 0 := if_pos halg
  rw [hexplicit] at hpayload hsize
  rw [AeadCtx.tlsRecordChacha]
  dsimp only
  rw [if_neg (by simp [(h.chachaIv halg).1]),if_neg (by omega),if_pos h.direction]
  apply ask_provAead
  · rw [Nat.sub_zero,List.drop_zero] at hpayload
    rw [hpayload]
    exact h.call haad (h.chachaNonce halg haad hheader []) payload []
  · intro answer
    cases answer <;> rfl

theorem Ready.sealedGcm (h : Ready alg key fixed true ctx) (halg : alg ≠ .chacha20Poly1305)
    (haad : ctx.tlsAad = header++field)
    (hlead : lead.length = explicitLen alg) (htrail : trail.length = tlsTagLen) :
    ∃ explicit ctx',explicit.length = explicitLen alg ∧ Ready alg key fixed true ctx' ∧
      ctx.tlsRecordGcm (lead++payload++trail).length (lead++payload++trail) =
        .ask (.provAead (recordCall alg true key fixed explicit header field payload []))
          fun answer => .ret (answer.map fun out =>
            {outl := (lead++payload++trail).length,data := explicit++out.1++out.2},ctx') := by
  obtain ⟨hpayload,_,_⟩ := payload_between payload hlead htrail
  have hsize := record_length payload hlead htrail
  obtain ⟨hset,hfixed,explicit,hlen,htls⟩ := h.gcmIv halg
  have hexplicit : explicitLen alg = tlsExplicitIv := if_neg halg
  rw [hexplicit] at hpayload hsize
  have hdrop : ctx.tlsIv.drop 4 = explicit := by rw [htls,List.drop_left' hfixed]
  have hnext : Ready alg key fixed true
      {ctx with tlsIv := ctx.tlsIv.take 4++ctr64Inc (ctx.tlsIv.drop 4)} := by
    constructor
    · exact h.sameAlg
    · exact h.direction
    · exact h.keyed
    · exact h.sameKey
    · intro _
      refine ⟨hset,hfixed,ctr64Inc explicit,?_,?_⟩
      · rw [ctr64Inc,ctr64IncFrom_length,hlen]
      · dsimp only
        rw [hdrop,htls,List.take_left' hfixed]
    · exact h.chachaIv
  refine ⟨explicit,_,hexplicit ▸ hlen,hnext,?_⟩
  rw [AeadCtx.tlsRecordGcm]
  dsimp only
  rw [if_neg (by simp [hset]),if_neg (by omega),if_pos h.direction]
  apply ask_provAead
  · rw [hpayload]
    have hnonce : ctx.tlsIv = recordNonce alg fixed explicit header := by
      rw [htls,recordNonce,if_neg halg]
    exact hnext.call haad hnonce payload []
  · intro answer
    rw [hdrop]
    cases answer <;> rfl

/-- An encrypting context asks the cipher for the record, and puts the explicit IV in front. -/
theorem Ready.sealed (h : Ready alg key fixed true ctx) (haad : ctx.tlsAad = header++field)
    (hheader : header.length = 11) (harmed : ctx.tlsAadSet = true)
    (hlead : lead.length = explicitLen alg) (htrail : trail.length = tlsTagLen) :
    ∃ explicit ctx',explicit.length = explicitLen alg ∧ Ready alg key fixed true ctx' ∧
      ctx.updateData (lead++payload++trail).length (lead++payload++trail) =
        .ask (.provAead (recordCall alg true key fixed explicit header field payload []))
          fun answer => .ret (answer.map fun out =>
            {outl := (lead++payload++trail).length,data := explicit++out.1++out.2},ctx') := by
  have hready := h.frame ctx.tlsAad false
  rw [AeadCtx.updateData,if_pos harmed,AeadCtx.tlsRecord]
  dsimp only
  rw [if_neg (by simp [h.keyed])]
  by_cases halg : alg = .chacha20Poly1305
  · rw [if_pos (h.sameAlg.trans halg)]
    have hexplicit : explicitLen alg = 0 := if_pos halg
    exact ⟨[],_,hexplicit.symm,hready,hready.sealedChacha payload halg haad hheader hlead htrail⟩
  · rw [if_neg (h.sameAlg ▸ halg)]
    exact hready.sealedGcm payload halg haad hlead htrail

/-- A decrypting context asks the cipher for what stands between the explicit IV and the tag. -/
theorem Ready.opened (h : Ready alg key fixed false ctx) (haad : ctx.tlsAad = header++field)
    (hheader : header.length = 11) (harmed : ctx.tlsAadSet = true)
    (hlead : lead.length = explicitLen alg) (htrail : trail.length = tlsTagLen) :
    ∃ ctx',Ready alg key fixed false ctx' ∧
      ctx.updateData (lead++payload++trail).length (lead++payload++trail) =
        .ask (.provAead (recordCall alg false key fixed lead header field payload trail))
          fun answer => .ret (answer.map fun out =>
            {outl := payload.length,offset := explicitLen alg,data := out.1},ctx') := by
  obtain ⟨hpayload,htag,hlen⟩ := payload_between payload hlead htrail
  have hsize := record_length payload hlead htrail
  have hready := h.frame ctx.tlsAad false
  refine ⟨_,hready,?_⟩
  rw [AeadCtx.updateData,if_pos harmed,AeadCtx.tlsRecord]
  dsimp only
  rw [if_neg (by simp [h.keyed])]
  by_cases halg : alg = .chacha20Poly1305
  · have hexplicit : explicitLen alg = 0 := if_pos halg
    rw [hexplicit] at hpayload hsize htag hlen
    rw [Nat.sub_zero] at hpayload htag hlen
    rw [if_pos (h.sameAlg.trans halg),AeadCtx.tlsRecordChacha]
    dsimp only
    rw [if_neg (by simp [(h.chachaIv halg).1]),if_neg (by omega),if_neg (by simp [h.direction])]
    apply ask_provAead
    · rw [List.drop_zero] at hpayload
      rw [Nat.zero_add] at htag
      rw [hpayload,htag]
      exact hready.call haad (hready.chachaNonce halg haad hheader lead) payload trail
    · intro answer
      rw [hexplicit,hlen]
      cases answer <;> rfl
  · obtain ⟨hset,hfixed,explicit,_,htls⟩ := h.gcmIv halg
    have hexplicit : explicitLen alg = tlsExplicitIv := if_neg halg
    rw [hexplicit] at hpayload hsize htag hlen hlead
    rw [if_neg (h.sameAlg ▸ halg),AeadCtx.tlsRecordGcm]
    dsimp only
    rw [if_neg (by simp [hset]),if_neg (by omega),if_neg (by simp [h.direction])]
    apply ask_provAead
    · have hnonce : ctx.tlsIv.take 4++(lead++payload++trail).take tlsExplicitIv =
          recordNonce alg fixed lead header := by
        rw [recordNonce,if_neg halg,htls,List.take_left' hfixed,List.append_assoc,
          List.take_left' hlead]
      rw [hpayload,htag,hnonce]
      exact hready.call haad rfl payload trail
    · intro answer
      rw [hexplicit,hlen]
      cases answer <;> rfl

/-- A sealed record is the explicit IV, the text and the tag. -/
theorem Ready.sealRecord (h : Ready alg key fixed true ctx) (plain : TlsPlain) :
    ∃ explicit ctx',explicit.length = explicitLen alg ∧ Ready alg key fixed true ctx' ∧
      ZZ9K.Provider.sealRecord ctx plain = .ask (.provAead (recordCall alg true key fixed explicit
        plain.header (beBytes 2 plain.payload.length) plain.payload [])) fun answer =>
          .ret (answer.map fun out => explicit++out.1++out.2,ctx') := by
  have hpayload := plain.payload_length
  have hlead : (plain.lead.take (explicitLen alg)).length = explicitLen alg := by
    rw [List.length_take,plain.lead_length]
    exact Nat.min_eq_left (explicitLen_le alg)
  have hfit : explicitLen ctx.alg+plain.payload.length < 2^16 := by
    have hexplicit := explicitLen_le ctx.alg
    omega
  have harmed := h.frame (plain.header++beBytes 2 plain.payload.length) true
  obtain ⟨explicit,ctx',hlen,hready,hseal⟩ := harmed.sealed plain.payload rfl
    plain.header_length rfl hlead plain.trail_length
  refine ⟨explicit,ctx',hlen,hready,?_⟩
  rw [ZZ9K.Provider.sealRecord,setCtxParams_record ctx plain.header_length hfit,
    h.correctedLength_seal,congrArg explicitLen h.sameAlg]
  refine (congrArg (· >>= fun r : Option AeadOut × AeadCtx =>
    (pure (r.1.map AeadOut.data,r.2) : AeadProg _)) hseal).trans ?_
  apply ask_provAead rfl
  intro answer
  cases answer <;> rfl

/-- A record too short for its explicit IV and tag is not decrypted. -/
theorem Ready.openRecord_short (h : Ready alg key fixed false ctx) (cipher : TlsCipher)
    (hshort : cipher.record.length < explicitLen alg+tlsTagLen) :
    ∃ ctx',Ready alg key fixed false ctx' ∧ openRecord ctx cipher = .ret (none,ctx') := by
  refine ⟨_,h.frame (cipher.header++beBytes 2 cipher.record.length) ctx.tlsAadSet,?_⟩
  rw [openRecord,setCtxParams_record ctx cipher.header_length cipher.record_length,
    h.correctedLength_open,if_pos hshort]
  rfl

theorem Ready.openRecord (h : Ready alg key fixed false ctx) (cipher : TlsCipher)
    (hrecord : cipher.record = lead++payload++trail) (hlead : lead.length = explicitLen alg)
    (htrail : trail.length = tlsTagLen) :
    ∃ ctx',Ready alg key fixed false ctx' ∧
      ZZ9K.Provider.openRecord ctx cipher = .ask (.provAead (recordCall alg false key fixed lead
        cipher.header (beBytes 2 payload.length) payload trail)) fun answer =>
          .ret (answer.map fun out =>
            {outl := payload.length,offset := explicitLen alg,data := out.1},ctx') := by
  have hsize := record_length payload hlead htrail
  have hlong : ¬cipher.record.length < explicitLen alg+tlsTagLen := by
    rw [hrecord]
    omega
  have hlen : cipher.record.length-explicitLen alg-tlsTagLen = payload.length := by
    rw [hrecord]
    omega
  have harmed := h.frame (cipher.header++beBytes 2 payload.length) true
  obtain ⟨ctx',hready,hopen⟩ := harmed.opened payload rfl cipher.header_length rfl
    hlead htrail
  refine ⟨ctx',hready,?_⟩
  rw [ZZ9K.Provider.openRecord,setCtxParams_record ctx cipher.header_length cipher.record_length,
    h.correctedLength_open,if_neg hlong,hlen,hrecord]
  exact hopen

end

/-- A record that is long enough is an explicit IV, a text and a tag. -/
theorem record_parts (alg : AeadAlg) {record : List UInt8}
    (h : explicitLen alg+tlsTagLen ≤ record.length) : ∃ lead text trail,
    record = lead++text++trail ∧ lead.length = explicitLen alg ∧ trail.length = tlsTagLen := by
  refine ⟨record.take (explicitLen alg),(record.drop (explicitLen alg)).take
    (record.length-explicitLen alg-tlsTagLen),record.drop (record.length-tlsTagLen),?_,?_,?_⟩
  · have hrest : record.drop (record.length-tlsTagLen) = (record.drop (explicitLen alg)).drop
        (record.length-explicitLen alg-tlsTagLen) := by
      rw [List.drop_drop]
      congr 1
      omega
    rw [hrest,List.append_assoc,List.take_append_drop,List.take_append_drop]
  · rw [List.length_take]
    omega
  · rw [List.length_drop]
    omega

/-- A first initialisation takes the key, and the IV if there is one. -/
theorem init_new (keys : TlsKeys) (iv : Option (List UInt8))
    (hiv : ∀ bytes ∈ iv,bytes.length = aeadIvlen) (enc : Bool) :
    (AeadCtx.new keys.alg).init (some keys.key) iv none enc = .ret (true,{AeadCtx.new keys.alg with
      enc := enc
      iv := iv.getD (List.replicate 12 0)
      haveIv := iv.isSome
      key := keys.key++(List.replicate 32 0).drop keys.key.length
      haveKey := true}) := by
  have hkey : ¬(some keys.key).any
      (fun key => key.length ≠ (AeadCtx.new keys.alg).keylen) = true := by
    simp [keys.key_length]
  unfold AeadCtx.init
  dsimp only
  cases iv with
  | none =>
    rw [Option.any_none,if_neg Bool.false_ne_true,if_neg hkey]
    rfl
  | some bytes =>
    have hlen : ¬(some bytes).any (fun iv => iv.length ≠ (AeadCtx.new keys.alg).ivlen) = true := by
      have hsame : bytes.length = (AeadCtx.new keys.alg).ivlen := hiv bytes rfl
      simp [hsame]
    rw [if_neg hlen,if_neg hkey]
    rfl

/-- The fixed IV of AES-GCM: an encryption asks for the start of the invocation field. -/
theorem setFixedIv (ctx : AeadCtx) (halg : ctx.alg ≠ .chacha20Poly1305) {fixed : List UInt8}
    (hfixed : fixed.length = 4) :
    ctx.setCtxParams (some {tls1IvFixed := some (.octets fixed)}) =
      if ctx.enc = false then
        .ret (true,{ctx with tlsIv := fixed++ctx.tlsIv.drop 4,tlsIvSet := true})
      else .ask (.randBytes tlsExplicitIv) fun answer => .ret (match answer with
        | none => (false,{ctx with tlsIv := fixed++ctx.tlsIv.drop 4})
        | some field => (true,{ctx with tlsIv := fixed++field.val,tlsIvSet := true})) := by
  change ctx.setTlsIvFixed (some (.octets fixed)) = _
  rw [AeadCtx.setTlsIvFixed]
  dsimp only
  rw [if_neg halg,if_neg (by simp [hfixed])]
  split
  · rfl
  · refine congrArg (Ask.ask (AeadQuery.randBytes tlsExplicitIv)) (funext fun answer => ?_)
    cases answer with
    | none => rfl
    | some field =>
      rw [List.take_left' hfixed]
      rfl

/-- A set-up context is ready, once the random bytes for an encryption are there. -/
theorem tlsSetup_ready (keys : TlsKeys) (enc : Bool) :
    (∃ ctx,Ready keys.alg keys.key keys.fixed enc ctx ∧ tlsSetup keys enc = .ret (some ctx)) ∨
      ∃ start : {bytes : List UInt8 // bytes.length = tlsExplicitIv} → AeadCtx,
        (∀ field,Ready keys.alg keys.key keys.fixed enc (start field)) ∧
        tlsSetup keys enc =
          .ask (.randBytes tlsExplicitIv) fun answer => .ret (answer.map start) := by
  have htake : (keys.key++(List.replicate 32 0).drop keys.key.length).take
      (AeadCtx.new keys.alg).keylen = keys.key := List.take_left' keys.key_length
  rw [tlsSetup]
  by_cases halg : keys.alg = .chacha20Poly1305
  · have hfixed : keys.fixed.length = aeadIvlen := by
      rw [keys.fixed_length,explicitLen,if_pos halg]
      rfl
    left
    rw [if_pos halg,init_new keys (some keys.fixed) (by simp [hfixed])]
    refine ⟨_,⟨rfl,rfl,rfl,htake,fun h => absurd halg h,fun _ => ⟨rfl,rfl,hfixed⟩⟩,rfl⟩
  · have hfixed : keys.fixed.length = 4 := by
      rw [keys.fixed_length,explicitLen,if_neg halg]
      rfl
    rw [if_neg halg,init_new keys none (by simp)]
    generalize hctx : ({AeadCtx.new keys.alg with
      enc := enc
      iv := (none : Option (List UInt8)).getD (List.replicate 12 0)
      haveIv := (none : Option (List UInt8)).isSome
      key := keys.key++(List.replicate 32 0).drop keys.key.length
      haveKey := true} : AeadCtx) = ctx
    have hready : ∀ field : List UInt8,field.length = tlsExplicitIv →
        Ready keys.alg keys.key keys.fixed enc
          {ctx with tlsIv := keys.fixed++field,tlsIvSet := true} := by
      intro field hfield
      subst hctx
      exact ⟨rfl,rfl,rfl,htake,fun _ => ⟨rfl,hfixed,field,hfield,rfl⟩,fun h => absurd h halg⟩
    have hsame : ctx.alg = keys.alg := by rw [← hctx]; rfl
    have hset : (Ask.ret (true,ctx) >>= fun r => if r.1 = false then (pure none : AeadProg _) else
        r.2.setCtxParams (some {tls1IvFixed := some (.octets keys.fixed)}) >>= fun r =>
          pure (if r.1 then some r.2 else none)) =
        (ctx.setCtxParams (some {tls1IvFixed := some (.octets keys.fixed)}) >>= fun r =>
          pure (if r.1 then some r.2 else none)) := rfl
    have henc : ctx.enc = enc := by rw [← hctx]
    have hlast : ctx.tlsIv.drop 4 = List.replicate 8 0 := by rw [← hctx]; rfl
    rw [hset,setFixedIv ctx (hsame ▸ halg) hfixed]
    cases enc with
    | false =>
      left
      rw [if_pos henc]
      exact ⟨_,hready (ctx.tlsIv.drop 4) (by rw [hlast]; rfl),rfl⟩
    | true =>
      right
      rw [if_neg (by simp [henc])]
      refine ⟨_,fun field => hready field.val field.property,?_⟩
      refine congrArg (Ask.ask (AeadQuery.randBytes tlsExplicitIv)) (funext fun answer => ?_)
      cases answer <;> rfl

/-- The environment of a one-shot cipher; random bytes are to be had. -/
def aeadWorld (cipher : AeadCall → Option (List UInt8 × List UInt8)) :
    World AeadQuery AeadQuery.Answer where
  State := List AeadCall
  allowed _ e := match e with
    | ⟨.provAead call,answer⟩ => answer = cipher call
    | ⟨.randBytes _,answer⟩ => answer ≠ none
    | ⟨.realloc _,_⟩ => True
  next calls e := match e.1 with
    | .provAead call => calls++[call]
    | _ => calls

/-- The lengths of the arguments are the algorithm's own. -/
structure AeadCall.Proper (call : AeadCall) : Prop where
  key_length : call.key.length = (AeadCtx.new call.alg).keylen
  nonce_length : call.nonce.length = aeadIvlen
  aad_length : call.aad.length < 2^32
  input_length : call.input.length < 2^32

/-- What a cipher encrypts it decrypts, under the same key, nonce and additional data. -/
structure OneShot (cipher : AeadCall → Option (List UInt8 × List UInt8)) : Prop where
  seals : ∀ call : AeadCall,call.Proper → call.enc = true → ∃ text tag,
    cipher call = some (text,tag) ∧ text.length = call.input.length ∧ tag.length = tlsTagLen ∧
      ∃ spare,cipher {call with enc := false,input := text,tag := tag} = some (call.input,spare)

/-- Records through a pair of contexts, each decrypted as it was encrypted -/
def exchange (enc dec : AeadCtx) : List TlsPlain → AeadProg (Option (List AeadOut))
  | [] => pure (some [])
  | plain::plains => do
    let sealed ← sealRecord enc plain
    match sealed.1 with
    | none => pure none
    | some record =>
      if h : record.length < 2^16 then do
        let opened ← openRecord dec
          {header := plain.header,record,header_length := plain.header_length,record_length := h}
        match opened.1 with
        | none => pure none
        | some out => do
          let outs ← exchange sealed.2 opened.2 plains
          pure (outs.map (out::·))
      else pure none

/-- Both ends of one direction of a connection -/
def tlsSession (keys : TlsKeys) (plains : List TlsPlain) : AeadProg (Option (List AeadOut)) := do
  match ← tlsSetup keys true with
  | none => pure none
  | some enc =>
    match ← tlsSetup keys false with
    | none => pure none
    | some dec => exchange enc dec plains

/-- What a record delivers -/
def delivered (alg : AeadAlg) (plain : TlsPlain) : AeadOut :=
  {outl := plain.payload.length,offset := explicitLen alg,data := plain.payload}

/-- Encryptions and decryptions in turn, each pair under one key, one nonce and one text of
additional data -/
inductive Paired : List AeadCall → Prop
  | nil : Paired []
  | cons {sealed opened : AeadCall} {calls : List AeadCall} (hseal : sealed.enc = true)
      (hopen : opened.enc = false) (hkey : opened.key = sealed.key)
      (hnonce : opened.nonce = sealed.nonce) (haad : opened.aad = sealed.aad)
      (h : Paired calls) : Paired (sealed::opened::calls)

theorem recordNonce_length {alg : AeadAlg} {fixed explicit : List UInt8}
    (hfixed : fixed.length = aeadIvlen-explicitLen alg)
    (hexplicit : explicit.length = explicitLen alg)
    (header : List UInt8) : (recordNonce alg fixed explicit header).length = aeadIvlen := by
  rw [recordNonce]
  split
  · next halg =>
    subst halg
    rw [List.length_append,List.length_take,hfixed,xorBytes,List.length_map,List.length_range]
    rfl
  · rw [List.length_append,hfixed,hexplicit]
    exact Nat.sub_add_cancel ((explicitLen_le alg).trans (by decide))

/-- A pair of ready contexts delivers every record. -/
theorem exchange_delivers {cipher : AeadCall → Option (List UInt8 × List UInt8)}
    (hcipher : OneShot cipher) (keys : TlsKeys) {enc dec : AeadCtx}
    (henc : Ready keys.alg keys.key keys.fixed true enc)
    (hdec : Ready keys.alg keys.key keys.fixed false dec) (plains : List TlsPlain)
    (calls : List AeadCall) :
    (aeadWorld cipher).wp (exchange enc dec plains) (fun r calls' =>
      r = some (plains.map (delivered keys.alg)) ∧
        ∃ tail,calls' = calls++tail ∧ Paired tail) calls := by
  induction plains generalizing enc dec calls with
  | nil => exact ⟨rfl,[],(List.append_nil _).symm,.nil⟩
  | cons plain plains ih =>
    obtain ⟨explicit,enc',hexplicit,henc',hseal⟩ := henc.sealRecord plain
    have hproper : (recordCall keys.alg true keys.key keys.fixed explicit plain.header
        (beBytes 2 plain.payload.length) plain.payload []).Proper := by
      have hpayload := plain.payload_length
      constructor
      · exact keys.key_length
      · exact recordNonce_length keys.fixed_length hexplicit _
      · simp [recordCall,plain.header_length]
      · change plain.payload.length < 2^32
        omega
    obtain ⟨text,tag,hsealed,htext,htag,spare,hopened⟩ := hcipher.seals _ hproper rfl
    have hfit : (explicit++text++tag).length < 2^16 := by
      have hpayload := plain.payload_length
      have hle := explicitLen_le keys.alg
      change text.length = plain.payload.length at htext
      rw [record_length text hexplicit htag,tlsTagLen]
      omega
    obtain ⟨dec',hdec',hopen⟩ := hdec.openRecord text
      {header := plain.header,record := explicit++text++tag
       header_length := plain.header_length,record_length := hfit} rfl hexplicit htag
    have hlen : text.length = plain.payload.length := htext
    rw [hlen] at hopen
    rw [exchange,hseal]
    intro answer hanswer
    obtain rfl : answer = some (text,tag) := hanswer.trans hsealed
    change (aeadWorld cipher).wp (dite _ _ _) _ _
    rw [dif_pos hfit,hopen]
    intro answer hanswer
    obtain rfl : answer = some (plain.payload,spare) := hanswer.trans hopened
    change (aeadWorld cipher).wp (exchange enc' dec' plains >>= fun outs =>
      pure (outs.map (delivered keys.alg plain::·))) _ _
    apply (World.wp_bind _).mpr
    apply World.wp_mono _ (ih henc' hdec' _)
    intro r calls' hr
    obtain ⟨rfl,tail,htail,hpaired⟩ := hr
    have hpair : Paired (
        recordCall keys.alg true keys.key keys.fixed explicit plain.header
          (beBytes 2 plain.payload.length) plain.payload []::
        recordCall keys.alg false keys.key keys.fixed explicit plain.header
          (beBytes 2 plain.payload.length) text tag::tail) := .cons rfl rfl rfl rfl rfl hpaired
    refine ⟨rfl,_,?_,hpair⟩
    rw [htail]
    exact (List.append_assoc _ _ _).trans (List.append_assoc _ _ _)

/-- A set-up asks for no more than random bytes. What it goes on with is ready, and where there are
random bytes, it goes on. -/
theorem tlsSetup_wp (w : World AeadQuery AeadQuery.Answer) (keys : TlsKeys) (enc : Bool)
    {s : w.State} (hnext : ∀ x,w.next s ⟨.randBytes tlsExplicitIv,x⟩ = s) :
    w.wp (tlsSetup keys enc) (fun r t => t = s ∧
      (∀ ctx,r = some ctx → Ready keys.alg keys.key keys.fixed enc ctx) ∧
      ((∀ x,w.allowed s ⟨.randBytes tlsExplicitIv,x⟩ → x ≠ none) → r ≠ none)) s := by
  obtain ⟨ctx,hready,hsetup⟩ | ⟨start,hready,hsetup⟩ := tlsSetup_ready keys enc
  · rw [hsetup]
    exact ⟨rfl,fun _ h => Option.some.inj h ▸ hready,fun _ => Option.some_ne_none ctx⟩
  · rw [hsetup]
    intro answer hanswer
    refine ⟨hnext answer,fun ctx h => ?_,fun hsome h => hsome answer hanswer ?_⟩
    · obtain ⟨field,_,rfl⟩ := Option.map_eq_some_iff.mp h
      exact hready field
    · exact Option.map_eq_none_iff.mp h

/-- `zz9k_prov_aead` without a board, into a zeroed buffer -/
def provAead (call : AeadCall) : Option (List UInt8 × List UInt8) :=
  let out := List.replicate call.input.length 0
  if call.alg = .chacha20Poly1305 then
    if call.enc then some (chachaPolyEncrypt out call.input call.aad call.key call.nonce)
    else
      let r := chachaPolyDecrypt out call.input call.aad call.tag call.key call.nonce
      if r.1 = 0 then none else some (r.2,call.tag)
  else if call.enc then
    let r := aesGcmEncrypt out (List.replicate 16 0) call.input call.aad call.key call.nonce
    if r.1 = 0 then none else some r.2
  else
    let r := aesGcmDecrypt out call.input call.aad call.tag call.key call.nonce
    if r.1 = 0 then none else some (r.2,call.tag)

/-- ChaCha20-Poly1305 decrypts what it has encrypted. -/
theorem chachaPoly_opens {key nonce aad text : List UInt8} (hk : key.length = 32)
    (hn : nonce.length = 12) (ha : aad.length < 2^32) (ht : text.length < 2^32) : ∃ out tag,
    chachaPolyEncrypt (List.replicate text.length 0) text aad key nonce = (out,tag) ∧
      out.length = text.length ∧ tag.length = 16 ∧
      chachaPolyDecrypt (List.replicate out.length 0) out aad tag key nonce = (1,text) := by
  have hlen : (rfcChaCha20 key nonce 1 text).length = text.length := rfcChaCha20_length _ _ _ _
  have hxor : chacha20Xor (List.replicate text.length 0) text key nonce 1 =
      rfcChaCha20 key nonce 1 text := by
    rw [chacha20Xor_eq hk hn 1 (by simp),List.drop_of_length_le (by simp),List.append_nil]
    rfl
  have htag : (rfcTag key nonce aad (rfcChaCha20 key nonce 1 text)).length = 16 := by
    rw [rfcTag,poly1305Tag,leBytes_length]
  refine ⟨_,_,rfl,?_,?_,?_⟩
  · rw [hxor,hlen]
  · rw [hxor,chachaPolyTag_eq hk hn ha (by omega),htag]
  · rw [hxor,chachaPolyTag_eq hk hn ha (by omega),
      chachaPolyDecrypt_eq hk hn htag ha (by omega) (by simp),if_pos rfl]
    exact congrArg (1,·) (rfcChaCha20_twice hk hn 1 text)

/-- AES-GCM decrypts what it has encrypted. -/
theorem aesGcm_opens {key nonce text : List UInt8} (aad : List UInt8)
    (hk : key.length = 16 ∨ key.length = 32) (hn : nonce.length = 12) : ∃ out tag,
    aesGcmEncrypt (List.replicate text.length 0) (List.replicate 16 0) text aad key nonce =
        (1,out,tag) ∧
      out.length = text.length ∧ tag.length = 16 ∧
      aesGcmDecrypt (List.replicate out.length 0) out aad tag key nonce = (1,text) := by
  refine ⟨_,_,aesGcmEncrypt_eq hk hn _ (by simp),gcmText_length _ _ _,gcmTagOver_length _,?_⟩
  rw [aesGcmDecrypt_eq hk hn (by simp) (gcmTagOver_length _),if_pos (by rw [gcmText_length])]
  exact congrArg (1,·) (gcmText_twice _ _ _)

theorem provAead_oneShot : OneShot provAead := by
  constructor
  intro call h henc
  have hnonce : call.nonce.length = 12 := h.nonce_length
  by_cases halg : call.alg = .chacha20Poly1305
  · have hkey : call.key.length = 32 := by
      rw [h.key_length,halg]
      rfl
    obtain ⟨out,tag,hseal,hout,htag,hopen⟩ :=
      chachaPoly_opens hkey hnonce h.aad_length h.input_length
    refine ⟨out,tag,?_,hout,htag,tag,?_⟩
    · rw [provAead]
      dsimp only
      rw [if_pos halg,if_pos henc,hseal]
    · rw [provAead]
      dsimp only
      rw [if_pos halg,if_neg Bool.false_ne_true,hopen]
      rfl
  · have hkey : call.key.length = 16 ∨ call.key.length = 32 := by
      rw [h.key_length]
      cases hcase : call.alg with
      | aes128Gcm => exact .inl rfl
      | aes256Gcm => exact .inr rfl
      | chacha20Poly1305 => exact absurd hcase halg
    obtain ⟨out,tag,hseal,hout,htag,hopen⟩ := aesGcm_opens call.aad hkey hnonce
    refine ⟨out,tag,?_,hout,htag,tag,?_⟩
    · rw [provAead]
      dsimp only
      rw [if_neg halg,if_pos henc,hseal]
      rfl
    · rw [provAead]
      dsimp only
      rw [if_neg halg,if_neg Bool.false_ne_true,hopen]
      rfl

/-- Over any correct one-shot cipher, a connection delivers the payload of every record, however
many there are, and each is decrypted under the nonce and the additional data of its encryption. -/
theorem tlsSession_delivers {cipher : AeadCall → Option (List UInt8 × List UInt8)}
    (hcipher : OneShot cipher) (keys : TlsKeys) (plains : List TlsPlain) :
    (aeadWorld cipher).wp (tlsSession keys plains)
      (fun r calls => r = some (plains.map (delivered keys.alg)) ∧ Paired calls) [] := by
  have hgot : ∀ x,(aeadWorld cipher).allowed [] ⟨.randBytes tlsExplicitIv,x⟩ → x ≠ none :=
    fun _ h => h
  apply (World.wp_bind _).mpr
  apply World.wp_mono _ (tlsSetup_wp (aeadWorld cipher) keys true fun _ => rfl)
  intro r calls hr
  obtain ⟨rfl,henc,hsome⟩ := hr
  cases r with
  | none => exact absurd rfl (hsome hgot)
  | some enc =>
    apply (World.wp_bind _).mpr
    apply World.wp_mono _ (tlsSetup_wp (aeadWorld cipher) keys false fun _ => rfl)
    intro r calls hr
    obtain ⟨rfl,hdec,hsome⟩ := hr
    cases r with
    | none => exact absurd rfl (hsome hgot)
    | some dec =>
      apply World.wp_mono _ (exchange_delivers hcipher keys (henc _ rfl) (hdec _ rfl) plains [])
      intro r calls hr
      obtain ⟨hr,tail,rfl,hpaired⟩ := hr
      exact ⟨hr,hpaired⟩

/-- Two records over the software cipher, one of them empty -/
theorem tlsSession_delivers_two :
    let keys : TlsKeys := ⟨.aes128Gcm,List.replicate 16 1,[1,2,3,4],rfl,rfl⟩
    let record (payload : List UInt8) (h : payload.length ≤ 2^14) : TlsPlain :=
      ⟨List.replicate 11 0,payload,List.replicate 8 0,List.replicate 16 0,rfl,h,rfl,rfl⟩
    (aeadWorld provAead).wp
      (tlsSession keys [record [5,6] (by decide),record [] (by decide)])
      (fun r calls => r = some [{outl := 2,offset := 8,data := [5,6]},{outl := 0,offset := 8}] ∧
        Paired calls) [] :=
  tlsSession_delivers provAead_oneShot _ _

/-- The environment of an ideal cipher: it decrypts only what it was made to encrypt, to the same
text under the same key, nonce and additional data. Its state is what it has encrypted. -/
def idealWorld : World AeadQuery AeadQuery.Answer where
  State := List (AeadCall × List UInt8 × List UInt8)
  allowed sealed e := match e with
    | ⟨.provAead call,some out⟩ =>
      if call.enc then out.1.length = call.input.length ∧ out.2.length = tlsTagLen
      else ({call with enc := true,input := out.1,tag := []},call.input,call.tag) ∈ sealed
    | _ => True
  next sealed e := match e with
    | ⟨.provAead call,some out⟩ => if call.enc then (call,out)::sealed else sealed
    | _ => sealed

/-- What can go over a connection: a record is sent, or whatever comes is received. -/
inductive RecordOp
  | encrypt (plain : TlsPlain)
  | decrypt (cipher : TlsCipher)

/-- What has come of it -/
inductive RecordEvent
  | sent (plain : TlsPlain) (record : List UInt8)
  | received (cipher : TlsCipher) (out : AeadOut)

/-- Records in any order through both ends, the latest event first -/
def traffic (enc dec : AeadCtx) (past : List RecordEvent) :
    List RecordOp → AeadProg (List RecordEvent)
  | [] => pure past
  | .encrypt plain::ops => do
    let sealed ← sealRecord enc plain
    match sealed.1 with
    | none => traffic sealed.2 dec past ops
    | some record => traffic sealed.2 dec (.sent plain record::past) ops
  | .decrypt cipher::ops => do
    let opened ← openRecord dec cipher
    match opened.1 with
    | none => traffic enc opened.2 past ops
    | some out => traffic enc opened.2 (.received cipher out::past) ops

def tlsTraffic (keys : TlsKeys) (ops : List RecordOp) : AeadProg (List RecordEvent) := do
  match ← tlsSetup keys true with
  | none => pure []
  | some enc =>
    match ← tlsSetup keys false with
    | none => pure []
    | some dec => traffic enc dec [] ops

/-- Whatever was received had been sent before, byte for byte and under the same header. -/
def Genuine (alg : AeadAlg) : List RecordEvent → Prop
  | [] => True
  | .sent _ _::past => Genuine alg past
  | .received cipher out::past => (∃ plain,.sent plain cipher.record ∈ past ∧
      plain.header = cipher.header ∧ out = delivered alg plain) ∧ Genuine alg past

/-- What the ideal cipher has encrypted is records that were sent. -/
def Accounted (keys : TlsKeys) (past : List RecordEvent)
    (sealed : List (AeadCall × List UInt8 × List UInt8)) : Prop :=
  ∀ e ∈ sealed,∃ plain explicit,explicit.length = explicitLen keys.alg ∧
    e.1 = recordCall keys.alg true keys.key keys.fixed explicit plain.header
      (beBytes 2 plain.payload.length) plain.payload [] ∧
    e.2.1.length = plain.payload.length ∧ .sent plain (explicit++e.2.1++e.2.2) ∈ past

theorem Accounted.mono {keys : TlsKeys} {past : List RecordEvent}
    {sealed : List (AeadCall × List UInt8 × List UInt8)} (h : Accounted keys past sealed)
    (event : RecordEvent) : Accounted keys (event::past) sealed := by
  intro e he
  obtain ⟨plain,explicit,hlen,hcall,htext,hsent⟩ := h e he
  exact ⟨plain,explicit,hlen,hcall,htext,List.mem_cons_of_mem _ hsent⟩

/-- A call that matches an encrypted one is for the same record. -/
theorem recordCall_inj {alg : AeadAlg} {key fixed explicit explicit' header header' field field'
    input input' : List UInt8} (hexplicit : explicit.length = explicitLen alg)
    (hexplicit' : explicit'.length = explicitLen alg) (hheader : header.length = header'.length)
    (h : recordCall alg true key fixed explicit header field input [] =
      recordCall alg true key fixed explicit' header' field' input' []) :
    explicit = explicit' ∧ header = header' ∧ input = input' := by
  have haad : header++field = header'++field' := congrArg AeadCall.aad h
  have hsame := (List.append_inj haad hheader).1
  refine ⟨?_,hsame,congrArg AeadCall.input h⟩
  by_cases halg : alg = .chacha20Poly1305
  · have hnone : explicitLen alg = 0 := if_pos halg
    rw [List.eq_nil_of_length_eq_zero (hexplicit.trans hnone),
      List.eq_nil_of_length_eq_zero (hexplicit'.trans hnone)]
  · have hnonce : recordNonce alg fixed explicit header = recordNonce alg fixed explicit' header' :=
      congrArg AeadCall.nonce h
    rw [recordNonce,recordNonce,if_neg halg,if_neg halg] at hnonce
    exact List.append_cancel_left hnonce

/-- No step receives what was not sent. -/
theorem traffic_genuine (keys : TlsKeys) {enc dec : AeadCtx}
    (henc : Ready keys.alg keys.key keys.fixed true enc)
    (hdec : Ready keys.alg keys.key keys.fixed false dec) {past : List RecordEvent}
    (hpast : Genuine keys.alg past) {sealed : List (AeadCall × List UInt8 × List UInt8)}
    (hsealed : Accounted keys past sealed) (ops : List RecordOp) :
    idealWorld.wp (traffic enc dec past ops) (fun past _ => Genuine keys.alg past) sealed := by
  induction ops generalizing enc dec past sealed with
  | nil => exact hpast
  | cons op ops ih =>
    cases op with
    | encrypt plain =>
      obtain ⟨explicit,enc',hexplicit,henc',hseal⟩ := henc.sealRecord plain
      rw [traffic,hseal]
      intro answer hanswer
      cases answer with
      | none => exact ih henc' hdec hpast hsealed
      | some out =>
        apply ih henc' hdec
        · exact hpast
        · intro e he
          obtain rfl | he := List.mem_cons.mp he
          · exact ⟨plain,explicit,hexplicit,rfl,hanswer.1,List.mem_cons_self⟩
          · exact hsealed.mono _ e he
    | decrypt cipher =>
      by_cases hshort : cipher.record.length < explicitLen keys.alg+tlsTagLen
      · obtain ⟨dec',hdec',hopen⟩ := hdec.openRecord_short cipher hshort
        rw [traffic,hopen]
        exact ih henc hdec' hpast hsealed
      · obtain ⟨lead,text,trail,hrecord,hlead,htrail⟩ :=
          record_parts keys.alg (Nat.not_lt.mp hshort)
        obtain ⟨dec',hdec',hopen⟩ := hdec.openRecord text cipher hrecord hlead htrail
        rw [traffic,hopen]
        intro answer hanswer
        cases answer with
        | none => exact ih henc hdec' hpast hsealed
        | some out =>
          obtain ⟨plain,explicit,hexplicit,hcall,htext,hsent⟩ := hsealed _ hanswer
          have hlength : text.length = plain.payload.length := htext
          obtain ⟨rfl,hheader,hinput⟩ := recordCall_inj hlead hexplicit
            (cipher.header_length.trans plain.header_length.symm) hcall
          apply ih henc hdec'
          · refine ⟨⟨plain,?_,hheader.symm,?_⟩,hpast⟩
            · rw [hrecord]
              exact hsent
            · rw [delivered,← hlength,← hinput]
          · exact hsealed.mono _

/-- Over an ideal cipher, whoever writes the records that come in: what a connection takes for a
record was sent as that record, under that sequence number, type and version, and it delivers
what was sent. -/
theorem tlsTraffic_genuine (keys : TlsKeys) (ops : List RecordOp) :
    idealWorld.wp (tlsTraffic keys ops) (fun past _ => Genuine keys.alg past) [] := by
  apply (World.wp_bind _).mpr
  apply World.wp_mono _ (tlsSetup_wp idealWorld keys true fun _ => rfl)
  intro r sealed hr
  obtain ⟨rfl,henc,_⟩ := hr
  cases r with
  | none => trivial
  | some enc =>
    apply (World.wp_bind _).mpr
    apply World.wp_mono _ (tlsSetup_wp idealWorld keys false fun _ => rfl)
    intro r sealed hr
    obtain ⟨rfl,hdec,_⟩ := hr
    cases r with
    | none => trivial
    | some dec =>
      have hpast : Genuine keys.alg [] := trivial
      have hsealed : Accounted keys [] [] := by simp [Accounted]
      exact traffic_genuine keys (henc _ rfl) (hdec _ rfl) hpast hsealed ops

end ZZ9K.Provider
