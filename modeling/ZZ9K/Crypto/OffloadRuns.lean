import Mathlib.Algebra.BigOperators.Group.Multiset.Basic
import Mathlib.Tactic.Abel
import ZZ9K.Crypto.Offload
import ZZ9K.Framework.Overflow

namespace ZZ9K.Crypto

open ZZ9K.Abi ZZ9K.Host ZZ9K.Framework

/-- The five operations with their arguments -/
inductive OffloadOp
  | x25519 (scalar point : List UInt8)
  | p256Derive (scalar peer : List UInt8)
  | p256Keygen (scalar : List UInt8)
  | aead (a : AeadArgs)
  | verify (algorithm : UInt32) (hash sig : List UInt8) (siglen : UInt32) (key : List UInt8)
      (keylen : UInt32)

/-- What an operation leaves of the context -/
def OffloadOp.run (o : OffloadCtx) : OffloadOp → Offload OffloadCtx
  | x25519 scalar point => Prod.fst <$> offloadX25519 o scalar point
  | p256Derive scalar peer => Prod.fst <$> offloadP256Derive o scalar peer
  | p256Keygen scalar => Prod.fst <$> offloadP256Keygen o scalar
  | aead a => Prod.fst <$> offloadAead o a
  | verify algorithm hash sig siglen key keylen =>
      Prod.fst <$> offloadVerify o algorithm hash sig siglen key keylen

def OffloadOp.runAll (o : OffloadCtx) : List OffloadOp → Offload OffloadCtx
  | [] => pure o
  | op::ops => do runAll (← op.run o) ops

/-- A context from `zz9k_offload_open`, where that succeeds, after a sequence of operations -/
def offloadSession (ops : List OffloadOp) : Offload (Option OffloadCtx) := do
  let some (o,_) ← offloadOpen | pure none
  some <$> OffloadOp.runAll o ops

/-- The allocations on the card that were made and not freed, and whether every `memcpy` so far
stayed in its buffer and every handle freed was that of such an allocation -/
structure Card where
  live : Multiset UInt32 := 0
  inside : Prop := True
  owned : Prop := True

def Card.next (c : Card) : Answered OffloadCall OffloadCall.Answer → Card
  | ⟨.allocShared _ _ _,some b⟩ => {c with live := b.handle ::ₘ c.live}
  | ⟨.freeShared handle,_⟩ =>
      {c with live := c.live.erase handle,owned := c.owned ∧ handle ∈ c.live}
  | ⟨.copyIn b offset count _,_⟩ | ⟨.copyOut b offset count,_⟩ =>
      {c with inside := c.inside ∧ offset.toNat+count.toNat ≤ b.length.toNat}
  | _ => c

/-- `zz9k_alloc_shared` can hand out this buffer, on some answers of the firmware. -/
def CanAllocate (length alignment flags : UInt32) (b : SharedBuffer) : Prop :=
  ∃ ctx log ctx',CallProg.Runs ctx (allocShared length alignment flags {}) log ctx' (.ok,b)

/-- The allocations give what `zz9k_alloc_shared` can hand out, with handles among the `granted`,
or nothing. Anything else may be answered. -/
def Granting (granted : UInt32 → Prop) : Answered OffloadCall OffloadCall.Answer → Prop
  | ⟨.allocShared length alignment flags,some b⟩ =>
      CanAllocate length alignment flags b ∧ granted b.handle
  | _ => True

abbrev card (granted : UInt32 → Prop) : World OffloadCall OffloadCall.Answer where
  State := Card
  allowed _ := Granting granted
  next := Card.next

/-- The slots in the order in which `zz9k_offload_close` looks at them -/
def slots : List Slot := [.key,.small,.nonce,.aad,.src,.dst]

/-- The allocation of a buffer, none where its handle is 0 -/
def allocation (b : SharedBuffer) : Multiset UInt32 := if b.handle = 0 then 0 else {b.handle}

/-- The allocations that the slots hold -/
def OffloadCtx.held (o : OffloadCtx) : Multiset UInt32 :=
  (slots.map fun s => allocation (o.buffers s)).sum

/-- The handles that a log frees -/
def freed (log : List (Answered OffloadCall OffloadCall.Answer)) : Multiset UInt32 :=
  log.filterMap fun
    | ⟨.freeShared handle,_⟩ => some handle
    | _ => none

/-- The slots of an open context and the card agree, and nothing went wrong so far. -/
structure Accounted (o : OffloadCtx) (c : Card) : Prop where
  inside : c.inside
  owned : c.owned
  live : c.live = o.held

/-- What is asked of a session once it has made these operations: the card and the slots agree, no
`memcpy` left its slot, and closing frees each of the allocations once. -/
def SessionSound (granted : UInt32 → Prop) (ops : List OffloadOp) : Prop :=
  ∀ o c,(card granted).Reaches (offloadSession ops) {} (some o) c →
    Accounted o c ∧ ∀ log,(offloadClose o).Runs log () → freed log = c.live

/-- A slot without a handle holds nothing. -/
def OffloadCtx.Plain (o : OffloadCtx) : Prop :=
  ∀ s,(o.buffers s).handle = 0 → (o.buffers s).length = 0

/-- No slot has become shorter. -/
def OffloadCtx.Grows (o o' : OffloadCtx) : Prop :=
  ∀ s,(o.buffers s).length ≤ (o'.buffers s).length

theorem set_buffers (o : OffloadCtx) (s t : Slot) (b : SharedBuffer) :
    (o.set s b).buffers t = if t = s then b else o.buffers t :=
  Function.update_apply ..

/-- What a slot holds can be exchanged in the account. -/
theorem held_set (o : OffloadCtx) (s : Slot) (b : SharedBuffer) :
    (o.set s b).held+allocation (o.buffers s) = o.held+allocation b := by
  cases s <;> simp [OffloadCtx.held,slots,set_buffers] <;> abel

theorem held_clear (o : OffloadCtx) (s : Slot) :
    (o.set s {}).held+allocation (o.buffers s) = o.held := by
  simpa [allocation] using held_set o s {}

theorem held_fill (o : OffloadCtx) (s : Slot) (b : SharedBuffer) :
    (o.set s b).held = (o.set s {}).held+allocation b := by
  have h := held_set o s b
  rw [← held_clear o s,add_right_comm] at h
  exact add_right_cancel h

theorem allocation_of_ne {b : SharedBuffer} (h : b.handle ≠ 0) : allocation b = {b.handle} :=
  if_neg h

theorem allocation_of_eq {b : SharedBuffer} (h : b.handle = 0) : allocation b = 0 := if_pos h

/-- The capacity asked for is no less than what is needed. -/
theorem le_capacity {need : UInt32} (h : ¬0xffffffff - (offloadAlign-1) < need) :
    need ≤ (need+offloadAlign-1) &&& ~~~(offloadAlign-1) := by
  have hneed : need.toNat ≤ 2^32-16 := by
    have hle := UInt32.le_iff_toNat_le.mp (UInt32.not_lt.mp h)
    exact hle
  have hadd : (need+offloadAlign-1).toNat = need.toNat+15 := by
    have hsum : need+offloadAlign-1 = need+15 := by
      simp only [offloadAlign]
      grind
    rw [hsum,UInt32.toNat_add]
    exact Nat.mod_eq_of_lt (show need.toNat+15 < 2^32 by omega)
  rw [UInt32.le_iff_toNat_le,and_not_toNat (k := 4) (by decide),hadd]
  omega

/-- The limit on what is mapped keeps every buffer far from the end of a word. -/
def OffloadCtx.Short (o : OffloadCtx) : Prop := ∀ s,(o.buffers s).length.toNat ≤ 0x101f0001

/-- A state of the session: what is accounted, slots without a handle are plain, and the buffers
are short. -/
structure Steady (o : OffloadCtx) (c : Card) : Prop extends Accounted o c where
  plain : o.Plain
  short : o.Short

section

variable {o : OffloadCtx} {c : Card} {s : Slot} {granted : UInt32 → Prop}

/-- Freeing the allocation of a slot, and emptying the slot, keeps the account. -/
theorem Accounted.free (h : Accounted o c) (hs : (o.buffers s).handle ≠ 0) (x : Unit) :
    Accounted (o.set s {}) (c.next ⟨.freeShared (o.buffers s).handle,x⟩) := by
  have hlive : c.live = (o.buffers s).handle ::ₘ (o.set s {}).held := by
    rw [h.live,← held_clear o s,allocation_of_ne hs,← Multiset.singleton_add,add_comm]
  constructor
  · exact h.inside
  · exact ⟨h.owned,hlive ▸ Multiset.mem_cons_self ..⟩
  · simp [Card.next,hlive]

/-- A buffer with a handle, put into an empty slot, keeps the account. -/
theorem Accounted.alloc (h : Accounted (o.set s {}) c) {b : SharedBuffer} (hb : b.handle ≠ 0)
    (length alignment flags : UInt32) :
    Accounted (o.set s b) (c.next ⟨.allocShared length alignment flags,some b⟩) := by
  constructor
  · exact h.inside
  · exact h.owned
  · have hfill := held_fill o s b
    rw [allocation_of_ne hb,← h.live,add_comm,Multiset.singleton_add] at hfill
    exact hfill.symm

theorem OffloadCtx.Plain.set (h : o.Plain) {b : SharedBuffer} (hb : b.handle = 0 → b.length = 0) :
    (o.set s b).Plain := by
  intro t
  rw [set_buffers]
  split
  · exact hb
  · exact h t

theorem OffloadCtx.Short.set (h : o.Short) {b : SharedBuffer} (hb : b.length.toNat ≤ 0x101f0001) :
    (o.set s b).Short := by
  intro t
  rw [set_buffers]
  split
  · exact hb
  · exact h t

/-- A slot without a handle is empty. -/
theorem Accounted.clear (h : Accounted o c) (hs : (o.buffers s).handle = 0) :
    Accounted (o.set s {}) c := by
  have hclear := held_clear o s
  rw [allocation_of_eq hs,add_zero] at hclear
  exact ⟨h.inside,h.owned,h.live.trans hclear.symm⟩

/-- A new buffer in an empty slot, no shorter than the one that was there -/
theorem offloadRenew_wp (h0 : ¬granted 0) (h : Steady o c) {s : Slot} {need cap : UInt32}
    (hneed : need ≤ cap) (hgrow : (o.buffers s).handle ≠ 0 → (o.buffers s).length ≤ cap) {c' : Card}
    (hc : Accounted (o.set s {}) c') :
    (card granted).wp (do
      let some b ← (OffloadCall.allocShared cap offloadAlign allocHostWindow).ask |
        pure (o.set s {},false)
      pure (o.set s b,true)) (fun r c => Steady r.1 c ∧
        (r.2 = true → need ≤ (r.1.buffers s).length ∧ o.Grows r.1)) c' := by
  intro b hb
  cases b with
  | none => exact ⟨⟨hc,h.plain.set fun _ => rfl,h.short.set (Nat.zero_le _)⟩,(by simp)⟩
  | some b =>
    obtain ⟨⟨ctx,log,ctx',hrun⟩,hb⟩ := hb
    have hne : b.handle ≠ 0 := fun hz => h0 (hz ▸ hb)
    obtain ⟨-,hlen,hmapped⟩ := allocShared_grants (by decide) hrun
    have hplain := h.plain.set (s := s) fun hz => absurd hz hne
    refine ⟨⟨hc.alloc hne cap offloadAlign allocHostWindow,hplain,h.short.set hmapped⟩,fun _ => ?_⟩
    refine ⟨?_,fun t => ?_⟩
    · simpa [set_buffers] using UInt32.le_trans hneed hlen
    · simp only [set_buffers]
      split
      · next ht =>
        subst ht
        by_cases hz : (o.buffers t).handle = 0
        · rw [h.plain t hz]
          exact UInt32.zero_le
        · exact UInt32.le_trans (hgrow hz) hlen
      · exact UInt32.le_refl _

/-- Whatever the card answers, `zz9k_offload_ensure` keeps the account; where it succeeds the slot
is long enough, and no slot has become shorter. -/
theorem offloadEnsure_wp (h0 : ¬granted 0) (h : Steady o c) (s : Slot) (need : UInt32) :
    (card granted).wp (offloadEnsure o s need) (fun r c => Steady r.1 c ∧
      (r.2 = true → need ≤ (r.1.buffers s).length ∧ o.Grows r.1)) c := by
  unfold offloadEnsure
  dsimp only
  have hpos : need ≤ if need = 0 then 1 else need := by
    split
    · next hz => exact hz ▸ by decide
    · exact UInt32.le_refl _
  generalize (if need = 0 then 1 else need) = room at hpos ⊢
  split
  · next hfits => exact ⟨h,fun _ => ⟨UInt32.le_trans hpos hfits.2,fun t => UInt32.le_refl _⟩⟩
  · next hshort =>
    split
    · exact ⟨h,(by simp)⟩
    · next hroom =>
      have hcap := le_capacity hroom
      generalize (room+offloadAlign-1) &&& ~~~(offloadAlign-1) = cap at hcap ⊢
      have hneed := UInt32.le_trans hpos hcap
      have hgrow : (o.buffers s).handle ≠ 0 → (o.buffers s).length ≤ cap := by
        intro hheld
        have hlt := UInt32.not_le.mp fun hle => hshort ⟨hheld,hle⟩
        exact UInt32.le_trans (UInt32.le_of_lt hlt) hcap
      -- the slot's old buffer is given back, or there was none
      split
      · next hheld =>
        intro x _
        exact offloadRenew_wp h0 h hneed hgrow (h.toAccounted.free hheld x)
      · next hheld =>
        exact offloadRenew_wp h0 h hneed hgrow (h.toAccounted.clear (not_not.mp hheld))

theorem ensureAll_wp (h0 : ¬granted 0) (h : Steady o c) (needs : List (Slot × UInt32)) :
    (card granted).wp (ensureAll o needs) (fun r c => Steady r.1 c ∧
      (r.2 = true → (∀ e ∈ needs,e.2 ≤ (r.1.buffers e.1).length) ∧ o.Grows r.1)) c := by
  induction needs generalizing o c with
  | nil => exact ⟨h,fun _ => ⟨nofun,fun _ => UInt32.le_refl _⟩⟩
  | cons e needs ih =>
    obtain ⟨s,need⟩ := e
    rw [ensureAll,World.wp_bind]
    refine World.wp_mono _ (offloadEnsure_wp h0 h s need) ?_
    rintro ⟨o₁,ensured⟩ c₁ ⟨h₁,hs⟩
    cases ensured with
    | false => exact ⟨h₁,nofun⟩
    | true =>
      obtain ⟨hneed,hgrows⟩ := hs rfl
      refine World.wp_mono _ (ih h₁) ?_
      intro r c₂ h₂
      refine ⟨h₂.1,fun hr => ?_⟩
      obtain ⟨hneeds,hgrows'⟩ := h₂.2 hr
      refine ⟨?_,fun t => UInt32.le_trans (hgrows t) (hgrows' t)⟩
      intro e he
      cases he with
      | head => exact UInt32.le_trans hneed (hgrows' s)
      | tail _ he => exact hneeds e he

/-- A call that allocates and frees nothing and, as a `memcpy`, stays in its buffer -/
def Within : OffloadCall → Prop
  | .allocShared _ _ _ | .freeShared _ => False
  | .copyIn b offset count _ | .copyOut b offset count =>
      offset.toNat+count.toNat ≤ b.length.toNat
  | _ => True

theorem within_next (h : Steady o c) {q : OffloadCall} (hq : Within q) (x : q.Answer) :
    Steady o (c.next ⟨q,x⟩) := by
  cases q with
  | allocShared length alignment flags => exact hq.elim
  | freeShared handle => exact hq.elim
  | copyIn b offset count source => exact ⟨⟨⟨h.inside,hq⟩,h.owned,h.live⟩,h.plain,h.short⟩
  | copyOut b offset count => exact ⟨⟨⟨h.inside,hq⟩,h.owned,h.live⟩,h.plain,h.short⟩
  | _ => exact h

/-- An operation whose work stays within the lengths it has made sure of keeps the account. -/
theorem operation_wp (h0 : ¬granted 0) {α : Type} {needs : List (Slot × UInt32)}
    {work : OffloadCtx → Offload (Option α)}
    (hwork : ∀ o : OffloadCtx,o.Short → (∀ e ∈ needs,e.2 ≤ (o.buffers e.1).length) →
      (work o).All Within)
    (h : Steady o c) :
    (card granted).wp (operation o needs work) (fun r c => Steady r.1 c) c := by
  unfold operation offloadAcquire
  split_ifs with hin
  · exact h
  · have htaken : Steady {o with inUse := true} c := ⟨⟨h.inside,h.owned,h.live⟩,h.plain,h.short⟩
    refine (World.wp_bind _).mpr (World.wp_mono _ (ensureAll_wp h0 htaken needs) ?_)
    rintro ⟨o₁,ensured⟩ c₁ ⟨h₁,hs⟩
    have hback : ∀ c,Steady o₁ c → Steady {o₁ with inUse := false} c :=
      fun c hc => ⟨⟨hc.inside,hc.owned,hc.live⟩,hc.plain,hc.short⟩
    cases ensured with
    | false => exact hback c₁ h₁
    | true =>
      have hkeep : (card granted).wp (work o₁) (fun _ c => Steady o₁ c) c₁ :=
        (card granted).wp_invariant (I := fun c : Card => Steady o₁ c)
          (fun c q x hq hc _ => within_next hc hq x) (hwork o₁ h₁.short (hs rfl).1) h₁
      exact (World.wp_bind _).mpr (World.wp_mono _ hkeep fun r c hc => hback c hc)

theorem run_all_within {α : Type} {status : α → Status} {call : Offload α} (h : call.All Within)
    (attempts : Nat) : (offloadRun status call attempts).All Within := by
  induction attempts with
  | zero => exact h
  | succ attempts ih =>
    refine Ask.all_bind h fun st => ?_
    split
    · exact ih
    · trivial

theorem copyIn_all_within {offset count : UInt32} {source : List UInt8}
    (h : offset.toNat+count.toNat ≤ (o.buffers s).length.toNat) :
    (copyIn o s offset source count).All Within :=
  ⟨h,fun _ => trivial⟩

theorem copyOut_all_within {offset count : UInt32}
    (h : offset.toNat+count.toNat ≤ (o.buffers s).length.toNat) :
    (copyOut o s offset count).All Within :=
  ⟨h,fun _ => trivial⟩

theorem exchange_all_within {count : UInt32} (h : count ≤ (o.buffers .dst).length)
    (desc : Option CryptoKxDesc) : (exchange o count desc).All Within := by
  cases desc with
  | none => trivial
  | some desc =>
    refine Ask.all_bind (run_all_within (by exact ⟨trivial,fun _ => trivial⟩) _) fun st => ?_
    split
    · refine Ask.all_bind (copyOut_all_within ?_) fun _ => trivial
      have hle := UInt32.le_iff_toNat_le.mp h
      simpa using hle
    · trivial

theorem offloadX25519_wp (h0 : ¬granted 0) (h : Steady o c) (scalar point : List UInt8) :
    (card granted).wp (offloadX25519 o scalar point) (fun r c => Steady r.1 c) c := by
  refine operation_wp h0 (fun o hshort hneeds => ?_) h
  simp only [List.forall_mem_cons,UInt32.le_iff_toNat_le] at hneeds
  obtain ⟨hkey,hsmall,hdst,-⟩ := hneeds
  refine Ask.all_bind (copyIn_all_within (by simpa using hkey)) fun _ => ?_
  refine Ask.all_bind (copyIn_all_within (by simpa using hsmall)) fun _ => ?_
  exact exchange_all_within (UInt32.le_iff_toNat_le.mpr hdst) _

theorem offloadP256Derive_wp (h0 : ¬granted 0) (h : Steady o c) (scalar peer : List UInt8) :
    (card granted).wp (offloadP256Derive o scalar peer) (fun r c => Steady r.1 c) c := by
  refine operation_wp h0 (fun o hshort hneeds => ?_) h
  simp only [List.forall_mem_cons,UInt32.le_iff_toNat_le] at hneeds
  obtain ⟨hkey,hsrc,hdst,-⟩ := hneeds
  refine Ask.all_bind (copyIn_all_within (by simpa using hkey)) fun _ => ?_
  refine Ask.all_bind (copyIn_all_within (by simpa using hsrc)) fun _ => ?_
  exact exchange_all_within (UInt32.le_iff_toNat_le.mpr hdst) _

theorem offloadP256Keygen_wp (h0 : ¬granted 0) (h : Steady o c) (scalar : List UInt8) :
    (card granted).wp (offloadP256Keygen o scalar) (fun r c => Steady r.1 c) c := by
  refine operation_wp h0 (fun o hshort hneeds => ?_) h
  simp only [List.forall_mem_cons,UInt32.le_iff_toNat_le] at hneeds
  obtain ⟨hkey,hdst,-⟩ := hneeds
  refine Ask.all_bind (copyIn_all_within (by simpa using hkey)) fun _ => ?_
  exact exchange_all_within (UInt32.le_iff_toNat_le.mpr hdst) _

/-- What the slots hold of the text and the tag of an operation -/
structure HoldsText (o : OffloadCtx) (a : AeadArgs) : Prop where
  key : a.keylen.toNat ≤ (o.buffers .key).length.toNat
  nonce : 12 ≤ (o.buffers .nonce).length.toNat
  aad : 0 < a.aadlen → a.aadlen.toNat ≤ (o.buffers .aad).length.toNat
  src : a.inlen.toNat+(if a.decrypt then 16 else 0) ≤ (o.buffers .src).length.toNat
  dst : a.inlen.toNat+(if a.decrypt then 0 else 16) ≤ (o.buffers .dst).length.toNat

theorem aeadLoad_all_within {a : AeadArgs} (h : HoldsText o a) : (aeadLoad o a).All Within := by
  obtain ⟨hkey,hnonce,haad,hsrc,-⟩ := h
  have htag : (if a.decrypt then copyIn o .src a.inlen a.tag 16 else pure ()).All Within := by
    split
    · next hd => exact copyIn_all_within (by simpa [hd] using hsrc)
    · trivial
  have hinput : (do
      copyIn o .src 0 a.input a.inlen
      if a.decrypt then copyIn o .src a.inlen a.tag 16).All Within :=
    Ask.all_bind (copyIn_all_within (by simpa using Nat.le_of_add_right_le hsrc)) fun _ => htag
  refine Ask.all_bind (copyIn_all_within (by simpa using hkey)) fun _ => ?_
  refine Ask.all_bind (copyIn_all_within (by simpa using hnonce)) fun _ => ?_
  dsimp only
  by_cases h0 : 0 < a.aadlen
  · rw [if_pos h0]
    exact Ask.all_bind (copyIn_all_within (by simpa using haad h0)) fun _ => hinput
  · rw [if_neg h0]
    exact hinput

theorem aeadRun_all_within {a : AeadArgs} (h : HoldsText o a) (desc : Option CryptoAeadDesc) :
    (aeadRun o a desc).All Within := by
  have hdst := h.dst
  cases desc with
  | none => trivial
  | some desc =>
    refine Ask.all_bind (run_all_within (by exact ⟨trivial,fun _ => trivial⟩) _) fun st => ?_
    split
    · refine Ask.all_bind (copyOut_all_within ?_) fun out => ?_
      · simpa using Nat.le_of_add_right_le hdst
      · split
        · trivial
        · next hd =>
          exact Ask.all_bind (copyOut_all_within (by simpa [hd] using hdst)) fun _ => trivial
    · trivial

/-- The two lengths of an operation are sums in 32 bits. One of them is the length of the text
itself, so where a buffer of that length was had, the other one has not wrapped. -/
theorem offloadAead_wp (h0 : ¬granted 0) (h : Steady o c) (a : AeadArgs) :
    (card granted).wp (offloadAead o a) (fun r c => Steady r.1 c) c := by
  unfold offloadAead
  dsimp only
  refine operation_wp h0 (fun o hshort hneeds => ?_) h
  simp only [List.forall_mem_append,List.forall_mem_cons,UInt32.le_iff_toNat_le] at hneeds
  obtain ⟨⟨hsrc,hdst,hkey,hnonce,-⟩,haad⟩ := hneeds
  have hroom : a.inlen.toNat+16 < 2^32 := by
    have hsrcShort := hshort .src
    have hdstShort := hshort .dst
    cases hd : a.decrypt with
    | true =>
      simp only [hd,if_true,UInt32.add_zero] at hdst
      omega
    | false =>
      simp only [hd,Bool.false_eq_true,if_false,UInt32.add_zero] at hsrc
      omega
  have hsum : ∀ tagged : Bool,(a.inlen + if tagged then 16 else 0).toNat =
      a.inlen.toNat+if tagged then 16 else 0 := by
    intro tagged
    cases tagged with
    | false => simp
    | true => exact (UInt32.toNat_add ..).trans (Nat.mod_eq_of_lt hroom)
  have hholds : HoldsText o a := by
    constructor
    · exact hkey
    · exact hnonce
    · intro h0
      exact haad (.aad,a.aadlen) (by simp [h0])
    · rwa [hsum] at hsrc
    · have hencrypt := hsum !a.decrypt
      simp only [Bool.not_eq_true',← Bool.not_eq_true,ite_not] at hencrypt
      rwa [hencrypt] at hdst
  exact Ask.all_bind (aeadLoad_all_within hholds) fun _ => aeadRun_all_within hholds _

theorem offloadVerify_wp (h0 : ¬granted 0) (h : Steady o c) (algorithm : UInt32)
    (hash sig : List UInt8) (siglen : UInt32) (key : List UInt8) (keylen : UInt32) :
    (card granted).wp (offloadVerify o algorithm hash sig siglen key keylen)
      (fun r c => Steady r.1 c) c := by
  refine operation_wp h0 (fun o hshort hneeds => ?_) h
  simp only [List.forall_mem_cons,UInt32.le_iff_toNat_le] at hneeds
  obtain ⟨hsmall,hsrc,hkey,-⟩ := hneeds
  refine Ask.all_bind (copyIn_all_within (by simpa using hsmall)) fun _ => ?_
  refine Ask.all_bind (copyIn_all_within (by simpa using hsrc)) fun _ => ?_
  refine Ask.all_bind (copyIn_all_within (by simpa using hkey)) fun _ => ?_
  split
  · refine Ask.all_bind (run_all_within (by exact ⟨trivial,fun _ => trivial⟩) _) fun st => ?_
    dsimp only
    split <;> trivial
  · trivial

/-- One operation keeps the account. -/
theorem run_wp (h0 : ¬granted 0) (h : Steady o c) (op : OffloadOp) :
    (card granted).wp (op.run o) (fun o c => Steady o c) c := by
  cases op with
  | x25519 scalar point => exact (World.wp_map _).mpr (offloadX25519_wp h0 h scalar point)
  | p256Derive scalar peer => exact (World.wp_map _).mpr (offloadP256Derive_wp h0 h scalar peer)
  | p256Keygen scalar => exact (World.wp_map _).mpr (offloadP256Keygen_wp h0 h scalar)
  | aead a => exact (World.wp_map _).mpr (offloadAead_wp h0 h a)
  | verify algorithm hash sig siglen key keylen =>
    exact (World.wp_map _).mpr (offloadVerify_wp h0 h algorithm hash sig siglen key keylen)

/-- And so does a sequence of them. -/
theorem runAll_wp (h0 : ¬granted 0) (h : Steady o c) (ops : List OffloadOp) :
    (card granted).wp (OffloadOp.runAll o ops) (fun o c => Steady o c) c := by
  induction ops generalizing o c with
  | nil => exact h
  | cons op ops ih =>
    refine (World.wp_bind _).mpr (World.wp_mono _ (run_wp h0 h op) ?_)
    intro o₁ c₁ h₁
    exact ih h₁

theorem offloadOpen_ensured (h0 : ¬granted 0) (hfresh : Steady {} ({} : Card)) (flags : UInt32) :
    (card granted).wp (do
      let (o,ensured) ← offloadEnsure {} .small 32
      if ensured then pure (some (o,flags))
      else do offloadClose o; pure none)
      (fun r c => ∀ o flags,r = some (o,flags) → Steady o c) {} := by
  have hensure := offloadEnsure_wp h0 hfresh .small 32
  refine (World.wp_bind _).mpr (World.wp_mono _ hensure ?_)
  rintro ⟨o,ensured⟩ c ⟨h,-⟩
  cases ensured with
  | false => exact (World.wp_bind _).mpr (World.wp_always _ (fun _ _ _ _ => by rintro ⟨⟩) _)
  | true =>
    rintro _ _ ⟨⟩
    exact h

theorem offloadOpen_wp (h0 : ¬granted 0) : (card granted).wp offloadOpen
    (fun r c => ∀ o flags,r = some (o,flags) → Steady o c) {} := by
  have hfresh : Steady {} ({} : Card) := by
    constructor
    · exact ⟨trivial,trivial,rfl⟩
    · exact fun _ _ => rfl
    · exact fun _ => Nat.zero_le _
  intro disabled _
  cases disabled with
  | true => rintro _ _ ⟨⟩
  | false =>
    intro opened _
    cases opened with
    | false => rintro _ _ ⟨⟩
    | true =>
      intro service _
      cases service with
      | none =>
        intro _ _
        rintro _ _ ⟨⟩
      | some flags =>
        intro allocated _
        cases allocated with
        | false =>
          intro _ _
          rintro _ _ ⟨⟩
        | true => exact offloadOpen_ensured h0 hfresh flags

theorem freed_append (log₁ log₂ : List (Answered OffloadCall OffloadCall.Answer)) :
    freed (log₁++log₂) = freed log₁+freed log₂ := by
  simp [freed,List.filterMap_append]

/-- The lines of `zz9k_offload_close` free what the slots hold. -/
theorem offloadFree_freed {ss : List Slot} {log : List (Answered OffloadCall OffloadCall.Answer)}
    (h : (offloadFree o ss).Runs log ()) :
    freed log = (ss.map fun s => allocation (o.buffers s)).sum := by
  induction ss generalizing log with
  | nil =>
    obtain ⟨rfl,-⟩ := Ask.runs_ret.mp h
    rfl
  | cons s ss ih =>
    rw [List.map_cons,List.sum_cons]
    rw [offloadFree] at h
    split at h
    · next hs =>
      obtain ⟨x,rest,rfl,hrest⟩ := Ask.runs_ask.mp h
      rw [← ih hrest,allocation_of_ne hs]
      rfl
    · next hs =>
      rw [← ih h,allocation_of_eq (not_not.mp hs),zero_add]

theorem offloadClose_freed {log : List (Answered OffloadCall OffloadCall.Answer)}
    (h : (offloadClose o).Runs log ()) : freed log = o.held := by
  obtain ⟨⟨⟩,log₁,log₂,h₁,h₂,rfl⟩ := Ask.runs_bind.mp h
  obtain ⟨x,rest,rfl,hend⟩ := Ask.runs_ask.mp h₂
  obtain ⟨rfl,-⟩ := Ask.runs_ret.mp hend
  rw [freed_append,offloadFree_freed h₁]
  exact add_zero _

/-- No slot has a handle. -/
def OffloadCtx.Bare (o : OffloadCtx) : Prop := o.inUse = false ∧ ∀ s,(o.buffers s).handle = 0

theorem OffloadCtx.Bare.held (h : o.Bare) : o.held = 0 := by
  simp [OffloadCtx.held,slots,allocation,h.2]

theorem offloadSession_wp (h0 : ¬granted 0) (ops : List OffloadOp) :
    (card granted).wp (offloadSession ops) (fun r c => ∀ o,r = some o → Steady o c) {} := by
  refine (World.wp_bind _).mpr (World.wp_mono _ (offloadOpen_wp h0) ?_)
  intro r c hr
  cases r with
  | none => exact fun _ => nofun
  | some r =>
    refine (World.wp_map _).mpr (World.wp_mono _ (runAll_wp h0 (hr r.1 r.2 rfl) ops) ?_)
    rintro o c ho _ ⟨⟩
    exact ho

/-- Where nothing is allocated, `zz9k_offload_ensure` fails on a bare context and leaves it so. -/
theorem offloadEnsure_bare (granted : UInt32 → Prop) (h : ∀ s,(o.buffers s).handle = 0) (s : Slot)
    (need : UInt32) (c : Card) : ∃ o',(∀ s,(o'.buffers s).handle = 0) ∧
      (card granted).Reaches (offloadEnsure o s need) c (o',false) c := by
  unfold offloadEnsure
  dsimp only
  generalize (if need = 0 then 1 else need) = room
  rw [if_neg fun hheld => hheld.1 (h s)]
  split
  · exact ⟨o,h,World.reaches_ret _ _ _⟩
  · rw [if_neg (not_not.mpr (h s))]
    refine ⟨o.set s {},?_,World.reaches_ask none trivial (World.reaches_ret _ _ _)⟩
    intro t
    rw [set_buffers]
    split
    · rfl
    · exact h t

theorem operation_bare {α : Type} (granted : UInt32 → Prop) (h : o.Bare) (s : Slot) (need : UInt32)
    (needs : List (Slot × UInt32)) (work : OffloadCtx → Offload (Option α)) (c : Card) :
    ∃ o',o'.Bare ∧
      (card granted).Reaches (Prod.fst <$> operation o ((s,need)::needs) work) c o' c := by
  have htaken : ∀ s,(({o with inUse := true} : OffloadCtx).buffers s).handle = 0 := h.2
  obtain ⟨o',ho',hreach⟩ := offloadEnsure_bare granted htaken s need c
  refine ⟨{o' with inUse := false},⟨rfl,ho'⟩,?_⟩
  unfold operation offloadAcquire
  rw [if_neg (by simp [h.1])]
  have hall : (card granted).Reaches (ensureAll {o with inUse := true} ((s,need)::needs)) c
      (o',false) c :=
    World.reaches_bind hreach (World.reaches_ret _ _ _)
  exact World.reaches_bind (World.reaches_bind hall (World.reaches_ret _ _ _))
    (World.reaches_ret _ _ _)

theorem run_bare (granted : UInt32 → Prop) (h : o.Bare) (op : OffloadOp) (c : Card) :
    ∃ o',o'.Bare ∧ (card granted).Reaches (op.run o) c o' c := by
  cases op with
  | x25519 scalar point => exact operation_bare granted h _ _ _ _ c
  | p256Derive scalar peer => exact operation_bare granted h _ _ _ _ c
  | p256Keygen scalar => exact operation_bare granted h _ _ _ _ c
  | aead a =>
    unfold OffloadOp.run offloadAead
    exact operation_bare granted h _ _ _ _ c
  | verify algorithm hash sig siglen key keylen => exact operation_bare granted h _ _ _ _ c

theorem runAll_bare (granted : UInt32 → Prop) (h : o.Bare) (ops : List OffloadOp) (c : Card) :
    ∃ o',o'.Bare ∧ (card granted).Reaches (OffloadOp.runAll o ops) c o' c := by
  induction ops generalizing o with
  | nil => exact ⟨o,h,World.reaches_ret _ _ _⟩
  | cons op ops ih =>
    obtain ⟨o₁,h₁,hrun⟩ := run_bare granted h op c
    obtain ⟨o₂,h₂,hrest⟩ := ih h₁
    exact ⟨o₂,h₂,World.reaches_bind hrun hrest⟩

/-- A firmware answer to an allocation of 32 bytes, with the handle 0 -/
def zeroBlock : MailboxEntry where
  opcode := opAllocShared
  payloadLen := 48
  payload := Payload.ofWords [0,0x00200000,32,0]

def zorro3Board : Context :=
  {board := {boardAddr := 0x40000000,boardSize := 0x10000000,zorroVersion := 3}}

/-- `zz9k_alloc_shared` takes the handle 0 for a valid one. -/
theorem canAllocate_zero :
    CanAllocate 32 16 allocHostWindow {handle := 0,data := 0x40010000,length := 32} := by
  have hgenuine := Exchange.Genuine.answered (requestInit opAllocShared [32,16,0]) zeroBlock rfl
  rw [Status.ofWord_eq_ok.mpr (show zeroBlock.status = 0 from rfl)] at hgenuine
  refine ⟨zorro3Board,[⟨requestInit opAllocShared [32,16,0],.ok,zeroBlock,true⟩],zorro3Board,?_⟩
  rw [allocShared,if_neg (by decide)]
  exact .look (.call hgenuine rfl (.look (.ret _ _)))

/-- Where the handle 0 is granted, opening can leave its allocation on the card with no slot that
holds it. -/
theorem offloadOpen_leaks (h0 : granted 0) : ∃ o,o.Bare ∧
    (card granted).Reaches offloadOpen {} (some (o,0)) {live := {0}} := by
  let b : SharedBuffer := {handle := 0,data := 0x40010000,length := 32}
  have hensure : (card granted).Reaches (offloadEnsure {} .small 32) {}
      (({} : OffloadCtx).set .small b,true) {live := {0}} :=
    World.reaches_ask (some b) ⟨canAllocate_zero,h0⟩ (World.reaches_ret _ _ _)
  refine ⟨({} : OffloadCtx).set .small b,⟨rfl,?_⟩,?_⟩
  · intro s
    rw [set_buffers]
    split <;> rfl
  · refine World.reaches_ask false trivial (World.reaches_ask true trivial
      (World.reaches_ask (some 0) trivial (World.reaches_ask true trivial ?_)))
    have hlast := World.reaches_bind (f := fun r : OffloadCtx × Bool =>
      if r.2 then pure (some (r.1,(0 : UInt32))) else do offloadClose r.1; pure none)
      hensure (World.reaches_ret _ _ _)
    exact hlast

theorem session_leaks (h0 : granted 0) (ops : List OffloadOp) : ¬SessionSound granted ops := by
  intro hsound
  obtain ⟨o,ho,hopen⟩ := offloadOpen_leaks h0
  obtain ⟨o',ho',hrun⟩ := runAll_bare granted ho ops {live := {0}}
  have hsession : (card granted).Reaches (offloadSession ops) {} (some o') {live := {0}} :=
    World.reaches_bind hopen (World.reaches_bind hrun (World.reaches_ret _ _ _))
  have hlive : {0} = o'.held := (hsound o' _ hsession).1.live
  rw [ho'.held] at hlive
  exact Multiset.singleton_ne_zero 0 hlive

/-- Whatever the operations, the scratch buffers are neither overrun nor leaked if and only if no
allocation is granted with the handle 0. -/
theorem offloadSession_sound (granted : UInt32 → Prop) (ops : List OffloadOp) :
    SessionSound granted ops ↔ ¬granted 0 := by
  constructor
  · exact fun hsound h0 => session_leaks h0 ops hsound
  · intro h0 o c h
    have hsteady := World.wp_reaches (offloadSession_wp h0 ops) h o rfl
    refine ⟨hsteady.toAccounted,fun log hlog => ?_⟩
    rw [offloadClose_freed hlog,hsteady.live]

end

/-- With the handle 0 among those that may be granted, one key generation is enough. -/
theorem offloadSession_not_sound :
    ¬SessionSound (fun _ => True) [.p256Keygen (List.replicate 32 1)] :=
  session_leaks trivial _

end ZZ9K.Crypto
