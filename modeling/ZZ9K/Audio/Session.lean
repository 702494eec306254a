import ZZ9K.Abi.Image
import ZZ9K.Audio.ControlLine
import ZZ9K.Audio.Grant
import ZZ9K.Math.Cyclic

namespace ZZ9K.Audio

open ZZ9K.Abi ZZ9K.Framework ZZ9K.Framework.Seqlock ZZ9K.Math

/-- `ZZ9KAudioRingSession`, zeroed by default; pointers are addresses. -/
structure AudioRingSession where
  grant : AudioRingAcquireResult := {}
  ring : UInt32 := 0
  producerLine : UInt32 := 0
  firmwareLine : UInt32 := 0
  writeCursor : UInt64 := 0
  consumedCursor : UInt64 := 0
  heartbeat : UInt32 := 0
  flags : UInt32 := 0
  mapped : Bool := false
  deriving DecidableEq

/-- `enum ZZ9KAudioRingCreditResult` -/
inductive AudioRingCredit
  | ok
  | retry
  | revoked
  deriving DecidableEq

/-- `ZZ9K_AUDIO_RING_STATUS_OK` -/
def audioRingStatusOk : UInt32 := 0

/-- A session, board memory, and the two control lines, which a valid grant keeps apart from the
ring. `accepted` is history: every byte accepted so far. -/
structure RingWorld where
  session : AudioRingSession
  board : Image
  producerLine : State 5 ProducerSnapshot
  firmwareLine : State 4 FirmwareSnapshot
  accepted : List UInt8 := []

/-- `zz9k_audio_ring_outstanding` -/
def audioRingOutstanding (session : AudioRingSession) : UInt32 :=
  (session.writeCursor-session.consumedCursor).toUInt32

/-- `zz9k_audio_ring_free_bytes` -/
def audioRingFreeBytes (session : AudioRingSession) : UInt32 :=
  session.grant.ringCapacity-audioRingOutstanding session

/-- `zz9k_audio_ring_distance_valid` -/
def audioRingDistanceValid (writeCursor consumedCursor : UInt64) (capacity : UInt32) : Bool :=
  consumedCursor ≤ writeCursor ∧ writeCursor-consumedCursor ≤ capacity.toUInt64

/-- One store to board memory, of a byte or of a longword that was loaded with `memcpy` -/
def storeBoard (a : Nat) (src : Image) (n : Nat) : Res RingWorld Unit :=
  Res.store fun w => {w with board := blit w.board a src n}

/-- The first loop of `zz9k_audio_ring_copy_to_board`: bytes up to an aligned address -/
def copyUnaligned (dst : Nat) (src : Image) : Nat → Nat → Res RingWorld Nat
  | 0,offset => .ret offset
  | left+1,offset =>
      if (dst+offset)%4 = 0 then .ret offset
      else storeBoard (dst+offset) (fun j => src (offset+j)) 1 >>= fun _ =>
        copyUnaligned dst src left (offset+1)

/-- The second loop: longwords -/
def copyLongwords (dst : Nat) (src : Image) : Nat → Nat → Res RingWorld Nat
  | left+4,offset =>
      storeBoard (dst+offset) (fun j => src (offset+j)) 4 >>= fun _ =>
      copyLongwords dst src left (offset+4)
  | _,offset => .ret offset

/-- The third loop: the bytes that are left -/
def copyBytes (dst : Nat) (src : Image) : Nat → Nat → Res RingWorld Unit
  | 0,_ => .ret ()
  | left+1,offset =>
      storeBoard (dst+offset) (fun j => src (offset+j)) 1 >>= fun _ =>
      copyBytes dst src left (offset+1)

/-- `zz9k_audio_ring_copy_to_board` -/
def audioRingCopyToBoard (dst : Nat) (src : Image) (length : Nat) : Res RingWorld Unit :=
  copyUnaligned dst src length 0 >>= fun offset =>
  copyLongwords dst src (length-offset) offset >>= fun offset =>
  copyBytes dst src (length-offset) offset

/-- How many bytes `zz9k_audio_ring_write` accepts: at most the credited free space. -/
def stagedLength (session : AudioRingSession) (length : UInt32) : UInt32 :=
  if audioRingFreeBytes session < length then audioRingFreeBytes session else length

/-- Where in the ring it starts -/
def stagedOffset (session : AudioRingSession) : UInt32 :=
  (session.writeCursor % session.grant.ringCapacity.toUInt64).toUInt32

/-- How many of `staged` bytes lie before the end of the ring -/
def stagedFirst (session : AudioRingSession) (staged : UInt32) : UInt32 :=
  let first := session.grant.ringCapacity-stagedOffset session
  if staged < first then staged else first

/-- `zz9k_audio_ring_write` -/
def audioRingWrite (pcm : Image) (length : UInt32) : Res RingWorld UInt32 :=
  Res.load (fun w => w.session) >>= fun session =>
  if session.mapped = false then .ret 0
  else
    let staged := stagedLength session length
    let first := stagedFirst session staged
    audioRingCopyToBoard (session.ring.toNat+(stagedOffset session).toNat) pcm first.toNat >>=
      fun _ =>
    audioRingCopyToBoard session.ring.toNat (fun j => pcm (first.toNat+j))
      (staged-first).toNat >>= fun _ =>
    Res.store (fun w => {w with
      session := {session with writeCursor := session.writeCursor+staged.toUInt64}
      accepted := w.accepted++(List.range staged.toNat).map pcm}) >>= fun _ =>
    .ret staged

/-- `zz9k_audio_ring_publish` -/
def audioRingPublish : Res RingWorld Unit :=
  Res.load (fun w => w.session) >>= fun session =>
  if session.mapped = false then .ret ()
  else
    let session := {session with heartbeat := session.heartbeat+1}
    Res.store (fun w => {w with session}) >>= fun _ =>
    (audioRingProducerPublish ⟨session.grant.generation,session.writeCursor,session.heartbeat,
      session.flags⟩).zoom (fun w => w.producerLine) fun x w => {w with producerLine := x}

/-- One round of `zz9k_audio_ring_take_credits`; `again` is what follows a torn snapshot. -/
def takeCreditsOnce (session : AudioRingSession) (again : Res RingWorld AudioRingCredit) :
    Res RingWorld AudioRingCredit :=
  audioRingFirmwareSnapshot.zoom (fun w => w.firmwareLine)
    (fun x w => {w with firmwareLine := x}) >>= fun (stable,snapshot) =>
  if stable then
    if snapshot.generation ≠ session.grant.generation ∨ snapshot.status ≠ audioRingStatusOk ∨
        audioRingDistanceValid session.writeCursor snapshot.consumedCursor
          session.grant.ringCapacity = false then .ret .revoked
    else
      Res.store (fun w => {w with
        session := {session with consumedCursor := snapshot.consumedCursor}}) >>= fun _ =>
      .ret .ok
  else again

/-- The loop of `zz9k_audio_ring_take_credits`, with the retries that are left -/
def takeCreditsLoop (session : AudioRingSession) : Nat → Res RingWorld AudioRingCredit
  | 0 => takeCreditsOnce session (.ret .retry)
  | retries+1 => takeCreditsOnce session (takeCreditsLoop session retries)

/-- `zz9k_audio_ring_take_credits` -/
def audioRingTakeCredits (retries : UInt32) : Res RingWorld AudioRingCredit :=
  Res.load (fun w => w.session) >>= fun session =>
  if session.mapped = false then .ret .revoked else takeCreditsLoop session retries.toNat

/-- One producer, and a peer that makes the firmware line report whatever it likes. -/
def ringProducerSystem : System Unit RingWorld where
  ops _ p := (∃ pcm length, p = audioRingWrite pcm length >>= fun _ => .ret ()) ∨
    p = audioRingPublish ∨ ∃ retries, p = audioRingTakeCredits retries >>= fun _ => .ret ()
  env s t := ∃ line, t = {s with firmwareLine := line}
  halts _ := False

/-- The cursors of a session agree with what was accepted. -/
structure Ledger (session : AudioRingSession) (accepted : List UInt8) : Prop where
  capacity : 0 < session.grant.ringCapacity.toNat
  written : session.writeCursor.toNat = accepted.length
  credit : session.consumedCursor.toNat ≤ session.writeCursor.toNat
  room : session.writeCursor.toNat ≤
    session.consumedCursor.toNat+session.grant.ringCapacity.toNat

/-- What has not been consumed is in the ring. -/
structure RingWorld.Sound (w : RingWorld) : Prop where
  ledger : Ledger w.session w.accepted
  pending : ∀ p, w.session.consumedCursor.toNat ≤ p → p < w.session.writeCursor.toNat →
    w.accepted[p]? = some (w.board (w.session.ring.toNat+p%w.session.grant.ringCapacity.toNat))

/-- Between operations the ring holds all it has room for. -/
def RingWorld.Settled (w : RingWorld) : Prop :=
  Keeps w.board w.session.ring.toNat w.session.grant.ringCapacity.toNat w.accepted.length
    w.accepted

/-- Runs in which fewer than 2^64 bytes are accepted -/
def ringDiscipline : Discipline Unit RingWorld where
  inv := RingWorld.Sound
  rest _ := RingWorld.Settled
  guar _ _ _ := True
  cond _ t := t.accepted.length < 2^64

section

variable {session : AudioRingSession} {accepted : List UInt8}

/-- The 32-bit distances are exact: neither is ever cut off or negative. -/
theorem audioRingFreeBytes_toNat (h : Ledger session accepted) :
    (audioRingOutstanding session).toNat =
      session.writeCursor.toNat-session.consumedCursor.toNat ∧
    (audioRingFreeBytes session).toNat+(audioRingOutstanding session).toNat =
      session.grant.ringCapacity.toNat := by
  have hcap := session.grant.ringCapacity.toNat_lt
  have hcredit := h.credit
  have hroom := h.room
  have hout : (audioRingOutstanding session).toNat =
      session.writeCursor.toNat-session.consumedCursor.toNat := by
    rw [audioRingOutstanding,UInt64.toNat_toUInt32,
      UInt64.toNat_sub_of_le _ _ (UInt64.le_iff_toNat_le.mpr hcredit)]
    exact Nat.mod_eq_of_lt (by omega)
  refine ⟨hout,?_⟩
  have hle : audioRingOutstanding session ≤ session.grant.ringCapacity := by
    rw [UInt32.le_iff_toNat_le,hout]
    omega
  rw [audioRingFreeBytes,UInt32.toNat_sub_of_le _ _ hle]
  exact Nat.sub_add_cancel (UInt32.le_iff_toNat_le.mp hle)

theorem audioRingDistanceValid_iff {writeCursor consumedCursor : UInt64} {capacity : UInt32} :
    audioRingDistanceValid writeCursor consumedCursor capacity = true ↔
      consumedCursor.toNat ≤ writeCursor.toNat ∧
        writeCursor.toNat ≤ consumedCursor.toNat+capacity.toNat := by
  simp only [audioRingDistanceValid,decide_eq_true_eq,UInt64.le_iff_toNat_le]
  constructor
  · rintro ⟨hle,hd⟩
    rw [UInt64.toNat_sub_of_le _ _ (UInt64.le_iff_toNat_le.mpr hle),UInt32.toNat_toUInt64] at hd
    omega
  · rintro ⟨hle,hd⟩
    rw [UInt64.toNat_sub_of_le _ _ (UInt64.le_iff_toNat_le.mpr hle),UInt32.toNat_toUInt64]
    omega

end

/-- The peer touches the firmware line only. -/
theorem ring_stable {P : RingWorld → Prop}
    (h : ∀ w line, P w → P {w with firmwareLine := line}) :
    Stable ringProducerSystem ringDiscipline () P := by
  intro s t _ _ _ hstep hP
  rcases hstep with ⟨line,rfl⟩ | ⟨j,hj,_⟩
  · exact h s line hP
  · exact absurd rfl hj

/-- In the middle of a write that stages `bytes`: the first `j` of them have been stored. -/
structure Staging (session : AudioRingSession) (accepted bytes : List UInt8) (j : Nat)
    (w : RingWorld) : Prop where
  same : w.session = session
  history : w.accepted = accepted
  ledger : Ledger session accepted
  kept : Keeps w.board session.ring.toNat session.grant.ringCapacity.toNat (accepted.length+j)
    (accepted++bytes)

namespace Staging

variable {session : AudioRingSession} {accepted bytes : List UInt8} {j : Nat} {w : RingWorld}

theorem stable : Stable ringProducerSystem ringDiscipline () (Staging session accepted bytes j) :=
  ring_stable fun _ _ h => ⟨h.same,h.history,h.ledger,h.kept⟩

/-- As long as the bytes fit the credited space, nothing unconsumed is overwritten. -/
theorem sound (h : Staging session accepted bytes j w)
    (hj : j ≤ (audioRingFreeBytes session).toNat) : w.Sound := by
  obtain ⟨hout,hfree⟩ := audioRingFreeBytes_toNat h.ledger
  have hwritten := h.ledger.written
  have hcredit := h.ledger.credit
  have hroom := h.ledger.room
  obtain ⟨rfl,rfl,hledger,hkept⟩ := h
  refine ⟨hledger,fun p hp hlt => ?_⟩
  have hkeep := hkept p (by omega) (by omega)
  rwa [List.getElem?_append_left (by omega)] at hkeep

/-- A store of the next bytes of a write that does not run over the end of the ring -/
theorem store {dst o k : Nat} {src : Image}
    (hdst : dst = session.ring.toNat+(accepted.length+j)%session.grant.ringCapacity.toNat)
    (hfit : (accepted.length+j)%session.grant.ringCapacity.toNat+o+k ≤
      session.grant.ringCapacity.toNat)
    (hfree : j+o+k ≤ (audioRingFreeBytes session).toNat)
    (hsrc : ∀ i, i < o+k → bytes[j+i]? = some (src i)) :
    Sat ringProducerSystem ringDiscipline () (storeBoard (dst+o) (fun i => src (o+i)) k)
      (Staging session accepted bytes (j+o)) fun _ => Staging session accepted bytes (j+o+k) := by
  apply Sat.store _ stable
  intro w _ h _
  have hcap := h.ledger.capacity
  suffices hnext : Staging session accepted bytes (j+o+k)
      {w with board := blit w.board (dst+o) (fun i => src (o+i)) k} by
    exact ⟨hnext.sound hfree,trivial,hnext⟩
  refine ⟨h.same,h.history,h.ledger,?_⟩
  by_cases hk : k = 0
  · subst hk
    rw [blit_zero]
    exact h.kept
  have hmod : (accepted.length+(j+o))%session.grant.ringCapacity.toNat =
      (accepted.length+j)%session.grant.ringCapacity.toNat+o := by
    rw [← Nat.add_assoc,Nat.add_mod,Nat.mod_eq_of_lt (a := o) (by omega)]
    exact Nat.mod_eq_of_lt (by omega)
  have hblit := @Keeps.blit _ _ _ _ _ _ h.kept (fun i => src (o+i)) k (by omega) fun i hi => by
    have hs := hsrc (o+i) (by omega)
    rw [List.getElem?_append_right (by omega)]
    have hindex : accepted.length+(j+o)+i-accepted.length = j+(o+i) := by omega
    rw [hindex,hs]
  rw [hmod,← Nat.add_assoc,← hdst] at hblit
  have hend : accepted.length+(j+o+k) = accepted.length+(j+o)+k := by omega
  rw [hend]
  exact hblit

end Staging

section

variable {session : AudioRingSession} {accepted bytes : List UInt8} {dst j n : Nat} {src : Image}
  (hdst : dst = session.ring.toNat+(accepted.length+j)%session.grant.ringCapacity.toNat)
  (hfit : (accepted.length+j)%session.grant.ringCapacity.toNat+n ≤
    session.grant.ringCapacity.toNat)
  (hfree : j+n ≤ (audioRingFreeBytes session).toNat)
  (hsrc : ∀ i, i < n → bytes[j+i]? = some (src i))
include hdst hfit hfree hsrc

theorem copyUnaligned_sat (left offset : Nat) (hn : offset+left = n) :
    Sat ringProducerSystem ringDiscipline () (copyUnaligned dst src left offset)
      (Staging session accepted bytes (j+offset))
      fun o w => o ≤ n ∧ Staging session accepted bytes (j+o) w := by
  induction left generalizing offset with
  | zero =>
    intro w _ h
    exact ⟨by omega,h⟩
  | succ left ih =>
    rw [copyUnaligned]
    apply Sat.ite
    · intro _ w _ h
      exact ⟨by omega,h⟩
    · intro _
      have hstore := Staging.store (o := offset) (k := 1) hdst (by omega) (by omega)
        fun i hi => hsrc i (by omega)
      exact hstore.bind fun _ => ih (offset+1) (by omega)

theorem copyLongwords_sat (left offset : Nat) (hn : offset+left = n) :
    Sat ringProducerSystem ringDiscipline () (copyLongwords dst src left offset)
      (Staging session accepted bytes (j+offset))
      fun o w => o ≤ n ∧ Staging session accepted bytes (j+o) w := by
  induction left, offset using copyLongwords.induct with
  | case1 left offset ih =>
    rw [copyLongwords]
    have hstore := Staging.store (o := offset) (k := 4) hdst (by omega) (by omega)
      fun i hi => hsrc i (by omega)
    exact hstore.bind fun _ => ih (by omega)
  | case2 left offset hleft =>
    rw [copyLongwords]
    · intro w _ h
      exact ⟨by omega,h⟩
    · exact hleft

theorem copyBytes_sat (left offset : Nat) (hn : offset+left = n) :
    Sat ringProducerSystem ringDiscipline () (copyBytes dst src left offset)
      (Staging session accepted bytes (j+offset)) fun _ => Staging session accepted bytes (j+n) := by
  induction left generalizing offset with
  | zero =>
    intro w _ h
    rwa [← hn]
  | succ left ih =>
    have hstore := Staging.store (o := offset) (k := 1) hdst (by omega) (by omega)
      fun i hi => hsrc i (by omega)
    exact hstore.bind fun _ => ih (offset+1) (by omega)

/-- Copying stages the bytes, however the addresses are aligned. -/
theorem audioRingCopyToBoard_sat :
    Sat ringProducerSystem ringDiscipline () (audioRingCopyToBoard dst src n)
      (Staging session accepted bytes j) fun _ => Staging session accepted bytes (j+n) := by
  have hrest (o : Nat) (ho : o ≤ n) :
      Sat ringProducerSystem ringDiscipline ()
        (copyLongwords dst src (n-o) o >>= fun o => copyBytes dst src (n-o) o)
        (Staging session accepted bytes (j+o)) fun _ => Staging session accepted bytes (j+n) := by
    apply (copyLongwords_sat hdst hfit hfree hsrc (n-o) o (by omega)).bind
    intro o'
    apply Sat.assume
    intro ho'
    exact copyBytes_sat hdst hfit hfree hsrc (n-o') o' (by omega)
  apply (copyUnaligned_sat hdst hfit hfree hsrc n 0 (by omega)).bind
  intro o
  apply Sat.assume
  exact hrest o

end

section

variable {session : AudioRingSession} {accepted : List UInt8} (h : Ledger session accepted)
include h

theorem stagedOffset_toNat : (stagedOffset session).toNat =
    accepted.length % session.grant.ringCapacity.toNat := by
  have hcap := session.grant.ringCapacity.toNat_lt
  have hmod := Nat.mod_lt accepted.length h.capacity
  rw [stagedOffset,UInt64.toNat_toUInt32,UInt64.toNat_mod,UInt32.toNat_toUInt64,h.written]
  exact Nat.mod_eq_of_lt (by omega)

/-- The first part ends at the end of the ring or before, the second starts over. -/
theorem stagedFirst_toNat (staged : UInt32) : (stagedFirst session staged).toNat =
    min staged.toNat
      (session.grant.ringCapacity.toNat-accepted.length % session.grant.ringCapacity.toNat) := by
  have hmod := Nat.mod_lt accepted.length h.capacity
  have hoffset := stagedOffset_toNat h
  have hrest : (session.grant.ringCapacity-stagedOffset session).toNat =
      session.grant.ringCapacity.toNat-(stagedOffset session).toNat :=
    UInt32.toNat_sub_of_le _ _ (UInt32.le_iff_toNat_le.mpr (by omega))
  rw [← hoffset,← hrest]
  unfold stagedFirst
  dsimp only
  split_ifs with hlt
  · exact (min_eq_left (UInt32.lt_iff_toNat_lt.mp hlt).le).symm
  · exact (min_eq_right (UInt32.le_iff_toNat_le.mp (UInt32.not_lt.mp hlt))).symm

/-- After a first part that ran up to the end of the ring, the next byte goes to its start. -/
theorem staged_wraps {n : Nat}
    (hn : n = session.grant.ringCapacity.toNat-accepted.length % session.grant.ringCapacity.toNat) :
    (accepted.length+n) % session.grant.ringCapacity.toNat = 0 := by
  have hmod := Nat.mod_lt accepted.length h.capacity
  have hdiv := Nat.div_add_mod accepted.length session.grant.ringCapacity.toNat
  have heq : accepted.length+n = session.grant.ringCapacity.toNat*
      (accepted.length/session.grant.ringCapacity.toNat+1) := by
    rw [Nat.mul_add,Nat.mul_one]
    omega
  rw [heq,Nat.mul_mod_right]

end

theorem stagedLength_le (session : AudioRingSession) (length : UInt32) :
    (stagedLength session length).toNat ≤ (audioRingFreeBytes session).toNat := by
  unfold stagedLength
  split_ifs with hlt
  · exact le_rfl
  · exact UInt32.le_iff_toNat_le.mp (UInt32.not_lt.mp hlt)

theorem settled_stable : Stable ringProducerSystem ringDiscipline () RingWorld.Settled :=
  ring_stable fun _ _ h => h

section

variable {session : AudioRingSession} {accepted : List UInt8}

/-- Nothing has been staged yet. -/
theorem Staging.start {w : RingWorld} (hw : w.Sound) (hs : w.Settled) :
    Staging w.session w.accepted [] 0 w := by
  refine ⟨rfl,rfl,hw.ledger,?_⟩
  rw [List.append_nil]
  exact hs

theorem Staging.settled {w : RingWorld} (h : Staging session accepted [] 0 w) : w.Settled := by
  have hkept := h.kept
  rw [List.append_nil,← h.same,← h.history] at hkept
  exact hkept

theorem Staging.more {w : RingWorld} (h : Staging session accepted [] 0 w) (bytes : List UInt8) :
    Staging session accepted bytes 0 w := by
  have hkept := h.kept
  rw [List.append_nil] at hkept
  exact ⟨h.same,h.history,h.ledger,hkept.append bytes⟩

/-- The two copies stage all bytes. -/
theorem stage_sat (h : Ledger session accepted) (pcm : Image) {staged : UInt32}
    (hle : staged.toNat ≤ (audioRingFreeBytes session).toNat) :
    let first := stagedFirst session staged
    let bytes := (List.range staged.toNat).map pcm
    Sat ringProducerSystem ringDiscipline ()
      (audioRingCopyToBoard (session.ring.toNat+(stagedOffset session).toNat) pcm first.toNat)
      (Staging session accepted bytes 0) (fun _ => Staging session accepted bytes first.toNat) ∧
    Sat ringProducerSystem ringDiscipline ()
      (audioRingCopyToBoard session.ring.toNat (fun j => pcm (first.toNat+j))
        (staged-first).toNat)
      (Staging session accepted bytes first.toNat)
      fun _ => Staging session accepted bytes staged.toNat := by
  intro first bytes
  have hoffset := stagedOffset_toNat h
  have hfirst : first.toNat = _ := stagedFirst_toNat h staged
  have hmod := Nat.mod_lt accepted.length h.capacity
  have hfree := (audioRingFreeBytes_toNat h).2
  have hsecond : (staged-first).toNat = staged.toNat-first.toNat :=
    UInt32.toNat_sub_of_le _ _ (UInt32.le_iff_toNat_le.mpr (by omega))
  have hbyte (k : Nat) (hk : k < staged.toNat) : bytes[k]? = some (pcm k) := by
    simp [bytes,hk]
  constructor
  · have hcopy : Sat ringProducerSystem ringDiscipline ()
        (audioRingCopyToBoard (session.ring.toNat+(stagedOffset session).toNat) pcm first.toNat)
        (Staging session accepted bytes 0)
        fun _ => Staging session accepted bytes (0+first.toNat) := by
      apply audioRingCopyToBoard_sat (by rw [hoffset,Nat.add_zero]) (by rw [Nat.add_zero]; omega)
      · omega
      · intro k hk
        rw [Nat.zero_add]
        exact hbyte k (by omega)
    rwa [Nat.zero_add] at hcopy
  · have hsum : first.toNat+(staged-first).toNat = staged.toNat := by omega
    by_cases hwrap : staged.toNat ≤ session.grant.ringCapacity.toNat-
        accepted.length % session.grant.ringCapacity.toNat
    · have hnone : (staged-first).toNat = 0 := by omega
      have hall : first.toNat = staged.toNat := by omega
      rw [hnone,hall]
      exact fun _ _ h => h
    · have hzero := staged_wraps h (n := first.toNat) (by omega)
      rw [← hsum]
      exact audioRingCopyToBoard_sat (by rw [hzero,Nat.add_zero]) (by omega) (by omega)
        fun k hk => hbyte _ (by omega)

/-- The cursor moves over staged bytes. -/
theorem commit_sat (h : Ledger session accepted) (pcm : Image) {staged : UInt32}
    (hle : staged.toNat ≤ (audioRingFreeBytes session).toNat) :
    Sat ringProducerSystem ringDiscipline () (Res.store fun w : RingWorld => {w with
        session := {session with writeCursor := session.writeCursor+staged.toUInt64}
        accepted := w.accepted++(List.range staged.toNat).map pcm})
      (Staging session accepted ((List.range staged.toNat).map pcm) staged.toNat)
      fun _ => RingWorld.Settled := by
  apply Sat.store _ settled_stable
  intro w _ hw hfew
  have hcap := h.capacity
  have hroom := h.room
  have hcredit := h.credit
  have hwritten := h.written
  have hfree := audioRingFreeBytes_toNat h
  have hlength : ((List.range staged.toNat).map pcm).length = staged.toNat := by simp
  change (w.accepted++(List.range staged.toNat).map pcm).length < 2^64 at hfew
  rw [hw.history,List.length_append,hlength] at hfew
  have hcursor : (session.writeCursor+staged.toUInt64).toNat = accepted.length+staged.toNat := by
    rw [UInt64.toNat_add,UInt32.toNat_toUInt64,hwritten]
    exact Nat.mod_eq_of_lt hfew
  have hsettled : RingWorld.Settled {w with
      session := {session with writeCursor := session.writeCursor+staged.toUInt64}
      accepted := w.accepted++(List.range staged.toNat).map pcm} := by
    simp only [RingWorld.Settled,hw.history,List.length_append,hlength]
    exact hw.kept
  have hledger : Ledger {session with writeCursor := session.writeCursor+staged.toUInt64}
      (accepted++(List.range staged.toNat).map pcm) := by
    refine ⟨hcap,?_,?_,?_⟩
    · rw [List.length_append,hlength]
      exact hcursor
    · change session.consumedCursor.toNat ≤ (session.writeCursor+staged.toUInt64).toNat
      omega
    · change (session.writeCursor+staged.toUInt64).toNat ≤
        session.consumedCursor.toNat+session.grant.ringCapacity.toNat
      omega
  refine ⟨⟨?_,fun p hp hlt => ?_⟩,trivial,hsettled⟩
  · rw [hw.history]
    exact hledger
  · change session.consumedCursor.toNat ≤ p at hp
    change p < (session.writeCursor+staged.toUInt64).toNat at hlt
    apply hsettled p
    · simp only [hw.history,List.length_append,hlength]
      omega
    · simp only [hw.history,List.length_append,hlength]
      omega

end

/-- Bytes are staged in the ring first, and then the cursor moves over them. -/
theorem audioRingWrite_sat (pcm : Image) (length : UInt32) :
    Sat ringProducerSystem ringDiscipline () (audioRingWrite pcm length) RingWorld.Settled
      fun _ => RingWorld.Settled := by
  have hload : Sat ringProducerSystem ringDiscipline () (Res.load fun w => w.session)
      RingWorld.Settled fun session w => ∃ accepted, Ledger session accepted ∧
        Staging session accepted [] 0 w := by
    apply Sat.load
    · intro w hw h
      exact ⟨trivial,w.accepted,hw.ledger,Staging.start hw h⟩
    · intro session
      apply ring_stable
      rintro w line ⟨accepted,hledger,h⟩
      exact ⟨accepted,hledger,h.same,h.history,h.ledger,h.kept⟩
  apply hload.bind
  intro session
  apply Sat.exists
  intro accepted
  apply Sat.assume
  intro hledger
  apply Sat.ite
  · intro _ w _ h
    exact h.settled
  intro _
  have hle := stagedLength_le session length
  obtain ⟨hhead,htail⟩ := stage_sat hledger pcm hle
  apply (hhead.pre fun w _ h => h.more _).bind
  intro _
  apply htail.bind
  intro _
  apply (commit_sat hledger pcm hle).bind
  exact fun _ w _ h => h

/-- What does not depend on the producer line survives a publication. -/
theorem audioRingPublish_sat : Sat ringProducerSystem ringDiscipline () audioRingPublish
    RingWorld.Settled fun _ => RingWorld.Settled := by
  have hload : Sat ringProducerSystem ringDiscipline () (Res.load fun w => w.session)
      RingWorld.Settled fun session w => w.session = session ∧ w.Settled := by
    apply Sat.load
    · intro w _ h
      exact ⟨trivial,rfl,h⟩
    · intro session
      exact ring_stable fun _ _ h => h
  apply hload.bind
  intro session
  apply Sat.ite
  · intro _ w _ h
    exact h.2
  intro _
  have hstore : Sat ringProducerSystem ringDiscipline () (Res.store fun w : RingWorld =>
      {w with session := {session with heartbeat := session.heartbeat+1}})
      (fun w => w.session = session ∧ w.Settled) fun _ => RingWorld.Settled := by
    apply Sat.store _ settled_stable
    rintro w hw ⟨rfl,h⟩ _
    exact ⟨⟨⟨hw.ledger.capacity,hw.ledger.written,hw.ledger.credit,hw.ledger.room⟩,hw.pending⟩,
      trivial,h⟩
  apply hstore.bind
  intro _
  apply Sat.zoom
  · exact fun _ w hw => ⟨hw.ledger,hw.pending⟩
  · exact fun _ _ => trivial
  · exact settled_stable
  · exact fun _ _ h => h

/-- Whatever cursor is adopted, backward or forward, the ring holds everything from it on. -/
theorem takeCreditsOnce_sat (session : AudioRingSession) {again : Res RingWorld AudioRingCredit}
    (hagain : Sat ringProducerSystem ringDiscipline () again
      (fun w => w.session = session ∧ w.Settled) fun _ => RingWorld.Settled) :
    Sat ringProducerSystem ringDiscipline () (takeCreditsOnce session again)
      (fun w => w.session = session ∧ w.Settled) fun _ => RingWorld.Settled := by
  have hsnapshot : Sat ringProducerSystem ringDiscipline ()
      (audioRingFirmwareSnapshot.zoom (fun w : RingWorld => w.firmwareLine)
        fun x w => {w with firmwareLine := x})
      (fun w => w.session = session ∧ w.Settled)
      fun _ w => w.session = session ∧ w.Settled := by
    apply Sat.zoom
    · exact fun _ w hw => ⟨hw.ledger,hw.pending⟩
    · exact fun _ _ => trivial
    · exact ring_stable fun _ _ h => h
    · exact fun _ _ h => h
  apply hsnapshot.bind
  rintro ⟨stable,snapshot⟩
  dsimp only
  apply Sat.ite
  swap
  · exact fun _ => hagain
  intro _
  apply Sat.ite
  · intro _ w _ h
    exact h.2
  intro hgood
  have hstore : Sat ringProducerSystem ringDiscipline () (Res.store fun w : RingWorld =>
      {w with session := {session with consumedCursor := snapshot.consumedCursor}})
      (fun w => w.session = session ∧ w.Settled) fun _ => RingWorld.Settled := by
    apply Sat.store _ settled_stable
    rintro w hw ⟨rfl,h⟩ _
    simp only [not_or,Bool.not_eq_false] at hgood
    obtain ⟨hle,hroom⟩ := audioRingDistanceValid_iff.mp hgood.2.2
    have hwritten := hw.ledger.written
    refine ⟨⟨⟨hw.ledger.capacity,hwritten,hle,hroom⟩,fun p hp hlt => ?_⟩,trivial,h⟩
    change snapshot.consumedCursor.toNat ≤ p at hp
    change p < w.session.writeCursor.toNat at hlt
    exact h p (by omega) (by omega)
  apply hstore.bind
  exact fun _ w _ h => h

theorem takeCreditsLoop_sat (session : AudioRingSession) (retries : Nat) :
    Sat ringProducerSystem ringDiscipline () (takeCreditsLoop session retries)
      (fun w => w.session = session ∧ w.Settled) fun _ => RingWorld.Settled := by
  induction retries with
  | zero => exact takeCreditsOnce_sat session fun _ _ h => h.2
  | succ retries ih => exact takeCreditsOnce_sat session ih

theorem audioRingTakeCredits_sat (retries : UInt32) : Sat ringProducerSystem ringDiscipline ()
    (audioRingTakeCredits retries) RingWorld.Settled fun _ => RingWorld.Settled := by
  have hload : Sat ringProducerSystem ringDiscipline () (Res.load fun w => w.session)
      RingWorld.Settled fun session w => w.session = session ∧ w.Settled := by
    apply Sat.load
    · intro w _ h
      exact ⟨trivial,rfl,h⟩
    · intro session
      exact ring_stable fun _ _ h => h
  apply hload.bind
  intro session
  apply Sat.ite
  · intro _ w _ h
    exact h.2
  · intro _
    exact takeCreditsLoop_sat session retries.toNat

theorem ringProducerSystem_sound : Sound ringProducerSystem ringDiscipline := by
  refine ⟨?_,fun _ => settled_stable,fun _ _ h => h.elim,?_⟩
  · rintro _ p (⟨pcm,length,rfl⟩ | rfl | ⟨retries,rfl⟩)
    · exact (audioRingWrite_sat pcm length).bind fun _ _ _ h => h
    · exact audioRingPublish_sat
    · exact (audioRingTakeCredits_sat retries).bind fun _ _ _ h => h
  · rintro s t hs ⟨line,rfl⟩ _
    exact ⟨hs.ledger,hs.pending⟩

/-- A session at its start -/
structure RingWorld.Fresh (w : RingWorld) : Prop where
  capacity : w.session.grant.ringCapacity ≠ 0
  write : w.session.writeCursor = 0
  consumed : w.session.consumedCursor = 0
  accepted : w.accepted = []

/-- PCM in the ring is never lost, reordered or overwritten before it is consumed, whatever the
firmware line reports, also in the middle of a write; between operations the ring holds the last
bytes accepted, as many as it has room for. -/
theorem ring_keeps_pcm (w : RingWorld) (c : Config Unit RingWorld) (hw : w.Fresh)
    (hc : Reach ringProducerSystem (fun _ t => t.accepted.length < 2^64) ⟨fun _ => .ret (),w⟩ c) :
    let session := c.state.session
    let capacity := session.grant.ringCapacity.toNat
    session.writeCursor.toNat = c.state.accepted.length ∧
    session.consumedCursor ≤ session.writeCursor ∧
    session.writeCursor.toNat-session.consumedCursor.toNat ≤ capacity ∧
    (audioRingFreeBytes session).toNat =
      capacity-(session.writeCursor.toNat-session.consumedCursor.toNat) ∧
    (∀ p, session.consumedCursor.toNat ≤ p → p < session.writeCursor.toNat →
      c.state.accepted[p]? = some (c.state.board (session.ring.toNat+p%capacity))) ∧
    (c.prog () = .ret () → ∀ p,
      session.writeCursor.toNat-min session.writeCursor.toNat capacity ≤ p →
      p < session.writeCursor.toNat →
      c.state.accepted[p]? = some (c.state.board (session.ring.toNat+p%capacity))) := by
  have hstart : w.Sound ∧ w.Settled := by
    have hpos : 0 < w.session.grant.ringCapacity.toNat := by
      rw [Nat.pos_iff_ne_zero]
      exact fun h0 => hw.capacity (UInt32.toNat_inj.mp h0)
    refine ⟨⟨⟨hpos,?_,?_,?_⟩,fun p _ hlt => ?_⟩,fun p hlt _ => ?_⟩
    · simp [hw.write,hw.accepted]
    · simp [hw.write,hw.consumed]
    · simp [hw.write]
    · simp [hw.write] at hlt
    · simp [hw.accepted] at hlt
  have hv := verified_reach ringProducerSystem_sound (verified_idle ringProducerSystem_sound
    (c := ⟨fun _ => .ret (),w⟩) (fun _ => rfl) hstart.1 fun _ => hstart.2) hc
  have hsound : c.state.Sound := hv.1
  have hwritten := hsound.ledger.written
  have hcredit := hsound.ledger.credit
  have hroom := hsound.ledger.room
  have hfree := audioRingFreeBytes_toNat hsound.ledger
  refine ⟨hwritten,UInt64.le_iff_toNat_le.mpr hcredit,by omega,by omega,hsound.pending,?_⟩
  intro hret p hp hlt
  have hsettled : c.state.Settled := hv.rest hret
  exact hsettled p (by omega) (by omega)

private def freshRing : RingWorld where
  session := {grant := {ringCapacity := 3840},ring := 1024,mapped := true}
  board _ := 0
  producerLine := {line := ⟨0,fun _ => 0⟩}
  firmwareLine := {line := ⟨0,fun _ => 0⟩}

private def fourBytes : Image := fun j => UInt8.ofNat (j+7)

private def fourWritten : RingWorld :=
  ((audioRingWrite fourBytes 4 >>= fun _ => .ret ()).run freshRing).2

/-- Four bytes written into a fresh ring -/
theorem ring_keeps_pcm_written : fourWritten.session.writeCursor.toNat = 4 ∧
    fourWritten.accepted[3]? = some (fourWritten.board (1024+3%3840)) := by
  have hwrite : Reach ringProducerSystem (fun _ t => t.accepted.length < 2^64)
      ⟨fun _ => .ret (),freshRing⟩ ⟨fun _ => .ret (),fourWritten⟩ := by
    apply reach_along (S := ringProducerSystem) (i := ()) 3 (c := ⟨fun _ => .ret (),freshRing⟩)
      rfl (Or.inl ⟨fourBytes,4,rfl⟩) (by decide)
    · exact ⟨by decide +kernel,by decide +kernel,by decide +kernel,trivial⟩
    · decide +kernel
  have hkeeps := ring_keeps_pcm freshRing ⟨fun _ => .ret (),fourWritten⟩
    ⟨by decide,rfl,rfl,rfl⟩ hwrite
  have hcursor : fourWritten.session.writeCursor = 4 := by decide +kernel
  have hconsumed : fourWritten.session.consumedCursor = 0 := by decide +kernel
  refine ⟨by rw [hcursor]; rfl,?_⟩
  exact hkeeps.2.2.2.2.1 3 (by rw [hconsumed]; decide) (by rw [hcursor]; decide)

end ZZ9K.Audio
