import ZZ9K.Abi.BigEndian
import ZZ9K.Framework.CopyRange
import ZZ9K.Media.SharedCopy

namespace ZZ9K.Media

open ZZ9K.Abi ZZ9K.Host ZZ9K.Framework

/-- The byte order of the host -/
inductive Endian
  | big
  | little

/-- The board's memory, and the host's own -/
inductive Space
  | board
  | host
  deriving DecidableEq

/-- A space and an address in it -/
abbrev Pointer := Space × Nat

abbrev Bytes := Pointer → UInt8

/-- `NULL` -/
def nullPointer : Pointer := (.host,0)

/-- The memory, and the stores so far: the address and the width of each -/
structure Machine where
  bytes : Bytes
  stores : List (Pointer × Nat)

section

variable (e : Endian)

/-- A halfword of the host in four bytes -/
def hostGet16 (a b : UInt8) : UInt16 :=
  match e with
  | .big => getBe16 ⟨a,b⟩
  | .little => getBe16 ⟨b,a⟩

def hostPut16 (v : UInt16) : List UInt8 :=
  match e with
  | .big => [(putBe16 v).b0,(putBe16 v).b1]
  | .little => [(putBe16 v).b1,(putBe16 v).b0]

/-- A longword of the host in four bytes -/
def hostGet32 (a b c d : UInt8) : UInt32 :=
  match e with
  | .big => getBe32 ⟨a,b,c,d⟩
  | .little => getBe32 ⟨d,c,b,a⟩

def hostPut32 (v : UInt32) : List UInt8 :=
  match e with
  | .big => [(putBe32 v).b0,(putBe32 v).b1,(putBe32 v).b2,(putBe32 v).b3]
  | .little => [(putBe32 v).b3,(putBe32 v).b2,(putBe32 v).b1,(putBe32 v).b0]

/-- The bytes of a value go to memory, the first to the lowest address, in one store. -/
def storeBytes (p : Pointer) (data : List UInt8) (m : Machine) : Machine where
  bytes := fun x => if Inside p data.length x then data.getD (x.2-p.2) 0 else m.bytes x
  stores := m.stores++[(p,data.length)]

/-- `*dst8 = *src8` -/
def copyByte (dst src : Pointer) (m : Machine) : Machine := storeBytes dst [m.bytes src] m

/-- `*dst16 = *src16` -/
def copyHalf (dst src : Pointer) (m : Machine) : Machine :=
  storeBytes dst (hostPut16 e (hostGet16 e (m.bytes src) (m.bytes (ahead src 1)))) m

/-- `*dst32 = *src32`, and the same with a `memcpy` from the source to a word -/
def copyLong (dst src : Pointer) (m : Machine) : Machine :=
  storeBytes dst (hostPut32 e (hostGet32 e (m.bytes src) (m.bytes (ahead src 1))
    (m.bytes (ahead src 2)) (m.bytes (ahead src 3)))) m

/-- The loop over longwords: what is left, the pointers, and the memory -/
def copyLongs : Nat → Pointer → Pointer → Machine → Nat × Pointer × Pointer × Machine
  | left+4,dst,src,m => copyLongs left (ahead dst 4) (ahead src 4) (copyLong e dst src m)
  | left,dst,src,m => (left,dst,src,m)

/-- The loop over halfwords -/
def copyHalves : Nat → Pointer → Pointer → Machine → Nat × Pointer × Pointer × Machine
  | left+2,dst,src,m => copyHalves left (ahead dst 2) (ahead src 2) (copyHalf e dst src m)
  | left,dst,src,m => (left,dst,src,m)

/-- The loop over bytes -/
def copyBytes : Nat → Pointer → Pointer → Machine → Machine
  | 0,_,_,m => m
  | left+1,dst,src,m => copyBytes left (ahead dst 1) (ahead src 1) (copyByte dst src m)

/-- The loops of `zz9k_shared_copy_to` and of `zz9k_shared_copy_from` -/
def copyShared (length : Nat) (dst src : Pointer) (m : Machine) : Machine :=
  let (length,dst,src,m) :=
    if dst.2%4 = 0 ∧ src.2%4 = 0 then copyLongs e length dst src m else (length,dst,src,m)
  let (length,dst,src,m) :=
    if dst.2%2 = 0 ∧ src.2%2 = 0 then copyHalves e length dst src m else (length,dst,src,m)
  copyBytes length dst src m

/-- `(volatile uint8_t *)buffer->data + offset` -/
def sharedPointer (buffer : SharedBuffer) (offset : UInt32) : Pointer :=
  (.board,buffer.data.toNat+offset.toNat)

/-- `zz9k_shared_copy_to` -/
def sharedCopyTo (buffer : SharedBuffer) (offset : UInt32) (src : Pointer) (length : UInt32)
    (m : Machine) : Bool × Machine :=
  if ¬sharedRangeFits buffer offset length ∨ (length ≠ 0 ∧ src = nullPointer) then (false,m)
  else (true,copyShared e length.toNat (sharedPointer buffer offset) src m)

/-- `zz9k_shared_copy_from`, in the memory that it stores to -/
def sharedCopyFromAt (dst : Pointer) (buffer : SharedBuffer) (offset length : UInt32) (m : Machine) :
    Bool × Machine :=
  if ¬sharedRangeFits buffer offset length ∨ (length ≠ 0 ∧ dst = nullPointer) then (false,m)
  else (true,copyShared e length.toNat dst (sharedPointer buffer offset) m)

/-- The loop of `zz9k_shared_set` -/
def setBytes (dst : Pointer) (value : UInt8) : Nat → Machine → Machine
  | 0,m => m
  | left+1,m => setBytes (ahead dst 1) value left (storeBytes dst [value] m)

/-- `zz9k_shared_set` -/
def sharedSet (buffer : SharedBuffer) (offset : UInt32) (value : UInt8) (length : UInt32)
    (m : Machine) : Bool × Machine :=
  if ¬sharedRangeFits buffer offset length then (false,m)
  else (true,setBytes (sharedPointer buffer offset) value length.toNat m)

/-- The descending loop of `zz9k_shared_move` -/
def moveDown (dst src : Pointer) : Nat → Machine → Machine
  | 0,m => m
  | i+1,m => moveDown dst src i (copyByte (ahead dst i) (ahead src i) m)

/-- `zz9k_shared_move` -/
def sharedMove (buffer : SharedBuffer) (dstOffset srcOffset length : UInt32) (m : Machine) :
    Bool × Machine :=
  if ¬sharedRangeFits buffer dstOffset length ∨ ¬sharedRangeFits buffer srcOffset length then
    (false,m)
  else if length = 0 ∨ dstOffset = srcOffset then (true,m)
  else
    let dst := sharedPointer buffer dstOffset
    let src := sharedPointer buffer srcOffset
    if dstOffset < srcOffset then (true,copyBytes length.toNat dst src m)
    else (true,moveDown dst src length.toNat m)

/-- The first loop of `zz9k_audio_ring_copy_to_board`: up to the next longword of the board -/
def copyHead : Nat → Pointer → Pointer → Machine → Nat × Pointer × Pointer × Machine
  | left+1,dst,src,m =>
    if dst.2%4 = 0 then (left+1,dst,src,m)
    else copyHead left (ahead dst 1) (ahead src 1) (copyByte dst src m)
  | 0,dst,src,m => (0,dst,src,m)

/-- `zz9k_audio_ring_copy_to_board`, with `dst+offset`, `src+offset` and `length-offset` for the
offset that its loops share -/
def ringCopyToBoard (dst src : Pointer) (length : Nat) (m : Machine) : Machine :=
  let (left,dst,src,m) := copyHead length dst src m
  let (left,dst,src,m) := copyLongs e left dst src m
  copyBytes left dst src m

end

/-- What the stores of a call have done: the memory is `bytes`, and each store was inside the range,
at an address that its width divides. -/
structure Stored (dst : Pointer) (n : Nat) (bytes : Bytes) (m m' : Machine) : Prop where
  bytes_eq : m'.bytes = bytes
  stores_eq : ∃ new, m'.stores = m.stores++new ∧ ∀ s ∈ new,
    s.1.1 = dst.1 ∧ dst.2 ≤ s.1.2 ∧ s.1.2+s.2 ≤ dst.2+n ∧ s.1.2%s.2 = 0

section Words

theorem putBe16_getBe16 (b : Be16) : putBe16 (getBe16 b) = b := by
  have hvalue := congrArg UInt16.toNat (getBe16_putBe16 (getBe16 b))
  rw [getBe16_toNat,getBe16_toNat] at hvalue
  have h0 := (putBe16 (getBe16 b)).b0.toNat_lt
  have h1 := (putBe16 (getBe16 b)).b1.toNat_lt
  have h0' := b.b0.toNat_lt
  have h1' := b.b1.toNat_lt
  ext1
  · exact UInt8.toNat_inj.mp (by omega)
  · exact UInt8.toNat_inj.mp (by omega)

theorem putBe32_getBe32 (b : Be32) : putBe32 (getBe32 b) = b := by
  have hvalue := congrArg UInt32.toNat (getBe32_putBe32 (getBe32 b))
  rw [getBe32_toNat,getBe32_toNat] at hvalue
  have h0 := (putBe32 (getBe32 b)).b0.toNat_lt
  have h1 := (putBe32 (getBe32 b)).b1.toNat_lt
  have h2 := (putBe32 (getBe32 b)).b2.toNat_lt
  have h3 := (putBe32 (getBe32 b)).b3.toNat_lt
  have h0' := b.b0.toNat_lt
  have h1' := b.b1.toNat_lt
  have h2' := b.b2.toNat_lt
  have h3' := b.b3.toNat_lt
  ext1
  · exact UInt8.toNat_inj.mp (by omega)
  · exact UInt8.toNat_inj.mp (by omega)
  · exact UInt8.toNat_inj.mp (by omega)
  · exact UInt8.toNat_inj.mp (by omega)

/-- A halfword that is loaded and stored keeps its bytes in either byte order. -/
theorem hostPut16_get (e : Endian) (a b : UInt8) : hostPut16 e (hostGet16 e a b) = [a,b] := by
  cases e with
  | big => rw [hostGet16,hostPut16,putBe16_getBe16]
  | little => rw [hostGet16,hostPut16,putBe16_getBe16]

theorem hostPut32_get (e : Endian) (a b c d : UInt8) :
    hostPut32 e (hostGet32 e a b c d) = [a,b,c,d] := by
  cases e with
  | big => rw [hostGet32,hostPut32,putBe32_getBe32]
  | little => rw [hostGet32,hostPut32,putBe32_getBe32]

end Words

section Stores

variable {dst src : Pointer} {n k : Nat} {bytes bytes' : Bytes} {m m' m'' : Machine}

theorem Stored.nil (dst : Pointer) (n : Nat) (m : Machine) : Stored dst n m.bytes m m :=
  ⟨rfl,[],by simp⟩

theorem Stored.widen (h : Stored (ahead dst k) n bytes m m') {size : Nat} (hsize : k+n ≤ size) :
    Stored dst size bytes m m' := by
  obtain ⟨hbytes,new,hnew,hall⟩ := h
  refine ⟨hbytes,new,hnew,?_⟩
  intro s hs
  obtain ⟨hspace,hlow,hhigh,haligned⟩ := hall s hs
  simp only [ahead] at hspace hlow hhigh
  exact ⟨hspace,by omega,by omega,haligned⟩

theorem Stored.trans (h : Stored dst n bytes m m') (h' : Stored dst n bytes' m' m'') :
    Stored dst n bytes' m m'' := by
  obtain ⟨-,new,hnew,hall⟩ := h
  obtain ⟨hbytes,new',hnew',hall'⟩ := h'
  refine ⟨hbytes,new++new',by rw [hnew',hnew,List.append_assoc],?_⟩
  intro s hs
  exact (List.mem_append.mp hs).elim (hall s) (hall' s)

theorem storeBytes_stored (data : List UInt8) (haligned : dst.2%data.length = 0)
    (hbytes : (storeBytes dst data m).bytes = bytes) :
    Stored dst data.length bytes m (storeBytes dst data m) := by
  refine ⟨hbytes,[(dst,data.length)],rfl,?_⟩
  intro s hs
  obtain rfl := List.mem_singleton.mp hs
  exact ⟨rfl,Nat.le_refl _,Nat.le_refl _,haligned⟩

/-- A store of the bytes that a source has is a move. -/
theorem storeBytes_moved (data : List UInt8)
    (h : ∀ i, i < data.length → data.getD i 0 = m.bytes (ahead src i)) :
    (storeBytes dst data m).bytes = moved dst src data.length m.bytes := by
  funext x
  rw [storeBytes,moved]
  dsimp only
  split_ifs with hx
  · obtain ⟨-,hlow,hhigh⟩ := hx
    exact h (x.2-dst.2) (by omega)
  · rfl

theorem copyByte_stored (dst src : Pointer) (m : Machine) :
    Stored dst 1 (moved dst src 1 m.bytes) m (copyByte dst src m) := by
  apply storeBytes_stored [m.bytes src] (Nat.mod_one _)
  apply storeBytes_moved [m.bytes src]
  intro i hi
  obtain rfl := Nat.lt_one_iff.mp hi
  rfl

theorem copyHalf_stored (e : Endian) (h : Unspoiled dst src 2) (haligned : dst.2%2 = 0)
    (m : Machine) : Stored dst 2 (copiedUp dst src 2 m.bytes) m (copyHalf e dst src m) := by
  rw [copiedUp_eq h,copyHalf,hostPut16_get]
  apply storeBytes_stored [m.bytes src,m.bytes (ahead src 1)] haligned
  apply storeBytes_moved [m.bytes src,m.bytes (ahead src 1)]
  intro i hi
  match i,hi with
  | 0,_ => rfl
  | 1,_ => rfl

theorem copyLong_stored (e : Endian) (h : Unspoiled dst src 4) (haligned : dst.2%4 = 0)
    (m : Machine) : Stored dst 4 (copiedUp dst src 4 m.bytes) m (copyLong e dst src m) := by
  rw [copiedUp_eq h,copyLong,hostPut32_get]
  apply storeBytes_stored
    [m.bytes src,m.bytes (ahead src 1),m.bytes (ahead src 2),m.bytes (ahead src 3)] haligned
  apply storeBytes_moved
    [m.bytes src,m.bytes (ahead src 1),m.bytes (ahead src 2),m.bytes (ahead src 3)]
  intro i hi
  match i,hi with
  | 0,_ => rfl
  | 1,_ => rfl
  | 2,_ => rfl
  | 3,_ => rfl

end Stores

section Loops

variable {dst src : Pointer} {n k : Nat} {m m' m'' : Machine}

/-- A call has copied a range, byte after byte, or as if it had. -/
abbrev Copied (dst src : Pointer) (n : Nat) (m m' : Machine) : Prop :=
  Stored dst n (copiedUp dst src n m.bytes) m m'

theorem Copied.trans (h : Copied dst src n m m')
    (h' : Copied (ahead dst n) (ahead src n) k m' m'') : Copied dst src (n+k) m m'' := by
  have hfirst : Stored dst (n+k) (copiedUp dst src n m.bytes) m m' :=
    Stored.widen (k := 0) h (by omega)
  have hrest : Stored dst (n+k) _ m' m'' := Stored.widen (k := n) h' (Nat.le_refl _)
  rw [h.bytes_eq,copiedUp_add] at hrest
  exact Stored.trans hfirst hrest

theorem copyBytes_copied (n : Nat) (dst src : Pointer) (m : Machine) :
    Copied dst src n m (copyBytes n dst src m) := by
  induction n generalizing dst src m with
  | zero => exact Stored.nil dst 0 m
  | succ n ih =>
    have h := Copied.trans (copyByte_stored dst src m) (ih (ahead dst 1) (ahead src 1) _)
    rw [Nat.add_comm] at h
    exact h

/-- The loop over longwords leaves less than one, of the same range. -/
theorem copyLongs_copied (e : Endian) (h : Unspoiled dst src 4) (haligned : dst.2%4 = 0)
    (n : Nat) (m : Machine) :
    ∃ done left m', copyLongs e n dst src m = (left,ahead dst done,ahead src done,m') ∧
      done+left = n ∧ done%4 = 0 ∧ Copied dst src done m m' := by
  fun_induction copyLongs e n dst src m with
  | case1 left dst src m ih =>
    obtain ⟨done,rest,m',heq,hsum,hdiv,hcopied⟩ := ih (h.ahead 4) (by
      simp only [ahead]
      omega)
    refine ⟨4+done,rest,m',?_,by omega,by omega,?_⟩
    · rw [heq,ahead_ahead,ahead_ahead]
    · exact Copied.trans (copyLong_stored e h haligned m) hcopied
  | case2 left dst src m hleft =>
    exact ⟨0,left,m,rfl,Nat.zero_add left,rfl,Stored.nil dst 0 m⟩

theorem copyHalves_copied (e : Endian) (h : Unspoiled dst src 2) (haligned : dst.2%2 = 0)
    (n : Nat) (m : Machine) :
    ∃ done left m', copyHalves e n dst src m = (left,ahead dst done,ahead src done,m') ∧
      done+left = n ∧ Copied dst src done m m' := by
  fun_induction copyHalves e n dst src m with
  | case1 left dst src m ih =>
    obtain ⟨done,rest,m',heq,hsum,hcopied⟩ := ih (h.ahead 2) (by
      simp only [ahead]
      omega)
    refine ⟨2+done,rest,m',?_,by omega,?_⟩
    · rw [heq,ahead_ahead,ahead_ahead]
    · exact Copied.trans (copyHalf_stored e h haligned m) hcopied
  | case2 left dst src m hleft =>
    exact ⟨0,left,m,rfl,Nat.zero_add left,Stored.nil dst 0 m⟩

/-- Two pointers that a width divides are not closer than it. -/
theorem unspoiled_of_aligned {width : Nat} (hdst : dst.2%width = 0) (hsrc : src.2%width = 0) :
    Unspoiled dst src width := by
  intro _
  by_cases hle : dst.2 ≤ src.2
  · exact .inl hle
  · have hdvd := Nat.dvd_sub (Nat.dvd_of_mod_eq_zero hdst) (Nat.dvd_of_mod_eq_zero hsrc)
    have := Nat.le_of_dvd (by omega) hdvd
    exact .inr (by omega)

/-- Whichever loops the alignments let run, they copy the range. -/
theorem copyShared_copied (e : Endian) (n : Nat) (dst src : Pointer) (m : Machine) :
    Copied dst src n m (copyShared e n dst src m) := by
  have hhalves : ∀ (left : Nat) (dst src : Pointer) (m : Machine), Copied dst src left m
      (match (if dst.2%2 = 0 ∧ src.2%2 = 0 then copyHalves e left dst src m
          else (left,dst,src,m)) with
        | (left,dst,src,m) => copyBytes left dst src m) := by
    intro left dst src m
    split_ifs with heven
    · obtain ⟨done,rest,m',heq,hsum,hcopied⟩ :=
        copyHalves_copied e (unspoiled_of_aligned heven.1 heven.2) heven.1 left m
      rw [heq,← hsum]
      exact hcopied.trans (copyBytes_copied _ _ _ _)
    · exact copyBytes_copied _ _ _ _
  rw [copyShared]
  by_cases hlong : dst.2%4 = 0 ∧ src.2%4 = 0
  · rw [if_pos hlong]
    obtain ⟨done,rest,m',heq,hsum,-,hcopied⟩ :=
      copyLongs_copied e (unspoiled_of_aligned hlong.1 hlong.2) hlong.1 n m
    rw [heq,← hsum]
    exact hcopied.trans (hhalves rest _ _ _)
  · rw [if_neg hlong]
    exact hhalves n dst src m

theorem setBytes_stored (dst : Pointer) (v : UInt8) (n : Nat) (m : Machine) :
    Stored dst n (overwritten dst n v m.bytes) m (setBytes dst v n m) := by
  induction n generalizing dst m with
  | zero =>
    have hzero : overwritten dst 0 v m.bytes = m.bytes := by
      funext x
      rw [overwritten,if_neg]
      rintro ⟨-,hlow,hhigh⟩
      omega
    rw [hzero]
    exact Stored.nil dst 0 m
  | succ n ih =>
    have hone : (storeBytes dst [v] m).bytes = overwritten dst 1 v m.bytes := by
      funext x
      rw [storeBytes,overwritten]
      dsimp only [List.length_singleton]
      split_ifs with hx
      · obtain ⟨-,hlow,hhigh⟩ := hx
        have hfirst : x.2-dst.2 = 0 := by omega
        rw [hfirst]
        rfl
      · rfl
    have hstore : Stored dst 1 (overwritten dst 1 v m.bytes) m (storeBytes dst [v] m) :=
      storeBytes_stored [v] (Nat.mod_one _) hone
    have hfirst : Stored dst (1+n) (overwritten dst 1 v m.bytes) m (storeBytes dst [v] m) :=
      Stored.widen (k := 0) hstore (by omega)
    have hrest : Stored dst (1+n) _ _ (setBytes dst v (n+1) m) :=
      Stored.widen (k := 1) (ih (ahead dst 1) (storeBytes dst [v] m)) (Nat.le_refl _)
    rw [hone,filled_filled] at hrest
    rw [Nat.add_comm] at hfirst hrest
    exact hfirst.trans hrest

/-- The descending loop is a move where no part of the source is behind the destination. -/
theorem moveDown_stored {n : Nat} (h : UnspoiledDown dst src n) (m : Machine) :
    Stored dst n (moved dst src n m.bytes) m (moveDown dst src n m) := by
  induction n generalizing m with
  | zero =>
    rw [moved_zero]
    exact Stored.nil dst 0 m
  | succ n ih =>
    have hlast := copyByte_stored (ahead dst n) (ahead src n) m
    have hfirst : Stored dst (n+1) _ m _ := hlast.widen (Nat.le_refl (n+1))
    have hless : UnspoiledDown dst src n := by
      intro hspace
      cases h hspace with
      | inl hle => exact .inl hle
      | inr hle => exact .inr (by omega)
    have hrest : Stored dst (n+1) _ _ (moveDown dst src (n+1) m) :=
      Stored.widen (k := 0) (ih hless (copyByte (ahead dst n) (ahead src n) m)) (by omega)
    rw [hlast.bytes_eq,moved_moved_down h] at hrest
    exact hfirst.trans hrest

/-- The first loop of the ring's copy stops at a longword of the board, or at the end. -/
theorem copyHead_copied (n : Nat) (dst src : Pointer) (m : Machine) :
    ∃ done left m', copyHead n dst src m = (left,ahead dst done,ahead src done,m') ∧
      done+left = n ∧ ((ahead dst done).2%4 = 0 ∨ left = 0) ∧ Copied dst src done m m' := by
  induction n generalizing dst src m with
  | zero => exact ⟨0,0,m,rfl,rfl,.inr rfl,Stored.nil dst 0 m⟩
  | succ n ih =>
    rw [copyHead]
    by_cases haligned : dst.2%4 = 0
    · rw [if_pos haligned]
      exact ⟨0,n+1,m,rfl,Nat.zero_add _,.inl haligned,Stored.nil dst 0 m⟩
    · rw [if_neg haligned]
      obtain ⟨done,left,m',heq,hsum,hstop,hcopied⟩ :=
        ih (ahead dst 1) (ahead src 1) (copyByte dst src m)
      rw [ahead_ahead,ahead_ahead] at heq
      rw [ahead_ahead] at hstop
      exact ⟨1+done,left,m',heq,by omega,hstop,Copied.trans (copyByte_stored dst src m) hcopied⟩

theorem ringCopyToBoard_copied (e : Endian) {n : Nat} (h : Unspoiled dst src n) (m : Machine) :
    Copied dst src n m (ringCopyToBoard e dst src n m) := by
  obtain ⟨done,left,m',heq,hsum,hstop,hcopied⟩ := copyHead_copied n dst src m
  rw [ringCopyToBoard,heq,← hsum]
  dsimp only
  apply hcopied.trans
  by_cases hshort : left < 4
  · -- Less than a longword is left: its loop does not run.
    have hnone : copyLongs e left (ahead dst done) (ahead src done) m' =
        (left,ahead dst done,ahead src done,m') := by
      rw [copyLongs]
      rintro k rfl
      omega
    rw [hnone]
    exact copyBytes_copied left _ _ m'
  · have haligned : (ahead dst done).2%4 = 0 := hstop.resolve_right (by omega)
    obtain ⟨longs,rest,m'',heq',hsum',-,hlongs⟩ :=
      copyLongs_copied e ((h.ahead done).le (by omega)) haligned left m'
    rw [heq',← hsum']
    exact hlongs.trans (copyBytes_copied rest _ _ m'')

end Loops

section Buffer

/-- A range lies in a buffer that there is. -/
def SharedFits (buffer : SharedBuffer) (offset length : UInt32) : Prop :=
  buffer.handle ≠ invalidHandle ∧ buffer.data ≠ 0 ∧
    offset.toNat+length.toNat ≤ buffer.length.toNat

variable {buffer : SharedBuffer} {offset dstOffset srcOffset length : UInt32}

theorem sharedMove_stored (m : Machine)
    (hdst : sharedRangeFits buffer dstOffset length = true)
    (hsrc : sharedRangeFits buffer srcOffset length = true) :
    ∃ m', sharedMove buffer dstOffset srcOffset length m = (true,m') ∧
      Stored (sharedPointer buffer dstOffset) length.toNat
        (moved (sharedPointer buffer dstOffset) (sharedPointer buffer srcOffset) length.toNat
          m.bytes) m m' := by
  rw [sharedMove,if_neg (by simp [hdst,hsrc])]
  split_ifs with htrivial hbelow
  · refine ⟨m,rfl,?_⟩
    have hsame : moved (sharedPointer buffer dstOffset) (sharedPointer buffer srcOffset)
        length.toNat m.bytes = m.bytes := by
      rcases htrivial with rfl | rfl
      · exact moved_zero _ _
      · exact moved_self _ _
    rw [hsame]
    exact Stored.nil _ _ m
  · have hup : Unspoiled (sharedPointer buffer dstOffset) (sharedPointer buffer srcOffset)
        length.toNat := by
      intro _
      rw [UInt32.lt_iff_toNat_lt] at hbelow
      simp only [sharedPointer]
      omega
    rw [← copiedUp_eq hup]
    exact ⟨_,rfl,copyBytes_copied length.toNat _ _ m⟩
  · have hdown : UnspoiledDown (sharedPointer buffer dstOffset) (sharedPointer buffer srcOffset)
        length.toNat := by
      intro _
      rw [UInt32.lt_iff_toNat_lt] at hbelow
      simp only [sharedPointer]
      omega
    exact ⟨_,rfl,moveDown_stored hdown m⟩

/-- Between the board and the host, copies are exact at any two addresses, a move is exact at any
two offsets, and a range that does not fit is refused and leaves the memory as it is. No store is
outside the range or at an address that its width does not divide. A copy between two places of the
same space is a copy of bytes in ascending order. -/
theorem shared_bytes (e : Endian) (buffer : SharedBuffer) (m : Machine) :
    (∀ offset length, SharedFits buffer offset length →
      (∀ src, length = 0 ∨ src ≠ 0 → ∃ m', sharedCopyTo e buffer offset (.host,src) length m = (true,m') ∧
        Stored (sharedPointer buffer offset) length.toNat
          (moved (sharedPointer buffer offset) (.host,src) length.toNat m.bytes) m m') ∧
      (∀ dst, length = 0 ∨ dst ≠ 0 → ∃ m', sharedCopyFromAt e (.host,dst) buffer offset length m = (true,m') ∧
        Stored (.host,dst) length.toNat
          (moved (.host,dst) (sharedPointer buffer offset) length.toNat m.bytes) m m') ∧
      (∀ src, length = 0 ∨ src ≠ nullPointer → ∃ m', sharedCopyTo e buffer offset src length m = (true,m') ∧
        Copied (sharedPointer buffer offset) src length.toNat m m') ∧
      (∀ dst, length = 0 ∨ dst ≠ nullPointer →
        ∃ m', sharedCopyFromAt e dst buffer offset length m = (true,m') ∧
          Copied dst (sharedPointer buffer offset) length.toNat m m') ∧
      ∀ value, ∃ m', sharedSet buffer offset value length m = (true,m') ∧
        Stored (sharedPointer buffer offset) length.toNat
          (overwritten (sharedPointer buffer offset) length.toNat value m.bytes) m m') ∧
    (∀ dstOffset srcOffset length, SharedFits buffer dstOffset length →
      SharedFits buffer srcOffset length →
      ∃ m', sharedMove buffer dstOffset srcOffset length m = (true,m') ∧
        Stored (sharedPointer buffer dstOffset) length.toNat
          (moved (sharedPointer buffer dstOffset) (sharedPointer buffer srcOffset) length.toNat
            m.bytes) m m') ∧
    (∀ offset length, ¬SharedFits buffer offset length →
      (∀ p, sharedCopyTo e buffer offset p length m = (false,m)) ∧
      (∀ p, sharedCopyFromAt e p buffer offset length m = (false,m)) ∧
      (∀ value, sharedSet buffer offset value length m = (false,m)) ∧
      ∀ other, sharedMove buffer offset other length m = (false,m) ∧
        sharedMove buffer other offset length m = (false,m)) ∧
    ∀ dst src length, Stored (.board,dst) length
      (moved (.board,dst) (.host,src) length m.bytes) m
      (ringCopyToBoard e (.board,dst) (.host,src) length m) := by
  have hapart : ∀ {p q : Pointer} (n : Nat), p.1 ≠ q.1 → Unspoiled p q n :=
    fun _ hne hspace => absurd hspace hne
  refine ⟨?_,fun _ _ _ hdst hsrc => sharedMove_stored m (sharedRangeFits_iff.mpr hdst)
    (sharedRangeFits_iff.mpr hsrc),?_,?_⟩
  · intro offset length hrange
    have hfits := sharedRangeFits_iff.mpr hrange
    have hpointer : ∀ p, length = 0 ∨ p ≠ nullPointer →
        ¬(¬sharedRangeFits buffer offset length = true ∨ length ≠ 0 ∧ p = nullPointer) := by
      intro p hp
      rw [not_or,not_not]
      exact ⟨hfits,fun h => hp.elim h.1 fun hne => hne h.2⟩
    have hto : ∀ src, length = 0 ∨ src ≠ nullPointer → ∃ m',
        sharedCopyTo e buffer offset src length m = (true,m') ∧
          Copied (sharedPointer buffer offset) src length.toNat m m' := by
      intro src hsrc
      rw [sharedCopyTo,if_neg (hpointer src hsrc)]
      exact ⟨_,rfl,copyShared_copied e length.toNat _ src m⟩
    have hfrom : ∀ dst, length = 0 ∨ dst ≠ nullPointer → ∃ m',
        sharedCopyFromAt e dst buffer offset length m = (true,m') ∧
          Copied dst (sharedPointer buffer offset) length.toNat m m' := by
      intro dst hdst
      rw [sharedCopyFromAt,if_neg (hpointer dst hdst)]
      exact ⟨_,rfl,copyShared_copied e length.toNat dst _ m⟩
    have hhost : ∀ {p : Nat}, length = 0 ∨ p ≠ 0 →
        length = 0 ∨ ((.host,p) : Pointer) ≠ nullPointer := fun h =>
      h.imp id fun hp heq => hp (congrArg Prod.snd heq)
    refine ⟨?_,?_,hto,hfrom,?_⟩
    · intro src hsrc
      obtain ⟨m',heq,hcopied⟩ := hto (.host,src) (hhost hsrc)
      exact ⟨m',heq,copiedUp_eq (hapart length.toNat
        (p := sharedPointer buffer offset) (q := (.host,src)) (by simp [sharedPointer])) ▸ hcopied⟩
    · intro dst hdst
      obtain ⟨m',heq,hcopied⟩ := hfrom (.host,dst) (hhost hdst)
      exact ⟨m',heq,copiedUp_eq (hapart length.toNat
        (p := (.host,dst)) (q := sharedPointer buffer offset) (by simp [sharedPointer])) ▸ hcopied⟩
    · intro value
      rw [sharedSet,if_neg (by simp [hfits])]
      exact ⟨_,rfl,setBytes_stored _ value length.toNat m⟩
  · intro offset length hrange
    have hunfit : sharedRangeFits buffer offset length = false :=
      Bool.eq_false_iff.mpr fun h => hrange (sharedRangeFits_iff.mp h)
    refine ⟨?_,?_,?_,?_⟩
    · intro p
      rw [sharedCopyTo,if_pos (by simp [hunfit])]
    · intro p
      rw [sharedCopyFromAt,if_pos (by simp [hunfit])]
    · intro value
      rw [sharedSet,if_pos (by simp [hunfit])]
    · intro other
      constructor
      · rw [sharedMove,if_pos (by simp [hunfit])]
      · rw [sharedMove,if_pos (by simp [hunfit])]
  · intro dst src length
    have hup : Unspoiled ((.board,dst) : Pointer) (.host,src) length :=
      hapart length (by simp)
    rw [← copiedUp_eq hup]
    exact ringCopyToBoard_copied e hup m

/-- Bytes that tell their addresses -/
def numberedBytes : Machine := ⟨fun p => p.2.toUInt8,[]⟩

theorem shared_bytes_odd :
    (∃ m', sharedCopyTo .little ⟨5,0x1001,16⟩ 3 (.host,8) 7 numberedBytes = (true,m') ∧
      m'.bytes (.board,0x1006) = 10 ∧ m'.bytes (.board,0x100b) = 0x0b) ∧
    sharedSet ⟨5,0x1001,16⟩ 12 0 0xfffffffc numberedBytes = (false,numberedBytes) := by
  obtain ⟨hfit,-,hunfit,-⟩ := shared_bytes .little ⟨5,0x1001,16⟩ numberedBytes
  constructor
  · obtain ⟨m',heq,hstored⟩ := (hfit 3 7 ⟨by decide,by decide,by decide⟩).1 8 (by decide)
    refine ⟨m',heq,?_⟩
    rw [hstored.bytes_eq]
    decide
  · exact (hunfit 12 0xfffffffc fun h => absurd h.2.2 (by decide)).2.2.1 0

end Buffer

end ZZ9K.Media
