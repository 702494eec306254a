import ZZ9K.Framework.Overflow

namespace ZZ9K.Crypto

open ZZ9K.Framework

/-- `zz9k_soft_load32_le`; a pointer is the list of the bytes from there on. -/
def load32Le (p : List UInt8) : UInt32 :=
  (p.getD 0 0).toUInt32 ||| ((p.getD 1 0).toUInt32 <<< 8) ||| ((p.getD 2 0).toUInt32 <<< 16) |||
    ((p.getD 3 0).toUInt32 <<< 24)

/-- `zz9k_soft_store32_le` -/
def store32Le (value : UInt32) : List UInt8 :=
  [(value &&& 0xff).toUInt8,((value >>> 8) &&& 0xff).toUInt8,((value >>> 16) &&& 0xff).toUInt8,
    ((value >>> 24) &&& 0xff).toUInt8]

/-- Five limbs of 26 bits, lowest first -/
structure Limbs where
  l0 : UInt32
  l1 : UInt32
  l2 : UInt32
  l3 : UInt32
  l4 : UInt32
  deriving DecidableEq, Repr

/-- `ZZ9KSoftPoly1305` -/
structure SoftPoly1305 where
  r : Limbs
  h : Limbs
  pad0 : UInt32
  pad1 : UInt32
  pad2 : UInt32
  pad3 : UInt32
  deriving DecidableEq, Repr

/-- `zz9k_soft_poly1305_init` -/
def poly1305Init (key : List UInt8) : SoftPoly1305 :=
  let t0 := load32Le key
  let t1 := load32Le (key.drop 4)
  let t2 := load32Le (key.drop 8)
  let t3 := load32Le (key.drop 12)
  { r :=
      { l0 := t0 &&& 0x3ffffff
        l1 := ((t0 >>> 26) ||| (t1 <<< 6)) &&& 0x3ffff03
        l2 := ((t1 >>> 20) ||| (t2 <<< 12)) &&& 0x3ffc0ff
        l3 := ((t2 >>> 14) ||| (t3 <<< 18)) &&& 0x3f03fff
        l4 := (t3 >>> 8) &&& 0x00fffff }
    h := ⟨0,0,0,0,0⟩
    pad0 := load32Le (key.drop 16)
    pad1 := load32Le (key.drop 20)
    pad2 := load32Le (key.drop 24)
    pad3 := load32Le (key.drop 28) }

section

variable {M : Type → Type} [Monad M] [WordArith M]

open WordArith

/-- The sum of the five products on the right of `d0` to `d4` -/
def productSum (h w : Limbs) : M UInt64 := do
  let p0 ← mul64 h.l0.toUInt64 w.l0.toUInt64
  let p1 ← mul64 h.l1.toUInt64 w.l1.toUInt64
  let p2 ← mul64 h.l2.toUInt64 w.l2.toUInt64
  let p3 ← mul64 h.l3.toUInt64 w.l3.toUInt64
  let p4 ← mul64 h.l4.toUInt64 w.l4.toUInt64
  let d ← add64 p0 p1
  let d ← add64 d p2
  let d ← add64 d p3
  add64 d p4

/-- `zz9k_soft_poly1305_block`, in whatever way its words are added and multiplied -/
def poly1305BlockWith (st : SoftPoly1305) (block : List UInt8) (hibit : UInt32) :
    M SoftPoly1305 := do
  let r := st.r
  let s1 ← mul32 r.l1 5
  let s2 ← mul32 r.l2 5
  let s3 ← mul32 r.l3 5
  let s4 ← mul32 r.l4 5
  let t0 := load32Le block
  let t1 := load32Le (block.drop 4)
  let t2 := load32Le (block.drop 8)
  let t3 := load32Le (block.drop 12)
  let h0 ← add32 st.h.l0 (t0 &&& 0x3ffffff)
  let h1 ← add32 st.h.l1 (((t0 >>> 26) ||| (t1 <<< 6)) &&& 0x3ffffff)
  let h2 ← add32 st.h.l2 (((t1 >>> 20) ||| (t2 <<< 12)) &&& 0x3ffffff)
  let h3 ← add32 st.h.l3 (((t2 >>> 14) ||| (t3 <<< 18)) &&& 0x3ffffff)
  let h4 ← add32 st.h.l4 ((t3 >>> 8) ||| hibit)
  let h : Limbs := ⟨h0,h1,h2,h3,h4⟩
  let d0 ← productSum h ⟨r.l0,s4,s3,s2,s1⟩
  let d1 ← productSum h ⟨r.l1,r.l0,s4,s3,s2⟩
  let d2 ← productSum h ⟨r.l2,r.l1,r.l0,s4,s3⟩
  let d3 ← productSum h ⟨r.l3,r.l2,r.l1,r.l0,s4⟩
  let d4 ← productSum h ⟨r.l4,r.l3,r.l2,r.l1,r.l0⟩
  let c ← narrow (d0 >>> 26)
  let h0 := d0.toUInt32 &&& 0x3ffffff
  let d1 ← add64 d1 c.toUInt64
  let c ← narrow (d1 >>> 26)
  let h1 := d1.toUInt32 &&& 0x3ffffff
  let d2 ← add64 d2 c.toUInt64
  let c ← narrow (d2 >>> 26)
  let h2 := d2.toUInt32 &&& 0x3ffffff
  let d3 ← add64 d3 c.toUInt64
  let c ← narrow (d3 >>> 26)
  let h3 := d3.toUInt32 &&& 0x3ffffff
  let d4 ← add64 d4 c.toUInt64
  let c ← narrow (d4 >>> 26)
  let h4 := d4.toUInt32 &&& 0x3ffffff
  let c5 ← mul32 c 5
  let h0 ← add32 h0 c5
  let c := h0 >>> 26
  let h0 := h0 &&& 0x3ffffff
  let h1 ← add32 h1 c
  return {st with h := ⟨h0,h1,h2,h3,h4⟩}

end

/-- `zz9k_soft_poly1305_block` -/
def poly1305Block (st : SoftPoly1305) (block : List UInt8) (hibit : UInt32) : SoftPoly1305 :=
  Id.run (poly1305BlockWith st block hibit)

/-- The first part of `zz9k_soft_poly1305_finish`: all carries, once round -/
def carryLimbs (h : Limbs) : Limbs :=
  let c := h.l1 >>> 26
  let h1 := h.l1 &&& 0x3ffffff
  let h2 := h.l2+c
  let c := h2 >>> 26
  let h2 := h2 &&& 0x3ffffff
  let h3 := h.l3+c
  let c := h3 >>> 26
  let h3 := h3 &&& 0x3ffffff
  let h4 := h.l4+c
  let c := h4 >>> 26
  let h4 := h4 &&& 0x3ffffff
  let h0 := h.l0+c*5
  let c := h0 >>> 26
  let h0 := h0 &&& 0x3ffffff
  let h1 := h1+c
  ⟨h0,h1,h2,h3,h4⟩

/-- Its second part: `h` plus 5, less 2^130; the top limb wraps if that is negative. -/
def lessPrime (h : Limbs) : Limbs :=
  let g0 := h.l0+5
  let c := g0 >>> 26
  let g0 := g0 &&& 0x3ffffff
  let g1 := h.l1+c
  let c := g1 >>> 26
  let g1 := g1 &&& 0x3ffffff
  let g2 := h.l2+c
  let c := g2 >>> 26
  let g2 := g2 &&& 0x3ffffff
  let g3 := h.l3+c
  let c := g3 >>> 26
  let g3 := g3 &&& 0x3ffffff
  let g4 := h.l4+c-((1 : UInt32) <<< 26)
  ⟨g0,g1,g2,g3,g4⟩

/-- Its third part: `g` where that did not wrap, and else `h` -/
def selectLimbs (h g : Limbs) : Limbs :=
  let mask := (g.l4 >>> 31)-1
  let g0 := g.l0 &&& mask
  let g1 := g.l1 &&& mask
  let g2 := g.l2 &&& mask
  let g3 := g.l3 &&& mask
  let g4 := g.l4 &&& mask
  let mask := ~~~mask
  ⟨(h.l0 &&& mask) ||| g0,(h.l1 &&& mask) ||| g1,(h.l2 &&& mask) ||| g2,(h.l3 &&& mask) ||| g3,
    (h.l4 &&& mask) ||| g4⟩

/-- Its last part: the limbs packed into words, and the pad added -/
def addPad (st : SoftPoly1305) (h : Limbs) : List UInt8 :=
  let h0 := (h.l0 ||| (h.l1 <<< 26)) &&& 0xffffffff
  let h1 := ((h.l1 >>> 6) ||| (h.l2 <<< 20)) &&& 0xffffffff
  let h2 := ((h.l2 >>> 12) ||| (h.l3 <<< 14)) &&& 0xffffffff
  let h3 := ((h.l3 >>> 18) ||| (h.l4 <<< 8)) &&& 0xffffffff
  let f := h0.toUInt64+st.pad0.toUInt64
  let h0 := f.toUInt32
  let f := h1.toUInt64+st.pad1.toUInt64+(f >>> 32)
  let h1 := f.toUInt32
  let f := h2.toUInt64+st.pad2.toUInt64+(f >>> 32)
  let h2 := f.toUInt32
  let f := h3.toUInt64+st.pad3.toUInt64+(f >>> 32)
  let h3 := f.toUInt32
  store32Le h0++store32Le h1++store32Le h2++store32Le h3

/-- `zz9k_soft_poly1305_finish` -/
def poly1305Finish (st : SoftPoly1305) : List UInt8 :=
  let h := carryLimbs st.h
  addPad st (selectLimbs h (lessPrime h))

/-- The bit that a full block carries above its 16 bytes -/
def fullBlockBit : UInt32 := (1 : UInt32) <<< 24

/-- `zz9k_soft_poly1305_update` -/
def poly1305Update (st : SoftPoly1305) (message : List UInt8) : SoftPoly1305 :=
  if 16 ≤ message.length then
    poly1305Update (poly1305Block st (message.take 16) fullBlockBit) (message.drop 16)
  else if 0 < message.length then
    poly1305Block st (message++1::List.replicate (15-message.length) 0) 0
  else st
  termination_by message.length
  decreasing_by simp; omega

/-- `zz9k_soft_poly1305` -/
def poly1305 (message key : List UInt8) : List UInt8 :=
  poly1305Finish (poly1305Update (poly1305Init key) message)

end ZZ9K.Crypto
